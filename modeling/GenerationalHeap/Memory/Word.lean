/-
Words as bytes, the lowest byte first.

Main statements: a word is made of its bytes and they of it (`littleEndian_byteOf`,
`byteOf_littleEndian`), and they are what `pushWord` puts behind other bytes
(`byte_pushWord`).
-/
import GenerationalHeap.Memory.Page

namespace GenerationalHeap

namespace Word

/-- The word of eight bytes, the lowest first. -/
@[inline] def ofBytes (b₀ b₁ b₂ b₃ b₄ b₅ b₆ b₇ : UInt8) : UInt64 :=
  b₀.toUInt64 ||| b₁.toUInt64 <<< 8 ||| b₂.toUInt64 <<< 16 ||| b₃.toUInt64 <<< 24 |||
    b₄.toUInt64 <<< 32 ||| b₅.toUInt64 <<< 40 ||| b₆.toUInt64 <<< 48 ||| b₇.toUInt64 <<< 56

/-- The word whose byte at each place is given. -/
def littleEndian (byte : Nat → UInt8) : UInt64 :=
  ofBytes (byte 0) (byte 1) (byte 2) (byte 3) (byte 4) (byte 5) (byte 6) (byte 7)

theorem littleEndian_congr {f g : Nat → UInt8} (h : ∀ k, k < 8 → f k = g k) :
    littleEndian f = littleEndian g := by
  simp only [littleEndian, h 0 (by decide), h 1 (by decide), h 2 (by decide), h 3 (by decide),
    h 4 (by decide), h 5 (by decide), h 6 (by decide), h 7 (by decide)]

/-- The byte of a word at place `k`, counted from the lowest one. -/
def byteOf (w : UInt64) (k : Nat) : UInt8 := (w >>> UInt64.ofNat (8 * k)).toUInt8

/-- Bytes with those of a word behind them. -/
def pushWord (bytes : ByteArray) (w : UInt64) : ByteArray :=
  bytes.push w.toUInt8 |>.push (w >>> 8).toUInt8 |>.push (w >>> 16).toUInt8
    |>.push (w >>> 24).toUInt8 |>.push (w >>> 32).toUInt8 |>.push (w >>> 40).toUInt8
    |>.push (w >>> 48).toUInt8 |>.push (w >>> 56).toUInt8

/-! ### Taking a word apart and putting it together -/

theorem getLsbD_mod_byte (v : BitVec 64) (j : Nat) :
    (v % 256#64).getLsbD j = (decide (j < 8) && v.getLsbD j) := by
  rw [BitVec.getLsbD, BitVec.getLsbD, BitVec.toNat_umod]
  exact Nat.testBit_mod_two_pow _ 8 j

/-- The byte of a word at bit `s`, in its place. -/
def byteInPlace (w : UInt64) (s : Nat) : UInt64 :=
  (w >>> UInt64.ofNat s).toUInt8.toUInt64 <<< UInt64.ofNat s

theorem getLsbD_byteInPlace (w : UInt64) {s i : Nat} (hs : s < 64) (hi : i < 64) :
    (byteInPlace w s).toBitVec.getLsbD i =
      (decide (s ≤ i ∧ i < s + 8) && w.toBitVec.getLsbD i) := by
  have hmod : s % 18446744073709551616 % 64 = s := by omega
  simp only [byteInPlace, UInt64.toBitVec_shiftLeft, UInt64.toUInt64_toUInt8, UInt64.toBitVec_mod,
    UInt64.toBitVec_shiftRight, UInt64.toBitVec_ofNat, BitVec.ofNat_eq_ofNat,
    BitVec.ushiftRight_eq', BitVec.shiftLeft_eq', BitVec.toNat_umod, UInt64.toNat_toBitVec,
    UInt64.toNat_ofNat', BitVec.toNat_ofNat, Nat.reducePow, Nat.reduceMod, hmod,
    BitVec.getLsbD_shiftLeft, getLsbD_mod_byte, BitVec.getLsbD_ushiftRight, Bool.decide_and]
  by_cases hsi : s ≤ i
  · rw [Nat.add_sub_cancel' hsi, decide_eq_true hi, decide_eq_false (Nat.not_lt.2 hsi),
      decide_eq_true hsi,
      show decide (i - s < 8) = decide (i < s + 8) from decide_eq_decide.2 (by omega)]
    simp
  · simp [hsi, Nat.lt_of_not_le hsi]

/-- A word is made of its bytes. -/
theorem littleEndian_byteOf (w : UInt64) : littleEndian (byteOf w) = w := by
  have hparts : littleEndian (byteOf w) =
      byteInPlace w 0 ||| byteInPlace w 8 ||| byteInPlace w 16 ||| byteInPlace w 24 |||
        byteInPlace w 32 ||| byteInPlace w 40 ||| byteInPlace w 48 ||| byteInPlace w 56 := by
    simp [littleEndian, ofBytes, byteInPlace, byteOf]
  rw [hparts]
  apply UInt64.toBitVec_inj.1
  apply BitVec.eq_of_getLsbD_eq
  intro i hi
  simp only [UInt64.toBitVec_or, BitVec.getLsbD_or]
  rw [getLsbD_byteInPlace w (by decide) hi, getLsbD_byteInPlace w (by decide) hi,
    getLsbD_byteInPlace w (by decide) hi, getLsbD_byteInPlace w (by decide) hi,
    getLsbD_byteInPlace w (by decide) hi, getLsbD_byteInPlace w (by decide) hi,
    getLsbD_byteInPlace w (by decide) hi, getLsbD_byteInPlace w (by decide) hi]
  cases w.toBitVec.getLsbD i
  · simp
  · simp only [Bool.and_true, ← Bool.decide_or, decide_eq_true_eq]
    omega

/-- A byte put at bit `s` of a word. -/
theorem getLsbD_shiftLeft_byte (b : UInt8) {s n : Nat} (hs : s < 64) (hn : n < 64) :
    (b.toUInt64 <<< UInt64.ofNat s).toBitVec.getLsbD n =
      (decide (s ≤ n) && b.toBitVec.getLsbD (n - s)) := by
  have hmod : s % 64 = s := Nat.mod_eq_of_lt hs
  simp only [UInt64.toBitVec_shiftLeft, UInt8.toBitVec_toUInt64, BitVec.ofNat_eq_ofNat,
    BitVec.shiftLeft_eq', BitVec.toNat_umod, BitVec.toNat_ofNat, UInt64.toNat_toBitVec,
    UInt64.toNat_ofNat', Nat.reducePow, Nat.reduceMod, Nat.reduceDvd, Nat.mod_mod_of_dvd, hmod,
    BitVec.getLsbD_shiftLeft, BitVec.getLsbD_setWidth]
  by_cases hle : s ≤ n
  · simp [hle, hn, show n - s < 64 by omega]
  · simp [hle, Nat.lt_of_not_le hle]

theorem getLsbD_byteOf (w : UInt64) {k i : Nat} (hk : k < 8) (hi : i < 8) :
    (byteOf w k).toBitVec.getLsbD i = w.toBitVec.getLsbD (8 * k + i) := by
  have hmod : 8 * k % 64 = 8 * k := Nat.mod_eq_of_lt (by omega)
  simp only [byteOf, UInt64.toBitVec_toUInt8, UInt64.toBitVec_shiftRight, BitVec.ofNat_eq_ofNat,
    BitVec.ushiftRight_eq', BitVec.toNat_umod, BitVec.toNat_ofNat, UInt64.toNat_toBitVec,
    UInt64.toNat_ofNat', Nat.reducePow, Nat.reduceMod, Nat.reduceDvd, Nat.mod_mod_of_dvd, hmod,
    BitVec.getLsbD_setWidth, hi, decide_true, Bool.true_and, BitVec.getLsbD_ushiftRight]

/-- The bytes of a word are those that it is made of. -/
theorem byteOf_littleEndian (f : Nat → UInt8) {k : Nat} (hk : k < 8) :
    byteOf (littleEndian f) k = f k := by
  have hparts : littleEndian f =
      (f 0).toUInt64 <<< UInt64.ofNat 0 ||| (f 1).toUInt64 <<< UInt64.ofNat 8 |||
        (f 2).toUInt64 <<< UInt64.ofNat 16 ||| (f 3).toUInt64 <<< UInt64.ofNat 24 |||
        (f 4).toUInt64 <<< UInt64.ofNat 32 ||| (f 5).toUInt64 <<< UInt64.ofNat 40 |||
        (f 6).toUInt64 <<< UInt64.ofNat 48 ||| (f 7).toUInt64 <<< UInt64.ofNat 56 := by
    simp [littleEndian, ofBytes]
  apply UInt8.toBitVec_inj.1
  apply BitVec.eq_of_getLsbD_eq
  intro i hi
  have hn : 8 * k + i < 64 := by omega
  rw [getLsbD_byteOf _ hk hi, hparts]
  simp only [UInt64.toBitVec_or, BitVec.getLsbD_or]
  rw [getLsbD_shiftLeft_byte _ (by decide) hn, getLsbD_shiftLeft_byte _ (by decide) hn,
    getLsbD_shiftLeft_byte _ (by decide) hn, getLsbD_shiftLeft_byte _ (by decide) hn,
    getLsbD_shiftLeft_byte _ (by decide) hn, getLsbD_shiftLeft_byte _ (by decide) hn,
    getLsbD_shiftLeft_byte _ (by decide) hn, getLsbD_shiftLeft_byte _ (by decide) hn]
  -- a byte has no bits from place 8 on, so of the lower bytes nothing is seen here
  have hpast : ∀ (b : UInt8) {n : Nat}, 8 ≤ n → b.toBitVec.getLsbD n = false := fun b n hn =>
    BitVec.getLsbD_of_ge _ _ hn
  match k, hk with
  | 0, _ | 1, _ | 2, _ | 3, _ | 4, _ | 5, _ | 6, _ | 7, _ =>
    simp (disch := omega) only [Nat.reduceMul, hpast, Nat.add_sub_cancel_left, Nat.le_add_right,
      Nat.zero_le, decide_true, Bool.true_and, Bool.and_false, Bool.false_or, Nat.zero_add,
      Nat.sub_zero, decide_eq_false, Bool.false_and, Bool.or_false]

theorem size_pushWord (bytes : ByteArray) (w : UInt64) :
    (pushWord bytes w).size = bytes.size + 8 := by
  simp only [pushWord, ByteArray.size_push]

theorem byte_push (bytes : ByteArray) (v : UInt8) (i : Nat) :
    Page.byte (bytes.push v) i = if i = bytes.size then v else Page.byte bytes i := by
  have hb : bytes.data.size = bytes.size := rfl
  rw [Page.byte_eq, Page.byte_eq, ByteArray.data_push, Array.getElem?_push, hb]
  split
  · rfl
  · rfl

theorem byte_pushWord (bytes : ByteArray) (w : UInt64) (i : Nat) :
    Page.byte (pushWord bytes w) i =
      if bytes.size ≤ i ∧ i < bytes.size + 8 then byteOf w (i - bytes.size)
      else Page.byte bytes i := by
  by_cases h : bytes.size ≤ i ∧ i < bytes.size + 8
  · obtain ⟨k, rfl⟩ := Nat.exists_eq_add_of_le h.1
    rw [if_pos h, Nat.add_sub_cancel_left]
    have hk : k < 8 := by omega
    match k, hk with
    | 0, _ | 1, _ | 2, _ | 3, _ | 4, _ | 5, _ | 6, _ | 7, _ =>
      simp [pushWord, byte_push, ByteArray.size_push, byteOf, Nat.add_assoc]
  · rw [if_neg h]
    simp only [pushWord, byte_push, ByteArray.size_push]
    repeat rw [if_neg (by omega)]

end Word

end GenerationalHeap
