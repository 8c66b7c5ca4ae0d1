/-
Header fields: what each setter changes, and how headers sit in memory.

The fields of the mark word share no bit, so a setter is seen by its own reader
alone.

* `Header.flag_setFlag_of_apart`, `Header.flag_setFlag_self` — flags.
* `Header.and_setAge_of_apart`, `Header.and_setSpace_of_apart` — age and tag.
* `Header.load_store` — a header is read as it was stored.
* `Header.load_congr` — a header depends on its 32 bytes alone.
* `Header.unmark_setMarked` — taking a mark back gives the header from before.
-/
import GenerationalHeap.Compaction.Plan
import Mathlib.Tactic.Set

namespace GenerationalHeap

/-! ### Masks that share no bit -/

namespace Word

theorem eq_of_bits {v w : UInt64}
    (h : ∀ i < 64, v.toBitVec.getLsbD i = w.toBitVec.getLsbD i) : v = w :=
  UInt64.toBitVec_inj.1 (BitVec.eq_of_getLsbD_eq h)

theorem bit_of_and_eq_zero {v w : UInt64} (h : v &&& w = 0) (i : Nat) :
    (v.toBitVec.getLsbD i && w.toBitVec.getLsbD i) = false := by
  have hi := congrArg (fun u : UInt64 => u.toBitVec.getLsbD i) h
  simpa using hi

theorem or_and_distrib (v w b : UInt64) : (v ||| w) &&& b = v &&& b ||| w &&& b :=
  UInt64.toBitVec_inj.1 BitVec.and_or_distrib_right

theorem or_and_of_apart {w a b : UInt64} (hab : a &&& b = 0) : (w ||| a) &&& b = w &&& b := by
  rw [or_and_distrib, hab, UInt64.or_zero]

theorem and_not_and_self (w a : UInt64) : w &&& ~~~a &&& a = 0 := by
  rw [UInt64.and_assoc, UInt64.and_comm (~~~a), UInt64.and_not_self, UInt64.and_zero]

theorem and_not_of_and_eq_zero {w a : UInt64} (h : w &&& a = 0) : w &&& ~~~a = w := by
  refine eq_of_bits ?_
  intro i hi
  have hbit := bit_of_and_eq_zero h i
  simp only [UInt64.toBitVec_and, UInt64.toBitVec_not, BitVec.getLsbD_and, BitVec.getLsbD_not, hi,
    decide_true, Bool.true_and]
  cases ha : a.toBitVec.getLsbD i with
  | false => simp
  | true =>
    -- a bit of the mask is not set in the word
    rw [ha, Bool.and_true] at hbit
    rw [hbit, Bool.false_and]

theorem and_not_and_of_apart {w a b : UInt64} (hab : a &&& b = 0) :
    w &&& ~~~a &&& b = w &&& b := by
  rw [UInt64.and_assoc, UInt64.and_comm (~~~a), and_not_of_and_eq_zero (UInt64.and_comm b a ▸ hab)]

theorem or_and_self (w a : UInt64) : (w ||| a) &&& a = a := by
  refine eq_of_bits ?_
  intro i _
  simp only [UInt64.toBitVec_and, UInt64.toBitVec_or, BitVec.getLsbD_and, BitVec.getLsbD_or]
  cases a.toBitVec.getLsbD i <;> simp

/-- Bits that are not set may be set and cleared again. -/
theorem or_and_not_of_and_eq_zero {w a : UInt64} (h : w &&& a = 0) : (w ||| a) &&& ~~~a = w := by
  rw [or_and_distrib, UInt64.and_not_self, UInt64.or_zero, and_not_of_and_eq_zero h]

end Word

namespace Header

/-! ### Flags -/

theorem and_setFlag_of_apart (h : Header) {a b : UInt64} (hab : a &&& b = 0) (on : Bool) :
    (h.setFlag a on).markWord &&& b = h.markWord &&& b := by
  cases on with
  | false => exact Word.and_not_and_of_apart hab
  | true => exact Word.or_and_of_apart hab

theorem flag_setFlag_of_apart (h : Header) {a b : UInt64} (hab : a &&& b = 0) (on : Bool) :
    (h.setFlag a on).flag b = h.flag b := by
  rw [flag, flag, and_setFlag_of_apart h hab]

theorem flag_setFlag_self (h : Header) {a : UInt64} (ha : a ≠ 0) (on : Bool) :
    (h.setFlag a on).flag a = on := by
  cases on with
  | false => simp [setFlag, flag, Word.and_not_and_self]
  | true => simp [setFlag, flag, Word.or_and_self, ha]

/-! ### Age and tag -/

/-- Bits that no age sets. -/
def ApartFromAge (b : UInt64) : Prop :=
  ageMask &&& b = 0 ∧ ∀ n : Fin 16, UInt64.ofNat n.val <<< 8 &&& b = 0

/-- Bits that no tag sets. -/
def ApartFromTag (b : UInt64) : Prop :=
  spaceMask &&& b = 0 ∧ ∀ n : Fin 4, UInt64.ofNat n.val <<< 12 &&& b = 0

instance (b : UInt64) : Decidable (ApartFromAge b) := inferInstanceAs (Decidable (_ ∧ _))

instance (b : UInt64) : Decidable (ApartFromTag b) := inferInstanceAs (Decidable (_ ∧ _))

theorem and_setAge_of_apart (h : Header) {b : UInt64} (hb : ApartFromAge b) (age : Nat) :
    (h.setAge age).markWord &&& b = h.markWord &&& b := by
  have hage : UInt64.ofNat (min age maxAge) <<< 8 &&& b = 0 :=
    hb.2 ⟨min age maxAge, by unfold maxAge; omega⟩
  rw [setAge, Word.or_and_of_apart hage, Word.and_not_and_of_apart hb.1]

theorem rank_lt (s : Space) : s.rank < 4 := by
  rcases s with (_ | _ | _) | _ <;> decide

theorem and_setSpace_of_apart (h : Header) {b : UInt64} (hb : ApartFromTag b) (s : Space) :
    (h.setSpace s).markWord &&& b = h.markWord &&& b := by
  rw [setSpace, Word.or_and_of_apart (hb.2 ⟨s.rank, rank_lt s⟩), Word.and_not_and_of_apart hb.1]

theorem flag_setAge (h : Header) {b : UInt64} (hb : ApartFromAge b) (age : Nat) :
    (h.setAge age).flag b = h.flag b := by
  rw [flag, flag, and_setAge_of_apart h hb]

theorem flag_setSpace (h : Header) {b : UInt64} (hb : ApartFromTag b) (s : Space) :
    (h.setSpace s).flag b = h.flag b := by
  rw [flag, flag, and_setSpace_of_apart h hb]

@[simp] theorem space_setSpace (h : Header) (s : Space) : (h.setSpace s).space = s := by
  have hand : (h.setSpace s).markWord &&& spaceMask = UInt64.ofNat s.rank <<< 12 &&& spaceMask := by
    rw [setSpace, Word.or_and_distrib, Word.and_not_and_self, UInt64.zero_or]
  rw [space, hand]
  rcases s with (_ | _ | _) | _ <;> rfl

@[simp] theorem age_setAge (h : Header) (age : Nat) : (h.setAge age).age = min age maxAge := by
  have hand : (h.setAge age).markWord &&& ageMask =
      UInt64.ofNat (min age maxAge) <<< 8 &&& ageMask := by
    rw [setAge, Word.or_and_distrib, Word.and_not_and_self, UInt64.zero_or]
  -- an age has four bits, so all of them can be tried
  have hall : ∀ n : Fin 16, ((UInt64.ofNat n.val <<< 8 &&& ageMask) >>> 8).toNat = n.val := by
    decide
  rw [Header.age, hand]
  exact hall ⟨min age maxAge, by unfold maxAge; omega⟩

theorem space_setFlag (h : Header) {a : UInt64} (ha : a &&& spaceMask = 0) (on : Bool) :
    (h.setFlag a on).space = h.space := by
  rw [space, space, and_setFlag_of_apart h ha]

theorem age_setFlag (h : Header) {a : UInt64} (ha : a &&& ageMask = 0) (on : Bool) :
    (h.setFlag a on).age = h.age := by
  rw [age, age, and_setFlag_of_apart h ha]

theorem age_setSpace (h : Header) (s : Space) : (h.setSpace s).age = h.age := by
  rw [age, age, and_setSpace_of_apart h (by decide)]

/-! ### What the collector's setters change -/

@[simp] theorem isMarked_setMarked (h : Header) (on : Bool) : (h.setMarked on).isMarked = on :=
  flag_setFlag_self h (by decide) on

@[simp] theorem isForwarded_setMarked (h : Header) (on : Bool) :
    (h.setMarked on).isForwarded = h.isForwarded := flag_setFlag_of_apart h (by decide) on

@[simp] theorem space_setMarked (h : Header) (on : Bool) : (h.setMarked on).space = h.space :=
  space_setFlag h (by decide) on

@[simp] theorem forwarding_setMarked (h : Header) (on : Bool) :
    (h.setMarked on).forwarding = h.forwarding := rfl

@[simp] theorem isMarked_clearForwarding (h : Header) :
    h.clearForwarding.isMarked = h.isMarked := flag_setFlag_of_apart _ (by decide) _

@[simp] theorem isForwarded_clearForwarding (h : Header) :
    h.clearForwarding.isForwarded = false := flag_setFlag_self _ (by decide) _

@[simp] theorem space_clearForwarding (h : Header) : h.clearForwarding.space = h.space :=
  space_setFlag _ (by decide) _

@[simp] theorem forwarding_clearForwarding (h : Header) : h.clearForwarding.forwarding = 0 := rfl

/-- What a collection leaves alone in the header of a survivor. -/
structure Identity where
  typeId : TypeId
  size : UInt32
  slot : UInt64
  hasFinalizer : Bool
  isFinalized : Bool
  deriving DecidableEq

/-- The part of a header that a collection leaves alone. -/
def identity (h : Header) : Identity :=
  { typeId := h.typeId
    size := h.size
    slot := h.slot
    hasFinalizer := h.hasFinalizer
    isFinalized := h.isFinalized }

theorem identity_setFlag (h : Header) {a : UInt64} (h₁ : a &&& finalizerMask = 0)
    (h₂ : a &&& finalizedMask = 0) (on : Bool) : (h.setFlag a on).identity = h.identity := by
  rw [identity, identity, hasFinalizer, isFinalized, flag_setFlag_of_apart h h₁,
    flag_setFlag_of_apart h h₂]
  rfl

@[simp] theorem identity_setMarked (h : Header) (on : Bool) :
    (h.setMarked on).identity = h.identity := identity_setFlag h (by decide) (by decide) on

@[simp] theorem identity_clearForwarding (h : Header) : h.clearForwarding.identity = h.identity :=
  identity_setFlag { h with forwarding := 0 } (by decide) (by decide) false

@[simp] theorem size_setMarked (h : Header) (on : Bool) : (h.setMarked on).size = h.size := rfl

@[simp] theorem size_clearForwarding (h : Header) : h.clearForwarding.size = h.size := rfl

/-! ### Headers of survivors -/

section Forwarded

variable (h : Header) (a : Address) (n : Nat) (s : Space)

theorem flag_forwardTo {b : UInt64} (hb : forwardedMask &&& b = 0) :
    (h.forwardTo a).flag b = h.flag b :=
  flag_setFlag_of_apart { h with forwarding := a } hb true

theorem isMarked_relabel : (((h.forwardTo a).setAge n).setSpace s).isMarked = h.isMarked := by
  rw [isMarked, isMarked, flag_setSpace _ (by decide), flag_setAge _ (by decide),
    flag_forwardTo _ _ (by decide)]

theorem isForwarded_relabel : (((h.forwardTo a).setAge n).setSpace s).isForwarded = true := by
  rw [isForwarded, flag_setSpace _ (by decide), flag_setAge _ (by decide), forwardTo,
    flag_setFlag_self _ (by decide)]

theorem identity_relabel : (((h.forwardTo a).setAge n).setSpace s).identity = h.identity := by
  rw [identity, identity, hasFinalizer, isFinalized, flag_setSpace _ (by decide),
    flag_setSpace _ (by decide), flag_setAge _ (by decide), flag_setAge _ (by decide),
    flag_forwardTo _ _ (by decide), flag_forwardTo _ _ (by decide)]
  rfl

variable (old : Space) (g : Generation) (dest : Nat)

@[simp] theorem isMarked_forwarded : (Plan.forwarded old h g dest).isMarked = h.isMarked :=
  isMarked_relabel h _ _ _

@[simp] theorem isForwarded_forwarded : (Plan.forwarded old h g dest).isForwarded = true :=
  isForwarded_relabel h _ _ _

@[simp] theorem space_forwarded : (Plan.forwarded old h g dest).space = .arena g :=
  space_setSpace _ _

@[simp] theorem size_forwarded : (Plan.forwarded old h g dest).size = h.size := rfl

@[simp] theorem identity_forwarded : (Plan.forwarded old h g dest).identity = h.identity :=
  identity_relabel h _ _ _

end Forwarded

theorem and_eq_zero_of_flag {h : Header} {a : UInt64} (ha : h.flag a = false) :
    h.markWord &&& a = 0 := by
  simpa [flag] using ha

/-- A header that was neither marked nor forwarded is as before once its mark is taken
back. -/
theorem unmark_setMarked {h : Header} (hm : h.isMarked = false) (hf : h.isForwarded = false)
    (hz : h.forwarding = 0) : ((h.setMarked true).setMarked false).clearForwarding = h := by
  -- neither of the two bits was set before
  have hw : (h.markWord ||| markedMask) &&& ~~~markedMask &&& ~~~forwardedMask = h.markWord := by
    rw [Word.or_and_not_of_and_eq_zero (and_eq_zero_of_flag hm),
      Word.and_not_of_and_eq_zero (and_eq_zero_of_flag hf)]
  cases h with
  | mk markWord size typeId slot forwarding =>
    simp only [setMarked, clearForwarding, setFlag, Bool.false_eq_true, if_true, if_false,
      mk.injEq]
    exact ⟨hw, trivial, trivial, trivial, hz.symm⟩

/-! ### New headers -/

section Fresh

variable (typeId : TypeId) (size : UInt32) (s : Space) (hasFinalizer : Bool)

theorem flag_fresh {a : UInt64} (ha : finalizerMask &&& a = 0) (ht : ApartFromTag a) :
    (fresh typeId size s hasFinalizer).flag a = false := by
  rw [fresh, setHasFinalizer, flag_setFlag_of_apart _ ha, flag_setSpace _ ht, flag]
  simp

@[simp] theorem isMarked_fresh : (fresh typeId size s hasFinalizer).isMarked = false :=
  flag_fresh typeId size s hasFinalizer (by decide) (by decide)

@[simp] theorem isForwarded_fresh : (fresh typeId size s hasFinalizer).isForwarded = false :=
  flag_fresh typeId size s hasFinalizer (by decide) (by decide)

@[simp] theorem space_fresh : (fresh typeId size s hasFinalizer).space = s := by
  rw [fresh, setHasFinalizer, space_setFlag _ (by decide), space_setSpace]

@[simp] theorem age_fresh : (fresh typeId size s hasFinalizer).age = 0 := by
  rw [fresh, setHasFinalizer, age_setFlag _ (by decide), age_setSpace, age, UInt64.zero_and]
  rfl

@[simp] theorem forwarding_fresh : (fresh typeId size s hasFinalizer).forwarding = 0 := by
  cases hasFinalizer <;> rfl

@[simp] theorem slot_fresh : (fresh typeId size s hasFinalizer).slot = 0 := by
  cases hasFinalizer <;> rfl

/-- A new object awaits finalization if it was asked to. -/
@[simp] theorem needsFinalization_fresh :
    (fresh typeId size s hasFinalizer).needsFinalization = hasFinalizer := by
  have hover : (fresh typeId size s hasFinalizer).isFinalized = false :=
    flag_fresh typeId size s hasFinalizer (by decide) (by decide)
  have hwants : (fresh typeId size s hasFinalizer).hasFinalizer = hasFinalizer :=
    flag_setFlag_self _ (by decide) _
  rw [needsFinalization, hover, hwants, Bool.not_false, Bool.and_true]

@[simp] theorem typeId_fresh : (fresh typeId size s hasFinalizer).typeId = typeId := by
  cases hasFinalizer <;> rfl

@[simp] theorem size_fresh : (fresh typeId size s hasFinalizer).size = size := by
  cases hasFinalizer <;> rfl

end Fresh

/-! ### Headers in memory -/

theorem blockSize_eq (h : Header) : h.blockSize = headerSize + h.payloadSize := rfl

theorem headerSize_le (h : Header) : headerSize ≤ h.blockSize := Nat.le_add_right _ _

/-- A word of the payload lies in the block. -/
theorem payload_lt {h : Header} {o i : Nat} (ho : o + 8 ≤ h.payloadSize) (hi : i < 8) :
    headerSize + o + i < h.blockSize := by
  rw [blockSize_eq]
  omega

theorem size_bytes (h : Header) : h.bytes.size = headerSize := by
  simp only [bytes, Word.size_pushWord]
  rfl

/-- The word that holds size and type number. -/
def sizeAndType (h : Header) : UInt64 := h.size.toUInt64 ||| h.typeId.index.toUInt64 <<< 32

theorem toUInt32_sizeAndType (h : Header) : h.sizeAndType.toUInt32 = h.size := by
  apply UInt32.toBitVec_inj.1
  apply BitVec.eq_of_getLsbD_eq
  intro i hi
  simp [sizeAndType, hi]

theorem toUInt32_sizeAndType_shift (h : Header) :
    (h.sizeAndType >>> 32).toUInt32 = h.typeId.index := by
  apply UInt32.toBitVec_inj.1
  apply BitVec.eq_of_getLsbD_eq
  intro i hi
  have hin : 32 + i < 64 := by omega
  simp [sizeAndType, hi, hin]

end Header

namespace Word

/-- The word in eight bytes of a row. -/
def within (bytes : ByteArray) (i : Nat) : UInt64 := littleEndian fun k => Page.byte bytes (i + k)

theorem within_pushWord_size (bytes : ByteArray) (w : UInt64) :
    within (pushWord bytes w) bytes.size = w := by
  refine (littleEndian_congr ?_).trans (littleEndian_byteOf w)
  intro k hk
  rw [byte_pushWord, if_pos (by omega), Nat.add_sub_cancel_left]

theorem within_pushWord_of_le {bytes : ByteArray} {i : Nat} (h : i + 8 ≤ bytes.size) (w : UInt64) :
    within (pushWord bytes w) i = within bytes i := by
  refine littleEndian_congr ?_
  intro k hk
  rw [byte_pushWord, if_neg (by omega)]

end Word

theorem Memory.word_overwrite {m : Memory} {start : Nat} {bytes : ByteArray}
    (h : start + bytes.size ≤ m.size) {i : Nat} (hi : i + 8 ≤ bytes.size) :
    (m.overwrite start bytes).word (start + i) = Word.within bytes i := by
  rw [word_eq]
  refine Word.littleEndian_congr ?_
  intro k hk
  rw [byte_overwrite h, if_pos (by omega)]
  congr 1
  omega

namespace Header

theorem within_bytes (h : Header) :
    Word.within h.bytes 0 = h.markWord ∧ Word.within h.bytes 8 = h.sizeAndType ∧
      Word.within h.bytes 16 = h.slot ∧ Word.within h.bytes 24 = h.forwarding := by
  set b₀ : ByteArray := .emptyWithCapacity headerSize
  set b₁ := Word.pushWord b₀ h.markWord with h₁
  set b₂ := Word.pushWord b₁ h.sizeAndType with h₂
  set b₃ := Word.pushWord b₂ h.slot with h₃
  have hb : h.bytes = Word.pushWord b₃ h.forwarding := rfl
  have s₀ : b₀.size = 0 := rfl
  have s₁ : b₁.size = 8 := by rw [h₁, Word.size_pushWord, s₀]
  have s₂ : b₂.size = 16 := by rw [h₂, Word.size_pushWord, s₁]
  have s₃ : b₃.size = 24 := by rw [h₃, Word.size_pushWord, s₂]
  -- a word is found where it was pushed, and later ones do not touch it
  rw [hb]
  refine ⟨?_, ?_, ?_, ?_⟩
  · rw [Word.within_pushWord_of_le (by omega), h₃, Word.within_pushWord_of_le (by omega), h₂,
      Word.within_pushWord_of_le (by omega)]
    exact Word.within_pushWord_size b₀ _
  · rw [Word.within_pushWord_of_le (by omega), h₃, Word.within_pushWord_of_le (by omega), h₂, ← s₁]
    exact Word.within_pushWord_size b₁ _
  · rw [Word.within_pushWord_of_le (by omega), h₃, ← s₂]
    exact Word.within_pushWord_size b₂ _
  · rw [← s₃]
    exact Word.within_pushWord_size b₃ _

theorem byte_store {m : Memory} {x : Nat} (h : Header) (hx : x + headerSize ≤ m.size) (i : Nat) :
    (h.store m x).byte i =
      if x ≤ i ∧ i < x + headerSize then Page.byte h.bytes (i - x) else m.byte i := by
  rw [store, Memory.byte_overwrite (by rw [size_bytes]; exact hx), size_bytes]

@[simp] theorem size_store (h : Header) (m : Memory) (x : Nat) : (h.store m x).size = m.size :=
  Memory.size_overwrite _ _ _

theorem load_store {m : Memory} {x : Nat} (h : Header) (hx : x + headerSize ≤ m.size) :
    load (h.store m x) x = h := by
  have hfit : x + h.bytes.size ≤ m.size := by rwa [size_bytes]
  have hsize : h.bytes.size = 32 := size_bytes h
  -- the four words of the stored row, read back at their places in the memory
  obtain ⟨h₀, h₈, h₁₆, h₂₄⟩ := within_bytes h
  have hmark : (h.store m x).word x = h.markWord :=
    (Memory.word_overwrite (i := 0) hfit (by omega)).trans h₀
  have htype : (h.store m x).word (x + 8) = h.sizeAndType :=
    (Memory.word_overwrite hfit (by omega)).trans h₈
  have hslot : (h.store m x).word (x + 16) = h.slot :=
    (Memory.word_overwrite hfit (by omega)).trans h₁₆
  have hforward : (h.store m x).word (x + 24) = h.forwarding :=
    (Memory.word_overwrite hfit (by omega)).trans h₂₄
  rw [load, hmark, htype, hslot, hforward, toUInt32_sizeAndType, toUInt32_sizeAndType_shift]

/-- A header depends on its bytes alone. -/
theorem load_congr {m m' : Memory} {x x' : Nat}
    (h : ∀ i < headerSize, m.byte (x + i) = m'.byte (x' + i)) : load m x = load m' x' := by
  have hword : ∀ k, k + 8 ≤ headerSize → m.word (x + k) = m'.word (x' + k) := by
    intro k hk
    rw [Memory.word_eq, Memory.word_eq]
    refine Word.littleEndian_congr ?_
    intro i hi
    rw [Nat.add_assoc, Nat.add_assoc]
    exact h (k + i) (by omega)
  -- `load` reads nothing but the four words at 0, 8, 16 and 24
  rw [load, load, hword 8 (by decide), hword 16 (by decide), hword 24 (by decide)]
  have h₀ := hword 0 (by decide)
  rw [Nat.add_zero, Nat.add_zero] at h₀
  rw [h₀]

end Header

end GenerationalHeap
