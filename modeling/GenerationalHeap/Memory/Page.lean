/-
Byte arrays as pages: what is past the stored bytes reads as zero.

* `Page.byte` — the view that the laws of the other operations are stated in:
  `byte_append`, `byte_extract`, `byte_padTo`, `byte_setByte`, `byte_overlay`.
* `Page.pushMany`, `Page.repeated`, `Page.padTo` — more bytes at the end.
* `Page.setByte`, `Page.overlay` — writing; the page grows as far as it has to.
-/

namespace GenerationalHeap

namespace Page

/-! ### Bytes and their number -/

/-- The byte of a page at `i`; zero past the stored ones. -/
@[inline] def byte (page : ByteArray) (i : Nat) : UInt8 := if h : i < page.size then page[i] else 0

theorem byte_eq (page : ByteArray) (i : Nat) : byte page i = page.data[i]?.getD 0 := by
  rw [byte]
  split
  · rename_i h
    rw [getElem?_pos _ i h, Option.getD_some]
    rfl
  · rename_i h
    rw [getElem?_neg _ i h, Option.getD_none]

theorem byte_of_size_le {page : ByteArray} {i : Nat} (h : page.size ≤ i) : byte page i = 0 :=
  dif_neg (Nat.not_lt.2 h)

/-- Bytes with `n` times the byte `v` behind them. -/
def pushMany (v : UInt8) : Nat → ByteArray → ByteArray
  | 0, bytes => bytes
  | n + 1, bytes => pushMany v n (bytes.push v)

theorem data_pushMany (v : UInt8) (n : Nat) (bytes : ByteArray) :
    (pushMany v n bytes).data = bytes.data ++ Array.replicate n v := by
  induction n generalizing bytes with
  | zero => simp [pushMany]
  | succ n ih =>
    rw [pushMany, ih, ByteArray.data_push, Array.replicate_succ']
    simp

theorem size_pushMany (v : UInt8) (n : Nat) (bytes : ByteArray) :
    (pushMany v n bytes).size = bytes.size + n := by
  rw [← ByteArray.size_data, data_pushMany, Array.size_append, Array.size_replicate]
  rfl

/-- A row of `n` equal bytes. -/
def repeated (n : Nat) (v : UInt8) : ByteArray := pushMany v n .empty

theorem size_repeated (n : Nat) (v : UInt8) : (repeated n v).size = n := by
  rw [repeated, size_pushMany, ByteArray.size_empty, Nat.zero_add]

theorem byte_repeated {n i : Nat} (v : UInt8) (h : i < n) : byte (repeated n v) i = v := by
  rw [byte_eq, repeated, data_pushMany, ByteArray.data_empty, Array.empty_append,
    Array.getElem?_replicate, if_pos h, Option.getD_some]

/-- Bytes with as many zeros behind them as make at least `n` bytes. -/
def padTo (n : Nat) (bytes : ByteArray) : ByteArray := pushMany 0 (n - bytes.size) bytes

theorem size_padTo (n : Nat) (bytes : ByteArray) : (padTo n bytes).size = max n bytes.size := by
  rw [padTo, size_pushMany]
  omega

theorem byte_padTo (n : Nat) (bytes : ByteArray) (i : Nat) :
    byte (padTo n bytes) i = byte bytes i := by
  rw [byte_eq, byte_eq, padTo, data_pushMany]
  by_cases hi : i < bytes.data.size
  · rw [Array.getElem?_append_left hi]
  · rw [Array.getElem?_append_right (Nat.not_lt.1 hi), getElem?_neg bytes.data i hi,
      Array.getElem?_replicate]
    split <;> rfl

theorem byte_append (a b : ByteArray) (i : Nat) :
    byte (a ++ b) i = if i < a.size then byte a i else byte b (i - a.size) := by
  have ha : a.data.size = a.size := rfl
  rw [byte_eq, byte_eq, byte_eq, ByteArray.data_append]
  by_cases hi : i < a.size
  · rw [Array.getElem?_append_left (by omega), if_pos hi]
  · rw [Array.getElem?_append_right (by omega), if_neg hi, ha]

theorem byte_extract (bytes : ByteArray) (start n i : Nat) (h : i < n) :
    byte (bytes.extract start (start + n)) i = byte bytes (start + i) := by
  have hb : bytes.data.size = bytes.size := rfl
  rw [byte_eq, byte_eq, ByteArray.data_extract, Array.getElem?_extract]
  split
  · rfl
  · rw [getElem?_neg bytes.data _ (by omega)]

/-- Changes the byte of a page at `i`. -/
def setByte (i : Nat) (v : UInt8) (page : ByteArray) : ByteArray :=
  (padTo (i + 1) page).set i v (by rw [size_padTo]; omega)

theorem byte_setByte (i j : Nat) (v : UInt8) (page : ByteArray) :
    byte (setByte i v page) j = if j = i then v else byte page j := by
  have hpad : i < (padTo (i + 1) page).data.size := by
    rw [ByteArray.size_data, size_padTo]
    omega
  rw [← byte_padTo (i + 1) page j, byte_eq, byte_eq, setByte]
  simp only [ByteArray.data_set, Array.getElem?_set hpad]
  by_cases hij : j = i
  · subst hij
    simp
  · rw [if_neg (Ne.symm hij), if_neg hij]

/-- Puts the `n` bytes of `source` from `start` on in place of those of a page from
`i` on. -/
def overlay (source : ByteArray) (start i n : Nat) (page : ByteArray) : ByteArray :=
  source.copySlice start (padTo i page) i n false

theorem byte_overlay {source : ByteArray} {start n : Nat} (h : start + n ≤ source.size)
    (i j : Nat) (page : ByteArray) :
    byte (overlay source start i n page) j =
      if i ≤ j ∧ j < i + n then byte source (start + (j - i)) else byte page j := by
  rw [← byte_padTo i page j, byte_eq, byte_eq, byte_eq, overlay]
  have hpad : i ≤ (padTo i page).size := by
    rw [size_padTo]
    omega
  generalize padTo i page = bytes at hpad ⊢
  have hb : bytes.data.size = bytes.size := rfl
  have hs : source.data.size = source.size := rfl
  have hfront : (bytes.data.extract 0 i).size = i := by
    rw [Array.size_extract, hb]
    omega
  have hmiddle : (source.data.extract start (start + n)).size = n := by
    rw [Array.size_extract, hs]
    omega
  rw [ByteArray.copySlice, hs]
  -- the copy is made of three pieces: before, within and after the bytes that come in
  by_cases hlow : j < i
  · rw [if_neg (by omega), Array.append_assoc,
      Array.getElem?_append_left (by rw [hfront]; exact hlow), Array.getElem?_extract,
      if_pos (by omega), Nat.zero_add]
  · by_cases hin : j < i + n
    · rw [if_pos (by omega), Array.append_assoc,
        Array.getElem?_append_right (by rw [hfront]; omega), hfront,
        Array.getElem?_append_left (by rw [hmiddle]; omega), Array.getElem?_extract,
        if_pos (by omega)]
    · rw [if_neg (by omega),
        Array.getElem?_append_right (by rw [Array.size_append, hfront, hmiddle]; omega),
        Array.size_append, hfront, hmiddle, Array.getElem?_extract,
        show i + min n (source.size - start) + (j - (i + n)) = j by omega]
      split
      · rfl
      · rw [getElem?_neg bytes.data j (by omega)]

end Page

end GenerationalHeap
