/-
The bytes behind a space.

* `Memory` — a row of bytes. Reading past the end gives zero, and writing there
  does nothing, so that every operation is total.
* `Memory.byte` — the view that the laws of the other operations are stated in:
  `byte_setByte`, `byte_overwrite`, `byte_fill`, `byte_slice`, `byte_truncate`.
* `Memory.word`, `Memory.setWord` — little-endian 64-bit words.
* `Memory.grow`, `Memory.truncate` — a longer or shorter row.
* `Memory.overwrite`, `Memory.fill`, `Memory.slide` — changes of whole ranges.

Design notes: the bytes are kept in pages that are stored once they are written,
so a row may have as many bytes as a space has addresses. A slide reads the whole
range before it writes, so source and destination may overlap.
-/
import GenerationalHeap.Memory.Pages

namespace GenerationalHeap

/-- A row of bytes. -/
structure Memory where
  pages : Pages
  /-- The number of bytes. -/
  size : Nat
  byte_pages_of_size_le : ∀ i, size ≤ i → pages.byte i = 0

namespace Memory

/-- A row of `n` zero bytes. -/
def zeros (n : Nat) : Memory := ⟨.empty, n, fun i _ => Pages.byte_empty i⟩

instance : Inhabited Memory := ⟨zeros 0⟩

/-- A row of given bytes. -/
def ofBytes (bytes : ByteArray) : Memory :=
  ⟨Pages.empty.write 0 bytes, bytes.size, fun i hi => by
    rw [Pages.byte_write, if_neg (by omega), Pages.byte_empty]⟩

/-- The byte at `i`; zero past the end. -/
def byte (m : Memory) (i : Nat) : UInt8 := m.pages.byte i

/-- Changes the byte at `i`. -/
def setByte : Memory → Nat → UInt8 → Memory
  | ⟨pages, size, h⟩, i, v =>
    if hi : i < size then
      ⟨pages.setByte i v, size, fun j hj => by
        rw [Pages.byte_setByte, if_neg (by omega), h j hj]⟩
    else ⟨pages, size, h⟩

/-! ### Ranges -/

/-- The same bytes, with zeros behind them up to a size of `n`. A row that is
long enough stays as it is. -/
def grow : Memory → Nat → Memory
  | ⟨pages, size, h⟩, n => ⟨pages, max size n, fun i hi => h i (by omega)⟩

/-- The first `n` bytes. -/
def truncate : Memory → Nat → Memory
  | ⟨pages, size, h⟩, n =>
    ⟨pages.clear n size, min size n, fun i hi => by
      rw [Pages.byte_clear]
      split
      · rfl
      · exact h i (by omega)⟩

/-- The `n` bytes from `start` on, as far as they exist. -/
def slice (m : Memory) (start n : Nat) : ByteArray := m.pages.read start (min n (m.size - start))

/-- Puts bytes in place of those from `start` on, if they do not go past the
end. -/
def overwrite : Memory → Nat → ByteArray → Memory
  | ⟨pages, size, h⟩, start, bytes =>
    if hb : start + bytes.size ≤ size then
      ⟨pages.write start bytes, size, fun i hi => by
        rw [Pages.byte_write, if_neg (by omega), h i hi]⟩
    else ⟨pages, size, h⟩

/-- Makes every byte of `[start, stop)` equal to `v`, if the range does not go
past the end. -/
def fill : Memory → Nat → Nat → UInt8 → Memory
  | ⟨pages, size, h⟩, start, stop, v =>
    if hs : stop ≤ size then
      if v = 0 then
        ⟨pages.clear start stop, size, fun i hi => by
          rw [Pages.byte_clear, if_neg (by omega), h i hi]⟩
      else
        ⟨pages.write start (Page.repeated (stop - start) v), size, fun i hi => by
          rw [Pages.byte_write, Page.size_repeated, if_neg (by omega), h i hi]⟩
    else ⟨pages, size, h⟩

/-- Copies the `n` bytes from `source` on to `target`. The ranges may overlap. -/
def slide (m : Memory) (source target n : Nat) : Memory :=
  let bytes := m.slice source n
  m.overwrite target bytes

/-! ### Words -/

/-- The little-endian word in the eight bytes from `i` on. -/
@[inline] def word (m : Memory) (i : Nat) : UInt64 := m.pages.word i

/-- Stores a little-endian word in the eight bytes from `i` on. -/
def setWord (m : Memory) (i : Nat) (w : UInt64) : Memory :=
  m.overwrite i (Word.pushWord (.emptyWithCapacity 8) w)

/-! ### What single bytes show of the operations -/

theorem byte_of_size_le {m : Memory} {i : Nat} (h : m.size ≤ i) : m.byte i = 0 :=
  m.byte_pages_of_size_le i h

@[simp] theorem size_zeros (n : Nat) : (zeros n).size = n := rfl

theorem byte_zeros (n i : Nat) : (zeros n).byte i = 0 := Pages.byte_empty i

@[simp] theorem size_setByte (m : Memory) (i : Nat) (v : UInt8) :
    (m.setByte i v).size = m.size := by
  obtain ⟨pages, size, h⟩ := m
  rw [setByte]
  split <;> rfl

theorem byte_setByte (m : Memory) (i j : Nat) (v : UInt8) :
    (m.setByte i v).byte j = if j = i ∧ i < m.size then v else m.byte j := by
  obtain ⟨pages, size, h⟩ := m
  rw [setByte]
  by_cases hi : i < size
  · rw [dif_pos hi, byte, Pages.byte_setByte]
    by_cases hj : j = i
    · rw [if_pos hj, if_pos ⟨hj, hi⟩]
    · rw [if_neg hj, if_neg (fun hc => hj hc.1)]
      rfl
  · rw [dif_neg hi, if_neg (fun hc => hi hc.2)]

@[simp] theorem size_grow (m : Memory) (n : Nat) : (m.grow n).size = max m.size n := rfl

/-- Growing shows zeros where nothing was, as reading past the end did before. -/
theorem byte_grow (m : Memory) (n i : Nat) : (m.grow n).byte i = m.byte i := rfl

@[simp] theorem size_truncate (m : Memory) (n : Nat) : (m.truncate n).size = min m.size n := rfl

theorem byte_truncate (m : Memory) (n i : Nat) :
    (m.truncate n).byte i = if i < n then m.byte i else 0 := by
  obtain ⟨pages, size, h⟩ := m
  rw [truncate, byte, Pages.byte_clear]
  by_cases hi : i < n
  · rw [if_neg (by omega), if_pos hi]
    rfl
  · rw [if_neg hi]
    split
    · rfl
    · exact h i (by omega)

theorem size_slice (m : Memory) (start n : Nat) :
    (m.slice start n).size = min n (m.size - start) := Pages.size_read _ _ _

theorem byte_slice (m : Memory) (start n i : Nat) :
    Page.byte (m.slice start n) i = if i < n then m.byte (start + i) else 0 := by
  rw [slice, Pages.byte_read]
  by_cases hi : i < n
  · rw [if_pos hi]
    split
    · rfl
    · rw [byte_of_size_le (by omega)]
  · rw [if_neg hi, if_neg (by omega)]

@[simp] theorem size_overwrite (m : Memory) (start : Nat) (bytes : ByteArray) :
    (m.overwrite start bytes).size = m.size := by
  obtain ⟨pages, size, h⟩ := m
  rw [overwrite]
  split <;> rfl

theorem byte_overwrite {m : Memory} {start : Nat} {bytes : ByteArray}
    (h : start + bytes.size ≤ m.size) (i : Nat) :
    (m.overwrite start bytes).byte i =
      if start ≤ i ∧ i < start + bytes.size then Page.byte bytes (i - start) else m.byte i := by
  obtain ⟨pages, size, hsize⟩ := m
  rw [overwrite, dif_pos h]
  exact Pages.byte_write _ _ _ _

@[simp] theorem size_fill (m : Memory) (start stop : Nat) (v : UInt8) :
    (m.fill start stop v).size = m.size := by
  obtain ⟨pages, size, h⟩ := m
  rw [fill]
  split
  · split <;> rfl
  · rfl

theorem byte_fill {m : Memory} {start stop : Nat} (v : UInt8) (h : stop ≤ m.size) (i : Nat) :
    (m.fill start stop v).byte i = if start ≤ i ∧ i < stop then v else m.byte i := by
  obtain ⟨pages, size, hsize⟩ := m
  rw [fill, dif_pos h]
  by_cases hv : v = 0
  · rw [if_pos hv, hv]
    exact Pages.byte_clear _ _ _ _
  · rw [if_neg hv, byte, Pages.byte_write, Page.size_repeated]
    by_cases hi : start ≤ i ∧ i < stop
    · rw [if_pos (by omega), if_pos hi, Page.byte_repeated v (by omega)]
    · rw [if_neg (by omega), if_neg hi]
      rfl

@[simp] theorem size_slide (m : Memory) (source target n : Nat) :
    (m.slide source target n).size = m.size := size_overwrite _ _ _

@[simp] theorem size_setWord (m : Memory) (i : Nat) (w : UInt64) :
    (m.setWord i w).size = m.size := size_overwrite _ _ _

theorem word_eq (m : Memory) (i : Nat) :
    m.word i = Word.littleEndian fun k => m.byte (i + k) := Pages.word_eq _ _

end Memory

end GenerationalHeap
