/-
An endless row of bytes, almost all of which are zero.

The row is cut into pages of equal length. Of a page only the bytes up to the
last one that was written are stored, and of the pages only those up to the last
one that was written, so that a byte far out costs no more than its page.

* `Pages.byte` — the view that the laws of the other operations are stated in:
  `byte_setByte`, `byte_write`, `byte_clear`, `byte_read`.
* `Pages.word` — little-endian 64-bit words, with `word_eq`.
* `Pages.write`, `Pages.clear`, `Pages.read` — whole ranges, page by page.
-/
import GenerationalHeap.Memory.Word

namespace GenerationalHeap

/-! ### Pages -/

/-- An endless row of bytes. -/
structure Pages where
  /-- The first pages; the others are zero. -/
  table : Array ByteArray

namespace Pages

/-- The length of a page. -/
def length : Nat := 4096

/-- The row of zeros. -/
def empty : Pages := ⟨#[]⟩

instance : Inhabited Pages := ⟨empty⟩

/-- A page, as far as it is stored. -/
@[inline] def page (p : Pages) (k : Nat) : ByteArray :=
  if h : k < p.table.size then p.table[k] else .empty

/-- The byte at `i`. -/
def byte (p : Pages) (i : Nat) : UInt8 := Page.byte (p.page (i / length)) (i % length)

/-- Pages with as many zero pages behind them as make at least `n` pages. -/
def padTo (n : Nat) (table : Array ByteArray) : Array ByteArray :=
  if table.size < n then table ++ Array.replicate (n - table.size) .empty else table

/-- Changes a page. -/
@[inline] def modifyPage (k : Nat) (f : ByteArray → ByteArray) : Pages → Pages
  | ⟨table⟩ => ⟨(padTo (k + 1) table).modify k f⟩

/-- Changes the `count` pages from `first` on, each in a way of its own. -/
def modifyPages (f : Nat → ByteArray → ByteArray) : (count first : Nat) → Pages → Pages
  | 0, _, p => p
  | count + 1, first, p => modifyPages f count (first + 1) (p.modifyPage first (f first))

theorem page_eq (p : Pages) (k : Nat) : p.page k = p.table[k]?.getD .empty := by
  rw [page]
  split
  · rename_i h
    rw [getElem?_pos _ k h, Option.getD_some]
  · rename_i h
    rw [getElem?_neg _ k h, Option.getD_none]

theorem page_of_size_le {p : Pages} {k : Nat} (h : p.table.size ≤ k) : p.page k = .empty :=
  dif_neg (Nat.not_lt.2 h)

theorem byte_empty (i : Nat) : empty.byte i = 0 := by
  rw [byte, page_of_size_le (Nat.zero_le _)]
  exact Page.byte_of_size_le (Nat.zero_le _)

theorem byte_of_table_size_le {p : Pages} {i : Nat} (h : p.table.size * length ≤ i) :
    p.byte i = 0 := by
  have hk : p.table.size ≤ i / length := (Nat.le_div_iff_mul_le (by decide)).2 h
  rw [byte, page_of_size_le hk]
  exact Page.byte_of_size_le (Nat.zero_le _)

theorem size_padTo (n : Nat) (table : Array ByteArray) :
    (padTo n table).size = max n table.size := by
  rw [padTo]
  split
  · rw [Array.size_append, Array.size_replicate]
    omega
  · omega

theorem getD_padTo (n : Nat) (table : Array ByteArray) (k : Nat) :
    (padTo n table)[k]?.getD .empty = table[k]?.getD .empty := by
  rw [padTo]
  split
  · by_cases hk : k < table.size
    · rw [Array.getElem?_append_left hk]
    · rw [Array.getElem?_append_right (Nat.not_lt.1 hk), getElem?_neg table k hk,
        Array.getElem?_replicate]
      split <;> rfl
  · rfl

theorem page_modifyPage (k j : Nat) (f : ByteArray → ByteArray) (p : Pages) :
    (p.modifyPage k f).page j = if j = k then f (p.page k) else p.page j := by
  obtain ⟨table⟩ := p
  rw [page_eq, modifyPage, Array.getElem?_modify]
  by_cases hj : j = k
  · subst hj
    have hpad : j < (padTo (j + 1) table).size := by
      rw [size_padTo]
      omega
    rw [if_pos rfl, if_pos rfl, page_eq, ← getD_padTo (j + 1) table j, getElem?_pos _ j hpad]
    rfl
  · rw [if_neg (Ne.symm hj), if_neg hj, page_eq, getD_padTo]

theorem page_modifyPages (f : Nat → ByteArray → ByteArray) (count first j : Nat) (p : Pages) :
    (modifyPages f count first p).page j =
      if first ≤ j ∧ j < first + count then f j (p.page j) else p.page j := by
  induction count generalizing first p with
  | zero => rw [modifyPages, if_neg (by omega)]
  | succ count ih =>
    rw [modifyPages, ih, page_modifyPage]
    by_cases hj : j = first
    · subst hj
      rw [if_neg (by omega), if_pos rfl, if_pos (by omega)]
    · rw [if_neg hj]
      by_cases hin : first + 1 ≤ j ∧ j < first + 1 + count
      · rw [if_pos hin, if_pos (by omega)]
      · rw [if_neg hin, if_neg (by omega)]

/-! ### Single bytes and words -/

/-- Changes the byte at `i`. -/
def setByte (i : Nat) (v : UInt8) (p : Pages) : Pages :=
  p.modifyPage (i / length) (Page.setByte (i % length) v)

theorem byte_setByte (i j : Nat) (v : UInt8) (p : Pages) :
    (p.setByte i v).byte j = if j = i then v else p.byte j := by
  rw [byte, byte, setByte, page_modifyPage]
  by_cases hk : j / length = i / length
  · rw [if_pos hk, Page.byte_setByte, hk]
    by_cases hj : j = i
    · rw [if_pos (by rw [hj]), if_pos hj]
    · rw [if_neg (fun hmod => hj ?_), if_neg hj]
      rw [← Nat.div_add_mod j length, ← Nat.div_add_mod i length, hk, hmod]
  · rw [if_neg hk, if_neg (fun hj => hk (by rw [hj]))]

/-- The word in the eight bytes of a page from `i` on. -/
@[inline] def pageWord (page : ByteArray) (i : Nat) (h : i + 8 ≤ page.size) : UInt64 :=
  Word.ofBytes page[i] page[i + 1] page[i + 2] page[i + 3] page[i + 4] page[i + 5] page[i + 6]
    page[i + 7]

/-- The little-endian word in the eight bytes from `i` on, byte by byte. -/
@[noinline] def spreadWord (p : Pages) (i : Nat) : UInt64 :=
  Word.littleEndian fun k => p.byte (i + k)

/-- The little-endian word in the eight bytes from `i` on. It is looked up at once
if it lies within the stored bytes of one page. -/
def word (p : Pages) (i : Nat) : UInt64 :=
  let page := p.page (i / length)
  if h : i % length + 8 ≤ min page.size length then pageWord page (i % length) (by omega)
  else p.spreadWord i

theorem pageWord_eq (page : ByteArray) (i : Nat) (h : i + 8 ≤ page.size) :
    pageWord page i h = Word.littleEndian fun k => Page.byte page (i + k) := by
  have hbyte : ∀ k, (hk : k < 8) → Page.byte page (i + k) = page[i + k] :=
    fun k hk => dif_pos (by omega)
  rw [Word.littleEndian, hbyte 0 (by decide), hbyte 1 (by decide), hbyte 2 (by decide),
    hbyte 3 (by decide), hbyte 4 (by decide), hbyte 5 (by decide), hbyte 6 (by decide),
    hbyte 7 (by decide)]
  rfl

theorem byte_add_of_lt {i k : Nat} (p : Pages) (h : i % length + k < length) :
    p.byte (i + k) = Page.byte (p.page (i / length)) (i % length + k) := by
  have hdiv : (i + k) / length = i / length := by
    unfold length at h ⊢
    omega
  have hmod : (i + k) % length = i % length + k := by
    unfold length at h ⊢
    omega
  rw [byte, hdiv, hmod]

theorem word_eq (p : Pages) (i : Nat) :
    p.word i = Word.littleEndian fun k => p.byte (i + k) := by
  rw [word]
  split
  · rw [pageWord_eq]
    exact Word.littleEndian_congr fun k hk => (p.byte_add_of_lt (by omega)).symm
  · rfl

/-! ### Ranges -/

/-- The number of pages that a range touches. -/
def pagesIn (start stop : Nat) : Nat := (stop + (length - 1)) / length - start / length

/-- Puts into a page what falls into it of bytes that are to stand from `start` on. -/
def writePage (bytes : ByteArray) (start k : Nat) (page : ByteArray) : ByteArray :=
  let first := start - k * length
  let stop := min length (start + bytes.size - k * length)
  if first < stop then Page.overlay bytes (k * length - start) first (stop - first) page else page

/-- Puts bytes in place of those from `start` on. -/
def write (start : Nat) (bytes : ByteArray) (p : Pages) : Pages :=
  p.modifyPages (writePage bytes start) (pagesIn start (start + bytes.size)) (start / length)

theorem byte_writePage (bytes : ByteArray) (start k j : Nat) (page : ByteArray) (h : j < length) :
    Page.byte (writePage bytes start k page) j =
      if start ≤ k * length + j ∧ k * length + j < start + bytes.size then
        Page.byte bytes (k * length + j - start)
      else Page.byte page j := by
  rw [writePage]
  split
  · rw [Page.byte_overlay (by omega)]
    by_cases hin : start ≤ k * length + j ∧ k * length + j < start + bytes.size
    · rw [if_pos hin, if_pos (by omega)]
      congr 1
      omega
    · rw [if_neg hin, if_neg (by omega)]
  · rw [if_neg (by omega)]

theorem byte_write (start : Nat) (bytes : ByteArray) (p : Pages) (i : Nat) :
    (p.write start bytes).byte i =
      if start ≤ i ∧ i < start + bytes.size then Page.byte bytes (i - start) else p.byte i := by
  have hlen : 0 < length := by decide
  have hi : i / length * length + i % length = i := Nat.div_add_mod' i length
  rw [byte, byte, write, page_modifyPages]
  by_cases hk : start / length ≤ i / length ∧
      i / length < start / length + pagesIn start (start + bytes.size)
  · rw [if_pos hk, byte_writePage _ _ _ _ _ (Nat.mod_lt _ hlen), hi]
  · rw [if_neg hk, if_neg ?_]
    intro hin
    apply hk
    unfold pagesIn length
    omega

/-- Zeros where there are stored bytes of a page in `[start, stop)`. -/
def clearPage (start stop k : Nat) (page : ByteArray) : ByteArray :=
  let first := start - k * length
  let stop := min page.size (stop - k * length)
  if first < stop then Page.overlay (Page.repeated (stop - first) 0) 0 first (stop - first) page
  else page

/-- Makes every byte of `[start, stop)` zero. -/
def clear (start stop : Nat) (p : Pages) : Pages :=
  p.modifyPages (clearPage start stop)
    (min (pagesIn start stop) (p.table.size - start / length)) (start / length)

theorem byte_clearPage (start stop k j : Nat) (page : ByteArray) :
    Page.byte (clearPage start stop k page) j =
      if start ≤ k * length + j ∧ k * length + j < stop then 0 else Page.byte page j := by
  rw [clearPage]
  by_cases hj : page.size ≤ j
  · rw [Page.byte_of_size_le hj]
    split
    · rw [Page.byte_overlay (by rw [Page.size_repeated]; omega), if_neg (by omega),
        Page.byte_of_size_le hj, ite_self]
    · rw [Page.byte_of_size_le hj, ite_self]
  · split
    · rw [Page.byte_overlay (by rw [Page.size_repeated]; omega)]
      by_cases hin : start ≤ k * length + j ∧ k * length + j < stop
      · rw [if_pos hin, if_pos (by omega), Page.byte_repeated 0 (by omega)]
      · rw [if_neg hin, if_neg (by omega)]
    · rw [if_neg (by omega)]

theorem byte_clear (start stop : Nat) (p : Pages) (i : Nat) :
    (p.clear start stop).byte i = if start ≤ i ∧ i < stop then 0 else p.byte i := by
  have hi : i / length * length + i % length = i := Nat.div_add_mod' i length
  have hmod : i % length < length := Nat.mod_lt _ (by decide)
  rw [byte, clear, page_modifyPages]
  by_cases hk : start / length ≤ i / length ∧ i / length < start / length +
      min (pagesIn start stop) (p.table.size - start / length)
  · rw [if_pos hk, byte_clearPage, hi]
    rfl
  · rw [if_neg hk]
    by_cases hin : start ≤ i ∧ i < stop
    · rw [if_pos hin]
      apply byte_of_table_size_le
      unfold pagesIn length at hk
      unfold length
      omega
    · rw [if_neg hin]
      rfl

/-- An end of the bytes that are stored. -/
def limit (p : Pages) : Nat := p.table.size * length

theorem byte_of_limit_le {p : Pages} {i : Nat} (h : p.limit ≤ i) : p.byte i = 0 :=
  byte_of_table_size_le h

theorem byte_clear_limit (start : Nat) (p : Pages) (i : Nat) :
    (p.clear start p.limit).byte i = if start ≤ i then 0 else p.byte i := by
  rw [byte_clear]
  by_cases hi : start ≤ i
  · rw [if_pos hi]
    split
    · rfl
    · exact byte_of_limit_le (by omega)
  · rw [if_neg hi, if_neg (fun h => hi h.1)]

/-- The sum of a measure over the stored bytes; all others are zero. -/
def sum (measure : UInt8 → Nat) (p : Pages) : Nat :=
  p.table.foldl (fun total page =>
    Nat.fold (min page.size length) (fun i _ total => total + measure (Page.byte page i)) total) 0

/-- The bytes `acc` with the `n` bytes from `start` on behind them, taken from at
most `pages` pages. -/
def readInto (p : Pages) : (pages start n : Nat) → ByteArray → ByteArray
  | 0, _, _, acc => acc
  | pages + 1, start, n, acc =>
    let first := start % length
    let m := min n (length - first)
    p.readInto pages (start + m) (n - m)
      (acc ++ Page.padTo m ((p.page (start / length)).extract first (first + m)))

/-- The `n` bytes from `start` on. -/
def read (p : Pages) (start n : Nat) : ByteArray :=
  p.readInto (pagesIn start (start + n)) start n .empty

theorem size_padTo_extract (page : ByteArray) (first m : Nat) :
    (Page.padTo m (page.extract first (first + m))).size = m := by
  rw [Page.size_padTo, ByteArray.size_extract]
  omega

theorem size_readInto (p : Pages) {pages start n : Nat} (acc : ByteArray)
    (h : n = 0 ∨ n + start % length ≤ pages * length) :
    (p.readInto pages start n acc).size = acc.size + n := by
  induction pages generalizing start n acc with
  | zero =>
    rw [readInto]
    omega
  | succ pages ih =>
    have hmod : start % length < length := Nat.mod_lt _ (by decide)
    rw [readInto, ih, ByteArray.size_append, size_padTo_extract]
    · omega
    · unfold length at h hmod ⊢
      omega

theorem byte_readInto (p : Pages) {pages start n : Nat} (acc : ByteArray)
    (h : n = 0 ∨ n + start % length ≤ pages * length) (i : Nat) :
    Page.byte (p.readInto pages start n acc) i =
      if i < acc.size then Page.byte acc i
      else if i < acc.size + n then p.byte (start + (i - acc.size)) else 0 := by
  induction pages generalizing start n acc with
  | zero =>
    rw [readInto]
    split
    · rfl
    · rw [if_neg (by omega), Page.byte_of_size_le (by omega)]
  | succ pages ih =>
    have hmod : start % length < length := Nat.mod_lt _ (by decide)
    -- after the first piece, the rest starts at the beginning of a page
    have hstep : n - min n (length - start % length) = 0 ∨
        n - min n (length - start % length) +
          (start + min n (length - start % length)) % length ≤ pages * length := by
      unfold length at h hmod ⊢
      omega
    rw [readInto, ih _ hstep, ByteArray.size_append, size_padTo_extract, Page.byte_append]
    by_cases hacc : i < acc.size
    · rw [if_pos (by omega), if_pos hacc, if_pos hacc]
    · rw [if_neg hacc, if_neg hacc]
      by_cases hpiece : i < acc.size + min n (length - start % length)
      · rw [if_pos hpiece, if_pos (by omega), Page.byte_padTo,
          Page.byte_extract _ _ _ _ (by omega), byte_add_of_lt p (by omega)]
      · rw [if_neg hpiece]
        by_cases hin : i < acc.size + n
        · rw [if_pos (by omega), if_pos hin]
          congr 1
          omega
        · rw [if_neg (by omega), if_neg hin]

theorem pagesIn_suffices (start n : Nat) :
    n = 0 ∨ n + start % length ≤ pagesIn start (start + n) * length := by
  unfold pagesIn length
  omega

theorem size_read (p : Pages) (start n : Nat) : (p.read start n).size = n := by
  rw [read, size_readInto p _ (pagesIn_suffices start n), ByteArray.size_empty, Nat.zero_add]

theorem byte_read (p : Pages) (start n i : Nat) :
    Page.byte (p.read start n) i = if i < n then p.byte (start + i) else 0 := by
  rw [read, byte_readInto p _ (pagesIn_suffices start n), ByteArray.size_empty,
    if_neg (Nat.not_lt_zero i), Nat.zero_add, Nat.sub_zero]

end Pages

end GenerationalHeap
