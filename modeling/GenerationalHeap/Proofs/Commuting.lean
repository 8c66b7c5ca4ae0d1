/-
Writes that do not meet may be done in either order.

What is meant is equality of heaps as they are stored, pages and all, and not only of the
bytes that can be read: a heap that was written in another order is the same heap.

* `Page.overlay_comm`, `Pages.write_comm`, `Memory.overwrite_comm` — rows of bytes.
* `Heap.Apart`, `Heap.patch_comm` — bytes in the blocks of a heap.
* `Heap.header_patch_of_apart`, `Heap.word_patch_of_apart` — what is read apart from a write.
* `Heap.WellFormed.apart_blocks` — different objects are apart.
-/
import GenerationalHeap.Proofs.References

namespace GenerationalHeap

/-! ### Pages -/

namespace Page

/-- A page is known by the number of its bytes and the bytes themselves. -/
theorem eq_of_byte {p q : ByteArray} (hsize : p.size = q.size)
    (hbyte : ∀ i, byte p i = byte q i) : p = q := by
  refine ByteArray.ext (Array.ext hsize fun i hp hq => ?_)
  have h := hbyte i
  rw [byte_eq, byte_eq, getElem?_pos _ i hp, getElem?_pos _ i hq] at h
  exact h

variable {source source' : ByteArray} {start start' n n' i i' : Nat}

theorem size_overlay (h : start + n ≤ source.size) (page : ByteArray) :
    (overlay source start i n page).size = max page.size (i + n) := by
  have hs : source.data.size = source.size := rfl
  have hpad : (padTo i page).data.size = max i page.size := size_padTo i page
  rw [← ByteArray.size_data, overlay, ByteArray.copySlice, hs]
  simp only [Array.size_append, Array.size_extract, hpad, hs]
  omega

theorem overlay_comm (h : start + n ≤ source.size) (h' : start' + n' ≤ source'.size)
    (hapart : i + n ≤ i' ∨ i' + n' ≤ i) (page : ByteArray) :
    overlay source' start' i' n' (overlay source start i n page) =
      overlay source start i n (overlay source' start' i' n' page) := by
  refine eq_of_byte ?_ fun j => ?_
  · rw [size_overlay h', size_overlay h, size_overlay h, size_overlay h']
    omega
  · rw [byte_overlay h', byte_overlay h, byte_overlay h, byte_overlay h']
    by_cases hj : i ≤ j ∧ j < i + n
    · rw [if_neg (by omega), if_pos hj, if_pos hj]
    · rw [if_neg hj, if_neg hj]

end Page

namespace Pages

/-- A row is known by the number of its stored pages and the pages themselves. -/
theorem eq_of_page {p q : Pages} (hsize : p.table.size = q.table.size)
    (hpage : ∀ k, p.page k = q.page k) : p = q := by
  obtain ⟨table⟩ := p
  obtain ⟨table'⟩ := q
  refine congrArg Pages.mk (Array.ext hsize fun k hk hk' => ?_)
  have h := hpage k
  rwa [page, page, dif_pos hk, dif_pos hk'] at h

theorem size_modifyPage (k : Nat) (f : ByteArray → ByteArray) (p : Pages) :
    (p.modifyPage k f).table.size = max (k + 1) p.table.size := by
  obtain ⟨table⟩ := p
  rw [modifyPage, Array.size_modify, size_padTo]

theorem size_modifyPages (f : Nat → ByteArray → ByteArray) (count first : Nat) (p : Pages) :
    (modifyPages f count first p).table.size =
      if count = 0 then p.table.size else max (first + count) p.table.size := by
  induction count generalizing first p with
  | zero => rfl
  | succ count ih =>
    rw [modifyPages, ih, size_modifyPage, if_neg (Nat.succ_ne_zero count)]
    split <;> omega

/-- Changes of pages commute if they do so page by page. -/
theorem modifyPages_comm {f g : Nat → ByteArray → ByteArray}
    (h : ∀ k page, f k (g k page) = g k (f k page)) (count first count' first' : Nat)
    (p : Pages) :
    modifyPages f count first (modifyPages g count' first' p) =
      modifyPages g count' first' (modifyPages f count first p) := by
  refine eq_of_page ?_ fun k => ?_
  · simp only [size_modifyPages]
    split <;> split <;> omega
  · simp only [page_modifyPages]
    split <;> split
    · exact h k _
    · rfl
    · rfl
    · rfl

variable {start start' : Nat} {bytes bytes' : ByteArray}

/-- What falls into a page of two ranges that do not meet does not meet there. -/
theorem writePage_comm (hapart : start + bytes.size ≤ start' ∨ start' + bytes'.size ≤ start)
    (k : Nat) (page : ByteArray) :
    writePage bytes start k (writePage bytes' start' k page) =
      writePage bytes' start' k (writePage bytes start k page) := by
  simp only [writePage]
  by_cases hin : start - k * length < min length (start + bytes.size - k * length)
  · by_cases hin' : start' - k * length < min length (start' + bytes'.size - k * length)
    · rw [if_pos hin, if_pos hin', if_pos hin', if_pos hin]
      exact Page.overlay_comm (by omega) (by omega) (by omega) page
    · rw [if_neg hin', if_neg hin']
  · rw [if_neg hin, if_neg hin]

theorem write_comm (hapart : start + bytes.size ≤ start' ∨ start' + bytes'.size ≤ start)
    (p : Pages) :
    (p.write start' bytes').write start bytes = (p.write start bytes).write start' bytes' :=
  modifyPages_comm (writePage_comm hapart) _ _ _ _ p

end Pages

/-! ### Rows of bytes -/

namespace Memory

variable {m : Memory} {x y : Nat} {bytes bytes' : ByteArray}

theorem overwrite_comm (m : Memory) (hapart : x + bytes.size ≤ y ∨ y + bytes'.size ≤ x) :
    (m.overwrite x bytes).overwrite y bytes' = (m.overwrite y bytes').overwrite x bytes := by
  obtain ⟨pages, size, h⟩ := m
  -- a write past the end does nothing, and the end does not move
  by_cases hx : x + bytes.size ≤ size
  · by_cases hy : y + bytes'.size ≤ size
    · simp only [overwrite, dif_pos hx, dif_pos hy, Pages.write_comm hapart]
    · simp only [overwrite, dif_pos hx, dif_neg hy]
  · by_cases hy : y + bytes'.size ≤ size
    · simp only [overwrite, dif_neg hx, dif_pos hy]
    · simp only [overwrite, dif_neg hx, dif_neg hy]

theorem byte_overwrite_of_apart {i : Nat} (hi : i < x ∨ x + bytes.size ≤ i) :
    (m.overwrite x bytes).byte i = m.byte i := by
  by_cases hx : x + bytes.size ≤ m.size
  · rw [byte_overwrite hx, if_neg (by omega)]
  · obtain ⟨pages, size, h⟩ := m
    rw [overwrite, dif_neg hx]

end Memory

/-! ### Heaps -/

namespace Heap

variable {h : Heap} {a b : Address} {k l n n' : Nat} {bytes bytes' : ByteArray}

theorem mapMemory_mapMemory (h : Heap) (s : Space) (f f' : Memory → Memory) :
    (h.mapMemory s f).mapMemory s f' = h.mapMemory s fun m => f' (f m) := by
  rcases s with (_ | _ | _) | _ <;> rfl

theorem mapMemory_comm {s t : Space} (hst : s ≠ t) (h : Heap) (f f' : Memory → Memory) :
    (h.mapMemory s f).mapMemory t f' = (h.mapMemory t f').mapMemory s f := by
  rcases s with (_ | _ | _) | _ <;> rcases t with (_ | _ | _) | _ <;>
    first
    | rfl
    | exact absurd rfl hst

/-- The `n` bytes from place `k` on of the block at `a` do not meet the `n'` bytes from place
`l` on of the block at `b`. -/
def Apart (a : Address) (k n : Nat) (b : Address) (l n' : Nat) : Prop :=
  ∀ s, Space.ofAddress? a = some s → Space.ofAddress? b = some s →
    s.offset a + k + n ≤ s.offset b + l ∨ s.offset b + l + n' ≤ s.offset a + k

theorem Apart.symm (hapart : Apart a k n b l n') : Apart b l n' a k n :=
  fun s hb ha => (hapart s ha hb).symm

theorem patch_of_none (ha : Space.ofAddress? a = none) : h.patch a k bytes = h := by
  rw [patch, writeAt, ha]

theorem patch_comm (hapart : Apart a k bytes.size b l bytes'.size) (h : Heap) :
    (h.patch a k bytes).patch b l bytes' = (h.patch b l bytes').patch a k bytes := by
  cases ha : Space.ofAddress? a with
  | none => rw [patch_of_none ha, patch_of_none ha]
  | some s =>
    cases hb : Space.ofAddress? b with
    | none => rw [patch_of_none hb, patch_of_none hb]
    | some t =>
      simp only [patch_eq_mapMemory ha, patch_eq_mapMemory hb]
      by_cases hst : s = t
      · subst hst
        rw [mapMemory_mapMemory, mapMemory_mapMemory]
        congr 1
        funext m
        exact m.overwrite_comm (hapart s ha hb)
      · exact mapMemory_comm hst h _ _

/-- Bytes apart from those that are put are read as before. -/
theorem byte_patch_of_apart {i : Nat} (hapart : Apart a k bytes.size b i 1) :
    (h.patch a k bytes).byte b i = h.byte b i := by
  cases ha : Space.ofAddress? a with
  | none => rw [patch_of_none ha]
  | some s =>
    cases hb : Space.ofAddress? b with
    | none => rw [byte, byte, readAt, readAt, hb]
    | some t =>
      rw [byte_eq hb, byte_eq hb, memory_patch ha]
      by_cases hst : t = s
      · subst hst
        have hout := hapart t ha hb
        rw [if_pos rfl, Memory.byte_overwrite_of_apart (by omega)]
      · rw [if_neg hst]

theorem header_patch_of_apart (hapart : Apart a k bytes.size b 0 headerSize) :
    (h.patch a k bytes).header b = h.header b := by
  cases hb : Space.ofAddress? b with
  | none => rw [header, header, readAt, readAt, hb]
  | some s =>
    refine header_congr hb hb fun i hi => byte_patch_of_apart fun t ha hb => ?_
    have hout := hapart t ha hb
    omega

theorem word_patch_of_apart {o : Nat} (hapart : Apart a k bytes.size b (headerSize + o) 8) :
    (h.patch a k bytes).word b o = h.word b o :=
  word_congr fun i hi => byte_patch_of_apart fun t ha hb => by
    have hout := hapart t ha hb
    omega

/-- Different objects do not meet. -/
theorem WellFormed.apart_blocks (hw : h.WellFormed) (ha : a ∈ h.objects) (hb : b ∈ h.objects)
    (hab : a ≠ b) (hk : k + n ≤ (h.header a).blockSize) (hl : l + n' ≤ (h.header b).blockSize) :
    Apart a k n b l n' := by
  obtain ⟨s, hs, hx⟩ := hw.mem_objects_iff.1 ha
  obtain ⟨t, ht, hy⟩ := hw.mem_objects_iff.1 hb
  intro u hu hu'
  obtain rfl := Option.some.inj (hs.symm.trans hu)
  obtain rfl := Option.some.inj (ht.symm.trans hu')
  have hapart := hw.apart hx hy
  rw [sizeAt_offset hs, sizeAt_offset ht] at hapart
  have hne : t.offset a ≠ t.offset b := fun heq => hab <| by
    rw [← Space.address_offset hs, ← Space.address_offset ht, heq]
  omega

end Heap

end GenerationalHeap
