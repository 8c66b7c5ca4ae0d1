/-
The number of recorded object starts bounds the number of objects.

Tracing takes the recorded starts as the bound on its steps, so that bound has to be
large enough.

* `Pages.sum_eq` — a sum over the stored bytes, page by page.
* `StartMap.length_le_count` — members are counted, each at least once.
* `Heap.length_objects_le` — there are at most `Trace.startCount` objects.
-/
import GenerationalHeap.Proofs.Objects
import GenerationalHeap.Trace
import Mathlib.Algebra.BigOperators.Intervals
import Mathlib.Algebra.Order.BigOperators.Group.Finset

namespace GenerationalHeap

open Finset

/-! ### Sums over pages -/

namespace Pages

theorem fold_add (n total : Nat) (f : Nat → Nat) :
    Nat.fold n (fun i _ total => total + f i) total = total + ∑ i ∈ range n, f i := by
  induction n with
  | zero => simp
  | succ n ih => rw [Nat.fold_succ, ih, sum_range_succ, Nat.add_assoc]

theorem foldl_add (pages : List ByteArray) (f : ByteArray → Nat) (total : Nat) :
    pages.foldl (fun total page => total + f page) total =
      total + ∑ k ∈ range pages.length, f (pages[k]?.getD .empty) := by
  induction pages generalizing total with
  | nil => simp
  | cons page rest ih =>
    rw [List.foldl_cons, ih, List.length_cons, sum_range_succ']
    simp only [List.getElem?_cons_succ, List.getElem?_cons_zero, Option.getD_some]
    omega

/-- A sum over the stored bytes, page by page. -/
theorem sum_eq (p : Pages) {measure : UInt8 → Nat} (hzero : measure 0 = 0) :
    p.sum measure =
      ∑ k ∈ range p.table.size, ∑ i ∈ range length, measure (Page.byte (p.page k) i) := by
  have hpage : ∀ page : ByteArray,
      ∑ i ∈ range (min page.size length), measure (Page.byte page i) =
        ∑ i ∈ range length, measure (Page.byte page i) := by
    intro page
    refine sum_subset (range_mono (Nat.min_le_right _ _)) ?_
    intro i hi hnot
    rw [mem_range] at hi hnot
    rw [Page.byte_of_size_le (by omega), hzero]
  rw [sum, ← Array.foldl_toList]
  simp only [fold_add, hpage]
  rw [foldl_add, Nat.zero_add, Array.length_toList]
  simp only [Array.getElem?_toList, page_eq]

end Pages

/-! ### Members of a start map -/

namespace StartMap

theorem bitCount_eq (b : UInt8) :
    bitCount b = ∑ k ∈ range 8, if b.toNat.testBit k then 1 else 0 := by
  have hall : ∀ n : Fin 256, bitCount (UInt8.ofNat n.val) =
      ∑ k ∈ range 8, if (UInt8.ofNat n.val).toNat.testBit k then 1 else 0 := by
    decide +kernel
  have hb := hall ⟨b.toNat, b.toNat_lt⟩
  rwa [UInt8.ofNat_toNat] at hb

/-- Where a bit is: its page, its byte there, and its place in the byte. -/
def place (offset : Nat) : (Nat × Nat) × Nat :=
  ((byteOf offset / Pages.length, byteOf offset % Pages.length), index offset % 8)

theorem place_inj {x y : Nat} (hx : x % alignment = 0) (hy : y % alignment = 0)
    (h : place x = place y) : x = y := by
  simp only [place, Prod.mk.injEq] at h
  obtain ⟨⟨hpage, hbyte⟩, hbit⟩ := h
  have hbytes : byteOf x = byteOf y := by
    rw [← Nat.div_add_mod (byteOf x) Pages.length, hpage, hbyte, Nat.div_add_mod]
  exact eq_of_index_eq hx hy ((index_eq_iff x y).2 ⟨hbytes, hbit⟩)

/-- The bits that are set. -/
def members (m : StartMap) : Finset ((Nat × Nat) × Nat) :=
  ((range m.bits.table.size ×ˢ range Pages.length) ×ˢ range 8).filter fun p =>
    (Page.byte (m.bits.page p.1.1) p.1.2).toNat.testBit p.2

theorem card_members (m : StartMap) : m.members.card = m.count := by
  rw [members, card_filter, sum_product, sum_product, count, Pages.sum_eq _ rfl]
  simp only [bitCount_eq]

theorem place_mem_members {m : StartMap} {offset : Nat} (h : m.isSet offset = true) :
    place offset ∈ m.members := by
  have hmod : byteOf offset % Pages.length < Pages.length := Nat.mod_lt _ (by decide)
  have hbit : index offset % 8 < 8 := Nat.mod_lt _ (by decide)
  rw [members, mem_filter, mem_product, mem_product, mem_range, mem_range, mem_range]
  refine ⟨⟨⟨?_, hmod⟩, hbit⟩, h⟩
  -- past the stored pages every byte is zero, so that no bit is set there
  show byteOf offset / Pages.length < m.bits.table.size
  by_contra hle
  rw [isSet, Pages.byte, Pages.page_of_size_le (Nat.not_lt.1 hle),
    Page.byte_of_size_le (Nat.zero_le _)] at h
  exact absurd (h.symm.trans (Nat.zero_testBit _)) (by decide)

theorem length_le_count {m : StartMap} {offsets : List Nat} (hn : offsets.Nodup)
    (hmod : ∀ x ∈ offsets, x % alignment = 0) (hset : ∀ x ∈ offsets, m.isSet x = true) :
    offsets.length ≤ m.count := by
  rw [← card_members, ← List.toFinset_card_of_nodup hn]
  refine card_le_card_of_injOn place ?_ ?_
  · intro x hx
    exact place_mem_members (hset x (List.mem_toFinset.1 hx))
  · intro x hx y hy
    exact place_inj (hmod x (List.mem_toFinset.1 hx)) (hmod y (List.mem_toFinset.1 hy))

end StartMap

/-! ### Objects of a heap -/

namespace Heap

theorem length_offsetsIn_le {h : Heap} (hw : h.WellFormed) (g : Generation) :
    (h.offsetsIn (.arena g)).length ≤ (h.arena g).starts.count := by
  have ha := hw.arena g
  refine StartMap.length_le_count (hw.offsets_nodup (.arena g)) ?_ ?_
  · intro x hx
    exact ha.mod_eq_zero hx
  · intro x hx
    exact (ha.isSet_iff x (ha.mod_eq_zero hx)).2 hx

/-- There are at most as many objects as recorded starts. -/
theorem length_objects_le {h : Heap} (hw : h.WellFormed) :
    h.objects.length ≤ Trace.startCount h := by
  have hlarge : (h.offsetsIn .large).length = h.large.live.length := List.length_map _
  have h₀ := length_offsetsIn_le hw .gen0
  have h₁ := length_offsetsIn_le hw .gen1
  have h₂ := length_offsetsIn_le hw .gen2
  simp only [objects, Space.all, List.flatMap_cons, List.flatMap_nil, List.length_append,
    objectsIn, List.length_map, List.length_nil, Trace.startCount, PerGeneration.toList,
    List.map_cons, List.map_nil, List.sum_cons, List.sum_nil]
  -- each arena by its own starts, and the large space by its live blocks
  unfold arena PerGeneration.get at h₀ h₁ h₂
  dsimp only at h₀ h₁ h₂
  omega

end Heap

end GenerationalHeap
