/-
The marks that a trace leaves, in whatever order it meets the objects.

The worklist is run from the roots, depth first, so the order in which objects get their
marks is another one for every listing of the roots. Marks of different objects commute,
though, and a trace changes nothing else.

* `Heap.markEach` — a mark on each of some objects; `Heap.markEach_perm`.
* `Heap.WithMarks` — a heap made of another one by marks; `Heap.WithMarks.eq` — which is known
  by the objects that are marked.
* `Trace.invariant_withMarks` — all that a trace does is to set marks, one object at a time.
* `Heap.withMarks_markLive` — so does the first pass of a collection.
-/
import GenerationalHeap.Proofs.Commuting
import GenerationalHeap.Proofs.Keeping
import GenerationalHeap.Proofs.Tracing

namespace GenerationalHeap

namespace Heap

variable {h h' h'' : Heap} {types : TypeSystem} {target : Target} {a b : Address}
  {l l' : List Address}

/-! ### Marks on some objects -/

/-- Marks the object at an address. -/
def markAt (h : Heap) (a : Address) : Heap := h.setHeader a ((h.header a).setMarked true)

/-- Marks objects, one after the other. -/
def markEach (h : Heap) (l : List Address) : Heap := l.foldl markAt h

theorem markAt_comm (hapart : Apart a 0 headerSize b 0 headerSize) (h : Heap) :
    (h.markAt a).markAt b = (h.markAt b).markAt a := by
  simp only [markAt, setHeader_eq_patch]
  rw [header_patch_of_apart (by rwa [Header.size_bytes]),
    header_patch_of_apart (by rw [Header.size_bytes]; exact hapart.symm)]
  exact patch_comm (by rwa [Header.size_bytes, Header.size_bytes]) h

/-- The order of the marks does not matter. -/
theorem markEach_perm (hw : h.WellFormed) (hl : ∀ a ∈ l, a ∈ h.objects) (hp : l.Perm l') :
    h'.markEach l = h'.markEach l' := by
  refine hp.foldl_eq' (fun a ha b hb z => ?_) h'
  by_cases hab : a = b
  · rw [hab]
  · have hfits : ∀ x : Header, 0 + headerSize ≤ x.blockSize := fun x => by
      rw [Header.blockSize_eq]
      omega
    exact markAt_comm (hw.apart_blocks (hl a ha) (hl b hb) hab (hfits _) (hfits _)) z

theorem markEach_spec (hw : h.WellFormed) (hm : h.OnlyMarks h') (hn : l.Nodup)
    (hl : ∀ a ∈ l, a ∈ h.objects) (hfree : ∀ a ∈ l, (h'.header a).isMarked = false) :
    h.OnlyMarks (h'.markEach l) ∧ ∀ b ∈ h.objects, ((h'.markEach l).header b).isMarked =
      (decide (b ∈ l) || (h'.header b).isMarked) := by
  induction l generalizing h' with
  | nil => exact ⟨hm, fun b _ => rfl⟩
  | cons a rest ih =>
    obtain ⟨hnot, hn⟩ := List.nodup_cons.1 hn
    obtain ⟨hm₁, hset⟩ : h.OnlyMarks (h'.markAt a) ∧ ∀ b ∈ h.objects,
        ((h'.markAt a).header b).isMarked = (decide (b = a) || (h'.header b).isMarked) :=
      hm.setMarked hw (hl a List.mem_cons_self) (hfree a List.mem_cons_self)
    have hrest : ∀ b ∈ rest, ((h'.markAt a).header b).isMarked = false := by
      intro b hb
      have hba : b ≠ a := fun hba => hnot (hba ▸ hb)
      rw [hset b (hl b (List.mem_cons_of_mem _ hb)), decide_eq_false hba, Bool.false_or]
      exact hfree b (List.mem_cons_of_mem _ hb)
    obtain ⟨hm₂, hall⟩ := ih hm₁ hn (fun b hb => hl b (List.mem_cons_of_mem _ hb)) hrest
    refine ⟨hm₂, fun b hb => ?_⟩
    show (((h'.markAt a).markEach rest).header b).isMarked = _
    rw [hall b hb, hset b hb, ← Bool.or_assoc, ← Bool.decide_or]
    congr 1
    exact decide_eq_decide.2 (or_comm.trans List.mem_cons.symm)

/-! ### Heaps made by marks -/

/-- The heap `h'` is made of `h` by marks on some of its objects. -/
def WithMarks (h h' : Heap) : Prop :=
  ∃ l : List Address, l.Nodup ∧ (∀ a ∈ l, a ∈ h.objects) ∧ h' = h.markEach l

namespace WithMarks

theorem refl (h : Heap) : h.WithMarks h :=
  ⟨[], List.nodup_nil, fun _ ha => absurd ha List.not_mem_nil, rfl⟩

section Clean

variable (hw : h.WellFormed) (hc : h.Clean)
include hw hc

theorem onlyMarks (hm : h.WithMarks h') : h.OnlyMarks h' := by
  obtain ⟨l, hn, hl, rfl⟩ := hm
  exact (markEach_spec hw (.refl hw hc) hn hl fun a ha => hc.isMarked a (hl a ha)).1

theorem markAt (hm : h.WithMarks h') (ha : a ∈ h.objects)
    (hfree : (h'.header a).isMarked = false) : h.WithMarks (h'.markAt a) := by
  obtain ⟨l, hn, hl, rfl⟩ := hm
  obtain ⟨-, hmarked⟩ :=
    markEach_spec hw (.refl hw hc) hn hl fun a ha => hc.isMarked a (hl a ha)
  -- an object without a mark is none of those that were marked before
  have hnot : a ∉ l := fun hin => by
    rw [hmarked a ha, decide_eq_true hin, Bool.true_or] at hfree
    exact absurd hfree (by decide)
  refine ⟨l ++ [a], hn.append (List.nodup_singleton a) ?_, ?_, ?_⟩
  · exact List.disjoint_singleton.2 hnot
  · intro b hb
    rcases List.mem_append.1 hb with hb | hb
    · exact hl b hb
    · exact List.mem_singleton.1 hb ▸ ha
  · rw [markEach, markEach, List.foldl_append]
    rfl

/-- Heaps made by marks are equal if the same objects are marked in them. -/
theorem eq (hm : h.WithMarks h') (hm' : h.WithMarks h'')
    (hsame : ∀ a ∈ h.objects, (h'.header a).isMarked = true ↔ (h''.header a).isMarked = true) :
    h' = h'' := by
  obtain ⟨l, hn, hl, rfl⟩ := hm
  obtain ⟨l', hn', hl', rfl⟩ := hm'
  have hmarked : ∀ {l : List Address}, l.Nodup → (∀ a ∈ l, a ∈ h.objects) → ∀ a ∈ h.objects,
      ((h.markEach l).header a).isMarked = true ↔ a ∈ l := by
    intro l hn hl a ha
    obtain ⟨-, hmarked⟩ :=
      markEach_spec hw (.refl hw hc) hn hl fun a ha => hc.isMarked a (hl a ha)
    rw [hmarked a ha, hc.isMarked a ha, Bool.or_false, decide_eq_true_eq]
  refine markEach_perm hw hl ((List.perm_ext_iff_of_nodup hn hn').2 fun a => ?_)
  constructor
  · intro ha
    have hobj := hl a ha
    exact (hmarked hn' hl' a hobj).1 ((hsame a hobj).1 ((hmarked hn hl a hobj).2 ha))
  · intro ha
    have hobj := hl' a ha
    exact (hmarked hn hl a hobj).1 ((hsame a hobj).2 ((hmarked hn' hl' a hobj).2 ha))

end Clean

end WithMarks

end Heap

/-! ### Tracing -/

namespace Trace

variable {h : Heap} {target : Target} {t : Trace} {a : Address}

theorem withMarks_mark (hw : h.WellFormed) (hc : h.Clean) (hm : h.WithMarks t.heap)
    (ha : a ∈ h.objects) : h.WithMarks (t.mark target a).heap := by
  by_cases hnew : target.condemnsAddress a = true ∧ (t.heap.header a).isMarked = false
  · rw [mark_of_condemned hnew.1 hnew.2]
    exact hm.markAt hw hc ha hnew.2
  · rwa [mark_of_not hnew]

/-- All that a trace does to the heap is to mark objects. -/
theorem invariant_withMarks (hw : h.WellFormed) (hc : h.Clean) (ht : h.Tagged) :
    Invariant h target fun t => h.WithMarks t.heap where
  isObject hm hobj := ((hm.onlyMarks hw hc).isObject_iff hw ht).1 hobj
  mark hm ha := withMarks_mark hw hc hm ha
  counted hm := hm
  popped hm _ := hm

end Trace

/-! ### The first pass -/

/-- The first pass of a collection makes its heap by marks. -/
theorem Heap.withMarks_markLive {h h' : Heap} {types : TypeSystem} {target : Target}
    {roots holders : List Address} {stats : TraceStats} (hw : h.WellFormed) (hc : h.Clean)
    (ht : h.Tagged) (hrun : markLive types target roots holders h = .ok stats h') :
    h.WithMarks h' := by
  obtain ⟨t, hm, -, rfl⟩ := (Trace.invariant_withMarks hw hc ht).of_markLive (.refl h) hrun
  exact hm

end GenerationalHeap
