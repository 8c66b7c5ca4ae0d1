/-
The end of a compaction: headers are cleared, and the remembered set is found anew.

* `Remembered.mem_ofList`, `Remembered.nodup_ofList` — a remembered set is a set.
* `Heap.HoldsYounger` — an object that holds a reference into a younger space.
* `Compaction.finish_spec` — among the objects that are looked at, exactly those that hold
  a younger reference are remembered.
-/
import GenerationalHeap.Proofs.Actions
import GenerationalHeap.Proofs.References
import GenerationalHeap.Compaction

namespace GenerationalHeap

/-! ### Remembered sets -/

namespace Remembered

theorem nodup_insert {r : Remembered} (h : r.holders.toList.Nodup) (a : Address) :
    (r.insert a).2.holders.toList.Nodup := by
  rw [insert]
  split
  · exact h
  · rename_i hnot
    have hnew : a ∉ r.holders.toList := by simpa using hnot
    rw [Array.toList_push]
    exact List.nodup_append.2 ⟨h, List.pairwise_singleton _ a, fun x hx y hy heq =>
      hnew (List.mem_singleton.1 hy ▸ heq ▸ hx)⟩

theorem foldl_insert (l : List Address) (r : Remembered) (hr : r.holders.toList.Nodup) :
    (l.foldl (fun r a => (r.insert a).2) r).holders.toList.Nodup ∧
      ∀ a, a ∈ (l.foldl (fun r a => (r.insert a).2) r).holders ↔ a ∈ r.holders ∨ a ∈ l := by
  induction l generalizing r with
  | nil => exact ⟨hr, fun a => by simp⟩
  | cons b rest ih =>
    obtain ⟨hn, hmem⟩ := ih (r.insert b).2 (nodup_insert hr b)
    refine ⟨hn, ?_⟩
    intro a
    rw [List.foldl_cons, hmem, mem_insert, List.mem_cons, or_assoc]

theorem nodup_ofList (l : List Address) : (ofList l).holders.toList.Nodup :=
  (foldl_insert l {} List.nodup_nil).1

theorem mem_ofList {l : List Address} {a : Address} : a ∈ (ofList l).holders ↔ a ∈ l := by
  rw [ofList, (foldl_insert l {} List.nodup_nil).2]
  simp

end Remembered

/-! ### Younger references -/

theorem filterAuxM_eq_ok {α : Type} {f : α → Except Error Bool} {p : α → Bool} {l : List α}
    (h : ∀ a ∈ l, f a = .ok (p a)) (acc : List α) :
    l.filterAuxM f acc = .ok ((l.filter p).reverse ++ acc) := by
  induction l generalizing acc with
  | nil => rfl
  | cons a rest ih =>
    rw [List.filterAuxM, h a List.mem_cons_self]
    show rest.filterAuxM f (cond (p a) (a :: acc) acc) = _
    rw [ih fun b hb => h b (List.mem_cons_of_mem _ hb), List.filter_cons]
    cases p a with
    | false => rfl
    | true =>
      rw [cond_true, if_pos rfl, List.reverse_cons, List.append_assoc, List.singleton_append]

theorem filterM_eq_ok {α : Type} {f : α → Except Error Bool} {p : α → Bool} {l : List α}
    (h : ∀ a ∈ l, f a = .ok (p a)) : l.filterM f = .ok (l.filter p) := by
  rw [List.filterM, filterAuxM_eq_ok h]
  show Except.ok ((l.filter p).reverse ++ []).reverse = _
  rw [List.append_nil, List.reverse_reverse]

namespace Heap

variable {h h' : Heap} {types : TypeSystem} {a b : Address}

/-- An object that holds a reference into a younger space. -/
def HoldsYounger (h : Heap) (types : TypeSystem) (a : Address) : Prop :=
  ∃ b, h.PointsTo types a b ∧ pointsDown a b = true

theorem pointsDown_zero (a : Address) : pointsDown a 0 = false := by
  rw [pointsDown]
  cases Space.ofAddress? a <;> rfl

theorem pointsDown_eq_true_iff {s t : Space} (hs : Space.ofAddress? a = some s)
    (ht : Space.ofAddress? b = some t) : pointsDown a b = true ↔ t.rank < s.rank := by
  rw [pointsDown, hs, ht, decide_eq_true_eq]

/-- What the collector reads off an object tells whether it holds a younger reference. -/
theorem holdsYounger_eq (ht : (types (h.header a).typeId).isSome = true) :
    Compaction.holdsYounger h types a =
      .ok ((h.slots types a).any fun o => pointsDown a (h.word a o)) := by
  rw [Compaction.holdsYounger, slotsOf_eq_ok ht]

theorem any_pointsDown_iff :
    ((h.slots types a).any fun o => pointsDown a (h.word a o)) = true ↔
      h.HoldsYounger types a := by
  rw [List.any_eq_true]
  constructor
  · rintro ⟨o, ho, hdown⟩
    refine ⟨h.word a o, ⟨?_, o, ho, rfl⟩, hdown⟩
    intro hz
    rw [hz, pointsDown_zero] at hdown
    exact absurd hdown (by decide)
  · rintro ⟨b, ⟨-, o, ho, rfl⟩, hdown⟩
    exact ⟨o, ho, hdown⟩

end Heap

/-! ### Clearing headers -/

/-- A header without mark and forwarding address. -/
def Header.cleared (x : Header) : Header := (x.setMarked false).clearForwarding

@[simp] theorem Header.identity_cleared (x : Header) : x.cleared.identity = x.identity := by
  rw [cleared, identity_clearForwarding, identity_setMarked]

@[simp] theorem Header.space_cleared (x : Header) : x.cleared.space = x.space := by
  rw [cleared, space_clearForwarding, space_setMarked]

theorem Header.size_cleared (x : Header) : x.cleared.size = x.size := by
  rw [cleared, size_clearForwarding, size_setMarked]

theorem Header.isMarked_cleared (x : Header) : x.cleared.isMarked = false := by
  rw [cleared, isMarked_clearForwarding, isMarked_setMarked]

theorem Header.isForwarded_cleared (x : Header) : x.cleared.isForwarded = false :=
  isForwarded_clearForwarding _

theorem Header.forwarding_cleared (x : Header) : x.cleared.forwarding = 0 :=
  forwarding_clearForwarding _

namespace Compaction

variable {h : Heap} {types : TypeSystem} {c : Compaction} {previous : List Address}

theorem relabels_clearObjects (hw : h.WellFormed) {l : List Address} (hn : l.Nodup)
    (hsub : ∀ a ∈ l, a ∈ h.objects) :
    Heap.Relabels (fun a x => if a ∈ l then x.cleared else x) h (l.foldl clearObject h) := by
  refine Heap.relabels_foldl (F := fun _ => Header.cleared) hw hn ?_ hsub
  intro a ha h' hl
  have ha' : a ∈ h'.objects := hl.objects hw ▸ hsub a ha
  have hset := Heap.relabels_setHeader (hl.wellFormed hw) ha' (Header.size_cleared (h'.header a))
  refine hset.congr ?_
  intro b _
  by_cases hba : b = a
  · rw [if_pos hba, if_pos hba, hba]
  · rw [if_neg hba, if_neg hba]

/-- The objects at new places and the previous holders are looked at; of them, exactly
those that hold a younger reference are remembered, each once. -/
theorem finish_spec (hw : h.WellFormed) (hn : (c.settled h).Nodup)
    (hsub : ∀ a ∈ c.settled h, a ∈ h.objects) (hprev : ∀ a ∈ previous, a ∈ h.objects)
    (ht : ∀ a ∈ c.settled h ++ previous, (types (h.header a).typeId).isSome = true) :
    ∃ r h', c.finish types previous h = .ok r h' ∧
      Heap.Relabels (fun a x => if a ∈ c.settled h then x.cleared else x) h h' ∧
      r.holders.toList.Nodup ∧
      ∀ a, a ∈ r.holders ↔ (a ∈ c.settled h ∨ a ∈ previous) ∧ h'.HoldsYounger types a := by
  have hr := relabels_clearObjects hw hn hsub
  -- clearing a header leaves the type of its object
  have htype : ∀ a ∈ c.settled h ++ previous,
      (types (((c.settled h).foldl clearObject h).header a).typeId).isSome = true := by
    intro a ha
    have hobj : a ∈ h.objects := (List.mem_append.1 ha).elim (hsub a) (hprev a)
    have hid : (((c.settled h).foldl clearObject h).header a).identity =
        (h.header a).identity := by
      rw [hr.header a hobj]
      split
      · exact Header.identity_cleared _
      · rfl
    rw [show (((c.settled h).foldl clearObject h).header a).typeId = (h.header a).typeId from
      congrArg Header.Identity.typeId hid]
    exact ht a ha
  refine ⟨Remembered.ofList ((c.settled h ++ previous).filter fun a =>
      (((c.settled h).foldl clearObject h).slots types a).any fun o =>
        pointsDown a (((c.settled h).foldl clearObject h).word a o)),
    (c.settled h).foldl clearObject h, ?_, hr, Remembered.nodup_ofList _, ?_⟩
  · rw [finish, filterM_eq_ok fun a ha => Heap.holdsYounger_eq (htype a ha)]
  · intro a
    rw [Remembered.mem_ofList, List.mem_filter, List.mem_append, Heap.any_pointsDown_iff]

end Compaction

end GenerationalHeap
