/-
What tables of handles hold.

* `HandleTable.mem_values_iff` — the values of a table are what its handles lead to, so
  that looking up tells all about them.
* `HandleTable.mem_ids`, `HandleTable.values_eq_filterMap` — the handles of a table are those that
  lead somewhere, and its values come in their order.
* `HandleTable.map_congr`, `RootSlots.redirect_congr`, `FinalizationQueue.redirect_congr` —
  a change depends on its effect on what is held alone.
-/
import GenerationalHeap.Finalization
import GenerationalHeap.Proofs.Actions

namespace GenerationalHeap

/-- Places that hold nothing are left alone by any change. -/
theorem optionMap_congr {α : Type} {places : Array (Option α)} {f g : α → α}
    (h : ∀ a ∈ places.toList.filterMap id, f a = g a) :
    places.map (Option.map f) = places.map (Option.map g) := by
  refine Array.map_congr_left ?_
  intro o ho
  cases o with
  | none => rfl
  | some a =>
    exact congrArg some (h a (List.mem_filterMap.2 ⟨some a, Array.mem_toList_iff.2 ho, rfl⟩))

namespace HandleTable

variable {α : Type} {t : HandleTable α} {a b : α} {id k : Nat}

theorem get?_eq_some_iff : t.get? id = some a ↔ ∃ i, id = i + 1 ∧ t.places[i]? = some (some a) := by
  cases id with
  | zero => simp [get?]
  | succ i =>
    rw [get?, Option.join_eq_some_iff]
    constructor
    · exact fun hi => ⟨i, rfl, hi⟩
    · rintro ⟨j, hj, hplace⟩
      rwa [Nat.succ.inj hj]

/-- The values of a table are what its handles lead to. -/
theorem mem_values_iff : a ∈ t.values ↔ ∃ id, t.get? id = some a := by
  rw [values, List.mem_filterMap]
  constructor
  · rintro ⟨o, ho, rfl⟩
    obtain ⟨i, hi⟩ := List.mem_iff_getElem?.1 ho
    rw [Array.getElem?_toList] at hi
    exact ⟨i + 1, get?_eq_some_iff.2 ⟨i, rfl, hi⟩⟩
  · rintro ⟨id, hid⟩
    obtain ⟨i, -, hi⟩ := get?_eq_some_iff.1 hid
    exact ⟨some a, List.mem_iff_getElem?.2 ⟨i, by rw [Array.getElem?_toList, hi]⟩, rfl⟩

theorem mem_values_add (h : b ∈ (t.add a).2.values) : b = a ∨ b ∈ t.values := by
  obtain ⟨id, hid⟩ := mem_values_iff.1 h
  rw [get?_add] at hid
  split at hid
  · exact Or.inl (Option.some.inj hid).symm
  · exact Or.inr (mem_values_iff.2 ⟨id, hid⟩)

theorem mem_values_modify {f : α → α} (h : b ∈ (t.modify id f).values) :
    b ∈ t.values ∨ ∃ a ∈ t.values, b = f a := by
  obtain ⟨k, hk⟩ := mem_values_iff.1 h
  rw [get?_modify] at hk
  split at hk
  · obtain ⟨a, ha, rfl⟩ := Option.map_eq_some_iff.1 hk
    exact Or.inr ⟨a, mem_values_iff.2 ⟨k, ha⟩, rfl⟩
  · exact Or.inl (mem_values_iff.2 ⟨k, hk⟩)

theorem mem_values_erase (h : b ∈ (t.erase id).values) : b ∈ t.values := by
  obtain ⟨k, hk⟩ := mem_values_iff.1 h
  rw [get?_erase] at hk
  split at hk
  · exact absurd hk (by simp)
  · exact mem_values_iff.2 ⟨k, hk⟩

theorem mem_values_remove (h : b ∈ ((remove id).final t).values) : b ∈ t.values := by
  rw [Action.final, remove] at h
  cases hid : t.get id with
  | ok a =>
    simp only [hid] at h
    exact mem_values_erase h
  | error e =>
    simp only [hid] at h
    exact h

theorem mem_values_replace (h : b ∈ ((replace id a).final t).values) : b = a ∨ b ∈ t.values := by
  rw [Action.final, replace] at h
  cases hid : t.get id with
  | ok x =>
    simp only [hid] at h
    rcases mem_values_modify h with h | ⟨x, -, hb⟩
    · exact Or.inr h
    · exact Or.inl hb
  | error e =>
    simp only [hid] at h
    exact Or.inr h

theorem mem_values_map {f : α → α} : b ∈ (t.map f).values ↔ ∃ a ∈ t.values, f a = b := by
  rw [mem_values_iff]
  constructor
  · rintro ⟨k, hk⟩
    rw [get?_map] at hk
    obtain ⟨a, ha, rfl⟩ := Option.map_eq_some_iff.1 hk
    exact ⟨a, mem_values_iff.2 ⟨k, ha⟩, rfl⟩
  · rintro ⟨a, ha, rfl⟩
    obtain ⟨k, hk⟩ := mem_values_iff.1 ha
    exact ⟨k, by rw [get?_map, hk]; rfl⟩

/-! ### Handles in a table -/

@[simp] theorem contains_modify (t : HandleTable α) (id k : Nat) (f : α → α) :
    (t.modify id f).contains k = t.contains k := by
  rw [contains, contains, get?_modify]
  split <;> simp

@[simp] theorem contains_erase (t : HandleTable α) (id k : Nat) :
    (t.erase id).contains k = true ↔ k ≠ id ∧ t.contains k = true := by
  rw [contains, contains, get?_erase]
  split <;> simp [*]

@[simp] theorem contains_add (t : HandleTable α) (a : α) (k : Nat) :
    (t.add a).2.contains k = true ↔ k = t.next ∨ t.contains k = true := by
  rw [contains, contains, get?_add]
  split <;> simp [*]

/-- The next handle is not in the table. -/
@[simp] theorem get?_next (t : HandleTable α) : t.get? t.next = none := by simp [next, get?]

theorem contains_next (t : HandleTable α) : t.contains t.next = false := by simp [contains]

@[simp] theorem next_add (t : HandleTable α) (a : α) : (t.add a).2.next = t.next + 1 := by
  simp [add, next]

@[simp] theorem next_modify (t : HandleTable α) (id : Nat) (f : α → α) :
    (t.modify id f).next = t.next := by
  cases id <;> simp [modify, next]

@[simp] theorem next_erase (t : HandleTable α) (id : Nat) : (t.erase id).next = t.next := by
  cases id <;> simp [erase, next]

@[simp] theorem next_map (t : HandleTable α) (f : α → α) : (t.map f).next = t.next := by
  simp [map, next]

/-- A handle in the table was given out. -/
theorem lt_next (h : t.get? id = some a) : id < t.next := by
  obtain ⟨i, rfl, hi⟩ := get?_eq_some_iff.1 h
  obtain ⟨hlt, -⟩ := Array.getElem?_eq_some_iff.1 hi
  exact Nat.succ_lt_succ hlt

theorem nodup_ids (t : HandleTable α) : t.ids.Nodup := List.Pairwise.filter _ List.nodup_range'

theorem mem_ids : id ∈ t.ids ↔ ∃ a, t.get? id = some a := by
  rw [ids, List.mem_filter, contains, Option.isSome_iff_exists, and_iff_right_iff_imp]
  rintro ⟨a, hid⟩
  obtain ⟨i, rfl, hi⟩ := get?_eq_some_iff.1 hid
  obtain ⟨hlt, -⟩ := Array.getElem?_eq_some_iff.1 hi
  exact List.mem_range'_1.2 ⟨Nat.succ_pos i, by omega⟩

/-- The values of a table in the order of its handles. -/
theorem values_eq_filterMap (t : HandleTable α) : t.values = t.ids.filterMap t.get? := by
  have hall : (List.range' 1 t.places.size).map t.get? = t.places.toList := by
    refine List.ext_getElem (by simp) fun i hi _ => ?_
    have hlt : i < t.places.size := by simpa using hi
    rw [List.getElem_map, List.getElem_range', Nat.one_mul, Nat.add_comm, get?,
      Array.getElem?_eq_getElem hlt]
    rfl
  have hskip : ∀ k, t.get? k = if t.contains k = true then t.get? k else none := by
    intro k
    rw [contains]
    cases t.get? k <;> rfl
  rw [values, ← hall, List.filterMap_map, ids, List.filterMap_filter]
  exact congrArg (List.filterMap · _) (funext hskip)

theorem map_congr {f g : α → α} (h : ∀ a ∈ t.values, f a = g a) : t.map f = t.map g :=
  congrArg HandleTable.mk (optionMap_congr h)

end HandleTable

/-! ### Slots of a provider -/

namespace RootSlots

theorem redirect_congr {slots : RootSlots} {f g : Address → Address}
    (h : ∀ a ∈ slots.objects, f a = g a) : slots.redirect f = slots.redirect g :=
  optionMap_congr h

end RootSlots

/-! ### Weak handles -/

theorem WeakTable.handles_free (t : WeakTable) (id : Nat) :
    ((free id).final t).handles = (HandleTable.remove id).final t.handles := by
  rw [Action.final, free, Action.final]
  cases HandleTable.remove id t.handles <;> rfl

/-! ### The queue -/

namespace FinalizationQueue

variable {q : FinalizationQueue} {f g : Address → Address} {a : Address}

theorem mem_objects : a ∈ q.objects ↔ a ∈ q.pending ∨ q.inFlight = some a := by
  rw [objects, List.mem_append, Option.mem_toList]

theorem mem_objects_of_inFlight (h : q.inFlight = some a) : a ∈ q.objects :=
  mem_objects.2 (Or.inr h)

theorem redirect_congr (h : ∀ a ∈ q.objects, f a = g a) : q.redirect f = q.redirect g := by
  have hpending : q.pending.map f = q.pending.map g :=
    List.map_congr_left fun a ha => h a (List.mem_append_left _ ha)
  have hflight : q.inFlight.map f = q.inFlight.map g := by
    cases hq : q.inFlight with
    | none => rfl
    | some a => exact congrArg some (h a (mem_objects_of_inFlight hq))
  rw [redirect, redirect, hpending, hflight]

end FinalizationQueue

end GenerationalHeap
