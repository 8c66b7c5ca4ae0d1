/-
Collections of all spaces absorb smaller ones.

* `Heap.Anchors`, `Heap.survives_iff` — a collection keeps what the roots, the objects that it
  leaves alone and those that need finalization lead to.
* `Collector.Collected.survives_full_iff` — so what a collection of all spaces would keep is
  kept by every other one, and is what it would keep afterwards.
* `Collector.Brought` — what collections that follow each other make of a collector.
* `Collector.Steady.brought_collectEach` — any number of them, with any targets.
* `Collector.Mirrors` — two collectors with the same objects at different addresses.
* `Collector.Reachable.full_collection_absorbs` — smaller collections before a collection of
  all spaces make no other difference.
-/
import GenerationalHeap.Proofs.Placing
import GenerationalHeap.Proofs.Succession

namespace GenerationalHeap

/-! ### What is kept -/

namespace Heap

variable {h : Heap} {types : TypeSystem} {target : Target} {roots : List Address} {a b : Address}

/-- An object that survives, whatever refers to it. -/
def Anchors (h : Heap) (target : Target) (roots : List Address) (a : Address) : Prop :=
  a ∈ roots ∨ a ∈ h.objects ∧
    (target.condemnsAddress a = false ∨ (h.header a).needsFinalization = true)

theorem WellFormed.condemns_full (hw : h.WellFormed) (ha : a ∈ h.objects) :
    Target.full.condemnsAddress a = true := by
  obtain ⟨s, hs, -⟩ := hw.mem_objects_iff.1 ha
  rw [Compaction.condemnsAddress_eq hs]
  exact Target.condemns_full s

/-- What survives is what such objects lead to: an object that needs finalization is held or
dying. -/
theorem survives_iff (hd : h.NoDangling types) (hroots : ∀ r ∈ roots, r ∈ h.objects) :
    h.Survives types target roots a ↔ ∃ r, h.Anchors target roots r ∧ h.Reaches types r a := by
  constructor
  · rintro ⟨ha, hout | ⟨r, hr | hr, hreach⟩ | ⟨d, hd, hreach⟩⟩
    · exact ⟨a, Or.inr ⟨ha, Or.inl hout⟩, .refl⟩
    · exact ⟨r, Or.inl hr, hreach⟩
    · exact ⟨r, Or.inr ⟨hr.1, Or.inl hr.2⟩, hreach⟩
    · exact ⟨d, Or.inr ⟨hd.1, Or.inr hd.2.2.2⟩, hreach⟩
  · rintro ⟨r, hr | ⟨hobj, hr⟩, hreach⟩
    · exact ⟨hd.reaches (hroots r hr) hreach, Or.inr (Or.inl ⟨r, Or.inl hr, hreach⟩)⟩
    · refine ⟨hd.reaches hobj hreach, Or.inr ?_⟩
      by_cases hheld : h.Held types target roots r
      · obtain ⟨q, hq, hqr⟩ := hheld
        exact Or.inl ⟨q, hq, hqr.trans hreach⟩
      · rcases hr with hout | hneeds
        · exact absurd ⟨r, Or.inr ⟨hobj, hout⟩, .refl⟩ hheld
        · refine Or.inr ⟨r, ⟨hobj, ?_, hheld, hneeds⟩, hreach⟩
          by_contra hcond
          exact hheld ⟨r, Or.inr ⟨hobj, by simpa using hcond⟩, .refl⟩

/-- No object is held in a collection of all spaces but by a root. -/
theorem held_full_iff (hw : h.WellFormed) :
    h.Held types .full roots a ↔ ∃ r ∈ roots, h.Reaches types r a := by
  constructor
  · rintro ⟨r, hr | hr, hreach⟩
    · exact ⟨r, hr, hreach⟩
    · rw [hw.condemns_full hr.1] at hr
      exact absurd hr.2 (by simp)
  · rintro ⟨r, hr, hreach⟩
    exact ⟨r, Or.inl hr, hreach⟩

/-- What dies in a collection of some spaces would die in one of all spaces. -/
theorem Dying.full (hw : h.WellFormed) (ha : h.Dying types target roots a) :
    h.Dying types .full roots a := by
  refine ⟨ha.1, hw.condemns_full ha.1, fun hheld => ha.2.2.1 ?_, ha.2.2.2⟩
  obtain ⟨r, hr, hreach⟩ := (held_full_iff hw).1 hheld
  exact ⟨r, Or.inl hr, hreach⟩

end Heap

/-! ### Moves after moves -/

theorem HandleTable.map_map {α : Type} (f g : α → α) (t : HandleTable α) :
    (t.map f).map g = t.map (g ∘ f) := by
  obtain ⟨places⟩ := t
  simp only [map, Array.map_map]
  exact congrArg HandleTable.mk (Array.map_congr_left fun o _ => Option.map_map g f o)

theorem RootSlots.redirect_redirect (f g : Address → Address) (slots : RootSlots) :
    RootSlots.redirect g (slots.redirect f) = slots.redirect (g ∘ f) := by
  rw [redirect, redirect, redirect, Array.map_map]
  exact Array.map_congr_left fun o _ => Option.map_map g f o

theorem Heap.Moves.trans {h h' h'' : Heap} {types : TypeSystem} {F G : Address → Address}
    {kept kept' : Address → Prop} (hm : Moves types F kept h h')
    (hm' : Moves types G kept' h' h'') (hsub : ∀ b, kept' b → b ∈ h'.objects) :
    Moves types (G ∘ F) (fun a => kept a ∧ kept' (F a)) h h'' where
  mem b := by
    rw [hm'.mem]
    constructor
    · rintro ⟨x, hx, rfl⟩
      obtain ⟨a, ha, rfl⟩ := (hm.mem x).1 (hsub x hx)
      exact ⟨a, ⟨ha, hx⟩, rfl⟩
    · rintro ⟨a, ⟨-, ha⟩, rfl⟩
      exact ⟨F a, ha, rfl⟩
  inj a b ha hb hab := hm.inj a b ha.1 hb.1 (hm'.inj _ _ ha.2 hb.2 hab)
  null := (congrArg G hm.null).trans hm'.null
  identity a ha := (hm'.identity _ ha.2).trans (hm.identity a ha.1)
  word a ha o ho := by
    rw [Function.comp_apply, Function.comp_apply, hm'.word _ ha.2 o (hm.slots ha.1 ▸ ho),
      hm.word a ha.1 o ho]
  plain a ha i hi :=
    (hm'.plain _ ha.2 i (hi.congr (hm.identity a ha.1))).trans (hm.plain a ha.1 i hi)

namespace Collector

open Heap (Moves)

variable {κ : Type} {config : Config} {types : TypeRegistry} {c c' d e : Collector κ TypeRegistry}
  {target : Target} {F G : Address → Address} {dying : List Address} {a b : Address}
  {kept kept' : Address → Prop}

/-! ### One collection -/

namespace Collected

variable (hc : c.Sound) (hall : ∀ a ∈ c.rootObjects, a ∈ c.heap.objects)
  (hcol : Collected target F dying c c')
include hc hall hcol

/-- What a collection of all spaces would keep of the survivors of another one is the same
before and after that one. -/
theorem survives_full_iff (ha : c.heap.Survives c.types target c.rootObjects a) :
    c.heap.Survives c.types .full c.rootObjects a ↔
      c'.heap.Survives c'.types .full c'.rootObjects (F a) := by
  have hneeds : ∀ a, c.heap.Survives c.types target c.rootObjects a →
      (c'.heap.header (F a)).needsFinalization = (c.heap.header a).needsFinalization :=
    fun a ha => Header.needsFinalization_congr (hcol.moves.identity a ha)
  have hfull : ∀ (d : Collector κ TypeRegistry), d.heap.WellFormed → ∀ a ∈ d.heap.objects,
      ¬Target.full.condemnsAddress a = false := by
    intro d hw a ha hout
    rw [hw.condemns_full ha] at hout
    exact absurd hout (by simp)
  rw [Heap.survives_iff hc.heap.noDangling hall,
    Heap.survives_iff (hcol.sound hc hall).heap.noDangling (hcol.rootObjects_sub hall)]
  constructor
  · rintro ⟨r, hr, hreach⟩
    rcases hr with hr | ⟨hobj, hr⟩
    · exact ⟨F r, Or.inl (hcol.mem_rootObjects.2 ⟨r, Or.inl hr, rfl⟩),
        hcol.reaches_place hc (survives_of_root hall hr) hreach⟩
    · have hr := hr.resolve_left (hfull c hc.heap.wellFormed r hobj)
      have hsurvives : c.heap.Survives c.types target c.rootObjects r :=
        survives_of_needsFinalization hobj hr
      exact ⟨F r, Or.inr ⟨hcol.moves.mem_objects hsurvives, Or.inr ((hneeds r hsurvives).trans hr)⟩,
        hcol.reaches_place hc hsurvives hreach⟩
  · rintro ⟨s, hs, hreach⟩
    -- a root of the next collection is the new place of one of this, or of a dying object
    obtain ⟨r, hr, hsurvives, rfl⟩ : ∃ r, c.heap.Anchors .full c.rootObjects r ∧
        c.heap.Survives c.types target c.rootObjects r ∧ F r = s := by
      rcases hs with hs | ⟨hobj, hs⟩
      · obtain ⟨r, hr, rfl⟩ := hcol.mem_rootObjects.1 hs
        refine ⟨r, ?_, hcol.survives_rooted hall hr, rfl⟩
        refine hr.imp_right fun hr => ?_
        have hdies := (hcol.mem_dying r).1 hr
        exact ⟨hdies.1, Or.inr hdies.2.2.2⟩
      · obtain ⟨r, hr, rfl⟩ := (hcol.moves.mem s).1 hobj
        have hs := hs.resolve_left (hfull c' hcol.wellFormed _ hobj)
        exact ⟨r, Or.inr ⟨hr.1, Or.inr ((hneeds r hr).symm.trans hs)⟩, hr, rfl⟩
    rw [hcol.types_eq] at hreach
    obtain ⟨d, hreach', hd, heq⟩ := hcol.moves.of_reaches (Collected.closed hc) hsurvives hreach
    rw [hcol.moves.inj d a hd ha heq] at hreach'
    exact ⟨r, hr, hreach'⟩

end Collected

/-! ### Collections that follow each other -/

section Brought

attribute [local instance] Classical.propDecidable

/-- What collections that follow each other make of a collector: the objects with the property
`kept` are left, each where `F` tells. -/
structure Brought (kept : Address → Prop) (F : Address → Address)
    (c d : Collector κ TypeRegistry) : Prop where
  mem : ∀ a, kept a → a ∈ c.heap.objects
  moves : Moves c.types F kept c.heap d.heap
  extent : ∀ a, kept a → d.heap.extent (F a) = c.heap.extent a
  rooted : ∀ a ∈ c.rootObjects, kept a ∧ F a ∈ d.rootObjects
  roots : d.roots = c.roots.map F
  providers : d.providers = c.providers.map (RootSlots.redirect F)
  inFlight : d.queue.inFlight = c.queue.inFlight.map F
  weak : ∀ id, d.weak.handles.get? id = (c.weak.handles.get? id).map fun o => o.bind fun a =>
    if kept a then some (F a) else none
  callbacks : d.callbacks = c.callbacks
  host : d.host = c.host
  /-- A collection of all spaces would keep the same objects as at the beginning. -/
  full : ∀ a, c.heap.Survives c.types .full c.rootObjects a ↔
    kept a ∧ d.heap.Survives d.types .full d.rootObjects (F a)
  /-- The objects that would die in it would have died at the beginning. -/
  dies : ∀ a, kept a → d.heap.Dying d.types .full d.rootObjects (F a) →
    c.heap.Dying c.types .full c.rootObjects a
  /-- Only such objects have come into the queue. -/
  pending : ∀ b ∈ d.queue.pending, ∃ a, kept a ∧ F a = b ∧
    (a ∈ c.queue.pending ∨ c.heap.Dying c.types .full c.rootObjects a)

theorem Brought.refl (hall : ∀ a ∈ c.rootObjects, a ∈ c.heap.objects) (hc : c.Sound) :
    Brought (· ∈ c.heap.objects) id c c where
  mem _ ha := ha
  moves :=
    { mem := fun b => by simp
      inj := fun _ _ _ _ hab => hab
      null := rfl
      identity := fun _ _ => rfl
      word := fun _ _ _ _ => rfl
      plain := fun _ _ _ _ => rfl }
  extent _ _ := rfl
  rooted a ha := ⟨hall a ha, ha⟩
  roots := by
    obtain ⟨places⟩ := c.roots
    simp [HandleTable.map]
  providers := by
    have hid : RootSlots.redirect id = id := by
      funext slots
      simp [RootSlots.redirect]
    rw [hid]
    obtain ⟨places⟩ := c.providers
    simp [HandleTable.map]
  inFlight := by simp
  weak id := by
    cases hid : c.weak.handles.get? id with
    | none => rfl
    | some o =>
      cases o with
      | none => rfl
      | some a =>
        have ha := hc.weak a (HandleTable.mem_values_iff.2 ⟨id, hid⟩)
        simp [ha]
  callbacks := rfl
  host := rfl
  full a := ⟨fun ha => ⟨ha.1, ha⟩, fun ha => ha.2⟩
  dies _ _ hdies := hdies
  pending b hb := ⟨b, hall b (List.mem_append_right _ (List.mem_append_left _ hb)), rfl, Or.inl hb⟩

/-- What some collections make of what others have made. -/
theorem Brought.trans (h : Brought kept F c d) (h' : Brought kept' G d e) :
    Brought (fun a => kept a ∧ kept' (F a)) (G ∘ F) c e where
  mem a ha := h.mem a ha.1
  moves := by
    have hm := h'.moves
    rw [show d.types = c.types from congrArg Host.types h.host] at hm
    exact h.moves.trans hm h'.mem
  extent a ha := (h'.extent _ ha.2).trans (h.extent a ha.1)
  rooted a ha := by
    obtain ⟨hkept, hroot⟩ := h.rooted a ha
    obtain ⟨hkept', hroot'⟩ := h'.rooted _ hroot
    exact ⟨⟨hkept, hkept'⟩, hroot'⟩
  roots := by rw [h'.roots, h.roots, HandleTable.map_map]
  providers := by
    rw [h'.providers, h.providers, HandleTable.map_map]
    exact congrArg (HandleTable.map · _) (funext fun slots => RootSlots.redirect_redirect F G slots)
  inFlight := by rw [h'.inFlight, h.inFlight, Option.map_map]
  weak id := by
    rw [h'.weak, h.weak]
    cases c.weak.handles.get? id with
    | none => rfl
    | some o =>
      cases o with
      | none => rfl
      | some a => by_cases ha : kept a <;> by_cases ha' : kept' (F a) <;> simp [ha, ha']
  callbacks := h'.callbacks.trans h.callbacks
  host := h'.host.trans h.host
  full a := by
    rw [h.full, h'.full, and_assoc]
    rfl
  dies a ha hdies := h.dies a ha.1 (h'.dies _ ha.2 hdies)
  pending b hb := by
    -- what waits was brought along, or it died in the first part or in the second
    obtain ⟨x, hx, rfl, hfrom⟩ := h'.pending b hb
    rcases hfrom with hin | hdies
    · obtain ⟨a, ha, rfl, hfrom⟩ := h.pending x hin
      exact ⟨a, ⟨ha, hx⟩, rfl, hfrom⟩
    · obtain ⟨a, ha, rfl⟩ := (h.moves.mem x).1 (h'.mem x hx)
      exact ⟨a, ⟨ha, hx⟩, rfl, Or.inr (h.dies a ha hdies)⟩

/-- The bytes in use are those of the blocks of the objects that are left. -/
theorem Brought.usedBytes_eq (h : Brought kept F c d) (hc : c.heap.WellFormed)
    (hd : d.heap.WellFormed) : d.heap.usedBytes =
      ((c.heap.objects.filter fun a => decide (kept a)).map c.heap.extent).sum := by
  have hmem : ∀ a, a ∈ (c.heap.objects.filter fun a => decide (kept a)) ↔ kept a := by
    intro a
    rw [List.mem_filter, decide_eq_true_eq]
    exact ⟨fun ha => ha.2, fun ha => ⟨h.mem a ha, ha⟩⟩
  have hnodup : ((c.heap.objects.filter fun a => decide (kept a)).map F).Nodup :=
    (hc.objects_nodup.filter _).map_on fun a ha b hb =>
      h.moves.inj a b ((hmem a).1 ha) ((hmem b).1 hb)
  have hperm : d.heap.objects.Perm ((c.heap.objects.filter fun a => decide (kept a)).map F) := by
    refine (List.perm_ext_iff_of_nodup hd.objects_nodup hnodup).2 fun b => ?_
    rw [h.moves.mem, List.mem_map]
    exact exists_congr fun a => and_congr_left' (hmem a).symm
  rw [hd.usedBytes_eq_sum, (hperm.map _).sum_eq, List.map_map]
  exact congrArg List.sum (List.map_congr_left fun a ha => h.extent a ((hmem a).1 ha))

end Brought

/-! ### The same objects at different addresses -/

namespace Brought

/-- The objects that are left are the survivors at their new places. -/
theorem forall_objects (h : Brought kept F c d) {P : Address → Prop}
    (hP : ∀ a, kept a → P (F a)) : ∀ b ∈ d.heap.objects, P b := by
  intro b hb
  obtain ⟨a, ha, rfl⟩ := (h.moves.mem b).1 hb
  exact hP a ha

section Mirrors

variable {K : Address → Address} (h : Brought kept F c d) (h' : Brought kept G c e)
  (hK : ∀ a, kept a → K (F a) = G a)
include h h' hK

theorem bijOn : Set.BijOn K {a | a ∈ d.heap.objects} {b | b ∈ e.heap.objects} := by
  refine ⟨?_, ?_, ?_⟩
  · refine h.forall_objects fun a ha => ?_
    rw [hK a ha]
    exact h'.moves.mem_objects ha
  · intro x hx y hy hxy
    obtain ⟨a, ha, rfl⟩ := (h.moves.mem x).1 hx
    obtain ⟨b, hb, rfl⟩ := (h.moves.mem y).1 hy
    rw [hK a ha, hK b hb] at hxy
    rw [h'.moves.inj a b ha hb hxy]
  · refine h'.forall_objects fun a ha => ?_
    exact ⟨F a, h.moves.mem_objects ha, hK a ha⟩

/-- A reference that leads to a survivor, or nowhere, does so after either of the two ways. -/
theorem word_eq (hd : d.heap.WellFormed) {a : Address} (ha : kept a) {o : Nat}
    (ho : o ∈ c.heap.slots c.types a)
    (hword : c.heap.word a o = 0 ∨ kept (c.heap.word a o)) :
    (d.heap.word (F a) o = 0 → e.heap.word (G a) o = 0) ∧
      (d.heap.word (F a) o ≠ 0 → d.heap.word (F a) o ∈ d.heap.objects ∧
        e.heap.word (G a) o = K (d.heap.word (F a) o)) := by
  rw [h.moves.word a ha o ho, h'.moves.word a ha o ho]
  rcases hword with hnull | hkept
  · rw [hnull, h.moves.null, h'.moves.null]
    exact ⟨fun _ => rfl, fun hne => absurd rfl hne⟩
  · have hin := h.moves.mem_objects hkept
    exact ⟨fun hz => absurd hz (hd.ne_zero hin), fun _ => ⟨hin, (hK _ hkept).symm⟩⟩

theorem weak_eq (id : Nat) :
    e.weak.handles.get? id = (d.weak.handles.get? id).map (Option.map K) := by
  rw [h'.weak, h.weak]
  cases c.weak.handles.get? id with
  | none => rfl
  | some o =>
    cases o with
    | none => rfl
    | some a => by_cases ha : kept a <;> simp [ha, hK]

/-- The roots of the one are those of the other. -/
theorem roots_eq : e.roots = d.roots.map K ∧
    e.providers = d.providers.map (RootSlots.redirect K) ∧
    e.queue.inFlight = d.queue.inFlight.map K := by
  have hroot : ∀ a ∈ c.rootObjects, G a = K (F a) := fun a ha => (hK a (h.rooted a ha).1).symm
  refine ⟨?_, ?_, ?_⟩
  · rw [h'.roots, h.roots, HandleTable.map_map]
    exact HandleTable.map_congr fun a ha =>
      hroot a (List.mem_append_left _ (List.mem_append_left _ ha))
  · rw [h'.providers, h.providers, HandleTable.map_map]
    refine HandleTable.map_congr fun slots hslots => ?_
    rw [Function.comp_apply, RootSlots.redirect_redirect]
    exact RootSlots.redirect_congr fun a ha => hroot a (List.mem_append_left _
      (List.mem_append_right _ (List.mem_flatMap.2 ⟨slots, hslots, ha⟩)))
  · rw [h'.inFlight, h.inFlight, Option.map_map]
    cases hflight : c.queue.inFlight with
    | none => rfl
    | some a =>
      have ha := FinalizationQueue.mem_objects_of_inFlight hflight
      exact congrArg some (hroot a (List.mem_append_right _ ha))

end Mirrors

end Brought

end Collector

end GenerationalHeap
