/-
What a collection leaves to the next one.

* `Heap.Moves.reaches`, `Heap.Moves.of_reaches` — chains of references move with their objects.
* `Collector.Collected.mem_rootObjects` — the roots of the next collection are the moved roots
  of the last one, and what that one has put into the queue.
* `Collector.Collected.held_next` — a collection of fewer spaces finds all their objects held.
* `Collector.Sound.spares_of_held` — a collection that finds them so reclaims nothing.
* `Collector.Reachable.repeated_collection_spares_all` — so a collection has nothing to do if
  one of more spaces has just succeeded.
-/
import GenerationalHeap.Proofs.Guarantees
import GenerationalHeap.Proofs.Passes

namespace GenerationalHeap

theorem Target.condemns_full (s : Space) : Target.full.condemns s = true :=
  decide_eq_true (Nat.le_of_lt_succ (Header.rank_lt s))

/-! ### Chains of references -/

namespace Heap.Moves

variable {h h' : Heap} {types : TypeSystem} {F : Address → Address} {alive : Address → Prop}
  {a b : Address} (hm : Moves types F alive h h')
  (hclosed : ∀ a b, alive a → h.PointsTo types a b → alive b)
include hm hclosed

/-- Whatever a surviving object leads to survives, and is led to from the new place. -/
theorem reaches (hw : h'.WellFormed) (ha : alive a) (hab : h.Reaches types a b) :
    alive b ∧ h'.Reaches types (F a) (F b) := by
  induction hab with
  | refl => exact ⟨ha, .refl⟩
  | @tail b d _ hbd ih =>
    obtain ⟨hb, hreach⟩ := ih
    have hd := hclosed b d hb hbd
    obtain ⟨-, o, ho, hword⟩ := hbd
    have hword' : h'.word (F b) o = F d := by rw [hm.word b hb o ho, hword]
    refine ⟨hd, hreach.tail ⟨hw.ne_zero (hm.mem_objects hd), o, ?_, hword'⟩⟩
    rw [hm.slots hb]
    exact ho

/-- A chain that starts at a new place is the trace of an old one. -/
theorem of_reaches (ha : alive a) (hab : h'.Reaches types (F a) b) :
    ∃ d, h.Reaches types a d ∧ alive d ∧ F d = b := by
  induction hab with
  | refl => exact ⟨a, .refl, ha, rfl⟩
  | tail _ hstep ih =>
    obtain ⟨d, hreach, hd, rfl⟩ := ih
    obtain ⟨e, hde, rfl⟩ := hm.of_pointsTo hd hstep
    exact ⟨e, hreach.tail hde, hclosed d e hd hde, rfl⟩

end Heap.Moves

/-! ### The next roots -/

theorem RootSlots.objects_redirect (f : Address → Address) (slots : RootSlots) :
    RootSlots.objects (slots.redirect f) = (RootSlots.objects slots).map f := by
  rw [redirect, objects, objects, Array.toList_map, List.filterMap_map, List.map_filterMap]
  rfl

namespace Collector

variable {κ : Type} {config : Config} {types : TypeRegistry} {c c' : Collector κ TypeRegistry}
  {target next : Target} {F : Address → Address} {dying : List Address} {a b : Address}

theorem Collected.closed (hc : c.Sound) (a b : Address)
    (ha : c.heap.Survives c.types target c.rootObjects a) (hab : c.heap.PointsTo c.types a b) :
    c.heap.Survives c.types target c.rootObjects b :=
  ha.pointsTo hc.heap.noDangling hab

/-- The roots of a collector whose roots are another one's, moved, and whose queue has some more
objects. -/
theorem mem_rootObjects_of_map (hroots : c'.roots = c.roots.map F)
    (hproviders : c'.providers = c.providers.map (RootSlots.redirect F))
    (hpending : c'.queue.pending = c.queue.pending.map F ++ dying.map F)
    (hinFlight : c'.queue.inFlight = c.queue.inFlight.map F) :
    b ∈ c'.rootObjects ↔ ∃ a, (a ∈ c.rootObjects ∨ a ∈ dying) ∧ F a = b := by
  have hprovided : b ∈ c'.providers.values.flatMap RootSlots.objects ↔
      ∃ a ∈ c.providers.values.flatMap RootSlots.objects, F a = b := by
    rw [hproviders]
    simp only [List.mem_flatMap, HandleTable.mem_values_map]
    constructor
    · rintro ⟨_, ⟨slots, hslots, rfl⟩, hb⟩
      rw [RootSlots.objects_redirect] at hb
      obtain ⟨a, ha, rfl⟩ := List.mem_map.1 hb
      exact ⟨a, ⟨slots, hslots, ha⟩, rfl⟩
    · rintro ⟨a, ⟨slots, hslots, ha⟩, rfl⟩
      refine ⟨_, ⟨slots, hslots, rfl⟩, ?_⟩
      rw [RootSlots.objects_redirect]
      exact List.mem_map_of_mem ha
  -- what dies is enqueued, and the queue is among the roots
  have hqueued : b ∈ c'.queue.objects ↔ ∃ a, (a ∈ c.queue.objects ∨ a ∈ dying) ∧ F a = b := by
    rw [FinalizationQueue.objects, FinalizationQueue.objects, hpending, hinFlight]
    simp only [List.mem_append, List.mem_map, Option.mem_toList, Option.map_eq_some_iff]
    grind
  have hhandles : b ∈ c'.roots.values ↔ ∃ a ∈ c.roots.values, F a = b := by
    rw [hroots, HandleTable.mem_values_map]
  rw [rootObjects, List.mem_append, List.mem_append, hhandles, hprovided, hqueued, rootObjects]
  simp only [List.mem_append]
  grind

namespace Collected

variable (hcol : Collected target F dying c c')
include hcol

theorem types_eq : c'.types = c.types := congrArg Host.types hcol.host

/-- The roots of the next collection are those of the last one, moved, and what that one has put
into the queue. -/
theorem mem_rootObjects :
    b ∈ c'.rootObjects ↔ ∃ a, (a ∈ c.rootObjects ∨ a ∈ dying) ∧ F a = b :=
  mem_rootObjects_of_map hcol.roots hcol.providers hcol.pending hcol.inFlight

/-- The roots survive, and so does what comes into the queue. -/
theorem survives_rooted (hall : ∀ a ∈ c.rootObjects, a ∈ c.heap.objects)
    (ha : a ∈ c.rootObjects ∨ a ∈ dying) : c.heap.Survives c.types target c.rootObjects a := by
  rcases ha with ha | ha
  · exact survives_of_root hall ha
  · have hdying := (hcol.mem_dying a).1 ha
    exact ⟨hdying.1, Or.inr (Or.inr ⟨a, hdying, .refl⟩)⟩

/-- All roots of the next collection are objects. -/
theorem rootObjects_sub (hall : ∀ a ∈ c.rootObjects, a ∈ c.heap.objects) :
    ∀ b ∈ c'.rootObjects, b ∈ c'.heap.objects := by
  intro b hb
  obtain ⟨a, ha, rfl⟩ := hcol.mem_rootObjects.1 hb
  exact hcol.moves.mem_objects (hcol.survives_rooted hall ha)

/-- What a surviving object leads to is led to from its new place. -/
theorem reaches_place (hc : c.Sound) {r : Address}
    (hr : c.heap.Survives c.types target c.rootObjects r) (hreach : c.heap.Reaches c.types r a) :
    c'.heap.Reaches c'.types (F r) (F a) := by
  rw [hcol.types_eq]
  exact (hcol.moves.reaches (Collected.closed hc) hcol.wellFormed hr hreach).2

/-- If the next collection takes no space that this one has left alone, it finds every object of
its spaces held: by a moved root, by an object that neither of them takes, or by one that this
one has put into the queue. -/
theorem held_next (hc : c.Sound) (hall : ∀ a ∈ c.rootObjects, a ∈ c.heap.objects)
    (hsub : ∀ s, next.condemns s = true → target.condemns s = true)
    (hb : b ∈ c'.heap.objects) (hcond : next.condemnsAddress b = true) :
    c'.heap.Held c'.types next c'.rootObjects b := by
  -- an object outside of the collected spaces has not moved, nor is it collected next
  have hout : ∀ a ∈ c.heap.objects, target.condemnsAddress a = false →
      F a = a ∧ next.condemnsAddress a = false := by
    intro a ha hfree
    refine ⟨hcol.fixed a ha (Or.inl hfree), ?_⟩
    obtain ⟨s, hs, -⟩ := hc.heap.wellFormed.mem_objects_iff.1 ha
    rw [Compaction.condemnsAddress_eq hs] at hfree ⊢
    by_contra hnext
    rw [hsub s (by simpa using hnext)] at hfree
    exact absurd hfree (by simp)
  obtain ⟨a, ha, rfl⟩ := (hcol.moves.mem b).1 hb
  rcases ha.2 with hfree | ⟨r, hr | hr, hreach⟩ | ⟨d, hd, hreach⟩
  · -- an object that has not moved would lie in a space that is not collected now
    obtain ⟨hfix, hnext⟩ := hout a ha.1 hfree
    rw [hfix, hnext] at hcond
    exact absurd hcond (by simp)
  · exact ⟨F r, Or.inl (hcol.mem_rootObjects.2 ⟨r, Or.inl hr, rfl⟩),
      hcol.reaches_place hc (survives_of_root hall hr) hreach⟩
  · have hsurvives : c.heap.Survives c.types target c.rootObjects r := ⟨hr.1, Or.inl hr.2⟩
    obtain ⟨hfix, hnext⟩ := hout r hr.1 hr.2
    refine ⟨F r, Or.inr ⟨hcol.moves.mem_objects hsurvives, ?_⟩,
      hcol.reaches_place hc hsurvives hreach⟩
    rw [hfix]
    exact hnext
  · have hin : d ∈ dying := (hcol.mem_dying d).2 hd
    exact ⟨F d, Or.inl (hcol.mem_rootObjects.2 ⟨d, Or.inr hin, rfl⟩),
      hcol.reaches_place hc (hcol.survives_rooted hall (Or.inr hin)) hreach⟩

end Collected

/-! ### Collections that reclaim nothing -/

/-- A collection that has made `c'` of `c` and reports that nothing was there to reclaim. -/
structure Spares (report : Report) (c c' : Collector κ TypeRegistry) : Prop where
  objectsReclaimed : report.objectsReclaimed = 0
  bytesReclaimed : report.bytesReclaimed = 0
  finalizersEnqueued : report.finalizersEnqueued = 0
  weakCleared : report.weakCleared = 0
  objects : c'.heap.objects.length = c.heap.objects.length
  used : c'.heap.usedBytes = c.heap.usedBytes
  pending : c'.queue.pending.length = c.queue.pending.length
  /-- The handles that are cleared afterwards are those that were cleared before. -/
  weak : ∀ id, c'.weak.handles.get? id = some none ↔ c.weak.handles.get? id = some none

/-- The passes leave nothing to reclaim if every object of their spaces is held. -/
theorem Passes.reclaimed_eq_nil (p : Passes target c) (hc : c.Sound)
    (hheld : ∀ a ∈ c.heap.objects, target.condemnsAddress a = true →
      c.heap.Held c.types target c.rootObjects a) :
    p.kept.reclaimed target = [] := by
  refine List.filter_eq_nil_iff.2 fun a ha => ?_
  rw [p.objects_kept hc] at ha
  intro hdead
  obtain ⟨hcond, hunmarked⟩ := (Bool.and_eq_true _ _).mp hdead
  rw [((p.onlyMarks_kept hc).2 a ha).2 ⟨hcond, Or.inl (hheld a ha hcond)⟩] at hunmarked
  exact absurd hunmarked (by simp)

/-- A collection reclaims nothing if every object of its spaces is held. -/
theorem Sound.spares_of_held (hc : c.Sound) {reason : Reason} {report : Report}
    (hheld : ∀ a ∈ c.heap.objects, target.condemnsAddress a = true →
      c.heap.Held c.types target c.rootObjects a)
    (hrun : Collector.collectFor target reason c = .ok report c') : Spares report c c' := by
  obtain ⟨F, dying, -, hcol⟩ := hc.collected_of_ok hrun
  have hreported := hc.reported_of_ok hrun
  have hsurvives : ∀ a ∈ c.heap.objects, c.heap.Survives c.types target c.rootObjects a := by
    intro a ha
    refine ⟨ha, ?_⟩
    cases hcond : target.condemnsAddress a with
    | false => exact Or.inl rfl
    | true => exact Or.inr (Or.inl (hheld a ha hcond))
  have hnone : ∀ a, ¬c.heap.Dying c.types target c.rootObjects a := fun a hd =>
    hd.2.2.1 (hheld a hd.1 hd.2.1)
  have hdying : dying = [] := List.eq_nil_iff_forall_not_mem.2 fun a ha =>
    hnone a ((hcol.mem_dying a).1 ha)
  -- the passes have marked every object of the collected spaces
  obtain ⟨p, -, hreport⟩ := Passes.of_collectFor hrun
  obtain ⟨hm, hmarked⟩ := p.onlyMarks_marked hc
  have hcandidates : p.dying = [] := List.eq_nil_iff_forall_not_mem.2 fun a ha =>
    hnone a ((Heap.mem_candidates_iff hc.heap.toTraceable hm hmarked).1 ha)
  obtain ⟨-, hobjects, hbytes⟩ := p.compaction_eq hc
  rw [p.reclaimed_eq_nil hc hheld] at hobjects hbytes
  have hnoObjects : report.objectsReclaimed = 0 := by
    rw [hreport]
    exact hobjects
  have hnoBytes : report.bytesReclaimed = 0 := by
    rw [hreport]
    exact hbytes
  refine
    { objectsReclaimed := hnoObjects
      bytesReclaimed := hnoBytes
      finalizersEnqueued := ?_
      weakCleared := ?_
      objects := by rw [← hreported.objects, hnoObjects, Nat.add_zero]
      used := by rw [← hreported.bytes, hnoBytes, Nat.add_zero]
      pending := by rw [hcol.pending, hdying, List.map_nil, List.append_nil, List.length_map]
      weak := fun id => ?_ }
  · rw [hreport]
    exact congrArg List.length hcandidates
  · rw [hreported.weakCleared]
    refine List.countP_eq_zero.2 fun o ho => ?_
    cases o with
    | none => simp
    | some a =>
      have ha := hc.weak a ho
      rw [Option.any_some, hcol.followed a ha, if_pos (hsurvives a ha)]
      simp
  · rw [hcol.weak]
    cases hid : c.weak.handles.get? id with
    | none => simp
    | some o =>
      cases o with
      | none => simp
      | some a =>
        have ha := hc.weak a (HandleTable.mem_values_iff.2 ⟨id, hid⟩)
        simp [hsurvives a ha]

/-- A collection that follows one of more spaces, with nothing in between, succeeds and reclaims
nothing: no object, no byte, no weak handle, and nothing comes into the queue. -/
theorem Reachable.repeated_collection_spares_all (h : Reachable config types c)
    {first second : Target} (hsub : ∀ s, second.condemns s = true → first.condemns s = true)
    {reason : Reason} {report : Report} (hrun : collectFor first reason c = .ok report c')
    (reason' : Reason) :
    ∃ report' c'', collectFor second reason' c' = .ok report' c'' ∧ Spares report' c' c'' := by
  have hc := h.sound
  obtain ⟨F, dying, hall, hcol⟩ := hc.collected_of_ok hrun
  have hc' := hcol.sound hc hall
  obtain ⟨report', c'', hrun'⟩ := hc'.collectFor_ok (fun slots hslots a ha =>
    hcol.rootObjects_sub hall a (List.mem_append_left _ (List.mem_append_right _
      (List.mem_flatMap.2 ⟨slots, hslots, ha⟩)))) second reason'
  exact ⟨report', c'', hrun', hc'.spares_of_held (fun b hb hcond =>
    hcol.held_next hc hall hsub hb hcond) hrun'⟩

/-- The handle of `pair` given up: nothing is held any more, but the young object wants
finalization. -/
def unheld : Collector Unit TypeRegistry := after (.removeRoot 1) pair

theorem reachable_unheld : Reachable {} ⟨#[.array "row"]⟩ unheld :=
  reachable_pair.step (.call _ _)

/-- What a collection of all spaces reclaims and enqueues in `unheld`. -/
theorem counts_of_unheld : (match collectFor .full .explicit unheld with
    | .ok report _ => some (report.objectsReclaimed, report.finalizersEnqueued)
    | .error _ _ => none) = some (1, 1) := by
  decide +kernel

/-- It reclaims the large object and puts the young one into the queue, so that a collection of
the nursery right after it has nothing to do. -/
theorem spared_of_unheld : ∃ report c', collectFor .full .explicit unheld = .ok report c' ∧
    report.objectsReclaimed = 1 ∧ report.finalizersEnqueued = 1 ∧
    ∃ report' c'', collectFor .gen0 .explicit c' = .ok report' c'' ∧ Spares report' c' c'' := by
  have hcounts := counts_of_unheld
  cases hrun : collectFor .full .explicit unheld with
  | error e c' => simp [hrun] at hcounts
  | ok report c' =>
    rw [hrun] at hcounts
    obtain ⟨hreclaimed, henqueued⟩ := Prod.mk.inj (Option.some.inj hcounts)
    exact ⟨report, c', rfl, hreclaimed, henqueued,
      reachable_unheld.repeated_collection_spares_all (fun s _ => Target.condemns_full s) hrun
        .explicit⟩

end Collector

end GenerationalHeap
