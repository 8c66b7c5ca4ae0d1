/-
Passes over a heap whose slots may hold anything.

Nothing is assumed here of what the reference slots hold and of which types are known, so
that a tracing pass may fail at any object.

* `Heap.Intact` — a heap between two operations, its reference slots apart.
* `Heap.Attempted` — what a tracing pass leaves behind, whether it fails or not.
* `Heap.Attempted.identical_clearMarks` — the marks can be taken back, and then no byte of
  the heap differs.
* `Heap.markLive_ends`, `Heap.resurrect_ends` — a pass that succeeds has looked up the types
  of all that is marked and of all remembered holders.
* `Compaction.complete_of_typeKnown` — hence the compaction that follows does not fail.
-/
import GenerationalHeap.Proofs.Agreement
import GenerationalHeap.Proofs.Collecting

namespace GenerationalHeap

namespace Heap

variable {h h' : Heap} {types : TypeSystem} {target : Target} {a : Address}

/-! ### Heaps with any references -/

/-- What holds of a heap between any two operations, whatever its reference slots hold. -/
structure Intact (h : Heap) : Prop where
  wellFormed : h.WellFormed
  tagged : h.Tagged
  clean : h.Clean
  used_le : h.usedBytes ≤ spaceLimit

theorem Sound.intact (hs : h.Sound types) : h.Intact :=
  ⟨hs.wellFormed, hs.tagged, hs.clean, Nat.le_trans hs.used_le hs.maxSize_le⟩

/-- New payloads do no harm. -/
theorem Intact.of_agrees (hi : h.Intact) (ha : AgreesBut h.InPayload h h') : h'.Intact := by
  have hw := hi.wellFormed
  have hl := ha.sameLayout hw
  have hheader : ∀ a ∈ h'.objects, a ∈ h.objects ∧ h'.header a = h.header a := by
    intro a hobj
    rw [hl.objects hw] at hobj
    exact ⟨hobj, ha.header hw hobj⟩
  refine ⟨hl.wellFormed hw, ?_, ⟨?_, ?_, ?_⟩, hl.usedBytes ▸ hi.used_le⟩
  · intro s a hs
    have hobj : a ∈ h'.objects := List.mem_flatMap.2 ⟨s, s.mem_all, hs⟩
    rw [(hheader a hobj).2]
    exact hi.tagged s a (hl.objectsIn hw s ▸ hs)
  · intro a hobj
    rw [(hheader a hobj).2, hi.clean.isMarked a (hheader a hobj).1]
  · intro a hobj
    rw [(hheader a hobj).2, hi.clean.isForwarded a (hheader a hobj).1]
  · intro a hobj
    rw [(hheader a hobj).2, hi.clean.forwarding a (hheader a hobj).1]

/-- The type of an object is known. -/
def TypeKnown (h : Heap) (types : TypeSystem) (a : Address) : Prop :=
  (types (h.header a).typeId).isSome = true

theorem typeKnown_of_slotsOf {slots : List Nat} (hs : h.slotsOf types a = .ok slots) :
    h.TypeKnown types a := by
  rw [TypeKnown]
  cases hinfo : types (h.header a).typeId with
  | some info => rfl
  | none =>
    rw [slotsOf, typeOf] at hs
    simp only [hinfo] at hs
    exact absurd hs (by simp)

theorem OnlyMarks.typeKnown_iff (hm : h.OnlyMarks h') (ha : a ∈ h.objects) :
    h'.TypeKnown types a ↔ h.TypeKnown types a := by
  have htype : (h'.header a).typeId = (h.header a).typeId :=
    congrArg Header.Identity.typeId (hm.identity ha)
  rw [TypeKnown, TypeKnown, htype]

/-! ### What a pass leaves behind -/

/-- What a tracing pass leaves behind, whether it fails or not: objects of the collected
spaces are marked. -/
structure Attempted (h : Heap) (target : Target) (h' : Heap) : Prop where
  marks : h.OnlyMarks h'
  condemned : ∀ a ∈ h.objects, (h'.header a).isMarked = true → target.condemnsAddress a = true
  agrees : AgreesBut h.InHeader h h'

theorem Attempted.refl (hi : h.Intact) (target : Target) : h.Attempted target h where
  marks := .refl hi.wellFormed hi.clean
  condemned a ha hm := absurd hm (by rw [hi.clean.isMarked a ha]; exact Bool.false_ne_true)
  agrees := .refl _ h

theorem agrees_clearMark (hw : h.WellFormed) (hl : h.SameLayout h') (ha : a ∈ h.objects) :
    AgreesBut h.InHeader h' (h'.clearMark a) := by
  unfold clearMark
  dsimp only
  split
  · exact agrees_setHeader hw hl ha _
  · exact .refl _ h'

theorem agrees_clearAll (hw : h.WellFormed) {l : List Address} (hsub : ∀ a ∈ l, a ∈ h.objects)
    (hl : h.SameLayout h') : AgreesBut h.InHeader h' (l.foldl clearMark h') := by
  induction l generalizing h' with
  | nil => exact .refl _ h'
  | cons a rest ih =>
    have ha := hsub a List.mem_cons_self
    have hfirst := agrees_clearMark hw hl ha
    have hstep := relabels_clearMark (hl.wellFormed hw) (hl.objects hw ▸ ha)
    exact hfirst.trans (ih (fun b hb => hsub b (List.mem_cons_of_mem _ hb))
      (hl.trans hstep.layout hw))

/-- Once the marks are taken back, no byte differs. -/
theorem Attempted.identical_clearMarks (hi : h.Intact) (ha : h.Attempted target h') :
    h.Identical (h'.clearMarks target) := by
  have hw := hi.wellFormed
  refine (clearMarks_spec hw hi.clean ha.marks ha.condemned).identical hw (ha.agrees.trans ?_)
  rw [clearMarks, clearMarks_eq hw ha.marks.layout]
  refine agrees_clearAll hw ?_ ha.marks.layout
  intro a hin
  obtain ⟨s, -, hs⟩ := List.mem_flatMap.1 hin
  exact List.mem_flatMap.2 ⟨s, s.mem_all, hs⟩

end Heap

/-! ### Tracing -/

namespace Trace

variable {h : Heap} {types : TypeSystem} {target : Target} {t t' : Trace} {a : Address}

/-- What holds of a trace at any time, whatever it meets. -/
structure Marking (h : Heap) (target : Target) (t : Trace) : Prop
    extends t.Valid h target fun _ => True where
  agrees : Heap.AgreesBut h.InHeader h t.heap

theorem Marking.attempted (hm : t.Marking h target) : h.Attempted target t.heap :=
  ⟨hm.marks, fun a ha hma => (hm.sound a ha hma).1, hm.agrees⟩

theorem Marking.of_attempted {h' : Heap} (ha : h.Attempted target h') (resurrecting : Bool) :
    ({ heap := h', resurrecting } : Trace).Marking h target where
  marks := ha.marks
  worklist _ hin := absurd hin List.not_mem_nil
  sound a hobj hm := ⟨ha.condemned a hobj hm, trivial⟩
  agrees := ha.agrees

/-- Whatever is marked is still queued, or its type is known. -/
def Read (h : Heap) (types : TypeSystem) (t : Trace) : Prop :=
  ∀ a ∈ h.objects, t.Marked a → a ∈ t.worklist ∨ h.TypeKnown types a

theorem Extends.read (he : t.Extends h t') (hr : t.Read h types) : t'.Read h types := by
  intro a ha hm
  rcases he.fresh a ha hm with hm | hq
  · exact (hr a ha hm).imp_left (he.worklist a)
  · exact Or.inl hq

section Steps

variable (hw : h.WellFormed) (ht : h.Tagged)
include hw

theorem marking_mark (hm : t.Marking h target) (ha : a ∈ h.objects) :
    (t.mark target a).Marking h target ∧ t.Extends h (t.mark target a) := by
  obtain ⟨hv, he, -⟩ := mark_spec hw hm.toValid ha fun _ => trivial
  refine ⟨⟨hv, ?_⟩, he⟩
  rw [mark]
  split
  · dsimp only
    split
    · exact hm.agrees
    · exact hm.agrees.trans (Heap.agrees_setHeader hw hm.marks.layout ha _)
  · exact hm.agrees

include ht

theorem followSlot_ends (hm : t.Marking h target) (holder : Address) (o : Nat) :
    (followSlot target holder o).Ends t (Marking h target) fun _ t' =>
      t'.Marking h target ∧ t.Extends h t' ∧ True := by
  by_cases hz : t.heap.word holder o = 0
  · have hrun : followSlot target holder o t = .ok () t := by
      simp only [followSlot, hz, if_true]
    exact Action.ends_of_ok hrun ⟨hm, .refl t, trivial⟩
  -- only the count of references has changed before the address is checked
  obtain ⟨counted, hcounted⟩ : ∃ u : Trace, u =
      { t with stats := { t.stats with tracedReferences := t.stats.tracedReferences + 1 } } :=
    ⟨_, rfl⟩
  have hmc : counted.Marking h target := by
    rw [hcounted]
    exact ⟨hm.toValid.withStats _, hm.agrees⟩
  by_cases hobj : t.heap.isObject (t.heap.word holder o) = true
  · have hrun : followSlot target holder o t =
        .ok () (counted.mark target (t.heap.word holder o)) := by
      simp only [followSlot, hz, hobj, if_false, if_true, hcounted]
    obtain ⟨hm', he⟩ := marking_mark hw hmc ((hm.marks.isObject_iff hw ht).1 hobj)
    refine Action.ends_of_ok hrun ⟨hm', ⟨?_, ?_, ?_, ?_⟩, trivial⟩
    · exact fun b hb hmb => he.marked b hb (by rw [hcounted]; exact hmb)
    · intro b hb hmb
      have hfresh := he.fresh b hb hmb
      rwa [hcounted] at hfresh ⊢
    · exact fun b hb => he.worklist b (by rw [hcounted]; exact hb)
    · rw [he.work, hcounted]
      rfl
  · have hrun : followSlot target holder o t =
        .error (.corruptHeap holder (.danglingField o (t.heap.word holder o))) counted := by
      simp only [followSlot, hz, hobj, if_false, hcounted]
      rfl
    exact Action.ends_of_error hrun hmc

/-- A scan that succeeds has looked up the type of the object. -/
theorem scan_ends (hm : t.Marking h target) (ha : a ∈ h.objects) :
    (scan types target a).Ends t (Marking h target) fun _ t' =>
      t'.Marking h target ∧ t.Extends h t' ∧ h.TypeKnown types a := by
  cases hslots : t.heap.slotsOf types a with
  | error e => exact Action.ends_of_error (by rw [scan, hslots]) hm
  | ok slots =>
    have hknown := (hm.marks.typeKnown_iff ha).1 (Heap.typeKnown_of_slotsOf hslots)
    have hrun : scan types target a t = slots.forM (followSlot target a) t := by
      rw [scan, hslots]
    refine Action.Ends.of_eq hrun ((Action.ends_forM (fun s => .refl s)
      (fun _ _ _ he he' => he.trans he') (fun o _ s hs => followSlot_ends hw ht hs a o) hm).imp
      (fun _ hs => hs) ?_)
    exact fun _ t' hs => ⟨hs.1, hs.2.1, hknown⟩

theorem markRoot_ends (hm : t.Marking h target) (a : Address) :
    (markRoot target a).Ends t (Marking h target) fun _ t' =>
      t'.Marking h target ∧ t.Extends h t' ∧ True := by
  by_cases hobj : t.heap.isObject a = true
  · obtain ⟨hm', he⟩ := marking_mark hw hm ((hm.marks.isObject_iff hw ht).1 hobj)
    exact Action.ends_of_ok (by rw [markRoot, if_pos hobj]) ⟨hm', he, trivial⟩
  · exact Action.ends_of_error (by rw [markRoot, if_neg hobj]) hm

theorem scanHolder_ends (hm : t.Marking h target) (a : Address) :
    (scanHolder types target a).Ends t (Marking h target) fun _ t' =>
      t'.Marking h target ∧ t.Extends h t' ∧ a ∈ h.objects ∧ h.TypeKnown types a := by
  by_cases hobj : t.heap.isObject a = true
  · have ha := (hm.marks.isObject_iff hw ht).1 hobj
    have hrun : scanHolder types target a t = scan types target a t := by
      rw [scanHolder, if_pos hobj]
    refine Action.Ends.of_eq hrun ((scan_ends hw ht hm ha).imp (fun _ hs => hs) ?_)
    exact fun _ t' hs => ⟨hs.1, hs.2.1, ha, hs.2.2⟩
  · exact Action.ends_of_error (by rw [scanHolder, if_neg hobj]) hm

/-- The worklist runs empty if no scan fails, and then the types of all that is marked are
known. -/
theorem drainWithin_ends {n : Nat} (hm : t.Marking h target) (hr : t.Read h types)
    (hn : t.work h ≤ n) :
    (drainWithin types target n).Ends t (Marking h target) fun _ t' =>
      t'.Marking h target ∧ ∀ a ∈ h.objects, t'.Marked a → h.TypeKnown types a := by
  -- with an empty worklist, every mark has been read
  have hread : t.worklist = [] → ∀ a ∈ h.objects, t.Marked a → h.TypeKnown types a := by
    intro hempty a ha hma
    refine (hr a ha hma).resolve_left ?_
    rw [hempty]
    exact List.not_mem_nil
  induction n generalizing t with
  | zero =>
    have hempty : t.worklist = [] := List.eq_nil_of_length_eq_zero (by unfold work at hn; omega)
    exact Action.ends_of_ok (drainWithin_of_nil hempty) ⟨hm, hread hempty⟩
  | succ n ih =>
    cases hq : t.worklist with
    | nil =>
      exact Action.ends_of_ok (drainWithin_of_nil hq) ⟨hm, hread hq⟩
    | cons a rest =>
      obtain ⟨ha, -, hv, hless⟩ := valid_of_worklist hm.toValid hq
      have hrest : ({ t with worklist := rest } : Trace).Marking h target := ⟨hv, hm.agrees⟩
      refine Action.Ends.of_eq (drainWithin_of_cons hq) ((scan_ends hw ht hrest ha).bind ?_)
      rintro _ t₁ ⟨hm₁, he, hknown⟩
      have hr₁ : t₁.Read h types := by
        intro b hb hmb
        rcases he.fresh b hb hmb with hold | hin
        · rcases hr b hb hold with hin | hb'
          · -- the object that is scanned is the only one to leave the worklist
            rcases List.mem_cons.1 (hq ▸ hin) with rfl | hin
            · exact Or.inr hknown
            · exact Or.inl (he.worklist b hin)
          · exact Or.inr hb'
        · exact Or.inl hin
      have hwork := he.work
      refine ih hm₁ hr₁ (by omega) ?_
      intro hempty b hb hmb
      refine (hr₁ b hb hmb).resolve_left ?_
      rw [hempty]
      exact List.not_mem_nil

theorem drain_ends (hm : t.Marking h target) (hr : t.Read h types) :
    (drain types target).Ends t (Marking h target) fun _ t' =>
      t'.Marking h target ∧ ∀ a ∈ h.objects, t'.Marked a → h.TypeKnown types a :=
  drainWithin_ends hw ht hm hr (work_le hw hm.toValid)

end Steps

/-- A tracing pass is a pass over a heap. -/
theorem run_ends {α : Type} {act : Action Trace α} {E Q : Heap → Prop}
    (hends : act.Ends { heap := h } (fun t => E t.heap) fun _ t => Q t.heap) :
    (run act).Ends h E fun _ h' => Q h' := by
  cases hact : act { heap := h } with
  | ok a t => exact Action.ends_of_ok (by rw [run, hact]) (hends.of_ok hact)
  | error e t => exact Action.ends_of_error (by rw [run, hact]) (hends.of_error hact)

end Trace

/-! ### The passes of a collection -/

namespace Heap

variable {h h' : Heap} {types : TypeSystem} {target : Target} {a : Address}

/-- The first pass leaves nothing but marks. If it succeeds, the remembered holders are
objects, and their types and those of all marked objects are known. -/
theorem markLive_ends (hi : h.Intact) (roots holders : List Address) :
    (markLive types target roots holders).Ends h (h.Attempted target) fun _ h' =>
      h.Attempted target h' ∧
        (∀ a ∈ h.objects, (h'.header a).isMarked = true → h.TypeKnown types a) ∧
        ∀ a ∈ holders, a ∈ h.objects ∧ h.TypeKnown types a := by
  have hw := hi.wellFormed
  have ht := hi.tagged
  have hstart := Trace.Marking.of_attempted (.refl hi target) false
  have hread : ({ heap := h } : Trace).Read h types := fun a ha hm =>
    absurd hm (by rw [Trace.Marked, hi.clean.isMarked a ha]; exact Bool.false_ne_true)
  -- it is enough to follow the trace through its three passes
  suffices hpass : Action.Ends (do
      roots.forM (Trace.markRoot target)
      holders.forM (Trace.scanHolder types target)
      Trace.drain types target : Action Trace Unit) { heap := h } (Trace.Marking h target)
      fun _ t => h.Attempted target t.heap ∧
        (∀ a ∈ h.objects, t.Marked a → h.TypeKnown types a) ∧
        ∀ a ∈ holders, a ∈ h.objects ∧ h.TypeKnown types a from
    (Trace.run_ends (hpass.imp (fun t hm => hm.attempted) fun _ _ h' => h')).bind
      fun _ h' hh' => hh'
  refine (Action.ends_forM (fun s => .refl s) (fun _ _ _ he he' => he.trans he')
    (fun a _ s hs => Trace.markRoot_ends hw ht hs a) hstart).bind ?_
  rintro _ t₁ ⟨hm₁, he₁, -⟩
  refine (Action.ends_forM (fun s => .refl s) (fun _ _ _ he he' => he.trans he')
    (fun a _ s hs => Trace.scanHolder_ends hw ht hs a) hm₁).bind ?_
  rintro _ t₂ ⟨hm₂, he₂, hholders⟩
  refine (Trace.drain_ends hw ht hm₂ (he₂.read (he₁.read hread))).imp (fun _ hm => hm) ?_
  rintro _ t₃ ⟨hm₃, hknown⟩
  exact ⟨hm₃.attempted, hknown, hholders⟩

theorem mem_objects_of_candidates (ha : a ∈ Trace.candidates target h) : a ∈ h.objects := by
  obtain ⟨s, -, hin⟩ := List.mem_flatMap.1 ha
  exact List.mem_flatMap.2 ⟨s, s.mem_all, (List.mem_filter.1 hin).1⟩

theorem marking_markAll (hw : h.WellFormed) {l : List Address} {t : Trace}
    (hl : ∀ a ∈ l, a ∈ h.objects) (hm : t.Marking h target) :
    (l.foldl (fun t a => t.mark target a) t).Marking h target ∧
      t.Extends h (l.foldl (fun t a => t.mark target a) t) := by
  induction l generalizing t with
  | nil => exact ⟨hm, .refl t⟩
  | cons a rest ih =>
    obtain ⟨hm₁, he₁⟩ := Trace.marking_mark hw hm (hl a List.mem_cons_self)
    obtain ⟨hm₂, he₂⟩ := ih (fun b hb => hl b (List.mem_cons_of_mem _ hb)) hm₁
    exact ⟨hm₂, he₁.trans he₂⟩

/-- The second pass leaves nothing but marks either. -/
theorem resurrect_ends (hi : h.Intact) (ha : h.Attempted target h')
    (hknown : ∀ a ∈ h.objects, (h'.header a).isMarked = true → h.TypeKnown types a) :
    (resurrect types target (Trace.candidates target h')).Ends h' (h.Attempted target)
      fun _ h'' => h.Attempted target h'' ∧
        ∀ a ∈ h.objects, (h''.header a).isMarked = true → h.TypeKnown types a := by
  have hw := hi.wellFormed
  have hobjects := ha.marks.layout.objects hw
  obtain ⟨hm, he⟩ := marking_markAll hw (l := Trace.candidates target h')
    (fun a hin => hobjects ▸ mem_objects_of_candidates hin)
    (Trace.Marking.of_attempted ha true)
  have hstart : ({ heap := h', resurrecting := true } : Trace).Read h types :=
    fun a hobj hma => Or.inr (hknown a hobj hma)
  have hread := he.read hstart
  -- the marking of the candidates itself cannot fail, the draining after it can
  obtain ⟨started, hstarted⟩ : ∃ t : Trace, t =
      (Trace.candidates target h').foldl (fun t a => t.mark target a)
        { heap := h', resurrecting := true } := ⟨_, rfl⟩
  rw [← hstarted] at hm hread
  have hdrain := Trace.drain_ends hw hi.tagged hm hread
  refine (Trace.run_ends (E := h.Attempted target) (Q := fun h'' => h.Attempted target h'' ∧
    ∀ a ∈ h.objects, (h''.header a).isMarked = true → h.TypeKnown types a) ?_).bind
      fun _ _ hh'' => hh''
  cases hrun : Trace.drain types target started with
  | ok u t =>
    obtain ⟨hm', hall⟩ := hdrain.of_ok hrun
    have hres : Trace.resurrect types target (Trace.candidates target h') { heap := h' } =
        .ok () { t with resurrecting := false } := by
      rw [Trace.resurrect, ← hstarted]
      simp only [hrun]
    exact Action.ends_of_ok hres ⟨hm'.attempted, hall⟩
  | error e t =>
    have hm' := hdrain.of_error hrun
    have hres : Trace.resurrect types target (Trace.candidates target h') { heap := h' } =
        .error e { t with resurrecting := false } := by
      rw [Trace.resurrect, ← hstarted]
      simp only [hrun]
    exact Action.ends_of_error hres hm'.attempted

end Heap

/-! ### Compacting -/

namespace Compaction

variable {h h' h₁ h₂ : Heap} {types : TypeSystem} {target : Target} {c : Compaction}
  {holders : List Address} {a : Address}

/-- Types without references. -/
def leaves : TypeSystem := fun _ => some (.leaf "leaf")

theorem not_pointsTo_leaves (h : Heap) (a b : Address) : ¬h.PointsTo leaves a b := by
  rintro ⟨-, o, ho, -⟩
  exact absurd ho List.not_mem_nil

/-- Where the survivors go does not hang on references: what a pass leaves behind can be
compacted as if no object had any. -/
theorem traced_leaves (hi : h.Intact) (ha : h.Attempted target h') : h'.Traced leaves target := by
  have hw := hi.wellFormed
  have hobjects := ha.marks.layout.objects hw
  refine ⟨⟨ha.marks.layout.wellFormed hw, ha.marks.tagged hw hi.tagged, fun _ _ => rfl,
    fun a _ b hab => absurd hab (not_pointsTo_leaves h' a b)⟩, ?_, ?_, ?_,
    fun a b _ hab => absurd hab (not_pointsTo_leaves h' a b),
    ha.marks.layout.usedBytes ▸ hi.used_le⟩
  · intro a hobj
    rw [hobjects] at hobj
    rw [ha.marks.header a hobj, Header.isForwarded_markIf, hi.clean.isForwarded a hobj]
  · intro a hobj
    rw [hobjects] at hobj
    rw [ha.marks.header a hobj, Header.forwarding_markIf, hi.clean.forwarding a hobj]
  · intro a hobj hm
    exact ha.condemned a (hobjects ▸ hobj) hm

/-- Two heaps with the same blocks and the same headers. -/
structure SameHeaders (h h' : Heap) : Prop where
  layout : h.SameLayout h'
  header : ∀ a ∈ h.objects, h'.header a = h.header a

theorem SameHeaders.refl (hw : h.WellFormed) : SameHeaders h h := ⟨.refl hw, fun _ _ => rfl⟩

theorem SameHeaders.fixSlot (hs : SameHeaders h h') (hw : h.WellFormed) (ha : a ∈ h.objects)
    {o : Nat} (ho : o ∈ h.slots types a) : SameHeaders h (c.fixSlot a h' o) := by
  have hobjects := hs.layout.objects hw
  have hfit := Heap.slot_fits ho
  rw [← hs.header a ha] at hfit
  rw [Compaction.fixSlot]
  split
  · exact hs
  · have hset := Heap.stores_setWord (hs.layout.wellFormed hw) (hobjects ▸ ha) hfit
      (c.plan.forward h' (h'.word a o))
    refine ⟨hs.layout.trans hset.layout hw, ?_⟩
    intro b hb
    rw [hset.header b (hobjects ▸ hb), hs.header b hb]

/-- The references of a holder are redirected if its type is known, whatever they are. -/
theorem SameHeaders.fixHolder (hs : SameHeaders h h') (hw : h.WellFormed) (ha : a ∈ h.objects)
    (hk : h.TypeKnown types a) (c : Compaction) :
    ∃ h'', c.fixHolder types a h' = .ok () h'' ∧ SameHeaders h h'' := by
  have hid : (h'.header a).identity = (h.header a).identity :=
    congrArg Header.identity (hs.header a ha)
  have hslots : h'.slotsOf types a = .ok (h.slots types a) := by
    rw [← Heap.slots_congr hid]
    exact Heap.slotsOf_eq_ok (by rwa [hs.header a ha])
  have hfold : ∀ slots : List Nat, (∀ o ∈ slots, o ∈ h.slots types a) → ∀ h', SameHeaders h h' →
      SameHeaders h (slots.foldl (c.fixSlot a) h') := by
    intro slots
    induction slots with
    | nil => exact fun _ _ hs => hs
    | cons o rest ih =>
      intro hsub h' hs
      exact ih (fun p hp => hsub p (List.mem_cons_of_mem _ hp)) _
        (hs.fixSlot hw ha (hsub o List.mem_cons_self))
  exact ⟨_, by rw [Compaction.fixHolder, hslots], hfold _ (fun _ ho => ho) h' hs⟩

theorem fixReferences_of_typeKnown (hw : h.WellFormed)
    (hk : ∀ a ∈ c.holders ++ holders, a ∈ h.objects ∧ h.TypeKnown types a) :
    ∃ h', c.fixReferences types holders h = .ok () h' ∧ SameHeaders h h' := by
  obtain ⟨h', hrun, hs, -⟩ := Action.forM_spec (f := c.fixHolder types) (I := SameHeaders h)
    (R := fun _ _ => True) (Q := fun _ _ => True) (l := c.holders ++ holders) (fun _ => trivial)
    (fun _ _ _ _ _ => trivial) (fun _ _ _ _ _ _ => trivial)
    (fun a ha s hs => by
      obtain ⟨s', hrun, hs'⟩ := hs.fixHolder hw (hk a ha).1 (hk a ha).2 c
      exact ⟨s', hrun, hs', trivial, trivial⟩) (.refl hw)
  exact ⟨h', hrun, hs⟩

/-- A compaction does not fail if the types of all survivors and of the remembered holders
are known. -/
theorem complete_of_typeKnown (hT : h.Traced leaves target) (hs : Started h target c h₁)
    (hmarked : ∀ a ∈ h.objects, (h.header a).isMarked = true → h.TypeKnown types a)
    (hholders : ∀ a ∈ holders,
      a ∈ h.objects ∧ target.condemnsAddress a = false ∧ h.TypeKnown types a) :
    ∃ answer h', c.complete types holders h₁ = .ok answer h' := by
  have hw := hT.wellFormed
  have hknown : ∀ a ∈ h.objects, h.TypeKnown types a →
      (types (h₁.header a).typeId).isSome = true := by
    intro a ha hk
    rw [show (h₁.header a).typeId = (h.header a).typeId from
      congrArg Header.Identity.typeId (hs.identity ha)]
    exact hk
  have hread : ∀ a ∈ c.holders ++ holders, a ∈ h₁.objects ∧ h₁.TypeKnown types a := by
    intro a ha
    rw [hs.objects_eq hT]
    rcases List.mem_append.1 ha with ha | ha
    · obtain ⟨hobj, hm, -⟩ := (hs.mem_holders hT).1 ha
      exact ⟨hobj, hknown a hobj (hmarked a hobj hm)⟩
    · obtain ⟨hobj, -, hk⟩ := hholders a ha
      exact ⟨hobj, hknown a hobj hk⟩
  obtain ⟨h₂, hfix, hsame⟩ := fixReferences_of_typeKnown (hs.wellFormed hT) hread
  have hheader : ∀ a ∈ h.objects, h₂.header a = h₁.header a := fun a ha =>
    hsame.header a (hs.objects_eq hT ▸ ha)
  obtain ⟨sweep, h₃, hsweep, hc, -⟩ := carried_sweep hT hs hsame.layout hheader
  -- an object that survives has the same type at its new place
  have hplace : ∀ a, Alive h target a → h.TypeKnown types a →
      (types ((c.relocate h₃).header ((Plan.ofHeap h target).place a)).typeId).isSome = true := by
    intro a ha hk
    rw [header_carried hT hs hsame.layout hheader hc ha]
    exact hknown a ha.1 hk
  have hstay : ∀ a ∈ holders,
      Alive h target a ∧ (Plan.ofHeap h target).place a = a ∧ h.TypeKnown types a := by
    intro a ha
    obtain ⟨hobj, hout, hk⟩ := hholders a ha
    refine ⟨⟨hobj, fun hcond => ?_⟩, place_of_not_condemned hw hout, hk⟩
    rw [hout] at hcond
    exact absurd hcond Bool.false_ne_true
  have hsettled : ∀ a ∈ c.settled (c.relocate h₃), a ∈ (c.relocate h₃).objects := by
    intro a ha
    obtain ⟨d, hd, -, rfl⟩ := (hc.mem_settled hT hs).1 ha
    exact hc.carries.mem_objects hd
  have htypes : ∀ a ∈ c.settled (c.relocate h₃) ++ holders,
      (types ((c.relocate h₃).header a).typeId).isSome = true := by
    intro a ha
    rcases List.mem_append.1 ha with ha | ha
    · obtain ⟨d, hd, hcond, rfl⟩ := (hc.mem_settled hT hs).1 ha
      exact hplace d hd (hmarked d hd.1 (hd.2 hcond))
    · obtain ⟨halive, heq, hk⟩ := hstay a ha
      have hthere := hplace a halive hk
      rwa [heq] at hthere
  obtain ⟨r, h₅, hfinish, -⟩ := finish_spec hc.carries.wellFormed (hc.nodup_settled hT hs) hsettled
    (fun a ha => (hc.carries.mem a).2 ⟨a, (hstay a ha).1, (hstay a ha).2.1⟩) htypes
  exact ⟨(sweep, r), h₅, complete_of_steps hfix hsweep hfinish⟩

end Compaction

end GenerationalHeap
