/-
Tracing marks exactly what is reachable, and does not fail on a heap without dangling
references.

All of it is stated against the heap `h` on which tracing starts: only marks change.

* `Heap.OnlyMarks` — a heap that differs from another in marks alone.
* `Trace.Valid` — what holds of a trace between any two steps; `Trace.Extends` — what
  a step does.
* `Trace.Closed` — whatever is marked is still queued or has been scanned.
* `Trace.drainWithin_spec` — the worklist runs empty. Each scan takes one object from
  the worklist, and an object enters it only when it gets its mark, so the objects
  that are queued or unmarked bound the number of scans.
-/
import GenerationalHeap.Proofs.Keeping
import GenerationalHeap.Proofs.References
import GenerationalHeap.Proofs.StartCount

namespace GenerationalHeap

/-! ### Marks -/

/-- A header, marked if so wanted. -/
def Header.markIf (x : Header) (on : Bool) : Header := if on then x.setMarked true else x

@[simp] theorem Header.size_markIf (x : Header) (on : Bool) : (x.markIf on).size = x.size := by
  cases on <;> rfl

@[simp] theorem Header.space_markIf (x : Header) (on : Bool) : (x.markIf on).space = x.space := by
  cases on with
  | false => rfl
  | true => exact space_setMarked x true

@[simp] theorem Header.identity_markIf (x : Header) (on : Bool) :
    (x.markIf on).identity = x.identity := by
  cases on with
  | false => rfl
  | true => exact identity_setMarked x true

theorem Header.isMarked_markIf {x : Header} (hx : x.isMarked = false) (on : Bool) :
    (x.markIf on).isMarked = on := by
  cases on with
  | false => exact hx
  | true => exact isMarked_setMarked x true

namespace Heap

/-- No object is marked or forwarded. -/
structure Clean (h : Heap) : Prop where
  isMarked : ∀ a ∈ h.objects, (h.header a).isMarked = false
  isForwarded : ∀ a ∈ h.objects, (h.header a).isForwarded = false
  forwarding : ∀ a ∈ h.objects, (h.header a).forwarding = 0

/-- The heap `h'` is `h` with its own marks. -/
def OnlyMarks (h h' : Heap) : Prop :=
  Relabels (fun a x => x.markIf (h'.header a).isMarked) h h'

/-- A heap between any two operations, as far as tracing reads it. -/
structure Traceable (h : Heap) (types : TypeSystem) : Prop where
  wellFormed : h.WellFormed
  tagged : h.Tagged
  typed : h.Typed types
  noDangling : h.NoDangling types

namespace OnlyMarks

variable {h h' : Heap} {types : TypeSystem} {a : Address}

theorem of_isMarked (hw : h.WellFormed)
    (hfree : ∀ a ∈ h.objects, (h.header a).isMarked = false) : h.OnlyMarks h :=
  (Relabels.refl hw).congr fun a ha => by rw [hfree a ha]; rfl

theorem refl (hw : h.WellFormed) (hc : h.Clean) : h.OnlyMarks h := of_isMarked hw hc.isMarked

theorem identity (hm : h.OnlyMarks h') (ha : a ∈ h.objects) :
    (h'.header a).identity = (h.header a).identity := by
  rw [hm.header a ha, Header.identity_markIf]

theorem slots (hm : h.OnlyMarks h') (ha : a ∈ h.objects) : h'.slots types a = h.slots types a :=
  slots_congr (hm.identity ha)

theorem word (hm : h.OnlyMarks h') (ha : a ∈ h.objects) {o : Nat} (ho : o ∈ h.slots types a) :
    h'.word a o = h.word a o := hm.toSamePayloads.word ha (slot_fits ho)

theorem tagged (hm : h.OnlyMarks h') (hw : h.WellFormed) (ht : h.Tagged) : h'.Tagged := by
  intro s a ha
  rw [hm.layout.objectsIn hw] at ha
  have hobj : a ∈ h.objects := List.mem_flatMap.2 ⟨s, s.mem_all, ha⟩
  rw [hm.header a hobj, Header.space_markIf, ht s a ha]

theorem isObject_iff (hm : h.OnlyMarks h') (hw : h.WellFormed) (ht : h.Tagged) :
    h'.isObject a = true ↔ a ∈ h.objects := by
  rw [Heap.isObject_iff (hm.layout.wellFormed hw) (hm.tagged hw ht), hm.layout.objects hw]

theorem slotsOf (hm : h.OnlyMarks h') (ht : h.Typed types) (ha : a ∈ h.objects) :
    h'.slotsOf types a = .ok (h.slots types a) := by
  have htype : (h'.header a).typeId = (h.header a).typeId :=
    congrArg Header.Identity.typeId (hm.identity ha)
  rw [slotsOf_eq_ok (htype ▸ ht a ha), hm.slots ha]

/-- One more mark. -/
theorem setMarked (hm : h.OnlyMarks h') (hw : h.WellFormed) (ha : a ∈ h.objects)
    (hfree : (h'.header a).isMarked = false) :
    h.OnlyMarks (h'.setHeader a ((h'.header a).setMarked true)) ∧
      ∀ b ∈ h.objects, ((h'.setHeader a ((h'.header a).setMarked true)).header b).isMarked =
        (decide (b = a) || (h'.header b).isMarked) := by
  have ha' : a ∈ h'.objects := hm.layout.objects hw ▸ ha
  have hset := relabels_setHeader (hm.layout.wellFormed hw) ha'
    (Header.size_setMarked (h'.header a) true)
  have hmark : ∀ b ∈ h.objects,
      ((h'.setHeader a ((h'.header a).setMarked true)).header b).isMarked =
        (decide (b = a) || (h'.header b).isMarked) := by
    intro b hb
    rw [hset.header b (hm.layout.objects hw ▸ hb)]
    by_cases hba : b = a
    · rw [if_pos hba, decide_eq_true hba, Header.isMarked_setMarked, Bool.true_or]
    · rw [if_neg hba, decide_eq_false hba, Bool.false_or]
  refine ⟨(hm.trans hset hw).congr ?_, hmark⟩
  intro b hb
  rw [hmark b hb]
  by_cases hba : b = a
  · subst hba
    rw [if_pos rfl, decide_eq_true rfl, Bool.true_or, hm.header b hb, hfree]
    rfl
  · rw [if_neg hba, decide_eq_false hba, Bool.false_or]

end OnlyMarks

end Heap

/-! ### Traces -/

namespace Trace

variable (h : Heap) (types : TypeSystem) (target : Target) (P : Address → Prop)

/-- Whether an object carries a mark. -/
def Marked (t : Trace) (a : Address) : Prop := (t.heap.header a).isMarked = true

/-- What holds of a trace between any two steps. Whatever is marked has the property
`P`. -/
structure Valid (t : Trace) : Prop where
  marks : h.OnlyMarks t.heap
  worklist : ∀ a ∈ t.worklist, a ∈ h.objects ∧ t.Marked a
  sound : ∀ a ∈ h.objects, t.Marked a → target.condemnsAddress a = true ∧ P a

/-- The scans that may still come: one for each object that is queued or unmarked. -/
def work (t : Trace) : Nat :=
  t.worklist.length + h.objects.countP fun a => !(t.heap.header a).isMarked

/-- What steps do to a trace: an object that gets its mark is queued. -/
structure Extends (t t' : Trace) : Prop where
  marked : ∀ a ∈ h.objects, t.Marked a → t'.Marked a
  fresh : ∀ a ∈ h.objects, t'.Marked a → t.Marked a ∨ a ∈ t'.worklist
  worklist : ∀ a ∈ t.worklist, a ∈ t'.worklist
  work : t'.work h = t.work h

/-- All references of an object into the collected spaces lead to marked objects. -/
def Scanned (a : Address) (t : Trace) : Prop :=
  ∀ b, h.PointsTo types a b → target.condemnsAddress b = true → t.Marked b

/-- Whatever is marked is still queued or has been scanned. -/
def Closed (t : Trace) : Prop :=
  ∀ a ∈ h.objects, t.Marked a → a ∈ t.worklist ∨ Scanned h types target a t

variable {h types target P} {t t' t'' : Trace}

namespace Extends

theorem refl (t : Trace) : t.Extends h t where
  marked _ _ ha := ha
  fresh _ _ ha := Or.inl ha
  worklist _ ha := ha
  work := rfl

theorem trans (he : t.Extends h t') (he' : t'.Extends h t'') : t.Extends h t'' where
  marked a ha hm := he'.marked a ha (he.marked a ha hm)
  fresh a ha hm := by
    rcases he'.fresh a ha hm with hm' | hq
    · rcases he.fresh a ha hm' with hm'' | hq
      · exact Or.inl hm''
      · exact Or.inr (he'.worklist a hq)
    · exact Or.inr hq
  worklist a ha := he'.worklist a (he.worklist a ha)
  work := he'.work.trans he.work

theorem scanned (he : t.Extends h t') (hd : h.NoDangling types) {a : Address}
    (ha : a ∈ h.objects) (hs : Scanned h types target a t) : Scanned h types target a t' :=
  fun b hb hc => he.marked b (hd a ha b hb) (hs b hb hc)

theorem closed (he : t.Extends h t') (hd : h.NoDangling types) (hc : t.Closed h types target) :
    t'.Closed h types target := by
  intro a ha hm
  rcases he.fresh a ha hm with hm' | hq
  · rcases hc a ha hm' with hq | hs
    · exact Or.inl (he.worklist a hq)
    · exact Or.inr (he.scanned hd ha hs)
  · exact Or.inl hq

end Extends

theorem not_marked_of_clean (hclean : h.Clean) {a : Address} (ha : a ∈ h.objects) :
    ¬({ heap := h } : Trace).Marked a := by
  rw [Marked, hclean.isMarked a ha]
  exact Bool.false_ne_true

/-- A trace begins with no marks at all. -/
theorem Valid.start (hw : h.WellFormed) (hclean : h.Clean) :
    ({ heap := h } : Trace).Valid h target P where
  marks := .refl hw hclean
  worklist _ ha := absurd ha List.not_mem_nil
  sound _ ha hm := absurd hm (not_marked_of_clean hclean ha)

/-- The counts of a trace are not looked at. -/
theorem Valid.withStats (hv : t.Valid h target P) (stats : TraceStats) :
    ({ t with stats } : Trace).Valid h target P := ⟨hv.marks, hv.worklist, hv.sound⟩

/-! ### Marking and scanning -/

theorem mark_of_condemned {a : Address} (hc : target.condemnsAddress a = true)
    (hm : (t.heap.header a).isMarked = false) :
    t.mark target a =
      { heap := t.heap.setHeader a ((t.heap.header a).setMarked true)
        worklist := a :: t.worklist
        resurrecting := t.resurrecting
        stats :=
          if t.resurrecting then t.stats.addResurrected (t.heap.header a).blockSize
          else t.stats.addMarked (t.heap.header a).blockSize } := by
  obtain ⟨heap, worklist, resurrecting, stats⟩ := t
  simp only [mark, hc, hm, if_true, Bool.false_eq_true, if_false]

/-- A mark that is there already, or that is not asked for, changes nothing. -/
theorem mark_of_not {a : Address}
    (h : ¬(target.condemnsAddress a = true ∧ (t.heap.header a).isMarked = false)) :
    t.mark target a = t := by
  rw [mark]
  split
  · rename_i hc
    dsimp only
    rw [if_pos (by simpa using fun hm => h ⟨hc, hm⟩)]
  · rfl

theorem countP_of_one_less {l : List Address} (hn : l.Nodup) {a : Address} (ha : a ∈ l)
    {p q : Address → Bool} (hp : p a = true) (hq : q a = false)
    (hrest : ∀ b ∈ l, b ≠ a → q b = p b) : l.countP p = l.countP q + 1 := by
  induction l with
  | nil => exact absurd ha List.not_mem_nil
  | cons c rest ih =>
    obtain ⟨hnot, hn⟩ := List.nodup_cons.1 hn
    rcases List.mem_cons.1 ha with rfl | ha'
    · have hsame : rest.countP q = rest.countP p :=
        List.countP_congr fun b hb => by
          rw [hrest b (List.mem_cons_of_mem _ hb) fun hba => hnot (hba ▸ hb)]
      rw [List.countP_cons_of_pos hp, List.countP_cons_of_neg (by simp [hq]), hsame]
    · have hca : c ≠ a := fun hca => hnot (hca ▸ ha')
      have htail := ih hn ha' fun b hb => hrest b (List.mem_cons_of_mem _ hb)
      rw [List.countP_cons, List.countP_cons, htail, hrest c List.mem_cons_self hca]
      omega

/-- An object of a collected space is marked afterwards; others are let alone. -/
theorem mark_spec (hw : h.WellFormed) (hv : t.Valid h target P) {a : Address} (ha : a ∈ h.objects)
    (hPa : target.condemnsAddress a = true → P a) :
    (t.mark target a).Valid h target P ∧ t.Extends h (t.mark target a) ∧
      (target.condemnsAddress a = true → (t.mark target a).Marked a) := by
  rw [mark]
  by_cases hc : target.condemnsAddress a = true
  · rw [if_pos hc]
    by_cases hm : (t.heap.header a).isMarked = true
    · simp only [hm, if_true]
      exact ⟨hv, .refl t, fun _ => hm⟩
    · have hm' : (t.heap.header a).isMarked = false := by simpa using hm
      obtain ⟨hmarks, hset⟩ := hv.marks.setMarked hw ha hm'
      simp only [hm', Bool.false_eq_true, if_false]
      -- what was marked before is marked still
      have hold : ∀ b ∈ h.objects, t.Marked b →
          ((t.heap.setHeader a ((t.heap.header a).setMarked true)).header b).isMarked = true := by
        intro b hb hmb
        rw [hset b hb, show (t.heap.header b).isMarked = true from hmb, Bool.or_true]
      have hself : ((t.heap.setHeader a ((t.heap.header a).setMarked true)).header a).isMarked
          = true := by
        rw [hset a ha, decide_eq_true rfl, Bool.true_or]
      refine ⟨⟨hmarks, ?_, ?_⟩, ⟨hold, ?_, ?_, ?_⟩, fun _ => hself⟩
      · intro b hb
        rcases List.mem_cons.1 hb with rfl | hb
        · exact ⟨ha, hself⟩
        · exact ⟨(hv.worklist b hb).1, hold b (hv.worklist b hb).1 (hv.worklist b hb).2⟩
      · intro b hb hmb
        by_cases hba : b = a
        · exact hba ▸ ⟨hc, hPa hc⟩
        · rw [Marked, hset b hb, decide_eq_false hba, Bool.false_or] at hmb
          exact hv.sound b hb hmb
      · intro b hb hmb
        by_cases hba : b = a
        · exact Or.inr (hba ▸ List.mem_cons_self)
        · rw [Marked, hset b hb, decide_eq_false hba, Bool.false_or] at hmb
          exact Or.inl hmb
      · exact fun b hb => List.mem_cons_of_mem _ hb
      · -- one object less is unmarked and one more waits, so the work has not grown
        have hcount := countP_of_one_less hw.objects_nodup ha
          (p := fun b => !(t.heap.header b).isMarked)
          (q := fun b =>
            !((t.heap.setHeader a ((t.heap.header a).setMarked true)).header b).isMarked)
          (by simp [hm']) (by simp [hself])
          (fun b hb hba => by rw [hset b hb, decide_eq_false hba, Bool.false_or])
        simp only [work, hcount, List.length_cons]
        omega
  · rw [if_neg hc]
    exact ⟨hv, .refl t, fun hc' => absurd hc' hc⟩

section Steps

variable (hh : h.Traceable types) (hP : ∀ a b, P a → h.PointsTo types a b → P b)
include hh hP

theorem followSlot_spec (hv : t.Valid h target P) {a : Address} (ha : a ∈ h.objects) (hPa : P a)
    {o : Nat} (ho : o ∈ h.slots types a) :
    ∃ t', followSlot target a o t = .ok () t' ∧ t'.Valid h target P ∧ t.Extends h t' ∧
      (h.word a o ≠ 0 → target.condemnsAddress (h.word a o) = true → t'.Marked (h.word a o)) := by
  have hword : t.heap.word a o = h.word a o := hv.marks.word ha ho
  rw [followSlot]
  simp only [hword]
  by_cases hz : h.word a o = 0
  · rw [if_pos hz]
    exact ⟨t, rfl, hv, .refl t, fun hnz => absurd hz hnz⟩
  · have hedge : h.PointsTo types a (h.word a o) := ⟨hz, o, ho, rfl⟩
    have hobj := hh.noDangling a ha _ hedge
    have hcheck := (hv.marks.isObject_iff hh.wellFormed hh.tagged).2 hobj
    rw [if_neg hz, if_pos hcheck]
    -- only the count of references has changed before the mark is set
    obtain ⟨hv', he, hm⟩ := mark_spec hh.wellFormed (hv.withStats
      { t.stats with tracedReferences := t.stats.tracedReferences + 1 }) hobj
      fun _ => hP a _ hPa hedge
    exact ⟨_, rfl, hv', ⟨he.marked, he.fresh, he.worklist, he.work⟩, fun _ => hm⟩

/-- Scanning an object marks all that it refers to in the collected spaces. -/
theorem scan_spec (hv : t.Valid h target P) {a : Address} (ha : a ∈ h.objects) (hPa : P a) :
    ∃ t', scan types target a t = .ok () t' ∧ t'.Valid h target P ∧ t.Extends h t' ∧
      Scanned h types target a t' := by
  have hslots := hv.marks.slotsOf hh.typed ha
  obtain ⟨t', hrun, hv', he, hall⟩ := Action.forM_spec
    (f := followSlot target a) (I := (Valid h target P ·)) (R := (Extends h · ·))
    (Q := fun o t' =>
      h.word a o ≠ 0 → target.condemnsAddress (h.word a o) = true → t'.Marked (h.word a o))
    (l := h.slots types a) (fun s => .refl s) (fun _ _ _ he he' => he.trans he')
    (fun o ho s s' hm he hz hc => he.marked _ (hh.noDangling a ha _ ⟨hz, o, ho, rfl⟩) (hm hz hc))
    (fun o ho s hs => followSlot_spec hh hP hs ha hPa ho) hv
  refine ⟨t', ?_, hv', he, ?_⟩
  · rw [scan, hslots]
    exact hrun
  · rintro b ⟨hz, o, ho, rfl⟩ hc
    exact hall o ho hz hc

/-! ### The closure -/

omit hh hP in
/-- An object is taken from the worklist. -/
theorem valid_of_worklist {a : Address} {rest : List Address} (hv : t.Valid h target P)
    (hq : t.worklist = a :: rest) :
    a ∈ h.objects ∧ P a ∧ ({ t with worklist := rest } : Trace).Valid h target P ∧
      t.work h = ({ t with worklist := rest } : Trace).work h + 1 := by
  obtain ⟨ha, hm⟩ := hv.worklist a (hq ▸ List.mem_cons_self)
  refine ⟨ha, (hv.sound a ha hm).2, ⟨hv.marks, ?_, hv.sound⟩, ?_⟩
  · intro b hb
    exact hv.worklist b (hq ▸ List.mem_cons_of_mem _ hb)
  · simp only [work, hq, List.length_cons]
    omega

theorem drainWithin_spec {n : Nat} (hv : t.Valid h target P) (hc : t.Closed h types target)
    (hn : t.work h ≤ n) :
    ∃ t', drainWithin types target n t = .ok () t' ∧ t'.Valid h target P ∧
      t'.Closed h types target ∧ t'.worklist = [] ∧ ∀ a ∈ h.objects, t.Marked a → t'.Marked a := by
  induction n generalizing t with
  | zero =>
    have hempty : t.worklist = [] := List.eq_nil_of_length_eq_zero (by unfold work at hn; omega)
    exact ⟨t, rfl, hv, hc, hempty, fun _ _ hm => hm⟩
  | succ n ih =>
    cases hq : t.worklist with
    | nil =>
      exact ⟨t, drainWithin_of_nil hq, hv, hc, hq, fun _ _ hm => hm⟩
    | cons a rest =>
      obtain ⟨ha, hPa, hv₀, hless⟩ := valid_of_worklist hv hq
      obtain ⟨t₁, hscan, hv₁, he, hscanned⟩ := scan_spec hh hP hv₀ ha hPa
      -- the object just scanned is the only one to leave the worklist
      have hc₁ : t₁.Closed h types target := by
        intro b hb hm
        rcases he.fresh b hb hm with hm₀ | hin
        · rcases hc b hb hm₀ with hin | hs
          · rcases List.mem_cons.1 (hq ▸ hin) with rfl | hin
            · exact Or.inr hscanned
            · exact Or.inl (he.worklist b hin)
          · exact Or.inr (he.scanned hh.noDangling hb hs)
        · exact Or.inl hin
      have hwork := he.work
      obtain ⟨t₂, hrest, hv₂, hc₂, hdone, hmono⟩ := ih hv₁ hc₁ (by omega)
      refine ⟨t₂, ?_, hv₂, hc₂, hdone, fun b hb hm => hmono b hb (he.marked b hb hm)⟩
      rw [drainWithin_of_cons hq, Action.bind_of_ok hscan]
      exact hrest

omit hh hP in
/-- The recorded object starts bound the scans that may still come. -/
theorem work_le (hw : h.WellFormed) (hv : t.Valid h target P) :
    t.work h ≤ t.worklist.length + startCount t.heap := by
  have hlayout := hv.marks.layout
  have hlength := Heap.length_objects_le (hlayout.wellFormed hw)
  rw [hlayout.objects hw] at hlength
  have hcount : h.objects.countP (fun a => !(t.heap.header a).isMarked) ≤ h.objects.length :=
    List.countP_le_length
  unfold work
  omega

/-- The recorded object starts are enough steps for the worklist to run empty. -/
theorem drain_spec (hv : t.Valid h target P) (hc : t.Closed h types target) :
    ∃ t', drain types target t = .ok () t' ∧ t'.Valid h target P ∧
      t'.Closed h types target ∧ t'.worklist = [] ∧ ∀ a ∈ h.objects, t.Marked a → t'.Marked a :=
  drainWithin_spec hh hP hv hc (work_le hh.wellFormed hv)

/-! ### Where tracing starts -/

omit hP in
/-- Marking roots fails at the first one that is no object. Until then only marks are set. -/
theorem markRoots_spec {roots : List Address} (hP : ∀ a ∈ roots, P a) (hv : t.Valid h target P)
    (hc : t.Closed h types target) :
    (∃ e t', roots.forM (markRoot target) t = .error e t' ∧ t'.Valid h target P ∧
      ∃ a ∈ roots, a ∉ h.objects) ∨
    (∃ t', roots.forM (markRoot target) t = .ok () t' ∧ t'.Valid h target P ∧
      t'.Closed h types target ∧ t.Extends h t' ∧
      ∀ a ∈ roots, a ∈ h.objects ∧ (target.condemnsAddress a = true → t'.Marked a)) := by
  induction roots generalizing t with
  | nil => exact Or.inr ⟨t, rfl, hv, hc, .refl t, fun a ha => absurd ha List.not_mem_nil⟩
  | cons a rest ih =>
    have hcheck := hv.marks.isObject_iff hh.wellFormed hh.tagged (a := a)
    -- the first root that is no object ends the marking
    by_cases ha : a ∈ h.objects
    · have hroot : markRoot target a t = .ok () (t.mark target a) := by
        rw [markRoot, if_pos (hcheck.2 ha)]
      obtain ⟨hv₁, he, hm⟩ := mark_spec hh.wellFormed hv ha fun _ => hP a List.mem_cons_self
      have hrun : (a :: rest).forM (markRoot target) t =
          rest.forM (markRoot target) (t.mark target a) := by
        show (markRoot target a >>= fun _ => rest.forM (markRoot target)) t = _
        rw [Action.bind_of_ok hroot]
      rw [hrun]
      rcases ih (fun b hb => hP b (List.mem_cons_of_mem _ hb)) hv₁ (he.closed hh.noDangling hc)
        with ⟨e, t', herr, hv', b, hb, hbad⟩ | ⟨t', hok, hv', hc', he', hall⟩
      · exact Or.inl ⟨e, t', herr, hv', b, List.mem_cons_of_mem _ hb, hbad⟩
      · refine Or.inr ⟨t', hok, hv', hc', he.trans he', ?_⟩
        intro b hb
        rcases List.mem_cons.1 hb with rfl | hb
        · exact ⟨ha, fun hcond => he'.marked b ha (hm hcond)⟩
        · exact hall b hb
    · have hroot : markRoot target a t = .error (.corruptHeap a .rootNotObject) t := by
        rw [markRoot, if_neg fun hobj => ha (hcheck.1 hobj)]
      refine Or.inl ⟨.corruptHeap a .rootNotObject, t, ?_, hv, a, List.mem_cons_self, ha⟩
      show (markRoot target a >>= fun _ => rest.forM (markRoot target)) t = _
      rw [Action.bind_of_error hroot]

theorem scanHolders_spec {holders : List Address} (hobj : ∀ a ∈ holders, a ∈ h.objects)
    (hPh : ∀ a ∈ holders, P a) (hv : t.Valid h target P) :
    ∃ t', holders.forM (scanHolder types target) t = .ok () t' ∧ t'.Valid h target P ∧
      t.Extends h t' ∧ ∀ a ∈ holders, Scanned h types target a t' := by
  refine Action.forM_spec (I := (Valid h target P ·)) (R := (Extends h · ·))
    (Q := fun a t => Scanned h types target a t) (fun s => .refl s)
    (fun _ _ _ he he' => he.trans he')
    (fun a ha _ _ hs he => he.scanned hh.noDangling (hobj a ha) hs) ?_ hv
  intro a ha s hs
  rw [scanHolder, if_pos ((hs.marks.isObject_iff hh.wellFormed hh.tagged).2 (hobj a ha))]
  exact scan_spec hh hP hs (hobj a ha) (hPh a ha)

end Steps

end Trace

end GenerationalHeap
