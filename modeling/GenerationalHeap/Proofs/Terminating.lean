/-
Tracing ends, whatever it meets.

The worklist grows while it is emptied, and reference slots may hold anything: cycles, the
address of their own holder, addresses of no object. But an object enters the worklist only as
it gets its mark, and a trace takes no mark back. So the objects that are queued and those that
have not been entered yet bound the scans that may still come, over all calls on a trace,
whether they fail or not.

* `Trace.Drains` — the loop over the worklist, with no bound on its rounds; `Trace.Drains.unique`.
* `Trace.Call`, `Trace.Follows` — calls on a trace, one after the other.
* `Trace.Entered` — what a trace has come to, told by the objects that were entered into its
  worklist; `Trace.Entered.markInvariant` — what marks put onto the worklist is what they enter.
* `Trace.drains_drainWithin` — enough rounds are as good as any number of them.
* `Trace.calls_end` — all calls end, and no object is entered twice.
-/
import GenerationalHeap.Proofs.Counting
import GenerationalHeap.Proofs.MarkOrder
import GenerationalHeap.Proofs.Runs

namespace GenerationalHeap

/-- An error says that the heap is inconsistent. -/
def Error.Corrupt (e : Error) : Prop := ∃ a defect, e = .corruptHeap a defect

/-! ### Objects and marks -/

namespace Heap

variable {h : Heap} {a : Address} {l : List Address}

/-- Of several marks any may be the last. -/
theorem markEach_cons (hw : h.WellFormed) (hin : ∀ b ∈ a :: l, b ∈ h.objects) :
    h.markEach (a :: l) = (h.markEach l).markAt a := by
  rw [markEach_perm hw hin (List.perm_append_singleton a l).symm, markEach, markEach,
    List.foldl_append]
  rfl

/-- A heap whose objects are laid out well and carry no marks. Tags and reference slots may
be anything. -/
structure Unmarked (h : Heap) : Prop where
  wellFormed : h.WellFormed
  isMarked : ∀ a ∈ h.objects, (h.header a).isMarked = false

namespace Unmarked

theorem onlyMarks (hu : h.Unmarked) : h.OnlyMarks h := .of_isMarked hu.wellFormed hu.isMarked

theorem empty {nurserySize : Nat} (hsize : nurserySize ≤ spaceLimit) (maxSize : Nat) :
    (Heap.empty nurserySize maxSize).Unmarked where
  wellFormed := wellFormed_empty hsize maxSize
  isMarked _ ha := absurd (objects_empty nurserySize maxSize ▸ ha) List.not_mem_nil

theorem allocateSmall? (hu : h.Unmarked) (new : Header) (hmod : new.payloadSize % alignment = 0)
    (hspace : new.space = .arena .gen0) (hnew : new.isMarked = false) :
    (h.allocateSmall? new).2.Unmarked := by
  rcases allocateSmall?_spec hu.wellFormed hmod hspace with hnone | ⟨a, h', hsome, hadds, -⟩
  · rw [hnone]
    exact hu
  · rw [hsome]
    refine ⟨hadds.wellFormed, fun b hb => ?_⟩
    rcases (hadds.mem b).1 hb with hold | rfl
    · rw [hadds.header hu.wellFormed hold, hu.isMarked b hold]
    · rw [hadds.header_new, hnew]

theorem setWord (hu : h.Unmarked) (ha : a ∈ h.objects) {o : Nat}
    (ho : o + 8 ≤ (h.header a).payloadSize) (w : UInt64) : (h.setWord a o w).Unmarked := by
  have hs := stores_setWord hu.wellFormed ha ho w
  refine ⟨hs.layout.wellFormed hu.wellFormed, fun b hb => ?_⟩
  rw [hs.layout.objects hu.wellFormed] at hb
  rw [hs.header b hb, hu.isMarked b hb]

end Unmarked

end Heap

namespace Trace

/-! ### Calls -/

section Calls

variable (types : TypeSystem) (target : Target)

/-- The loop over the worklist, with no bound on its rounds. Listed is what enters the worklist
meanwhile, the last object first. -/
inductive Drains : Trace → List Address → Except Error Unit → Trace → Prop
  | done {t : Trace} : t.worklist = [] → Drains t [] (.ok ()) t
  | failed {t t' : Trace} {a : Address} {rest entered : List Address} {e : Error} :
      t.worklist = a :: rest → scan types target a { t with worklist := rest } = .error e t' →
      t'.worklist = entered ++ rest → Drains t entered (.error e) t'
  | scanned {t t₁ t' : Trace} {a : Address} {rest entered later : List Address}
      {answer : Except Error Unit} :
      t.worklist = a :: rest → scan types target a { t with worklist := rest } = .ok () t₁ →
      t₁.worklist = entered ++ rest → Drains t₁ later answer t' →
      Drains t (later ++ entered) answer t'

/-- A call on a trace. -/
inductive Call where
  | markRoot (root : Address)
  | scanHolder (holder : Address)
  | drain
  | resurrect (objects : List Address)

/-- What a call does. -/
def Call.act : Call → Action Trace Unit
  | .markRoot root => Trace.markRoot target root
  | .scanHolder holder => Trace.scanHolder types target holder
  | .drain => Trace.drain types target
  | .resurrect objects => Trace.resurrect types target objects

/-- Marks objects on behalf of their finalizers. -/
def markResurrected (objects : List Address) (t : Trace) : Trace :=
  objects.foldl (fun t a => t.mark target a) { t with resurrecting := true }

/-- How a call goes, with the loop in place of the rounds that `drain` allows itself: what it
enters into the worklist, what it answers and the trace that it leaves. -/
inductive Call.Goes : Call → Trace → List Address → Except Error Unit → Trace → Prop
  | markRoot {root : Address} {t : Trace} {entered : List Address} :
      ((Trace.markRoot target root).final t).worklist = entered ++ t.worklist →
      Goes (.markRoot root) t entered ((Trace.markRoot target root).outcome t)
        ((Trace.markRoot target root).final t)
  | scanHolder {holder : Address} {t : Trace} {entered : List Address} :
      ((Trace.scanHolder types target holder).final t).worklist = entered ++ t.worklist →
      Goes (.scanHolder holder) t entered ((Trace.scanHolder types target holder).outcome t)
        ((Trace.scanHolder types target holder).final t)
  | drain {t t' : Trace} {entered : List Address} {answer : Except Error Unit} :
      Drains types target t entered answer t' → Goes .drain t entered answer t'
  | resurrect {objects : List Address} {t t' : Trace} {entered later : List Address}
      {answer : Except Error Unit} :
      (markResurrected target objects t).worklist = entered ++ t.worklist →
      Drains types target (markResurrected target objects t) later answer t' →
      Goes (.resurrect objects) t (later ++ entered) answer { t' with resurrecting := false }

/-- How calls go, one after the other. The next one comes also after a failure. -/
inductive Follows : List Call → Trace → List Address → List (Except Error Unit) → Trace → Prop
  | nil {t : Trace} : Follows [] t [] [] t
  | cons {c : Call} {calls : List Call} {t t₁ t' : Trace} {entered later : List Address}
      {answer : Except Error Unit} {answers : List (Except Error Unit)} :
      c.Goes types target t entered answer t₁ → Follows calls t₁ later answers t' →
      Follows (c :: calls) t (later ++ entered) (answer :: answers) t'

/-- The trace that calls leave. -/
def after (calls : List Call) (t : Trace) : Trace :=
  calls.foldl (fun t c => (c.act types target).final t) t

/-- What calls answer. -/
def answers : List Call → Trace → List (Except Error Unit)
  | [], _ => []
  | c :: calls, t =>
    (c.act types target).outcome t :: answers calls ((c.act types target).final t)

end Calls

/-! ### What has been entered -/

/-- What a trace over the objects of `h` has come to, told by the objects that were entered
into its worklist. -/
structure Entered (h : Heap) (target : Target) (entered : List Address) (t : Trace) : Prop where
  nodup : entered.Nodup
  condemned : ∀ a ∈ entered, a ∈ h.objects ∧ target.condemnsAddress a = true
  heap_eq : t.heap = h.markEach entered
  objects_eq : t.stats.markedObjects + t.stats.resurrectedObjects = entered.length
  bytes_eq : t.stats.markedBytes + t.stats.resurrectedBytes =
    (entered.map fun a => (h.header a).blockSize).sum

/-- What a trace over the objects of `h` has come to, told by the marks. -/
structure Ended (h : Heap) (target : Target) (entered : List Address) (t : Trace) : Prop
    extends t.Entered h target entered where
  marks : h.OnlyMarks t.heap
  marked : ∀ a ∈ h.objects, t.Marked a ↔ a ∈ entered
  count_eq : t.stats.markedObjects + t.stats.resurrectedObjects = h.markedCount t.heap
  size_eq : t.stats.markedBytes + t.stats.resurrectedBytes =
    ((h.objects.filter fun a => (t.heap.header a).isMarked).map fun a =>
      (t.heap.header a).blockSize).sum

variable {h : Heap} {types : TypeSystem} {target : Target} {t t' : Trace} {a : Address}
  {entered queue : List Address}

/-- A mark counts once, with the size of the block, and on one side or the other. -/
theorem stats_mark (hc : target.condemnsAddress a = true)
    (hm : (t.heap.header a).isMarked = false) :
    (t.mark target a).stats.markedObjects + (t.mark target a).stats.resurrectedObjects =
        t.stats.markedObjects + t.stats.resurrectedObjects + 1 ∧
      (t.mark target a).stats.markedBytes + (t.mark target a).stats.resurrectedBytes =
        t.stats.markedBytes + t.stats.resurrectedBytes + (t.heap.header a).blockSize := by
  rw [mark_of_condemned hc hm]
  cases t.resurrecting with
  | false => exact ⟨Nat.add_right_comm _ _ _, Nat.add_right_comm _ _ _⟩
  | true => exact ⟨rfl, (Nat.add_assoc _ _ _).symm⟩

namespace Entered

theorem start (h : Heap) (target : Target) : ({ heap := h } : Trace).Entered h target [] where
  nodup := List.nodup_nil
  condemned _ ha := absurd ha List.not_mem_nil
  heap_eq := rfl
  objects_eq := rfl
  bytes_eq := rfl

/-- Neither the worklist nor the kind of the pass is looked at. -/
theorem congr (he : t.Entered h target entered) (hheap : t'.heap = t.heap)
    (hstats : t'.stats = t.stats) : t'.Entered h target entered where
  nodup := he.nodup
  condemned := he.condemned
  heap_eq := hheap.trans he.heap_eq
  objects_eq := hstats ▸ he.objects_eq
  bytes_eq := hstats ▸ he.bytes_eq

theorem length_le (he : t.Entered h target entered) : entered.length ≤ h.objects.length :=
  (he.nodup.subperm fun a ha => (he.condemned a ha).1).length_le

section Unmarked

variable (hu : h.Unmarked)
include hu

theorem onlyMarks (he : t.Entered h target entered) :
    h.OnlyMarks t.heap ∧ ∀ a ∈ h.objects, (t.heap.header a).isMarked = decide (a ∈ entered) := by
  have hin : ∀ a ∈ entered, a ∈ h.objects := fun a ha => (he.condemned a ha).1
  obtain ⟨hm, hmarked⟩ := Heap.markEach_spec hu.wellFormed hu.onlyMarks he.nodup hin
    fun a ha => hu.isMarked a (hin a ha)
  rw [he.heap_eq]
  refine ⟨hm, fun a ha => ?_⟩
  rw [hmarked a ha, hu.isMarked a ha, Bool.or_false]

theorem isObject (he : t.Entered h target entered) (ho : t.heap.isObject a = true) :
    a ∈ h.objects := by
  have hlayout := (he.onlyMarks hu).1.layout
  rw [← hlayout.objects hu.wellFormed]
  exact Heap.mem_objects_of_isObject (hlayout.wellFormed hu.wellFormed) ho

/-- An object is entered as it gets its mark, if it is not marked yet. -/
theorem mark (he : t.Entered h target entered) (ha : a ∈ h.objects) :
    ∃ new, (t.mark target a).worklist = new ++ t.worklist ∧
      (t.mark target a).Entered h target (new ++ entered) := by
  obtain ⟨hmarks, hmarked⟩ := he.onlyMarks hu
  by_cases hnew : target.condemnsAddress a = true ∧ (t.heap.header a).isMarked = false
  · obtain ⟨hc, hm⟩ := hnew
    have hnot : a ∉ entered := by simpa [hmarked a ha] using hm
    have hcondemned : ∀ b ∈ a :: entered, b ∈ h.objects ∧ target.condemnsAddress b = true :=
      List.forall_mem_cons.2 ⟨⟨ha, hc⟩, he.condemned⟩
    obtain ⟨hcount, hbytes⟩ := stats_mark hc hm
    refine ⟨[a], by rw [mark_of_condemned hc hm]; rfl, List.nodup_cons.2 ⟨hnot, he.nodup⟩,
      hcondemned, ?_, ?_, ?_⟩
    · rw [mark_of_condemned hc hm, List.singleton_append,
        Heap.markEach_cons hu.wellFormed fun b hb => (hcondemned b hb).1, he.heap_eq]
      rfl
    · rw [hcount, he.objects_eq]
      rfl
    · rw [hbytes, he.bytes_eq, hmarks.layout.blockSize hu.wellFormed ha, List.singleton_append,
        List.map_cons, List.sum_cons, Nat.add_comm]
  · rw [mark_of_not hnew]
    exact ⟨[], rfl, he⟩

/-- What marks put onto the worklist is what they enter. -/
theorem markInvariant (target : Target) (queue entered : List Address) :
    MarkInvariant h target fun t =>
      ∃ new, t.worklist = new ++ queue ∧ t.Entered h target (new ++ entered) where
  isObject := by
    rintro t a ⟨_, -, he⟩ ho
    exact he.isObject hu ho
  mark := by
    rintro t a ⟨new, hq, he⟩ ha
    obtain ⟨more, hq', he'⟩ := he.mark hu ha
    refine ⟨more ++ new, ?_, ?_⟩
    · rw [hq', hq, List.append_assoc]
    · rwa [List.append_assoc]
  counted := by
    rintro t ⟨new, hq, he⟩
    exact ⟨new, hq, he.nodup, he.condemned, he.heap_eq, he.objects_eq, he.bytes_eq⟩

/-- The marked objects are those that were entered. -/
theorem ended (he : t.Entered h target entered) : t.Ended h target entered := by
  obtain ⟨hmarks, hmarked⟩ := he.onlyMarks hu
  have hperm : entered.Perm (h.objects.filter fun a => (t.heap.header a).isMarked) := by
    have hnodup := hu.wellFormed.objects_nodup.filter fun a => (t.heap.header a).isMarked
    refine (List.perm_ext_iff_of_nodup he.nodup hnodup).2 fun a => ?_
    rw [List.mem_filter]
    constructor
    · intro ha
      have hobj := (he.condemned a ha).1
      exact ⟨hobj, by rw [hmarked a hobj, decide_eq_true ha]⟩
    · rintro ⟨hobj, hm⟩
      rw [hmarked a hobj] at hm
      exact of_decide_eq_true hm
  refine ⟨he, hmarks, ?_, ?_, ?_⟩
  · intro a ha
    rw [Marked, hmarked a ha, decide_eq_true_eq]
  · rw [he.objects_eq, hperm.length_eq, Heap.markedCount, List.countP_eq_length_filter]
  · rw [he.bytes_eq, (hperm.map fun a => (h.header a).blockSize).sum_eq]
    refine congrArg List.sum (List.map_congr_left fun a ha => ?_)
    exact (hmarks.layout.blockSize hu.wellFormed (List.mem_filter.1 ha).1).symm

end Unmarked

end Entered

/-! ### The loop -/

theorem corrupt_of_followSlot {holder : Address} {o : Nat} {e : Error}
    (h : followSlot target holder o t = .error e t') : e.Corrupt := by
  unfold followSlot at h
  dsimp only at h
  split at h
  · exact absurd h (by simp)
  · split at h
    · exact absurd h (by simp)
    · obtain ⟨rfl, -⟩ := EStateM.Result.error.inj h
      exact ⟨_, _, rfl⟩

theorem corrupt_of_scan {e : Error} (h : scan types target a t = .error e t') : e.Corrupt := by
  rw [scan] at h
  cases hslots : t.heap.slotsOf types a with
  | ok slots =>
    rw [hslots] at h
    obtain ⟨o, -, t₁, herr⟩ := Action.of_forM_error h
    exact corrupt_of_followSlot herr
  | error e₁ =>
    rw [hslots] at h
    obtain ⟨rfl, -⟩ := EStateM.Result.error.inj h
    -- slots are listed unless the type of the object is unknown
    rw [Heap.slotsOf, Heap.typeOf] at hslots
    cases hinfo : types (t.heap.header a).typeId with
    | some info => simp [hinfo] at hslots
    | none =>
      simp only [hinfo, Except.error.injEq] at hslots
      exact ⟨_, _, hslots.symm⟩

/-- The loop has one outcome. -/
theorem Drains.unique {entered' : List Address} {answer answer' : Except Error Unit}
    {t₁ t₂ : Trace} (h : Drains types target t entered answer t₁)
    (h' : Drains types target t entered' answer' t₂) :
    entered = entered' ∧ answer = answer' ∧ t₁ = t₂ := by
  induction h generalizing entered' answer' t₂ with
  | done hq =>
    cases h' with
    | done _ => exact ⟨rfl, rfl, rfl⟩
    | failed hq' _ _ => exact absurd (hq.symm.trans hq') (by simp)
    | scanned hq' _ _ _ => exact absurd (hq.symm.trans hq') (by simp)
  | failed hq hs hnew =>
    cases h' with
    | done hq' => exact absurd (hq.symm.trans hq') (by simp)
    | failed hq' hs' hnew' =>
      obtain ⟨rfl, rfl⟩ := List.cons.inj (hq.symm.trans hq')
      obtain ⟨rfl, rfl⟩ := EStateM.Result.error.inj (hs.symm.trans hs')
      exact ⟨List.append_cancel_right (hnew.symm.trans hnew'), rfl, rfl⟩
    | scanned hq' hs' _ _ =>
      obtain ⟨rfl, rfl⟩ := List.cons.inj (hq.symm.trans hq')
      exact absurd (hs.symm.trans hs') (by simp)
  | scanned hq hs hnew _ ih =>
    cases h' with
    | done hq' => exact absurd (hq.symm.trans hq') (by simp)
    | failed hq' hs' _ =>
      obtain ⟨rfl, rfl⟩ := List.cons.inj (hq.symm.trans hq')
      exact absurd (hs.symm.trans hs') (by simp)
    | scanned hq' hs' hnew' hrest' =>
      obtain ⟨rfl, rfl⟩ := List.cons.inj (hq.symm.trans hq')
      obtain ⟨-, rfl⟩ := EStateM.Result.ok.inj (hs.symm.trans hs')
      obtain ⟨rfl, rfl, rfl⟩ := ih hrest'
      exact ⟨congrArg _ (List.append_cancel_right (hnew.symm.trans hnew')), rfl, rfl⟩

/-- The loop fails only at a scan that does. -/
theorem Drains.corrupt {e : Error} {answer : Except Error Unit}
    (h : Drains types target t entered answer t') (ha : answer = .error e) : e.Corrupt := by
  induction h with
  | done _ => exact absurd ha (by simp)
  | failed _ hscan _ => exact Except.error.inj ha ▸ corrupt_of_scan hscan
  | scanned _ _ _ _ ih => exact ih ha

section Unmarked

variable (hu : h.Unmarked)
include hu

/-- Enough rounds are as good as any number of them: one for each object that is queued and one
for each that has not been entered yet. -/
theorem drains_drainWithin (types : TypeSystem) {n : Nat} (he : t.Entered h target entered)
    (hn : t.worklist.length + h.objects.length ≤ n + entered.length) :
    ∃ later, Drains types target t later ((drainWithin types target n).outcome t)
        ((drainWithin types target n).final t) ∧
      ((drainWithin types target n).final t).Entered h target (later ++ entered) := by
  induction n generalizing t entered with
  | zero =>
    have hle := he.length_le
    exact ⟨[], .done (List.eq_nil_of_length_eq_zero (by omega)), he⟩
  | succ n ih =>
    cases hq : t.worklist with
    | nil =>
      rw [Action.outcome_of_ok (drainWithin_of_nil hq), Action.final_of_ok (drainWithin_of_nil hq)]
      exact ⟨[], .done hq, he⟩
    | cons a rest =>
      have hrun : drainWithin types target (n + 1) t =
          (scan types target a >>= fun _ => drainWithin types target n)
            { t with worklist := rest } := drainWithin_of_cons hq
      -- what the scan enters comes before what was queued
      have hscan : ∃ new, ((scan types target a).final { t with worklist := rest }).worklist =
          new ++ rest ∧ ((scan types target a).final { t with worklist := rest }).Entered h target
            (new ++ entered) :=
        (Entered.markInvariant hu target rest entered).keeps_scan a _
          ⟨[], rfl, he.congr rfl rfl⟩
      obtain ⟨new, hnew, he₁⟩ := hscan
      cases hs : scan types target a { t with worklist := rest } with
      | error e t₁ =>
        rw [Action.final_of_error hs] at hnew he₁
        rw [Action.bind_of_error hs] at hrun
        rw [Action.outcome_of_error hrun, Action.final_of_error hrun]
        exact ⟨new, .failed hq hs hnew, he₁⟩
      | ok _ t₁ =>
        rw [Action.final_of_ok hs] at hnew he₁
        rw [Action.bind_of_ok hs] at hrun
        obtain ⟨hfinal, houtcome⟩ := Action.final_outcome_congr hrun
        rw [hq, List.length_cons] at hn
        obtain ⟨later, hdrains, hlater⟩ := ih he₁ (by
          rw [hnew, List.length_append, List.length_append]
          omega)
        rw [hfinal, houtcome]
        exact ⟨later ++ new, .scanned hq hs hnew hdrains, (List.append_assoc _ _ _) ▸ hlater⟩

/-- The recorded object starts are enough rounds. -/
theorem drains_drain (types : TypeSystem) (he : t.Entered h target entered) :
    ∃ later, Drains types target t later ((drain types target).outcome t)
        ((drain types target).final t) ∧
      ((drain types target).final t).Entered h target (later ++ entered) := by
  have hlayout := (he.onlyMarks hu).1.layout
  have hlength := Heap.length_objects_le (hlayout.wellFormed hu.wellFormed)
  rw [hlayout.objects hu.wellFormed] at hlength
  exact drains_drainWithin hu types he (by omega)

/-! ### Calls -/

omit hu in
theorem outcome_resurrect (types : TypeSystem) (target : Target) (objects : List Address)
    (t : Trace) :
    (Trace.resurrect types target objects).outcome t =
        (drain types target).outcome (markResurrected target objects t) ∧
      (Trace.resurrect types target objects).final t =
        { (drain types target).final (markResurrected target objects t) with
          resurrecting := false } := by
  cases hd : drain types target (markResurrected target objects t) with
  | ok _ t' =>
    have hrun : Trace.resurrect types target objects t =
        .ok () { t' with resurrecting := false } := by
      rw [markResurrected] at hd
      simp only [Trace.resurrect, hd]
    rw [Action.outcome_of_ok hrun, Action.final_of_ok hrun, Action.outcome_of_ok hd,
      Action.final_of_ok hd]
    exact ⟨rfl, rfl⟩
  | error e t' =>
    have hrun : Trace.resurrect types target objects t =
        .error e { t' with resurrecting := false } := by
      rw [markResurrected] at hd
      simp only [Trace.resurrect, hd]
    rw [Action.outcome_of_error hrun, Action.final_of_error hrun, Action.outcome_of_error hd,
      Action.final_of_error hd]
    exact ⟨rfl, rfl⟩

/-- Each call ends. -/
theorem call_goes (types : TypeSystem) (he : t.Entered h target entered) (c : Call)
    (hc : ∀ objects, c = .resurrect objects → ∀ a ∈ objects, a ∈ h.objects) :
    ∃ later, c.Goes types target t later ((c.act types target).outcome t)
        ((c.act types target).final t) ∧
      ((c.act types target).final t).Entered h target (later ++ entered) := by
  -- each call adds what it enters in front of the worklist
  have hinv := Entered.markInvariant hu target t.worklist entered
  cases c with
  | markRoot root =>
    obtain ⟨new, hnew, he'⟩ := hinv.keeps_markRoot root t ⟨[], rfl, he⟩
    exact ⟨new, .markRoot hnew, he'⟩
  | scanHolder holder =>
    have hkeeps : Action.Keeps _ (Trace.scanHolder types target holder) :=
      hinv.keeps_scanHolder holder
    obtain ⟨new, hnew, he'⟩ := hkeeps t ⟨[], rfl, he⟩
    exact ⟨new, .scanHolder hnew, he'⟩
  | drain =>
    obtain ⟨later, hdrains, he'⟩ := drains_drain hu types he
    exact ⟨later, .drain hdrains, he'⟩
  | resurrect objects =>
    obtain ⟨new, hnew, he₁⟩ : ∃ new,
        (markResurrected target objects t).worklist = new ++ t.worklist ∧
          (markResurrected target objects t).Entered h target (new ++ entered) :=
      hinv.markAll (hc objects rfl) ⟨[], rfl, he.congr rfl rfl⟩
    obtain ⟨later, hdrains, he₂⟩ := drains_drain hu types he₁
    obtain ⟨houtcome, hfinal⟩ := outcome_resurrect types target objects t
    rw [← List.append_assoc] at he₂
    rw [Call.act, houtcome, hfinal]
    exact ⟨later ++ new, .resurrect hnew hdrains, he₂.congr rfl rfl⟩

theorem calls_follow (types : TypeSystem) (he : t.Entered h target entered) (calls : List Call)
    (hcalls : ∀ objects, Call.resurrect objects ∈ calls → ∀ a ∈ objects, a ∈ h.objects) :
    ∃ later, Follows types target calls t later (answers types target calls t)
        (after types target calls t) ∧
      (after types target calls t).Entered h target (later ++ entered) := by
  induction calls generalizing t entered with
  | nil => exact ⟨[], .nil, he⟩
  | cons c calls ih =>
    obtain ⟨new, hgoes, he₁⟩ := call_goes hu types he c fun objects hc =>
      hcalls objects (hc ▸ List.mem_cons_self)
    obtain ⟨later, hfollows, he₂⟩ := ih he₁ fun objects hc =>
      hcalls objects (List.mem_cons_of_mem _ hc)
    exact ⟨later ++ new, .cons hgoes hfollows, (List.append_assoc _ _ _) ▸ he₂⟩

end Unmarked

theorem Call.Goes.corrupt {c : Call} {e : Error} {answer : Except Error Unit}
    (h : c.Goes types target t entered answer t') (ha : answer = .error e) : e.Corrupt := by
  cases h with
  | @markRoot root _ _ _ =>
    have hrun := Action.error_of_outcome ha
    rw [Trace.markRoot] at hrun
    split at hrun
    · exact absurd hrun (by simp)
    · exact ⟨_, _, (EStateM.Result.error.inj hrun).1.symm⟩
  | @scanHolder holder _ _ _ =>
    have hrun := Action.error_of_outcome ha
    rw [Trace.scanHolder] at hrun
    split at hrun
    · exact corrupt_of_scan hrun
    · exact ⟨_, _, (EStateM.Result.error.inj hrun).1.symm⟩
  | drain hdrains => exact hdrains.corrupt ha
  | resurrect _ hdrains => exact hdrains.corrupt ha

theorem Follows.corrupt {calls : List Call} {e : Error} {answers : List (Except Error Unit)}
    (h : Follows types target calls t entered answers t') (he : .error e ∈ answers) :
    e.Corrupt := by
  induction h with
  | nil => exact absurd he List.not_mem_nil
  | cons hgoes _ ih =>
    rcases List.mem_cons.1 he with ha | he
    · exact hgoes.corrupt ha.symm
    · exact ih he

/-! ### The result -/

/-- On a heap without marks, whatever its reference slots hold, whatever the types are and
whichever roots and holders are named, all calls end. They succeed, or say that the heap is
inconsistent. No object enters the worklist twice, and those that enter it are objects of
collected spaces and the ones that are marked. Nothing else has changed in the heap, and the
counters tell the number and the size of the marked objects. -/
theorem calls_end (hu : h.Unmarked) (types : TypeSystem) (target : Target) (calls : List Call)
    (hcalls : ∀ objects, Call.resurrect objects ∈ calls → ∀ a ∈ objects, a ∈ h.objects) :
    ∃ entered, Follows types target calls { heap := h } entered
        (answers types target calls { heap := h }) (after types target calls { heap := h }) ∧
      (after types target calls { heap := h }).Ended h target entered ∧
      ∀ e, .error e ∈ answers types target calls { heap := h } →
        ∃ a defect, e = .corruptHeap a defect := by
  obtain ⟨entered, hfollows, he⟩ := calls_follow hu types (.start h target) calls hcalls
  rw [List.append_nil] at he
  exact ⟨entered, hfollows, he.ended hu, fun e herr => hfollows.corrupt herr⟩

/-- The header of an object with two slots. -/
def cell : Header := .fresh ⟨0⟩ 16 (.arena .gen0) false

/-- All objects are rows of references. -/
def rows : TypeSystem := fun _ => some (.array "row")

/-- The address of the first object in the nursery. -/
def first : Address := (Space.arena .gen0).address 0

/-- The address of the object behind a `cell`. -/
def second : Address := (Space.arena .gen0).address 48

/-- Two objects that refer to each other, and a slot that leads out of the heap. -/
def tangled : Heap :=
  let twins := (((Heap.empty 4096 65536).allocateSmall? cell).2.allocateSmall? cell).2
  ((twins.setWord first 0 second).setWord second 0 first).setWord second 8 0xDEAD0000

theorem unmarked_tangled : tangled.Unmarked := by
  have h₀ : (Heap.empty 4096 65536).Unmarked := .empty (by decide) _
  have h₁ := (h₀.allocateSmall? cell (by decide) (by decide) (by decide)).allocateSmall? cell
    (by decide) (by decide) (by decide)
  have h₂ := h₁.setWord (a := first) (o := 0)
    (Heap.mem_objects_of_isObject h₁.wellFormed (by decide +kernel)) (by decide +kernel) second
  have h₃ := h₂.setWord (a := second) (o := 0)
    (Heap.mem_objects_of_isObject h₂.wellFormed (by decide +kernel)) (by decide +kernel) first
  exact h₃.setWord (Heap.mem_objects_of_isObject h₃.wellFormed (by decide +kernel))
    (by decide +kernel) _

/-- Calls that go around the circle, and go on after each failure. -/
def rounds : List Call := [.markRoot first, .drain, .markRoot 8, .resurrect [second]]

/-- Each of the two objects is entered once. -/
theorem calls_end_of_tangled : ∃ entered,
    (after rows .gen0 rounds { heap := tangled }).Ended tangled .gen0 entered ∧
      (answers rows .gen0 rounds { heap := tangled }).map Except.isOk =
        [true, false, false, true] ∧
      entered.length = 2 := by
  have hobject : second ∈ tangled.objects :=
    Heap.mem_objects_of_isObject unmarked_tangled.wellFormed (by decide +kernel)
  have hresurrected : ∀ objects, Call.resurrect objects ∈ rounds →
      ∀ a ∈ objects, a ∈ tangled.objects := by
    intro objects hin a ha
    have hsecond : objects = [second] := by simpa [rounds] using hin
    rw [hsecond, List.mem_singleton] at ha
    exact ha ▸ hobject
  obtain ⟨entered, -, hended, -⟩ := calls_end unmarked_tangled rows .gen0 rounds hresurrected
  obtain ⟨hanswers, hcount⟩ :
      (answers rows .gen0 rounds { heap := tangled }).map Except.isOk =
          [true, false, false, true] ∧
        (after rows .gen0 rounds { heap := tangled }).stats.markedObjects +
          (after rows .gen0 rounds { heap := tangled }).stats.resurrectedObjects = 2 := by
    decide +kernel
  exact ⟨entered, hended, hanswers, hended.objects_eq.symm.trans hcount⟩

end Trace

end GenerationalHeap
