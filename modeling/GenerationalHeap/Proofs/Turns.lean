/-
Finalizers in a chronicle.

* `Chronicle.Changes` — one header changes, and with it what is told of its object.
* `Chronicle.Faithful.registerFinalizer`, `Chronicle.Faithful.suppressFinalization`,
  `Chronicle.Faithful.takeNext`, `Chronicle.Faithful.beginTurn`, `Chronicle.Faithful.endTurn` —
  what is done about finalizers is as the notes tell.
* `Chronicle.Recorded.faithful` — so a chronicle is faithful all along a run.
* `Chronicle.Faithful.onward` — what becomes of the objects in one step.
-/
import GenerationalHeap.Proofs.Following

namespace GenerationalHeap

namespace Chronicle

variable {κ : Type} {config : Config} {types : TypeRegistry} {w w' : Chronicle κ}
  {c : Collector κ TypeRegistry} {o p : Nat} {a b : Address} {new : Header}

/-! ### One header changes -/

/-- One header changes, and nothing that concerns other objects. -/
structure Changes (a : Address) (new : Header) (w w' : Chronicle κ) : Prop where
  mem : a ∈ w.collector.heap.objects
  size : new.size = (w.collector.heap.header a).size
  places : w'.places = w.places
  heap : w'.collector.heap = w.collector.heap.setHeader a new
  callbacks : ∀ id, id ≠ (w.collector.heap.header a).slot.toNat → id ≠ new.slot.toNat →
    w'.collector.callbacks.get? id = w.collector.callbacks.get? id
  notes : ∃ l, w'.notes = l ++ w.notes ∧ ∀ n ∈ l, n.object = w.number a
  queue : ∀ b, b ≠ a → b ∈ w.collector.queue.objects → b ∈ w'.collector.queue.objects
  turn : ∀ b, b ≠ a → w'.stage.isBegun = true → w'.collector.queue.inFlight = some b →
    w.stage.isBegun = true ∧ w.collector.queue.inFlight = some b

namespace Changes

variable (h : Changes a new w w') (hw : w.Faithful)
include h

theorem place (o : Nat) : w'.place o = w.place o := by
  rw [Chronicle.place, Chronicle.place, h.places]

include hw

theorem relabels : Heap.Relabels (fun b old => if b = a then new else old) w.collector.heap
    w'.collector.heap :=
  h.heap ▸ Heap.relabels_setHeader hw.steady.heap.wellFormed h.mem h.size

theorem objects : w'.collector.heap.objects = w.collector.heap.objects :=
  (h.relabels hw).layout.objects hw.steady.heap.wellFormed

theorem header_self : w'.collector.heap.header a = new := by
  rw [(h.relabels hw).header a h.mem, if_pos rfl]

theorem header_of_ne (hb : b ∈ w.collector.heap.objects) (hne : b ≠ a) :
    w'.collector.heap.header b = w.collector.heap.header b := by
  rw [(h.relabels hw).header b hb, if_neg hne]

/-- What is noted is not about other objects. -/
theorem exists_notes (ho : w.place o = some b) (hne : b ≠ a) :
    ∃ l, w'.notes = l ++ w.notes ∧ ∀ n ∈ l, n.object ≠ o := by
  obtain ⟨l, hl, hobject⟩ := h.notes
  exact ⟨l, hl, fun n hn heq =>
    hne ((hw.eq_of_place ho).2 (heq.symm.trans (hobject n hn)))⟩

theorem armed_of_ne (ho : w.place o = some b) (hne : b ≠ a) :
    w'.notes.armed o = w.notes.armed o := by
  obtain ⟨l, hl, hother⟩ := h.exists_notes hw ho hne
  rw [hl, Notes.armed_append]
  exact fun n hn =>
    ⟨(Note.of_object_ne (hother n hn)).1, (Note.of_object_ne (hother n hn)).2.1⟩

theorem standing_of_ne (ho : w.place o = some b) (hne : b ≠ a) :
    w'.notes.standing o = w.notes.standing o := by
  obtain ⟨l, hl, hother⟩ := h.exists_notes hw ho hne
  rw [hl, Notes.standing_append]
  exact fun n hn => (Note.of_object_ne (hother n hn)).2.2

/-- Another object keeps its slot, and the table what is in it. -/
theorem get?_of_ne (hc : w'.collector.Steady) (hb : b ∈ w.collector.heap.objects) (hne : b ≠ a)
    (hz : (w.collector.heap.header b).slot ≠ 0) :
    w'.collector.callbacks.get? (w.collector.heap.header b).slot.toNat =
      w.collector.callbacks.get? (w.collector.heap.header b).slot.toNat := by
  have hheader := h.header_of_ne hw hb hne
  -- no two objects share a slot, neither before nor after the change
  refine h.callbacks _ (fun heq => ?_) (fun heq => ?_)
  · exact hne (hw.steady.distinct b hb a h.mem hz (UInt64.toNat_inj.1 heq))
  · rw [← hheader] at hz heq
    exact hne (hc.distinct b (h.objects hw ▸ hb) a (h.objects hw ▸ h.mem) hz
      (by rw [h.header_self hw]; exact UInt64.toNat_inj.1 heq))

end Changes

/-- A change keeps a chronicle faithful, if the notes tell of it. -/
theorem Faithful.of_changes (hw : w.Faithful) (a : Address) (new : Header)
    (h : Changes a new w w') (hc : w'.collector.Steady) (hturn : w'.InTurn)
    (horderly : w'.notes.Orderly) (hstanding : new.slot ≠ 0 →
      w'.collector.callbacks.get? new.slot.toNat = w'.notes.standing (w.number a))
    (howed : new.needsFinalization = true → a ∉ w'.collector.queue.objects →
      w'.notes.armed (w.number a) = true)
    (hrearmed : w'.stage.isBegun = true → w'.collector.queue.inFlight = some a → new.slot ≠ 0 →
      w'.notes.armed (w.number a) = true) : w'.Faithful := by
  refine
    { toLocated := hw.toLocated.of_objects h.places (h.objects hw)
      toInTurn := hturn
      steady := hc
      orderly := horderly
      noted := ?_
      standing := ?_
      owed := ?_
      rearmed := ?_ }
  · intro n hn
    obtain ⟨l, hl, hobject⟩ := h.notes
    rw [h.places]
    rw [hl] at hn
    rcases List.mem_append.1 hn with hn | hn
    · rw [hobject n hn]
      exact hw.number_lt h.mem
    · exact hw.noted n hn
  · intro o b ho hz
    rw [h.place] at ho
    by_cases hba : b = a
    · subst hba
      rw [h.header_self hw] at hz ⊢
      rw [hstanding hz, hw.number_eq ho]
    · rw [h.header_of_ne hw (hw.mem ho) hba] at hz ⊢
      rw [h.get?_of_ne hw hc (hw.mem ho) hba hz, hw.standing o b ho hz, h.standing_of_ne hw ho hba]
  · intro o b ho hneeds hout
    rw [h.place] at ho
    by_cases hba : b = a
    · subst hba
      rw [h.header_self hw] at hneeds
      rw [← hw.number_eq ho]
      exact howed hneeds hout
    · rw [h.header_of_ne hw (hw.mem ho) hba] at hneeds
      rw [h.armed_of_ne hw ho hba]
      exact hw.owed o b ho hneeds fun hin => hout (h.queue b hba hin)
  · intro o b ho hbegun hb hz
    rw [h.place] at ho
    by_cases hba : b = a
    · subst hba
      rw [h.header_self hw] at hz
      rw [← hw.number_eq ho]
      exact hrearmed hbegun hb hz
    · rw [h.header_of_ne hw (hw.mem ho) hba] at hz
      rw [h.armed_of_ne hw ho hba]
      obtain ⟨hbegun', hb'⟩ := h.turn b hba hbegun hb
      exact hw.rearmed o b ho hbegun' hb' hz

/-! ### Calls on finalizers -/

theorem final_noting_of_ok {α : Type} {n : Note κ} {act : Action (Collector κ TypeRegistry) α}
    {x : α} (h : act w.collector = .ok x c) :
    (noting n act).final w = (w.withCollector c).note n := by
  rw [Action.final, noting, h]

theorem final_noting_of_error {α : Type} {n : Note κ} {act : Action (Collector κ TypeRegistry) α}
    {e : Error} (h : act w.collector = .error e c) :
    (noting n act).final w = w.withCollector c := by
  rw [Action.final, noting, h]

theorem Faithful.registerFinalizer (hw : w.Faithful) (a : Address) (callback : κ) :
    (after (.registerFinalizer a callback) w).Faithful := by
  have hc : (Collector.after (.registerFinalizer a callback) w.collector).Steady :=
    hw.steady.of_step (.call _ _)
  rcases hw.steady.registerFinalizer_cases a callback with
    ⟨e, hrun⟩ | ⟨slot, callbacks, ha, hrun, hkind⟩
  · rw [after, final_noting_of_error hrun]
    exact hw
  rw [Collector.after, Action.final_of_ok hrun] at hc
  -- the table has the callback in the slot, and is the same elsewhere
  have htable : callbacks.get? slot.toNat = some callback ∧
      ∀ id, id ≠ slot.toNat → callbacks.get? id = w.collector.callbacks.get? id := by
    rcases hkind with ⟨-, -, hin, rfl⟩ | ⟨rfl, hnext, -, rfl⟩
    · obtain ⟨old, hold⟩ := Option.isSome_iff_exists.1 hin
      refine ⟨?_, fun id hne => ?_⟩
      · rw [HandleTable.get?_modify, if_pos rfl, hold]
        rfl
      · rw [HandleTable.get?_modify, if_neg hne]
    · rw [UInt64.toNat_ofNat_of_lt' (Nat.lt_of_succ_lt hnext)]
      refine ⟨?_, fun id hne => ?_⟩
      · rw [HandleTable.get?_add, if_pos rfl]
      · rw [HandleTable.get?_add, if_neg hne]
  have hself : Note.settles (w.number a) (.registered (w.number a) callback) = true := BEq.rfl
  have harms : Notes.armed (w.number a) (.registered (w.number a) callback :: w.notes) = true := by
    rw [Notes.armed, Note.arms, BEq.rfl, Bool.true_or]
  rw [after, final_noting_of_ok hrun]
  refine hw.of_changes a { (w.collector.heap.header a).armed with slot }
    { mem := ha
      size := rfl
      places := rfl
      heap := rfl
      callbacks := fun id _ hne => htable.2 id hne
      notes := ⟨[.registered (w.number a) callback], rfl, fun n hn => by
        rw [List.mem_singleton.1 hn]; rfl⟩
      queue := fun _ _ hb => hb
      turn := fun _ _ hbegun hb => ⟨hbegun, hb⟩ }
    hc ⟨hw.nodup, hw.between, hw.job⟩ ⟨trivial, hw.orderly⟩ ?_ (fun _ _ => harms) fun _ _ _ => harms
  intro _
  show callbacks.get? slot.toNat = Notes.standing _ (.registered (w.number a) callback :: w.notes)
  rw [htable.1, Notes.standing, if_pos hself]
  rfl

theorem Faithful.suppressFinalization (hw : w.Faithful) (a : Address) :
    (after (.suppressFinalization a) w).Faithful := by
  have hc : (Collector.after (.suppressFinalization a) w.collector).Steady :=
    hw.steady.of_step (.call _ _)
  rcases hw.steady.suppressFinalization_cases a with ⟨e, hrun⟩ | ⟨suppressed, ha, hrun⟩
  · rw [after, final_noting_of_error hrun]
    exact hw
  rw [Collector.after, Action.final_of_ok hrun] at hc
  rw [after, final_noting_of_ok hrun]
  refine hw.of_changes a (w.collector.heap.header a).settled
    { mem := ha
      size := rfl
      places := rfl
      heap := rfl
      callbacks := fun id hne _ => by
        show HandleTable.get? (if (w.collector.heap.header a).slot ≠ 0 then _ else _) id = _
        split
        · rw [HandleTable.get?_erase, if_neg hne]
        · rfl
      notes := ⟨[.suppressed (w.number a)], rfl, fun n hn => by rw [List.mem_singleton.1 hn]; rfl⟩
      queue := fun _ _ hb => hb
      turn := fun _ _ hbegun hb => ⟨hbegun, hb⟩ }
    hc ⟨hw.nodup, hw.between, hw.job⟩ ⟨trivial, hw.orderly⟩ ?_ ?_ ?_
  · exact fun hz => absurd (Header.slot_settled _) hz
  · intro hneeds
    rw [Header.needsFinalization_settled] at hneeds
    exact absurd hneeds Bool.false_ne_true
  · exact fun _ _ hz => absurd (Header.slot_settled _) hz

/-! ### The turn of a finalizer -/

theorem Faithful.takeNext (hw : w.Faithful) (patience : Patience) :
    (w.takeNext patience).Faithful := by
  have hc : Collector.Steady
      { w.collector with queue := (w.collector.queue.takeNext patience).2 } :=
    hw.steady.of_step (.takeNext patience _)
  rw [Chronicle.takeNext]
  rcases FinalizationQueue.takeNext_cases w.collector.queue patience with
    ⟨turn, hturn, hnone⟩ | ⟨a, rest, hpending, -, hidle, hturn⟩
  · rw [hturn]
    cases turn with
    | object a => exact absurd rfl (hnone a)
    | _ => exact hw
  · have hperm := w.collector.queue.perm_takeNext patience
    rw [hturn] at hc hperm ⊢
    exact
      { toLocated := hw.toLocated.of_objects rfl rfl
        nodup := hperm.nodup_iff.2 hw.nodup
        between := iff_of_false (fun h => absurd h (by simp)) (Option.some_ne_none a)
        job := fun _ _ h => absurd h (by simp)
        steady := hc
        orderly := hw.orderly
        noted := hw.noted
        standing := hw.standing
        owed := fun o b ho hneeds hout =>
          hw.owed o b ho hneeds fun hin => hout (hperm.mem_iff.2 hin)
        rearmed := fun _ _ _ h => absurd h Bool.false_ne_true }

theorem Faithful.beginTurn (hw : w.Faithful) (hstage : w.stage = .taken) :
    w.beginTurn.Faithful := by
  have hc := hw.steady.of_step (.beginTurn _)
  have hflight : w.collector.queue.inFlight ≠ none := fun hnone => by
    simp [hw.between.2 hnone] at hstage
  rw [Chronicle.beginTurn]
  rcases hw.steady.beginTurn_eq with ⟨hrun, hskip⟩ | ⟨a, hin, ha, hz, running, hrun⟩
  · rw [hrun]
    exact
      { toLocated := hw.toLocated.of_objects rfl rfl
        nodup := hw.nodup
        between := iff_of_false (fun h => absurd h (by simp)) hflight
        job := fun _ _ h => absurd h (by simp)
        steady := hw.steady
        orderly := hw.orderly
        noted := hw.noted
        standing := hw.standing
        owed := hw.owed
        rearmed := fun o a ho _ hin hz => by
          -- nothing was taken from the object, so it has no slot
          rcases hskip a hin with hover | hzero
          · rw [hw.steady.isFinalized_of_slot (hw.mem ho) hz] at hover
            exact absurd hover Bool.false_ne_true
          · exact absurd hzero hz }
  · obtain ⟨callback, hget⟩ := Option.isSome_iff_exists.1
      (Collector.contains_iff_of_slot hw.steady.toSlotted ha hz)
    have hplace := hw.place_number ha
    rw [hrun, hget] at hc ⊢
    refine hw.of_changes a { w.collector.heap.header a with slot := 0 }
      { mem := ha
        size := rfl
        places := rfl
        heap := rfl
        callbacks := fun id hne _ => by
          show HandleTable.get? (w.collector.callbacks.erase _) id = _
          rw [HandleTable.get?_erase, if_neg hne]
        notes := ⟨[.invoked (w.number a) callback], rfl, fun n hn => by
          rw [List.mem_singleton.1 hn]; rfl⟩
        queue := fun _ _ hb => hb
        turn := fun b hne _ hb => absurd (Option.some.inj (hb.symm.trans hin)) hne }
      hc ?_ ⟨?_, hw.orderly⟩ ?_ ?_ ?_
    · refine ⟨hw.nodup, iff_of_false (fun h => absurd h (by simp [note])) hflight, ?_⟩
      rintro _ _ ⟨⟩
      exact ⟨a, hplace, hin⟩
    · show w.notes.standing (w.number a) = some callback
      rw [← hw.standing _ a hplace hz, hget]
    · exact fun hne => absurd rfl hne
    · exact fun _ hout => absurd (FinalizationQueue.mem_objects_of_inFlight hin) hout
    · exact fun _ _ hne => absurd rfl hne

/-- What waits besides the object in flight still waits when its turn has ended. -/
theorem mem_complete_of_ne {q : FinalizationQueue} (hin : q.inFlight = some a) (hne : b ≠ a)
    (hb : b ∈ q.objects) : b ∈ q.complete.2.objects := by
  refine List.mem_append_left _ ((FinalizationQueue.mem_objects.1 hb).resolve_right fun hin' => ?_)
  exact hne (Option.some.inj (hin'.symm.trans hin))

theorem InTurn.complete (hw : w.InTurn) (hstage : w'.stage = .between)
    (hqueue : w'.collector.queue = w.collector.queue.complete.2) : w'.InTurn where
  nodup := by
    have hobjects : w.collector.queue.complete.2.objects = w.collector.queue.pending :=
      List.append_nil _
    rw [hqueue, hobjects]
    exact (List.nodup_append.1 hw.nodup).1
  between := by
    rw [hqueue]
    exact iff_of_true hstage rfl
  job o callback hjob := by
    simp [hstage] at hjob

theorem Faithful.endTurn (hw : w.Faithful) (hstage : w.stage.isBegun = true) :
    w.endTurn.Faithful := by
  have hc := hw.steady.of_step (.endTurn _)
  obtain ⟨a, hin⟩ : ∃ a, w.collector.queue.inFlight = some a := by
    rw [← Option.ne_none_iff_exists']
    intro hnone
    rw [hw.between.2 hnone] at hstage
    exact absurd hstage Bool.false_ne_true
  have hend := hw.steady.endTurn_eq
  rw [hin, Option.elim] at hend
  rw [Chronicle.endTurn]
  by_cases hz : (w.collector.heap.header a).slot = 0
  · rw [if_pos hz] at hend
    rw [hend] at hc ⊢
    refine hw.of_changes a ((w.collector.heap.header a).setFinalized true)
      { mem := hw.mem_of_queue (FinalizationQueue.mem_objects_of_inFlight hin)
        size := rfl
        places := rfl
        heap := rfl
        callbacks := fun _ _ _ => rfl
        notes := ⟨[], rfl, fun n hn => absurd hn List.not_mem_nil⟩
        queue := fun b hne hb => mem_complete_of_ne hin hne hb
        turn := fun _ _ h => absurd h Bool.false_ne_true }
      hc (hw.complete rfl rfl) hw.orderly ?_ ?_ fun h => absurd h Bool.false_ne_true
    · exact fun hne => absurd hz hne
    · intro hneeds
      simp [Header.needsFinalization] at hneeds
  · -- the object was given a callback meanwhile, so it is armed and leaves the queue as it is
    rw [if_neg hz] at hend
    rw [hend] at hc ⊢
    exact
      { toLocated := hw.toLocated.of_objects rfl rfl
        toInTurn := hw.complete rfl rfl
        steady := hc
        orderly := hw.orderly
        noted := hw.noted
        standing := hw.standing
        owed := fun o b ho hneeds hout => by
          by_cases hba : b = a
          · subst hba
            exact hw.rearmed o b ho hstage hin hz
          · exact hw.owed o b ho hneeds fun hb => hout (mem_complete_of_ne hin hba hb)
        rearmed := fun _ _ _ h => absurd h Bool.false_ne_true }

/-! ### Steps -/

theorem Faithful.after (hw : w.Faithful) (k : Call κ) : (Chronicle.after k w).Faithful := by
  have hquiet : k.isQuiet = true → Chronicle.after k w = w.withCollector
      (Collector.after k w.collector) → (Chronicle.after k w).Faithful := fun hk heq =>
    heq ▸ hw.of_quiet (hw.steady.quiet_after hk) (hw.steady.of_step (.call k _))
  cases k with
  | allocate typeId size hasFinalizer build =>
    exact (hw.allocateObject typeId size hasFinalizer build).1
  | collect target reason => exact (hw.collectFor target reason).1
  | registerFinalizer a callback => exact hw.registerFinalizer a callback
  | suppressFinalization a => exact hw.suppressFinalization a
  | _ => exact hquiet rfl rfl

theorem quiet_noteOutcome (c : Collector κ TypeRegistry) (a : Address) (fault : Option String) :
    Collector.Quiet c (Collector.noteOutcome a fault c) := by
  cases fault with
  | none => exact ⟨rfl, fun _ _ => rfl, rfl, rfl, rfl, rfl, rfl⟩
  | some message => exact ⟨rfl, fun _ _ => rfl, rfl, rfl, rfl, rfl, rfl⟩

theorem Faithful.of_step (hw : w.Faithful) (hs : Step w w') : w'.Faithful := by
  cases hs with
  | call k => exact hw.after k
  | takeNext patience => exact hw.takeNext patience
  | beginTurn _ hstage => exact hw.beginTurn hstage
  | flag inside =>
    exact hw.of_quiet ⟨rfl, fun _ _ => rfl, rfl, rfl, rfl, rfl, rfl⟩
      (hw.steady.of_step (.flag inside _))
  | noteOutcome a fault =>
    exact hw.of_quiet (quiet_noteOutcome _ a fault) (hw.steady.of_step (.noteOutcome a fault _))
  | endTurn _ hstage => exact hw.endTurn hstage

/-- A chronicle is faithful all along a run. -/
theorem Recorded.faithful (h : Recorded config types w) : w.Faithful := by
  induction h with
  | @start build c hcreate =>
    have hc := (Collector.Reachable.start (κ := κ) build hcreate).steady
    have hnone : ∀ a, a ∉ c.heap.objects := by
      intro a ha
      rw [Collector.eq_of_create hcreate, Heap.objects_empty] at ha
      exact List.not_mem_nil ha
    -- at the start nobody has a number yet
    have hplace : ∀ o a, ({ collector := c } : Chronicle κ).place o ≠ some a :=
      fun _ _ => by simp [place]
    have hqueue : c.queue = {} := by rw [Collector.eq_of_create hcreate]
    exact
      { mem := fun ho => absurd ho (hplace _ _)
        known := fun ha => absurd ha (hnone _)
        apart := fun ho => absurd ho (hplace _ _)
        nodup := by
          show c.queue.objects.Nodup
          rw [hqueue]
          exact List.nodup_nil
        between := by
          refine iff_of_true rfl ?_
          show c.queue.inFlight = none
          rw [hqueue]
        job := fun _ _ h => absurd h (by simp)
        steady := hc
        orderly := trivial
        noted := fun _ hn => absurd hn List.not_mem_nil
        standing := fun o a ho => absurd ho (hplace o a)
        owed := fun o a ho => absurd ho (hplace o a)
        rearmed := fun o a ho => absurd ho (hplace o a) }
  | step _ hs ih => exact ih.of_step hs

/-! ### What becomes of the objects in one step -/

/-- What becomes of the objects in one step. -/
structure Onward (w w' : Chronicle κ) : Prop where
  /-- Objects that await finalization and objects of the queue are not reclaimed. -/
  kept : ∀ o a, w.place o = some a → (w.collector.heap.header a).needsFinalization = true ∨
    a ∈ w.collector.queue.objects → ∃ b ∈ w'.collector.heap.objects, w'.place o = some b
  /-- Objects of the queue stay in it, but for the one whose turn ends. -/
  queued : ∀ o a, w.place o = some a → a ∈ w.collector.queue.objects →
    w.collector.queue.inFlight ≠ some a ∨ w'.stage ≠ .between →
      ∃ b, w'.place o = some b ∧ b ∈ w'.collector.queue.objects
  /-- It is the turn of the same object until the turn ends. -/
  inFlight : ∀ o a, w.place o = some a → w.collector.queue.inFlight = some a →
    w'.stage ≠ .between → ∃ b, w'.place o = some b ∧ w'.collector.queue.inFlight = some b
  /-- Objects that come into the queue are noted, and those that are in it are not enqueued
  again. -/
  notes : ∃ l, w'.notes = l ++ w.notes ∧
    (∀ o a, w.place o = some a → a ∈ w.collector.queue.objects → .enqueued o ∉ l) ∧
    ∀ o b, w'.place o = some b → b ∈ w'.collector.queue.objects →
      .enqueued o ∈ l ∨ ∃ a, w.place o = some a ∧ a ∈ w.collector.queue.objects

theorem Later.onward (h : w.Later w') (hw' : w'.Located) : w.Onward w' where
  kept o a ho hawaits := by
    rcases hawaits with hneeds | ha
    · obtain ⟨b, hb, -⟩ := h.awaiting o a ho hneeds
      exact ⟨b, hw'.mem hb, hb⟩
    · obtain ⟨b, hb, -⟩ := h.queued o a ho ha
      exact ⟨b, hw'.mem hb, hb⟩
  queued o a ho ha _ := h.queued o a ho ha
  inFlight o a ho ha _ := h.inFlight o a ho ha
  notes := h.notes

/-- A step that moves no object and enqueues none. -/
theorem onward_of_places (hw' : w'.Located) (hplaces : w'.places = w.places)
    (hleaves : ∀ a ∈ w.collector.queue.objects,
      w.collector.queue.inFlight ≠ some a ∨ w'.stage ≠ .between → a ∈ w'.collector.queue.objects)
    (hcomes : ∀ a ∈ w'.collector.queue.objects, a ∈ w.collector.queue.objects)
    (hflight : ∀ a, w.collector.queue.inFlight = some a → w'.stage ≠ .between →
      w'.collector.queue.inFlight = some a)
    (hnotes : ∃ l, w'.notes = l ++ w.notes ∧ ∀ o, .enqueued o ∉ l) : w.Onward w' := by
  have hplace : ∀ o, w'.place o = w.place o := fun o => by rw [place, place, hplaces]
  obtain ⟨l, hl, hno⟩ := hnotes
  refine ⟨?_, ?_, ?_, l, hl, ?_, ?_⟩
  · intro o a ho _
    rw [← hplace] at ho
    exact ⟨a, hw'.mem ho, ho⟩
  · exact fun o a ho ha hstays => ⟨a, (hplace o).trans ho, hleaves a ha hstays⟩
  · exact fun o a ho ha hstage => ⟨a, (hplace o).trans ho, hflight a ha hstage⟩
  · exact fun o _ _ _ => hno o
  · exact fun o b ho hb => Or.inr ⟨b, (hplace o).symm.trans ho, hcomes b hb⟩

/-- A call that moves no object and does not touch the queue. -/
theorem onward_noting {α : Type} {n : Note κ} {act : Action (Collector κ TypeRegistry) α}
    (hw' : ((noting n act).final w).Located) (hn : ∀ o, n ≠ .enqueued o)
    (hqueue : (act.final w.collector).queue = w.collector.queue) :
    w.Onward ((noting n act).final w) := by
  have hcollector : ((noting n act).final w).collector.queue = w.collector.queue := by
    rw [← hqueue, (seenAs_noting n act).final w]
  refine onward_of_places hw' ?_ ?_ ?_ ?_ ?_
  · rw [Action.final, noting]
    cases act w.collector <;> rfl
  · rw [hcollector]
    exact fun _ ha _ => ha
  · rw [hcollector]
    exact fun _ ha => ha
  · rw [hcollector]
    exact fun _ ha _ => ha
  · rw [Action.final, noting]
    cases act w.collector with
    | ok x c => exact ⟨[n], rfl, fun o hin => hn o (List.mem_singleton.1 hin).symm⟩
    | error e c => exact ⟨[], rfl, fun _ => List.not_mem_nil⟩

theorem Faithful.onward_after (hw : w.Faithful) (k : Call κ) :
    w.Onward (Chronicle.after k w) := by
  have hw' := (hw.after k).toLocated
  have hquiet : k.isQuiet = true → Chronicle.after k w = w.withCollector
      (Collector.after k w.collector) → w.Onward (Chronicle.after k w) := fun hk heq =>
    (heq ▸ hw.later_of_quiet (hw.steady.quiet_after hk) : w.Later (Chronicle.after k w)).onward hw'
  cases k with
  | allocate typeId size hasFinalizer build =>
    exact (hw.allocateObject typeId size hasFinalizer build).2.onward hw'
  | collect target reason => exact (hw.collectFor target reason).2.onward hw'
  | registerFinalizer a callback =>
    exact onward_noting hw' (fun _ => by simp)
      (hw.steady.reflags_registerFinalizer a callback).queue_eq
  | suppressFinalization a =>
    exact onward_noting hw' (fun _ => by simp)
      (hw.steady.reflags_suppressFinalization a).queue_eq
  | _ => exact hquiet rfl rfl

theorem Faithful.onward_takeNext (hw : w.Faithful) (patience : Patience) :
    w.Onward (w.takeNext patience) := by
  have hw' := (hw.takeNext patience).toLocated
  rw [Chronicle.takeNext] at hw' ⊢
  rcases FinalizationQueue.takeNext_cases w.collector.queue patience with
    ⟨turn, hturn, hnone⟩ | ⟨a, rest, hpending, -, hidle, hturn⟩
  · rw [hturn] at hw' ⊢
    cases turn with
    | object a => exact absurd rfl (hnone a)
    | _ => exact (Later.refl w).onward hw'
  · rw [hturn] at hw' ⊢
    have hmem : ∀ b, b ∈ rest ++ [a] ↔ b ∈ w.collector.queue.objects := by
      intro b
      rw [FinalizationQueue.objects, hpending, hidle, Option.toList_none, List.append_nil]
      exact List.perm_append_comm.mem_iff
    exact onward_of_places hw' rfl (fun b hb _ => (hmem b).2 hb) (fun b hb => (hmem b).1 hb)
      (fun b hb _ => absurd (hidle.symm.trans hb) (by simp)) ⟨[], rfl, fun _ => List.not_mem_nil⟩

theorem Faithful.onward_beginTurn (hw : w.Faithful) (hstage : w.stage = .taken) :
    w.Onward w.beginTurn := by
  have hw' := (hw.beginTurn hstage).toLocated
  rw [Chronicle.beginTurn] at hw' ⊢
  rcases hw.steady.beginTurn_eq with ⟨hrun, -⟩ | ⟨a, -, -, -, running, hrun⟩
  · rw [hrun] at hw' ⊢
    exact onward_of_places hw' rfl (fun _ hb _ => hb) (fun _ hb => hb) (fun _ hb _ => hb)
      ⟨[], rfl, fun _ => List.not_mem_nil⟩
  · rw [hrun] at hw' ⊢
    cases hget : w.collector.callbacks.get? (w.collector.heap.header a).slot.toNat with
    | none =>
      rw [hget] at hw'
      exact onward_of_places hw' rfl (fun _ hb _ => hb) (fun _ hb => hb) (fun _ hb _ => hb)
        ⟨[], rfl, fun _ => List.not_mem_nil⟩
    | some callback =>
      rw [hget] at hw'
      exact onward_of_places hw' rfl (fun _ hb _ => hb) (fun _ hb => hb) (fun _ hb _ => hb)
        ⟨[.invoked _ callback], rfl, fun _ => by simp⟩

theorem Faithful.onward_endTurn (hw : w.Faithful) (hstage : w.stage.isBegun = true) :
    w.Onward w.endTurn := by
  have hw' := (hw.endTurn hstage).toLocated
  have hqueue : w.endTurn.collector.queue = w.collector.queue.complete.2 :=
    (congrArg (·.queue) hw.steady.endTurn_eq :)
  have hobjects : w.endTurn.collector.queue.objects = w.collector.queue.pending := by
    rw [hqueue]
    exact List.append_nil _
  refine onward_of_places hw' rfl ?_ ?_ (fun _ _ hne => absurd rfl hne)
    ⟨[], rfl, fun _ => List.not_mem_nil⟩
  · intro a ha hstays
    rw [hobjects]
    refine (FinalizationQueue.mem_objects.1 ha).resolve_right fun hin => ?_
    exact hstays.elim (fun hne => hne hin) fun hne => hne rfl
  · intro a ha
    rw [hobjects] at ha
    exact List.mem_append_left _ ha

/-- What becomes of the objects in one step of a run. -/
theorem Faithful.onward (hw : w.Faithful) (hs : Step w w') : w.Onward w' := by
  have hw' := (hw.of_step hs).toLocated
  cases hs with
  | call k => exact hw.onward_after k
  | takeNext patience => exact hw.onward_takeNext patience
  | beginTurn _ hstage => exact hw.onward_beginTurn hstage
  | flag inside =>
    exact (hw.later_of_quiet (c := { w.collector with inFinalizer := inside })
      ⟨rfl, fun _ _ => rfl, rfl, rfl, rfl, rfl, rfl⟩).onward hw'
  | noteOutcome a fault => exact (hw.later_of_quiet (quiet_noteOutcome _ a fault)).onward hw'
  | endTurn _ hstage => exact hw.onward_endTurn hstage

end Chronicle

end GenerationalHeap
