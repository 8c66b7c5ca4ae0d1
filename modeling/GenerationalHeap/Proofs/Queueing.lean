/-
The entries of a finalization queue, over every sequence of operations.

A queue forgets what it has completed, and a visit rewrites its entries, so that
the queue alone does not say whether an entry got lost. A `History` keeps beside
the queue what its callers have seen: every object ever enqueued with the
rewritings it met while it was in the queue (`Entry`), and the answers with which
turns began and ended. Each operation keeps the two in
agreement (`History.Agrees.step`), hence so does every sequence of operations
(`History.agrees_after`), whatever the order, a completion with nothing in flight
and operations after the shutdown included.

* `FinalizationQueue.visit` — a visit of all entries by a visitor with a state of its own.
* `FinalizationQueue.rewrite` — the rewriting of all entries by their place in line.
  Every visit is one (`visit_eq_rewrite`), a collection's among them (`redirect_eq_rewrite`).
* `History.Agrees` — what the queue holds agrees with what its callers have seen.
* `CollectionUnderWay` — the last collection that has begun has not ended.
* `History.entries_kept_in_order` — completed, in flight and pending together are what
  was ever enqueued, and when a turn can begin.
-/
import GenerationalHeap.Proofs.Accounts

namespace GenerationalHeap

/-- The object whose turn has begun. -/
def Turn.object? : Turn → Option Address
  | .object a => some a
  | _ => none

namespace FinalizationQueue

/-! ### Visits -/

/-- Shows every entry to a visitor, which may rewrite it: first those that wait,
in order, then the one in flight. -/
def visit {σ : Type} (visitor : Address → StateM σ Address) (q : FinalizationQueue) :
    StateM σ FinalizationQueue := do
  let pending ← q.pending.mapM visitor
  let inFlight ← q.inFlight.mapM visitor
  return { q with pending, inFlight }

/-- The entries in the order of their turns. -/
def line (q : FinalizationQueue) : List Address := q.inFlight.toList ++ q.pending

/-- Rewrites every entry, the one at place `i` of the line by `f i`. -/
def rewrite (f : Nat → Address → Address) (q : FinalizationQueue) : FinalizationQueue :=
  { q with
    pending := q.pending.mapIdx fun i => f (i + q.inFlight.toList.length)
    inFlight := q.inFlight.map (f 0) }

theorem length_line (q : FinalizationQueue) : q.line.length = q.size := by
  rw [line, List.length_append, size]
  cases q.inFlight <;> simp [Nat.add_comm]

theorem line_rewrite (f : Nat → Address → Address) (q : FinalizationQueue) :
    (q.rewrite f).line = q.line.mapIdx f := by
  cases h : q.inFlight <;> simp [line, rewrite, h]

theorem taken_rewrite (f : Nat → Address → Address) (q : FinalizationQueue) :
    (q.rewrite f).taken = q.taken := by
  show q.completedTotal + ((q.pending.mapIdx _).length +
      if (q.inFlight.map (f 0)).isSome then 1 else 0) =
    q.completedTotal + (q.pending.length + if q.inFlight.isSome then 1 else 0)
  rw [List.length_mapIdx, Option.isSome_map]

/-- A collection redirects the entries of a queue by one rewriting for all places. -/
theorem redirect_eq_rewrite (f : Address → Address) (q : FinalizationQueue) :
    q.redirect f = q.rewrite fun _ => f := by
  have hmap : q.pending.map f = q.pending.mapIdx fun _ => f :=
    List.ext_getElem (by simp) (by simp)
  rw [redirect, rewrite, hmap]

theorem mapM_nil_apply {σ : Type} (visitor : Address → StateM σ Address) (s : σ) :
    ([] : List Address).mapM visitor s = ([], s) := rfl

theorem mapM_cons_apply {σ : Type} (visitor : Address → StateM σ Address) (a : Address)
    (as : List Address) (s : σ) :
    (a :: as).mapM visitor s =
      ((visitor a s).1 :: (as.mapM visitor (visitor a s).2).1,
        (as.mapM visitor (visitor a s).2).2) := by
  rw [List.mapM_cons]
  rfl

theorem length_mapM {σ : Type} (visitor : Address → StateM σ Address) (as : List Address) (s : σ) :
    (as.mapM visitor s).1.length = as.length := by
  induction as generalizing s with
  | nil => rfl
  | cons a as ih => simp [mapM_cons_apply, ih]

/-- A visitor meets an entry in the state in which the earlier ones have left it. -/
theorem getElem_mapM {σ : Type} (visitor : Address → StateM σ Address) (as : List Address) (s : σ)
    {i : Nat} (h : i < (as.mapM visitor s).1.length) (h' : i < as.length) :
    (as.mapM visitor s).1[i] = (visitor as[i] ((as.take i).mapM visitor s).2).1 := by
  induction as generalizing s i with
  | nil => simp at h'
  | cons a as ih =>
    cases i with
    | zero => simp [mapM_cons_apply, mapM_nil_apply]
    | succ i =>
      simp only [mapM_cons_apply, List.length_cons, Nat.add_lt_add_iff_right] at h h'
      simpa [mapM_cons_apply] using ih (visitor a s).2 h h'

/-- The entries that a visit shows before the one at place `i` of the line. -/
def shownBefore (q : FinalizationQueue) (i : Nat) : List Address :=
  if i < q.inFlight.toList.length then q.pending
  else q.pending.take (i - q.inFlight.toList.length)

/-- What a visitor that begins in a state makes of the entry at a place of the line. -/
def rewriting {σ : Type} (visitor : Address → StateM σ Address) (s : σ) (q : FinalizationQueue)
    (i : Nat) (a : Address) : Address :=
  (visitor a ((q.shownBefore i).mapM visitor s).2).1

/-- A visit rewrites the entries by place in line, whatever state its visitor keeps
from one entry to the next. -/
theorem visit_eq_rewrite {σ : Type} (visitor : Address → StateM σ Address) (s : σ)
    (q : FinalizationQueue) : (q.visit visitor s).1 = q.rewrite (q.rewriting visitor s) := by
  have hvisit : (q.visit visitor s).1 =
      { q with
        pending := (q.pending.mapM visitor s).1
        inFlight := (q.inFlight.mapM visitor (q.pending.mapM visitor s).2).1 } := rfl
  rw [hvisit, rewrite]
  congr 1
  · refine List.ext_getElem (by simp [length_mapM]) fun i hi hi' => ?_
    simpa [rewriting, shownBefore] using getElem_mapM visitor q.pending s hi (by simpa using hi')
  · cases hflight : q.inFlight with
    | none => rfl
    | some a =>
      have hshown : q.shownBefore 0 = q.pending := by simp [shownBefore, hflight]
      show _ = some (visitor a ((q.shownBefore 0).mapM visitor s).2).1
      rw [hshown]
      rfl

/-! ### Turns -/

/-- A turn begins exactly if the queue was not shut down, no collection is under
way, nothing is in flight and something waits; it is the turn of the first. -/
theorem takeNext_eq_object_iff {q : FinalizationQueue} {patience : Patience} {a : Address} :
    (q.takeNext patience).1 = .object a ↔
      q.isShutDown = false ∧ q.collecting = false ∧ q.inFlight = none ∧
        q.pending.head? = some a := by
  rw [takeNext]
  split
  · simp [*]
  · cases q.pending with
    | nil => dsimp only; split <;> simp
    | cons b rest =>
      dsimp only
      split <;> cases hcollecting : q.collecting <;> cases hflight : q.inFlight <;> simp_all

theorem object?_takeNext (q : FinalizationQueue) (patience : Patience) :
    (q.takeNext patience).2.inFlight.toList.length =
      q.inFlight.toList.length + (q.takeNext patience).1.object?.toList.length := by
  rcases q.takeNext_cases patience with ⟨turn, hturn, hno⟩ | ⟨a, rest, -, -, hidle, hturn⟩
  · rw [hturn]
    cases turn with
    | object a => exact absurd rfl (hno a)
    | _ => rfl
  · rw [hturn, hidle]
    rfl

/-- A request for a turn moves entries and touches nothing else. -/
theorem exists_takeNext_eq (q : FinalizationQueue) (patience : Patience) :
    ∃ pending inFlight, (q.takeNext patience).2 = { q with pending, inFlight } := by
  rcases q.takeNext_cases patience with ⟨turn, hturn, -⟩ | ⟨a, rest, -, -, -, hturn⟩
  · exact ⟨q.pending, q.inFlight, by rw [hturn]⟩
  · exact ⟨rest, some a, by rw [hturn]⟩

theorem line_takeNext (q : FinalizationQueue) (patience : Patience) :
    (q.takeNext patience).2.line = q.line := by
  rcases q.takeNext_cases patience with ⟨turn, hturn, -⟩ | ⟨a, rest, hpending, -, hidle, hturn⟩
  · rw [hturn]
  · rw [hturn]
    simp [line, hpending, hidle]

theorem line_enqueue (q : FinalizationQueue) (objects : List Address) :
    (q.enqueue objects).line = q.line ++ objects := by
  simp [line, enqueue]

theorem line_complete (q : FinalizationQueue) :
    q.complete.1.toList ++ q.complete.2.line = q.line := by
  simp [line, complete]

/-! ### Histories -/

/-- What a caller can do with a queue. A turn that would have to wait is not
taken: it begins with a later operation, once it can. -/
inductive Operation where
  | enqueue (objects : List Address)
  | takeNext (patience : Patience)
  | complete
  /-- A visit by a visitor that begins in some state. -/
  | visit {σ : Type} (visitor : Address → StateM σ Address) (s : σ)
  | beginCollection
  | endCollection
  | startCallback
  | finishCallback
  | shutDown

/-- The objects that an operation enqueues. -/
def Operation.enqueued : Operation → List Address
  | .enqueue objects => objects
  | _ => []

/-- An object that was enqueued, and the rewritings it met in the queue. -/
structure Entry where
  enqueued : Address
  rewritings : List (Address → Address) := []

namespace Entry

/-- The entry as its rewritings have left it. -/
def current (e : Entry) : Address := e.rewritings.foldl (fun a f => f a) e.enqueued

/-- The entry after one more rewriting. -/
def meet (f : Address → Address) (e : Entry) : Entry :=
  { e with rewritings := e.rewritings ++ [f] }

@[simp] theorem current_meet (f : Address → Address) (e : Entry) :
    (e.meet f).current = f e.current := by
  simp [current, meet]

end Entry

/-- A queue and what its callers have seen of it. -/
structure History where
  queue : FinalizationQueue := {}
  /-- The entries ever enqueued, in order. -/
  entries : List Entry := []
  /-- The objects whose turns have begun, as they were answered. -/
  begun : List Address := []
  /-- The objects whose turns have ended, as they were answered. -/
  completed : List Address := []

namespace History

/-- The entries after a visit. It meets those that are still in the queue, which
stand in line behind the completed ones. -/
def visited (h : History) (f : Nat → Address → Address) : List Entry :=
  h.entries.take h.completed.length ++
    (h.entries.drop h.completed.length).mapIdx fun i => Entry.meet (f i)

/-- The history after one more operation. -/
def step (h : History) : Operation → History
  | .enqueue objects =>
    { h with
      queue := h.queue.enqueue objects
      entries := h.entries ++ objects.map fun a => { enqueued := a } }
  | .takeNext patience =>
    { h with
      queue := (h.queue.takeNext patience).2
      begun := h.begun ++ (h.queue.takeNext patience).1.object?.toList }
  | .complete =>
    { h with
      queue := h.queue.complete.2
      completed := h.completed ++ h.queue.complete.1.toList }
  | .visit visitor s =>
    { h with
      queue := (h.queue.visit visitor s).1
      entries := h.visited (h.queue.rewriting visitor s) }
  | .beginCollection => { h with queue := h.queue.beginCollection }
  | .endCollection => { h with queue := h.queue.endCollection }
  | .startCallback => { h with queue := h.queue.startCallback }
  | .finishCallback => { h with queue := h.queue.finishCallback }
  | .shutDown => { h with queue := h.queue.shutDown.2 }

/-- The history of a new queue after a sequence of operations. -/
def after (operations : List Operation) : History := operations.foldl step {}

@[simp] theorem after_nil : after [] = {} := rfl

@[simp] theorem after_concat (operations : List Operation) (operation : Operation) :
    after (operations ++ [operation]) = (after operations).step operation := by
  rw [after, List.foldl_append]
  rfl

/-! ### The law of conservation -/

/-- What a queue holds agrees with what its callers have seen. -/
structure Agrees (h : History) : Prop where
  line : h.completed ++ h.queue.line = h.entries.map Entry.current
  begun : h.begun.length = h.completed.length + h.queue.inFlight.toList.length
  enqueuedTotal : h.queue.enqueuedTotal = h.queue.taken
  completedTotal : h.queue.completedTotal = h.completed.length

/-- A visit rewrites the entries in the queue and no other. -/
theorem Agrees.map_visited {h : History} (hagrees : h.Agrees) (f : Nat → Address → Address) :
    (h.visited f).map Entry.current = h.completed ++ h.queue.line.mapIdx f := by
  have hcompleted : (h.entries.take h.completed.length).map Entry.current = h.completed := by
    rw [List.map_take, ← hagrees.line, List.take_left]
  have hline : (h.entries.drop h.completed.length).map Entry.current = h.queue.line := by
    rw [List.map_drop, ← hagrees.line, List.drop_left]
  rw [visited, List.map_append, hcompleted, ← hline]
  congr 1
  exact List.ext_getElem (by simp) (by simp)

theorem Agrees.step {h : History} (hagrees : h.Agrees) (operation : Operation) :
    (h.step operation).Agrees := by
  cases operation with
  | enqueue objects =>
    refine { hagrees with line := ?_, enqueuedTotal := ?_ }
    · show h.completed ++ (h.queue.enqueue objects).line = _
      rw [h.queue.line_enqueue, ← List.append_assoc, hagrees.line, History.step, List.map_append,
        List.map_map]
      simp [Function.comp_def, Entry.current]
    · show h.queue.enqueuedTotal + objects.length = (h.queue.enqueue objects).taken
      rw [h.queue.taken_enqueue, hagrees.enqueuedTotal]
  | takeNext patience =>
    refine ⟨?_, ?_, ?_, ?_⟩
    · show h.completed ++ (h.queue.takeNext patience).2.line = _
      rw [h.queue.line_takeNext]
      exact hagrees.line
    · show (h.begun ++ (h.queue.takeNext patience).1.object?.toList).length = _
      rw [List.length_append, hagrees.begun, Nat.add_assoc, ← h.queue.object?_takeNext]
      rfl
    · show (h.queue.takeNext patience).2.enqueuedTotal = (h.queue.takeNext patience).2.taken
      obtain ⟨pending, inFlight, hq⟩ := h.queue.exists_takeNext_eq patience
      rw [h.queue.taken_takeNext, hq]
      exact hagrees.enqueuedTotal
    · obtain ⟨pending, inFlight, hq⟩ := h.queue.exists_takeNext_eq patience
      show (h.queue.takeNext patience).2.completedTotal = h.completed.length
      rw [hq]
      exact hagrees.completedTotal
  | complete =>
    refine ⟨?_, ?_, ?_, ?_⟩
    · show h.completed ++ h.queue.complete.1.toList ++ h.queue.complete.2.line = _
      rw [List.append_assoc, h.queue.line_complete]
      exact hagrees.line
    · show h.begun.length = (h.completed ++ h.queue.inFlight.toList).length + 0
      rw [hagrees.begun, List.length_append]
      rfl
    · show h.queue.enqueuedTotal = h.queue.complete.2.taken
      rw [h.queue.taken_complete]
      exact hagrees.enqueuedTotal
    · show h.queue.completedTotal + (if h.queue.inFlight.isSome then 1 else 0) =
        (h.completed ++ h.queue.inFlight.toList).length
      rw [hagrees.completedTotal, List.length_append]
      cases h.queue.inFlight <;> rfl
  | visit visitor s =>
    have hqueue :
        (h.step (.visit visitor s)).queue = h.queue.rewrite (h.queue.rewriting visitor s) :=
      h.queue.visit_eq_rewrite visitor s
    refine ⟨?_, ?_, ?_, ?_⟩
    · show h.completed ++ (h.step _).queue.line = (h.visited _).map Entry.current
      rw [hqueue, h.queue.line_rewrite, hagrees.map_visited]
    · show h.begun.length = h.completed.length + (h.step _).queue.inFlight.toList.length
      rw [hqueue, hagrees.begun, FinalizationQueue.rewrite]
      cases h.queue.inFlight <;> rfl
    · rw [hqueue, h.queue.taken_rewrite]
      exact hagrees.enqueuedTotal
    · rw [hqueue]
      exact hagrees.completedTotal
  | beginCollection => exact { hagrees with }
  | endCollection => exact { hagrees with }
  | startCallback => exact { hagrees with }
  | finishCallback => exact { hagrees with }
  | shutDown => exact { hagrees with }

theorem agrees_after (operations : List Operation) : (after operations).Agrees := by
  induction operations using List.reverseRecOn with
  | nil => exact ⟨rfl, rfl, rfl, rfl⟩
  | append_singleton operations operation ih =>
    rw [after_concat]
    exact ih.step operation

/-- A visit neither adds nor drops an entry. -/
theorem enqueued_visited (h : History) (f : Nat → Address → Address) :
    (h.visited f).map Entry.enqueued = h.entries.map Entry.enqueued := by
  have hdrop : ((h.entries.drop h.completed.length).mapIdx fun i => Entry.meet (f i)).map
      Entry.enqueued = (h.entries.drop h.completed.length).map Entry.enqueued :=
    List.ext_getElem (by simp) (by simp [Entry.meet])
  rw [visited, List.map_append, hdrop, ← List.map_append, List.take_append_drop]

theorem enqueued_after (operations : List Operation) :
    (after operations).entries.map Entry.enqueued = operations.flatMap Operation.enqueued := by
  induction operations using List.reverseRecOn with
  | nil => rfl
  | append_singleton operations operation ih =>
    rw [after_concat, List.flatMap_append, ← ih, List.flatMap_singleton]
    cases operation with
    | enqueue objects => simp [History.step, Operation.enqueued, Function.comp_def]
    | visit visitor s => exact (enqueued_visited _ _).trans (List.append_nil _).symm
    | _ => exact (List.append_nil _).symm

/-! ### When a turn can begin -/

/-- Whether the last collection that has begun has not ended. -/
def CollectionUnderWay (operations : List Operation) : Prop :=
  ∃ before after, operations = before ++ .beginCollection :: after ∧ .endCollection ∉ after

theorem collectionUnderWay_concat {operations : List Operation} {operation : Operation} :
    CollectionUnderWay (operations ++ [operation]) ↔
      operation = .beginCollection ∨
        CollectionUnderWay operations ∧ operation ≠ .endCollection := by
  constructor
  · rintro ⟨before, after, heq, hend⟩
    rcases List.eq_nil_or_concat after with rfl | ⟨after, last, rfl⟩
    · exact Or.inl (List.singleton_injective (List.append_inj_right' heq rfl))
    · rw [List.concat_eq_append, ← List.cons_append, ← List.append_assoc] at heq
      obtain ⟨hbefore, hlast⟩ := List.append_inj' heq rfl
      obtain rfl : operation = last := List.singleton_injective hlast
      simp only [List.concat_eq_append, List.mem_append, List.mem_singleton, not_or] at hend
      exact Or.inr ⟨⟨before, after, hbefore, hend.1⟩, Ne.symm hend.2⟩
  · rintro (rfl | ⟨⟨before, after, rfl, hend⟩, hne⟩)
    · exact ⟨operations, [], rfl, by simp⟩
    · exact ⟨before, after ++ [operation], by simp, by simpa [hend] using Ne.symm hne⟩

/-- Collections and the shutdown are told by their operations. -/
theorem flags_step (h : History) (operation : Operation) :
    ((h.step operation).queue.collecting = true ↔
      operation = .beginCollection ∨
        h.queue.collecting = true ∧ operation ≠ .endCollection) ∧
    ((h.step operation).queue.isShutDown = true ↔
      h.queue.isShutDown = true ∨ operation = .shutDown) := by
  cases operation with
  | takeNext patience =>
    obtain ⟨pending, inFlight, hq⟩ := h.queue.exists_takeNext_eq patience
    simp [step, hq]
  | visit visitor s => simp [step, FinalizationQueue.visit_eq_rewrite, FinalizationQueue.rewrite]
  | _ =>
    simp [step, FinalizationQueue.enqueue, FinalizationQueue.complete,
      FinalizationQueue.beginCollection, FinalizationQueue.endCollection,
      FinalizationQueue.startCallback, FinalizationQueue.finishCallback,
      FinalizationQueue.shutDown]

theorem collecting_after (operations : List Operation) :
    (after operations).queue.collecting = true ↔ CollectionUnderWay operations := by
  induction operations using List.reverseRecOn with
  | nil => simp [CollectionUnderWay]
  | append_singleton operations operation ih =>
    rw [after_concat, collectionUnderWay_concat, (flags_step _ _).1, ih]

theorem isShutDown_after (operations : List Operation) :
    (after operations).queue.isShutDown = true ↔ .shutDown ∈ operations := by
  induction operations using List.reverseRecOn with
  | nil => simp
  | append_singleton operations operation ih =>
    rw [after_concat, (flags_step _ _).2, ih, List.mem_append, List.mem_singleton,
      eq_comm (a := operation)]

/-- Whatever is done to a queue, and in whatever order: the completed entries, the
one in flight and those that wait are, in this order, everything ever enqueued, each
as the visits have rewritten it while it was in the queue. The totals differ by the
number of entries in the queue, at most one turn has begun and not ended, and a turn
begins exactly if the queue was not shut down, no collection is under way, every
turn that has begun has ended, and an entry waits: the oldest not yet completed. -/
theorem entries_kept_in_order (operations : List Operation) :
    let h := after operations
    h.completed ++ h.queue.inFlight.toList ++ h.queue.pending = h.entries.map Entry.current ∧
      h.entries.map Entry.enqueued = operations.flatMap Operation.enqueued ∧
      h.queue.enqueuedTotal = h.entries.length ∧
      h.queue.completedTotal = h.completed.length ∧
      h.queue.enqueuedTotal = h.queue.completedTotal + h.queue.size ∧
      h.completed.length ≤ h.begun.length ∧ h.begun.length ≤ h.completed.length + 1 ∧
      ∀ patience a, (h.queue.takeNext patience).1 = .object a ↔
        .shutDown ∉ operations ∧ ¬ CollectionUnderWay operations ∧
          h.begun.length = h.completed.length ∧
          (h.entries[h.completed.length]?).map Entry.current = some a := by
  intro h
  have hagrees : h.Agrees := agrees_after operations
  have hline : h.completed ++ h.queue.inFlight.toList ++ h.queue.pending =
      h.entries.map Entry.current := by
    rw [List.append_assoc]
    exact hagrees.line
  have hflight : h.queue.inFlight.toList.length ≤ 1 := Option.length_toList_le
  have hbegun := hagrees.begun
  have hcount : h.queue.enqueuedTotal = h.entries.length := by
    have hlength := congrArg List.length hagrees.line
    rw [List.length_append, List.length_map, h.queue.length_line] at hlength
    rw [hagrees.enqueuedTotal, FinalizationQueue.taken, hagrees.completedTotal, hlength]
  refine ⟨hline, enqueued_after operations, hcount, hagrees.completedTotal, hagrees.enqueuedTotal,
    by omega, by omega, fun patience a => ?_⟩
  -- a turn has begun for every completed entry and for the one in flight
  have hidle : h.begun.length = h.completed.length ↔ h.queue.inFlight = none := by
    rw [hbegun]
    cases h.queue.inFlight <;> simp
  -- completed entries come first, so the one after them is the head of the queue
  have hnext : h.queue.inFlight = none →
      (h.entries[h.completed.length]?).map Entry.current = h.queue.pending.head? := by
    intro hnone
    rw [← List.getElem?_map, ← hline, hnone, Option.toList_none, List.append_nil,
      List.getElem?_append_right (Nat.le_refl _), Nat.sub_self, List.head?_eq_getElem?]
  rw [FinalizationQueue.takeNext_eq_object_iff, ← isShutDown_after, ← collecting_after,
    Bool.not_eq_true, Bool.not_eq_true, hidle]
  constructor
  · rintro ⟨hopen, hquiet, hnone, hhead⟩
    exact ⟨hopen, hquiet, hnone, (hnext hnone).trans hhead⟩
  · rintro ⟨hopen, hquiet, hnone, hentry⟩
    exact ⟨hopen, hquiet, hnone, (hnext hnone).symm.trans hentry⟩

end History

end FinalizationQueue

end GenerationalHeap
