/-
The calls that an allocation makes.

An owner may be wrapped so that every call is listed, with the heap that it leaves behind.
The wrapped owner climbs the same ladder, so the list tells what the ladder does with any
owner.

* `Ladder.Entry`, `Ladder.Logged` — a call that was made, and a state with a list of them.
* `Ladder.logged` — an owner that lists its calls.
* `Ladder.Lawful` — what is assumed of an owner.
* `Ladder.Appends` — what an action adds to the list.
* `Ladder.Attempted` — each call is made only after the object has found no room.
* `Ladder.FailsLast` — a call that fails ends the allocation.
* `Ladder.idle` — an owner whose collections free nothing.
-/
import GenerationalHeap.Proofs.Requests
import GenerationalHeap.Proofs.Runs

namespace GenerationalHeap

namespace Ladder

/-! ### The list of calls -/

/-- What an allocation calls its owner for. -/
inductive Call where
  /-- A collection. -/
  | collect (target : Target)
  /-- The notice that the capacity of the nursery has changed. -/
  | grown (old new : Nat)
  deriving DecidableEq

/-- A call that was made, the heap that it left behind, and the error that it came to. -/
structure Entry where
  call : Call
  after : Heap
  failure : Option Error

/-- A state with the list of the calls that were made. -/
structure Logged (σ : Type) where
  state : σ
  log : List Entry

section Logged

variable {σ : Type} [HoldsHeap σ]

instance : HoldsHeap (Logged σ) where
  heap s := HoldsHeap.heap s.state
  setHeap h s := { s with state := HoldsHeap.setHeap h s.state }

/-- The next state, with one more call on the list. -/
def Logged.note (s : Logged σ) (call : Call) (failure : Option Error) (next : σ) : Logged σ :=
  ⟨next, s.log ++ [⟨call, HoldsHeap.heap next, failure⟩]⟩

/-- The owner that lists its calls. -/
def logged (o : Owner σ) : Owner (Logged σ) where
  collect target reason s :=
    match o.collect target reason s.state with
    | .ok _ next => .ok () (s.note (.collect target) none next)
    | .error e next => .error e (s.note (.collect target) (some e) next)
  nurseryGrown old new s := s.note (.grown old new) none (o.nurseryGrown old new s.state)

theorem beside_state : HoldsHeap.Beside (Logged.state (σ := σ))
    fun s next => { s with state := next } where
  view_put _ _ := rfl
  heap _ := rfl
  setHeap _ _ := rfl

theorem seenAs_logged (o : Owner σ) : (logged o).SeenAs Logged.state o where
  heap _ := rfl
  onHeap act := beside_state.seenAs_onHeap act
  collect target reason s := by
    cases hrun : o.collect target reason s.state with
    | ok u next => simp only [logged, hrun, Logged.note]
    | error e next => simp only [logged, hrun, Logged.note]
  grown _ _ _ := rfl

/-- An allocation does the same whether its calls are listed or not. -/
theorem allocate_logged (o : Owner σ) (r : Request) (config : Config) (s : σ) :
    (allocate o r config).outcome s = (allocate (logged o) r config).outcome ⟨s, []⟩ ∧
      (allocate o r config).final s = ((allocate (logged o) r config).final ⟨s, []⟩).state := by
  have hseen := (seenAs_logged o).allocate config (r := r)
  refine ⟨?_, hseen.final ⟨s, []⟩⟩
  cases hrun : allocate (logged o) r config ⟨s, []⟩ with
  | ok a t => rw [Action.outcome_of_ok hrun, Action.outcome_of_ok (hseen.of_ok hrun)]
  | error e t => rw [Action.outcome_of_error hrun, Action.outcome_of_error (hseen.of_error hrun)]

end Logged

/-! ### What is assumed of an owner -/

/-- A heap under a config. -/
structure Proper (config : Config) (h : Heap) : Prop where
  wellFormed : h.WellFormed
  maxSize : h.maxSize = config.maxHeapSize

theorem Proper.headroom_le {config : Config} {h : Heap} (hcheck : config.check = .ok ())
    (hp : Proper config h) : h.headroom ≤ spaceLimit := by
  have hlimit := (Config.le_of_check hcheck).2
  have hmax := hp.maxSize
  unfold Heap.headroom
  omega

/-- The header of an object holds its size, if the object is not larger than a space. -/
theorem payloadSize_header_of_le {r : Request} (hle : headerSize + r.payload ≤ spaceLimit) :
    r.header.payloadSize = r.payload := by
  have hsmall : r.payload < UInt32.size := by
    unfold headerSize spaceLimit at hle
    unfold UInt32.size
    omega
  rw [Header.payloadSize, Request.header, Header.size_fresh]
  exact UInt32.toNat_ofNat_of_lt' hsmall

/-- What is assumed of an owner: its heap is the one that was put there last, and a
collection that succeeds leaves a proper heap behind. It may do to it what it likes, and it
may fail. -/
structure Lawful {σ : Type} [HoldsHeap σ] (o : Owner σ) (config : Config) : Prop where
  heap_setHeap : ∀ (h : Heap) (s : σ), HoldsHeap.heap (HoldsHeap.setHeap h s) = h
  heap_grown : ∀ old new (s : σ), HoldsHeap.heap (o.nurseryGrown old new s) = HoldsHeap.heap s
  collect : ∀ target reason (s s' : σ), Proper config (HoldsHeap.heap s) →
    o.collect target reason s = .ok () s' → Proper config (HoldsHeap.heap s')

section Steps

variable {σ : Type} [HoldsHeap σ] {o : Owner σ} {config : Config} {s : Logged σ} {h : Heap}

theorem Lawful.onHeap_ok (ho : Lawful o config) {α : Type} {act : Action Heap α} {a : α}
    (hact : act (HoldsHeap.heap s) = .ok a h) :
    ∃ s', onHeap act s = .ok a s' ∧ HoldsHeap.heap s' = h ∧ s'.log = s.log := by
  refine ⟨HoldsHeap.setHeap h (HoldsHeap.setHeap default s), ?_,
    ho.heap_setHeap h (HoldsHeap.setHeap default s.state), rfl⟩
  simp only [onHeap, hact]

theorem Lawful.onHeap_error (ho : Lawful o config) {α : Type} {act : Action Heap α} {e : Error}
    (hact : act (HoldsHeap.heap s) = .error e h) :
    ∃ s', onHeap act s = .error e s' ∧ HoldsHeap.heap s' = h ∧ s'.log = s.log := by
  refine ⟨HoldsHeap.setHeap h (HoldsHeap.setHeap default s), ?_,
    ho.heap_setHeap h (HoldsHeap.setHeap default s.state), rfl⟩
  simp only [onHeap, hact]

end Steps

/-! ### What an action adds to the list -/

/-- An action adds calls to the list that have a property, together with the outcome and the
heap that is left behind. -/
def Appends {σ : Type} [HoldsHeap σ] (act : Action (Logged σ) Address) (s : Logged σ)
    (P : List Entry → Except Error Address → Heap → Prop) : Prop :=
  ∃ entries, (act.final s).log = s.log ++ entries ∧
    P entries (act.outcome s) (HoldsHeap.heap (act.final s))

section Appends

variable {σ : Type} [HoldsHeap σ] {o : Owner σ} {config : Config} {r : Request} {s : Logged σ}
  {act : Action (Logged σ) Address} {P : List Entry → Except Error Address → Heap → Prop}

theorem appends_of_ok {s' : Logged σ} {a : Address} (hrun : act s = .ok a s')
    (hlog : s'.log = s.log) (hP : P [] (.ok a) (HoldsHeap.heap s')) : Appends act s P := by
  refine ⟨[], ?_, ?_⟩
  · rw [Action.final_of_ok hrun, hlog, List.append_nil]
  · rwa [Action.final_of_ok hrun, Action.outcome_of_ok hrun]

theorem appends_of_error {s' : Logged σ} {e : Error} (hrun : act s = .error e s')
    (hlog : s'.log = s.log) (hP : P [] (.error e) (HoldsHeap.heap s')) : Appends act s P := by
  refine ⟨[], ?_, ?_⟩
  · rw [Action.final_of_error hrun, hlog, List.append_nil]
  · rwa [Action.final_of_error hrun, Action.outcome_of_error hrun]

theorem Appends.imp {Q : List Entry → Except Error Address → Heap → Prop}
    (happends : Appends act s P) (hPQ : ∀ entries outcome after, P entries outcome after →
      Q entries outcome after) : Appends act s Q := by
  obtain ⟨entries, hlog, hP⟩ := happends
  exact ⟨entries, hlog, hPQ _ _ _ hP⟩

theorem Appends.of_eq {act' : Action (Logged σ) Address} {s' : Logged σ} {made : List Entry}
    (hrun : act s = act' s') (hlog : s'.log = s.log ++ made)
    (happends : Appends act' s' fun entries => P (made ++ entries)) : Appends act s P := by
  obtain ⟨entries, hlog', hP⟩ := happends
  obtain ⟨hfinal, houtcome⟩ := Action.final_outcome_congr hrun
  refine ⟨made ++ entries, ?_, ?_⟩
  · rw [hfinal, hlog', hlog, List.append_assoc]
  · rwa [hfinal, houtcome]

/-- What the calls tell of the owner that lists them is true of the owner itself. -/
theorem told_of_appends {t : σ} (happends : Appends (allocate (logged o) r config) ⟨t, []⟩ P) :
    (allocate o r config).outcome t = (allocate (logged o) r config).outcome ⟨t, []⟩ ∧
      (allocate o r config).final t = ((allocate (logged o) r config).final ⟨t, []⟩).state ∧
      P ((allocate (logged o) r config).final ⟨t, []⟩).log
        ((allocate (logged o) r config).outcome ⟨t, []⟩)
        (HoldsHeap.heap ((allocate (logged o) r config).final ⟨t, []⟩)) := by
  obtain ⟨houtcome, hfinal⟩ := allocate_logged o r config t
  obtain ⟨entries, hlog, hP⟩ := happends
  refine ⟨houtcome, hfinal, ?_⟩
  rwa [hlog]

/-- A collection is listed, whether it fails or not. -/
theorem Lawful.appends_collect (ho : Lawful o config) (hs : Proper config (HoldsHeap.heap s))
    (target : Target) (reason : Reason) {next : Unit → Action (Logged σ) Address}
    (hfailed : ∀ e h, P [⟨.collect target, h, some e⟩] (.error e) h)
    (hnext : ∀ s' : Logged σ, Proper config (HoldsHeap.heap s') →
      Appends (next ()) s' fun entries =>
        P (⟨.collect target, HoldsHeap.heap s', none⟩ :: entries)) :
    Appends ((logged o).collect target reason >>= next) s P := by
  cases hrun : o.collect target reason s.state with
  | ok u t =>
    have hcollect : (logged o).collect target reason s =
        .ok () (s.note (.collect target) none t) := by
      simp only [logged, hrun]
    exact Appends.of_eq (Action.bind_of_ok hcollect next) rfl
      (hnext _ (ho.collect target reason s.state t hs hrun))
  | error e t =>
    have hcollect : (logged o).collect target reason s =
        .error e (s.note (.collect target) (some e) t) := by
      simp only [logged, hrun]
    -- nothing runs after the failure, so this is the only call that is added
    have hend := Action.bind_of_error hcollect next
    refine ⟨[⟨.collect target, HoldsHeap.heap t, some e⟩], ?_, ?_⟩
    · rw [Action.final_of_error hend]
      rfl
    · rw [Action.final_of_error hend, Action.outcome_of_error hend]
      exact hfailed e _

/-- The growth of the nursery is listed. -/
theorem Lawful.appends_grown (ho : Lawful o config) (old new : Nat)
    {next : Unit → Action (Logged σ) Address}
    (hnext : ∀ s' : Logged σ, HoldsHeap.heap s' = HoldsHeap.heap s →
      Appends (next ()) s' fun entries =>
        P (⟨.grown old new, HoldsHeap.heap s, none⟩ :: entries)) :
    Appends (modify ((logged o).nurseryGrown old new) >>= next) s P := by
  have hheap : HoldsHeap.heap (o.nurseryGrown old new s.state) = HoldsHeap.heap s :=
    ho.heap_grown old new s.state
  refine Appends.of_eq (Action.modify_bind _ next s) rfl ?_
  rw [hheap]
  exact hnext _ hheap

/-- An attempt is not listed. -/
theorem Lawful.appends_placeOr (ho : Lawful o config) {next : Action (Logged σ) Address}
    (hplaced : ∀ a h, r.place? (HoldsHeap.heap s) = .ok (some a) h → P [] (.ok a) h)
    (hfailed : ∀ e h, r.place? (HoldsHeap.heap s) = .error e h → P [] (.error e) h)
    (hnext : ∀ s' : Logged σ, r.place? (HoldsHeap.heap s) = .ok none (HoldsHeap.heap s') →
      Appends next s' P) : Appends (r.placeOr next) s P := by
  cases hplace : r.place? (HoldsHeap.heap s) with
  | ok placed h =>
    obtain ⟨s', hrun, rfl, hlog⟩ := ho.onHeap_ok hplace
    cases placed with
    | some a => exact appends_of_ok (Action.bind_of_ok hrun _) hlog (hplaced a _ hplace)
    | none =>
      exact Appends.of_eq (Action.bind_of_ok hrun _) (hlog.trans (List.append_nil _).symm)
        (hnext s' hplace)
  | error e h =>
    obtain ⟨s', hrun, rfl, hlog⟩ := ho.onHeap_error hplace
    exact appends_of_error (Action.bind_of_error hrun _) hlog (hfailed e _ hplace)

end Appends

/-! ### What a list of calls tells -/

/-- Each call is made once the object has found no room in the heap that is there at the
time. -/
def Attempted (r : Request) : Heap → List Entry → Prop
  | _, [] => True
  | h, e :: rest => r.place? h = .ok none h ∧ Attempted r e.after rest

/-- The heap after some calls. -/
def lastHeap (h : Heap) (entries : List Entry) : Heap := entries.foldl (fun _ e => e.after) h

/-- The heap after the last collection among some calls. -/
def collectedHeap (h : Heap) (entries : List Entry) : Heap :=
  entries.foldl (fun h e => match e.call with
    | .collect _ => e.after
    | .grown _ _ => h) h

/-- No call has failed. -/
def NoFailure (entries : List Entry) : Prop := ∀ e ∈ entries, e.failure = none

theorem noFailure_nil : NoFailure [] := fun _ he => absurd he List.not_mem_nil

theorem NoFailure.tail {e : Entry} {entries : List Entry} (h : NoFailure (e :: entries)) :
    NoFailure entries := fun x hx => h x (List.mem_cons_of_mem e hx)

theorem not_noFailure_failed {call : Call} {h : Heap} {e : Error} :
    ¬NoFailure [⟨call, h, some e⟩] := fun hclean =>
  absurd (hclean _ (List.mem_singleton_self _)) (by simp)

/-- A call that fails is the last one, and the allocation fails as it did. -/
def FailsLast (entries : List Entry) (outcome : Except Error Address) : Prop :=
  ∀ front e back error, entries = front ++ e :: back → e.failure = some error →
    back = [] ∧ outcome = .error error

section FailsLast

variable {entries : List Entry} {outcome : Except Error Address} {call : Call} {h : Heap}

theorem failsLast_nil : FailsLast [] outcome := fun _ _ _ _ hentries =>
  absurd hentries (by simp)

theorem failsLast_cons (hrest : FailsLast entries outcome) :
    FailsLast (⟨call, h, none⟩ :: entries) outcome := by
  intro front e back error hentries herror
  cases front with
  | nil =>
    obtain ⟨rfl, -⟩ := List.cons.inj hentries
    exact absurd herror (by simp)
  | cons first front' => exact hrest front' e back error (List.cons.inj hentries).2 herror

theorem failsLast_failed {e : Error} : FailsLast [⟨call, h, some e⟩] (.error e) := by
  intro front x back error hentries herror
  cases front with
  | nil =>
    obtain ⟨rfl, rfl⟩ := List.cons.inj hentries
    exact ⟨rfl, congrArg Except.error (Option.some.inj herror)⟩
  | cons first front' => exact absurd (List.cons.inj hentries).2 (by simp)

end FailsLast

/-! ### An owner that frees nothing -/

/-- A state that is no more than a heap. -/
structure Bare where
  heap : Heap

instance : HoldsHeap Bare where
  heap s := s.heap
  setHeap h _ := ⟨h⟩

/-- An owner whose collections free nothing. -/
def idle : Owner Bare where
  collect _ _ := pure ()
  nurseryGrown _ _ s := s

theorem lawful_idle (config : Config) : Lawful idle config where
  heap_setHeap _ _ := rfl
  heap_grown _ _ _ := rfl
  collect _ _ s s' hs hrun := by
    obtain ⟨-, rfl⟩ := EStateM.Result.ok.injEq .. ▸ hrun
    exact hs

end Ladder

end GenerationalHeap
