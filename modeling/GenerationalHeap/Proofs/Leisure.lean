/-
Between the turns of finalizers.

Which objects wait, and whose turn it is, is changed by turns and collections alone. So what is
told of turns, and kept by collections, is kept by all calls.

* `Collector.OfTurns` — properties of the queue and of the flag "inside a finalizer";
  `Collector.OfTurns.after` — every call keeps them.
* `Collector.Reachable.nodup_queue` — the queue holds no object twice, in whatever order turns
  are begun and ended.
* `Collector.AtLeisure` — no turn is under way; `Collector.AtLeisure.after` — no call begins one;
  `Collector.atLeisure_of_calls` — so none is under way between calls.
-/
import GenerationalHeap.Proofs.Accounts
import GenerationalHeap.Proofs.Callbacks

namespace GenerationalHeap

namespace Collector

variable {κ ω : Type} {config : Config} {types : TypeRegistry} {c c' : Collector κ TypeRegistry}

/-! ### What is told of turns -/

/-- A property of the queue and of the flag "inside a finalizer" that collections keep. -/
structure OfTurns (P : Collector κ TypeRegistry → Prop) : Prop where
  congr : ∀ {c c'}, P c → c'.queue = c.queue → c'.inFinalizer = c.inFinalizer → P c'
  shutDown : ∀ {c}, P c → P { c with queue := c.queue.shutDown.2 }
  collectFor : ∀ {c} (target : Target) (reason : Reason), c.Sound → P c →
    P ((Collector.collectFor target reason).final c)

namespace OfTurns

variable {P : Collector κ TypeRegistry → Prop} (hP : OfTurns P)
include hP

theorem ends_onHeap {α : Type} (act : Action Heap α) (h : P c) :
    (onHeap act).Ends c P fun _ => P :=
  onHeap_ends (Action.ends_true act _) (fun _ _ => hP.congr h rfl rfl) fun _ _ _ =>
    hP.congr h rfl rfl

theorem keeps_allocate (r : Request) (config : Config) :
    Action.Keeps (fun c : Collector κ TypeRegistry => Ready r c ∧ P c)
      (allocate owner r config) := by
  have ho : owner.Upholds r (fun c : Collector κ TypeRegistry => Ready r c ∧ P c)
      fun _ c => Ready r c ∧ P c :=
    { place := fun c hc =>
        ((keeps_place.ends hc.1).and (hP.ends_onHeap _ hc.2)).imp (fun _ h => h)
          fun placed c' h => by cases placed <;> exact h
      grow := fun c hc => ((keeps_growNursery _).ends hc.1).and (hP.ends_onHeap _ hc.2)
      grown := fun _ _ c hc => ⟨⟨hc.1.toSound.of_tables ⟨rfl, rfl, rfl, rfl, rfl, rfl, rfl⟩ rfl,
        hc.1.prepared⟩, hP.congr hc.2 rfl rfl⟩
      collect := fun target reason c hc =>
        ((keeps_collect target reason).ends hc.1).and (Action.ends_of_final ?_) }
  · exact Action.keeps_of_ends fun c hc => ho.allocate config hc
  · have hfinal : (owner.collect target reason).final c =
        (Collector.collectFor target reason).final c := Action.final_discard _ c
    rw [hfinal]
    exact hP.collectFor target reason hc.1.toSound hc.2

theorem allocateObject (hc : c.Sound) (h : P c) (typeId : TypeId) (size : Nat)
    (hasFinalizer : Bool) (build : Build) :
    P ((Collector.allocateObjectIn build typeId size hasFinalizer).final c) := by
  refine final_allocateObject h fun r hr _ _ _ => ?_
  exact hP.congr (hP.keeps_allocate r c.config c ⟨⟨hc, hr⟩, h⟩).2 rfl rfl

theorem after_of_quiet (hc : c.Sound) (h : P c) {k : Call κ} (hk : k.isQuiet = true) :
    P (Collector.after k c) := by
  have htouches := hc.touches_after hk
  generalize Collector.after k c = d at htouches ⊢
  cases htouches with
  | nothing => exact h
  | shutDown => exact hP.shutDown h
  | _ => exact hP.congr h rfl rfl

theorem of_reflags (h : P c) (hr : Reflags c c') : P c' := by
  cases hr <;> exact hP.congr h rfl rfl

/-- What is told of turns, a call leaves as it was. -/
theorem after (hc : c.Sound) (h : P c) (k : Call κ) : P (Collector.after k c) := by
  cases hk : k.isQuiet with
  | true => exact hP.after_of_quiet hc h hk
  | false =>
    cases k with
    | allocate typeId size hasFinalizer build =>
      exact hP.allocateObject hc h typeId size hasFinalizer build
    | collect target reason => exact hP.collectFor target reason hc h
    | registerFinalizer a callback =>
      exact hP.of_reflags h (hc.reflags_registerFinalizer a callback)
    | suppressFinalization a => exact hP.of_reflags h (hc.reflags_suppressFinalization a)
    | _ => exact absurd hk (by simp [Call.isQuiet])

end OfTurns

/-! ### Nobody waits twice -/

theorem ofTurns_nodup :
    OfTurns fun c : Collector κ TypeRegistry => c.queue.objects.Nodup where
  congr h hqueue _ := hqueue ▸ h
  shutDown h := h
  collectFor {c} target reason hc h := by
    rcases hc.final_collectFor target reason with hsame | ⟨F, dying, hall, hcol⟩
    · rw [FinalizationQueue.objects, hsame.pending, hsame.inFlight]
      exact h
    · exact hcol.nodup_queue hall h

theorem Step.nodup_queue (hs : Step c c') (hc : c.Sound) (h : c.queue.objects.Nodup) :
    c'.queue.objects.Nodup := by
  cases hs with
  | call k => exact ofTurns_nodup.after hc h k
  | takeNext patience => exact (c.queue.perm_takeNext patience).nodup_iff.2 h
  | beginTurn =>
    rcases hc.beginTurn_eq with ⟨hrun, -⟩ | ⟨a, -, -, -, running, hrun⟩
    · rwa [hrun]
    · rw [hrun]
      exact h
  | flag inside => exact h
  | noteOutcome a fault => cases fault <;> exact h
  | endTurn =>
    rw [hc.endTurn_eq]
    show (c.queue.pending ++ []).Nodup
    rw [List.append_nil]
    exact (List.nodup_append'.1 h).1

/-- No object waits twice, and none waits while its turn is under way. -/
theorem Reachable.nodup_queue (h : Reachable config types c) : c.queue.objects.Nodup := by
  induction h with
  | start build hcreate =>
    rw [eq_of_create hcreate]
    exact List.nodup_nil
  | step hprev hs ih => exact hs.nodup_queue hprev.sound ih

/-! ### Leisure -/

/-- No turn is under way, and no callback runs. -/
structure AtLeisure (c : Collector κ ω) : Prop where
  inFlight : c.queue.inFlight = none
  callbackRunning : c.queue.callbackRunning = false
  inFinalizer : c.inFinalizer = false

section Phases

variable [Host ω] (target : Target)

omit [Host ω] in
theorem keeps_leisure_modify {f : Collector κ ω → Collector κ ω}
    (hf : ∀ c, c.AtLeisure → (f c).AtLeisure) : Action.Keeps AtLeisure (modify f) := hf

omit [Host ω] in
theorem keeps_leisure_onHeap {α : Type} (act : Action Heap α) :
    Action.Keeps (AtLeisure (κ := κ) (ω := ω)) (onHeap act) := by
  intro c hc
  exact (onHeap_ends (Action.ends_true act _) (fun _ _ => ⟨hc.1, hc.2, hc.3⟩) fun _ _ _ =>
    ⟨hc.1, hc.2, hc.3⟩ : (onHeap act).Ends c AtLeisure fun _ => AtLeisure).final

theorem keeps_leisure_visitProviders :
    Action.Keeps (AtLeisure (κ := κ) (ω := ω)) (modify visitProviders) :=
  keeps_leisure_modify fun _ hc => ⟨hc.1, hc.2, hc.3⟩

theorem keeps_leisure_compactPhase (dying : List Address) :
    Action.Keeps (AtLeisure (κ := κ) (ω := ω)) (compactPhase target dying) := by
  refine (keeps_leisure_onHeap _).bind fun compaction => ?_
  -- an object in flight would be redirected, but there is none
  have hredirect : Action.Keeps (AtLeisure (κ := κ) (ω := ω)) (redirectAll compaction dying) :=
    fun c hc => ⟨congrArg (Option.map _) hc.1, hc.2, hc.3⟩
  refine keeps_leisure_visitProviders.bind fun _ => hredirect.bind fun _ =>
    Action.keeps_get.bind fun _ => (keeps_leisure_onHeap _).bind fun _ =>
    Action.Keeps.bind ?_ fun _ => Action.keeps_pure _
  exact keeps_leisure_modify fun _ hc => ⟨hc.1, hc.2, hc.3⟩

theorem keeps_leisure_runCycle (cycle : Nat) :
    Action.Keeps (AtLeisure (κ := κ) (ω := ω)) (runCycle target cycle) := by
  have henter : ∀ p, Action.Keeps (AtLeisure (κ := κ) (ω := ω)) (modify (enter p)) :=
    fun _ => keeps_leisure_modify fun _ hc => ⟨hc.1, hc.2, hc.3⟩
  have hleave : ∀ phase, Action.Keeps (AtLeisure (κ := κ) (ω := ω)) (modify (leave cycle phase)) :=
    fun _ => keeps_leisure_modify fun _ hc => ⟨hc.1, hc.2, hc.3⟩
  have hmark : Action.Keeps (AtLeisure (κ := κ) (ω := ω)) (markPhase target) :=
    keeps_leisure_visitProviders.bind fun _ => Action.keeps_get.bind fun _ =>
      (keeps_leisure_onHeap _).bind fun _ => Action.keeps_pure _
  have hfinalize : Action.Keeps (AtLeisure (κ := κ) (ω := ω)) (finalizePhase target) :=
    Action.keeps_get.bind fun _ => (keeps_leisure_onHeap _).bind fun _ => Action.keeps_pure _
  exact (henter _).bind fun _ => hmark.bind fun _ => (hleave _).bind fun _ =>
    (henter _).bind fun _ => hfinalize.bind fun _ => (hleave _).bind fun _ =>
    (henter _).bind fun _ => (keeps_leisure_compactPhase target _).bind fun _ =>
    (hleave _).bind fun _ => Action.keeps_pure _

end Phases

/-- Collections, be they successful or not, begin and end no turn. -/
theorem AtLeisure.collectFor [Host ω] {c : Collector κ ω} (h : c.AtLeisure) (target : Target)
    (reason : Reason) : ((Collector.collectFor target reason).final c).AtLeisure := by
  have hkept := keeps_leisure_runCycle target (beginCycle target reason c).2.cycles
    (beginCycle target reason c).2 ⟨h.1, h.2, h.3⟩
  rw [Action.final, Collector.collectFor]
  dsimp only
  cases hrun : runCycle target (beginCycle target reason c).2.cycles
    (beginCycle target reason c).2 with
  | error e d =>
    rw [Action.final_of_error hrun] at hkept
    exact ⟨hkept.1, hkept.2, hkept.3⟩
  | ok tally d =>
    rw [Action.final_of_ok hrun] at hkept
    dsimp only
    rw [foldl_emit]
    exact ⟨hkept.1, hkept.2, hkept.3⟩

theorem ofTurns_atLeisure : OfTurns (AtLeisure (κ := κ) (ω := TypeRegistry)) where
  congr h hqueue hflag := ⟨hqueue ▸ h.inFlight, hqueue ▸ h.callbackRunning, hflag ▸ h.inFinalizer⟩
  shutDown h := ⟨h.1, h.2, h.3⟩
  collectFor target reason _ h := h.collectFor target reason

theorem atLeisure_of_create {build : Build} (h : create config types build = .ok c) :
    c.AtLeisure := by
  rw [eq_of_create h]
  exact ⟨rfl, rfl, rfl⟩

/-- No call begins a turn. -/
theorem AtLeisure.after (h : c.AtLeisure) (hc : c.Sound) (k : Call κ) :
    (Collector.after k c).AtLeisure :=
  ofTurns_atLeisure.after hc h k

/-- As long as nothing but calls is made, no turn is ever under way. -/
theorem atLeisure_of_calls {build : Build} (h : create config types build = .ok c)
    (ks : List (Call κ)) :
    (ks.foldl (fun c k => Collector.after k c) c).AtLeisure := by
  have hkept : ∀ {d : Collector κ TypeRegistry}, Reachable config types d → d.AtLeisure →
      (ks.foldl (fun c k => Collector.after k c) d).AtLeisure := by
    induction ks with
    | nil => exact fun _ hd => hd
    | cons k rest ih => exact fun hr hd => ih (hr.step (.call k _)) (hd.after hr.sound k)
  exact hkept (.start build h) (atLeisure_of_create h)

end Collector

end GenerationalHeap
