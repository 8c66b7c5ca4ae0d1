/-
The ladder of an allocation, over any state that holds a heap.

* `Owner.Leads.allocate` — what each rung of the ladder leads to, the ladder leads to.
* `Owner.Upholds.allocate` — whatever each rung of the ladder keeps, the ladder keeps.
* `HoldsHeap.Beside` — a state that holds another one as a part, and the heap in it.
* `Owner.SeenAs.allocate` — a state that says more than another one climbs the same ladder.
-/
import GenerationalHeap.Allocation
import GenerationalHeap.Proofs.Actions

namespace GenerationalHeap

/-! ### What every rung keeps -/

section Leads

variable {σ : Type} [HoldsHeap σ] {o : Owner σ} {r : Request} {P E : σ → Prop}
  {Q : Address → σ → Prop} {s : σ}

/-- What holds before every rung of the ladder, what holds once the object is placed, and what
holds if a rung fails. The growth of the nursery counts as one rung with its notice. -/
structure Owner.Leads (o : Owner σ) (r : Request) (P E : σ → Prop) (Q : Address → σ → Prop) :
    Prop where
  place : ∀ s, P s → (onHeap r.place?).Ends s E fun placed s' => placed.elim (P s') fun a => Q a s'
  grow : ∀ s, P s → (onHeap (Heap.growNursery r.blockSize)).Ends s E fun sizes s' =>
    P (o.nurseryGrown sizes.1 sizes.2 s')
  collect : ∀ target reason s, P s → (o.collect target reason).Ends s E fun _ => P
  gaveUp : ∀ s, P s → E s

namespace Owner.Leads

variable (ho : o.Leads r P E Q)
include ho

theorem giveUp (hs : P s) : (r.giveUp : Action σ Address).Ends s E Q := ho.gaveUp s hs

theorem placeOr {next : Action σ Address} (hnext : ∀ s, P s → next.Ends s E Q) (hs : P s) :
    (r.placeOr next).Ends s E Q := by
  refine (ho.place s hs).bind ?_
  rintro (_ | a) s' hs'
  · exact hnext s' hs'
  · exact Action.ends_of_ok rfl hs'

theorem collect_bind {target : Target} {reason : Reason} {next : Unit → Action σ Address}
    (hnext : ∀ s, P s → (next ()).Ends s E Q) (hs : P s) :
    (o.collect target reason >>= next).Ends s E Q :=
  (ho.collect target reason s hs).bind fun _ s' hs' => hnext s' hs'

theorem growAndPlace (hs : P s) : (growAndPlace o r).Ends s E Q := by
  refine Action.Ends.of_eq (Action.get_bind _ s) ?_
  dsimp only
  split
  · refine (ho.grow s hs).bind ?_
    rintro ⟨old, new⟩ s' hs'
    refine Action.Ends.of_eq (Action.modify_bind _ _ s') ?_
    exact ho.placeOr (fun _ => ho.giveUp) hs'
  · exact ho.giveUp hs

/-- Whatever an allocation leaves behind, each of its rungs has seen to. -/
theorem allocate (config : Config) (hs : P s) : (allocate o r config).Ends s E Q := by
  have hgrow : ∀ s, P s → (GenerationalHeap.growAndPlace o r).Ends s E Q := fun _ => ho.growAndPlace
  rw [GenerationalHeap.allocate]
  split
  · refine ho.placeOr (fun s hs => Action.Ends.of_eq (Action.get_bind _ s) ?_) hs
    refine ho.collect_bind (fun s' hs' => ho.placeOr ?_ hs') hs
    split
    · exact hgrow
    · exact fun _ => ho.collect_bind fun _ => ho.placeOr hgrow
  · have hrest : ∀ s, P s → (r.placeOr do
          o.collect .full (.allocationFailure r.blockSize)
          r.placeOr r.giveUp).Ends s E Q :=
      fun _ => ho.placeOr fun _ => ho.collect_bind fun _ => ho.placeOr fun _ => ho.giveUp
    refine Action.Ends.of_eq (Action.get_bind _ s) ?_
    dsimp only
    split
    · exact ho.collect_bind hrest hs
    · exact hrest s hs

end Owner.Leads

/-- What every rung of the ladder keeps, for as long as the object is not placed, and what
holds once it is. -/
structure Owner.Upholds (o : Owner σ) (r : Request) (P : σ → Prop) (Q : Address → σ → Prop) :
    Prop where
  place : ∀ s, P s → (onHeap r.place?).Ends s P fun placed s' => placed.elim (P s') fun a => Q a s'
  grow : ∀ s, P s → (onHeap (Heap.growNursery r.blockSize)).Ends s P fun _ => P
  grown : ∀ old new s, P s → P (o.nurseryGrown old new s)
  collect : ∀ target reason s, P s → (o.collect target reason).Ends s P fun _ => P

theorem Owner.Upholds.leads (ho : o.Upholds r P Q) : o.Leads r P P Q where
  place := ho.place
  grow s hs := (ho.grow s hs).imp (fun _ h => h) fun sizes s' => ho.grown sizes.1 sizes.2 s'
  collect := ho.collect
  gaveUp _ hs := hs

/-- What every rung keeps, an allocation keeps, whether it fails or not. -/
theorem Owner.Upholds.allocate (ho : o.Upholds r P Q) (config : Config) (hs : P s) :
    (GenerationalHeap.allocate o r config).Ends s P Q :=
  ho.leads.allocate config hs

end Leads

/-! ### States that say more -/

namespace Action

variable {σ τ α β : Type} {view : σ → τ}

/-- An operation on states that say more than others, seen from those. -/
def SeenAs (view : σ → τ) (act : Action σ α) (act' : Action τ α) : Prop :=
  ∀ s, act' (view s) =
    match act s with
    | .ok a s' => .ok a (view s')
    | .error e s' => .error e (view s')

theorem SeenAs.of_ok {act : Action σ α} {act' : Action τ α} (h : SeenAs view act act') {s s' : σ}
    {a : α} (hrun : act s = .ok a s') : act' (view s) = .ok a (view s') := by
  rw [h s, hrun]

theorem SeenAs.of_error {act : Action σ α} {act' : Action τ α} (h : SeenAs view act act')
    {s s' : σ} {e : Error} (hrun : act s = .error e s') : act' (view s) = .error e (view s') := by
  rw [h s, hrun]

theorem SeenAs.final {act : Action σ α} {act' : Action τ α} (h : SeenAs view act act') (s : σ) :
    act'.final (view s) = view (act.final s) := by
  cases hrun : act s with
  | ok a s' => rw [final_of_ok hrun, final_of_ok (h.of_ok hrun)]
  | error e s' => rw [final_of_error hrun, final_of_error (h.of_error hrun)]

theorem SeenAs.bind {act : Action σ α} {act' : Action τ α} {f : α → Action σ β}
    {f' : α → Action τ β} (h : SeenAs view act act') (hf : ∀ a, SeenAs view (f a) (f' a)) :
    SeenAs view (act >>= f) (act' >>= f') := by
  intro s
  cases hrun : act s with
  | ok a s' => rw [bind_of_ok hrun, bind_of_ok (h.of_ok hrun), hf a s']
  | error e s' => rw [bind_of_error hrun, bind_of_error (h.of_error hrun)]

/-- What an operation does next may depend on what is seen of the state. -/
theorem SeenAs.get_bind {f : σ → Action σ β} {f' : τ → Action τ β}
    (hf : ∀ s, SeenAs view (f s) (f' (view s))) : SeenAs view (get >>= f) (get >>= f') :=
  fun s => hf s s

theorem seenAs_pure (a : α) : SeenAs view (pure a : Action σ α) (pure a) := fun _ => rfl

theorem seenAs_modify {f : σ → σ} {f' : τ → τ} (hf : ∀ s, f' (view s) = view (f s)) :
    SeenAs view (modify f : Action σ Unit) (modify f') :=
  fun s => congrArg (EStateM.Result.ok ()) (hf s)

theorem seenAs_discard {act : Action σ α} {act' : Action τ α} (h : SeenAs view act act') :
    SeenAs view (discard act) (discard act') := by
  intro s
  have hmap : ∀ {σ : Type} (act : Action σ α), discard act = EStateM.map (fun _ => ()) act :=
    fun _ => rfl
  rw [hmap, hmap, EStateM.map, EStateM.map]
  cases hrun : act s with
  | ok a s' => simp only [h.of_ok hrun]
  | error e s' => simp only [h.of_error hrun]

end Action

section SeenAs

variable {σ τ : Type} [HoldsHeap σ] [HoldsHeap τ] {view : σ → τ} {o : Owner σ} {o' : Owner τ}
  {r : Request}

/-- States that hold what is seen of them as a part, and the heap in it. -/
structure HoldsHeap.Beside (view : σ → τ) (put : σ → τ → σ) : Prop where
  view_put : ∀ s t, view (put s t) = t
  heap : ∀ s, HoldsHeap.heap (view s) = HoldsHeap.heap s
  setHeap : ∀ h s, HoldsHeap.setHeap h (HoldsHeap.setHeap default s) =
    put s (HoldsHeap.setHeap h (HoldsHeap.setHeap default (view s)))

namespace HoldsHeap.Beside

variable {put : σ → τ → σ} (hb : Beside view put) {α : Type} {act : Action Heap α} {s : σ}
include hb

theorem onHeap_eq : onHeap act s =
    match onHeap act (view s) with
    | .ok a t => .ok a (put s t)
    | .error e t => .error e (put s t) := by
  rw [onHeap, onHeap, hb.heap]
  cases hrun : act (HoldsHeap.heap s) with
  | ok a h => exact congrArg (EStateM.Result.ok a) (hb.setHeap h s)
  | error e h => exact congrArg (EStateM.Result.error e) (hb.setHeap h s)

theorem seenAs_onHeap (act : Action Heap α) : Action.SeenAs view (onHeap act) (onHeap act) := by
  intro s
  rw [hb.onHeap_eq]
  cases onHeap act (view s) <;> simp only [hb.view_put]

/-- An operation on the heap is one on the part that is seen. -/
theorem ends_onHeap {E : τ → Prop} {Q : α → τ → Prop} (h : (onHeap act).Ends (view s) E Q) :
    (onHeap act).Ends s (fun s' => ∃ t, s' = put s t ∧ E t)
      fun x s' => ∃ t, s' = put s t ∧ Q x t := by
  have heq : onHeap act s = _ := hb.onHeap_eq
  cases hrun : onHeap act (view s) with
  | ok a t =>
    rw [hrun] at heq
    exact Action.ends_of_ok heq ⟨t, rfl, h.of_ok hrun⟩
  | error e t =>
    rw [hrun] at heq
    exact Action.ends_of_error heq ⟨t, rfl, h.of_error hrun⟩

theorem final_onHeap : (onHeap act).final s = put s ((onHeap act).final (view s)) := by
  rw [Action.final, hb.onHeap_eq, Action.final]
  cases onHeap act (view s) <;> rfl

theorem ends_of_final {P : σ → Prop} (h : P (put s ((onHeap act).final (view s)))) :
    (onHeap act).Ends s P fun _ => P :=
  Action.ends_of_final (hb.final_onHeap ▸ h)

end HoldsHeap.Beside

/-- An owner of states that say more than others, seen from those. -/
structure Owner.SeenAs (view : σ → τ) (o : Owner σ) (o' : Owner τ) : Prop where
  heap : ∀ s, HoldsHeap.heap (view s) = HoldsHeap.heap s
  onHeap : ∀ {α : Type} (act : Action Heap α), Action.SeenAs view (onHeap act) (onHeap act)
  collect : ∀ target reason, Action.SeenAs view (o.collect target reason) (o'.collect target reason)
  grown : ∀ old new s, o'.nurseryGrown old new (view s) = view (o.nurseryGrown old new s)

namespace Owner.SeenAs

variable (ho : o.SeenAs view o')
include ho

theorem giveUp : Action.SeenAs view r.giveUp r.giveUp := by
  intro s
  rw [Request.giveUp, Request.giveUp, ho.heap]

theorem placeOr {next : Action σ Address} {next' : Action τ Address}
    (hnext : Action.SeenAs view next next') :
    Action.SeenAs view (r.placeOr next) (r.placeOr next') := by
  refine (ho.onHeap r.place?).bind ?_
  rintro (_ | a)
  · exact hnext
  · exact Action.seenAs_pure a

theorem growAndPlace : Action.SeenAs view (growAndPlace o r) (growAndPlace o' r) := by
  refine Action.SeenAs.get_bind fun s => ?_
  dsimp only
  rw [ho.heap]
  split
  · refine (ho.onHeap _).bind ?_
    rintro ⟨old, new⟩
    exact (Action.seenAs_modify (ho.grown old new)).bind fun _ => ho.placeOr ho.giveUp
  · exact ho.giveUp

/-- A state that says more climbs the same ladder. -/
theorem allocate (config : Config) :
    Action.SeenAs view (allocate o r config) (allocate o' r config) := by
  rw [GenerationalHeap.allocate, GenerationalHeap.allocate]
  split
  · refine ho.placeOr (Action.SeenAs.get_bind fun s => ?_)
    dsimp only
    rw [ho.heap]
    refine (ho.collect _ _).bind fun _ => ho.placeOr ?_
    split
    · exact ho.growAndPlace
    · exact (ho.collect _ _).bind fun _ => ho.placeOr ho.growAndPlace
  · refine Action.SeenAs.get_bind fun s => ?_
    dsimp only
    rw [ho.heap]
    have hrest : Action.SeenAs view (r.placeOr do
          o.collect .full (.allocationFailure r.blockSize)
          r.placeOr r.giveUp) (r.placeOr do
          o'.collect .full (.allocationFailure r.blockSize)
          r.placeOr r.giveUp) :=
      ho.placeOr ((ho.collect _ _).bind fun _ => ho.placeOr ho.giveUp)
    split
    · exact (ho.collect _ _).bind fun _ => hrest
    · exact hrest

end Owner.SeenAs

end SeenAs

end GenerationalHeap
