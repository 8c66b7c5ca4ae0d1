/-
What operations that may fail do to a state.

* `Action.Ends` — what holds of the state in which an operation succeeds or fails.
* `Action.final`, `Action.outcome` — the state that an operation leaves behind, and what it
  answers.
* `Action.Keeps` — a property of the state that an operation keeps, whether it fails
  or not.
* `Action.forM_spec` — what a succession of operations does that all succeed.
-/
import GenerationalHeap.Heap

namespace GenerationalHeap

namespace Action

variable {σ α β : Type}

/-! ### One operation after the other -/

theorem bind_of_ok {act : Action σ α} {s s' : σ} {a : α} (h : act s = .ok a s')
    (f : α → Action σ β) : (act >>= f) s = f a s' := by
  show EStateM.bind act f s = f a s'
  rw [EStateM.bind, h]

theorem bind_of_error {act : Action σ α} {s s' : σ} {e : Error} (h : act s = .error e s')
    (f : α → Action σ β) : (act >>= f) s = .error e s' := by
  show EStateM.bind act f s = .error e s'
  rw [EStateM.bind, h]

/-- If both operations succeed, so did the first. -/
theorem of_bind_ok {act : Action σ α} {f : α → Action σ β} {s s' : σ} {b : β}
    (h : (act >>= f) s = .ok b s') : ∃ a s₁, act s = .ok a s₁ ∧ f a s₁ = .ok b s' := by
  cases hact : act s with
  | ok a s₁ => exact ⟨a, s₁, rfl, (bind_of_ok hact f).symm.trans h⟩
  | error e s₁ =>
    rw [bind_of_error hact] at h
    exact absurd h (by simp)

theorem get_bind (f : σ → Action σ β) (s : σ) : (get >>= f) s = f s s := rfl

theorem modify_bind (f : σ → σ) (g : Unit → Action σ β) (s : σ) :
    (modify f >>= g) s = g () (f s) := rfl

/-- Operations on the members of a list that all succeed. What one of them achieves is
not undone by the others. -/
theorem forM_spec {f : α → Action σ Unit} {I : σ → Prop} {R : σ → σ → Prop} {Q : α → σ → Prop}
    (hrefl : ∀ s, R s s) (htrans : ∀ s s₁ s₂, R s s₁ → R s₁ s₂ → R s s₂)
    {l : List α} (hQ : ∀ x ∈ l, ∀ s s', Q x s → R s s' → Q x s')
    (hstep : ∀ x ∈ l, ∀ s, I s → ∃ s', f x s = .ok () s' ∧ I s' ∧ R s s' ∧ Q x s') {s : σ}
    (hs : I s) : ∃ s', l.forM f s = .ok () s' ∧ I s' ∧ R s s' ∧ ∀ x ∈ l, Q x s' := by
  induction l generalizing s with
  | nil => exact ⟨s, rfl, hs, hrefl s, fun x hx => absurd hx List.not_mem_nil⟩
  | cons x rest ih =>
    obtain ⟨s₁, hx, hI, hR, hx'⟩ := hstep x List.mem_cons_self s hs
    obtain ⟨s₂, hrest, hI', hR', hall⟩ := ih (fun y hy => hQ y (List.mem_cons_of_mem _ hy))
      (fun y hy => hstep y (List.mem_cons_of_mem _ hy)) hI
    refine ⟨s₂, ?_, hI', htrans _ _ _ hR hR', ?_⟩
    · show (f x >>= fun _ => rest.forM f) s = .ok () s₂
      rw [bind_of_ok hx]
      exact hrest
    · intro y hy
      rcases List.mem_cons.1 hy with rfl | hy
      · exact hQ _ List.mem_cons_self s₁ s₂ hx' hR'
      · exact hall y hy

/-- Operations on the members of a list fail because one of them does. -/
theorem of_forM_error {f : α → Action σ Unit} {l : List α} {s s' : σ}
    {e : Error} (h : l.forM f s = .error e s') : ∃ x ∈ l, ∃ s₁, f x s₁ = .error e s' := by
  induction l generalizing s with
  | nil => exact absurd (show EStateM.Result.ok () s = .error e s' from h) (by simp)
  | cons x rest ih =>
    have hrun : (f x >>= fun _ => rest.forM f) s = .error e s' := h
    cases hx : f x s with
    | ok _ s₁ =>
      rw [bind_of_ok hx] at hrun
      obtain ⟨y, hy, s₂, herr⟩ := ih hrun
      exact ⟨y, List.mem_cons_of_mem _ hy, s₂, herr⟩
    | error e₁ s₁ =>
      rw [bind_of_error hx] at hrun
      exact ⟨x, List.mem_cons_self, s, hx.trans hrun⟩

/-! ### Success and failure -/

/-- What holds of the state in which an operation ends: `Q` if it succeeds and `E` if it
fails. -/
def Ends (act : Action σ α) (s : σ) (E : σ → Prop) (Q : α → σ → Prop) : Prop :=
  match act s with
  | .ok a s' => Q a s'
  | .error _ s' => E s'

section Ends

variable {act : Action σ α} {s s' : σ} {a : α} {e : Error} {E E' : σ → Prop} {Q Q' : α → σ → Prop}

theorem ends_of_ok (h : act s = .ok a s') (hQ : Q a s') : act.Ends s E Q := by
  rw [Ends, h]
  exact hQ

theorem ends_of_error (h : act s = .error e s') (hE : E s') : act.Ends s E Q := by
  rw [Ends, h]
  exact hE

theorem ends_true (act : Action σ α) (s : σ) : act.Ends s (fun _ => True) fun _ _ => True := by
  cases h : act s with
  | ok a s' => exact ends_of_ok h trivial
  | error e s' => exact ends_of_error h trivial

theorem Ends.of_eq {act' : Action σ α} {s₀ : σ} (h : act s = act' s₀) (hends : act'.Ends s₀ E Q) :
    act.Ends s E Q := by
  rwa [Ends, h]

theorem Ends.of_ok (hends : act.Ends s E Q) (h : act s = .ok a s') : Q a s' := by
  rwa [Ends, h] at hends

theorem Ends.of_error (hends : act.Ends s E Q) (h : act s = .error e s') : E s' := by
  rwa [Ends, h] at hends

theorem Ends.imp (hends : act.Ends s E Q) (hE : ∀ s', E s' → E' s')
    (hQ : ∀ a s', Q a s' → Q' a s') : act.Ends s E' Q' := by
  cases h : act s with
  | ok a s' => exact ends_of_ok h (hQ a s' (hends.of_ok h))
  | error e s' => exact ends_of_error h (hE s' (hends.of_error h))

theorem Ends.and (hends : act.Ends s E Q) (hends' : act.Ends s E' Q') :
    act.Ends s (fun s' => E s' ∧ E' s') fun a s' => Q a s' ∧ Q' a s' := by
  cases h : act s with
  | ok a s' => exact ends_of_ok h ⟨hends.of_ok h, hends'.of_ok h⟩
  | error e s' => exact ends_of_error h ⟨hends.of_error h, hends'.of_error h⟩

theorem Ends.bind {f : α → Action σ β} {Q' : β → σ → Prop} (hends : act.Ends s E Q)
    (hf : ∀ a s', Q a s' → (f a).Ends s' E Q') : (act >>= f).Ends s E Q' := by
  cases h : act s with
  | ok a s' =>
    have hrest := hf a s' (hends.of_ok h)
    rwa [Ends, ← bind_of_ok h f] at hrest
  | error e s' => exact ends_of_error (bind_of_error h f) (hends.of_error h)

/-- Operations on the members of a list, up to the first that fails. -/
theorem ends_forM {f : α → Action σ Unit} {R : σ → σ → Prop} {P : α → Prop}
    (hrefl : ∀ s, R s s) (htrans : ∀ s s₁ s₂, R s s₁ → R s₁ s₂ → R s s₂) {l : List α}
    (hstep : ∀ x ∈ l, ∀ s, E s → (f x).Ends s E fun _ s' => E s' ∧ R s s' ∧ P x) (hs : E s) :
    (l.forM f : Action σ Unit).Ends s E fun _ s' => E s' ∧ R s s' ∧ ∀ x ∈ l, P x := by
  induction l generalizing s with
  | nil => exact ⟨hs, hrefl s, fun x hx => absurd hx List.not_mem_nil⟩
  | cons x rest ih =>
    refine (hstep x List.mem_cons_self s hs).bind fun _ s₁ h₁ => ?_
    obtain ⟨hs₁, hR, hx⟩ := h₁
    refine (ih (fun y hy => hstep y (List.mem_cons_of_mem _ hy)) hs₁).imp (fun _ h => h) ?_
    rintro _ s₂ ⟨hs₂, hR', hrest⟩
    refine ⟨hs₂, htrans _ _ _ hR hR', ?_⟩
    intro y hy
    rcases List.mem_cons.1 hy with rfl | hy
    · exact hx
    · exact hrest y hy

end Ends

/-! ### What is left behind -/

/-- The state that an operation leaves behind, whether it fails or not. -/
def final (act : Action σ α) (s : σ) : σ :=
  match act s with
  | .ok _ s => s
  | .error _ s => s

theorem final_of_ok {act : Action σ α} {s s' : σ} {a : α} (h : act s = .ok a s') :
    act.final s = s' := by
  rw [final, h]

theorem final_of_error {act : Action σ α} {s s' : σ} {e : Error} (h : act s = .error e s') :
    act.final s = s' := by
  rw [final, h]

/-- What an operation answers, or the error that it comes to. -/
def outcome (act : Action σ α) (s : σ) : Except Error α :=
  match act s with
  | .ok a _ => .ok a
  | .error e _ => .error e

theorem outcome_of_ok {act : Action σ α} {s s' : σ} {a : α} (h : act s = .ok a s') :
    act.outcome s = .ok a := by
  rw [outcome, h]

theorem outcome_of_error {act : Action σ α} {s s' : σ} {e : Error} (h : act s = .error e s') :
    act.outcome s = .error e := by
  rw [outcome, h]

theorem error_of_outcome {act : Action σ α} {s : σ} {e : Error}
    (h : act.outcome s = .error e) : act s = .error e (act.final s) := by
  cases hact : act s with
  | ok a s' =>
    rw [outcome_of_ok hact] at h
    exact absurd h (by simp)
  | error e' s' =>
    rw [outcome_of_error hact, Except.error.injEq] at h
    rw [final_of_error hact, h]

theorem exists_ok_of_isOk {act : Action σ α} {s : σ} (h : (act.outcome s).isOk = true) :
    ∃ a s', act s = .ok a s' := by
  cases hact : act s with
  | ok a s' => exact ⟨a, s', rfl⟩
  | error e s' =>
    rw [outcome_of_error hact] at h
    exact absurd h (by simp [Except.isOk, Except.toBool])

theorem exists_error_of_isOk {act : Action σ α} {s : σ} (h : (act.outcome s).isOk = false) :
    ∃ e s', act s = .error e s' := by
  cases hact : act s with
  | ok a s' =>
    rw [outcome_of_ok hact] at h
    exact absurd h (by simp [Except.isOk, Except.toBool])
  | error e s' => exact ⟨e, s', rfl⟩

/-- Runs that end in the same way. -/
theorem final_outcome_congr {act act' : Action σ α} {s s' : σ} (h : act s = act' s') :
    act.final s = act'.final s' ∧ act.outcome s = act'.outcome s' := by
  rw [final, final, outcome, outcome, h]
  exact ⟨rfl, rfl⟩

theorem final_get_bind (f : σ → Action σ β) (s : σ) : (get >>= f).final s = (f s).final s := rfl

/-- An operation keeps a property of the state, whether it fails or not. -/
def Keeps (P : σ → Prop) (act : Action σ α) : Prop := ∀ s, P s → P (act.final s)

variable {P : σ → Prop}

theorem Keeps.of_ok {act : Action σ α} (hact : Keeps P act) {s s' : σ} {a : α} (hs : P s)
    (h : act s = .ok a s') : P s' :=
  final_of_ok h ▸ hact s hs

theorem keeps_pure (a : α) : Keeps P (pure a : Action σ α) := fun _ hs => hs

theorem Keeps.bind {act : Action σ α} {f : α → Action σ β} (hact : Keeps P act)
    (hf : ∀ a, Keeps P (f a)) : Keeps P (act >>= f) := by
  intro s hs
  have hkept := hact s hs
  cases h : act s with
  | ok a s' =>
    rw [final_of_ok h] at hkept
    rw [final, bind_of_ok h]
    exact hf a s' hkept
  | error e s' =>
    rw [final_of_error h] at hkept
    rw [final_of_error (bind_of_error h f)]
    exact hkept

theorem final_discard (act : Action σ α) (s : σ) : (discard act).final s = act.final s := by
  have hmap : discard act s = EStateM.map (fun _ => ()) act s := rfl
  rw [final, hmap, EStateM.map, final]
  cases act s <;> rfl

/-- Operations on the members of a list, up to the first that fails. -/
theorem keeps_forM {f : α → Action σ Unit} {l : List α} (hf : ∀ x ∈ l, Keeps P (f x)) :
    Keeps P (l.forM f : Action σ Unit) := by
  induction l with
  | nil => exact keeps_pure ()
  | cons x rest ih =>
    have hx := hf x List.mem_cons_self
    have hrest := ih fun y hy => hf y (List.mem_cons_of_mem _ hy)
    show Keeps P (f x >>= fun _ => rest.forM f)
    exact hx.bind fun _ => hrest

theorem keeps_discard {act : Action σ α} (hact : Keeps P act) : Keeps P (discard act) := by
  intro s hs
  rw [final_discard]
  exact hact s hs

theorem ends_discard {act : Action σ α} {s : σ} {E Q : σ → Prop}
    (h : act.Ends s E fun _ => Q) : (discard act).Ends s E fun _ => Q := by
  have hmap : discard act s = EStateM.map (fun _ => ()) act s := rfl
  rw [Ends, hmap, EStateM.map]
  rw [Ends] at h
  cases hrun : act s <;> simpa only [hrun] using h

theorem keeps_get : Keeps P (get : Action σ σ) := fun _ hs => hs

theorem ends_of_final {act : Action σ α} {s : σ} (h : P (act.final s)) :
    act.Ends s P fun _ => P := by
  cases hrun : act s with
  | ok a s' => exact ends_of_ok hrun (by rwa [final_of_ok hrun] at h)
  | error e s' => exact ends_of_error hrun (by rwa [final_of_error hrun] at h)

theorem Keeps.ends {act : Action σ α} (hact : Keeps P act) {s : σ} (hs : P s) :
    act.Ends s P fun _ => P :=
  ends_of_final (hact s hs)

theorem Ends.final {act : Action σ α} {s : σ} (hends : act.Ends s P fun _ => P) :
    P (act.final s) := by
  cases h : act s with
  | ok a s' => rw [final_of_ok h]; exact hends.of_ok h
  | error e s' => rw [final_of_error h]; exact hends.of_error h

theorem keeps_of_ends {act : Action σ α} (hact : ∀ s, P s → act.Ends s P fun _ => P) :
    Keeps P act := fun s hs => (hact s hs).final

end Action

end GenerationalHeap
