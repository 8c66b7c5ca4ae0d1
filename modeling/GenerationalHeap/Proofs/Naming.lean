/-
What handles promise.

* `Roster.Answers`, `Roster.Enters` — the calls on handles answer by what the handles stand for,
  and they alone say what that is.
* `Roster.handles_follow_objects` — so it is along every run: a root handle follows the object that
  was last stored under it, a weak one the object that it was made for until that is reclaimed,
  and no handle that was released comes back.

It is followed by an instance, about a weak handle whose object has given its address to another
one: `Roster.reused`.
-/
import GenerationalHeap.Proofs.Roster

namespace GenerationalHeap

namespace Roster

open Relation (ReflTransGen)

variable {κ : Type} {config : Config} {types : TypeRegistry} {v v' : Roster κ}

/-- Handles are answered by what they stand for. -/
structure Answers (v : Roster κ) : Prop where
  /-- The object of a root handle is still in the heap. -/
  root : ∀ id o, v.held id = .names o → ∃ a ∈ v.collector.heap.objects, v.place o = some a ∧
    Collector.root id v.collector = .ok a v.collector
  noRoot : ∀ id, (∀ o, v.held id ≠ .names o) →
    Collector.root id v.collector = .error (.invalidHandle id) v.collector
  /-- The object of a weak handle may be nowhere. -/
  resolve : ∀ id o, v.watched id = .names o →
    Collector.resolve id v.collector = .ok (v.place o) v.collector
  noWeak : ∀ id, (∀ o, v.watched id ≠ .names o) →
    Collector.resolve id v.collector = .error (.invalidHandle id) v.collector

/-- Calls that succeed say what handles stand for. -/
structure Enters (v : Roster κ) : Prop where
  addRoot : ∀ a id c, Collector.addRoot a v.collector = .ok id c →
    v.place (v.number a) = some a ∧ (after (.addRoot a) v).held id = .names (v.number a)
  setRoot : ∀ id a c, Collector.setRoot id a v.collector = .ok () c →
    v.place (v.number a) = some a ∧ (after (.setRoot id a) v).held id = .names (v.number a)
  removeRoot : ∀ id c, Collector.removeRoot id v.collector = .ok () c →
    (after (.removeRoot id) v).held id = .released
  otherRoot : ∀ k : Call κ, k.onRoots = false → (after k v).held = v.held
  createWeak : ∀ a id c, Collector.createWeak a v.collector = .ok id c →
    v.place (v.number a) = some a ∧ (after (.createWeak a) v).watched id = .names (v.number a)
  freeWeak : ∀ id c, Collector.freeWeak id v.collector = .ok () c →
    (after (.freeWeak id) v).watched id = .released
  otherWeak : ∀ k : Call κ, k.onWeak = false → (after k v).watched = v.watched

theorem get_of_some {α : Type} {t : HandleTable α} {id : Nat} {x : α} (h : t.get? id = some x) :
    t.get id = .ok x := by
  rw [HandleTable.get, h]

theorem get_of_none {α : Type} {t : HandleTable α} {id : Nat} (h : t.get? id = none) :
    t.get id = .error (.invalidHandle id) := by
  rw [HandleTable.get, h]

theorem Faithful.answers (hv : v.Faithful) : v.Answers where
  root id o hid := by
    obtain ⟨a, hget, hplace⟩ := Option.map_eq_some_iff.1 (hv.roots.look_of_names hid)
    exact ⟨a, hv.chronicle.mem hplace.symm, hplace.symm, Collector.ask_of_ok (get_of_some hget)⟩
  noRoot id hid :=
    Collector.ask_of_error
      (get_of_none (Option.map_eq_none_iff.1 (hv.roots.look_eq_none_iff.2 hid)))
  resolve id o hid := Collector.ask_of_ok (get_of_some (hv.weak.look_of_names hid))
  noWeak id hid := Collector.ask_of_error (get_of_none (hv.weak.look_eq_none_iff.2 hid))

theorem Faithful.enters (hv : v.Faithful) : v.Enters where
  addRoot a id c hrun := by
    rcases hv.steady.addRoot_cases a with ⟨e, hfail⟩ | ⟨ha, -⟩
    · exact absurd (hfail.symm.trans hrun) (by simp)
    · refine ⟨(hv.number_lt ha).2, ?_⟩
      show told (Collector.addRoot a) v.collector v.held _ id = _
      rw [told_of_ok hrun, Function.update_self]
  setRoot id a c hrun := by
    rcases hv.steady.setRoot_cases id a with ⟨e, hfail⟩ | ⟨ha, -⟩
    · exact absurd (hfail.symm.trans hrun) (by simp)
    · refine ⟨(hv.number_lt ha).2, ?_⟩
      show told (Collector.setRoot id a) v.collector v.held _ id = _
      rw [told_of_ok hrun, Function.update_self]
  removeRoot id c hrun := by
    show told (Collector.removeRoot id) v.collector v.held _ id = _
    rw [told_of_ok hrun, Function.update_self]
  otherRoot k hk := by
    cases k with
    | addRoot | setRoot | removeRoot => exact absurd hk (by simp [Call.onRoots])
    | createWeak | freeWeak => rfl
    | _ => exact (hv.kept_after rfl rfl).held
  createWeak a id c hrun := by
    rcases hv.steady.createWeak_cases a with ⟨e, hfail⟩ | ⟨ha, -⟩
    · exact absurd (hfail.symm.trans hrun) (by simp)
    · refine ⟨(hv.number_lt ha).2, ?_⟩
      show told (Collector.createWeak a) v.collector v.watched _ id = _
      rw [told_of_ok hrun, Function.update_self]
  freeWeak id c hrun := by
    show told (Collector.freeWeak id) v.collector v.watched _ id = _
    rw [told_of_ok hrun, Function.update_self]
  otherWeak k hk := by
    cases k with
    | createWeak | freeWeak => exact absurd hk (by simp [Call.onWeak])
    | addRoot | setRoot | removeRoot => rfl
    | _ => exact (hv.kept_after rfl rfl).watched

/-! ### Runs -/

/-- Every run has a roster. Along it, a root handle leads to the object that was last stored under
it, which is in the heap, and a weak handle to the object that it was made for, wherever that is,
and nowhere from the collection on that reclaims it. A handle that was released is invalid for
ever. The collections, those that an allocation starts among them, take the numbers of the objects
along to where they move them, and their reports count the weak handles whose objects they
reclaim. -/
theorem handles_follow_objects (κ : Type) (config : Config) (types : TypeRegistry) :
    (∀ w : Chronicle κ, Chronicle.Recorded config types w →
      ∃ v, Recorded config types v ∧ v.chronicle = w) ∧
    ∀ v : Roster κ, Recorded config types v →
      v.chronicle.Located ∧ v.Answers ∧ v.Enters ∧
      (∀ v', ReflTransGen Step v v' → v'.Answers ∧
        (∀ id o, v.held id = .names o → (∃ p, v'.held id = .names p) ∨ v'.held id = .released) ∧
        (∀ id, v.held id = .released → v'.held id = .released ∧
          Collector.root id v'.collector = .error (.invalidHandle id) v'.collector) ∧
        (∀ id o, v.watched id = .names o → v'.watched id = .names o ∨ v'.watched id = .released) ∧
        (∀ id o, v.watched id = .names o → v.place o = none → v'.watched id = .names o →
          Collector.resolve id v'.collector = .ok none v'.collector) ∧
        ∀ id, v.watched id = .released → v'.watched id = .released ∧
          Collector.resolve id v'.collector = .error (.invalidHandle id) v'.collector) ∧
      (∀ e ∈ v.turnovers, e.Faithful) ∧
      ∀ target reason report c, Collector.collectFor target reason v.collector = .ok report c →
        ∃ w, w.collector = c ∧ after (.collect target reason) v =
          { v with
            chronicle := w
            turnovers := ⟨target, report, v.watched, v.chronicle, w⟩ :: v.turnovers } := by
  refine ⟨fun w hw => exists_recorded hw, ?_⟩
  intro v h
  have hv := h.faithful
  refine ⟨hv.chronicle.toLocated, hv.answers, hv.enters, ?_, hv.turnovers, ?_⟩
  · intro v' hsteps
    obtain ⟨h', honward⟩ := h.onward hsteps
    have hanswers := h'.faithful.answers
    refine ⟨hanswers, ?_, ?_, ?_, ?_, ?_⟩
    · -- the standing of a handle only rises
      exact fun id o hid => Standing.names_or_released (honward.held id) hid
    · intro id hid
      have hgone := Standing.eq_released (honward.held id) hid
      exact ⟨hgone, hanswers.noRoot id fun o ho => by simp [hgone] at ho⟩
    · -- other than a root handle, a weak one is never given another object
      intro id o hid
      refine (Standing.names_or_released (honward.watched id) hid).imp_left ?_
      rintro ⟨p, hp⟩
      rw [hp, honward.same id o p hid hp]
    · -- who has been reclaimed never has a place again
      intro id o hid hplace hid'
      rw [hanswers.resolve id o hid', honward.reclaimed o (hv.weak.known id o hid) hplace]
    · intro id hid
      have hgone := Standing.eq_released (honward.watched id) hid
      exact ⟨hgone, hanswers.noWeak id fun o ho => by simp [hgone] at ho⟩
  · intro target reason report c hrun
    show ∃ w : Chronicle κ, w.collector = c ∧ (Roster.collectFor target reason).final v = _
    rw [Action.final, Roster.collectFor, Chronicle.collectFor,
      show Collector.collectFor target reason v.chronicle.collector = .ok report c from hrun]
    exact ⟨_, rfl, rfl⟩

/-- An object with a weak handle was reclaimed, and another one with a root handle was put in its
place. -/
def reused : Roster Unit :=
  [.allocate ⟨0⟩ 16 false, .createWeak Collector.young, .collect .gen0 .explicit,
    .allocate ⟨0⟩ 16 false, .addRoot Collector.young].foldl (fun v k => after k v)
    { chronicle :=
        { collector :=
            { config := {}
              heap := .empty (256 * 1024) (256 * 1024 * 1024)
              log := { config := Collector.logConfig {} }
              host := ⟨#[.array "row"]⟩ } } }

theorem recorded_reused : Recorded {} ⟨#[.array "row"]⟩ reused :=
  (Recorded.start .checked rfl).calls _

/-- The root handle leads to the new object, and the weak one no longer to the same address, as
the report of the collection has told. -/
theorem handles_of_reused :
    reused.place 0 = none ∧ reused.place 1 = some Collector.young ∧
    Collector.root 1 reused.collector = .ok Collector.young reused.collector ∧
    Collector.resolve 1 reused.collector = .ok none reused.collector ∧
    (∀ e ∈ reused.turnovers, e.Faithful) ∧
    reused.turnovers.map (fun e => e.report.weakCleared) = [1] := by
  have hgone : reused.place 0 = none := by decide +kernel
  have hnew : reused.place 1 = some Collector.young := by decide +kernel
  have hheld : reused.held 1 = .names 1 := by decide +kernel
  have hwatched : reused.watched 1 = .names 0 := by decide +kernel
  obtain ⟨-, hroster⟩ := handles_follow_objects Unit {} ⟨#[.array "row"]⟩
  obtain ⟨-, hanswers, -, -, hturnovers, -⟩ := hroster _ recorded_reused
  obtain ⟨a, -, ha, hroot⟩ := hanswers.root 1 1 hheld
  obtain rfl : Collector.young = a := Option.some.inj (hnew.symm.trans ha)
  have hresolve := hanswers.resolve 1 0 hwatched
  rw [hgone] at hresolve
  exact ⟨hgone, hnew, hroot, hresolve, hturnovers, by decide +kernel⟩

end Roster

end GenerationalHeap
