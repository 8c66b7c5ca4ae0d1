/-
Start maps as finite sets of offsets.

A map packs its offsets into bits, and the bits into bytes. Seen from outside it is a set: what
was recorded stays recorded until it is dropped, and nothing else ever gets in.

* `StartMap.Change`, `StartMap.ofHistory` — the changes of a map, and the map after some of them.
* `StartMap.extent` — the offsets that a map covers, in whole groups.
* `StartMap.Recorded` — that an offset was recorded and not dropped since;
  `StartMap.recorded_concat_iff` — what one more change makes of that.
* `StartMap.isSet_ofHistory`, `StartMap.exists_finset` — the members of a map, and their number.
* `StartMap.holds_recorded` — a map holds exactly what was recorded in it.
-/
import GenerationalHeap.Proofs.StartCount

namespace GenerationalHeap

namespace StartMap

/-! ### Changes -/

/-- A change of a map. -/
inductive Change where
  | set (x : Nat)
  | clearFrom (x : Nat)
  | cover (capacity : Nat)

/-- A change of a map, at an aligned offset. -/
def Change.Aligned : Change → Prop
  | .set x | .clearFrom x => x % alignment = 0
  | .cover _ => True

instance : DecidablePred Change.Aligned
  | .set x | .clearFrom x => inferInstanceAs (Decidable (x % alignment = 0))
  | .cover _ => inferInstanceAs (Decidable True)

/-- Makes a change. -/
def apply (m : StartMap) : Change → StartMap
  | .set x => m.set x
  | .clearFrom x => m.clearFrom x
  | .cover capacity => m.cover capacity

/-- The map for a capacity, after some changes. -/
def ofHistory (capacity : Nat) (history : List Change) : StartMap :=
  history.foldl apply (.empty capacity)

/-- The largest capacity that was asked for. -/
def largest (capacity : Nat) (history : List Change) : Nat :=
  history.foldl (fun most k => match k with | .cover n => max most n | _ => most) capacity

/-- The end of the offsets that are covered: the largest capacity, rounded up to whole groups of
64 aligned offsets. -/
def extent (capacity : Nat) (history : List Change) : Nat :=
  (largest capacity history + 511) / 512 * 512

/-- An offset was recorded while it was covered, and neither it nor a range from below it was
dropped since. -/
def Recorded (capacity : Nat) (history : List Change) (x : Nat) : Prop :=
  ∃ before after, history = before ++ .set x :: after ∧ x < extent capacity before ∧
    ∀ y, .clearFrom y ∈ after → x < y

variable {capacity : Nat} {history : List Change} {x y : Nat}

theorem ofHistory_concat (capacity : Nat) (history : List Change) (k : Change) :
    ofHistory capacity (history ++ [k]) = (ofHistory capacity history).apply k :=
  List.foldl_concat ..

theorem largest_concat (capacity : Nat) (history : List Change) (k : Change) :
    largest capacity (history ++ [k]) =
      match k with
      | .cover n => max (largest capacity history) n
      | _ => largest capacity history :=
  List.foldl_concat ..

/-! ### The range that is covered -/

theorem groupsFor_eq (n : Nat) : groupsFor n = (n + 511) / 512 := by
  unfold groupsFor alignment groupSize
  omega

theorem groupsFor_max (n k : Nat) : groupsFor (max n k) = max (groupsFor n) (groupsFor k) := by
  rw [groupsFor_eq, groupsFor_eq, groupsFor_eq]
  omega

/-- A map covers what the largest capacity needs. -/
theorem covered_ofHistory (capacity : Nat) (history : List Change) :
    (ofHistory capacity history).covered = groupsFor (largest capacity history) := by
  induction history using List.reverseRecOn with
  | nil => rfl
  | append_singleton history k ih =>
    rw [ofHistory_concat, largest_concat]
    cases k with
    | cover n =>
      dsimp only
      rw [groupsFor_max, ← ih]
      rfl
    | clearFrom y => exact ih
    | set y =>
      rw [← ih, apply, set]
      split <;> rfl

theorem lt_extent_iff :
    x < extent capacity history ↔
      index x / groupSize < (ofHistory capacity history).covered := by
  rw [covered_ofHistory, groupsFor_eq, extent]
  unfold index alignment groupSize
  omega

theorem largest_le_extent (capacity : Nat) (history : List Change) :
    largest capacity history ≤ extent capacity history := by
  unfold extent
  omega

/-! ### One more change -/

/-- A change at the end of a history is the recording of an offset, or comes after it. -/
theorem recorded_concat_iff {k : Change} :
    Recorded capacity (history ++ [k]) x ↔
      k = .set x ∧ x < extent capacity history ∨
      Recorded capacity history x ∧ ∀ y, k = .clearFrom y → x < y := by
  constructor
  · rintro ⟨before, after, hsplit, hx, hkept⟩
    rcases List.eq_nil_or_concat after with rfl | ⟨front, last, rfl⟩
    · obtain ⟨rfl, hk⟩ := List.append_inj' hsplit rfl
      exact Or.inl ⟨List.singleton_inj.1 hk, hx⟩
    · rw [List.concat_eq_append, ← List.cons_append, ← List.append_assoc] at hsplit
      obtain ⟨rfl, hk⟩ := List.append_inj' hsplit rfl
      obtain rfl := List.singleton_inj.1 hk
      refine Or.inr ⟨⟨before, front, rfl, hx, ?_⟩, ?_⟩
      · exact fun y hy => hkept y (by rw [List.concat_eq_append]; exact List.mem_append_left _ hy)
      · rintro y rfl
        exact hkept y (by simp)
  · rintro (⟨rfl, hx⟩ | ⟨⟨before, after, rfl, hx, hkept⟩, hlast⟩)
    · exact ⟨history, [], rfl, hx, fun y hy => absurd hy List.not_mem_nil⟩
    · refine ⟨before, after ++ [k], by simp, hx, fun y hy => ?_⟩
      rcases List.mem_append.1 hy with hy | hy
      · exact hkept y hy
      · exact hlast y (List.mem_singleton.1 hy).symm

/-- What is aligned in a map was recorded in it. -/
theorem isSet_ofHistory (hal : ∀ k ∈ history, k.Aligned) (hx : x % alignment = 0) :
    (ofHistory capacity history).isSet x = true ↔ Recorded capacity history x := by
  induction history using List.reverseRecOn with
  | nil =>
    rw [ofHistory, List.foldl_nil, isSet_empty]
    refine iff_of_false Bool.false_ne_true ?_
    rintro ⟨before, after, hsplit, -⟩
    exact absurd hsplit (by simp)
  | append_singleton history k ih =>
    have hk := hal k (by simp)
    have hprev := ih fun k' hk' => hal k' (List.mem_append_left _ hk')
    rw [recorded_concat_iff, ofHistory_concat, ← hprev]
    cases k with
    | cover n =>
      rw [apply, isSet_cover]
      simp
    | clearFrom y =>
      rw [apply, isSet_clearFrom, Bool.and_eq_true, decide_eq_true_eq, index_lt_iff hx hk]
      simp
    | set y =>
      have hsame : index x = index y ↔ y = x :=
        ⟨fun h => (eq_of_index_eq hx hk h).symm, fun h => h ▸ rfl⟩
      rw [apply, isSet_set, Bool.or_eq_true, decide_eq_true_eq, ← lt_extent_iff, hsame]
      simp only [Change.set.injEq, reduceCtorEq, false_imp_iff, implies_true, and_true]
      -- only the offset itself is new
      constructor
      · rintro (hold | ⟨rfl, hlt⟩)
        · exact Or.inr hold
        · exact Or.inl ⟨rfl, hlt⟩
      · rintro (⟨rfl, hlt⟩ | hold)
        · exact Or.inr ⟨rfl, hlt⟩
        · exact Or.inl hold

/-! ### The number of members -/

/-- The offset of a bit. -/
def offsetAt (p : (Nat × Nat) × Nat) : Nat := ((p.1.1 * Pages.length + p.1.2) * 8 + p.2) * alignment

theorem offsetAt_mod (p : (Nat × Nat) × Nat) : offsetAt p % alignment = 0 := Nat.mul_mod_left _ _

theorem place_offsetAt {p : (Nat × Nat) × Nat} (hbyte : p.1.2 < Pages.length) (hbit : p.2 < 8) :
    place (offsetAt p) = p := by
  obtain ⟨⟨page, i⟩, bit⟩ := p
  have hpos : 0 < alignment := by decide
  have hindex : index (offsetAt ((page, i), bit)) = (page * Pages.length + i) * 8 + bit :=
    Nat.mul_div_cancel _ hpos
  dsimp only at hbyte hbit
  simp only [place, byteOf, hindex, Prod.mk.injEq]
  unfold Pages.length at *
  omega

theorem offsetAt_place (hx : x % alignment = 0) : offsetAt (place x) = x := by
  refine place_inj (offsetAt_mod _) hx (place_offsetAt ?_ ?_)
  · exact Nat.mod_lt _ (by decide)
  · exact Nat.mod_lt _ (by decide)

theorem bounds_of_mem_members {m : StartMap} {p : (Nat × Nat) × Nat} (hp : p ∈ m.members) :
    p.1.2 < Pages.length ∧ p.2 < 8 := by
  rw [members, Finset.mem_filter, Finset.mem_product, Finset.mem_product, Finset.mem_range,
    Finset.mem_range, Finset.mem_range] at hp
  exact ⟨hp.1.1.2, hp.1.2⟩

theorem place_mem_members_iff {m : StartMap} : place x ∈ m.members ↔ m.isSet x = true :=
  ⟨fun h => (Finset.mem_filter.1 h).2, place_mem_members⟩

/-- A map counts its aligned members. -/
theorem exists_finset (m : StartMap) :
    ∃ s : Finset Nat, (∀ x, x ∈ s ↔ x % alignment = 0 ∧ m.isSet x = true) ∧ m.count = s.card := by
  have hback : ∀ p ∈ m.members, place (offsetAt p) = p := fun p hp =>
    place_offsetAt (bounds_of_mem_members hp).1 (bounds_of_mem_members hp).2
  refine ⟨m.members.image offsetAt, fun x => ?_, ?_⟩
  · rw [Finset.mem_image]
    constructor
    · rintro ⟨p, hp, rfl⟩
      rw [← place_mem_members_iff, hback p hp]
      exact ⟨offsetAt_mod p, hp⟩
    · rintro ⟨hx, hset⟩
      exact ⟨place x, place_mem_members_iff.2 hset, offsetAt_place hx⟩
  · rw [Finset.card_image_of_injOn, card_members]
    intro p hp q hq hpq
    rw [← hback p hp, ← hback q hq]
    exact congrArg place hpq

/-! ### Maps as sets -/

/-- Whatever capacity is asked for is covered. -/
theorem le_extent {n : Nat} (hn : n = capacity ∨ .cover n ∈ history) :
    n ≤ extent capacity history := by
  suffices n ≤ largest capacity history from Nat.le_trans this (largest_le_extent _ _)
  induction history using List.reverseRecOn with
  | nil => exact Nat.le_of_eq (hn.resolve_right List.not_mem_nil)
  | append_singleton history k ih =>
    rw [largest_concat]
    rcases hn with rfl | hn
    · have hle := ih (Or.inl rfl)
      split
      · exact Nat.le_trans hle (Nat.le_max_left _ _)
      · exact hle
    · rcases List.mem_append.1 hn with hold | hnew
      · have hle := ih (Or.inr hold)
        split
        · exact Nat.le_trans hle (Nat.le_max_left _ _)
        · exact hle
      · rw [← List.mem_singleton.1 hnew]
        exact Nat.le_max_right _ _

/-- After any changes at aligned offsets, a map has exactly the members that were recorded in it
and not dropped since, and their number is its count. All capacities that were asked for are
covered, and covering one more changes no member. -/
theorem holds_recorded (capacity : Nat) {history : List Change} (hal : ∀ k ∈ history, k.Aligned) :
    (∀ x, x % alignment = 0 →
      ((ofHistory capacity history).isSet x = true ↔ Recorded capacity history x)) ∧
    (∃ s : Finset Nat, (∀ x, x ∈ s ↔ x % alignment = 0 ∧ Recorded capacity history x) ∧
      (ofHistory capacity history).count = s.card) ∧
    (∀ n, n = capacity ∨ .cover n ∈ history → n ≤ extent capacity history) ∧
    ∀ n, ((ofHistory capacity history).cover n).count = (ofHistory capacity history).count ∧
      ∀ x, ((ofHistory capacity history).cover n).isSet x =
        (ofHistory capacity history).isSet x := by
  refine ⟨fun x hx => isSet_ofHistory hal hx, ?_, fun _ hn => le_extent hn,
    fun n => ⟨rfl, fun x => isSet_cover _ n x⟩⟩
  obtain ⟨s, hs, hcard⟩ := exists_finset (ofHistory capacity history)
  exact ⟨s, fun x => (hs x).trans (and_congr_right fun hx => isSet_ofHistory hal hx), hcard⟩

/-- A capacity of 100 bytes covers offsets below 512. The one at 512 is out of reach until more is
covered, and the one at 504 is dropped with all from 8 on. -/
theorem holds_recorded_of_dropped :
    let history : List Change :=
      [.set 0, .set 504, .set 512, .clearFrom 8, .cover 520, .set 1016, .set 1024]
    (∀ k ∈ history, k.Aligned) ∧ Recorded 100 history 0 ∧ ¬Recorded 100 history 504 ∧
      ¬Recorded 100 history 512 ∧ Recorded 100 history 1016 ∧ ¬Recorded 100 history 1024 := by
  intro history
  have hal : ∀ k ∈ history, k.Aligned := by decide
  obtain ⟨hmem, -⟩ := holds_recorded 100 hal
  refine ⟨hal, ?_, ?_, ?_, ?_, ?_⟩
  · exact (hmem 0 rfl).1 (by decide +kernel)
  · exact fun hold => absurd ((hmem 504 rfl).2 hold) (by decide +kernel)
  · exact fun hold => absurd ((hmem 512 rfl).2 hold) (by decide +kernel)
  · exact (hmem 1016 rfl).1 (by decide +kernel)
  · exact fun hold => absurd ((hmem 1024 rfl).2 hold) (by decide +kernel)

end StartMap

end GenerationalHeap
