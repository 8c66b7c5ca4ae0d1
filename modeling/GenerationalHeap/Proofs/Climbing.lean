/-
The ladder of a small object, rung by rung.

Two things may keep a small object from its place, the heap limit and the room in the
nursery. Collections come first, the escalated one and then a full one, and the nursery
grows last. It grows only if the heap limit is not what is in the way, so the attempt
after it cannot fail.

* `Ladder.Fits` — the heap limit and the nursery both have room.
* `Ladder.climb` — the rungs above the first attempt, as one recursion.
* `Ladder.Climbed` — what can happen on the way up.
* `Ladder.Account` — what the calls and the outcome of an allocation say.
* `Ladder.allocate_small_account` — every allocation of a small object is such a one.
-/
import GenerationalHeap.Proofs.CallLog

namespace GenerationalHeap

namespace Ladder

variable {config : Config} {r : Request} {h h' : Heap}

/-! ### Room for a small object -/

/-- Neither the heap limit nor the nursery is in the way of an object. -/
def Fits (r : Request) (h : Heap) : Prop :=
  r.blockSize ≤ h.headroom ∧ r.blockSize ≤ (h.arena .gen0).remaining

theorem payloadSize_small (hclass : r.sizeClass = .small) (hle : r.blockSize ≤ spaceLimit) :
    r.header.payloadSize = r.payload := by
  rw [Request.blockSize, hclass] at hle
  exact payloadSize_header_of_le hle

theorem blockSize_small (hclass : r.sizeClass = .small) (hle : r.blockSize ≤ spaceLimit) :
    r.header.blockSize = r.blockSize := by
  rw [Request.blockSize, hclass]
  exact congrArg (headerSize + ·) (payloadSize_small hclass hle)

section Small

variable (hclass : r.sizeClass = .small) (hcheck : config.check = .ok ()) (hp : Proper config h)
include hclass hcheck hp

theorem place?_of_fits (hfits : Fits r h) :
    ∃ a h', r.place? h = .ok (some a) h' ∧
      (r.payload % alignment = 0 → Heap.Adds a r.header h h') := by
  obtain ⟨hroom, hnursery⟩ := hfits
  have hle := Nat.le_trans hroom (hp.headroom_le hcheck)
  have hsize := blockSize_small hclass hle
  have hpos : 0 < r.blockSize := hsize ▸ r.header.blockSize_pos
  have hplace : r.place? h =
      .ok (h.allocateSmall? r.header).1 (h.allocateSmall? r.header).2 := by
    rw [Request.place?, if_neg (Nat.not_lt.2 hroom)]
    simp only [hclass]
  -- the request fits above the top of the nursery, so the bump succeeds
  have hbump : (h.arena .gen0).top + r.header.blockSize ≤ (h.arena .gen0).capacity := by
    rw [hsize]
    unfold Arena.remaining at hnursery
    omega
  have hsome : (h.allocateSmall? r.header).1 =
      some ((Space.arena .gen0).address (h.arena .gen0).top) := by
    obtain ⟨⟨nursery, gen1, gen2⟩, large, maxSize⟩ := h
    rw [Heap.allocateSmall?]
    simp only [Arena.bump?_of_room (a := nursery) hbump]
    rfl
  rw [hsome] at hplace
  refine ⟨_, _, hplace, fun hmod => ?_⟩
  have hmod' : r.header.payloadSize % alignment = 0 := by
    rw [payloadSize_small hclass hle, hmod]
  have hspace := Request.space_header_of_small hclass
  rcases Heap.allocateSmall?_spec hp.wellFormed hmod' hspace with hfull | ⟨a, h', hrun, ha, -⟩
  · rw [hfull] at hsome
    exact absurd hsome (by simp)
  · rw [hrun] at hsome ⊢
    exact Option.some.inj hsome ▸ ha

theorem place?_of_not_fits (hno : ¬Fits r h) : r.place? h = .ok none h := by
  by_cases hroom : r.blockSize > h.headroom
  · rw [Request.place?, if_pos hroom]
  · have hle := Nat.le_trans (Nat.not_lt.1 hroom) (hp.headroom_le hcheck)
    have hsize := blockSize_small hclass hle
    have hpos : 0 < r.blockSize := hsize ▸ r.header.blockSize_pos
    have hbump : ¬(h.arena .gen0).top + r.header.blockSize ≤ (h.arena .gen0).capacity := by
      intro hbump
      refine hno ⟨Nat.not_lt.1 hroom, ?_⟩
      unfold Arena.remaining
      omega
    rw [Request.place?, if_neg hroom]
    simp only [hclass]
    obtain ⟨⟨nursery, gen1, gen2⟩, large, maxSize⟩ := h
    rw [Heap.allocateSmall?]
    simp only [Arena.bump?, show ¬nursery.top + r.header.blockSize ≤ nursery.capacity from hbump,
      if_false]

theorem place?_ne_error {e : Error} {h' : Heap} : r.place? h ≠ .error e h' := by
  by_cases hfits : Fits r h
  · obtain ⟨a, h'', hrun, -⟩ := place?_of_fits hclass hcheck hp hfits
    rw [hrun]
    exact fun herror => absurd herror (by simp)
  · rw [place?_of_not_fits hclass hcheck hp hfits]
    exact fun herror => absurd herror (by simp)

/-- An attempt that finds no room changes nothing. -/
theorem eq_of_place?_none {h' : Heap} (hnone : r.place? h = .ok none h') : h' = h ∧ ¬Fits r h := by
  by_cases hfits : Fits r h
  · obtain ⟨a, h'', hrun, -⟩ := place?_of_fits hclass hcheck hp hfits
    exact absurd (hnone.symm.trans hrun) (by simp)
  · obtain ⟨-, rfl⟩ := EStateM.Result.ok.injEq .. ▸
      hnone.symm.trans (place?_of_not_fits hclass hcheck hp hfits)
    exact ⟨rfl, hfits⟩

/-- The nursery grows if the heap limit allows, and then the object fits. -/
theorem growNursery_spec (hroom : r.blockSize ≤ h.headroom) :
    ∃ h', Heap.growNursery r.blockSize h =
        .ok ((h.arena .gen0).capacity, (h'.arena .gen0).capacity) h' ∧
      Proper config h' ∧ Fits r h' ∧ Heap.Relabels (fun _ x => x) h h' ∧
      (h.arena .gen0).top + r.blockSize ≤ (h'.arena .gen0).capacity := by
  have hmax := (Config.le_of_check hcheck).2
  have hle := hp.headroom_le hcheck
  have hsize := blockSize_small hclass (Nat.le_trans hroom hle)
  have hpos : 0 < r.blockSize := hsize ▸ r.header.blockSize_pos
  -- what is in use fits below the limit, so the arena may grow that far
  have hneeded : (h.arena .gen0).used + r.blockSize ≤ spaceLimit := by
    have hused := Plan.usedBytes_eq h
    have hp' := hp.maxSize
    unfold Heap.headroom at hroom
    unfold Arena.used
    omega
  obtain ⟨h', hrun, hr, hcapacity⟩ := Heap.ensureArena_spec (g := .gen0) hp.wellFormed hneeded
  have hl := hr.layout
  refine ⟨h', ?_, ⟨hl.wellFormed hp.wellFormed, hl.maxSize.trans hp.maxSize⟩, ⟨?_, ?_⟩, hr,
    hcapacity⟩
  · rw [Heap.growNursery, Action.get_bind, Action.bind_of_ok hrun]
    rfl
  · rw [Heap.headroom, hl.maxSize, hl.usedBytes]
    exact hroom
  · have htop := hl.top .gen0
    unfold Arena.used at hcapacity
    unfold Arena.remaining
    omega

end Small

/-! ### The rungs -/

/-- The rungs above the first attempt: some collections, each followed by an attempt, and
then the growth of the nursery. -/
def climb {σ : Type} [HoldsHeap σ] (o : Owner σ) (r : Request) :
    List (Target × Reason) → Action σ Address
  | [] => growAndPlace o r
  | (target, reason) :: rest => do
    o.collect target reason
    r.placeOr (climb o r rest)

/-- The collections of a small object, by the first of them. -/
def collections (r : Request) (first : Target) : List (Target × Reason) :=
  (first, .nurseryFull r.blockSize) ::
    if first = .full then [] else [(.full, .allocationFailure r.blockSize)]

theorem allocateSmall_eq_climb {σ : Type} [HoldsHeap σ] (o : Owner σ) (r : Request)
    (config : Config) :
    allocateSmall o r config = r.placeOr
      (get >>= fun s => climb o r (collections r (escalate config (HoldsHeap.heap s)))) := by
  rw [allocateSmall]
  congr 1
  funext s
  rw [Action.get_bind, Action.get_bind]
  by_cases hfull : escalate config (HoldsHeap.heap s) = .full
  · simp only [hfull, if_true, collections, climb]
  · simp only [hfull, if_false, collections, climb]

/-- What can happen above the first attempt: the calls, the outcome and the heap that is left
behind, by the collections that are still to come and the heap before. -/
inductive Climbed (config : Config) (r : Request) :
    List Target → Heap → List Entry → Except Error Address → Heap → Prop
  | failed {target : Target} {rest : List Target} {h h' : Heap} {e : Error} :
      Climbed config r (target :: rest) h [⟨.collect target, h', some e⟩] (.error e) h'
  | placed {target : Target} {rest : List Target} {h h' h'' : Heap} {a : Address} :
      Proper config h' → r.place? h' = .ok (some a) h'' →
      Climbed config r (target :: rest) h [⟨.collect target, h', none⟩] (.ok a) h''
  | higher {target : Target} {rest : List Target} {h h' h'' : Heap} {entries : List Entry}
      {outcome : Except Error Address} :
      Proper config h' → r.place? h' = .ok none h' →
      Climbed config r rest h' entries outcome h'' →
      Climbed config r (target :: rest) h (⟨.collect target, h', none⟩ :: entries) outcome h''
  | gaveUp {h : Heap} : h.headroom < r.blockSize →
      Climbed config r [] h [] (.error (.outOfMemory r.blockSize h.headroom)) h
  | grown {h h' h'' : Heap} {old new : Nat} {a : Address} : r.blockSize ≤ h.headroom →
      Proper config h' → Heap.growNursery r.blockSize h = .ok (old, new) h' →
      r.place? h' = .ok (some a) h'' →
      Climbed config r [] h [⟨.grown old new, h', none⟩] (.ok a) h''

section Run

variable {σ : Type} [HoldsHeap σ] {o : Owner σ} (ho : Lawful o config)
  (hclass : r.sizeClass = .small) (hcheck : config.check = .ok ())
include ho hclass hcheck

theorem climbed_growAndPlace {s : Logged σ} (hs : Proper config (HoldsHeap.heap s)) :
    Appends (growAndPlace (logged o) r) s (Climbed config r [] (HoldsHeap.heap s)) := by
  by_cases hroom : r.blockSize ≤ (HoldsHeap.heap s).headroom
  · obtain ⟨h', hgrow, hp, hfits, -⟩ := growNursery_spec hclass hcheck hs hroom
    obtain ⟨s₁, hrun₁, rfl, hlog₁⟩ := ho.onHeap_ok hgrow
    have hrun : growAndPlace (logged o) r s =
        (modify ((logged o).nurseryGrown ((HoldsHeap.heap s).arena .gen0).capacity
          ((HoldsHeap.heap s₁).arena .gen0).capacity) >>= fun _ => r.placeOr r.giveUp) s₁ := by
      rw [growAndPlace, Action.get_bind]
      simp only [hroom, if_true]
      exact Action.bind_of_ok hrun₁ _
    refine Appends.of_eq hrun (hlog₁.trans (List.append_nil _).symm) (ho.appends_grown _ _ ?_)
    intro s₂ hheap
    rw [← hheap] at hp hgrow hfits ⊢
    -- the object fits now, so this attempt cannot fail
    refine ho.appends_placeOr ?_ ?_ ?_
    · intro a h hplace
      exact .grown hroom hp hgrow hplace
    · intro e h herror
      exact absurd herror (place?_ne_error hclass hcheck hp)
    · intro s₃ hnone
      exact absurd hfits (eq_of_place?_none hclass hcheck hp hnone).2
  · have hrun : growAndPlace (logged o) r s =
        .error (.outOfMemory r.blockSize (HoldsHeap.heap s).headroom) s := by
      rw [growAndPlace, Action.get_bind]
      simp only [hroom, if_false]
      rfl
    exact appends_of_error hrun rfl (.gaveUp (Nat.not_le.1 hroom))

theorem climbed_climb (rungs : List (Target × Reason)) {s : Logged σ}
    (hs : Proper config (HoldsHeap.heap s)) :
    Appends (climb (logged o) r rungs) s
      (Climbed config r (rungs.map (·.1)) (HoldsHeap.heap s)) := by
  -- a collection leaves a proper heap behind, and an attempt without room leaves it alone
  induction rungs generalizing s with
  | nil => exact climbed_growAndPlace ho hclass hcheck hs
  | cons rung rest ih =>
    refine ho.appends_collect hs _ _ (fun _ _ => .failed) ?_
    intro s₁ hs₁
    refine ho.appends_placeOr ?_ ?_ ?_
    · intro a h hplace
      exact .placed hs₁ hplace
    · intro e h herror
      exact absurd herror (place?_ne_error hclass hcheck hs₁)
    · intro s₂ hnone
      have hsame := (eq_of_place?_none hclass hcheck hs₁ hnone).1
      rw [hsame] at hnone
      exact (hsame ▸ ih (hsame.symm ▸ hs₁)).imp fun _ _ _ hclimbed => .higher hs₁ hnone hclimbed

end Run

/-! ### What the calls tell -/

namespace Climbed

variable {targets : List Target} {entries : List Entry} {outcome : Except Error Address}
  {after : Heap} {old new : Nat}

/-- The calls come in the order of the rungs, and some of the last ones may be missing. -/
theorem calls (hc : Climbed config r targets h entries outcome after) :
    ∃ old new, entries.map (·.call) <+: targets.map Call.collect ++ [.grown old new] := by
  induction hc with
  | failed => exact ⟨0, 0, List.cons_prefix_cons.2 ⟨rfl, List.nil_prefix⟩⟩
  | placed => exact ⟨0, 0, List.cons_prefix_cons.2 ⟨rfl, List.nil_prefix⟩⟩
  | higher _ _ _ ih =>
    obtain ⟨old, new, hprefix⟩ := ih
    exact ⟨old, new, List.cons_prefix_cons.2 ⟨rfl, hprefix⟩⟩
  | gaveUp => exact ⟨0, 0, List.nil_prefix⟩
  | @grown _ _ _ old new => exact ⟨old, new, List.prefix_refl _⟩

theorem attempted (hc : Climbed config r targets h entries outcome after)
    (hnone : r.place? h = .ok none h) : Attempted r h entries := by
  induction hc with
  | failed => exact ⟨hnone, trivial⟩
  | placed => exact ⟨hnone, trivial⟩
  | higher _ hnone' _ ih => exact ⟨hnone, ih hnone'⟩
  | gaveUp => trivial
  | grown => exact ⟨hnone, trivial⟩

theorem failsLast (hc : Climbed config r targets h entries outcome after) :
    FailsLast entries outcome := by
  induction hc with
  | failed => exact failsLast_failed
  | placed => exact failsLast_cons failsLast_nil
  | higher _ _ _ ih => exact failsLast_cons ih
  | gaveUp => exact failsLast_nil
  | grown => exact failsLast_cons failsLast_nil

/-- What becomes of an allocation if no call fails, by the heap after the last collection. -/
structure Ended (r : Request) (targets : List Target) (h : Heap) (entries : List Entry)
    (outcome : Except Error Address) (after : Heap) : Prop where
  exhausted : (collectedHeap h entries).headroom < r.blockSize →
    outcome = .error (.outOfMemory r.blockSize (collectedHeap h entries).headroom) ∧
      entries.map (·.call) = targets.map Call.collect ∧ after = collectedHeap h entries
  placed : r.blockSize ≤ (collectedHeap h entries).headroom →
    ∃ a, outcome = .ok a ∧
      (r.payload % alignment = 0 → Heap.Adds a r.header (lastHeap h entries) after)
  grown_iff : (∃ old new, .grown old new ∈ entries.map (·.call)) ↔
    targets.map Call.collect <+: entries.map (·.call) ∧
      r.blockSize ≤ (collectedHeap h entries).headroom ∧
      ((collectedHeap h entries).arena .gen0).remaining < r.blockSize
  grown : ∀ old new, .grown old new ∈ entries.map (·.call) →
    old = ((collectedHeap h entries).arena .gen0).capacity ∧
      new = ((lastHeap h entries).arena .gen0).capacity ∧ old < new ∧
      Heap.Relabels (fun _ x => x) (collectedHeap h entries) (lastHeap h entries)

/-- Memory is exhausted if the heap limit is in the way after the last collection. -/
theorem Ended.exhausted_iff (he : Ended r targets h entries outcome after) :
    (∃ n m, outcome = .error (.outOfMemory n m)) ↔
      (collectedHeap h entries).headroom < r.blockSize := by
  constructor
  · rintro ⟨n, m, herror⟩
    by_contra hle
    obtain ⟨a, hok, -⟩ := he.placed (Nat.not_lt.1 hle)
    exact absurd (herror.symm.trans hok) (by simp)
  · intro hless
    exact ⟨_, _, (he.exhausted hless).1⟩

/-- Then all collections have been made, the first one among them. -/
theorem Ended.collected {first : Target} (he : Ended r (first :: targets) h entries outcome after)
    (hless : (collectedHeap h entries).headroom < r.blockSize) :
    .collect first ∈ entries.map (·.call) := by
  rw [(he.exhausted hless).2.1]
  exact List.mem_cons_self

/-- An attempt that places the object finds room. -/
theorem fits_of_place? {a : Address} (hclass : r.sizeClass = .small)
    (hcheck : config.check = .ok ()) (hp : Proper config h)
    (hplace : r.place? h = .ok (some a) h') :
    Fits r h ∧ (r.payload % alignment = 0 → Heap.Adds a r.header h h') := by
  by_cases hfits : Fits r h
  · obtain ⟨b, h'', hrun, hadds⟩ := place?_of_fits hclass hcheck hp hfits
    obtain ⟨hab, rfl⟩ := EStateM.Result.ok.injEq .. ▸ hplace.symm.trans hrun
    exact ⟨hfits, Option.some.inj hab ▸ hadds⟩
  · exact absurd (hplace.symm.trans (place?_of_not_fits hclass hcheck hp hfits)) (by simp)

theorem ended (hclass : r.sizeClass = .small) (hcheck : config.check = .ok ())
    (hc : Climbed config r targets h entries outcome after) (hp : Proper config h)
    (hnone : r.place? h = .ok none h) (hclean : NoFailure entries) :
    Ended r targets h entries outcome after := by
  induction hc with
  | failed => exact absurd hclean not_noFailure_failed
  | @placed target rest h h' h'' a hp' hplace =>
    obtain ⟨hfits, hadds⟩ := fits_of_place? hclass hcheck hp' hplace
    refine ⟨fun hless => absurd hfits.1 (Nat.not_le.2 hless), fun _ => ⟨a, rfl, hadds⟩, ?_, ?_⟩
    · constructor
      · rintro ⟨old, new, hgrown⟩
        exact absurd hgrown (by simp)
      · rintro ⟨-, -, hfull⟩
        exact absurd hfits.2 (Nat.not_le.2 hfull)
    · intro old new hgrown
      exact absurd hgrown (by simp)
  | @higher target rest h h' h'' entries outcome hp' hnone' _ ih =>
    have hended := ih hp' hnone' hclean.tail
    -- a collection before the others is not a growth
    have hmem : ∀ old new, Call.grown old new ∈
        ((⟨.collect target, h', none⟩ : Entry) :: entries).map (·.call) ↔
          Call.grown old new ∈ entries.map (·.call) := by
      intro old new
      simp
    refine ⟨?_, hended.placed, ?_, ?_⟩
    · intro hless
      obtain ⟨hout, hcalls, hafter⟩ := hended.exhausted hless
      refine ⟨hout, ?_, hafter⟩
      rw [List.map_cons, List.map_cons, hcalls]
    · simp only [hmem]
      rw [hended.grown_iff, List.map_cons, List.map_cons, List.cons_prefix_cons]
      exact and_congr_left' ⟨fun h => ⟨rfl, h⟩, fun h => h.2⟩
    · intro old new hgrown
      exact hended.grown old new ((hmem old new).1 hgrown)
  | gaveUp hless =>
    refine ⟨fun _ => ⟨rfl, rfl, rfl⟩, fun hle => absurd hle (Nat.not_le.2 hless), ?_, ?_⟩
    · constructor
      · rintro ⟨old, new, hgrown⟩
        exact absurd hgrown List.not_mem_nil
      · rintro ⟨-, hle, -⟩
        exact absurd hle (Nat.not_le.2 hless)
    · intro old new hgrown
      exact absurd hgrown List.not_mem_nil
  | @grown h h' h'' old new a hroom hp' hgrow hplace =>
    obtain ⟨hfits, hadds⟩ := fits_of_place? hclass hcheck hp' hplace
    -- the limit was not in the way, so the nursery was
    have hfull : (h.arena .gen0).remaining < r.blockSize := by
      by_contra hno
      exact (eq_of_place?_none hclass hcheck hp hnone).2 ⟨hroom, Nat.not_lt.1 hno⟩
    obtain ⟨h₁, hgrow₁, -, -, hrelabels, hcapacity⟩ := growNursery_spec hclass hcheck hp hroom
    obtain ⟨hsizes, rfl⟩ := EStateM.Result.ok.injEq .. ▸ hgrow.symm.trans hgrow₁
    obtain ⟨rfl, rfl⟩ := Prod.mk.inj hsizes
    refine ⟨fun hless => absurd hroom (Nat.not_le.2 hless), fun _ => ⟨a, rfl, hadds⟩, ?_, ?_⟩
    · refine ⟨fun _ => ⟨List.nil_prefix, hroom, hfull⟩, fun _ => ⟨_, _, List.mem_singleton_self _⟩⟩
    · intro old new hgrown
      obtain ⟨rfl, rfl⟩ := Call.grown.inj (List.mem_singleton.1 hgrown)
      refine ⟨rfl, rfl, ?_, hrelabels⟩
      unfold Arena.remaining at hfull
      omega

end Climbed

/-! ### The allocation -/

/-- What the calls and the outcome of an allocation say, by the heap before and the heap that
is left behind. -/
structure Account (config : Config) (r : Request) (h : Heap) (entries : List Entry)
    (outcome : Except Error Address) (after : Heap) : Prop where
  /-- The calls are the first ones of the ladder. -/
  calls : ∃ old new, entries.map (·.call) <+:
    .collect (escalate config h) :: ((if escalate config h = .full then [] else
      [.collect .full]) ++ [.grown old new])
  /-- Each is made after an attempt that has found no room. -/
  attempted : Attempted r h entries
  /-- A collection that fails ends the allocation. -/
  failing : FailsLast entries outcome
  /-- Memory is exhausted if the heap limit is in the way after the last collection. -/
  exhausted_iff : NoFailure entries → ((∃ n m, outcome = .error (.outOfMemory n m)) ↔
    (∃ target, .collect target ∈ entries.map (·.call)) ∧
      (collectedHeap h entries).headroom < r.blockSize)
  /-- Then nothing grows and no object is added. -/
  exhausted : NoFailure entries → ∀ n m, outcome = .error (.outOfMemory n m) →
    n = r.blockSize ∧ m = (collectedHeap h entries).headroom ∧
      (∀ old new, .grown old new ∉ entries.map (·.call)) ∧ after = collectedHeap h entries
  /-- In every other case the object is placed. -/
  placed : NoFailure entries → ¬((∃ target, .collect target ∈ entries.map (·.call)) ∧
      (collectedHeap h entries).headroom < r.blockSize) →
    ∃ a, outcome = .ok a ∧
      (r.payload % alignment = 0 → Heap.Adds a r.header (lastHeap h entries) after)
  /-- The nursery grows if after a full collection it alone is in the way. -/
  grown_iff : NoFailure entries → ((∃ old new, .grown old new ∈ entries.map (·.call)) ↔
    .collect .full ∈ entries.map (·.call) ∧ r.blockSize ≤ (collectedHeap h entries).headroom ∧
      ((collectedHeap h entries).arena .gen0).remaining < r.blockSize)
  /-- Its capacity gets larger, no object changes, and the object is placed. -/
  grown : NoFailure entries → ∀ old new, .grown old new ∈ entries.map (·.call) →
    old = ((collectedHeap h entries).arena .gen0).capacity ∧
      new = ((lastHeap h entries).arena .gen0).capacity ∧ old < new ∧
      Heap.Relabels (fun _ x => x) (collectedHeap h entries) (lastHeap h entries) ∧
      ∃ a, outcome = .ok a

section Account

variable {entries : List Entry} {outcome : Except Error Address} {after : Heap}

/-- The targets of the collections, by the first of them. -/
theorem map_collections (r : Request) (first : Target) :
    (collections r first).map (·.1) = first :: if first = .full then [] else [.full] := by
  rw [collections]
  split
  · rfl
  · rfl

/-- A full collection is the last one. -/
theorem full_mem_iff {first : Target} {calls : List Call} {old new : Nat}
    (hcalls : calls <+: (first :: if first = .full then [] else [.full]).map Call.collect ++
      [.grown old new]) :
    .collect .full ∈ calls ↔
      (first :: if first = .full then [] else [.full]).map Call.collect <+: calls := by
  obtain ⟨rest, hrest⟩ := hcalls
  -- there are two collections at most, and only the last one can be full
  by_cases hfull : first = .full
  · subst hfull
    cases calls with
    | nil => simp
    | cons x more =>
      obtain ⟨rfl, -⟩ := List.cons.inj hrest
      simp
  · rw [if_neg hfull] at hrest ⊢
    rcases calls with _ | ⟨x, _ | ⟨y, more⟩⟩
    · simp
    · obtain ⟨rfl, -⟩ := List.cons.inj hrest
      simp [Ne.symm hfull]
    · obtain ⟨rfl, hrest'⟩ := List.cons.inj hrest
      obtain ⟨rfl, -⟩ := List.cons.inj hrest'
      simp

/-- The object is placed at once. -/
theorem account_of_placed {a : Address} (hclass : r.sizeClass = .small)
    (hcheck : config.check = .ok ()) (hp : Proper config h)
    (hplace : r.place? h = .ok (some a) after) : Account config r h [] (.ok a) after where
  calls := ⟨0, 0, List.nil_prefix⟩
  attempted := trivial
  failing := failsLast_nil
  exhausted_iff _ := ⟨fun ⟨_, _, herror⟩ => absurd herror (by simp),
    fun ⟨⟨_, hcall⟩, _⟩ => absurd hcall List.not_mem_nil⟩
  exhausted _ _ _ herror := absurd herror (by simp)
  placed _ _ := ⟨a, rfl, (Climbed.fits_of_place? hclass hcheck hp hplace).2⟩
  grown_iff _ := ⟨fun ⟨_, _, hcall⟩ => absurd hcall List.not_mem_nil,
    fun ⟨hcall, _⟩ => absurd hcall List.not_mem_nil⟩
  grown _ _ _ hcall := absurd hcall List.not_mem_nil

/-- The ladder is climbed after a first attempt. -/
theorem Climbed.account {first : Target} (hclass : r.sizeClass = .small)
    (hcheck : config.check = .ok ()) (hp : Proper config h) (hnone : r.place? h = .ok none h)
    (hfirst : escalate config h = first)
    (hc : Climbed config r (first :: if first = .full then [] else [.full]) h entries outcome
      after) : Account config r h entries outcome after := by
  obtain ⟨old, new, hcalls⟩ := hc.calls
  have hended := hc.ended hclass hcheck hp hnone
  refine ⟨⟨old, new, ?_⟩, hc.attempted hnone, hc.failsLast, ?_, ?_, ?_, ?_, ?_⟩
  · have hlist : (first :: if first = .full then [] else [.full]).map Call.collect ++
        [.grown old new] = .collect first :: ((if first = .full then [] else [.collect .full]) ++
          [.grown old new]) := by
      split
      · rfl
      · rfl
    rw [hfirst, ← hlist]
    exact hcalls
  · intro hclean
    rw [(hended hclean).exhausted_iff]
    exact ⟨fun hless => ⟨⟨first, (hended hclean).collected hless⟩, hless⟩, fun hless => hless.2⟩
  · -- the sizes that the error tells are those that were asked for and were there
    intro hclean n m hout
    have hless := (hended hclean).exhausted_iff.1 ⟨n, m, hout⟩
    obtain ⟨hexact, hlist, hafter⟩ := (hended hclean).exhausted hless
    obtain ⟨rfl, rfl⟩ := Error.outOfMemory.inj (Except.error.inj (hout.symm.trans hexact))
    refine ⟨rfl, rfl, ?_, hafter⟩
    intro old new hgrown
    rw [hlist] at hgrown
    obtain ⟨target, -, htarget⟩ := List.mem_map.1 hgrown
    exact absurd htarget (by simp)
  · intro hclean hno
    refine (hended hclean).placed (Nat.not_lt.1 ?_)
    exact fun hless => hno ⟨⟨first, (hended hclean).collected hless⟩, hless⟩
  · intro hclean
    rw [(hended hclean).grown_iff, full_mem_iff hcalls]
  · intro hclean old new hgrown
    obtain ⟨hold, hnew, hlt, hsame⟩ := (hended hclean).grown old new hgrown
    have hroom := ((hended hclean).grown_iff.1 ⟨old, new, hgrown⟩).2.1
    obtain ⟨a, hok, -⟩ := (hended hclean).placed hroom
    exact ⟨hold, hnew, hlt, hsame, a, hok⟩

theorem accounted_allocateSmall {σ : Type} [HoldsHeap σ] {o : Owner σ} (ho : Lawful o config)
    (hcheck : config.check = .ok ()) (hclass : r.sizeClass = .small) {s : Logged σ}
    (hs : Proper config (HoldsHeap.heap s)) :
    Appends (allocateSmall (logged o) r config) s (Account config r (HoldsHeap.heap s)) := by
  rw [allocateSmall_eq_climb]
  refine ho.appends_placeOr ?_ ?_ ?_
  · intro a h hplace
    exact account_of_placed hclass hcheck hs hplace
  · intro e h herror
    exact absurd herror (place?_ne_error hclass hcheck hs)
  · intro s' hnone
    have hsame := (eq_of_place?_none hclass hcheck hs hnone).1
    rw [← hsame] at hs hnone ⊢
    refine (climbed_climb ho hclass hcheck (collections r (escalate config (HoldsHeap.heap s')))
      hs).imp ?_
    intro entries outcome after hclimbed
    rw [map_collections] at hclimbed
    exact hclimbed.account hclass hcheck hs hnone rfl

/-- **The ladder of a small object.** An allocation collects the escalated target and then
everything, and last it lets the nursery grow, each of these only after an attempt that has
found no room. It fails if and only if a collection fails or the heap limit is in the way
after the last one, and the growth of the nursery is always enough. -/
theorem allocate_small_account {σ : Type} [HoldsHeap σ] {o : Owner σ} (ho : Lawful o config)
    (hcheck : config.check = .ok ()) (hclass : r.sizeClass = .small) {s : σ}
    (hs : Proper config (HoldsHeap.heap s)) :
    (allocate o r config).outcome s = (allocate (logged o) r config).outcome ⟨s, []⟩ ∧
      (allocate o r config).final s = ((allocate (logged o) r config).final ⟨s, []⟩).state ∧
      Account config r (HoldsHeap.heap s) ((allocate (logged o) r config).final ⟨s, []⟩).log
        ((allocate (logged o) r config).outcome ⟨s, []⟩)
        (HoldsHeap.heap ((allocate (logged o) r config).final ⟨s, []⟩)) := by
  refine told_of_appends ?_
  rw [allocate, hclass]
  exact accounted_allocateSmall ho hcheck hclass hs

/-- An object that is larger than the whole nursery below. -/
def wide : Request := ⟨⟨0⟩, 64, false, .small⟩

/-- A heap with a nursery of only 64 bytes. -/
def narrow : Bare := ⟨.empty 64 ({} : Config).maxHeapSize⟩

theorem proper_narrow : Proper {} narrow.heap := ⟨Heap.wellFormed_empty (by decide) _, rfl⟩

theorem narrow_account :
    ((allocate (logged idle) wide {}).final ⟨narrow, []⟩).log.map (·.call) =
        [.collect .gen0, .collect .full, .grown 64 128] ∧
      ∃ a, (allocate idle wide {}).outcome narrow = .ok a := by
  have hcalls : ((allocate (logged idle) wide {}).final ⟨narrow, []⟩).log.map (·.call) =
      [.collect .gen0, .collect .full, .grown 64 128] := rfl
  have hfailures : ((allocate (logged idle) wide {}).final ⟨narrow, []⟩).log.map (·.failure) =
      [none, none, none] := rfl
  have hclean : NoFailure ((allocate (logged idle) wide {}).final ⟨narrow, []⟩).log := by
    intro e he
    have hmem := List.mem_map_of_mem (f := (·.failure)) he
    rw [hfailures] at hmem
    simpa using hmem
  obtain ⟨houtcome, -, haccount⟩ :=
    allocate_small_account (lawful_idle {}) (r := wide) rfl rfl (s := narrow) proper_narrow
  obtain ⟨-, -, -, -, a, hok⟩ := haccount.grown hclean 64 128 (hcalls ▸ by decide)
  exact ⟨hcalls, a, houtcome.trans hok⟩

end Account

end Ladder

end GenerationalHeap
