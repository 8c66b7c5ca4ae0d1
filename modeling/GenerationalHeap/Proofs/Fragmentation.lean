/-
The ladder of a large object, and what a fragmented space does to it.

Two things may keep a large object from its place, the heap limit and the addresses of its
space. A full collection answers the first one only. If the limit is not in the way, but all
free blocks are too small and the addresses above the top do not suffice, then an attempt
fails, and the allocation fails with it. A collection that could have made room is not run,
unless large objects are over their budget.

* `Ladder.Stuck` — the addresses are in the way, and the heap limit is not.
* `Ladder.attempt` — the three things that can happen to an attempt.
* `Ladder.Settled` — what becomes of the last attempt.
* `Ladder.LargeAccount` — what the calls and the outcome of an allocation say.
* `Ladder.allocate_large_account` — every allocation of a large object is such a one.
-/
import GenerationalHeap.Proofs.CallLog
import GenerationalHeap.Proofs.Gaps
import GenerationalHeap.Proofs.Sweeping

namespace GenerationalHeap

namespace LargeSpace

/-- The sums of an allocation are words, whatever the size in the header of the new object. -/
theorem Blocks.fits_blockSize {s : LargeSpace} (h : s.Blocks) (x : Header) :
    s.Fits x.blockSize := by
  have hsize : x.blockSize < 4294967328 := by
    have hpayload : x.size.toNat < 4294967296 := x.size.toNat_lt
    rw [Header.blockSize_eq, Header.payloadSize, headerSize]
    omega
  have hrounded : blockSizeFor x.blockSize ≤ x.blockSize + (largeAlignment - 1) :=
    Nat.div_mul_le_self _ _
  have htop : s.top ≤ 4294967296 := h.top_le
  constructor
  · unfold largeAlignment UInt64.size
    omega
  · unfold largeAlignment at hrounded
    unfold UInt64.size
    omega

end LargeSpace

namespace Heap

/-- A large object finds no place if all free blocks are too small and the addresses above the
top do not suffice. -/
def LargeFull (size : Nat) (h : Heap) : Prop :=
  (∀ b ∈ h.large.free, b.size < size) ∧ spaceLimit < h.large.top + size

theorem allocateLarge_of_full {new : Header} {h : Heap} (hw : h.WellFormed)
    (hfull : LargeFull (LargeSpace.blockSizeFor new.blockSize) h) :
    allocateLarge new h = .error
      (.outOfMemory (LargeSpace.blockSizeFor new.blockSize) (spaceLimit - h.large.top)) h := by
  have hlarge := hw.large
  obtain ⟨arenas, large, maxSize⟩ := h
  obtain ⟨hfree, htop⟩ := hfull
  rcases hlarge.allocate_cases (hlarge.fits_blockSize new) with
    ⟨o, left, htake, -⟩ | ⟨-, hle, -⟩ | ⟨-, -, herror⟩
  · exact absurd (htake.symm.trans (Block.takeFit?_eq_none_iff.2 hfree)) (by simp)
  · exact absurd htop (Nat.not_lt.2 hle)
  · rw [allocateLarge]
    simp only [herror]

theorem allocateLarge_of_not_full {new : Header} {h : Heap} (hw : h.WellFormed)
    (hroom : ¬LargeFull (LargeSpace.blockSizeFor new.blockSize) h) :
    ∃ a h', allocateLarge new h = .ok a h' := by
  have hlarge := hw.large
  obtain ⟨arenas, large, maxSize⟩ := h
  cases hrun : LargeSpace.allocate new.blockSize large with
  | ok offset large' =>
    refine ⟨Space.large.address offset, ⟨arenas, large'.setHeader offset new, maxSize⟩, ?_⟩
    rw [allocateLarge]
    simp only [hrun]
  | error e large' =>
    rcases hlarge.allocate_cases (hlarge.fits_blockSize new) with
      ⟨o, left, -, hok⟩ | ⟨-, -, hok⟩ | ⟨htake, htop, -⟩
    · exact absurd (hrun.symm.trans hok) (by simp)
    · exact absurd (hrun.symm.trans hok) (by simp)
    · exact absurd ⟨Block.takeFit?_eq_none_iff.1 htake, htop⟩ hroom

end Heap

namespace Ladder

variable {config : Config} {r : Request} {h h' : Heap}

/-! ### Room for a large object -/

/-- The heap limit is not in the way of a large object, but its space has no place for it. -/
def Stuck (r : Request) (h : Heap) : Prop :=
  r.blockSize ≤ h.headroom ∧ h.LargeFull r.blockSize

/-- The three things that can happen to an attempt to place a large object. -/
inductive Attempt (r : Request) (h : Heap) : Prop
  | short : h.headroom < r.blockSize → r.place? h = .ok none h → Attempt r h
  | stuck : Stuck r h →
      r.place? h = .error (.outOfMemory r.blockSize (spaceLimit - h.large.top)) h → Attempt r h
  | placed {a : Address} {h' : Heap} : r.blockSize ≤ h.headroom → ¬Stuck r h →
      r.place? h = .ok (some a) h' → (r.payload % alignment = 0 → Heap.Adds a r.header h h') →
      Attempt r h

theorem payloadSize_large (hclass : r.sizeClass = .large) (hle : r.blockSize ≤ spaceLimit) :
    r.header.payloadSize = r.payload := by
  rw [Request.blockSize, hclass] at hle
  exact payloadSize_header_of_le (Nat.le_trans (LargeSpace.le_blockSizeFor _) hle)

theorem place?_large (hclass : r.sizeClass = .large) (hroom : r.blockSize ≤ h.headroom) :
    r.place? h = EStateM.map some (Heap.allocateLarge r.header) h := by
  rw [Request.place?, if_neg (Nat.not_lt.2 hroom)]
  simp only [hclass]
  rfl

section Large

variable (hclass : r.sizeClass = .large) (hcheck : config.check = .ok ()) (hp : Proper config h)
include hclass hcheck hp

theorem attempt : Attempt r h := by
  by_cases hroom : r.blockSize ≤ h.headroom
  -- what the heap limit allows is not too large for the size field of a header
  · have hpayload := payloadSize_large hclass (Nat.le_trans hroom (hp.headroom_le hcheck))
    have hblock : LargeSpace.blockSizeFor r.header.blockSize = r.blockSize := by
      rw [Header.blockSize_eq, hpayload, Request.blockSize, hclass]
    have hplace := place?_large hclass hroom
    by_cases hstuck : Stuck r h
    · have hfull : h.LargeFull (LargeSpace.blockSizeFor r.header.blockSize) := by
        rw [hblock]
        exact hstuck.2
      have hrun := Heap.allocateLarge_of_full hp.wellFormed hfull
      rw [hblock] at hrun
      refine .stuck hstuck ?_
      rw [hplace, EStateM.map, hrun]
    · have hfree : ¬h.LargeFull (LargeSpace.blockSizeFor r.header.blockSize) := by
        rw [hblock]
        exact fun hfull => hstuck ⟨hroom, hfull⟩
      obtain ⟨a, h', hrun⟩ := Heap.allocateLarge_of_not_full hp.wellFormed hfree
      have hok : r.place? h = .ok (some a) h' := by rw [hplace, EStateM.map, hrun]
      refine .placed hroom hstuck hok ?_
      intro hmod
      have hspace := Request.space_header_of_large hclass
      rcases Heap.allocateLarge_spec hp.wellFormed (hpayload.symm ▸ hmod) hspace with
        ⟨e, herror⟩ | ⟨b, h'', hrun', hadds, -⟩
      · exact absurd (hrun.symm.trans herror) (by simp)
      · obtain ⟨rfl, rfl⟩ := EStateM.Result.ok.injEq .. ▸ hrun.symm.trans hrun'
        exact hadds
  · refine .short (Nat.not_le.1 hroom) ?_
    rw [Request.place?, if_pos (Nat.not_le.1 hroom)]

end Large

/-! ### The last attempt -/

/-- What becomes of the last attempt, by the heap before it. -/
structure Settled (r : Request) (h : Heap) (outcome : Except Error Address) (after : Heap) :
    Prop where
  short : h.headroom < r.blockSize →
    outcome = .error (.outOfMemory r.blockSize h.headroom) ∧ after = h
  stuck : Stuck r h →
    outcome = .error (.outOfMemory r.blockSize (spaceLimit - h.large.top)) ∧ after = h
  placed : r.blockSize ≤ h.headroom → ¬Stuck r h →
    ∃ a, outcome = .ok a ∧ (r.payload % alignment = 0 → Heap.Adds a r.header h after)

theorem settled_short (hless : h.headroom < r.blockSize) :
    Settled r h (.error (.outOfMemory r.blockSize h.headroom)) h where
  short _ := ⟨rfl, rfl⟩
  stuck hstuck := absurd hstuck.1 (Nat.not_le.2 hless)
  placed hroom := absurd hroom (Nat.not_le.2 hless)

/-- Memory is exhausted if either of the two things is in the way of the last attempt. -/
theorem Settled.exhausted_iff {outcome : Except Error Address} {after : Heap}
    (hs : Settled r h outcome after) :
    (∃ n m, outcome = .error (.outOfMemory n m)) ↔ h.headroom < r.blockSize ∨ Stuck r h := by
  constructor
  · rintro ⟨n, m, herror⟩
    by_contra hno
    obtain ⟨hroom, hstuck⟩ := not_or.1 hno
    obtain ⟨a, hok, -⟩ := hs.placed (Nat.not_lt.1 hroom) hstuck
    exact absurd (herror.symm.trans hok) (by simp)
  · rintro (hless | hstuck)
    · exact ⟨_, _, (hs.short hless).1⟩
    · exact ⟨_, _, (hs.stuck hstuck).1⟩

section Attempts

variable (hclass : r.sizeClass = .large) (hcheck : config.check = .ok ()) (hp : Proper config h)
include hclass hcheck hp

theorem settled_of_placed {a : Address} (hplace : r.place? h = .ok (some a) h') :
    r.blockSize ≤ h.headroom ∧ Settled r h (.ok a) h' := by
  rcases attempt hclass hcheck hp with ⟨-, hnone⟩ | ⟨-, herror⟩ | ⟨hroom, hfree, hok, hadds⟩
  · exact absurd (hplace.symm.trans hnone) (by simp)
  · exact absurd (hplace.symm.trans herror) (by simp)
  · obtain ⟨hab, rfl⟩ := EStateM.Result.ok.injEq .. ▸ hplace.symm.trans hok
    obtain rfl := Option.some.inj hab
    exact ⟨hroom, fun hless => absurd hroom (Nat.not_le.2 hless), fun hstuck => absurd hstuck hfree,
      fun _ _ => ⟨a, rfl, hadds⟩⟩

theorem settled_of_error {e : Error} (herror : r.place? h = .error e h') :
    r.blockSize ≤ h.headroom ∧ Settled r h (.error e) h' := by
  rcases attempt hclass hcheck hp with ⟨-, hnone⟩ | ⟨hstuck, hfull⟩ | ⟨-, -, hok, -⟩
  · exact absurd (herror.symm.trans hnone) (by simp)
  · obtain ⟨rfl, rfl⟩ := EStateM.Result.error.injEq .. ▸ herror.symm.trans hfull
    exact ⟨hstuck.1, fun hless => absurd hstuck.1 (Nat.not_le.2 hless), fun _ => ⟨rfl, rfl⟩,
      fun _ hfree => absurd hstuck hfree⟩
  · exact absurd (herror.symm.trans hok) (by simp)

/-- An attempt that finds no room for lack of headroom changes nothing. -/
theorem short_of_none (hnone : r.place? h = .ok none h') :
    h' = h ∧ h.headroom < r.blockSize := by
  rcases attempt hclass hcheck hp with ⟨hless, hnone'⟩ | ⟨-, herror⟩ | ⟨-, -, hok, -⟩
  · obtain ⟨-, rfl⟩ := EStateM.Result.ok.injEq .. ▸ hnone.symm.trans hnone'
    exact ⟨rfl, hless⟩
  · exact absurd (hnone.symm.trans herror) (by simp)
  · exact absurd (hnone.symm.trans hok) (by simp)

end Attempts

/-! ### The rungs -/

/-- The rungs from the first attempt on. -/
def placeOrCollect {σ : Type} [HoldsHeap σ] (o : Owner σ) (r : Request) : Action σ Address :=
  r.placeOr do
    o.collect .full (.allocationFailure r.blockSize)
    r.placeOr r.giveUp

theorem allocateLarge_eq {σ : Type} [HoldsHeap σ] (o : Owner σ) (r : Request) (config : Config)
    (s : σ) : allocateLarge o r config s =
      if config.lohBudget < (HoldsHeap.heap s).usedIn .large then
        (o.collect .full (.largeBudget ((HoldsHeap.heap s).usedIn .large) config.lohBudget)
          >>= fun _ => placeOrCollect o r) s
      else placeOrCollect o r s := by
  rw [allocateLarge, Action.get_bind]
  split
  · rfl
  · rfl

/-- What can happen from the first attempt on: the calls, the outcome and the heap that is
left behind, by the heap before. -/
structure Retried (r : Request) (h : Heap) (entries : List Entry)
    (outcome : Except Error Address) (after : Heap) : Prop where
  calls : entries.map (·.call) <+: [.collect .full]
  failing : FailsLast entries outcome
  called_iff : entries ≠ [] ↔ h.headroom < r.blockSize
  settled : NoFailure entries → Settled r (lastHeap h entries) outcome after

theorem retried_at_once {outcome : Except Error Address} {after : Heap}
    (hs : r.blockSize ≤ h.headroom ∧ Settled r h outcome after) : Retried r h [] outcome after where
  calls := List.nil_prefix
  failing := failsLast_nil
  called_iff := ⟨fun hne => absurd rfl hne, fun hless => absurd hs.1 (Nat.not_le.2 hless)⟩
  settled _ := hs.2

section Run

variable {σ : Type} [HoldsHeap σ] {o : Owner σ} (ho : Lawful o config)
  (hclass : r.sizeClass = .large) (hcheck : config.check = .ok ()) {s : Logged σ}
  (hs : Proper config (HoldsHeap.heap s))
include ho hclass hcheck hs

theorem settled_placeOr : Appends (r.placeOr r.giveUp) s fun entries outcome after =>
    entries = [] ∧ Settled r (HoldsHeap.heap s) outcome after := by
  refine ho.appends_placeOr ?_ ?_ ?_
  · intro a h hplace
    exact ⟨rfl, (settled_of_placed hclass hcheck hs hplace).2⟩
  · intro e h herror
    exact ⟨rfl, (settled_of_error hclass hcheck hs herror).2⟩
  · intro s' hnone
    obtain ⟨hsame, hless⟩ := short_of_none hclass hcheck hs hnone
    refine appends_of_error rfl rfl ⟨rfl, ?_⟩
    rw [hsame]
    exact settled_short hless

theorem retried_placeOrCollect :
    Appends (placeOrCollect (logged o) r) s (Retried r (HoldsHeap.heap s)) := by
  refine ho.appends_placeOr ?_ ?_ ?_
  · intro a h hplace
    exact retried_at_once (settled_of_placed hclass hcheck hs hplace)
  · intro e h herror
    exact retried_at_once (settled_of_error hclass hcheck hs herror)
  · intro s' hnone
    obtain ⟨hsame, hless⟩ := short_of_none hclass hcheck hs hnone
    -- only the heap limit leads to a collection; the last attempt is made in its heap
    refine ho.appends_collect (hsame.symm ▸ hs) .full _ ?_ ?_
    · intro e h
      exact ⟨List.prefix_rfl, failsLast_failed, ⟨fun _ => hless, fun _ => by simp⟩,
        fun hclean => absurd hclean not_noFailure_failed⟩
    · intro s₁ hs₁
      refine (settled_placeOr ho hclass hcheck hs₁).imp ?_
      rintro _ outcome after ⟨rfl, hsettled⟩
      exact ⟨List.prefix_rfl, failsLast_cons failsLast_nil, ⟨fun _ => hless, fun _ => by simp⟩,
        fun _ => hsettled⟩

end Run

/-! ### The allocation -/

/-- What the calls and the outcome of an allocation say, by the heap before and the heap that
is left behind. -/
structure LargeAccount (config : Config) (r : Request) (h : Heap) (entries : List Entry)
    (outcome : Except Error Address) (after : Heap) : Prop where
  /-- There are full collections only, a first one if large objects are over their budget, and
  one before the last attempt. -/
  calls : entries.map (·.call) <+:
    (if config.lohBudget < h.usedIn .large then [.collect .full] else []) ++ [.collect .full]
  /-- A collection that fails ends the allocation. -/
  failing : FailsLast entries outcome
  /-- Memory is exhausted without a full collection if large objects are within their budget
  and the addresses are in the way, not the heap limit. -/
  early_iff : NoFailure entries → ((∃ n m, outcome = .error (.outOfMemory n m)) ∧
      .collect .full ∉ entries.map (·.call) ↔
    h.usedIn .large ≤ config.lohBudget ∧ Stuck r h)
  /-- Memory is exhausted if the limit or the addresses are in the way of the last attempt. -/
  exhausted_iff : NoFailure entries → ((∃ n m, outcome = .error (.outOfMemory n m)) ↔
    (lastHeap h entries).headroom < r.blockSize ∨ Stuck r (lastHeap h entries))
  /-- Then nothing has changed since the last collection. In every other case the object is
  placed. -/
  settled : NoFailure entries → Settled r (lastHeap h entries) outcome after

section Account

variable {entries : List Entry} {outcome : Except Error Address} {after : Heap}

theorem Retried.not_mem_iff (hr : Retried r h entries outcome after) :
    .collect .full ∉ entries.map (·.call) ↔ entries = [] := by
  constructor
  · intro hnot
    by_contra hne
    obtain ⟨e, rest, rfl⟩ := List.exists_cons_of_ne_nil hne
    have hcall : e.call = .collect .full := (List.cons_prefix_cons.1 hr.calls).1
    exact hnot (hcall ▸ List.mem_cons_self)
  · rintro rfl
    exact List.not_mem_nil

/-- Large objects are within their budget. -/
theorem Retried.account (hr : Retried r h entries outcome after)
    (hused : h.usedIn .large ≤ config.lohBudget) :
    LargeAccount config r h entries outcome after where
  calls := by
    rw [if_neg (Nat.not_lt.2 hused)]
    exact hr.calls
  failing := hr.failing
  early_iff hclean := by
    have hexhausted := (hr.settled hclean).exhausted_iff
    rw [hr.not_mem_iff]
    constructor
    · rintro ⟨hout, rfl⟩
      refine ⟨hused, (hexhausted.1 hout).resolve_left ?_⟩
      intro hless
      exact hr.called_iff.2 hless rfl
    · rintro ⟨-, hstuck⟩
      have hnil : entries = [] := by
        by_contra hne
        exact absurd hstuck.1 (Nat.not_le.2 (hr.called_iff.1 hne))
      subst hnil
      exact ⟨hexhausted.2 (Or.inr hstuck), rfl⟩
  exhausted_iff hclean := (hr.settled hclean).exhausted_iff
  settled := hr.settled

/-- Large objects are over their budget. -/
theorem Retried.account_over {h₀ : Heap} (hr : Retried r h entries outcome after)
    (hused : config.lohBudget < h₀.usedIn .large) :
    LargeAccount config r h₀ (⟨.collect .full, h, none⟩ :: entries) outcome after where
  calls := by
    rw [if_pos hused]
    exact List.cons_prefix_cons.2 ⟨rfl, hr.calls⟩
  failing := failsLast_cons hr.failing
  early_iff _ := ⟨fun hearly => absurd List.mem_cons_self hearly.2,
    fun hearly => absurd hused (Nat.not_lt.2 hearly.1)⟩
  exhausted_iff hclean := (hr.settled hclean.tail).exhausted_iff
  settled hclean := hr.settled hclean.tail

/-- The first collection fails. -/
theorem account_of_failed {e : Error} (hused : config.lohBudget < h.usedIn .large) :
    LargeAccount config r h [⟨.collect .full, h', some e⟩] (.error e) h' := by
  refine ⟨?_, failsLast_failed, fun hclean => absurd hclean not_noFailure_failed,
    fun hclean => absurd hclean not_noFailure_failed,
    fun hclean => absurd hclean not_noFailure_failed⟩
  rw [if_pos hused]
  exact List.cons_prefix_cons.2 ⟨rfl, List.nil_prefix⟩

theorem accounted_allocateLarge {σ : Type} [HoldsHeap σ] {o : Owner σ} (ho : Lawful o config)
    (hcheck : config.check = .ok ()) (hclass : r.sizeClass = .large) {s : Logged σ}
    (hs : Proper config (HoldsHeap.heap s)) :
    Appends (allocateLarge (logged o) r config) s (LargeAccount config r (HoldsHeap.heap s)) := by
  have hrun := allocateLarge_eq (logged o) r config s
  by_cases hused : config.lohBudget < (HoldsHeap.heap s).usedIn .large
  · rw [if_pos hused] at hrun
    refine Appends.of_eq hrun (List.append_nil _).symm (ho.appends_collect hs .full _ ?_ ?_)
    · intro e h
      exact account_of_failed hused
    · intro s' hs'
      exact (retried_placeOrCollect ho hclass hcheck hs').imp fun _ _ _ hr => hr.account_over hused
  · rw [if_neg hused] at hrun
    refine Appends.of_eq hrun (List.append_nil _).symm ?_
    exact (retried_placeOrCollect ho hclass hcheck hs).imp fun _ _ _ hr =>
      hr.account (Nat.not_lt.1 hused)

/-- **The ladder of a large object.** An allocation collects everything before its first
attempt if large objects are over their budget, and again if the heap limit is in the way of
the attempt. But if large objects are within their budget and the addresses of the space are
in the way, memory is exhausted without a collection. -/
theorem allocate_large_account {σ : Type} [HoldsHeap σ] {o : Owner σ} (ho : Lawful o config)
    (hcheck : config.check = .ok ()) (hclass : r.sizeClass = .large) {s : σ}
    (hs : Proper config (HoldsHeap.heap s)) :
    (allocate o r config).outcome s = (allocate (logged o) r config).outcome ⟨s, []⟩ ∧
      (allocate o r config).final s = ((allocate (logged o) r config).final ⟨s, []⟩).state ∧
      LargeAccount config r (HoldsHeap.heap s)
        ((allocate (logged o) r config).final ⟨s, []⟩).log
        ((allocate (logged o) r config).outcome ⟨s, []⟩)
        (HoldsHeap.heap ((allocate (logged o) r config).final ⟨s, []⟩)) := by
  refine told_of_appends ?_
  rw [allocate, hclass]
  exact accounted_allocateLarge ho hcheck hclass hs

end Account

/-! ### A gap of one page -/

/-- A config with the largest heap limit. -/
def unlimited : Config :=
  { gen0Size := 4096, maxHeapSize := spaceLimit, largeObjectThreshold := 1024 }

/-- An object of one page. -/
def page : Request := ⟨⟨0⟩, 2000, false, .large⟩

/-- An object that takes as much as the heap limit allows beside one page. -/
def huge : Request := ⟨⟨0⟩, 4294963168, false, .large⟩

/-- A heap with two objects of one page. -/
def twoPages : Heap := (Heap.allocateLarge page.header).final
  ((Heap.allocateLarge page.header).final (.empty unlimited.gen0Size unlimited.maxHeapSize))

/-- A heap with a gap of one page below an object of one page. -/
def fragmented : Heap := (Heap.freeLarge (Space.large.address 0)).final twoPages

theorem wellFormed_page {h : Heap} (hw : h.WellFormed) :
    ((Heap.allocateLarge page.header).final h).WellFormed := by
  have hmod : page.header.payloadSize % alignment = 0 := rfl
  rcases Heap.allocateLarge_spec hw hmod (Header.space_fresh _ _ _ _) with
    ⟨e, herror⟩ | ⟨a, h', hok, hadds, -⟩
  · rwa [Action.final_of_error herror]
  · rw [Action.final_of_ok hok]
    exact hadds.wellFormed

theorem proper_fragmented : Proper unlimited fragmented := by
  have hw : twoPages.WellFormed :=
    wellFormed_page (wellFormed_page (Heap.wellFormed_empty (by decide) _))
  have hlive : (⟨0, 4096⟩ : Block) ∈ twoPages.large.live := by with_unfolding_all decide
  obtain ⟨h', hrun, hswept⟩ := (Heap.Swept.refl hw).freeLarge hlive (by decide)
  have hfragmented : fragmented = h' := Action.final_of_ok hrun
  rw [hfragmented]
  have hmax : twoPages.maxSize = unlimited.maxHeapSize := by with_unfolding_all rfl
  exact ⟨hswept.wellFormed hw, hswept.maxSize.trans hmax⟩

theorem stuck_fragmented : Stuck huge fragmented := by
  have hfree : fragmented.large.free = [⟨0, 4096⟩] := by with_unfolding_all rfl
  refine ⟨by with_unfolding_all decide, ?_, by with_unfolding_all decide⟩
  rw [hfree]
  with_unfolding_all decide

theorem fragmented_account :
    Stuck huge fragmented ∧
      (∃ n m, (allocate idle huge unlimited).outcome ⟨fragmented⟩ = .error (.outOfMemory n m)) ∧
      .collect .full ∉
        ((allocate (logged idle) huge unlimited).final ⟨⟨fragmented⟩, []⟩).log.map (·.call) := by
  have hlog : ((allocate (logged idle) huge unlimited).final ⟨⟨fragmented⟩, []⟩).log = [] := by
    with_unfolding_all rfl
  have hclean : NoFailure
      ((allocate (logged idle) huge unlimited).final ⟨⟨fragmented⟩, []⟩).log := by
    rw [hlog]
    exact noFailure_nil
  obtain ⟨houtcome, -, haccount⟩ := allocate_large_account (lawful_idle unlimited) (r := huge) rfl
    rfl (s := ⟨fragmented⟩) proper_fragmented
  obtain ⟨⟨n, m, herror⟩, hnot⟩ :=
    (haccount.early_iff hclean).2 ⟨by with_unfolding_all decide, stuck_fragmented⟩
  exact ⟨stuck_fragmented, ⟨n, m, houtcome.trans herror⟩, hnot⟩

/-- It is not so that memory is exhausted only after a full collection. -/
theorem exhausted_without_collection :
    ¬∀ (config : Config) (r : Request) (σ : Type) (_ : HoldsHeap σ) (o : Owner σ) (s : σ),
      config.check = .ok () → r.sizeClass = .large → Lawful o config →
      Proper config (HoldsHeap.heap s) →
      NoFailure ((allocate (logged o) r config).final ⟨s, []⟩).log →
      (∃ n m, (allocate o r config).outcome s = .error (.outOfMemory n m)) →
      .collect .full ∈ ((allocate (logged o) r config).final ⟨s, []⟩).log.map (·.call) := by
  intro hclaim
  -- the headroom is all but one page; what is left above the top is one page less than that
  have hlog : ((allocate (logged idle) huge unlimited).final ⟨⟨fragmented⟩, []⟩).log = [] := by
    with_unfolding_all rfl
  have hexhausted : (allocate idle huge unlimited).outcome ⟨fragmented⟩ =
      .error (.outOfMemory 4294963200 4294959104) := by with_unfolding_all rfl
  have hmem := hclaim unlimited huge Bare inferInstance idle ⟨fragmented⟩ rfl rfl
    (lawful_idle unlimited) proper_fragmented
    (hlog.symm ▸ noFailure_nil) ⟨_, _, hexhausted⟩
  rw [hlog] at hmem
  exact absurd hmem List.not_mem_nil

end Ladder

end GenerationalHeap
