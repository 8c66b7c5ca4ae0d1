/-
Where a compaction moves the marked objects.

* `Stacked` — moves whose new places are back to back, as `Plan.layOut` makes them.
* `Arena.stayers`, `Arena.leavers` — the marked objects of an arena that stay in it, and
  those that leave it.
* `Plan.stays_stacked`, `Plan.arrivals_stacked` — the new places in an arena: first of
  what stays in it, then of what arrives.
* `Plan.mem_stays`, `Plan.mem_promotions` — where the moves start.
* `Plan.newTop_sum_le` — the arenas need no more bytes than before.
-/
import GenerationalHeap.Proofs.Objects
import GenerationalHeap.Compaction.Plan

namespace GenerationalHeap

/-! ### Moves that are stacked -/

/-- Moves whose new places fill `[start, stop)` in order. -/
def Stacked : (start : Nat) → List Move → (stop : Nat) → Prop
  | start, [], stop => start = stop
  | start, m :: rest, stop => m.dest = start ∧ 0 < m.size ∧ Stacked (start + m.size) rest stop

namespace Stacked

variable {start stop : Nat} {moves : List Move}

theorem start_le (h : Stacked start moves stop) : start ≤ stop := by
  induction moves generalizing start with
  | nil => exact Nat.le_of_eq h
  | cons m rest ih =>
    have hrest := ih h.2.2
    omega

theorem bounds (h : Stacked start moves stop) {m : Move} (hm : m ∈ moves) :
    start ≤ m.dest ∧ m.dest + m.size ≤ stop := by
  induction moves generalizing start with
  | nil => exact absurd hm List.not_mem_nil
  | cons n rest ih =>
    obtain ⟨hdest, hpos, hrest⟩ := h
    rcases List.mem_cons.1 hm with rfl | hm'
    · exact ⟨Nat.le_of_eq hdest.symm, by rw [hdest]; exact hrest.start_le⟩
    · have hin := ih hrest hm'
      omega

/-- The new places are tiles, whatever sizes are read there, if these are those of the
moves. -/
theorem tiles (h : Stacked start moves stop) {size : Nat → Nat}
    (hsize : ∀ m ∈ moves, size m.dest = m.size) :
    Tiles size start (moves.map (·.dest)) stop := by
  induction moves generalizing start with
  | nil => exact h
  | cons m rest ih =>
    obtain ⟨rfl, hpos, hrest⟩ := h
    have hm := hsize m List.mem_cons_self
    rw [List.map_cons]
    refine ⟨rfl, by rw [hm]; exact hpos, ?_⟩
    rw [hm]
    exact ih hrest fun n hn => hsize n (List.mem_cons_of_mem _ hn)

end Stacked

namespace Plan

theorem stacked_layOut {survivors : List Survivor} (hpos : ∀ s ∈ survivors, 0 < s.size)
    (dest : Nat) : Stacked dest (layOut dest survivors) (dest + bytes survivors) := by
  induction survivors generalizing dest with
  | nil => rfl
  | cons s rest ih =>
    have htail := ih (fun t ht => hpos t (List.mem_cons_of_mem _ ht)) (dest + s.size)
    refine ⟨rfl, hpos s List.mem_cons_self, ?_⟩
    rwa [bytes, List.map_cons, List.sum_cons, ← Nat.add_assoc]

theorem map_source_layOut (dest : Nat) (survivors : List Survivor) :
    (layOut dest survivors).map (·.source) = survivors.map (·.offset) := by
  induction survivors generalizing dest with
  | nil => rfl
  | cons s rest ih => exact congrArg (s.offset :: ·) (ih (dest + s.size))

theorem mem_layOut {dest : Nat} {survivors : List Survivor} {m : Move}
    (hm : m ∈ layOut dest survivors) : ∃ s ∈ survivors, m.source = s.offset ∧ m.size = s.size := by
  induction survivors generalizing dest with
  | nil => exact absurd hm List.not_mem_nil
  | cons s rest ih =>
    rcases List.mem_cons.1 hm with rfl | hm
    · exact ⟨s, List.mem_cons_self, rfl, rfl⟩
    · obtain ⟨t, ht, heq⟩ := ih hm
      exact ⟨t, List.mem_cons_of_mem _ ht, heq⟩

/-- What slides never slides up. -/
theorem dest_le_source {dest : Nat} {survivors : List Survivor}
    (hp : survivors.Pairwise fun s t => s.offset + s.size ≤ t.offset)
    (hlo : ∀ s ∈ survivors, dest ≤ s.offset) {m : Move} (hm : m ∈ layOut dest survivors) :
    m.dest ≤ m.source := by
  induction survivors generalizing dest with
  | nil => exact absurd hm List.not_mem_nil
  | cons s rest ih =>
    obtain ⟨hs, hp⟩ := List.pairwise_cons.1 hp
    rcases List.mem_cons.1 hm with rfl | hm
    · exact hlo s List.mem_cons_self
    -- the next block goes to the end of this one, which lies below the next source
    · refine ih hp ?_ hm
      intro t ht
      have hst := hs t ht
      have hds := hlo s List.mem_cons_self
      omega

theorem pairwise_layOut {dest : Nat} {survivors : List Survivor}
    (hp : survivors.Pairwise fun s t => s.offset + s.size ≤ t.offset) :
    (layOut dest survivors).Pairwise fun m n => m.source + m.size ≤ n.source := by
  induction survivors generalizing dest with
  | nil => exact List.Pairwise.nil
  | cons s rest ih =>
    obtain ⟨hs, hp⟩ := List.pairwise_cons.1 hp
    refine List.pairwise_cons.2 ⟨?_, ih hp⟩
    intro n hn
    obtain ⟨t, ht, hsource, -⟩ := mem_layOut hn
    rw [hsource]
    exact hs t ht

end Plan

/-! ### Survivors of an arena -/

namespace Arena

/-- Whether an object leaves the arena if it survives. -/
def leaves (a : Arena) (x : Nat) : Bool := (a.space.place (a.header x)).isPromotion a.space

/-- The marked objects that stay. -/
def stayers (a : Arena) : List Nat :=
  a.offsets.filter fun x => (a.header x).isMarked && !a.leaves x

/-- The marked objects that leave. -/
def leavers (a : Arena) : List Nat :=
  a.offsets.filter fun x => (a.header x).isMarked && a.leaves x

/-- An object as the census shows it. -/
def survivor (a : Arena) (x : Nat) : Survivor := ⟨x, a.sizeAt x, a.space.place (a.header x)⟩

theorem filter_survivors (a : Arena) (p : Survivor → Bool) (offsets : List Nat) :
    ((offsets.map fun x => (x, a.header x)).filterMap fun (x, h) =>
        Census.survivor? a.space x h).filter p =
      (offsets.filter fun x => (a.header x).isMarked && p (a.survivor x)).map a.survivor := by
  induction offsets with
  | nil => rfl
  | cons x rest ih =>
    rw [List.map_cons, List.filter_cons, List.filterMap_cons]
    -- only a marked object is in the census, and the list asks for the mark first
    by_cases hm : (a.header x).isMarked = true
    · have hs : Census.survivor? a.space x (a.header x) = some (a.survivor x) := by
        rw [Census.survivor?, if_pos hm]
        rfl
      simp only [hs]
      rw [List.filter_cons, ih, hm, Bool.true_and]
      by_cases hp : p (a.survivor x) = true
      · rw [if_pos hp, if_pos hp, List.map_cons]
      · rw [if_neg hp, if_neg hp]
    · have hs : Census.survivor? a.space x (a.header x) = none := by
        rw [Census.survivor?, if_neg hm]
      have hm' : (a.header x).isMarked = false := by simpa using hm
      simp only [hs]
      rw [ih, hm', Bool.false_and, if_neg Bool.false_ne_true]

theorem census_staying (a : Arena) : (Census.ofArena a).staying = a.stayers.map a.survivor :=
  filter_survivors a _ _

theorem census_leaving (a : Arena) : (Census.ofArena a).leaving = a.leavers.map a.survivor :=
  filter_survivors a _ _

theorem sum_filter_le {l : List Nat} {p q : Nat → Bool} (f : Nat → Nat)
    (hpq : ∀ x ∈ l, p x = true → q x = false) :
    ((l.filter p).map f).sum + ((l.filter q).map f).sum ≤ (l.map f).sum := by
  induction l with
  | nil => exact Nat.le_refl 0
  | cons x rest ih =>
    have hrest := ih fun y hy => hpq y (List.mem_cons_of_mem _ hy)
    have hx := hpq x List.mem_cons_self
    rw [List.filter_cons, List.filter_cons]
    -- the first element is in one of the two lists at most
    cases hp : p x <;> cases hq : q x
    · simp only [Bool.false_eq_true, if_false, List.map_cons, List.sum_cons]
      omega
    · simp only [Bool.false_eq_true, if_false, if_true, List.map_cons, List.sum_cons]
      omega
    · simp only [Bool.false_eq_true, if_false, if_true, List.map_cons, List.sum_cons]
      omega
    · exact absurd (hq.symm.trans (hx hp)) (by decide)

theorem bytes_survivors (a : Arena) (offsets : List Nat) :
    Plan.bytes (offsets.map a.survivor) = (offsets.map a.sizeAt).sum := by
  rw [Plan.bytes, List.map_map]
  rfl

/-- What survives has no more bytes than the arena. -/
theorem bytes_le {a : Arena} {s : Space} (hw : a.WellFormed s) :
    Plan.bytes (a.stayers.map a.survivor) + Plan.bytes (a.leavers.map a.survivor) ≤ a.top := by
  have hsum := hw.tiled.sum
  rw [Nat.zero_add] at hsum
  rw [bytes_survivors, bytes_survivors, ← hsum]
  refine sum_filter_le a.sizeAt ?_
  intro x _ hx
  have hx' : (a.header x).isMarked = true ∧ a.leaves x = false := by simpa using hx
  rw [hx'.2, Bool.and_false]

theorem pairwise_survivors {a : Arena} {s : Space} (hw : a.WellFormed s) {offsets : List Nat}
    (hsub : offsets.Sublist a.offsets) :
    (offsets.map a.survivor).Pairwise fun s t => s.offset + s.size ≤ t.offset :=
  List.pairwise_map.2 (hw.tiled.pairwise.sublist hsub)

theorem leavers_gen2 {a : Arena} (hs : a.space = .arena .gen2) : a.leavers = [] := by
  refine List.filter_eq_nil_iff.2 ?_
  intro x _ hx
  have hl : a.leaves x = true := by simpa using (by simpa using hx : _ ∧ _).2
  rw [leaves, hs] at hl
  exact absurd hl (by simp [Space.place, Placement.isPromotion])

end Arena

/-! ### The moves of a plan -/

namespace Plan

/-- The objects of an arena that stay there, if it is collected. -/
def staying (h : Heap) (target : Target) (g : Generation) : List Nat :=
  if target.condemns (.arena g) then (h.arena g).stayers else []

/-- The objects of an arena that leave it, if it is collected. -/
def leaving (h : Heap) (target : Target) (g : Generation) : List Nat :=
  if target.condemns (.arena g) then (h.arena g).leavers else []

/-- The moves into an arena from the next younger one. -/
def arrivals (p : Plan) : Generation → List Move
  | .gen0 => []
  | .gen1 => (p.spaces.get .gen0).promotions
  | .gen2 => (p.spaces.get .gen1).promotions

variable {h : Heap} {target : Target} {g : Generation}

theorem census_get (h : Heap) (target : Target) (g : Generation) :
    ((Census.ofHeap h target).get g).staying = (staying h target g).map (h.arena g).survivor ∧
      ((Census.ofHeap h target).get g).leaving =
        (leaving h target g).map (h.arena g).survivor := by
  rw [Census.ofHeap, PerGeneration.get_ofFn, staying, leaving]
  split
  · exact ⟨Arena.census_staying _, Arena.census_leaving _⟩
  · exact ⟨rfl, rfl⟩

/-- The orphans of a plan are the finalizer slots of unmarked objects of collected arenas. -/
theorem mem_orphans {slot : UInt64} (hslot : slot ∈ (ofHeap h target).orphans) :
    slot ≠ 0 ∧ ∃ g, target.condemns (.arena g) = true ∧ ∃ x ∈ (h.arena g).offsets,
      ((h.arena g).header x).isMarked = false ∧ ((h.arena g).header x).slot = slot := by
  obtain ⟨space, hspace, hslot⟩ := List.mem_flatMap.1 hslot
  obtain ⟨g, rfl⟩ : ∃ g, (ofHeap h target).spaces.get g = space := by
    rcases List.mem_cons.1 hspace with rfl | hspace
    · exact ⟨.gen0, rfl⟩
    · rcases List.mem_cons.1 hspace with rfl | hspace
      · exact ⟨.gen1, rfl⟩
      · exact ⟨.gen2, (List.mem_singleton.1 hspace).symm⟩
  have hdead : slot ∈ (((Census.ofHeap h target).get g).dead.map (·.slot)).filter (· != 0) := by
    simp only [ofHeap, PerGeneration.get_ofFn] at hslot
    exact hslot
  obtain ⟨hslot, hne⟩ := List.mem_filter.1 hdead
  obtain ⟨header, hheader, rfl⟩ := List.mem_map.1 hslot
  refine ⟨by simpa using hne, g, ?_⟩
  rw [Census.ofHeap, PerGeneration.get_ofFn] at hheader
  -- only the dead of a collected arena are listed
  split at hheader
  · rename_i hc
    obtain ⟨⟨x, old⟩, hx, hsome⟩ := List.mem_filterMap.1 hheader
    obtain ⟨y, hy, heq⟩ := List.mem_map.1 hx
    obtain ⟨rfl, rfl⟩ := Prod.mk.inj heq
    dsimp only at hsome
    split at hsome
    · exact absurd hsome (by simp)
    · rename_i hm
      obtain rfl := Option.some.inj hsome
      exact ⟨hc, y, hy, by simpa using hm, rfl⟩
  · exact absurd hheader List.not_mem_nil

theorem stays_eq (h : Heap) (target : Target) (g : Generation) :
    ((ofHeap h target).spaces.get g).stays =
      layOut 0 ((staying h target g).map (h.arena g).survivor) := by
  rw [← (census_get h target g).1]
  simp only [ofHeap, PerGeneration.get_ofFn]
  rfl

theorem promotions_eq (h : Heap) (target : Target) (g : Generation) :
    ((ofHeap h target).spaces.get g).promotions =
      layOut ((ofHeap h target).incomingStart.get g.older)
        ((leaving h target g).map (h.arena g).survivor) := by
  rw [← (census_get h target g).2]
  simp only [ofHeap, PerGeneration.get_ofFn]
  rfl

theorem incomingStart_get (h : Heap) (target : Target) (g : Generation) :
    (ofHeap h target).incomingStart.get g =
      if target.condemns (.arena g) then
        bytes ((staying h target g).map (h.arena g).survivor)
      else (h.arena g).top := by
  rw [← (census_get h target g).1]
  simp only [ofHeap, PerGeneration.get_ofFn]
  rfl

/-- The bytes that arrive in an arena. -/
def arrivingBytes (h : Heap) (target : Target) : Generation → Nat
  | .gen0 => 0
  | .gen1 => bytes ((leaving h target .gen0).map (h.arena .gen0).survivor)
  | .gen2 => bytes ((leaving h target .gen1).map (h.arena .gen1).survivor)

theorem newTop_get (h : Heap) (target : Target) (g : Generation) :
    (ofHeap h target).newTop.get g =
      (ofHeap h target).incomingStart.get g + arrivingBytes h target g := by
  simp only [ofHeap, PerGeneration.get_ofFn]
  cases g with
  | gen0 => rfl
  | gen1 => rw [arrivingBytes, ← (census_get h target .gen0).2]; rfl
  | gen2 => rw [arrivingBytes, ← (census_get h target .gen1).2]; rfl

theorem survivor_size_pos (a : Arena) (offsets : List Nat) :
    ∀ s ∈ offsets.map a.survivor, 0 < s.size := by
  intro s hs
  obtain ⟨x, -, rfl⟩ := List.mem_map.1 hs
  exact (a.header x).blockSize_pos

theorem stays_stacked (hc : target.condemns (.arena g) = true) :
    Stacked 0 ((ofHeap h target).spaces.get g).stays ((ofHeap h target).incomingStart.get g) := by
  have hst := stacked_layOut (survivor_size_pos (h.arena g) (staying h target g)) 0
  rw [Nat.zero_add] at hst
  rw [stays_eq, incomingStart_get, if_pos hc]
  exact hst

theorem stays_eq_nil (hc : target.condemns (.arena g) = false) :
    ((ofHeap h target).spaces.get g).stays = [] := by
  rw [stays_eq, staying, hc]
  rfl

theorem promotions_eq_nil (hc : target.condemns (.arena g) = false) :
    ((ofHeap h target).spaces.get g).promotions = [] := by
  rw [promotions_eq, leaving, hc]
  rfl

theorem arrivals_stacked (h : Heap) (target : Target) (g : Generation) :
    Stacked ((ofHeap h target).incomingStart.get g) ((ofHeap h target).arrivals g)
      ((ofHeap h target).newTop.get g) := by
  rw [newTop_get]
  cases g with
  | gen0 => rfl
  | gen1 =>
    rw [arrivals, promotions_eq]
    exact stacked_layOut (survivor_size_pos _ _) _
  | gen2 =>
    rw [arrivals, promotions_eq]
    exact stacked_layOut (survivor_size_pos _ _) _

theorem mem_staying {x : Nat} : x ∈ staying h target g ↔
    target.condemns (.arena g) = true ∧ x ∈ (h.arena g).offsets ∧
      ((h.arena g).header x).isMarked = true ∧ (h.arena g).leaves x = false := by
  rw [staying]
  split
  · rename_i hc
    simp [Arena.stayers, List.mem_filter, hc]
  · rename_i hc
    simp [hc]

theorem mem_leaving {x : Nat} : x ∈ leaving h target g ↔
    target.condemns (.arena g) = true ∧ x ∈ (h.arena g).offsets ∧
      ((h.arena g).header x).isMarked = true ∧ (h.arena g).leaves x = true := by
  rw [leaving]
  split
  · rename_i hc
    simp [Arena.leavers, List.mem_filter, hc]
  · rename_i hc
    simp [hc]

theorem staying_sublist (h : Heap) (target : Target) (g : Generation) :
    (staying h target g).Sublist (h.arena g).offsets := by
  rw [staying]
  split
  · exact List.filter_sublist
  · exact List.nil_sublist _

theorem mem_stays (hw : h.WellFormed) {m : Move}
    (hm : m ∈ ((ofHeap h target).spaces.get g).stays) :
    m.source ∈ staying h target g ∧ m.size = (h.arena g).sizeAt m.source ∧
      m.dest ≤ m.source := by
  rw [stays_eq] at hm
  have hle := dest_le_source (Arena.pairwise_survivors (hw.arena g) (staying_sublist h target g))
    (fun s _ => Nat.zero_le _) hm
  obtain ⟨s, hs, hsource, hsize⟩ := mem_layOut hm
  obtain ⟨x, hx, rfl⟩ := List.mem_map.1 hs
  rw [hsource] at hle ⊢
  exact ⟨hx, hsize, hle⟩

theorem pairwise_stays (hw : h.WellFormed) :
    ((ofHeap h target).spaces.get g).stays.Pairwise fun m n => m.source + m.size ≤ n.source := by
  rw [stays_eq]
  exact pairwise_layOut (Arena.pairwise_survivors (hw.arena g) (staying_sublist h target g))

theorem mem_promotions {m : Move} (hm : m ∈ ((ofHeap h target).spaces.get g).promotions) :
    m.source ∈ leaving h target g ∧ m.size = (h.arena g).sizeAt m.source := by
  rw [promotions_eq] at hm
  obtain ⟨s, hs, hsource, hsize⟩ := mem_layOut hm
  obtain ⟨x, hx, rfl⟩ := List.mem_map.1 hs
  rw [hsource]
  exact ⟨hx, hsize⟩

theorem promotions_gen2 (hw : h.WellFormed) :
    ((ofHeap h target).spaces.get .gen2).promotions = [] := by
  rw [promotions_eq, leaving, Arena.leavers_gen2 (hw.arena .gen2).space_eq, ite_self]
  rfl

/-! ### How much room a plan needs -/

theorem incomingStart_add_le (hw : h.WellFormed) (target : Target) (g : Generation) :
    (ofHeap h target).incomingStart.get g +
      bytes ((leaving h target g).map (h.arena g).survivor) ≤ (h.arena g).top := by
  rw [incomingStart_get, leaving, staying]
  split
  · exact Arena.bytes_le (hw.arena g)
  · exact Nat.le_refl _

/-- The arenas have no more bytes in use after the moves than before. -/
theorem newTop_sum_le (hw : h.WellFormed) (target : Target) :
    (ofHeap h target).newTop.get .gen0 + (ofHeap h target).newTop.get .gen1 +
        (ofHeap h target).newTop.get .gen2 ≤
      (h.arena .gen0).top + (h.arena .gen1).top + (h.arena .gen2).top := by
  have h₀ := incomingStart_add_le hw target .gen0
  have h₁ := incomingStart_add_le hw target .gen1
  have h₂ := incomingStart_add_le hw target .gen2
  rw [newTop_get, newTop_get, newTop_get, arrivingBytes, arrivingBytes, arrivingBytes]
  omega

theorem usedBytes_eq (h : Heap) : h.usedBytes =
    (h.arena .gen0).top + (h.arena .gen1).top + (h.arena .gen2).top + h.large.used := by
  simp only [Heap.usedBytes, Space.all, List.map_cons, List.map_nil, List.sum_cons, List.sum_nil,
    Heap.usedIn, Arena.used]
  omega

theorem newTop_le (hw : h.WellFormed) (target : Target) (g : Generation) :
    (ofHeap h target).newTop.get g ≤ h.usedBytes := by
  have hsum := newTop_sum_le hw target
  rw [usedBytes_eq]
  cases g <;> omega

end Plan

end GenerationalHeap
