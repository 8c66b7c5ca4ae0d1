/-
The heap after the moves of a plan.

* `Compaction.filled` — an arena after the moves, in one formula: its own survivors slide
  down, then the promoted ones of the next younger arena arrive.
* `Compaction.arena_relocate` — the moves of all generations, whichever are collected,
  come to that.
-/
import GenerationalHeap.Proofs.Copying
import GenerationalHeap.Proofs.Redirection

namespace GenerationalHeap

namespace Compaction

variable {h : Heap} {g : Generation}

/-! ### The moves of one arena -/

/-- The bytes of the arena that promoted objects come from. -/
def feeder (h : Heap) : Generation → Memory
  | .gen0 | .gen1 => (h.arena .gen0).memory
  | .gen2 => (h.arena .gen1).memory

/-- The arena of a generation after the moves. -/
def filled (p : Plan) (h : Heap) (g : Generation) : Arena :=
  if p.target.condemns (.arena g) then
    receive (feeder h g) (p.arrivals g)
      (((p.spaces.get g).stays.foldl slide (h.arena g)).setTop (p.newTop.get g))
  else (receive (feeder h g) (p.arrivals g) (h.arena g)).setTop (p.newTop.get g)

theorem promote_eq (hg : g.older ≠ g) (moves : List Move) (h : Heap) :
    promote g moves h = h.mapArena g.older (receive (h.arena g).memory moves) := by
  induction moves generalizing h with
  | nil =>
    rw [promote, List.foldl_nil]
    cases g <;> rfl
  | cons m rest ih =>
    have hother : (h.mapArena g.older (Arena.mapMemory
        (·.overwrite m.dest ((h.arena g).memory.slice m.source m.size)))).arena g =
          h.arena g := by
      rw [Heap.arena_mapArena, if_neg (Ne.symm hg)]
    have htail := ih (h.mapArena g.older (Arena.mapMemory
      (·.overwrite m.dest ((h.arena g).memory.slice m.source m.size))))
    rw [hother] at htail
    rw [promote, List.foldl_cons]
    refine htail.trans ?_
    cases g <;> rfl

theorem promote_nil (g : Generation) (h : Heap) : promote g [] h = h := rfl

/-- The moves of all generations come to the moves of each arena, whichever generations
are collected. -/
theorem arena_relocate {c : Compaction} (h : Heap)
    (hlast : (c.plan.spaces.get .gen2).promotions = [])
    (hidle : ∀ g, c.plan.target.condemns (.arena g) = false →
      (c.plan.spaces.get g).promotions = [])
    (g : Generation) :
    (c.relocate h).arena g = (filled c.plan h g).rebuildStarts (settledFrom c.plan g) ∧
      (c.relocate h).large = h.large ∧ (c.relocate h).maxSize = h.maxSize := by
  have hold : ∀ h g, g ≠ .gen2 → moveOut c.plan h g = (h.mapArena g.older
      (receive (h.arena g).memory (c.plan.spaces.get g).promotions)).mapArena g fun a =>
        ((c.plan.spaces.get g).stays.foldl slide a).setTop (c.plan.newTop.get g) := by
    intro h g hg
    rw [moveOut, promote_eq (by cases g <;> simp_all [Generation.older])]
  have hlast' : ∀ h, moveOut c.plan h .gen2 = h.mapArena .gen2 fun a =>
      ((c.plan.spaces.get .gen2).stays.foldl slide a).setTop (c.plan.newTop.get .gen2) := by
    intro h
    rw [moveOut, hlast, promote_nil]
  rw [relocate]
  -- the oldest collected generation goes first, so that each arena is read before it changes
  cases ht : c.plan.target with
  | gen0 =>
    have hnone : (c.plan.spaces.get .gen1).promotions = [] := hidle .gen1 (by rw [ht]; rfl)
    rw [show Target.generations .gen0 = [.gen0] from rfl]
    simp only [List.foldl_cons, List.foldl_nil, hold _ .gen0 (by decide), takeIn, ht]
    cases g <;> simp only [filled, Plan.arrivals, hnone, ht] <;> exact ⟨rfl, rfl, rfl⟩
  | gen1 =>
    rw [show Target.generations .gen1 = [.gen1, .gen0] from rfl]
    simp only [List.foldl_cons, List.foldl_nil, hold _ .gen0 (by decide),
      hold _ .gen1 (by decide), takeIn, ht]
    cases g <;> simp only [filled, Plan.arrivals, ht] <;> exact ⟨rfl, rfl, rfl⟩
  | gen2 =>
    rw [show Target.generations .gen2 = [.gen2, .gen1, .gen0] from rfl]
    simp only [List.foldl_cons, List.foldl_nil, hold _ .gen0 (by decide),
      hold _ .gen1 (by decide), hlast', takeIn, ht]
    cases g <;> simp only [filled, Plan.arrivals, ht] <;> exact ⟨rfl, rfl, rfl⟩
  | full =>
    rw [show Target.generations .full = [.gen2, .gen1, .gen0] from rfl]
    simp only [List.foldl_cons, List.foldl_nil, hold _ .gen0 (by decide),
      hold _ .gen1 (by decide), hlast', takeIn, ht]
    cases g <;> simp only [filled, Plan.arrivals, ht] <;> exact ⟨rfl, rfl, rfl⟩

/-! ### What an arena holds after the moves -/

/-- What is needed of a heap for the moves of a plan that was made for the heap `h`. -/
structure Ready (h : Heap) (target : Target) (h' : Heap) : Prop where
  wellFormed : h'.WellFormed
  top : ∀ g, (h'.arena g).top = (h.arena g).top
  offsets : ∀ g, (h'.arena g).offsets = (h.arena g).offsets
  sizeAt : ∀ g, ∀ x ∈ (h.arena g).offsets, (h'.arena g).sizeAt x = (h.arena g).sizeAt x
  room : ∀ g, (Plan.ofHeap h target).newTop.get g ≤ (h'.arena g).capacity

variable {h' : Heap} {target : Target} {t : Transfer} {m : Move}

theorem arrivals_source (hm : m ∈ (Plan.ofHeap h target).arrivals g) :
    ∃ k, k.older = g ∧ k ≠ g ∧ (∀ h' : Heap, feeder h' g = (h'.arena k).memory) ∧
      m ∈ ((Plan.ofHeap h target).spaces.get k).promotions := by
  cases g with
  | gen0 => exact absurd hm List.not_mem_nil
  | gen1 => exact ⟨.gen0, rfl, by decide, fun _ => rfl, hm⟩
  | gen2 => exact ⟨.gen1, rfl, by decide, fun _ => rfl, hm⟩

theorem Ready.source_fits (hr : Ready h target h') {k : Generation} {x : Nat}
    (hx : x ∈ (h.arena k).offsets) :
    x + (h.arena k).sizeAt x ≤ (h'.arena k).capacity := by
  have hin := (hr.wellFormed.arena k).add_sizeAt_le ((hr.offsets k).symm ▸ hx)
  have htop := (hr.wellFormed.arena k).top_le
  rw [hr.sizeAt k x hx] at hin
  exact Nat.le_trans hin htop

/-- An arena after the moves, byte by byte. -/
structure Filled (p : Plan) (h : Heap) (g : Generation) (a : Arena) : Prop where
  space : a.space = (h.arena g).space
  top : a.top = p.newTop.get g
  starts : a.starts = (h.arena g).starts
  capacity : a.capacity = (h.arena g).capacity
  stays : ∀ m ∈ (p.spaces.get g).stays, ∀ i < m.size,
    a.memory.byte (m.dest + i) = (h.arena g).memory.byte (m.source + i)
  arrivals : ∀ m ∈ p.arrivals g, ∀ i < m.size,
    a.memory.byte (m.dest + i) = (feeder h g).byte (m.source + i)
  kept : p.target.condemns (.arena g) = false → ∀ j < (h.arena g).top,
    a.memory.byte j = (h.arena g).memory.byte j
  zero : ∀ j, p.newTop.get g ≤ j → a.memory.byte j = 0

theorem arrivals_fit (hr : Ready h target h') (hm : m ∈ (Plan.ofHeap h target).arrivals g) :
    m.source + m.size ≤ (feeder h' g).size := by
  obtain ⟨k, -, -, hk, hpro⟩ := arrivals_source hm
  obtain ⟨hin, hsize⟩ := Plan.mem_promotions hpro
  rw [hk, hsize]
  exact hr.source_fits (Plan.mem_leaving.1 hin).2.1

/-- A collected arena: what stays slides down, what is above is cleared, and the promoted
objects come above what stays. -/
theorem filled_condemned (hw : h.WellFormed) (hr : Ready h target h')
    (hc : target.condemns (.arena g) = true) :
    Filled (Plan.ofHeap h target) h' g (filled (Plan.ofHeap h target) h' g) := by
  have ha := hr.wellFormed.arena g
  have harrive := Plan.arrivals_stacked h target g
  have hmid := Plan.incomingStart_le_newTop h target g
  have hc' : (Plan.ofHeap h target).target.condemns (.arena g) = true := hc
  rw [filled, if_pos hc']
  have hstack := Plan.stays_stacked (h := h) hc
  have hslides := copies_slides (a := h'.arena g) hstack (Plan.pairwise_stays hw)
    (fun m hm => (Plan.mem_stays hw hm).2.2) fun m hm => by
      obtain ⟨hin, hsize, -⟩ := Plan.mem_stays hw hm
      rw [hsize]
      exact hr.source_fits (Plan.mem_staying.1 hin).2.1
  have htop : (((Plan.ofHeap h target).spaces.get g).stays.foldl slide (h'.arena g)).top ≤
      (((Plan.ofHeap h target).spaces.get g).stays.foldl slide (h'.arena g)).capacity := by
    rw [hslides.top]
    exact Nat.le_trans ha.top_le (Nat.le_of_eq hslides.size.symm)
  have hsetTop := Arena.byte_setTop htop ((Plan.ofHeap h target).newTop.get g)
  have hcap : ((((Plan.ofHeap h target).spaces.get g).stays.foldl slide (h'.arena g)).setTop
      ((Plan.ofHeap h target).newTop.get g)).capacity = (h'.arena g).capacity :=
    (Arena.capacity_setTop _ _).trans hslides.size
  have hcopies := copies_receive harrive (fun m hm => arrivals_fit hr hm) (hcap.symm ▸ hr.room g)
  refine ⟨hcopies.space.trans hslides.space, hcopies.top, hcopies.starts.trans hslides.starts,
    hcopies.size.trans hcap, ?_, hcopies.byte, ?_, ?_⟩
  · -- what stays ends below what arrives, and below the new top
    intro m hm i hi
    have hb := hstack.bounds hm
    have hbelow := hcopies.others (m.dest + i) fun n hn => by
      have hn' := harrive.bounds hn
      omega
    rw [hbelow, hsetTop, if_neg (by omega), hslides.byte m hm i hi]
  · intro hno
    exact absurd (hc'.symm.trans hno) (by decide)
  · -- above the new top nothing was put, and what was there is cleared
    intro j hj
    have habove := hcopies.others j fun n hn => by
      have hn' := harrive.bounds hn
      omega
    have hnone := hslides.others j fun n hn => by
      have hn' := hstack.bounds hn
      omega
    rw [habove, hsetTop, hslides.top]
    by_cases hlt : j < (h'.arena g).top
    · rw [if_pos ⟨hj, hlt⟩]
    · rw [if_neg (by omega), hnone]
      exact ha.zero_above j (by omega)

/-- Another arena: the promoted objects come above its old top. -/
theorem filled_untouched (hr : Ready h target h') (hc : target.condemns (.arena g) = false) :
    Filled (Plan.ofHeap h target) h' g (filled (Plan.ofHeap h target) h' g) := by
  have ha := hr.wellFormed.arena g
  have harrive := Plan.arrivals_stacked h target g
  have hmid := Plan.incomingStart_le_newTop h target g
  have hc' : (Plan.ofHeap h target).target.condemns (.arena g) = false := hc
  rw [filled, if_neg (by rw [hc']; decide)]
  have hstart : (Plan.ofHeap h target).incomingStart.get g = (h'.arena g).top := by
    rw [Plan.incomingStart_get, if_neg (by rw [hc]; decide), hr.top]
  have hcopies := copies_receive harrive (fun m hm => arrivals_fit hr hm) (hr.room g)
  have htop : (receive (feeder h' g) ((Plan.ofHeap h target).arrivals g) (h'.arena g)).top ≤
      (receive (feeder h' g) ((Plan.ofHeap h target).arrivals g) (h'.arena g)).capacity := by
    rw [hcopies.top]
    exact Nat.le_trans ha.top_le (Nat.le_of_eq hcopies.size.symm)
  -- the top goes up, so nothing is cleared
  have hsame : ∀ j, ((receive (feeder h' g) ((Plan.ofHeap h target).arrivals g)
      (h'.arena g)).setTop ((Plan.ofHeap h target).newTop.get g)).memory.byte j =
        (receive (feeder h' g) ((Plan.ofHeap h target).arrivals g) (h'.arena g)).memory.byte j := by
    intro j
    rw [Arena.byte_setTop htop, hcopies.top, if_neg (by omega)]
  refine ⟨hcopies.space, rfl, hcopies.starts, (Arena.capacity_setTop _ _).trans hcopies.size,
    ?_, ?_, ?_, ?_⟩
  · intro m hm
    rw [Plan.stays_eq_nil hc] at hm
    exact absurd hm List.not_mem_nil
  · intro m hm i hi
    rw [hsame, hcopies.byte m hm i hi]
  · intro _ j hj
    rw [hsame]
    refine hcopies.others j ?_
    intro n hn
    have hn' := harrive.bounds hn
    omega
  · intro j hj
    rw [hsame, hcopies.others j fun n hn => by
      have hn' := harrive.bounds hn
      omega]
    exact ha.zero_above j (by omega)

theorem filled_spec (hw : h.WellFormed) (hr : Ready h target h') (g : Generation) :
    Filled (Plan.ofHeap h target) h' g (filled (Plan.ofHeap h target) h' g) := by
  by_cases hc : target.condemns (.arena g) = true
  · exact filled_condemned hw hr hc
  · exact filled_untouched hr (by simpa using hc)

/-! ### The blocks of an arena after the moves -/

/-- The objects of an arena that do not move. -/
def keptOffsets (target : Target) (h : Heap) (g : Generation) : List Nat :=
  if target.condemns (.arena g) then [] else (h.arena g).offsets

/-- The new places in an arena. -/
def newOffsets (p : Plan) (g : Generation) : List Nat :=
  (p.spaces.get g).stays.map (·.dest) ++ (p.arrivals g).map (·.dest)

theorem mem_newOffsets (hw : h.WellFormed) {x : Nat} :
    x ∈ newOffsets (Plan.ofHeap h target) g ↔
      ∃ t ∈ (Plan.ofHeap h target).transfers, t.dest = g ∧ t.move.dest = x := by
  rw [newOffsets, List.mem_append, List.mem_map, List.mem_map]
  constructor
  · rintro (⟨m, hm, rfl⟩ | ⟨m, hm, rfl⟩)
    · exact ⟨⟨g, g, m⟩, (Plan.mem_transfers _).2 (Or.inl ⟨rfl, hm⟩), rfl, rfl⟩
    · obtain ⟨k, hk, -, -, hpro⟩ := arrivals_source hm
      exact ⟨⟨k, k.older, m⟩, (Plan.mem_transfers _).2 (Or.inr ⟨rfl, hpro⟩), hk, rfl⟩
  · rintro ⟨t, ht, rfl, rfl⟩
    rcases Plan.transfer_dest hw ht with ⟨-, hm⟩ | ⟨-, -, hm⟩
    · exact Or.inl ⟨t.move, hm, rfl⟩
    · exact Or.inr ⟨t.move, hm, rfl⟩

/-- The bytes that an object has at its new place. -/
theorem Filled.byte_new {a : Arena} (hw : h.WellFormed)
    (hf : Filled (Plan.ofHeap h target) h' t.dest a)
    (ht : t ∈ (Plan.ofHeap h target).transfers) {i : Nat} (hi : i < t.move.size) :
    a.memory.byte (t.move.dest + i) =
      (h'.arena t.source).memory.byte (t.move.source + i) := by
  rcases Plan.transfer_dest hw ht with ⟨hd, hm⟩ | ⟨hd, hne, hm⟩
  · rw [hf.stays _ hm i hi, hd]
  · have hfeeder : feeder h' t.dest = (h'.arena t.source).memory := by
      rw [hd] at hne ⊢
      cases hs : t.source with
      | gen0 => rfl
      | gen1 => rfl
      | gen2 =>
        rw [hs] at hne
        exact absurd rfl hne
    rw [hf.arrivals _ hm i hi, hfeeder]

/-- The header that an object has at its new place. -/
theorem Filled.header_new {a : Arena} (hw : h.WellFormed)
    (hf : Filled (Plan.ofHeap h target) h' t.dest a)
    (ht : t ∈ (Plan.ofHeap h target).transfers) :
    a.header t.move.dest = (h'.arena t.source).header t.move.source := by
  have hhead : headerSize ≤ t.move.size := by
    rw [(Plan.transfer_source hw ht).2.2.2]
    exact Header.headerSize_le _
  exact Header.load_congr fun i hi => hf.byte_new hw ht (Nat.lt_of_lt_of_le hi hhead)

theorem Filled.sizeAt_new {a : Arena} (hw : h.WellFormed) (hr : Ready h target h')
    (hf : Filled (Plan.ofHeap h target) h' t.dest a)
    (ht : t ∈ (Plan.ofHeap h target).transfers) : a.sizeAt t.move.dest = t.move.size := by
  obtain ⟨-, hx, -, hsize⟩ := Plan.transfer_source hw ht
  rw [Arena.sizeAt, hf.header_new hw ht, hsize]
  exact hr.sizeAt t.source _ hx

/-- What does not move has its header as before. -/
theorem Filled.header_kept {a : Arena} (hr : Ready h target h')
    (hf : Filled (Plan.ofHeap h target) h' g a) (hc : target.condemns (.arena g) = false)
    {x : Nat} (hx : x ∈ (h.arena g).offsets) : a.header x = (h'.arena g).header x := by
  have hin := (hr.wellFormed.arena g).add_sizeAt_le ((hr.offsets g).symm ▸ hx)
  have hhead := Arena.headerSize_le_sizeAt (h'.arena g) x
  exact Header.load_congr fun i hi => hf.kept hc _ (by omega)

theorem tiles_new {a : Arena} (hw : h.WellFormed) (hr : Ready h target h')
    (hf : Filled (Plan.ofHeap h target) h' g a) :
    Tiles a.sizeAt (settledFrom (Plan.ofHeap h target) g) (newOffsets (Plan.ofHeap h target) g)
      ((Plan.ofHeap h target).newTop.get g) := by
  have harrive : Tiles a.sizeAt ((Plan.ofHeap h target).incomingStart.get g)
      (((Plan.ofHeap h target).arrivals g).map (·.dest))
      ((Plan.ofHeap h target).newTop.get g) := by
    refine (Plan.arrivals_stacked h target g).tiles ?_
    intro m hm
    obtain ⟨k, rfl, -, -, hpro⟩ := arrivals_source hm
    exact hf.sizeAt_new (t := ⟨k, k.older, m⟩) hw hr
      ((Plan.mem_transfers _).2 (Or.inr ⟨rfl, hpro⟩))
  by_cases hc : target.condemns (.arena g) = true
  · have hstart : settledFrom (Plan.ofHeap h target) g = 0 := if_pos hc
    rw [hstart, newOffsets]
    refine Tiles.append ((Plan.stays_stacked hc).tiles ?_) harrive
    intro m hm
    exact hf.sizeAt_new (t := ⟨g, g, m⟩) hw hr ((Plan.mem_transfers _).2 (Or.inl ⟨rfl, hm⟩))
  · have hno : target.condemns (.arena g) = false := by simpa using hc
    have hstart : settledFrom (Plan.ofHeap h target) g =
        (Plan.ofHeap h target).incomingStart.get g := if_neg hc
    rw [hstart, newOffsets, Plan.stays_eq_nil hno]
    exact harrive

theorem tiles_kept {a : Arena} (hr : Ready h target h')
    (hf : Filled (Plan.ofHeap h target) h' g a) :
    Tiles a.sizeAt 0 (keptOffsets target h g) (settledFrom (Plan.ofHeap h target) g) := by
  by_cases hc : target.condemns (.arena g) = true
  · rw [keptOffsets, if_pos hc, settledFrom, if_pos (show (Plan.ofHeap h target).target.condemns
      (.arena g) = true from hc)]
    rfl
  · have hno : target.condemns (.arena g) = false := by simpa using hc
    rw [keptOffsets, if_neg hc, settledFrom, if_neg (show ¬(Plan.ofHeap h target).target.condemns
      (.arena g) = true from hc), Plan.incomingStart_get, if_neg hc, ← hr.top, ← hr.offsets]
    refine (hr.wellFormed.arena g).tiled.congr ?_
    intro x hx
    rw [Arena.sizeAt, Arena.sizeAt, hf.header_kept hr hno (hr.offsets g ▸ hx)]

/-- An arena after the moves is well-formed, and its blocks are those that do not move,
then those at their new places. -/
theorem wellFormed_filled {a : Arena} (hw : h.WellFormed) (hr : Ready h target h')
    (hf : Filled (Plan.ofHeap h target) h' g a) :
    (a.rebuildStarts (settledFrom (Plan.ofHeap h target) g)).WellFormed (.arena g) ∧
      (a.rebuildStarts (settledFrom (Plan.ofHeap h target) g)).offsets =
        keptOffsets target h g ++ newOffsets (Plan.ofHeap h target) g ∧
      (a.rebuildStarts (settledFrom (Plan.ofHeap h target) g)).offsetsFrom
        (settledFrom (Plan.ofHeap h target) g) = newOffsets (Plan.ofHeap h target) g := by
  have ha := hr.wellFormed.arena g
  refine Arena.wellFormed_rebuildStarts (hf.space.trans ha.space_eq) (tiles_kept hr hf) (hf.top ▸
    tiles_new hw hr hf) ?_ ?_ (fun i hi => hf.zero i (hf.top ▸ hi)) ?_ ?_ ?_
  · -- no size changes, whether an object moves or not
    intro x hx
    rcases List.mem_append.1 hx with hx | hx
    · by_cases hc : target.condemns (.arena g) = true
      · rw [keptOffsets, if_pos hc] at hx
        exact absurd hx List.not_mem_nil
      · rw [keptOffsets, if_neg hc] at hx
        rw [hf.header_kept hr (by simpa using hc) hx]
        exact ha.aligned x ((hr.offsets g).symm ▸ hx)
    · obtain ⟨t, ht, rfl, rfl⟩ := (mem_newOffsets hw).1 hx
      rw [hf.header_new hw ht]
      exact (hr.wellFormed.arena t.source).aligned _
        ((hr.offsets t.source).symm ▸ (Plan.transfer_source hw ht).2.1)
  · intro x hx hlt
    rw [hf.starts, keptOffsets]
    by_cases hc : target.condemns (.arena g) = true
    · -- in a collected arena the start map is built from the bottom
      have hstart : settledFrom (Plan.ofHeap h target) g = 0 := if_pos hc
      rw [hstart] at hlt
      exact absurd hlt (Nat.not_lt_zero x)
    · rw [if_neg hc, ha.isSet_iff x hx, hr.offsets]
  · rw [hf.top, hf.capacity]
    exact hr.room g
  · exact hf.capacity ▸ ha.capacity_le
  · rw [hf.capacity, hf.starts]
    exact ha.covered

end Compaction

end GenerationalHeap
