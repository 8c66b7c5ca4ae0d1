/-
How a plan is written into the headers of the objects that move.

* `Transfer`, `Plan.transfers` — one planned move with its two arenas, and all of them.
* `Plan.mem_transfers_iff` — every marked object of a collected arena has a transfer,
  and only one.
* `Plan.writeForwarding_spec` — the headers of the objects that move name their new
  places.
* `Heap.ensureArena_spec` — an arena gets the room that is asked for.
* `Plan.build_spec` — a plan is made without fail.
-/
import GenerationalHeap.Compaction
import GenerationalHeap.Proofs.Actions
import GenerationalHeap.Proofs.Changes
import GenerationalHeap.Proofs.Planning

namespace GenerationalHeap

/-- A planned move with its two arenas. -/
structure Transfer where
  source : Generation
  dest : Generation
  move : Move

namespace Transfer

/-- The address of the object before the move. -/
def old (t : Transfer) : Address := (Space.arena t.source).address t.move.source

/-- The address of the object after the move. -/
def new (t : Transfer) : Address := (Space.arena t.dest).address t.move.dest

end Transfer

namespace Plan

/-- All moves of a plan. -/
def transfers (p : Plan) : List Transfer :=
  Generation.all.flatMap fun g =>
    (p.spaces.get g).stays.map (⟨g, g, ·⟩) ++
      (p.spaces.get g).promotions.map (⟨g, g.older, ·⟩)

variable {h h' : Heap} {target : Target} {g : Generation} {a : Address} {t : Transfer}

theorem mem_all_generations (g : Generation) : g ∈ Generation.all := by
  cases g <;> decide

theorem mem_transfers (p : Plan) : t ∈ p.transfers ↔
    t.dest = t.source ∧ t.move ∈ (p.spaces.get t.source).stays ∨
      t.dest = t.source.older ∧ t.move ∈ (p.spaces.get t.source).promotions := by
  rw [transfers, List.mem_flatMap]
  constructor
  · rintro ⟨g, -, ht⟩
    rcases List.mem_append.1 ht with ht | ht
    · obtain ⟨m, hm, rfl⟩ := List.mem_map.1 ht
      exact Or.inl ⟨rfl, hm⟩
    · obtain ⟨m, hm, rfl⟩ := List.mem_map.1 ht
      exact Or.inr ⟨rfl, hm⟩
  · obtain ⟨source, dest, move⟩ := t
    rintro (⟨hd, hm⟩ | ⟨hd, hm⟩)
    · obtain rfl : dest = source := hd
      exact ⟨_, mem_all_generations _, List.mem_append_left _ (List.mem_map.2 ⟨_, hm, rfl⟩)⟩
    · obtain rfl : dest = source.older := hd
      exact ⟨_, mem_all_generations _, List.mem_append_right _ (List.mem_map.2 ⟨_, hm, rfl⟩)⟩

/-- Where the moves of an arena start. -/
theorem map_old_transfers (h : Heap) (target : Target) :
    (ofHeap h target).transfers.map Transfer.old =
      Generation.all.flatMap fun g =>
        (staying h target g ++ leaving h target g).map (Space.arena g).address := by
  have hoffsets : ∀ g (l : List Nat), (l.map (h.arena g).survivor).map (·.offset) = l := by
    intro g l
    rw [List.map_map]
    exact List.map_id l
  rw [transfers, List.map_flatMap]
  refine congrArg (Generation.all.flatMap ·) (funext ?_)
  intro g
  have hs := map_source_layOut 0 ((staying h target g).map (h.arena g).survivor)
  have hl := map_source_layOut ((ofHeap h target).incomingStart.get g.older)
    ((leaving h target g).map (h.arena g).survivor)
  rw [hoffsets, ← stays_eq] at hs
  rw [hoffsets, ← promotions_eq] at hl
  rw [List.map_append, List.map_map, List.map_map, ← hs, ← hl, List.map_append, List.map_map,
    List.map_map]
  rfl

/-- What a transfer starts at: a marked object of a collected arena. -/
theorem transfer_source (hw : h.WellFormed) (ht : t ∈ (ofHeap h target).transfers) :
    target.condemns (.arena t.source) = true ∧ t.move.source ∈ (h.arena t.source).offsets ∧
      ((h.arena t.source).header t.move.source).isMarked = true ∧
      t.move.size = (h.arena t.source).sizeAt t.move.source := by
  rcases (mem_transfers _).1 ht with ⟨-, hm⟩ | ⟨-, hm⟩
  · obtain ⟨hin, hsize, -⟩ := mem_stays hw hm
    obtain ⟨hc, hx, hmark, -⟩ := mem_staying.1 hin
    exact ⟨hc, hx, hmark, hsize⟩
  · obtain ⟨hin, hsize⟩ := mem_promotions hm
    obtain ⟨hc, hx, hmark, -⟩ := mem_leaving.1 hin
    exact ⟨hc, hx, hmark, hsize⟩

section Old

variable (hw : h.WellFormed)
include hw

theorem ofAddress?_old (ht : t ∈ (ofHeap h target).transfers) :
    Space.ofAddress? t.old = some (.arena t.source) :=
  Space.ofAddress?_address (hw.lt_spaceLimit (s := .arena t.source) (transfer_source hw ht).2.1)

theorem offset_old (ht : t ∈ (ofHeap h target).transfers) :
    (Space.arena t.source).offset t.old = t.move.source :=
  Space.offset_address (hw.lt_spaceLimit (s := .arena t.source) (transfer_source hw ht).2.1)

theorem old_mem_objects (ht : t ∈ (ofHeap h target).transfers) : t.old ∈ h.objects :=
  Heap.address_mem_objects (s := .arena t.source) (transfer_source hw ht).2.1

/-- Every marked object of a collected arena has a transfer, and no other object does. -/
theorem mem_map_old_iff : a ∈ (ofHeap h target).transfers.map Transfer.old ↔
    a ∈ h.objects ∧ (h.header a).isMarked = true ∧
      ∃ g, Space.ofAddress? a = some (.arena g) ∧ target.condemns (.arena g) = true := by
  constructor
  · intro ha
    obtain ⟨t, ht, rfl⟩ := List.mem_map.1 ha
    obtain ⟨hc, hx, hm, -⟩ := transfer_source hw ht
    have hs := ofAddress?_old hw ht
    refine ⟨old_mem_objects hw ht, ?_, t.source, hs, hc⟩
    rw [Heap.header_eq hs, offset_old hw ht]
    exact hm
  · rintro ⟨ha, hm, g, hs, hc⟩
    obtain ⟨s, hs', hx⟩ := hw.mem_objects_iff.1 ha
    obtain rfl : s = .arena g := Option.some.inj (hs'.symm.trans hs)
    rw [Heap.header_eq hs] at hm
    rw [map_old_transfers, List.mem_flatMap]
    refine ⟨g, mem_all_generations g, List.mem_map.2 ⟨_, ?_, Space.address_offset hs⟩⟩
    rw [List.mem_append, mem_staying, mem_leaving]
    -- a marked object either leaves its arena or stays there
    by_cases hl : (h.arena g).leaves ((Space.arena g).offset a) = true
    · exact Or.inr ⟨hc, hx, hm, hl⟩
    · exact Or.inl ⟨hc, hx, hm, by simpa using hl⟩

omit hw in
theorem mem_offsets_of_moving {x : Nat} (hx : x ∈ staying h target g ++ leaving h target g) :
    x ∈ (h.arena g).offsets := by
  rcases List.mem_append.1 hx with hx | hx
  · exact (mem_staying.1 hx).2.1
  · exact (mem_leaving.1 hx).2.1

/-- No object both stays and leaves. -/
theorem nodup_moving (target : Target) (g : Generation) :
    (staying h target g ++ leaving h target g).Nodup := by
  have hoffsets : (h.arena g).offsets.Nodup := hw.offsets_nodup (.arena g)
  refine List.nodup_append.2 ⟨?_, ?_, ?_⟩
  · rw [staying]
    split
    · exact hoffsets.filter _
    · exact List.nodup_nil
  · rw [leaving]
    split
    · exact hoffsets.filter _
    · exact List.nodup_nil
  · rintro x hx y hy rfl
    have hstay := (mem_staying.1 hx).2.2.2
    rw [(mem_leaving.1 hy).2.2.2] at hstay
    exact absurd hstay (by decide)

/-- No object has two transfers. -/
theorem nodup_map_old : ((ofHeap h target).transfers.map Transfer.old).Nodup := by
  have hlt : ∀ g, ∀ x ∈ staying h target g ++ leaving h target g, x < spaceLimit := fun g x hx =>
    hw.lt_spaceLimit (s := .arena g) (mem_offsets_of_moving hx)
  rw [map_old_transfers]
  refine List.pairwise_flatMap.2 ⟨?_, ?_⟩
  · intro g _
    refine List.pairwise_map.2 ((nodup_moving hw target g).imp_of_mem ?_)
    intro x y hx hy hne heq
    exact hne (Space.address_inj (hlt g x hx) (hlt g y hy) heq)
  · -- offsets of different arenas have addresses in different ranges
    have hall : Generation.all.Pairwise (· ≠ ·) := by decide
    refine hall.imp ?_
    intro g k hgk a ha b hb hab
    obtain ⟨x, hx, rfl⟩ := List.mem_map.1 ha
    obtain ⟨y, hy, rfl⟩ := List.mem_map.1 hb
    have hg := Space.ofAddress?_address (s := .arena g) (hlt g x hx)
    have hk := Space.ofAddress?_address (s := .arena k) (hlt k y hy)
    rw [hab, hk] at hg
    exact hgk (Space.arena.inj (Option.some.inj hg)).symm

end Old

/-! ### Writing the new places -/

/-- Writes one new place. -/
def writeMove (h : Heap) (t : Transfer) : Heap :=
  h.mapArena t.source fun a =>
    a.setHeader t.move.source
      (forwarded a.space (a.header t.move.source) t.dest t.move.dest)

theorem writeForwarding_eq (p : Plan) (h : Heap) :
    p.writeForwarding h = p.transfers.foldl writeMove h := by
  rw [writeForwarding, transfers, List.foldl_flatMap]
  congr 1
  funext h g
  rw [List.foldl_append, List.foldl_map, List.foldl_map]
  rfl

theorem setHeader_eq_mapArena {x : Nat} (hs : Space.ofAddress? a = some (.arena g))
    (hx : (Space.arena g).offset a = x) (new : Header) :
    h.setHeader a new = h.mapArena g (·.setHeader x new) := by
  rw [Heap.setHeader, Heap.writeAt, hs]
  dsimp only
  rw [hx]
  rfl

theorem mapArena_eq (h : Heap) (g : Generation) (f : Arena → Arena) :
    h.mapArena g f = h.mapArena g fun _ => f (h.arena g) := by
  cases g <;> rfl

theorem writeMove_eq (hw : h.WellFormed) (ht : t ∈ (ofHeap h target).transfers) :
    writeMove h' t = h'.setHeader t.old
      (forwarded (h'.arena t.source).space ((h'.arena t.source).header t.move.source)
        t.dest t.move.dest) := by
  rw [setHeader_eq_mapArena (ofAddress?_old hw ht) (offset_old hw ht), writeMove, mapArena_eq,
    mapArena_eq h' t.source (·.setHeader _ _)]

/-- The header of an object that moves names its new place; nothing else changes. -/
theorem relabels_writeMove (hw : h.WellFormed) (ht : t ∈ (ofHeap h target).transfers)
    (hl : h.SameLayout h') :
    Heap.Relabels (fun b x =>
      if b = t.old then forwarded (.arena t.source) x t.dest t.move.dest else x)
      h' (writeMove h' t) := by
  have hw' := hl.wellFormed hw
  have ha : t.old ∈ h'.objects := hl.objects hw ▸ old_mem_objects hw ht
  have hheader : h'.header t.old = (h'.arena t.source).header t.move.source := by
    rw [Heap.header_eq (ofAddress?_old hw ht), offset_old hw ht]
    rfl
  have hsize : (forwarded (.arena t.source) (h'.header t.old) t.dest t.move.dest).size =
      (h'.header t.old).size := Header.size_forwarded _ _ _ _
  rw [writeMove_eq hw ht, (hw'.arena t.source).space_eq, ← hheader]
  refine (Heap.relabels_setHeader hw' ha hsize).congr ?_
  intro b _
  by_cases hb : b = t.old
  · rw [if_pos hb, if_pos hb, hb]
  · rw [if_neg hb, if_neg hb]

theorem writeForwarding_spec (hw : h.WellFormed) (target : Target) :
    h.SamePayloads ((ofHeap h target).writeForwarding h) ∧
      (∀ t ∈ (ofHeap h target).transfers,
        ((ofHeap h target).writeForwarding h).header t.old =
          forwarded (.arena t.source) (h.header t.old) t.dest t.move.dest) ∧
      ∀ a ∈ h.objects, a ∉ (ofHeap h target).transfers.map Transfer.old →
        ((ofHeap h target).writeForwarding h).header a = h.header a := by
  rw [writeForwarding_eq]
  have hmem : ∀ t ∈ (ofHeap h target).transfers, t.old ∈ h.objects := fun t ht =>
    old_mem_objects hw ht
  exact Heap.foldl_headers hw (nodup_map_old hw)
    (fun t ht h' hl => relabels_writeMove hw ht hl) hmem

end Plan

/-! ### Room for the moves -/

namespace Arena

/-- The arena `a'` is `a`, perhaps with more room. -/
structure Grown (a a' : Arena) : Prop where
  space : a'.space = a.space
  top : a'.top = a.top
  isSet : ∀ x, a'.starts.isSet x = a.starts.isSet x
  byte : ∀ i, a'.memory.byte i = a.memory.byte i
  capacity : a.capacity ≤ a'.capacity
  capacity_le : a'.capacity ≤ spaceLimit
  covered : StartMap.groupsFor a'.capacity ≤ a'.starts.covered

theorem roundedUp_le_spaceLimit {n : Nat} (h : n ≤ spaceLimit) :
    roundedUp alignment n ≤ spaceLimit := by
  -- the limit is aligned itself
  unfold roundedUp alignment
  unfold spaceLimit at *
  omega

theorem le_roundedUp_alignment (n : Nat) : n ≤ roundedUp alignment n := le_roundedUp (by decide) n

theorem ensure_spec {a : Arena} {s : Space} (hw : a.WellFormed s) {needed : Nat}
    (hn : needed ≤ spaceLimit) :
    ∃ a', ensure needed a = .ok () a' ∧ a.Grown a' ∧ needed ≤ a'.capacity := by
  by_cases hc : needed ≤ a.capacity
  · refine ⟨a, by rw [ensure, if_pos hc], ?_, hc⟩
    exact ⟨rfl, rfl, fun _ => rfl, fun _ => rfl, Nat.le_refl _, hw.capacity_le, hw.covered⟩
  · refine ⟨_, by rw [ensure, if_neg hc, if_neg (Nat.not_lt.2 hn)], ?_, ?_⟩
    · have hgrown : max needed (min (2 * a.capacity) spaceLimit) ≤ spaceLimit := by omega
      refine ⟨rfl, rfl, fun x => StartMap.isSet_cover _ _ x, fun i => Memory.byte_grow _ _ i,
        Nat.le_max_left _ _, Nat.max_le.2 ⟨hw.capacity_le, roundedUp_le_spaceLimit hgrown⟩, ?_⟩
      have hle : a.capacity ≤ roundedUp alignment (max needed (min (2 * a.capacity) spaceLimit)) :=
        Nat.le_trans (by omega) (le_roundedUp_alignment _)
      show StartMap.groupsFor (max a.capacity _) ≤ max a.starts.covered (StartMap.groupsFor _)
      rw [Nat.max_eq_right hle]
      exact Nat.le_max_right _ _
    · exact Nat.le_trans (Nat.le_trans (Nat.le_max_left _ _) (le_roundedUp_alignment _))
        (Nat.le_max_right _ _)

end Arena

namespace Heap

variable {h : Heap} {g : Generation}

/-- More room in an arena changes no object. -/
theorem relabels_grown (hw : h.WellFormed) {a : Arena} (ha : (h.arena g).Grown a) :
    Relabels (fun _ x => x) h (h.mapArena g fun _ => a) := by
  -- every arena is as it was or has grown, so every byte is where it was
  have hgrown : ∀ k, (h.arena k).Grown ((h.mapArena g fun _ => a).arena k) := by
    intro k
    rw [arena_mapArena]
    split
    · rename_i hk
      exact hk ▸ ha
    · have hk := hw.arena k
      exact ⟨rfl, rfl, fun _ => rfl, fun _ => rfl, Nat.le_refl _, hk.capacity_le, hk.covered⟩
  have hbyte : ∀ s i, ((h.mapArena g fun _ => a).memory s).byte i = (h.memory s).byte i := by
    intro s i
    cases s with
    | arena k => exact (hgrown k).byte i
    | large => cases g <;> rfl
  have hload : ∀ s x, Header.load ((h.mapArena g fun _ => a).memory s) x =
      Header.load (h.memory s) x := fun s x => Header.load_congr fun i _ => hbyte s (x + i)
  have hlarge : (h.mapArena g fun _ => a).large = h.large := by cases g <;> rfl
  refine ⟨⟨⟨fun k => (hgrown k).space, fun k => (hgrown k).top, fun k => (hgrown k).isSet,
    fun k => (hgrown k).capacity, fun k => (hgrown k).capacity_le, fun k => (hgrown k).covered,
    fun k i _ => (hgrown k).byte i, by rw [hlarge], by rw [hlarge], by rw [hlarge],
    by rw [hlarge], by rw [hlarge], by cases g <;> rfl, ?_⟩, ?_⟩,
    ?_⟩
  · intro s x _
    rw [sizeAt, sizeAt, hload]
  · intro b hb i _ _
    obtain ⟨s, hs, -⟩ := hw.mem_objects_iff.1 hb
    rw [byte_eq hs, byte_eq hs, hbyte]
  · intro b hb
    obtain ⟨s, hs, -⟩ := hw.mem_objects_iff.1 hb
    rw [header_eq hs, header_eq hs, hload]

/-- An arena gets the room that is asked for, if the address range has as much. -/
theorem ensureArena_spec (hw : h.WellFormed) {needed : Nat} (hn : needed ≤ spaceLimit) :
    ∃ h', ensureArena g needed h = .ok () h' ∧ Relabels (fun _ x => x) h h' ∧
      needed ≤ (h'.arena g).capacity := by
  obtain ⟨a, hok, ha, hle⟩ := Arena.ensure_spec (hw.arena g) hn
  refine ⟨h.mapArena g fun _ => a, ?_, relabels_grown hw ha, ?_⟩
  · rw [ensureArena, hok]
  · rw [arena_mapArena, if_pos rfl]
    exact hle

end Heap

/-! ### The start of a compaction -/

/-- What is known once a plan is made by the marks of the heap `h`: the objects that move
name their new places, and every arena has room for what it will hold. -/
structure Plan.Written (h : Heap) (target : Target) (h' : Heap) : Prop where
  payloads : h.SamePayloads h'
  moving : ∀ t ∈ (Plan.ofHeap h target).transfers,
    h'.header t.old = Plan.forwarded (.arena t.source) (h.header t.old) t.dest t.move.dest
  others : ∀ a ∈ h.objects, a ∉ (Plan.ofHeap h target).transfers.map Transfer.old →
    h'.header a = h.header a
  room : ∀ g, (Plan.ofHeap h target).newTop.get g ≤ (h'.arena g).capacity

theorem Plan.build_spec {h : Heap} (hw : h.WellFormed) (hused : h.usedBytes ≤ spaceLimit)
    (target : Target) :
    ∃ h', Plan.build target h = .ok (Plan.ofHeap h target) h' ∧ Plan.Written h target h' := by
  obtain ⟨hpay, hmoving, hothers⟩ := Plan.writeForwarding_spec hw target
  -- each arena gets the room it needs, and keeps it while the later ones grow
  obtain ⟨h', hrun, hrelabels, -, hroom⟩ := Action.forM_spec
    (f := fun g => Heap.ensureArena g ((Plan.ofHeap h target).newTop.get g))
    (I := fun h' =>
      Heap.Relabels (fun _ x => x) ((Plan.ofHeap h target).writeForwarding h) h')
    (R := fun h₁ h₂ => ∀ g, (h₁.arena g).capacity ≤ (h₂.arena g).capacity)
    (Q := fun g h' => (Plan.ofHeap h target).newTop.get g ≤ (h'.arena g).capacity)
    (l := Generation.all) (fun _ _ => Nat.le_refl _)
    (fun _ _ _ h₁ h₂ g => Nat.le_trans (h₁ g) (h₂ g))
    (fun g _ _ _ hq hr => Nat.le_trans hq (hr g))
    (fun g _ h₁ hr => by
      have hw₁ := hr.layout.wellFormed (hpay.layout.wellFormed hw)
      obtain ⟨h₂, hok, hr₂, hle⟩ := Heap.ensureArena_spec (g := g) hw₁
        (Nat.le_trans (Plan.newTop_le hw target g) hused)
      exact ⟨h₂, hok, hr.trans hr₂ (hpay.layout.wellFormed hw), hr₂.layout.capacity, hle⟩)
    (Heap.Relabels.refl (hpay.layout.wellFormed hw))
  refine ⟨h', ?_, ⟨hpay.trans hrelabels.toSamePayloads hw, ?_, ?_,
    fun g => hroom g (Plan.mem_all_generations g)⟩⟩
  · have hfinish := Action.bind_of_ok hrun fun _ => (pure (Plan.ofHeap h target) : Action Heap Plan)
    exact hfinish
  · intro t ht
    have ha := Plan.old_mem_objects hw ht
    rw [hrelabels.header _ (hpay.layout.objects hw ▸ ha), hmoving t ht]
  · intro a ha hout
    rw [hrelabels.header _ (hpay.layout.objects hw ▸ ha), hothers a ha hout]

end GenerationalHeap
