/-
Survivors are carried to their new places.

* `Heap.Carries` — the objects of a heap are those of another one that survive, each at a
  new place, with all of its bytes.
* `Compaction.carries_relocate` — sweeping the large objects and moving the others
  carries exactly what is marked or lies in a space that is left alone.
-/
import GenerationalHeap.Proofs.Relocation
import GenerationalHeap.Proofs.Sweeping

namespace GenerationalHeap

namespace Heap

/-- The objects of `h'` are the objects of `h` with the property `alive`, each at the place
that `F` gives it, with all of its bytes. -/
structure Carries (F : Address → Address) (alive : Address → Prop) (h h' : Heap) : Prop where
  wellFormed : h'.WellFormed
  mem : ∀ b, b ∈ h'.objects ↔ ∃ a, alive a ∧ F a = b
  inj : ∀ a b, alive a → alive b → F a = F b → a = b
  byte : ∀ a, alive a → ∀ i < (h.header a).blockSize, h'.byte (F a) i = h.byte a i

namespace Carries

variable {F : Address → Address} {alive : Address → Prop} {h h' : Heap} {a : Address}

theorem mem_objects (hc : Carries F alive h h') (ha : alive a) : F a ∈ h'.objects :=
  (hc.mem _).2 ⟨a, ha, rfl⟩

theorem header (hc : Carries F alive h h') (hw : h.WellFormed) (hsub : a ∈ h.objects)
    (ha : alive a) : h'.header (F a) = h.header a := by
  obtain ⟨s, hs, -⟩ := hw.mem_objects_iff.1 hsub
  obtain ⟨s', hs', -⟩ := hc.wellFormed.mem_objects_iff.1 (hc.mem_objects ha)
  exact header_congr hs hs' fun i hi =>
    hc.byte a ha i (Nat.lt_of_lt_of_le hi (Header.headerSize_le _))

theorem word (hc : Carries F alive h h') (ha : alive a) {o : Nat}
    (ho : o + 8 ≤ (h.header a).payloadSize) : h'.word (F a) o = h.word a o := by
  refine word_congr ?_
  intro k hk
  exact hc.byte a ha _ (Header.payload_lt ho hk)

end Carries

end Heap

namespace Compaction

variable {h h' h'' : Heap} {target : Target} {c : Compaction} {g : Generation} {a b : Address}
  {t u : Transfer}

/-- What is there after a collection: the objects that are marked, and those of the spaces
that are left alone. -/
def Alive (h : Heap) (target : Target) (a : Address) : Prop :=
  a ∈ h.objects ∧ (target.condemnsAddress a = true → (h.header a).isMarked = true)

theorem condemnsAddress_eq {s : Space} (hs : Space.ofAddress? a = some s) :
    target.condemnsAddress a = target.condemns s := by
  rw [Target.condemnsAddress, hs]

theorem alive_old (hw : h.WellFormed) (ht : t ∈ (Plan.ofHeap h target).transfers) :
    Alive h target t.old :=
  have hmem := (Plan.mem_map_old_iff hw).1 (List.mem_map_of_mem ht)
  ⟨hmem.1, fun _ => hmem.2.1⟩

/-- An object of an arena that is alive and does not move lies in an arena that is left
alone. -/
theorem not_condemned_of_alive (hw : h.WellFormed) (ha : Alive h target a)
    (hs : Space.ofAddress? a = some (.arena g))
    (hmem : a ∉ (Plan.ofHeap h target).transfers.map Transfer.old) :
    target.condemns (.arena g) = false := by
  by_contra hc
  have hc' : target.condemns (.arena g) = true := by simpa using hc
  refine hmem ((Plan.mem_map_old_iff hw).2 ⟨ha.1, ha.2 ?_, g, hs, hc'⟩)
  rw [condemnsAddress_eq hs, hc']

/-- What does not move and survives the sweep. -/
theorem place_eq_self (hw : h.WellFormed) (hs : ∀ g, Space.ofAddress? a = some (.arena g) →
    target.condemns (.arena g) = false) : (Plan.ofHeap h target).place a = a := by
  refine Plan.place_of_not_mem ?_
  intro hmem
  obtain ⟨-, -, g, hg, hc⟩ := (Plan.mem_map_old_iff hw).1 hmem
  rw [hs g hg] at hc
  exact absurd hc (by decide)

/-! ### The heap after the moves -/

/-- The heap after the moves, space by space. -/
structure Settled (h : Heap) (target : Target) (h' h'' : Heap) : Prop where
  wellFormed : h''.WellFormed
  top : ∀ g, (h''.arena g).top = (Plan.ofHeap h target).newTop.get g
  offsets : ∀ g, (h''.arena g).offsets =
    keptOffsets target h g ++ newOffsets (Plan.ofHeap h target) g
  settled : ∀ g, (h''.arena g).offsetsFrom (settledFrom (Plan.ofHeap h target) g) =
    newOffsets (Plan.ofHeap h target) g
  moved : ∀ t ∈ (Plan.ofHeap h target).transfers, ∀ i < t.move.size,
    (h''.arena t.dest).memory.byte (t.move.dest + i) =
      (h'.arena t.source).memory.byte (t.move.source + i)
  stayed : ∀ g, target.condemns (.arena g) = false → ∀ j < (h'.arena g).top,
    (h''.arena g).memory.byte j = (h'.arena g).memory.byte j
  large : h''.large = h'.large
  maxSize : h''.maxSize = h'.maxSize

/-- The moves of a plan come to the moves of each arena. -/
theorem arena_relocate_ofHeap (hw : h.WellFormed) (hplan : c.plan = Plan.ofHeap h target)
    (h' : Heap) (g : Generation) :
    (c.relocate h').arena g = (filled (Plan.ofHeap h target) h' g).rebuildStarts
        (settledFrom (Plan.ofHeap h target) g) ∧
      (c.relocate h').large = h'.large ∧ (c.relocate h').maxSize = h'.maxSize := by
  rw [← hplan]
  refine arena_relocate h' ?_ ?_ g
  · rw [hplan]
    exact Plan.promotions_gen2 hw
  · rw [hplan]
    intro k hc
    exact Plan.promotions_eq_nil hc

theorem relocate_spec (hw : h.WellFormed) (hr : Ready h target h')
    (hplan : c.plan = Plan.ofHeap h target) : Settled h target h' (c.relocate h') := by
  have harenas := fun g => (arena_relocate_ofHeap hw hplan h' g).1
  obtain ⟨-, hlarge, hmax⟩ := arena_relocate_ofHeap hw hplan h' .gen0
  have hfilled := filled_spec hw hr
  have hwell := fun g => wellFormed_filled hw hr (hfilled g)
  refine ⟨⟨?_, ?_, ?_, ?_⟩, ?_, ?_, ?_, ?_, ?_, hlarge, hmax⟩
  · intro g
    rw [harenas]
    exact (hwell g).1
  · exact hlarge ▸ hr.wellFormed.large
  · exact hlarge ▸ hr.wellFormed.large_size
  · exact hlarge ▸ hr.wellFormed.large_aligned
  · intro g
    rw [harenas]
    exact (hfilled g).top
  · intro g
    rw [harenas]
    exact (hwell g).2.1
  · intro g
    rw [harenas]
    exact (hwell g).2.2
  · intro t ht i hi
    rw [harenas]
    exact (hfilled t.dest).byte_new hw ht hi
  · intro g hc j hj
    rw [harenas]
    exact (hfilled g).kept hc j hj

namespace Settled

variable (hs : Settled h target h' h'') (hw : h.WellFormed) (hused : h.usedBytes ≤ spaceLimit)
include hs

theorem mem_offsets_iff {x : Nat} (hw : h.WellFormed) : x ∈ (h''.arena g).offsets ↔
    (target.condemns (.arena g) = false ∧ x ∈ (h.arena g).offsets) ∨
      ∃ t ∈ (Plan.ofHeap h target).transfers, t.dest = g ∧ t.move.dest = x := by
  rw [hs.offsets, List.mem_append, mem_newOffsets hw, keptOffsets]
  refine or_congr_left ?_
  by_cases hc : target.condemns (.arena g) = true
  · rw [if_pos hc, hc]
    simp
  · rw [if_neg hc]
    simp [hc]

theorem nodup_offsets (g : Generation) :
    (keptOffsets target h g ++ newOffsets (Plan.ofHeap h target) g).Nodup := by
  rw [← hs.offsets]
  exact hs.wellFormed.offsets_nodup (.arena g)

include hw

/-- No two objects get the same place. -/
theorem eq_of_dest_eq (ht : t ∈ (Plan.ofHeap h target).transfers)
    (hu : u ∈ (Plan.ofHeap h target).transfers) (hg : t.dest = u.dest)
    (hx : t.move.dest = u.move.dest) : t = u := by
  have hnodup := (List.nodup_append.1 (hs.nodup_offsets t.dest)).2.1
  rw [newOffsets, ← List.map_append] at hnodup
  have hlist : ∀ v ∈ (Plan.ofHeap h target).transfers, v.dest = t.dest →
      v.move ∈ ((Plan.ofHeap h target).spaces.get t.dest).stays ++
        (Plan.ofHeap h target).arrivals t.dest := by
    intro v hv hvt
    rcases Plan.transfer_dest hw hv with ⟨-, hm⟩ | ⟨-, -, hm⟩
    · exact List.mem_append_left _ (hvt ▸ hm)
    · exact List.mem_append_right _ (hvt ▸ hm)
  have hmove : t.move = u.move :=
    List.inj_on_of_nodup_map hnodup (hlist t ht rfl) (hlist u hu hg.symm) hx
  -- a move is either among those that stay or among those that arrive, not among both
  have hboth := (List.nodup_append.1 (List.Nodup.of_map _ hnodup)).2.2
  have hsource : t.source = u.source := by
    rcases Plan.transfer_dest hw ht with ⟨htd, htm⟩ | ⟨htd, htne, htm⟩ <;>
      rcases Plan.transfer_dest hw hu with ⟨hud, hum⟩ | ⟨hud, hune, hum⟩
    · rw [← htd, hg, hud]
    · rw [hmove] at htm
      exact absurd rfl (hboth _ htm _ (hg ▸ hum))
    · rw [← hmove, ← hg] at hum
      exact absurd rfl (hboth _ hum _ htm)
    · rw [htd] at htne hg
      rw [hud] at hune hg
      revert htne hune hg
      cases t.source <;> cases u.source <;> decide
  cases t
  cases u
  simp only at hsource hg hmove
  rw [hsource, hg, hmove]

include hused

omit hs in
theorem ofAddress?_new (ht : t ∈ (Plan.ofHeap h target).transfers) :
    Space.ofAddress? t.new = some (.arena t.dest) ∧
      (Space.arena t.dest).offset t.new = t.move.dest :=
  have hlt := Plan.dest_lt hw hused ht
  ⟨Space.ofAddress?_address hlt, Space.offset_address hlt⟩

/-- A new place is not that of an object that does not move. -/
theorem new_ne_kept (ht : t ∈ (Plan.ofHeap h target).transfers) (hb : b ∈ h.objects)
    (hout : ∀ g, Space.ofAddress? b = some (.arena g) → target.condemns (.arena g) = false) :
    t.new ≠ b := by
  rintro rfl
  obtain ⟨hspace, hoff⟩ := ofAddress?_new hw hused ht
  obtain ⟨s, hs', hx⟩ := hw.mem_objects_iff.1 hb
  obtain rfl : s = .arena t.dest := Option.some.inj (hs'.symm.trans hspace)
  rw [hoff] at hx
  have hc := hout t.dest hspace
  have hkept : t.move.dest ∈ keptOffsets target h t.dest := by
    rw [keptOffsets, if_neg (by rw [hc]; decide)]
    exact hx
  have hnew : t.move.dest ∈ newOffsets (Plan.ofHeap h target) t.dest :=
    (mem_newOffsets hw).2 ⟨t, ht, rfl, rfl⟩
  exact absurd rfl ((List.nodup_append.1 (hs.nodup_offsets t.dest)).2.2 _ hkept _ hnew)

end Settled

/-! ### Survivors at their new places -/

section Carries

variable {before swept after : Heap}

/-- The large blocks that a sweep keeps. -/
def KeepsBlock (h : Heap) (target : Target) (b : Block) : Prop :=
  target.condemns .large = true →
    (h.header (Space.large.address b.offset)).isMarked = true

theorem ready_of_swept (hw : h.WellFormed) (hl : h.SameLayout before)
    (hroom : ∀ g, (Plan.ofHeap h target).newTop.get g ≤ (before.arena g).capacity)
    {keep : Block → Prop} (hs : Heap.Swept keep before swept) : Ready h target swept := by
  have harena : ∀ g, swept.arena g = before.arena g := fun g => by
    rw [Heap.arena, hs.arenas]
    rfl
  refine ⟨hs.wellFormed (hl.wellFormed hw), ?_, ?_, ?_, ?_⟩
  · intro g
    rw [harena, hl.top]
  · intro g
    rw [harena]
    exact hl.offsetsIn hw (.arena g)
  · intro g x hx
    rw [harena]
    exact hl.sizeAt (.arena g) x hx
  · intro g
    rw [harena]
    exact hroom g

variable (hw : h.WellFormed) (hused : h.usedBytes ≤ spaceLimit) (hl : h.SameLayout before)
  (hsw : Heap.Swept (KeepsBlock h target) before swept) (hs : Settled h target swept after)
include hw hused hl hsw hs

omit hused hs in
/-- An object that is alive stays where it is or has a transfer. -/
theorem alive_cases (ha : Alive h target a) :
    (∃ t ∈ (Plan.ofHeap h target).transfers, t.old = a) ∨
      (Plan.ofHeap h target).place a = a ∧
        ((∃ g, Space.ofAddress? a = some (.arena g) ∧ target.condemns (.arena g) = false ∧
            (Space.arena g).offset a ∈ (h.arena g).offsets) ∨
          ∃ b ∈ swept.large.live, Space.ofAddress? a = some .large ∧
            Space.large.offset a = b.offset) := by
  by_cases hmem : a ∈ (Plan.ofHeap h target).transfers.map Transfer.old
  · obtain ⟨t, ht, hta⟩ := List.mem_map.1 hmem
    exact Or.inl ⟨t, ht, hta⟩
  · refine Or.inr ⟨Plan.place_of_not_mem hmem, ?_⟩
    obtain ⟨s, hsp, hx⟩ := hw.mem_objects_iff.1 ha.1
    cases s with
    | arena g => exact Or.inl ⟨g, hsp, not_condemned_of_alive hw ha hsp hmem, hx⟩
    | large =>
      obtain ⟨b, hb, hoff⟩ := List.mem_map.1 hx
      refine Or.inr ⟨b, (hsw.live b).2 ⟨hl.live.symm ▸ hb, ?_⟩, hsp, hoff.symm⟩
      intro hc
      rw [show b.offset = Space.large.offset a from hoff, Space.address_offset hsp]
      exact ha.2 (by rw [condemnsAddress_eq hsp, hc])

theorem mem_objects_after (b : Address) :
    b ∈ after.objects ↔ ∃ a, Alive h target a ∧ (Plan.ofHeap h target).place a = b := by
  rw [hs.wellFormed.mem_objects_iff]
  constructor
  · rintro ⟨s, hsp, hx⟩
    -- an object of the new heap has stayed where it is or has arrived there
    cases s with
    | arena g =>
      rcases (hs.mem_offsets_iff hw).1 hx with ⟨hc, hold⟩ | ⟨t, ht, rfl, hdest⟩
      · refine ⟨b, ⟨hw.mem_objects_iff.2 ⟨_, hsp, hold⟩, ?_⟩, place_eq_self hw ?_⟩
        · intro hcond
          rw [condemnsAddress_eq hsp, hc] at hcond
          exact absurd hcond (by decide)
        · intro k hk
          rw [Space.arena.inj (Option.some.inj (hk.symm.trans hsp))]
          exact hc
      · refine ⟨t.old, alive_old hw ht, ?_⟩
        rw [Plan.place_old hw ht, Transfer.new, hdest, Space.address_offset hsp]
    | large =>
      have hx' : Space.large.offset b ∈ swept.large.offsets := hs.large ▸ hx
      obtain ⟨block, hblock, hoff⟩ := List.mem_map.1 hx'
      obtain ⟨hlive, hkeep⟩ := (hsw.live block).1 hblock
      rw [hl.live] at hlive
      refine ⟨b, ⟨hw.mem_objects_iff.2 ⟨_, hsp, hoff ▸ List.mem_map_of_mem hlive⟩, ?_⟩,
        place_eq_self hw ?_⟩
      · intro hcond
        rw [condemnsAddress_eq hsp] at hcond
        have hm := hkeep hcond
        rwa [show block.offset = Space.large.offset b from hoff, Space.address_offset hsp] at hm
      · intro k hk
        rw [hsp] at hk
        exact absurd (Option.some.inj hk) (by simp)
  · rintro ⟨a, ha, rfl⟩
    rcases alive_cases hw hl hsw ha with ⟨t, ht, rfl⟩ | ⟨hplace, hstay | hlarge⟩
    · obtain ⟨hsp, hoff⟩ := Settled.ofAddress?_new hw hused ht
      rw [Plan.place_old hw ht]
      refine ⟨_, hsp, ?_⟩
      rw [hoff]
      exact (hs.mem_offsets_iff hw).2 (Or.inr ⟨t, ht, rfl, rfl⟩)
    · obtain ⟨g, hsp, hc, hx⟩ := hstay
      rw [hplace]
      exact ⟨_, hsp, (hs.mem_offsets_iff hw).2 (Or.inl ⟨hc, hx⟩)⟩
    · obtain ⟨block, hblock, hsp, hoff⟩ := hlarge
      rw [hplace]
      refine ⟨_, hsp, ?_⟩
      rw [hoff]
      show block.offset ∈ after.large.offsets
      rw [hs.large]
      exact List.mem_map_of_mem hblock

theorem place_inj (ha : Alive h target a) (hb : Alive h target b)
    (heq : (Plan.ofHeap h target).place a = (Plan.ofHeap h target).place b) : a = b := by
  -- whoever has kept its place lies outside of the arenas that are filled anew
  have hout : ∀ c, ((∃ g, Space.ofAddress? c = some (.arena g) ∧
      target.condemns (.arena g) = false ∧ (Space.arena g).offset c ∈ (h.arena g).offsets) ∨
      ∃ block ∈ swept.large.live, Space.ofAddress? c = some .large ∧
        Space.large.offset c = block.offset) →
      ∀ g, Space.ofAddress? c = some (.arena g) → target.condemns (.arena g) = false := by
    rintro c (⟨g, hg, hc, -⟩ | ⟨-, -, hlarge, -⟩) k hk
    · rw [Space.arena.inj (Option.some.inj (hk.symm.trans hg))]
      exact hc
    · rw [hlarge] at hk
      exact absurd (Option.some.inj hk) (by simp)
  rcases alive_cases hw hl hsw ha with ⟨t, ht, rfl⟩ | ⟨hpa, hsa⟩ <;>
    rcases alive_cases hw hl hsw hb with ⟨u, hu, rfl⟩ | ⟨hpb, hsb⟩
  · rw [Plan.place_old hw ht, Plan.place_old hw hu] at heq
    obtain ⟨hst, hot⟩ := Settled.ofAddress?_new hw hused ht
    obtain ⟨hsu, hou⟩ := Settled.ofAddress?_new hw hused hu
    rw [heq] at hst hot
    have hg := Space.arena.inj (Option.some.inj (hst.symm.trans hsu))
    rw [hg] at hot
    rw [hs.eq_of_dest_eq hw ht hu hg (hot.symm.trans hou)]
  · rw [Plan.place_old hw ht, hpb] at heq
    exact absurd heq (hs.new_ne_kept hw hused ht hb.1 (hout b hsb))
  · rw [Plan.place_old hw hu, hpa] at heq
    exact absurd heq.symm (hs.new_ne_kept hw hused hu ha.1 (hout a hsa))
  · rwa [hpa, hpb] at heq

theorem byte_after (ha : Alive h target a) {i : Nat} (hi : i < (before.header a).blockSize) :
    after.byte ((Plan.ofHeap h target).place a) i = before.byte a i := by
  have harena : ∀ g, swept.arena g = before.arena g := fun g => by
    rw [Heap.arena, hsw.arenas]
    rfl
  rw [hl.blockSize hw ha.1] at hi
  rcases alive_cases hw hl hsw ha with ⟨t, ht, rfl⟩ | ⟨hplace, hstay | hlarge⟩
  · -- an object that has moved was copied from where the sweep had left it
    obtain ⟨hsp, hoff⟩ := Settled.ofAddress?_new hw hused ht
    have hold := Plan.ofAddress?_old hw ht
    have hold' := Plan.offset_old hw ht
    have hsize : t.move.size = (h.header t.old).blockSize := by
      rw [(Plan.transfer_source hw ht).2.2.2, Heap.header_eq hold, hold']
      rfl
    rw [Plan.place_old hw ht, Heap.byte_eq hsp, Heap.byte_eq hold, hoff, hold']
    show (after.arena t.dest).memory.byte _ = (before.arena t.source).memory.byte _
    rw [hs.moved t ht i (hsize ▸ hi), harena]
  · obtain ⟨g, hsp, hc, hx⟩ := hstay
    have hin := (hw.arena g).add_sizeAt_le hx
    have hsize : (h.arena g).sizeAt ((Space.arena g).offset a) = (h.header a).blockSize :=
      Heap.sizeAt_offset hsp
    rw [hplace, Heap.byte_eq hsp, Heap.byte_eq hsp]
    show (after.arena g).memory.byte _ = (before.arena g).memory.byte _
    rw [hs.stayed g hc _ (by rw [harena, hl.top]; omega), harena]
  · obtain ⟨block, hblock, hsp, hoff⟩ := hlarge
    have hlive : block ∈ h.large.live := hl.live ▸ ((hsw.live block).1 hblock).1
    have hsize := LargeSpace.le_blockSizeFor (h.large.header block.offset).blockSize
    have hheader : h.header a = h.large.header block.offset := by
      rw [Heap.header_eq hsp, hoff]
      rfl
    rw [← hw.large_size block hlive, ← hheader] at hsize
    rw [hplace, Heap.byte_eq hsp, Heap.byte_eq hsp, hoff]
    show after.large.memory.byte _ = before.large.memory.byte _
    rw [hs.large, hsw.byte_block hblock (by omega)]

/-- Sweep and moves carry what is alive to its new places. -/
theorem carries_relocate :
    Heap.Carries (Plan.ofHeap h target).place (Alive h target) before after where
  wellFormed := hs.wellFormed
  mem := mem_objects_after hw hused hl hsw hs
  inj _ _ := place_inj hw hused hl hsw hs
  byte _ ha _ hi := byte_after hw hused hl hsw hs ha hi

end Carries

end Compaction

end GenerationalHeap
