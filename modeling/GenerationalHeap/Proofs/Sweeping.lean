/-
Sweeping the large object space.

* `Heap.Swept` — some large blocks were given back; all others are as before.
* `Sweep.FromDead` — the orphans of a sweep are slots of the objects that it gives back.
* `Compaction.sweepLarge_spec` — exactly the unmarked large objects are given back, if
  large objects are collected at all.
-/
import GenerationalHeap.Compaction
import GenerationalHeap.Proofs.Actions
import GenerationalHeap.Proofs.Objects

namespace GenerationalHeap

namespace Heap

/-- The heap `h'` is `h` without the large blocks that do not have the property `keep`. -/
structure Swept (keep : Block → Prop) (h h' : Heap) : Prop where
  arenas : h'.arenas = h.arenas
  maxSize : h'.maxSize = h.maxSize
  blocks : h'.large.Blocks
  live : ∀ b, b ∈ h'.large.live ↔ b ∈ h.large.live ∧ keep b
  byte : ∀ b ∈ h'.large.live, ∀ i < b.stop, h'.large.memory.byte i = h.large.memory.byte i
  used : h'.large.used ≤ h.large.used

namespace Swept

variable {keep keep' : Block → Prop} {h h' : Heap}

theorem refl (hw : h.WellFormed) : Swept (fun _ => True) h h where
  arenas := rfl
  maxSize := rfl
  blocks := hw.large
  live _ := (and_iff_left trivial).symm
  byte _ _ _ _ := rfl
  used := Nat.le_refl _

theorem congr (hs : Swept keep h h') (hk : ∀ b ∈ h.large.live, keep' b ↔ keep b) :
    Swept keep' h h' where
  arenas := hs.arenas
  maxSize := hs.maxSize
  blocks := hs.blocks
  live b := (hs.live b).trans (and_congr_right fun hb => (hk b hb).symm)
  byte := hs.byte
  used := hs.used

/-- A block that is kept has its header and its payload as before. -/
theorem byte_block (hs : Swept keep h h') {b : Block} (hb : b ∈ h'.large.live) {i : Nat}
    (hi : i < b.size) : h'.large.memory.byte (b.offset + i) = h.large.memory.byte (b.offset + i) :=
  hs.byte b hb _ (Nat.add_lt_add_left hi _)

theorem header (hs : Swept keep h h') (hw : h.WellFormed) {b : Block}
    (hb : b ∈ h'.large.live) : h'.large.header b.offset = h.large.header b.offset := by
  have hsize := LargeSpace.le_blockSizeFor (h.large.header b.offset).blockSize
  rw [← hw.large_size b ((hs.live b).1 hb).1] at hsize
  have hhead := (h.large.header b.offset).headerSize_le
  exact Header.load_congr fun i hi => hs.byte_block hb (by omega)

/-- A block that is kept is live, and its header is found by its address. -/
theorem of_live (hs : Swept keep h h') (hw : h.WellFormed) {b : Block} (hb : b ∈ h.large.live)
    (hk : keep b) : b ∈ h'.large.live ∧ b.offset < spaceLimit ∧
      h'.header (Space.large.address b.offset) = h.large.header b.offset := by
  have hb' : b ∈ h'.large.live := (hs.live b).2 ⟨hb, hk⟩
  have hlt : b.offset < spaceLimit := hw.lt_spaceLimit (s := .large) (List.mem_map_of_mem hb)
  refine ⟨hb', hlt, ?_⟩
  rw [Heap.header_eq (Space.ofAddress?_address hlt), Space.offset_address hlt]
  exact hs.header hw hb'

theorem wellFormed (hs : Swept keep h h') (hw : h.WellFormed) : h'.WellFormed where
  arena g := by
    rw [arena, hs.arenas]
    exact hw.arena g
  large := hs.blocks
  large_size b hb := by
    rw [hs.header hw hb]
    exact hw.large_size b ((hs.live b).1 hb).1
  large_aligned b hb := by
    rw [hs.header hw hb]
    exact hw.large_aligned b ((hs.live b).1 hb).1

/-- A release of one more block. -/
theorem freeLarge (hs : Swept keep h h') {b : Block} (hb : b ∈ h'.large.live)
    (hlt : b.offset < spaceLimit) :
    ∃ h'', Heap.freeLarge (Space.large.address b.offset) h' = .ok b.size h'' ∧
      Swept (fun c => keep c ∧ c ≠ b) h h'' := by
  obtain ⟨large, hfree, hblocks, hreleased⟩ := LargeSpace.freeAt_spec hs.blocks hb
  have hsub : ∀ c ∈ large.live, c ∈ h'.large.live := fun c hc =>
    (Block.mem_erase.1 (hreleased.live ▸ hc)).1
  refine ⟨⟨h'.arenas, large, h'.maxSize⟩, ?_, hs.arenas, hs.maxSize, hblocks, ?_, ?_, ?_⟩
  · rw [Heap.freeLarge, Space.offset_address hlt]
    simp only [hfree]
  · intro c
    show c ∈ large.live ↔ _
    rw [hreleased.live, hs.blocks.live.mem_erase_iff_ne hb, hs.live, and_assoc]
  · intro c hc i hi
    exact (hreleased.byte c hc i hi).trans (hs.byte c (hsub c hc) i hi)
  · have hused := hreleased.used
    have hle := hs.used
    show large.used ≤ h.large.used
    omega

end Swept

end Heap

/-- The orphans of a sweep are finalizer slots of unmarked large objects. -/
def Sweep.FromDead (s : Sweep) (h : Heap) : Prop :=
  ∀ slot ∈ s.orphans, slot ≠ 0 ∧ ∃ b ∈ h.large.live,
    (h.large.header b.offset).isMarked = false ∧ (h.large.header b.offset).slot = slot

theorem Sweep.fromDead_empty (h : Heap) : Sweep.FromDead {} h :=
  fun _ hslot => absurd hslot List.not_mem_nil

namespace Compaction

variable {keep : Block → Prop} {h h' : Heap}

/-- A live large block is given back unless it is marked. -/
theorem sweepObject_spec (hw : h.WellFormed) (hs : Heap.Swept keep h h') {b : Block}
    (hb : b ∈ h.large.live) (hk : keep b) {s : Sweep} (hdead : s.FromDead h) :
    ∃ s' h'', sweepObject s (Space.large.address b.offset) h' = .ok s' h'' ∧
      Heap.Swept (fun c => keep c ∧ (c = b → (h.large.header b.offset).isMarked = true)) h h'' ∧
      s'.FromDead h := by
  obtain ⟨hb', hlt, hheader⟩ := hs.of_live hw hb hk
  -- a marked block stays, any other one is freed and its slot is noted
  by_cases hm : (h.large.header b.offset).isMarked = true
  · refine ⟨s, h', ?_, hs.congr fun c _ => ⟨fun hc => hc.1, fun hc => ⟨hc, fun _ => hm⟩⟩, hdead⟩
    rw [sweepObject, Action.get_bind, hheader]
    dsimp only
    rw [if_pos hm]
    rfl
  · obtain ⟨h'', hrun, hswept⟩ := hs.freeLarge hb' hlt
    refine ⟨⟨s.objects + 1, s.bytes + b.size, s.orphans ++
      if (h.large.header b.offset).slot = 0 then [] else [(h.large.header b.offset).slot]⟩,
      h'', ?_, ?_, ?_⟩
    · rw [sweepObject, Action.get_bind, hheader]
      dsimp only
      rw [if_neg hm, Action.bind_of_ok hrun]
      rfl
    · refine hswept.congr ?_
      intro c _
      refine and_congr_right ?_
      intro _
      exact ⟨fun himp heq => hm (himp heq), fun hne heq => absurd heq hne⟩
    · intro slot hslot
      rcases List.mem_append.1 hslot with hslot | hslot
      · exact hdead slot hslot
      · split at hslot
        · exact absurd hslot List.not_mem_nil
        · rename_i hne
          obtain rfl := List.mem_singleton.1 hslot
          exact ⟨hne, b, hb, by simpa using hm, rfl⟩

theorem sweepObjects_spec (hw : h.WellFormed) {blocks : List Block} (hn : blocks.Nodup)
    (hsub : ∀ b ∈ blocks, b ∈ h.large.live) (hs : Heap.Swept keep h h')
    (hk : ∀ b ∈ blocks, keep b) {s : Sweep} (hdead : s.FromDead h) :
    ∃ s' h'', (blocks.map fun b => Space.large.address b.offset).foldlM sweepObject s h' =
        .ok s' h'' ∧
      Heap.Swept (fun c => keep c ∧ (c ∈ blocks → (h.large.header c.offset).isMarked = true))
        h h'' ∧ s'.FromDead h := by
  induction blocks generalizing h' keep s with
  | nil =>
    exact ⟨s, h', rfl, hs.congr fun c _ => and_iff_left fun hc => absurd hc List.not_mem_nil, hdead⟩
  | cons b rest ih =>
    obtain ⟨hnot, hn⟩ := List.nodup_cons.1 hn
    obtain ⟨s₁, h₁, hfirst, hs₁, hdead₁⟩ :=
      sweepObject_spec hw hs (hsub b List.mem_cons_self) (hk b List.mem_cons_self) hdead
    obtain ⟨s₂, h₂, hrest, hs₂, hdead₂⟩ := ih hn
      (fun c hc => hsub c (List.mem_cons_of_mem _ hc)) hs₁
      (fun c hc => ⟨hk c (List.mem_cons_of_mem _ hc), fun heq => absurd (heq ▸ hc) hnot⟩) hdead₁
    refine ⟨s₂, h₂, ?_, hs₂.congr ?_, hdead₂⟩
    · rw [List.map_cons, List.foldlM_cons, Action.bind_of_ok hfirst]
      exact hrest
    · -- the blocks differ, so what is said of one does not touch the others
      intro c _
      rw [List.mem_cons, and_assoc]
      refine and_congr_right ?_
      intro _
      constructor
      · exact fun hc => ⟨fun heq => heq ▸ hc (Or.inl heq), fun hin => hc (Or.inr hin)⟩
      · rintro ⟨hself, hin⟩ (rfl | hc)
        · exact hself rfl
        · exact hin hc

/-- Exactly the unmarked large objects are given back, if large objects are collected. -/
theorem sweepLarge_spec (hw : h.WellFormed) (c : Compaction) :
    ∃ s h', c.sweepLarge h = .ok s h' ∧
      Heap.Swept (fun b => c.plan.target.condemns .large = true →
        (h.large.header b.offset).isMarked = true) h h' ∧
      s.FromDead h ∧ (s.orphans ≠ [] → c.plan.target.condemns .large = true) := by
  by_cases hc : c.plan.target.condemns .large = true
  · have hn : h.large.live.Nodup := hw.large.live.nodup
    have hlist : h.objectsIn .large = h.large.live.map fun b => Space.large.address b.offset :=
      List.map_map
    obtain ⟨s, h', hrun, hs, hdead⟩ := sweepObjects_spec hw hn (fun _ hb => hb) (.refl hw)
      (fun _ _ => trivial) (Sweep.fromDead_empty h)
    refine ⟨s, h', ?_, hs.congr ?_, hdead, fun _ => hc⟩
    · rw [sweepLarge, if_pos hc, Action.get_bind, hlist]
      exact hrun
    · intro b hb
      exact ⟨fun hm => ⟨trivial, fun _ => hm hc⟩, fun hm _ => hm.2 hb⟩
  · refine ⟨{}, h, ?_, (Heap.Swept.refl hw).congr ?_, Sweep.fromDead_empty h,
      fun hne => absurd rfl hne⟩
    · rw [sweepLarge, if_neg hc]
      rfl
    · intro b _
      exact ⟨fun _ => trivial, fun _ hcond => absurd hcond hc⟩

end Compaction

end GenerationalHeap
