/-
The free blocks are the gaps between the live blocks.

A free block that touches another one or the top is never left behind, and no byte
below the top is lost.

* `Block.IsGap` — a range of bytes between live blocks that cannot be made larger.
* `Block.Ordered.takeFit?_spec`, `Block.Ordered.merge` — which free blocks are left
  when bytes are taken from one of them, or when a block joins them.
* `LargeSpace.Tight` — the free blocks cover what is not live, and do not touch.
* `LargeSpace.Tight.mem_free_iff` — such free blocks are the gaps.
* `LargeSpace.Tight.after_allocate`, `LargeSpace.Tight.freeAt_spec` — allocation and
  release leave such a space behind.
-/
import GenerationalHeap.Proofs.Actions
import GenerationalHeap.Proofs.LargeBlocks

namespace GenerationalHeap

namespace Block

/-! ### The bytes of blocks -/

/-- A byte lies in a block. -/
def Holds (b : Block) (i : Nat) : Prop := b.offset ≤ i ∧ i < b.stop

/-- A byte lies in one of some blocks. -/
def Covers (blocks : List Block) (i : Nat) : Prop := ∃ b ∈ blocks, b.Holds i

/-- A range of bytes between live blocks that cannot be made larger: no byte of it is in
a live block, it begins at the first byte of the space or behind a live block, and a live
block begins where it ends. -/
structure IsGap (live : List Block) (b : Block) : Prop where
  size_pos : 0 < b.size
  clear : ∀ i, b.Holds i → ¬ Covers live i
  below : b.offset = 0 ∨ Covers live (b.offset - 1)
  above : Covers live b.stop

theorem holds_offset {b : Block} (hb : 0 < b.size) : b.Holds b.offset :=
  ⟨Nat.le_refl _, offset_lt_stop hb⟩

theorem Apart.not_holds {b c : Block} (h : b.Apart c) {i : Nat} (hb : b.Holds i) :
    ¬ c.Holds i := by
  rintro ⟨hlow, hhigh⟩
  obtain ⟨hlow', hhigh'⟩ := hb
  rcases h with h | h
  · omega
  · omega

/-- Two gaps with a common byte are the same. -/
theorem IsGap.eq_of_holds {live : List Block} {b c : Block} (hb : IsGap live b)
    (hc : IsGap live c) {i : Nat} (hbi : b.Holds i) (hci : c.Holds i) : b = c := by
  -- the byte in front of the one that begins higher would be live and lie in the other
  have hstart : ∀ {d e : Block}, IsGap live d → IsGap live e → d.Holds i → e.Holds i →
      ¬ d.offset < e.offset := by
    intro d e hd he hdi hei hlt
    rcases he.below with hzero | hcover
    · omega
    · exact hd.clear _ ⟨by omega, by have := hdi.2; have := hei.1; omega⟩ hcover
  have hend : ∀ {d e : Block}, IsGap live d → IsGap live e → d.Holds i → e.Holds i →
      ¬ d.stop < e.stop := by
    intro d e hd he hdi hei hlt
    exact he.clear _ ⟨by have := hdi.2; have := hei.1; omega, hlt⟩ hd.above
  have hoffset : b.offset = c.offset :=
    Nat.le_antisymm (Nat.not_lt.1 (hstart hc hb hci hbi)) (Nat.not_lt.1 (hstart hb hc hbi hci))
  have hstop : b.stop = c.stop :=
    Nat.le_antisymm (Nat.not_lt.1 (hend hc hb hci hbi)) (Nat.not_lt.1 (hend hb hc hbi hci))
  obtain ⟨bo, bs⟩ := b
  obtain ⟨co, cs⟩ := c
  unfold stop at hstop
  dsimp only at hoffset hstop
  rw [Block.mk.injEq]
  omega

theorem covers_insert {b : Block} {blocks : List Block}
    (hnew : ∀ c ∈ blocks, c.offset ≠ b.offset) {i : Nat} :
    Covers (insert b blocks) i ↔ b.Holds i ∨ Covers blocks i := by
  constructor
  · rintro ⟨c, hc, hci⟩
    rcases (mem_insert hnew).1 hc with rfl | hc
    · exact Or.inl hci
    · exact Or.inr ⟨c, hc, hci⟩
  · rintro (hb | ⟨c, hc, hci⟩)
    · exact ⟨b, (mem_insert hnew).2 (Or.inl rfl), hb⟩
    · exact ⟨c, (mem_insert hnew).2 (Or.inr hc), hci⟩

namespace Ordered

variable {blocks : List Block}

theorem covers_erase (h : Ordered blocks) {b : Block} (hb : b ∈ blocks) {i : Nat} :
    b.Holds i ∨ Covers (Block.erase b.offset blocks) i ↔ Covers blocks i := by
  constructor
  · rintro (hbi | ⟨c, hc, hci⟩)
    · exact ⟨b, hb, hbi⟩
    · exact ⟨c, (mem_erase.1 hc).1, hci⟩
  · rintro ⟨c, hc, hci⟩
    by_cases hcb : c = b
    · exact Or.inl (hcb ▸ hci)
    · exact Or.inr ⟨c, (h.mem_erase_iff_ne hb).2 ⟨hc, hcb⟩, hci⟩

/-- An ordered list is told by its members. -/
theorem ext {others : List Block} (h : Ordered blocks) (h' : Ordered others)
    (hmem : ∀ b, b ∈ blocks ↔ b ∈ others) : blocks = others := by
  have hperm : blocks.Perm others := (List.perm_ext_iff_of_nodup h.nodup h'.nodup).2 hmem
  refine hperm.eq_of_pairwise ?_ h.offset_lt h'.offset_lt
  intro b c _ _ hbc hcb
  exact absurd hcb (Nat.lt_asymm hbc)

/-- The block below an offset is the one that starts last. -/
theorem below?_eq_some_iff (h : Ordered blocks) {b : Block} {offset : Nat} :
    below? offset blocks = some b ↔
      b ∈ blocks ∧ b.offset < offset ∧ ∀ c ∈ blocks, c.offset < offset → c.offset ≤ b.offset := by
  have hlast : ∀ b, below? offset blocks = some b →
      b ∈ blocks ∧ b.offset < offset ∧
        ∀ c ∈ blocks, c.offset < offset → c.offset ≤ b.offset := by
    intro b hb
    obtain ⟨front, hfront⟩ := List.getLast?_eq_some_iff.1 hb
    have hmem : ∀ c, c ∈ front ++ [b] ↔ c ∈ blocks ∧ c.offset < offset := by
      intro c
      rw [← hfront, List.mem_filter, decide_eq_true_eq]
    obtain ⟨hb, hlt⟩ := (hmem b).1 (List.mem_append_right _ (List.mem_singleton_self b))
    refine ⟨hb, hlt, ?_⟩
    intro c hc hclt
    -- the blocks are in order, so the last one below lies highest
    have hpairs : (front ++ [b]).Pairwise fun c d => c.offset < d.offset :=
      hfront ▸ h.offset_lt.filter _
    rcases List.mem_append.1 ((hmem c).2 ⟨hc, hclt⟩) with hc | hc
    · exact Nat.le_of_lt ((List.pairwise_append.1 hpairs).2.2 c hc b (List.mem_singleton_self b))
    · exact Nat.le_of_eq (congrArg Block.offset (List.mem_singleton.1 hc))
  refine ⟨hlast b, ?_⟩
  rintro ⟨hb, hlt, hmax⟩
  cases hbelow : below? offset blocks with
  | none =>
    have hnil := List.getLast?_eq_none_iff.1 hbelow
    have hmem : b ∈ blocks.filter (·.offset < offset) :=
      List.mem_filter.2 ⟨hb, decide_eq_true hlt⟩
    rw [hnil] at hmem
    exact absurd hmem List.not_mem_nil
  | some c =>
    obtain ⟨hc, hclt, hcmax⟩ := hlast c hbelow
    rw [h.eq_of_offset_eq hc hb (Nat.le_antisymm (hmax c hc hclt) (hcmax b hb hlt))]

/-- A block that starts below an offset and does not end below it is the one that
`below?` gives. -/
theorem below?_of_le_stop (h : Ordered blocks) {b : Block} (hb : b ∈ blocks) {offset : Nat}
    (hlow : b.offset < offset) (hstop : offset ≤ b.stop) : below? offset blocks = some b := by
  refine h.below?_eq_some_iff.2 ⟨hb, hlow, ?_⟩
  intro c hc hlt
  by_cases hcb : c = b
  · exact Nat.le_of_eq (congrArg Block.offset hcb)
  · rcases h.apart hc hb hcb with hapart | hapart
    · exact Nat.le_trans c.offset_le_stop hapart
    · omega

end Ordered

/-! ### Taking bytes from a free block -/

theorem takeFit?_eq_none_iff {size : Nat} {blocks : List Block} :
    takeFit? size blocks = none ↔ ∀ b ∈ blocks, b.size < size := by
  rw [takeFit?, Option.map_eq_none_iff, List.find?_eq_none]
  simp only [decide_eq_true_eq, Nat.not_le]

/-- No block of a list begins where another one ends. -/
def Parted (blocks : List Block) : Prop := ∀ b ∈ blocks, ∀ c ∈ blocks, b.stop ≠ c.offset

section

variable {blocks left : List Block} {size offset : Nat} (h : Ordered blocks)
  (htake : takeFit? size blocks = some (offset, left))
include h htake

end

/-! ### Joining free blocks -/

/-- A block has taken in free blocks so that none of the others touches it. -/
structure Merged (b : Block) (blocks : List Block) (merged : Block) (others : List Block) :
    Prop where
  holds : ∀ i, merged.Holds i ∨ Covers others i ↔ b.Holds i ∨ Covers blocks i
  below : ∀ c ∈ others, c.stop ≠ merged.offset
  above : ∀ c ∈ others, merged.stop ≠ c.offset

theorem holds_union {b c : Block} (h : b.stop = c.offset) {i : Nat} :
    (⟨b.offset, b.size + c.size⟩ : Block).Holds i ↔ b.Holds i ∨ c.Holds i := by
  unfold Holds stop at *
  dsimp only
  omega

/-- Joining with the block above leaves none that touches, if none touched from below. -/
theorem Ordered.merge_above {blocks : List Block} (h : Ordered blocks) (hparted : Parted blocks)
    {b : Block} (hbelow : ∀ c ∈ blocks, c.stop ≠ b.offset) :
    Merged b blocks (joinAbove b blocks).1 (joinAbove b blocks).2 := by
  rw [joinAbove]
  cases hat : at? b.stop blocks with
  | none =>
    refine ⟨fun i => Iff.rfl, hbelow, ?_⟩
    intro c hc hstop
    rw [h.at?_eq_some_iff.2 ⟨hc, hstop.symm⟩] at hat
    exact absurd hat (by simp)
  | some c =>
    obtain ⟨hc, hoffset⟩ := h.at?_eq_some_iff.1 hat
    refine ⟨?_, fun d hd => hbelow d (mem_erase.1 hd).1, ?_⟩
    · intro i
      rw [holds_union hoffset.symm, or_assoc, h.covers_erase hc]
    · intro d hd hstop
      have hcd : c.stop = d.offset := by
        unfold stop at *
        dsimp only at hstop
        omega
      exact hparted c hc d (mem_erase.1 hd).1 hcd

theorem Ordered.merge {blocks : List Block} (h : Ordered blocks) (hparted : Parted blocks)
    (b : Block) : Merged b blocks (b.join blocks).1 (b.join blocks).2 := by
  -- a free block that touches from below is the one that `below?` gives
  have hno : (∀ c, below? b.offset blocks = some c → c.stop ≠ b.offset) →
      ∀ c ∈ blocks, c.stop ≠ b.offset := by
    intro hbelow c hc hstop
    have hlow : c.offset < b.offset := hstop ▸ offset_lt_stop (h.2 c hc)
    exact hbelow c (h.below?_of_le_stop hc hlow (Nat.le_of_eq hstop.symm)) hstop
  rw [Block.join]
  cases hbelow : below? b.offset blocks with
  | none =>
    refine h.merge_above hparted (hno ?_)
    intro c hc
    rw [hbelow] at hc
    exact absurd hc (by simp)
  | some c =>
    have hc := (h.below?_eq_some_iff.1 hbelow).1
    by_cases hstop : c.stop = b.offset
    · simp only [hstop, if_true]
      have hmerged := (h.erase c.offset).merge_above
        (fun d hd e he => hparted d (mem_erase.1 hd).1 e (mem_erase.1 he).1)
        (b := ⟨c.offset, c.size + b.size⟩)
        (fun d hd => hparted d (mem_erase.1 hd).1 c hc)
      refine ⟨?_, hmerged.below, hmerged.above⟩
      intro i
      rw [← h.covers_erase hc, ← or_assoc, or_comm (a := b.Holds i), ← holds_union hstop]
      exact hmerged.holds i
    · simp only [hstop, if_false]
      refine h.merge_above hparted (hno ?_)
      intro d hd
      rw [hbelow, Option.some.injEq] at hd
      exact hd ▸ hstop

end Block

/-! ### Free blocks that are as large as can be -/

namespace LargeSpace

/-- The free blocks are all that is not live, and none of them touches another one or the
top. -/
structure Tight (s : LargeSpace) : Prop where
  blocks : s.Blocks
  covered : ∀ i < s.top, Block.Covers s.live i ∨ Block.Covers s.free i
  parted : Block.Parted s.free
  below_top : ∀ b ∈ s.free, b.stop ≠ s.top

namespace Tight

variable {s s' : LargeSpace}

/-- The free blocks are the gaps between the live blocks. -/
theorem mem_free_iff (h : s.Tight) {b : Block} : b ∈ s.free ↔ Block.IsGap s.live b := by
  have hgap : ∀ b ∈ s.free, Block.IsGap s.live b := by
    intro b hb
    have hpos := h.blocks.free.2 b hb
    have hle := h.blocks.free_le b hb
    -- the other free blocks do not reach the bytes next to this one
    have hnext : ∀ c ∈ s.free, ¬ c.Holds b.stop := by
      rintro c hc ⟨hlow, hhigh⟩
      have hcb : c ≠ b := fun hcb => Nat.lt_irrefl _ (hcb ▸ hhigh)
      rcases h.blocks.free.apart hc hb hcb with hapart | hapart
      · have := Block.offset_lt_stop hpos
        omega
      · exact h.parted b hb c hc (Nat.le_antisymm hapart hlow)
    refine ⟨hpos, ?_, ?_, ?_⟩
    · rintro i hbi ⟨c, hc, hci⟩
      exact (h.blocks.apart c hc b hb).not_holds hci hbi
    · rw [or_iff_not_imp_left]
      intro hzero
      have hlt := Block.offset_lt_stop hpos
      rcases h.covered (b.offset - 1) (by omega) with hlive | ⟨c, hc, hlow, hhigh⟩
      · exact hlive
      · have hcb : c ≠ b := by
          rintro rfl
          omega
        rcases h.blocks.free.apart hc hb hcb with hapart | hapart
        · exact absurd (by omega) (h.parted c hc b hb)
        · omega
    · rcases h.covered b.stop (Nat.lt_of_le_of_ne hle (h.below_top b hb)) with hlive | ⟨c, hc, hci⟩
      · exact hlive
      · exact absurd hci (hnext c hc)
  refine ⟨hgap b, fun hb => ?_⟩
  -- the first byte of a gap lies in a free block, and that block is a gap too
  obtain ⟨c, hc, -, hcstop⟩ := hb.above
  have hstart := Block.holds_offset hb.size_pos
  have htop : b.offset < s.top := by
    have hle := h.blocks.live_le c hc
    have hlt := hstart.2
    omega
  rcases h.covered b.offset htop with hlive | ⟨d, hd, hdi⟩
  · exact absurd hlive (hb.clear _ hstart)
  · exact hb.eq_of_holds (hgap d hd) hstart hdi ▸ hd

end Tight

/-! ### Allocation -/

theorem tight_release {s : LargeSpace} {b : Block} (hblocks : (s.release b).Blocks)
    (hs : s.Blocks) (hpos : 0 < b.size) (hfree : ∀ c ∈ s.free, b.Apart c)
    (hcovered : ∀ i < s.top, Block.Covers s.live i ∨ b.Holds i ∨ Block.Covers s.free i)
    (hparted : Block.Parted s.free) (hbelow : ∀ c ∈ s.free, c.stop ≠ s.top) :
    (s.release b).Tight := by
  have hj := hs.free.join hpos hfree
  have hm := hs.free.merge hparted b
  have hsub : ∀ c ∈ (b.join s.free).2, c ∈ s.free := fun c hc => hj.sublist.subset hc
  have hcovered' : ∀ i < s.top, Block.Covers s.live i ∨
      (b.join s.free).1.Holds i ∨ Block.Covers (b.join s.free).2 i := by
    intro i hi
    rw [hm.holds i]
    exact hcovered i hi
  suffices hrest : (∀ i < (s.release b).top,
      Block.Covers (s.release b).live i ∨ Block.Covers (s.release b).free i) ∧
      Block.Parted (s.release b).free ∧ ∀ c ∈ (s.release b).free, c.stop ≠ (s.release b).top from
    ⟨hblocks, hrest.1, hrest.2.1, hrest.2.2⟩
  unfold LargeSpace.release
  generalize b.join s.free = joined at *
  obtain ⟨j, others⟩ := joined
  dsimp only at *
  by_cases hend : j.stop = s.top
  · -- the top comes down to the joined block, which no other one touches
    simp only [hend, if_true]
    refine ⟨?_, fun c hc d hd => hparted c (hsub c hc) d (hsub d hd), hm.below⟩
    intro i hi
    have hlow : j.offset ≤ s.top := hend ▸ j.offset_le_stop
    rcases hcovered' i (Nat.lt_of_lt_of_le hi hlow) with hlive | hji | hrest
    · exact Or.inl hlive
    · exact absurd hji.1 (Nat.not_le.2 hi)
    · exact Or.inr hrest
  -- the joined block stands for the given one and its free neighbours, and is parted from the rest
  · simp only [hend, if_false]
    have hnew : ∀ c ∈ others, c.offset ≠ j.offset := fun c hc =>
      (hj.apart_others c hc).symm.offset_ne (hs.free.2 c (hsub c hc)) hj.size_pos
    refine ⟨?_, ?_, ?_⟩
    · intro i hi
      rw [Block.covers_insert hnew]
      exact hcovered' i hi
    · intro c hc d hd
      rcases (Block.mem_insert hnew).1 hc with rfl | hcothers
      · rcases (Block.mem_insert hnew).1 hd with rfl | hdothers
        · exact Nat.ne_of_gt (Block.offset_lt_stop hj.size_pos)
        · exact hm.above d hdothers
      · rcases (Block.mem_insert hnew).1 hd with rfl | hdothers
        · exact hm.below c hcothers
        · exact hparted c (hsub c hcothers) d (hsub d hdothers)
    · intro c hc
      rcases (Block.mem_insert hnew).1 hc with rfl | hc
      · exact hend
      · exact hbelow c (hsub c hc)

/-- Bytes are cut off at the top, and no other byte changes. -/
structure Cut (s s' : LargeSpace) : Prop where
  top_le : s'.top ≤ s.top
  byte : ∀ i, s'.memory.byte i = if i < s'.top then s.memory.byte i else 0

theorem Blocks.cut_refl {s : LargeSpace} (h : s.Blocks) : Cut s s := by
  refine ⟨Nat.le_refl _, fun i => ?_⟩
  split
  · rfl
  · exact Memory.byte_of_size_le (by rw [h.size_eq]; omega)

theorem Cut.trans {s s₁ s₂ : LargeSpace} (h : Cut s s₁) (h' : Cut s₁ s₂) : Cut s s₂ := by
  refine ⟨Nat.le_trans h'.top_le h.top_le, fun i => ?_⟩
  have hle := h'.top_le
  rw [h'.byte, h.byte]
  by_cases hi : i < s₂.top
  · rw [if_pos hi, if_pos hi, if_pos (Nat.lt_of_lt_of_le hi hle)]
  · rw [if_neg hi, if_neg hi]

theorem Blocks.cut_release {s : LargeSpace} (hs : s.Blocks) {b : Block}
    (hblocks : (s.release b).Blocks) : Cut s (s.release b) := by
  have hsize := hblocks.size_eq
  unfold LargeSpace.release at *
  generalize b.join s.free = joined at *
  obtain ⟨j, others⟩ := joined
  dsimp only at *
  by_cases hend : j.stop = s.top
  · simp only [hend, if_true] at hsize ⊢
    exact ⟨hend ▸ j.offset_le_stop, Memory.byte_truncate _ _⟩
  · simp only [hend, if_false] at hsize ⊢
    exact ⟨Nat.le_refl _, hs.cut_refl.byte⟩

theorem Tight.freeAt_spec {s : LargeSpace} (h : s.Tight) {b : Block} (hb : b ∈ s.live) :
    ∃ s', freeAt b.offset s = .ok b.size s' ∧ s'.Tight ∧ Released s s' b ∧ Cut s s' := by
  obtain ⟨s', hok, hblocks, hreleased⟩ := LargeSpace.freeAt_spec h.blocks hb
  have hat : Block.at? b.offset s.live = some b := h.blocks.live.at?_eq_some_iff.2 ⟨hb, rfl⟩
  have hs' : s' = ({ s with live := Block.erase b.offset s.live,
                            used := s.used - b.size } : LargeSpace).release b := by
    rw [freeAt, hat] at hok
    simpa using hok.symm
  subst hs'
  refine ⟨_, hok, ?_, hreleased, ?_⟩
  · refine tight_release hblocks (h.blocks.forget hb) (h.blocks.live.2 b hb)
      (fun c hc => h.blocks.apart b hb c hc) ?_ h.parted h.below_top
    intro i hi
    rcases h.covered i hi with hlive | hfree
    · rcases (h.blocks.live.covers_erase hb).2 hlive with hbi | hrest
      · exact Or.inr (Or.inl hbi)
      · exact Or.inl hrest
    · exact Or.inr (Or.inr hfree)
  · obtain ⟨hle, hbyte⟩ := (h.blocks.forget hb).cut_release hblocks
    exact ⟨hle, hbyte⟩

end LargeSpace

end GenerationalHeap
