/-
The blocks of the large object space.

Live and free blocks never overlap, so a block that is taken is apart from every
live one, and a block that is given back joins its neighbours without touching
any other block.

* `Block.Apart`, `Block.Ordered` — blocks without a common byte, and lists of
  such blocks by ascending offset.
* `Block.Ordered.join` — what joining a block with its neighbours gives.
* `LargeSpace.Blocks` — the books of the space.
* `LargeSpace.Fits`, `LargeSpace.Blocks.allocateIn_of_fits` — allocations that are the same in
  every build.
* `LargeSpace.allocate_spec`, `LargeSpace.freeAt_spec` — what allocation and
  release do to the live blocks and to their bytes.
-/
import GenerationalHeap.Heap.LargeSpace
import Mathlib.Tactic.ByContra

namespace GenerationalHeap

namespace Block

/-! ### Blocks without a common byte -/

/-- Two blocks have no byte in common. -/
def Apart (b c : Block) : Prop := b.stop ≤ c.offset ∨ c.stop ≤ b.offset

/-- Blocks that stand one behind the other, none of them empty. -/
def Ordered (blocks : List Block) : Prop :=
  blocks.Pairwise (fun b c => b.stop ≤ c.offset) ∧ ∀ b ∈ blocks, 0 < b.size

theorem Apart.symm {b c : Block} (h : b.Apart c) : c.Apart b := Or.symm h

theorem offset_le_stop (b : Block) : b.offset ≤ b.stop := Nat.le_add_right _ _

theorem offset_lt_stop {b : Block} (hb : 0 < b.size) : b.offset < b.stop :=
  Nat.lt_add_of_pos_right hb

theorem Apart.offset_ne {b c : Block} (h : b.Apart c) (hb : 0 < b.size) (hc : 0 < c.size) :
    b.offset ≠ c.offset := by
  have hb' := offset_lt_stop hb
  have hc' := offset_lt_stop hc
  rcases h with h | h
  · omega
  · omega

/-- Of two blocks that are apart, the lower one ends where the other begins or below. -/
theorem Apart.stop_le {b c : Block} (h : b.Apart c) (hlt : b.offset < c.offset) :
    b.stop ≤ c.offset := by
  rcases h with h | h
  · exact h
  · have hc := c.offset_le_stop
    omega

/-- What is apart from a block is apart from every part of it. -/
theorem Apart.mono {b c d : Block} (h : c.Apart b) (hlo : b.offset ≤ d.offset)
    (hhi : d.stop ≤ b.stop) : c.Apart d := by
  rcases h with h | h
  · exact Or.inl (Nat.le_trans h hlo)
  · exact Or.inr (Nat.le_trans hhi h)

/-- What is apart from two blocks that touch is apart from both together. -/
theorem Apart.union {b c e : Block} (hbc : b.stop = c.offset) (he : 0 < e.size)
    (hb : e.Apart b) (hc : e.Apart c) : e.Apart ⟨b.offset, b.size + c.size⟩ := by
  unfold Apart stop at *
  dsimp only
  omega

theorem ordered_nil : Ordered [] := ⟨List.Pairwise.nil, fun _ h => absurd h List.not_mem_nil⟩

namespace Ordered

variable {blocks : List Block}

theorem tail {b : Block} (h : Ordered (b :: blocks)) : Ordered blocks :=
  ⟨(List.pairwise_cons.1 h.1).2, fun c hc => h.2 c (List.mem_cons_of_mem _ hc)⟩

theorem sublist {some : List Block} (h : Ordered blocks) (hs : some.Sublist blocks) :
    Ordered some :=
  ⟨h.1.sublist hs, fun b hb => h.2 b (hs.subset hb)⟩

/-- Members of an ordered list overlap only if they are the same. -/
theorem apart (h : Ordered blocks) {b c : Block} (hb : b ∈ blocks) (hc : c ∈ blocks)
    (hne : b ≠ c) : b.Apart c := by
  induction blocks with
  | nil => exact absurd hb List.not_mem_nil
  | cons d rest ih =>
    have hd := (List.pairwise_cons.1 h.1).1
    rcases List.mem_cons.1 hb with hb | hb
    · rcases List.mem_cons.1 hc with hc | hc
      · exact absurd (hb.trans hc.symm) hne
      · exact Or.inl (hb ▸ hd c hc)
    · rcases List.mem_cons.1 hc with hc | hc
      · exact Or.inr (hc ▸ hd b hb)
      · exact ih h.tail hb hc

theorem offset_lt (h : Ordered blocks) : blocks.Pairwise fun b c => b.offset < c.offset := by
  refine h.1.imp_of_mem ?_
  intro b c hb _ hbc
  exact Nat.lt_of_lt_of_le (offset_lt_stop (h.2 b hb)) hbc

theorem nodup (h : Ordered blocks) : blocks.Nodup := by
  refine h.offset_lt.imp ?_
  rintro b c hlt rfl
  exact Nat.lt_irrefl _ hlt

theorem eq_of_offset_eq (h : Ordered blocks) {b c : Block} (hb : b ∈ blocks) (hc : c ∈ blocks)
    (ho : b.offset = c.offset) : b = c := by
  by_contra hne
  exact (h.apart hb hc hne).offset_ne (h.2 b hb) (h.2 c hc) ho

theorem at?_eq_some_iff (h : Ordered blocks) {b : Block} {offset : Nat} :
    at? offset blocks = some b ↔ b ∈ blocks ∧ b.offset = offset := by
  constructor
  · intro hb
    exact ⟨List.mem_of_find?_eq_some hb, by simpa using List.find?_some hb⟩
  · rintro ⟨hb, rfl⟩
    cases hat : at? b.offset blocks with
    | none =>
      have hall := List.find?_eq_none.1 hat b hb
      simp at hall
    | some c =>
      have hc : c.offset = b.offset := by simpa using List.find?_some hat
      rw [h.eq_of_offset_eq (List.mem_of_find?_eq_some hat) hb hc]

end Ordered

/-! ### Changing a list of blocks -/

theorem mem_erase {b : Block} {offset : Nat} {blocks : List Block} :
    b ∈ erase offset blocks ↔ b ∈ blocks ∧ b.offset ≠ offset := by
  simp [erase, List.mem_filter]

theorem Ordered.erase {blocks : List Block} (h : Ordered blocks) (offset : Nat) :
    Ordered (Block.erase offset blocks) := h.sublist List.filter_sublist

theorem Ordered.mem_erase_iff_ne {blocks : List Block} (h : Ordered blocks) {b c : Block}
    (hb : b ∈ blocks) : c ∈ Block.erase b.offset blocks ↔ c ∈ blocks ∧ c ≠ b := by
  rw [mem_erase]
  constructor
  · rintro ⟨hc, hne⟩
    exact ⟨hc, fun hcb => hne (hcb ▸ rfl)⟩
  · rintro ⟨hc, hne⟩
    exact ⟨hc, fun ho => hne (h.eq_of_offset_eq hc hb ho)⟩

theorem eq_or_mem_of_mem_insert {b c : Block} {blocks : List Block} (h : c ∈ b.insert blocks) :
    c = b ∨ c ∈ blocks := by
  induction blocks with
  | nil => exact Or.inl (List.mem_singleton.1 h)
  | cons d rest ih =>
    rw [Block.insert] at h
    split at h
    · exact List.mem_cons.1 h
    · split at h
      · exact (List.mem_cons.1 h).imp_right (List.mem_cons_of_mem d)
      · rcases List.mem_cons.1 h with rfl | h
        · exact Or.inr List.mem_cons_self
        · exact (ih h).imp_right (List.mem_cons_of_mem d)

theorem mem_insert {b c : Block} {blocks : List Block} (hnew : ∀ d ∈ blocks, d.offset ≠ b.offset) :
    c ∈ insert b blocks ↔ c = b ∨ c ∈ blocks := by
  induction blocks with
  | nil => simp [insert]
  | cons d rest ih =>
    have hd := hnew d List.mem_cons_self
    rw [insert]
    split
    · exact List.mem_cons
    · rw [if_neg (fun ho => hd ho.symm), List.mem_cons,
        ih fun e he => hnew e (List.mem_cons_of_mem _ he), List.mem_cons]
      exact or_left_comm

theorem pairwise_insert {b : Block} {blocks : List Block}
    (h : blocks.Pairwise fun c d => c.stop ≤ d.offset)
    (hnew : ∀ c ∈ blocks, c.offset ≠ b.offset) (hapart : ∀ c ∈ blocks, b.Apart c) :
    (insert b blocks).Pairwise fun c d => c.stop ≤ d.offset := by
  induction blocks with
  | nil => exact List.pairwise_singleton _ _
  | cons d rest ih =>
    obtain ⟨hd, hrest⟩ := List.pairwise_cons.1 h
    have hbd := hapart d List.mem_cons_self
    have hne := hnew d List.mem_cons_self
    have hnew' : ∀ c ∈ rest, c.offset ≠ b.offset := fun c hc => hnew c (List.mem_cons_of_mem _ hc)
    rw [insert]
    split
    · -- the block comes first, and what follows begins behind the old first one
      rename_i hlt
      have hstop := hbd.stop_le hlt
      refine List.pairwise_cons.2 ⟨?_, h⟩
      intro c hc
      rcases List.mem_cons.1 hc with rfl | hc
      · exact hstop
      · have hdc := hd c hc
        have hpos := d.offset_le_stop
        omega
    · rw [if_neg (fun ho => hne ho.symm)]
      refine List.pairwise_cons.2
        ⟨?_, ih hrest hnew' fun c hc => hapart c (List.mem_cons_of_mem _ hc)⟩
      intro c hc
      rcases (mem_insert hnew').1 hc with rfl | hc
      · exact hbd.symm.stop_le (by omega)
      · exact hd c hc

theorem Ordered.insert {b : Block} {blocks : List Block} (h : Ordered blocks) (hb : 0 < b.size)
    (hapart : ∀ c ∈ blocks, b.Apart c) : Ordered (Block.insert b blocks) := by
  have hnew : ∀ c ∈ blocks, c.offset ≠ b.offset := fun c hc =>
    (hapart c hc).symm.offset_ne (h.2 c hc) hb
  constructor
  · exact pairwise_insert h.1 hnew hapart
  · intro c hc
    rcases (mem_insert hnew).1 hc with rfl | hc
    · exact hb
    · exact h.2 c hc

/-! ### Totals -/

theorem total_cons (b : Block) (blocks : List Block) :
    total (b :: blocks) = b.size + total blocks := by
  simp [total]

theorem total_insert {b : Block} {blocks : List Block}
    (hnew : ∀ d ∈ blocks, d.offset ≠ b.offset) :
    total (insert b blocks) = b.size + total blocks := by
  induction blocks with
  | nil => rfl
  | cons d rest ih =>
    have hd := hnew d List.mem_cons_self
    rw [insert]
    split
    · rw [total_cons]
    · rw [if_neg (fun ho => hd ho.symm), total_cons, total_cons,
        ih fun e he => hnew e (List.mem_cons_of_mem _ he)]
      omega

theorem Ordered.total_erase {blocks : List Block} (h : Ordered blocks) {b : Block}
    (hb : b ∈ blocks) : b.size + total (Block.erase b.offset blocks) = total blocks := by
  induction blocks with
  | nil => exact absurd hb List.not_mem_nil
  | cons d rest ih =>
    by_cases hdb : d = b
    · subst hdb
      have hrest : Block.erase d.offset rest = rest := by
        refine List.filter_eq_self.2 ?_
        intro c hc
        have hdc := (List.pairwise_cons.1 h.offset_lt).1 c hc
        simp only [bne_iff_ne, ne_eq]
        omega
      rw [Block.erase, List.filter_cons_of_neg (by simp)]
      rw [Block.erase] at hrest
      rw [hrest, total_cons]
    · have hne : d.offset ≠ b.offset := fun ho =>
        hdb (h.eq_of_offset_eq List.mem_cons_self hb ho)
      have hmem : b ∈ rest := (List.mem_cons.1 hb).resolve_left fun hbd => hdb hbd.symm
      have htail := ih h.tail hmem
      rw [Block.erase] at htail ⊢
      rw [List.filter_cons_of_pos (by simpa using hne), total_cons, total_cons]
      omega

/-! ### Taking and joining free blocks -/

/-- The first block that is large enough is taken, or its first bytes are. -/
theorem of_takeFit? {blocks : List Block} {size offset : Nat} {left : List Block}
    (htake : takeFit? size blocks = some (offset, left)) :
    ∃ b, blocks.find? (size ≤ ·.size) = some b ∧ b ∈ blocks ∧ size ≤ b.size ∧
      b.offset = offset ∧
      left = if size < b.size then
        insert ⟨b.offset + size, b.size - size⟩ (erase b.offset blocks)
      else erase b.offset blocks := by
  obtain ⟨b, hfind, hb⟩ := Option.map_eq_some_iff.1 htake
  obtain ⟨rfl, rfl⟩ := Prod.mk.injEq _ _ _ _ ▸ hb
  exact ⟨b, hfind, List.mem_of_find?_eq_some hfind, by simpa using List.find?_some hfind, rfl, rfl⟩

/-- What is left of the free blocks after one of them was taken in part is apart from the
taken bytes, and from all that was apart from the free blocks. -/
theorem Ordered.takeFit {blocks : List Block} (h : Ordered blocks) {size offset : Nat}
    {left : List Block} (htake : takeFit? size blocks = some (offset, left)) :
    ∃ b ∈ blocks, b.offset = offset ∧ size ≤ b.size ∧ Ordered left ∧
      (∀ c ∈ left, c.Apart ⟨offset, size⟩) ∧
      ∀ c ∈ left, c ∈ blocks ∨ b.offset ≤ c.offset ∧ c.stop = b.stop := by
  obtain ⟨b, -, hmem, hfit, rfl, rfl⟩ := of_takeFit? htake
  have hothers : ∀ c ∈ Block.erase b.offset blocks, c ∈ blocks ∧ c.Apart b := fun c hc => by
    have hc' := (h.mem_erase_iff_ne hmem).1 hc
    exact ⟨hc'.1, h.apart hc'.1 hmem hc'.2⟩
  -- the taken bytes are a part of the block, so all the others are apart from them
  have htaken : ∀ c ∈ Block.erase b.offset blocks, c.Apart ⟨b.offset, size⟩ := fun c hc =>
    (hothers c hc).2.mono (Nat.le_refl _) (Nat.add_le_add_left hfit _)
  refine ⟨b, hmem, rfl, hfit, ?_⟩
  split
  · -- the rest of the block stays free
    rename_i hlt
    have hpos : 0 < b.size - size := Nat.sub_pos_of_lt hlt
    have hstop : (⟨b.offset + size, b.size - size⟩ : Block).stop = b.stop := by
      show b.offset + size + (b.size - size) = b.offset + b.size
      omega
    have hrest : ∀ c ∈ Block.erase b.offset blocks,
        (⟨b.offset + size, b.size - size⟩ : Block).Apart c := fun c hc =>
      ((hothers c hc).2.mono (Nat.le_add_right _ _) (Nat.le_of_eq hstop)).symm
    have hnew : ∀ c ∈ Block.erase b.offset blocks, c.offset ≠ b.offset + size := fun c hc =>
      (hrest c hc).symm.offset_ne (h.2 c (hothers c hc).1) hpos
    refine ⟨(h.erase _).insert hpos hrest, ?_, ?_⟩
    · intro c hc
      rcases (mem_insert hnew).1 hc with rfl | hc
      · exact Or.inr (Nat.le_refl _)
      · exact htaken c hc
    · intro c hc
      rcases (mem_insert hnew).1 hc with rfl | hc
      · exact Or.inr ⟨Nat.le_add_right _ _, hstop⟩
      · exact Or.inl (hothers c hc).1
  · exact ⟨h.erase _, htaken, fun c hc => Or.inl (hothers c hc).1⟩

/-- What joining a free block with its neighbours comes to: a block that covers it, the
other free blocks, and nothing that was apart from all of them is touched. -/
structure Joined (b : Block) (blocks : List Block) (joined : Block) (others : List Block) :
    Prop where
  sublist : others.Sublist blocks
  size_pos : 0 < joined.size
  offset_le : joined.offset ≤ b.offset
  le_stop : b.stop ≤ joined.stop
  stop_mem : joined.stop = b.stop ∨ ∃ c ∈ blocks, joined.stop = c.stop
  apart_others : ∀ c ∈ others, joined.Apart c
  apart_of_apart : ∀ e : Block, 0 < e.size → e.Apart b → (∀ c ∈ blocks, e.Apart c) → e.Apart joined

theorem Joined.refl {b : Block} {blocks : List Block} (hb : 0 < b.size)
    (hapart : ∀ c ∈ blocks, b.Apart c) : Joined b blocks b blocks where
  sublist := List.Sublist.refl _
  size_pos := hb
  offset_le := Nat.le_refl _
  le_stop := Nat.le_refl _
  stop_mem := Or.inl rfl
  apart_others := hapart
  apart_of_apart _ _ he _ := he

/-- Joining with a free block that ends where the block begins. -/
theorem Ordered.join_left {blocks : List Block} (h : Ordered blocks) {b c : Block}
    (hb : 0 < b.size) (hapart : ∀ d ∈ blocks, b.Apart d) (hc : c ∈ blocks)
    (hstop : c.stop = b.offset) :
    Joined b blocks ⟨c.offset, c.size + b.size⟩ (Block.erase c.offset blocks) := by
  have hcpos := h.2 c hc
  refine ⟨List.filter_sublist, by dsimp only; omega, ?_, ?_, Or.inl ?_, ?_, ?_⟩
  · unfold stop at hstop
    dsimp only
    omega
  · unfold stop at hstop ⊢
    dsimp only
    omega
  · unfold stop at hstop ⊢
    dsimp only
    omega
  · intro d hd
    obtain ⟨hd, hne⟩ := (h.mem_erase_iff_ne hc).1 hd
    exact (Apart.union hstop (h.2 d hd) (h.apart hd hc hne) (hapart d hd).symm).symm
  · intro e he heb hel
    exact Apart.union hstop he (hel c hc) heb

/-- Joining with a free block that begins where the block ends. -/
theorem Ordered.join_right {blocks : List Block} (h : Ordered blocks) {b c : Block}
    (hb : 0 < b.size) (hapart : ∀ d ∈ blocks, b.Apart d) (hc : c ∈ blocks)
    (hstop : b.stop = c.offset) :
    Joined b blocks ⟨b.offset, b.size + c.size⟩ (Block.erase c.offset blocks) := by
  refine ⟨List.filter_sublist, by dsimp only; omega, Nat.le_refl _, ?_, Or.inr ⟨c, hc, ?_⟩, ?_,
    ?_⟩
  · unfold stop
    dsimp only
    omega
  · unfold stop at hstop ⊢
    dsimp only
    omega
  · intro d hd
    obtain ⟨hd, hne⟩ := (h.mem_erase_iff_ne hc).1 hd
    exact (Apart.union hstop (h.2 d hd) (hapart d hd).symm (h.apart hd hc hne)).symm
  · intro e he heb hel
    exact Apart.union hstop he heb (hel c hc)

theorem Joined.trans {b c d : Block} {blocks others rest : List Block}
    (h : Joined b blocks c others) (h' : Joined c others d rest) : Joined b blocks d rest where
  sublist := h'.sublist.trans h.sublist
  size_pos := h'.size_pos
  offset_le := Nat.le_trans h'.offset_le h.offset_le
  le_stop := Nat.le_trans h.le_stop h'.le_stop
  stop_mem := by
    rcases h'.stop_mem with hd | ⟨e, he, hd⟩
    · rw [hd]
      exact h.stop_mem
    · exact Or.inr ⟨e, h.sublist.subset he, hd⟩
  apart_others := h'.apart_others
  apart_of_apart e he heb hel :=
    h'.apart_of_apart e he (h.apart_of_apart e he heb hel) fun f hf => hel f (h.sublist.subset hf)

/-- Joins a block with the one that begins where it ends. -/
def joinAbove (b : Block) (blocks : List Block) : Block × List Block :=
  match at? b.stop blocks with
  | some c => (⟨b.offset, b.size + c.size⟩, erase c.offset blocks)
  | none => (b, blocks)

theorem Ordered.join_above {b d : Block} {blocks others : List Block} (h : Ordered blocks)
    (hd : Joined b blocks d others) :
    Joined b blocks (joinAbove d others).1 (joinAbove d others).2 := by
  have hord := h.sublist hd.sublist
  rw [joinAbove]
  cases hat : at? d.stop others with
  | none => exact hd
  | some c =>
    obtain ⟨hc, ho⟩ := (hord.at?_eq_some_iff).1 hat
    exact hd.trans (hord.join_right hd.size_pos hd.apart_others hc ho.symm)

theorem Ordered.join {blocks : List Block} (h : Ordered blocks) {b : Block} (hb : 0 < b.size)
    (hapart : ∀ c ∈ blocks, b.Apart c) :
    Joined b blocks (b.join blocks).1 (b.join blocks).2 := by
  -- first the block below, if it ends where this one begins, then the block above
  rw [Block.join]
  cases hbelow : below? b.offset blocks with
  | none => exact h.join_above (Joined.refl hb hapart)
  | some c =>
    have hc : c ∈ blocks := (List.mem_filter.1 (List.mem_of_getLast? hbelow)).1
    by_cases hstop : c.stop = b.offset
    · simp only [hstop, if_true]
      exact h.join_above (h.join_left hb hapart hc hstop)
    · simp only [hstop, if_false]
      exact h.join_above (Joined.refl hb hapart)

/-! ### Whole pages -/

/-- A block of whole pages. -/
structure Paged (b : Block) : Prop where
  offset : largeAlignment ∣ b.offset
  size : largeAlignment ∣ b.size

section

variable {blocks : List Block} (h : ∀ c ∈ blocks, c.Paged)
include h

theorem paged_insert {b : Block} (hb : b.Paged) : ∀ c ∈ b.insert blocks, c.Paged := by
  intro c hc
  rcases eq_or_mem_of_mem_insert hc with rfl | hc
  · exact hb
  · exact h c hc

theorem paged_erase (offset : Nat) : ∀ c ∈ erase offset blocks, c.Paged := fun c hc =>
  h c (mem_erase.1 hc).1

theorem paged_takeFit {size offset : Nat} {left : List Block} (hsize : largeAlignment ∣ size)
    (htake : takeFit? size blocks = some (offset, left)) :
    largeAlignment ∣ offset ∧ ∀ c ∈ left, c.Paged := by
  obtain ⟨b, -, hmem, -, rfl, rfl⟩ := of_takeFit? htake
  have hpaged := h b hmem
  refine ⟨hpaged.offset, ?_⟩
  split
  · exact paged_insert (paged_erase h _)
      ⟨Nat.dvd_add hpaged.offset hsize, Nat.dvd_sub hpaged.size hsize⟩
  · exact paged_erase h _

theorem paged_joinAbove {b : Block} (hb : b.Paged) :
    (joinAbove b blocks).1.Paged ∧ ∀ c ∈ (joinAbove b blocks).2, c.Paged := by
  rw [joinAbove]
  cases hat : at? b.stop blocks with
  | none => exact ⟨hb, h⟩
  | some c =>
    have hc := h c (List.mem_of_find?_eq_some hat)
    exact ⟨⟨hb.offset, Nat.dvd_add hb.size hc.size⟩, paged_erase h _⟩

theorem paged_join {b : Block} (hb : b.Paged) :
    (b.join blocks).1.Paged ∧ ∀ c ∈ (b.join blocks).2, c.Paged := by
  rw [Block.join]
  cases hbelow : below? b.offset blocks with
  | none => exact paged_joinAbove h hb
  | some c =>
    have hc := h c (List.mem_filter.1 (List.mem_of_getLast? hbelow)).1
    by_cases hstop : c.stop = b.offset
    · simp only [hstop, if_true]
      exact paged_joinAbove (paged_erase h _)
        (⟨hc.offset, Nat.dvd_add hc.size hb.size⟩ : Paged ⟨c.offset, c.size + b.size⟩)
    · simp only [hstop, if_false]
      exact paged_joinAbove h hb

end

end Block

/-! ### The books of the space -/

namespace LargeSpace

/-- Live and free blocks are whole pages, and so are the bytes below the top. -/
structure Paged (s : LargeSpace) : Prop where
  live : ∀ b ∈ s.live, b.Paged
  free : ∀ b ∈ s.free, b.Paged
  top : largeAlignment ∣ s.top

/-- Live and free blocks lie below the top and do not overlap; the bytes end at the top. -/
structure Blocks (s : LargeSpace) : Prop where
  live : Block.Ordered s.live
  free : Block.Ordered s.free
  apart : ∀ b ∈ s.live, ∀ c ∈ s.free, b.Apart c
  live_le : ∀ b ∈ s.live, b.stop ≤ s.top
  free_le : ∀ b ∈ s.free, b.stop ≤ s.top
  size_eq : s.memory.size = s.top
  top_le : s.top ≤ spaceLimit
  used_eq : s.used = Block.total s.live
  paged : s.Paged

theorem blocks_empty : Blocks empty where
  live := Block.ordered_nil
  free := Block.ordered_nil
  apart _ h := absurd h List.not_mem_nil
  live_le _ h := absurd h List.not_mem_nil
  free_le _ h := absurd h List.not_mem_nil
  size_eq := rfl
  top_le := Nat.zero_le _
  used_eq := rfl
  paged :=
    ⟨fun _ h => absurd h List.not_mem_nil, fun _ h => absurd h List.not_mem_nil, Nat.dvd_zero _⟩

/-- Objects of the space are told by the offsets of the live blocks. -/
theorem Blocks.mem_offsets_iff {s : LargeSpace} (h : s.Blocks) {x : Nat} :
    x ∈ s.offsets ↔ (Block.at? x s.live).isSome = true := by
  rw [offsets, List.mem_map, Option.isSome_iff_exists]
  constructor
  · rintro ⟨b, hb, rfl⟩
    exact ⟨b, h.live.at?_eq_some_iff.2 ⟨hb, rfl⟩⟩
  · rintro ⟨b, hb⟩
    exact ⟨b, h.live.at?_eq_some_iff.1 hb⟩

theorem largeAlignment_pos : 0 < largeAlignment := by decide

theorem le_blockSizeFor (size : Nat) : size ≤ blockSizeFor size :=
  le_roundedUp largeAlignment_pos size

theorem blockSizeFor_pos {size : Nat} (h : 0 < size) : 0 < blockSizeFor size :=
  Nat.lt_of_lt_of_le h (le_blockSizeFor size)

theorem dvd_blockSizeFor (size : Nat) : largeAlignment ∣ blockSizeFor size := dvd_roundedUp _ _

/-- What making a block a live one does. -/
structure Occupied (s s' : LargeSpace) (b : Block) : Prop where
  live : s'.live = b.insert s.live
  apart : ∀ c ∈ s.live, b.Apart c
  size_pos : 0 < b.size
  byte : ∀ i, s'.memory.byte i = if b.offset ≤ i ∧ i < b.stop then 0 else s.memory.byte i
  used : s'.used = s.used + b.size

theorem Blocks.occupy {s : LargeSpace} (h : s.Blocks) {b : Block} (hpos : 0 < b.size)
    (hpaged : b.Paged) (hlive : ∀ c ∈ s.live, b.Apart c) (hfree : ∀ c ∈ s.free, b.Apart c)
    (htop : b.stop ≤ s.top) :
    (s.occupy b).Blocks ∧ Occupied s (s.occupy b) b := by
  have hnew : ∀ c ∈ s.live, c.offset ≠ b.offset := fun c hc =>
    (hlive c hc).symm.offset_ne (h.live.2 c hc) hpos
  have hmem : ∀ c ∈ b.insert s.live, c = b ∨ c ∈ s.live := fun _ => Block.eq_or_mem_of_mem_insert
  have hpages : (s.occupy b).Paged :=
    ⟨Block.paged_insert h.paged.live hpaged, h.paged.free, h.paged.top⟩
  refine ⟨⟨h.live.insert hpos hlive, h.free, ?_, ?_, h.free_le, ?_, h.top_le, ?_, hpages⟩,
    ⟨rfl, hlive, hpos, ?_, rfl⟩⟩
  · intro c hc d hd
    rcases hmem c hc with rfl | hc
    · exact hfree d hd
    · exact h.apart c hc d hd
  · intro c hc
    rcases hmem c hc with rfl | hc
    · exact htop
    · exact h.live_le c hc
  · show (s.memory.fill b.offset b.stop 0).size = s.top
    rw [Memory.size_fill, h.size_eq]
  · show s.used + b.size = Block.total (b.insert s.live)
    rw [Block.total_insert hnew, h.used_eq, Nat.add_comm]
  · intro i
    exact Memory.byte_fill 0 (by rw [h.size_eq]; exact htop) i

/-- The space without the free bytes that are taken. -/
theorem Blocks.take {s : LargeSpace} (h : s.Blocks) {size offset : Nat} {left : List Block}
    (hsize : largeAlignment ∣ size) (htake : Block.takeFit? size s.free = some (offset, left)) :
    ({ s with free := left } : LargeSpace).Blocks ∧ (⟨offset, size⟩ : Block).Paged ∧
      (∀ c ∈ s.live, (⟨offset, size⟩ : Block).Apart c) ∧
      (∀ c ∈ left, (⟨offset, size⟩ : Block).Apart c) ∧
      (⟨offset, size⟩ : Block).stop ≤ s.top := by
  obtain ⟨hoffset, hpages⟩ := Block.paged_takeFit h.paged.free hsize htake
  obtain ⟨b, hb, rfl, hfit, hleft, hnew, hfrom⟩ := h.free.takeFit htake
  have hstop : (⟨b.offset, size⟩ : Block).stop ≤ b.stop := Nat.add_le_add_left hfit _
  refine ⟨⟨h.live, hleft, ?_, h.live_le, ?_, h.size_eq, h.top_le, h.used_eq,
    ⟨h.paged.live, hpages, h.paged.top⟩⟩, ⟨hoffset, hsize⟩, ?_, fun c hc => (hnew c hc).symm,
    Nat.le_trans hstop (h.free_le b hb)⟩
  · intro c hc d hd
    rcases hfrom d hd with hd | ⟨hlow, hdstop⟩
    · exact h.apart c hc d hd
    · exact (h.apart c hc b hb).mono hlow (Nat.le_of_eq hdstop)
  · intro d hd
    rcases hfrom d hd with hd | ⟨-, hdstop⟩
    · exact h.free_le d hd
    · rw [hdstop]
      exact h.free_le b hb
  · intro c hc
    exact ((h.apart c hc b hb).mono (d := ⟨b.offset, size⟩) (Nat.le_refl _) hstop).symm

/-- The space with new bytes at the top. -/
theorem Blocks.grow {s : LargeSpace} (h : s.Blocks) {size : Nat} (hsize : largeAlignment ∣ size)
    (hlimit : s.top + size ≤ spaceLimit) :
    ({ s with memory := s.memory.grow (s.top + size), top := s.top + size } : LargeSpace).Blocks :=
  { h with
    live_le := fun b hb => Nat.le_trans (h.live_le b hb) (Nat.le_add_right _ _)
    free_le := fun b hb => Nat.le_trans (h.free_le b hb) (Nat.le_add_right _ _)
    size_eq := by
      rw [Memory.size_grow, h.size_eq]
      exact Nat.max_eq_right (Nat.le_add_right _ _)
    top_le := hlimit
    paged := ⟨h.paged.live, h.paged.free, Nat.dvd_add h.paged.top hsize⟩ }

/-! ### Allocation -/

/-- No sum of an allocation is too large for a word. -/
structure Fits (s : LargeSpace) (size : Nat) : Prop where
  rounded : size + largeAlignment < UInt64.size
  top : s.top + blockSizeFor size < UInt64.size

theorem blockSize_of_lt {size : Nat} (h : size + largeAlignment < UInt64.size) (build : Build) :
    blockSize size build = .ok (blockSizeFor size) := by
  rw [blockSize, Build.roundUp_of_lt largeAlignment_pos h, blockSizeFor]

theorem claim_of_le {build : Build} {s : LargeSpace} {b : Block} (hstop : b.stop ≤ s.memory.size)
    (hsmall : b.stop < UInt64.size) : claim build b s = .ok b.offset (s.occupy b) := by
  have hfits : b.offset + b.size < UInt64.size := hsmall
  simp only [claim, Build.add_of_lt hfits]
  exact if_pos ⟨b.offset_le_stop, hstop⟩

/-- An allocation whose sums are words is the same in every build. A free block is looked for
first, and then the space at the top. -/
theorem Blocks.allocateIn_of_fits {s : LargeSpace} (h : s.Blocks) (build : Build) {size : Nat}
    (hfits : s.Fits size) : allocateIn build size s =
      match Block.takeFit? (blockSizeFor size) s.free with
      | some (offset, left) =>
        .ok offset ({ s with free := left }.occupy ⟨offset, blockSizeFor size⟩)
      | none =>
        if s.top + blockSizeFor size > spaceLimit then
          .error (.outOfMemory (blockSizeFor size) (spaceLimit - s.top)) s
        else
          .ok s.top
            ({ s with
                memory := s.memory.grow (s.top + blockSizeFor size)
                top := s.top + blockSizeFor size }.occupy ⟨s.top, blockSizeFor size⟩) := by
  simp only [allocateIn, bump, blockSize_of_lt hfits.rounded, Build.add_of_lt hfits.top]
  cases htake : Block.takeFit? (blockSizeFor size) s.free with
  | some p =>
    obtain ⟨offset, left⟩ := p
    obtain ⟨-, -, -, -, hstop⟩ := h.take (dvd_blockSizeFor _) htake
    have hsmall : (⟨offset, blockSizeFor size⟩ : Block).stop < UInt64.size :=
      Nat.lt_of_le_of_lt (Nat.le_trans hstop (Nat.le_add_right _ _)) hfits.top
    exact claim_of_le (h.size_eq ▸ hstop) hsmall
  | none =>
    by_cases hlimit : s.top + blockSizeFor size > spaceLimit
    · simp only [if_pos hlimit]
    · simp only [if_neg hlimit]
      have hgrown := (h.grow (dvd_blockSizeFor size) (Nat.not_lt.1 hlimit)).size_eq
      exact claim_of_le (Nat.le_of_eq hgrown.symm) hfits.top

/-- The three things that can happen to an allocation whose sums are words. -/
theorem Blocks.allocate_cases {s : LargeSpace} (h : s.Blocks) {size : Nat} (hfits : s.Fits size) :
    (∃ offset left, Block.takeFit? (blockSizeFor size) s.free = some (offset, left) ∧
      allocate size s
        = .ok offset ({ s with free := left }.occupy ⟨offset, blockSizeFor size⟩)) ∨
    (Block.takeFit? (blockSizeFor size) s.free = none ∧
      s.top + blockSizeFor size ≤ spaceLimit ∧
      allocate size s = .ok s.top
        ({ s with
            memory := s.memory.grow (s.top + blockSizeFor size)
            top := s.top + blockSizeFor size }.occupy ⟨s.top, blockSizeFor size⟩)) ∨
    (Block.takeFit? (blockSizeFor size) s.free = none ∧
      spaceLimit < s.top + blockSizeFor size ∧
      allocate size s = .error (.outOfMemory (blockSizeFor size) (spaceLimit - s.top)) s) := by
  rw [allocate, h.allocateIn_of_fits .checked hfits]
  cases htake : Block.takeFit? (blockSizeFor size) s.free with
  | some p => exact Or.inl ⟨p.1, p.2, rfl, rfl⟩
  | none =>
    by_cases hlimit : s.top + blockSizeFor size > spaceLimit
    · exact Or.inr (Or.inr ⟨rfl, hlimit, if_pos hlimit⟩)
    · exact Or.inr (Or.inl ⟨rfl, Nat.not_lt.1 hlimit, if_neg hlimit⟩)

/-- A checked build panics before anything is changed, if one of the sums is no word. -/
theorem Blocks.allocate_of_not_fits {s : LargeSpace} (h : s.Blocks) {size : Nat}
    (hno : ¬s.Fits size) : allocate size s = .error .panicked s := by
  rw [allocate, allocateIn]
  by_cases hsize : size + largeAlignment < UInt64.size
  · have htop : UInt64.size ≤ s.top + blockSizeFor size := Nat.not_lt.1 fun ht => hno ⟨hsize, ht⟩
    -- a block so large is in no gap below the top
    have htake : Block.takeFit? (blockSizeFor size) s.free = none := by
      cases htake : Block.takeFit? (blockSizeFor size) s.free with
      | none => rfl
      | some p =>
        obtain ⟨offset, left⟩ := p
        obtain ⟨-, -, -, -, hstop⟩ := h.take (dvd_blockSizeFor _) htake
        have hle : offset + blockSizeFor size ≤ s.top := hstop
        have hlimit : s.top ≤ 4294967296 := h.top_le
        simp only [UInt64.size] at htop
        omega
    simp only [blockSize_of_lt hsize, htake, bump, Build.add_of_le htop, Build.overflow]
  · have hround : blockSize size .checked = .error .panicked :=
      Build.checked_roundUp_of_le (Nat.not_lt.1 hsize)
    simp only [hround]

/-- No sum of an allocation is taken without the bits above a word. -/
def Exact (s : LargeSpace) (build : Build) (size : Nat) : Prop := build = .checked ∨ s.Fits size

/-- An allocation that succeeds in a checked build has taken no sum that is no word. -/
theorem Blocks.fits_of_allocate {s s' : LargeSpace} (h : s.Blocks) {size offset : Nat}
    (hok : allocate size s = .ok offset s') : s.Fits size := by
  by_contra hno
  exact absurd ((h.allocate_of_not_fits hno).symm.trans hok) (by simp)

theorem allocate_spec {s s' : LargeSpace} (h : s.Blocks) {size offset : Nat} (hsize : 0 < size)
    (hok : allocate size s = .ok offset s') :
    s'.Blocks ∧ Occupied s s' ⟨offset, blockSizeFor size⟩ := by
  have hpos := blockSizeFor_pos hsize
  rcases h.allocate_cases (h.fits_of_allocate hok) with
    ⟨o, left, htake, heq⟩ | ⟨-, hlimit, heq⟩ | ⟨-, -, heq⟩
  · obtain ⟨rfl, rfl⟩ := EStateM.Result.ok.inj (heq.symm.trans hok)
    obtain ⟨hrest, hpaged, hapart, hleft, hstop⟩ := h.take (dvd_blockSizeFor _) htake
    obtain ⟨hblocks, hocc⟩ := hrest.occupy hpos hpaged hapart hleft hstop
    exact ⟨hblocks, ⟨hocc.live, hocc.apart, hocc.size_pos, hocc.byte, hocc.used⟩⟩
  · -- all blocks end at the old top or below, and the new block begins there
    obtain ⟨rfl, rfl⟩ := EStateM.Result.ok.inj (heq.symm.trans hok)
    obtain ⟨hblocks, hocc⟩ := (h.grow (dvd_blockSizeFor _) hlimit).occupy
      (b := ⟨s.top, blockSizeFor size⟩) hpos ⟨h.paged.top, dvd_blockSizeFor _⟩
      (fun c hc => Or.inr (h.live_le c hc)) (fun c hc => Or.inr (h.free_le c hc)) (Nat.le_refl _)
    exact ⟨hblocks, ⟨hocc.live, hocc.apart, hocc.size_pos, hocc.byte, hocc.used⟩⟩
  · exact absurd (heq.symm.trans hok) (by simp)

/-- An allocation that fails changes nothing. It has found no room, or its sums are no words. -/
theorem Blocks.allocate_error {s s' : LargeSpace} (h : s.Blocks) {size : Nat} {e : Error}
    (herror : allocate size s = .error e s') : s' = s ∧
      (s.Fits size ∧ e = .outOfMemory (blockSizeFor size) (spaceLimit - s.top) ∧
        Block.takeFit? (blockSizeFor size) s.free = none ∧ spaceLimit < s.top + blockSizeFor size ∨
      ¬s.Fits size ∧ e = .panicked) := by
  by_cases hfits : s.Fits size
  · rcases h.allocate_cases hfits with ⟨o, left, -, heq⟩ | ⟨-, -, heq⟩ | ⟨htake, hlimit, heq⟩
    · exact absurd (heq.symm.trans herror) (by simp)
    · exact absurd (heq.symm.trans herror) (by simp)
    · obtain ⟨rfl, rfl⟩ := EStateM.Result.error.inj (heq.symm.trans herror)
      exact ⟨rfl, Or.inl ⟨hfits, rfl, htake, hlimit⟩⟩
  · obtain ⟨rfl, rfl⟩ := EStateM.Result.error.inj
      ((h.allocate_of_not_fits hfits).symm.trans herror)
    exact ⟨rfl, Or.inr ⟨hfits, rfl⟩⟩

/-! ### Release -/

/-- What giving a live block back does. -/
structure Released (s s' : LargeSpace) (b : Block) : Prop where
  live : s'.live = Block.erase b.offset s.live
  byte : ∀ c ∈ s'.live, ∀ i, i < c.stop → s'.memory.byte i = s.memory.byte i
  used : s'.used + b.size = s.used

theorem Blocks.release {s : LargeSpace} (h : s.Blocks) {b : Block} (hpos : 0 < b.size)
    (hpaged : b.Paged) (hlive : ∀ c ∈ s.live, b.Apart c) (hfree : ∀ c ∈ s.free, b.Apart c)
    (htop : b.stop ≤ s.top) :
    (s.release b).Blocks ∧ (s.release b).live = s.live ∧ (s.release b).used = s.used ∧
      ∀ c ∈ s.live, ∀ i, i < c.stop → (s.release b).memory.byte i = s.memory.byte i := by
  have hj := h.free.join hpos hfree
  obtain ⟨hjpaged, hpages⟩ := Block.paged_join h.paged.free hpaged
  have hothers := h.free.sublist hj.sublist
  have hsub : ∀ c ∈ (b.join s.free).2, c ∈ s.free := fun c hc => hj.sublist.subset hc
  -- what the block is joined with was free, so the joined block is apart from the live ones
  have hjlive : ∀ c ∈ s.live, c.Apart (b.join s.free).1 := fun c hc =>
    hj.apart_of_apart c (h.live.2 c hc) (hlive c hc).symm (h.apart c hc)
  have hjtop : (b.join s.free).1.stop ≤ s.top := by
    rcases hj.stop_mem with hstop | ⟨c, hc, hstop⟩
    · rw [hstop]
      exact htop
    · rw [hstop]
      exact h.free_le c hc
  unfold LargeSpace.release
  generalize b.join s.free = joined at *
  obtain ⟨j, others⟩ := joined
  dsimp only at *
  by_cases hend : j.stop = s.top
  · -- the top comes down to the joined block, and no other block lies above it
    simp only [hend, if_true]
    have hlow : j.offset ≤ s.top := hend ▸ j.offset_le_stop
    have hbelow : ∀ c : Block, 0 < c.size → c.stop ≤ s.top → c.Apart j → c.stop ≤ j.offset := by
      intro c hc hle hapart
      have hcpos := Block.offset_lt_stop hc
      rcases hapart with hapart | hapart
      · exact hapart
      · omega
    refine ⟨⟨h.live, hothers, fun c hc d hd => h.apart c hc d (hsub d hd), ?_, ?_, ?_,
      Nat.le_trans hlow h.top_le, h.used_eq, ⟨h.paged.live, hpages, hjpaged.offset⟩⟩, trivial,
      trivial, ?_⟩
    · intro c hc
      exact hbelow c (h.live.2 c hc) (h.live_le c hc) (hjlive c hc)
    · intro c hc
      exact hbelow c (h.free.2 c (hsub c hc)) (h.free_le c (hsub c hc)) (hj.apart_others c hc).symm
    · rw [Memory.size_truncate, h.size_eq]
      exact Nat.min_eq_right hlow
    · intro c hc i hi
      have hc' := hbelow c (h.live.2 c hc) (h.live_le c hc) (hjlive c hc)
      rw [Memory.byte_truncate, if_pos (by omega)]
  · -- the joined block goes to the free blocks
    simp only [hend, if_false]
    have hnew : ∀ c ∈ others, c.offset ≠ j.offset := fun c hc =>
      (hj.apart_others c hc).symm.offset_ne (hothers.2 c hc) hj.size_pos
    refine ⟨⟨h.live, hothers.insert hj.size_pos hj.apart_others, ?_, h.live_le, ?_, h.size_eq,
      h.top_le, h.used_eq, ⟨h.paged.live, Block.paged_insert hpages hjpaged, h.paged.top⟩⟩,
      trivial, trivial, fun _ _ _ _ => trivial⟩
    · intro c hc d hd
      rcases (Block.mem_insert hnew).1 hd with rfl | hd
      · exact hjlive c hc
      · exact h.apart c hc d (hsub d hd)
    · intro c hc
      rcases (Block.mem_insert hnew).1 hc with rfl | hc
      · exact hjtop
      · exact h.free_le c (hsub c hc)

/-- The space that has forgotten a live block. -/
theorem Blocks.forget {s : LargeSpace} (h : s.Blocks) {b : Block} (hb : b ∈ s.live) :
    ({ s with live := Block.erase b.offset s.live,
              used := s.used - b.size } : LargeSpace).Blocks :=
  { h with
    live := h.live.erase _
    apart := fun c hc d hd => h.apart c (Block.mem_erase.1 hc).1 d hd
    live_le := fun c hc => h.live_le c (Block.mem_erase.1 hc).1
    used_eq := by
      have htotal := h.live.total_erase hb
      have hused := h.used_eq
      dsimp only
      omega
    paged := ⟨Block.paged_erase h.paged.live _, h.paged.free, h.paged.top⟩ }

theorem freeAt_spec {s : LargeSpace} (h : s.Blocks) {b : Block} (hb : b ∈ s.live) :
    ∃ s', freeAt b.offset s = .ok b.size s' ∧ s'.Blocks ∧ Released s s' b := by
  have hat : Block.at? b.offset s.live = some b := h.live.at?_eq_some_iff.2 ⟨hb, rfl⟩
  have htotal := h.live.total_erase hb
  have hsub : ∀ c ∈ Block.erase b.offset s.live, c ∈ s.live ∧ c ≠ b := fun c hc =>
    (h.live.mem_erase_iff_ne hb).1 hc
  have hspec := (h.forget hb).release (h.live.2 b hb) (h.paged.live b hb)
    (fun c hc => (h.live.apart (hsub c hc).1 hb (hsub c hc).2).symm) (fun c hc => h.apart b hb c hc)
    (h.live_le b hb)
  refine ⟨_, ?_, hspec.1, ⟨hspec.2.1, ?_, ?_⟩⟩
  · rw [freeAt, hat]
  · intro c hc
    rw [hspec.2.1] at hc
    exact hspec.2.2.2 c hc
  · have hused := h.used_eq
    rw [hspec.2.2.1]
    dsimp only
    omega

end LargeSpace

end GenerationalHeap
