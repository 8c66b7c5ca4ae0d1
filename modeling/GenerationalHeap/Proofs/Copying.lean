/-
Copies of blocks within an arena and between arenas.

* `Arena.Copies` — blocks are copied to other places; nothing else changes.
* `Compaction.copies_slides` — survivors that slide down one after the other do not
  overwrite each other's sources.
* `Compaction.copies_receive` — what is copied in from another arena.
* `Arena.byte_setTop` — bytes that are given up are zero.
* `Arena.wellFormed_rebuildStarts` — an arena whose blocks stand back to back is
  well-formed again once the object starts are recorded anew.
-/
import GenerationalHeap.Compaction
import GenerationalHeap.Proofs.Planning

namespace GenerationalHeap

namespace Arena

/-- The arena `b` is `a` with blocks of `source` copied into it. -/
structure Copies (source : Memory) (moves : List Move) (a b : Arena) : Prop where
  space : b.space = a.space
  top : b.top = a.top
  starts : b.starts = a.starts
  size : b.memory.size = a.memory.size
  byte : ∀ m ∈ moves, ∀ i < m.size, b.memory.byte (m.dest + i) = source.byte (m.source + i)
  others : ∀ j, (∀ m ∈ moves, j < m.dest ∨ m.dest + m.size ≤ j) →
    b.memory.byte j = a.memory.byte j

theorem Copies.refl (source : Memory) (a : Arena) : Copies source [] a a :=
  ⟨rfl, rfl, rfl, rfl, fun _ hm => absurd hm List.not_mem_nil, fun _ _ => rfl⟩

end Arena

namespace Compaction

variable {a b : Arena} {source : Memory} {moves : List Move} {start stop : Nat}

/-! ### One block after the other -/

theorem byte_overwrite_slice {m : Memory} {x y n : Nat} (hx : x + n ≤ source.size)
    (hy : y + n ≤ m.size) (j : Nat) :
    (m.overwrite y (source.slice x n)).byte j =
      if y ≤ j ∧ j < y + n then source.byte (x + (j - y)) else m.byte j := by
  have hsize : (source.slice x n).size = n := by
    rw [Memory.size_slice]
    omega
  rw [Memory.byte_overwrite (by rw [hsize]; exact hy), hsize]
  by_cases hin : y ≤ j ∧ j < y + n
  · rw [if_pos hin, if_pos hin, Memory.byte_slice, if_pos (by omega)]
  · rw [if_neg hin, if_neg hin]

/-- A block that is copied from another row of bytes. -/
def receiveOne (source : Memory) (a : Arena) (m : Move) : Arena :=
  a.mapMemory (·.overwrite m.dest (source.slice m.source m.size))

/-- Blocks that are copied from another row of bytes. -/
def receive (source : Memory) (moves : List Move) (a : Arena) : Arena :=
  moves.foldl (receiveOne source) a

theorem copies_receive (hs : Stacked start moves stop)
    (hsource : ∀ m ∈ moves, m.source + m.size ≤ source.size) (hstop : stop ≤ a.capacity) :
    Arena.Copies source moves a (receive source moves a) := by
  induction moves generalizing start a with
  | nil => exact .refl source a
  | cons m rest ih =>
    obtain ⟨rfl, -, hrest⟩ := hs
    have hle := hrest.start_le
    have hbyte := byte_overwrite_slice (m := a.memory) (hsource m List.mem_cons_self)
      (show m.dest + m.size ≤ a.memory.size from Nat.le_trans hle hstop)
    have hsize : (receiveOne source a m).memory.size = a.memory.size := Memory.size_overwrite _ _ _
    have hc := ih hrest (fun n hn => hsource n (List.mem_cons_of_mem _ hn))
      (a := receiveOne source a m) (Nat.le_trans hstop (Nat.le_of_eq hsize.symm))
    refine ⟨hc.space, hc.top, hc.starts, hc.size.trans hsize, ?_, ?_⟩
    · intro n hn i hi
      rcases List.mem_cons.1 hn with rfl | hn
      · -- the later blocks stand above this one
        have habove := hc.others (n.dest + i) fun k hk => by
          have hk' := hrest.bounds hk
          omega
        refine habove.trans ((hbyte (n.dest + i)).trans ?_)
        rw [if_pos (by omega), Nat.add_sub_cancel_left]
      · exact hc.byte n hn i hi
    · intro j hj
      have hm := hj m List.mem_cons_self
      refine (hc.others j fun n hn => hj n (List.mem_cons_of_mem _ hn)).trans ((hbyte j).trans ?_)
      rw [if_neg (by omega)]

theorem slide_eq (a : Arena) (m : Move) (hfit : m.source + m.size ≤ a.capacity)
    (hle : m.dest ≤ m.source) :
    (slide a m).space = a.space ∧ (slide a m).top = a.top ∧ (slide a m).starts = a.starts ∧
      (slide a m).memory.size = a.memory.size ∧
      ∀ j, (slide a m).memory.byte j =
        if m.dest ≤ j ∧ j < m.dest + m.size then a.memory.byte (m.source + (j - m.dest))
        else a.memory.byte j := by
  rw [slide]
  by_cases heq : m.source = m.dest
  · rw [if_pos heq]
    refine ⟨rfl, rfl, rfl, rfl, ?_⟩
    intro j
    by_cases hin : m.dest ≤ j ∧ j < m.dest + m.size
    · rw [if_pos hin, heq, Nat.add_sub_cancel' hin.1]
    · rw [if_neg hin]
  · rw [if_neg heq]
    refine ⟨rfl, rfl, rfl, Memory.size_slide _ _ _ _, ?_⟩
    intro j
    have hfit' : m.source + m.size ≤ a.memory.size := hfit
    exact byte_overwrite_slice hfit' (show m.dest + m.size ≤ a.memory.size by omega) j

/-- Blocks that slide down in address order are copied as they were at the start. -/
theorem copies_slides (hs : Stacked start moves stop)
    (hp : moves.Pairwise fun m n => m.source + m.size ≤ n.source)
    (hle : ∀ m ∈ moves, m.dest ≤ m.source)
    (hfit : ∀ m ∈ moves, m.source + m.size ≤ a.capacity) :
    Arena.Copies a.memory moves a (moves.foldl slide a) := by
  induction moves generalizing start a with
  | nil => exact .refl a.memory a
  | cons m rest ih =>
    obtain ⟨rfl, -, hrest⟩ := hs
    obtain ⟨hm, hp⟩ := List.pairwise_cons.1 hp
    have hdown := hle m List.mem_cons_self
    obtain ⟨hspace, htop, hstarts, hsize, hbyte⟩ :=
      slide_eq a m (hfit m List.mem_cons_self) hdown
    have hc := ih hrest hp (fun n hn => hle n (List.mem_cons_of_mem _ hn)) (a := slide a m)
      fun n hn => Nat.le_trans (hfit n (List.mem_cons_of_mem _ hn)) (Nat.le_of_eq hsize.symm)
    refine ⟨hc.space.trans hspace, hc.top.trans htop, hc.starts.trans hstarts,
      hc.size.trans hsize, ?_, ?_⟩
    · intro n hn i hi
      rcases List.mem_cons.1 hn with rfl | hn
      · -- what comes later is put above this block
        have habove := hc.others (n.dest + i) fun k hk => by
          have hk' := hrest.bounds hk
          omega
        rw [List.foldl_cons, habove, hbyte, if_pos (by omega), Nat.add_sub_cancel_left]
      · -- the source of a later block lies above all that was written so far
        have hmn := hm n hn
        rw [List.foldl_cons, hc.byte n hn i hi, hbyte, if_neg (by omega)]
    · intro j hj
      have hm' := hj m List.mem_cons_self
      rw [List.foldl_cons, hc.others j fun n hn => hj n (List.mem_cons_of_mem _ hn), hbyte,
        if_neg (by omega)]

end Compaction

/-! ### The top and the object starts -/

namespace StartMap

theorem covered_set (m : StartMap) (x : Nat) : (m.set x).covered = m.covered := by
  obtain ⟨bits, covered⟩ := m
  rw [set]
  split <;> rfl

theorem isSet_foldl_set (m : StartMap) (offsets : List Nat) (x : Nat) :
    (offsets.foldl set m).isSet x = true ↔
      m.isSet x = true ∨ ∃ y ∈ offsets, index x = index y ∧ index y / groupSize < m.covered := by
  induction offsets generalizing m with
  | nil => simp
  | cons y rest ih =>
    rw [List.foldl_cons, ih, isSet_set, covered_set, Bool.or_eq_true, decide_eq_true_eq, or_assoc]
    simp only [List.mem_cons, exists_eq_or_imp]

theorem covered_foldl_set (m : StartMap) (offsets : List Nat) :
    (offsets.foldl set m).covered = m.covered := by
  induction offsets generalizing m with
  | nil => rfl
  | cons y rest ih => rw [List.foldl_cons, ih, covered_set]

theorem covered_clearFrom (m : StartMap) (x : Nat) : (m.clearFrom x).covered = m.covered := rfl

theorem index_lt_of_lt {x capacity : Nat} (h : x < capacity) :
    index x / groupSize < groupsFor capacity := by
  unfold index groupSize groupsFor alignment groupSize
  omega

theorem covered_rebuilt (m : StartMap) (start : Nat) (offsets : List Nat) :
    (offsets.foldl set (m.clearFrom start)).covered = m.covered := by
  rw [covered_foldl_set, covered_clearFrom]

/-- The starts below some offset, and those of a list of blocks above it. -/
theorem isSet_rebuilt {m : StartMap} {size : Nat → Nat} {start stop capacity x : Nat}
    {below above : List Nat} (habove : Tiles size start above stop) (hstop : stop ≤ capacity)
    (hbelow : ∀ y ∈ below, y < start)
    (hset : ∀ y, y % alignment = 0 → y < start → (m.isSet y = true ↔ y ∈ below))
    (hmod : ∀ y ∈ above, y % alignment = 0) (hcovered : groupsFor capacity ≤ m.covered)
    (hstart : start % alignment = 0) (hx : x % alignment = 0) :
    (above.foldl set (m.clearFrom start)).isSet x = true ↔ x ∈ below ++ above := by
  rw [isSet_foldl_set, isSet_clearFrom, Bool.and_eq_true, decide_eq_true_eq, covered_clearFrom,
    index_lt_iff hx hstart, List.mem_append]
  refine or_congr ?_ ⟨?_, ?_⟩
  · constructor
    · rintro ⟨hold, hlt⟩
      exact (hset x hx hlt).1 hold
    · intro hin
      exact ⟨(hset x hx (hbelow x hin)).2 hin, hbelow x hin⟩
  · rintro ⟨y, hy, hindex, -⟩
    exact eq_of_index_eq hx (hmod y hy) hindex ▸ hy
  · intro hin
    have hb := habove.bounds hin
    have hpos := habove.size_pos hin
    exact ⟨x, hin, rfl, Nat.lt_of_lt_of_le (index_lt_of_lt (by omega)) hcovered⟩

end StartMap

namespace Arena

variable {a : Arena} {s : Space}

theorem byte_setTop (htop : a.top ≤ a.capacity) (top j : Nat) :
    (a.setTop top).memory.byte j = if top ≤ j ∧ j < a.top then 0 else a.memory.byte j := by
  rw [setTop]
  by_cases hlt : top < a.top
  · simp only [hlt, if_true]
    rw [Memory.byte_fill 0 htop]
  · simp only [hlt, if_false]
    rw [if_neg (by omega)]

theorem capacity_setTop (a : Arena) (top : Nat) : (a.setTop top).capacity = a.capacity := by
  rw [capacity, setTop]
  dsimp only
  split
  · exact Memory.size_fill _ _ _ _
  · rfl

/-- An arena whose blocks stand back to back is well-formed once the object starts from
some point on are recorded anew. -/
theorem wellFormed_rebuildStarts {start : Nat} {below above : List Nat} (hspace : a.space = s)
    (hbelow : Tiles a.sizeAt 0 below start) (habove : Tiles a.sizeAt start above a.top)
    (haligned : ∀ x ∈ below ++ above, (a.header x).payloadSize % alignment = 0)
    (hset : ∀ x, x % alignment = 0 → x < start → (a.starts.isSet x = true ↔ x ∈ below))
    (hzero : ∀ i, a.top ≤ i → a.memory.byte i = 0) (htop : a.top ≤ a.capacity)
    (hcap : a.capacity ≤ spaceLimit)
    (hcovered : StartMap.groupsFor a.capacity ≤ a.starts.covered) :
    (a.rebuildStarts start).WellFormed s ∧ (a.rebuildStarts start).offsets = below ++ above ∧
      (a.rebuildStarts start).offsetsFrom start = above := by
  have hfrom : a.offsetsFrom start = above := offsetsFrom_eq_of_tiles habove
  have htiles : Tiles (a.rebuildStarts start).sizeAt 0 (below ++ above) a.top :=
    hbelow.append habove
  have hoffsets : (a.rebuildStarts start).offsets = below ++ above :=
    offsetsFrom_eq_of_tiles htiles
  have hsize : ∀ x ∈ below ++ above, a.sizeAt x % alignment = 0 := fun x hx =>
    blockSize_mod (haligned x hx)
  have hmod : ∀ x ∈ below ++ above, x % alignment = 0 := fun x hx =>
    (hbelow.append habove).mod_eq_zero (Nat.zero_mod _) hsize hx
  have hstart : start % alignment = 0 :=
    hbelow.stop_mod (Nat.zero_mod _) fun x hx => hsize x (List.mem_append_left _ hx)
  -- the bits below the start are those of the blocks below, and they are kept
  have hlt : ∀ x ∈ below, x < start := by
    intro x hx
    have hb := hbelow.bounds hx
    have hpos := hbelow.size_pos hx
    omega
  have hstarts : (a.rebuildStarts start).starts =
      above.foldl StartMap.set (a.starts.clearFrom start) := by
    rw [rebuildStarts, hfrom]
  refine ⟨⟨hspace, hoffsets ▸ htiles, ?_, ?_, hzero, htop, hcap, ?_⟩,
    hoffsets, offsetsFrom_eq_of_tiles habove⟩
  · intro x hx
    rw [hoffsets] at hx
    exact haligned x hx
  · intro x hx
    rw [hoffsets, hstarts]
    exact StartMap.isSet_rebuilt habove htop hlt hset
      (fun y hy => hmod y (List.mem_append_right _ hy)) hcovered hstart hx
  · rw [hstarts, StartMap.covered_rebuilt]
    exact hcovered

end Arena

end GenerationalHeap
