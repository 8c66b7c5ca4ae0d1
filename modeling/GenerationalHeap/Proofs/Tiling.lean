/-
Blocks that stand back to back, and the walk over an arena.

`Tiles size start offsets stop` says that blocks at the given offsets fill
`[start, stop)` in order, without gaps.  It is how the walk over an arena is
known: the sizes in the headers decide the offsets.

* `Tiles.pairwise`, `Tiles.bounds`, `Tiles.sum` — where tiles are.
* `Arena.offsetsFrom_eq_of_tiles` — a row of tiles up to the top is what the walk
  finds.
* `Arena.WellFormed` — what an arena looks like between any two operations.
* `Arena.isObjectStart_iff` — the check of an address accepts exactly the
  offsets of the walk.
-/
import GenerationalHeap.Proofs.Header

namespace GenerationalHeap

/-! ### Tiles -/

/-- Blocks at the given offsets fill `[start, stop)`. -/
def Tiles (size : Nat → Nat) : (start : Nat) → List Nat → (stop : Nat) → Prop
  | start, [], stop => start = stop
  | start, x :: rest, stop => x = start ∧ 0 < size x ∧ Tiles size (start + size x) rest stop

namespace Tiles

variable {size : Nat → Nat} {start stop : Nat} {offsets : List Nat}

theorem start_le (h : Tiles size start offsets stop) : start ≤ stop := by
  induction offsets generalizing start with
  | nil => exact Nat.le_of_eq h
  | cons x rest ih =>
    have hrest := ih h.2.2
    omega

theorem bounds (h : Tiles size start offsets stop) {x : Nat} (hx : x ∈ offsets) :
    start ≤ x ∧ x + size x ≤ stop := by
  induction offsets generalizing start with
  | nil => exact absurd hx List.not_mem_nil
  | cons y rest ih =>
    obtain ⟨rfl, hpos, hrest⟩ := h
    rcases List.mem_cons.1 hx with rfl | hx
    · exact ⟨Nat.le_refl _, hrest.start_le⟩
    · have hin := ih hrest hx
      omega

theorem size_pos (h : Tiles size start offsets stop) {x : Nat} (hx : x ∈ offsets) : 0 < size x := by
  induction offsets generalizing start with
  | nil => exact absurd hx List.not_mem_nil
  | cons y rest ih =>
    rcases List.mem_cons.1 hx with rfl | hx
    · exact h.2.1
    · exact ih h.2.2 hx

theorem pairwise (h : Tiles size start offsets stop) :
    offsets.Pairwise fun x y => x + size x ≤ y := by
  induction offsets generalizing start with
  | nil => exact List.Pairwise.nil
  | cons x rest ih =>
    obtain ⟨rfl, hpos, hrest⟩ := h
    exact List.pairwise_cons.2 ⟨fun y hy => (hrest.bounds hy).1, ih hrest⟩

theorem sum (h : Tiles size start offsets stop) : start + (offsets.map size).sum = stop := by
  induction offsets generalizing start with
  | nil => exact h
  | cons x rest ih =>
    obtain ⟨rfl, hpos, hrest⟩ := h
    have htail := ih hrest
    rw [List.map_cons, List.sum_cons]
    omega

theorem append {middle : Nat} {more : List Nat} (h : Tiles size start offsets middle)
    (h' : Tiles size middle more stop) : Tiles size start (offsets ++ more) stop := by
  induction offsets generalizing start with
  | nil =>
    rw [show start = middle from h]
    exact h'
  | cons x rest ih => exact ⟨h.1, h.2.1, ih h.2.2⟩

theorem congr {size' : Nat → Nat} (h : Tiles size start offsets stop)
    (hsize : ∀ x ∈ offsets, size' x = size x) : Tiles size' start offsets stop := by
  induction offsets generalizing start with
  | nil => exact h
  | cons x rest ih =>
    obtain ⟨rfl, hpos, hrest⟩ := h
    have hx := hsize x List.mem_cons_self
    refine ⟨rfl, by omega, ?_⟩
    rw [hx]
    exact ih hrest fun y hy => hsize y (List.mem_cons_of_mem _ hy)

/-- Two tiles overlap only if they are the same. -/
theorem apart (h : Tiles size start offsets stop) {x y : Nat} (hx : x ∈ offsets)
    (hy : y ∈ offsets) : x = y ∨ x + size x ≤ y ∨ y + size y ≤ x := by
  -- whichever of the two comes first, the other lies in the row that starts at its end
  induction offsets generalizing start with
  | nil => exact absurd hx List.not_mem_nil
  | cons z rest ih =>
    obtain ⟨rfl, hpos, hrest⟩ := h
    rcases List.mem_cons.1 hx with rfl | hx'
    · rcases List.mem_cons.1 hy with rfl | hy'
      · exact Or.inl rfl
      · exact Or.inr (Or.inl (hrest.bounds hy').1)
    · rcases List.mem_cons.1 hy with rfl | hy'
      · exact Or.inr (Or.inr (hrest.bounds hx').1)
      · exact ih hrest hx' hy'

theorem mod_eq_zero (h : Tiles size start offsets stop) {n : Nat} (hstart : start % n = 0)
    (hsize : ∀ x ∈ offsets, size x % n = 0) {x : Nat} (hx : x ∈ offsets) : x % n = 0 := by
  induction offsets generalizing start with
  | nil => exact absurd hx List.not_mem_nil
  | cons y rest ih =>
    obtain ⟨rfl, hpos, hrest⟩ := h
    rcases List.mem_cons.1 hx with rfl | hx
    · exact hstart
    · refine ih hrest ?_ (fun z hz => hsize z (List.mem_cons_of_mem _ hz)) hx
      rw [Nat.add_mod, hstart, hsize y List.mem_cons_self, Nat.add_zero, Nat.zero_mod]

theorem stop_mod (h : Tiles size start offsets stop) {n : Nat} (hstart : start % n = 0)
    (hsize : ∀ x ∈ offsets, size x % n = 0) : stop % n = 0 := by
  induction offsets generalizing start with
  | nil => exact (show start = stop from h) ▸ hstart
  | cons y rest ih =>
    obtain ⟨rfl, hpos, hrest⟩ := h
    refine ih hrest ?_ fun z hz => hsize z (List.mem_cons_of_mem _ hz)
    rw [Nat.add_mod, hstart, hsize y List.mem_cons_self, Nat.add_zero, Nat.zero_mod]

end Tiles

/-! ### Addresses of a space -/

namespace Space

theorem base_mod (s : Space) : s.base % alignment = 0 := by
  rcases s with (_ | _ | _) | _ <;> rfl

theorem ofAddress?_eq_some_iff {a : Address} {s : Space} :
    ofAddress? a = some s ↔ a.toNat / spaceLimit = s.rank + 1 := by
  rw [ofAddress?]
  constructor
  · intro h
    -- one case for each of the four spaces, and one for all other addresses
    split at h
    all_goals first
      | (rename_i hk; cases h; exact hk)
      | exact absurd h (by simp)
  · intro h
    rw [h]
    rcases s with (_ | _ | _) | _ <;> rfl

theorem base_le_of_ofAddress? {a : Address} {s : Space} (h : ofAddress? a = some s) :
    s.base ≤ a.toNat := by
  have hdiv := ofAddress?_eq_some_iff.1 h
  rw [base, ← hdiv]
  exact Nat.div_mul_le_self _ _

/-- An address is that of its offset in its space. -/
theorem address_offset {a : Address} {s : Space} (h : ofAddress? a = some s) :
    s.address (s.offset a) = a := by
  have hbase := base_le_of_ofAddress? h
  rw [address, offset, Nat.add_sub_cancel' hbase, UInt64.ofNat_toNat]

theorem address_inj {s : Space} {x y : Nat} (hx : x < spaceLimit) (hy : y < spaceLimit)
    (h : s.address x = s.address y) : x = y := by
  rw [← offset_address (s := s) hx, h, offset_address hy]

theorem address_ne_zero {s : Space} {x : Nat} (hx : x < spaceLimit) : s.address x ≠ 0 := by
  intro h
  have hs := ofAddress?_address (s := s) hx
  rw [h, show ofAddress? 0 = none from rfl] at hs
  exact absurd hs (by simp)

end Space

/-! ### Bits of aligned offsets -/

namespace StartMap

variable {x y : Nat}

theorem index_mul (hx : x % alignment = 0) : index x * alignment = x :=
  Nat.div_mul_cancel (Nat.dvd_of_mod_eq_zero hx)

/-- Two aligned offsets have different bits. -/
theorem eq_of_index_eq (hx : x % alignment = 0) (hy : y % alignment = 0)
    (h : index x = index y) : x = y := by
  rw [← index_mul hx, h, index_mul hy]

theorem index_lt_iff (hx : x % alignment = 0) (hy : y % alignment = 0) :
    index x < index y ↔ x < y := by
  have hpos : 0 < alignment := by decide
  rw [← Nat.mul_lt_mul_right hpos, index_mul hx, index_mul hy]

end StartMap

/-! ### The walk over an arena -/

namespace Arena

/-- The size of the block whose header is at an offset. -/
def sizeAt (a : Arena) (x : Nat) : Nat := (a.header x).blockSize

theorem offsetsFrom_of_top_le {a : Arena} {start : Nat} (h : a.top ≤ start) :
    a.offsetsFrom start = [] := by
  rw [offsetsFrom, if_neg (by omega)]

theorem offsetsFrom_of_lt {a : Arena} {start : Nat} (h : start < a.top) :
    a.offsetsFrom start = start :: a.offsetsFrom (start + a.sizeAt start) := by
  rw [offsetsFrom, if_pos h]
  rfl

/-- Tiles up to the top are what the walk finds. -/
theorem offsetsFrom_eq_of_tiles {a : Arena} {start : Nat} {offsets : List Nat}
    (h : Tiles a.sizeAt start offsets a.top) : a.offsetsFrom start = offsets := by
  induction offsets generalizing start with
  | nil => exact offsetsFrom_of_top_le (Nat.le_of_eq (Eq.symm h))
  | cons x rest ih =>
    obtain ⟨rfl, hpos, hrest⟩ := h
    have hle := hrest.start_le
    -- the first block has a size, so the walk is not yet at the top
    rw [offsetsFrom_of_lt (by omega), ih hrest]

/-! ### Well-formed arenas -/

/-- What the arena of a space looks like between any two operations, marks and tags
of its objects apart. -/
structure WellFormed (a : Arena) (s : Space) : Prop where
  space_eq : a.space = s
  tiled : Tiles a.sizeAt 0 a.offsets a.top
  aligned : ∀ x ∈ a.offsets, (a.header x).payloadSize % alignment = 0
  isSet_iff : ∀ x, x % alignment = 0 → (a.starts.isSet x = true ↔ x ∈ a.offsets)
  zero_above : ∀ i, a.top ≤ i → a.memory.byte i = 0
  top_le : a.top ≤ a.capacity
  capacity_le : a.capacity ≤ spaceLimit
  covered : StartMap.groupsFor a.capacity ≤ a.starts.covered

theorem blockSize_mod {h : Header} (hp : h.payloadSize % alignment = 0) :
    h.blockSize % alignment = 0 := by
  rw [Header.blockSize_eq, Nat.add_mod, hp]
  rfl

namespace WellFormed

variable {a : Arena} {s : Space}

theorem sizeAt_mod (h : a.WellFormed s) {x : Nat} (hx : x ∈ a.offsets) :
    a.sizeAt x % alignment = 0 := blockSize_mod (h.aligned x hx)

theorem mod_eq_zero (h : a.WellFormed s) {x : Nat} (hx : x ∈ a.offsets) : x % alignment = 0 :=
  h.tiled.mod_eq_zero (Nat.zero_mod _) (fun _ hy => h.sizeAt_mod hy) hx

theorem top_mod (h : a.WellFormed s) : a.top % alignment = 0 :=
  h.tiled.stop_mod (Nat.zero_mod _) fun _ hx => h.sizeAt_mod hx

theorem add_sizeAt_le (h : a.WellFormed s) {x : Nat} (hx : x ∈ a.offsets) :
    x + a.sizeAt x ≤ a.top := (h.tiled.bounds hx).2

end WellFormed

theorem headerSize_le_sizeAt (a : Arena) (x : Nat) : headerSize ≤ a.sizeAt x :=
  Header.headerSize_le _

/-- An address names an object exactly if the walk finds its offset and the header there
carries the tag of the arena. -/
theorem isObjectStart_iff {a : Arena} {s : Space} (h : a.WellFormed s) {address : Address}
    (hs : Space.ofAddress? address = some s) :
    a.isObjectStart address = true ↔
      s.offset address ∈ a.offsets ∧ (a.header (s.offset address)).space = s := by
  -- bases are aligned, so an address is aligned exactly if its offset is
  have hbase : s.base ≤ address.toNat := Space.base_le_of_ofAddress? hs
  have hadd : s.base + s.offset address = address.toNat := by
    unfold Space.offset
    omega
  have hmod : address.toNat % alignment = s.offset address % alignment := by
    rw [← hadd, Nat.add_mod, Space.base_mod, Nat.zero_add, Nat.mod_mod]
  rw [isObjectStart, contains, h.space_eq, hmod]
  constructor
  · intro hstart
    split at hstart
    · rename_i hcond
      simp only [decide_eq_true_eq, Bool.decide_and, Bool.and_eq_true] at hstart
      exact ⟨(h.isSet_iff _ hcond.2).1 hstart.2.1, hstart.2.2.2.2⟩
    · exact absurd hstart Bool.false_ne_true
  · rintro ⟨hmem, htag⟩
    -- a block of the walk lies below the top with its header
    have hfit := h.add_sizeAt_le hmem
    have hhead := a.headerSize_le_sizeAt (s.offset address)
    have hpos : 0 < headerSize := by decide
    have hin : s.base ≤ address.toNat ∧ address.toNat < s.base + a.top := by omega
    rw [if_pos ⟨decide_eq_true hin, h.mod_eq_zero hmem⟩]
    have hset := (h.isSet_iff _ (h.mod_eq_zero hmem)).2 hmem
    have hend : s.offset address + headerSize ≤ a.top := by omega
    exact decide_eq_true ⟨hend, hset, h.aligned _ hmem, hfit, htag⟩

end Arena

end GenerationalHeap
