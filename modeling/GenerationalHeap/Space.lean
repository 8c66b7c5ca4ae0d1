/-
The four spaces of the heap and the addresses that name their bytes.

Each space owns a range of `2 ^ 32` addresses, so an address alone tells which
space it lies in:

* `Generation` — the three bump-allocated generations, youngest first.
* `Space` — a generation's arena, or the large object space.
* `Space.base`, `Space.address` — the first address of a space, and the
  address of an offset in it.
* `Space.ofAddress?` — the space that owns an address.

Addresses are 64-bit words; `0` is null and lies in no space.
-/

namespace GenerationalHeap

-- Inside the library, powers and sums of natural numbers are those of the core library, whatever
-- else is imported.
attribute [scoped instance (high)] instPowNat Zero.ofOfNat0

/-- A heap address. Zero is null. -/
abbrev Address := UInt64

/-- The size of the address range that is reserved for each space. The number is
made once and not anew at each use. -/
@[noinline] def spaceLimit : Nat := 2 ^ (32 : Nat)

/-! ### Generations -/

/-- A bump-allocated generation. -/
inductive Generation where
  /-- The nursery: every small object starts here. -/
  | gen0
  /-- Survivors that were promoted out of the nursery. -/
  | gen1
  /-- Long-lived objects. -/
  | gen2
  deriving DecidableEq, Inhabited

namespace Generation

/-- All generations, youngest first. -/
def all : List Generation := [.gen0, .gen1, .gen2]

/-- The age order of the generations: the larger the rank, the older. -/
def rank : Generation → Nat
  | .gen0 => 0
  | .gen1 => 1
  | .gen2 => 2

/-- The generation that survivors are promoted into. The oldest keeps its own. -/
def older : Generation → Generation
  | .gen0 => .gen1
  | .gen1 | .gen2 => .gen2

end Generation

/-! ### Spaces -/

/-- A space of the heap. -/
inductive Space where
  /-- The arena of a generation, compacted by collections. -/
  | arena (generation : Generation)
  /-- The large object space, swept in place. -/
  | large
  deriving DecidableEq, Inhabited

namespace Space

/-- All spaces, youngest first. -/
def all : List Space := [.arena .gen0, .arena .gen1, .arena .gen2, .large]

/-- The age order of the spaces. The large object space counts as the oldest. -/
def rank : Space → Nat
  | .arena g => g.rank
  | .large => 3

/-- The name of a space in messages. -/
def name : Space → String
  | .arena .gen0 => "gen0"
  | .arena .gen1 => "gen1"
  | .arena .gen2 => "gen2"
  | .large => "loh"

/-- The space that survivors of a space belong to once they are promoted. -/
def older : Space → Space
  | .arena g => .arena g.older
  | .large => .large

/-- The space with a given header tag. Tags above the last rank mean `large`. -/
def ofTag : Nat → Space
  | 0 => .arena .gen0
  | 1 => .arena .gen1
  | 2 => .arena .gen2
  | _ => .large

/-- The first address of a space. Space ranges start at `2 ^ 32`, so that the
range around null stays free. -/
def base (s : Space) : Nat := (s.rank + 1) * spaceLimit

/-- The address of the byte at `offset` in a space. -/
def address (s : Space) (offset : Nat) : Address := UInt64.ofNat (s.base + offset)

/-- The offset of an address from the start of a space. -/
def offset (s : Space) (a : Address) : Nat := a.toNat - s.base

/-- The space whose range holds an address. -/
def ofAddress? (a : Address) : Option Space :=
  match a.toNat / spaceLimit with
  | 1 => some (.arena .gen0)
  | 2 => some (.arena .gen1)
  | 3 => some (.arena .gen2)
  | 4 => some .large
  | _ => none

theorem base_add_lt {s : Space} {offset : Nat} (h : offset < spaceLimit) :
    s.base + offset < UInt64.size := by
  rcases s with (_ | _ | _) | _ <;>
    simp only [base, rank, Generation.rank, spaceLimit, UInt64.size] at * <;> omega

theorem toNat_address {s : Space} {offset : Nat} (h : offset < spaceLimit) :
    (s.address offset).toNat = s.base + offset := by
  simp only [address, UInt64.toNat_ofNat']
  exact Nat.mod_eq_of_lt (base_add_lt h)

@[simp] theorem offset_address {s : Space} {offset : Nat} (h : offset < spaceLimit) :
    s.offset (s.address offset) = offset := by
  simp only [Space.offset, toNat_address h]
  omega

theorem ofAddress?_address {s : Space} {offset : Nat} (h : offset < spaceLimit) :
    ofAddress? (s.address offset) = some s := by
  have hdiv : (s.address offset).toNat / spaceLimit = s.rank + 1 := by
    rw [toNat_address h, base, spaceLimit] at *
    omega
  rw [ofAddress?, hdiv]
  rcases s with (_ | _ | _) | _ <;> rfl

end Space

/-! ### One value for each generation -/

/-- One value for each generation. -/
structure PerGeneration (α : Type) where
  gen0 : α
  gen1 : α
  gen2 : α
  deriving Inhabited

namespace PerGeneration

variable {α : Type}

/-- The value of a generation. -/
def get (p : PerGeneration α) : Generation → α
  | .gen0 => p.gen0
  | .gen1 => p.gen1
  | .gen2 => p.gen2

/-- The same values, but the one of `g` changed by `f`. -/
@[inline] def modify (p : PerGeneration α) (g : Generation) (f : α → α) : PerGeneration α :=
  match p with
  | ⟨x, y, z⟩ =>
    match g with
    | .gen0 => ⟨f x, y, z⟩
    | .gen1 => ⟨x, f y, z⟩
    | .gen2 => ⟨x, y, f z⟩

/-- The values of a function on generations. -/
def ofFn (f : Generation → α) : PerGeneration α := ⟨f .gen0, f .gen1, f .gen2⟩

/-- The values, youngest generation first. -/
def toList (p : PerGeneration α) : List α := [p.gen0, p.gen1, p.gen2]

@[simp] theorem get_ofFn (f : Generation → α) (g : Generation) : (ofFn f).get g = f g := by
  cases g <;> rfl

theorem get_modify (p : PerGeneration α) (g k : Generation) (f : α → α) :
    (p.modify g f).get k = if k = g then f (p.get k) else p.get k := by
  cases g <;> cases k <;> rfl

end PerGeneration

end GenerationalHeap
