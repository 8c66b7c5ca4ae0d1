/-
What a collection covers and where its survivors go.

* `Target` — how far up a collection reaches. Collecting a generation always
  collects the younger ones too.
* `Target.condemns`, `Target.condemnsAddress` — the spaces it collects.
* `Placement`, `Space.place` — the space and age of a survivor. A survivor of
  the nursery is promoted after two collections, one of generation 1 at once;
  the objects of generation 2 and large objects stay.
-/
import GenerationalHeap.Object.Header

namespace GenerationalHeap

/-! ### Targets -/

/-- How far up a collection reaches. -/
inductive Target where
  /-- The nursery only. -/
  | gen0
  /-- Generations 0 and 1. -/
  | gen1
  /-- All generations; large objects are left alone. -/
  | gen2
  /-- Every space. -/
  | full
  deriving DecidableEq, Inhabited

namespace Target

/-- All targets, smallest first. -/
def all : List Target := [.gen0, .gen1, .gen2, .full]

/-- The rank of the oldest space that is collected. -/
def rank : Target → Nat
  | .gen0 => 0
  | .gen1 => 1
  | .gen2 => 2
  | .full => 3

/-- The name of a target in messages. -/
def name : Target → String
  | .gen0 => "gen0"
  | .gen1 => "gen1"
  | .gen2 => "gen2"
  | .full => "full"

/-- Whether a space is collected. -/
def condemns (t : Target) (s : Space) : Bool := decide (s.rank ≤ t.rank)

/-- Whether the space that owns an address is collected. -/
def condemnsAddress (t : Target) (a : Address) : Bool :=
  match Space.ofAddress? a with
  | some s => t.condemns s
  | none => false

/-- The generations that are collected, oldest first. -/
def generations (t : Target) : List Generation :=
  Generation.all.reverse.filter fun g => t.condemns (.arena g)

end Target

/-! ### Promotion -/

/-- The number of collections of the nursery after which a survivor leaves it. -/
def promotionAge : Nat := 2

/-- Where a survivor goes, and the age that it has there. -/
structure Placement where
  space : Space
  age : Nat
  deriving DecidableEq

/-- Whether a survivor leaves its space. -/
def Placement.isPromotion (p : Placement) (old : Space) : Bool := p.space != old

/-- Where an object of a space goes when it survives a collection. -/
def Space.place (s : Space) (h : Header) : Placement :=
  match s with
  | .arena .gen0 =>
    let age := h.age + 1
    if age ≥ promotionAge then ⟨.arena .gen1, 0⟩ else ⟨.arena .gen0, age⟩
  | .arena .gen1 => ⟨.arena .gen2, 0⟩
  | s => ⟨s, h.age⟩

end GenerationalHeap
