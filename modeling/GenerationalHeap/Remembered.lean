/-
The write barrier: which older objects may hold references to younger ones.

A collection that leaves a space alone does not read its objects. Those that
hold a reference into a younger space are remembered instead, and are traced
like roots.

* `pointsDown` — whether a reference leads into a younger space.
* `Remembered` — the set of remembered holders, in the order they were added.
* `Barrier`, `Barrier.store` — the set with its counters, and what a store of a
  reference does to it.
-/
import GenerationalHeap.Space

namespace GenerationalHeap

/-- Whether a reference from `holder` to `target` leads into a younger space. -/
def pointsDown (holder target : Address) : Bool :=
  match Space.ofAddress? holder, Space.ofAddress? target with
  | some h, some t => decide (t.rank < h.rank)
  | _, _ => false

/-! ### Remembered holders -/

/-- The remembered holders, each once, in the order they were added. -/
structure Remembered where
  holders : Array Address := #[]

namespace Remembered

/-- Adds a holder. The answer is whether it is new. -/
def insert (r : Remembered) (holder : Address) : Bool × Remembered :=
  if r.holders.contains holder then (false, r) else (true, ⟨r.holders.push holder⟩)

/-- The set of the holders in a list. -/
def ofList (holders : List Address) : Remembered :=
  holders.foldl (fun r holder => (r.insert holder).2) {}

/-- The holders that lie in a space with a property, in order. -/
def within (r : Remembered) (p : Space → Bool) : List Address :=
  r.holders.toList.filter fun a => (Space.ofAddress? a).any p

/-- The number of holders. -/
def size (r : Remembered) : Nat := r.holders.size

theorem mem_insert (r : Remembered) (holder a : Address) :
    a ∈ (r.insert holder).2.holders ↔ a ∈ r.holders ∨ a = holder := by
  rw [insert]
  split
  · rename_i h
    have hmem : holder ∈ r.holders := by simpa using h
    constructor
    · exact Or.inl
    · rintro (ha | rfl)
      · exact ha
      · exact hmem
  · simp

end Remembered

/-! ### The barrier -/

/-- The remembered holders and how often the barrier ran. -/
structure Barrier where
  remembered : Remembered := {}
  /-- How often a reference was stored. -/
  invocations : Nat := 0
  /-- How many of the stores added a holder. -/
  recorded : Nat := 0

/-- Notes that a reference is stored in `holder`; `none` is the null reference. -/
def Barrier.store (b : Barrier) (holder : Address) (target : Option Address) : Barrier :=
  let b := { b with invocations := b.invocations + 1 }
  match target with
  | none => b
  | some target =>
    if pointsDown holder target then
      let (isNew, remembered) := b.remembered.insert holder
      { b with remembered, recorded := if isNew then b.recorded + 1 else b.recorded }
    else b

end GenerationalHeap
