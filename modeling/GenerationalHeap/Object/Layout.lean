/-
Type descriptors: where the reference slots of a payload are.

* `Layout` — no slots, slots at fixed offsets, or nothing but slots.
* `TypeInfo` — a named layout. Fixed offsets are ascending, each given once,
  and multiples of the slot size; the type carries the proof.
* `TypeInfo.ofFields` — the only way to fixed offsets, from any aligned list.
* `TypeInfo.referenceOffsets` — the slots of a payload, as tracing sees them.
* `TypeInfo.isReferenceSlot`, `TypeInfo.overlapsReference` — the same slots, as
  the checks of field access see them.
* `TypeSystem`, `TypeRegistry` — descriptors by type number.
-/
import GenerationalHeap.Object.Header

namespace GenerationalHeap

/-- The size of a reference slot in bytes. A slot holds an address, or zero. -/
def slotSize : Nat := 8

/-! ### Layouts -/

/-- The reference slots of a payload. -/
inductive Layout where
  /-- Plain data. -/
  | noReferences
  /-- A slot at each of these payload offsets. -/
  | fields (offsets : List UInt32)
  /-- The payload is a row of slots. -/
  | allSlots
  deriving DecidableEq

namespace Layout

/-- Fixed offsets are ascending and slot aligned. -/
def Valid : Layout → Prop
  | .fields offsets => offsets.Pairwise (· < ·) ∧ ∀ o ∈ offsets, o.toNat % slotSize = 0
  | _ => True

/-- Puts an offset into its place in an ascending list, unless it is there. -/
def insertOffset (o : UInt32) : List UInt32 → List UInt32
  | [] => [o]
  | p :: rest =>
    if o < p then o :: p :: rest
    else if o = p then p :: rest
    else p :: insertOffset o rest

/-- The offsets of a list, ascending and without repetitions. -/
def ascending (offsets : List UInt32) : List UInt32 := offsets.foldr insertOffset []

theorem mem_insertOffset {o x : UInt32} {offsets : List UInt32} :
    x ∈ insertOffset o offsets ↔ x = o ∨ x ∈ offsets := by
  induction offsets with
  | nil => simp [insertOffset]
  | cons p rest ih =>
    rw [insertOffset]
    split
    · simp
    · split
      · rename_i h
        simp [h]
      · simp only [List.mem_cons, ih]
        constructor
        · rintro (h | h | h) <;> simp [h]
        · rintro (h | h | h) <;> simp [h]

theorem mem_ascending {x : UInt32} {offsets : List UInt32} :
    x ∈ ascending offsets ↔ x ∈ offsets := by
  induction offsets with
  | nil => simp [ascending]
  | cons p rest ih => simp_all [ascending, mem_insertOffset]

theorem pairwise_insertOffset {o : UInt32} {offsets : List UInt32}
    (h : offsets.Pairwise (· < ·)) : (insertOffset o offsets).Pairwise (· < ·) := by
  induction offsets with
  | nil => simp [insertOffset]
  | cons p rest ih =>
    have hp := List.pairwise_cons.1 h
    rw [insertOffset]
    split
    · rename_i hlt
      refine List.pairwise_cons.2 ⟨fun x hx => ?_, h⟩
      rcases List.mem_cons.1 hx with rfl | hx
      · exact hlt
      · exact UInt32.lt_trans hlt (hp.1 x hx)
    · split
      · exact h
      · rename_i hlt hne
        refine List.pairwise_cons.2 ⟨fun x hx => ?_, ih hp.2⟩
        rcases mem_insertOffset.1 hx with rfl | hx
        · exact UInt32.lt_of_le_of_ne (UInt32.not_lt.1 hlt) (Ne.symm hne)
        · exact hp.1 x hx

theorem pairwise_ascending (offsets : List UInt32) :
    (ascending offsets).Pairwise (· < ·) := by
  induction offsets with
  | nil => exact List.Pairwise.nil
  | cons p rest ih => exact pairwise_insertOffset ih

end Layout

/-! ### Descriptors -/

/-- A managed type: its name and its reference slots. -/
structure TypeInfo where
  name : String
  layout : Layout
  valid : layout.Valid

namespace TypeInfo

/-- A type with reference slots at fixed offsets, in any order. Refused if one
of them is not slot aligned. -/
def ofFields (name : String) (offsets : List UInt32) : Except Error TypeInfo :=
  match h : offsets.find? (fun o => o.toNat % slotSize != 0) with
  | some bad => .error (.invalidArgument (.misalignedField bad.toNat slotSize))
  | none =>
    .ok
      { name
        layout := .fields (Layout.ascending offsets)
        valid := by
          refine ⟨Layout.pairwise_ascending offsets, fun o ho => ?_⟩
          have := List.find?_eq_none.1 h o (Layout.mem_ascending.1 ho)
          simpa using this }

/-- A type without references. -/
def leaf (name : String) : TypeInfo := ⟨name, .noReferences, trivial⟩

/-- A type whose payload is a row of references. -/
def array (name : String) : TypeInfo := ⟨name, .allSlots, trivial⟩

/-- The smallest payload that holds every fixed slot. -/
def minPayload (t : TypeInfo) : Nat :=
  match t.layout with
  | .fields offsets => (offsets.getLast?.map fun o => o.toNat + slotSize).getD 0
  | _ => 0

/-- The offsets of the reference slots of a payload, ascending. Fixed slots
that a payload cuts off are left out. -/
def referenceOffsets (t : TypeInfo) (payload : Nat) : List Nat :=
  match t.layout with
  | .noReferences => []
  | .fields offsets => (offsets.map UInt32.toNat).filter (· + slotSize ≤ payload)
  | .allSlots => (List.range (payload / slotSize)).map (slotSize * ·)

/-- Whether a layout has a slot at `offset`. Fixed offsets are looked up as numbers
of 32 bits. -/
def hasSlot (t : TypeInfo) (offset : Nat) : Bool :=
  match t.layout with
  | .noReferences => false
  | .fields offsets => offsets.contains (UInt32.ofNat offset)
  | .allSlots => true

/-- Whether a reference slot of a payload starts at `offset`. Nothing keeps the
end of the slot from being no word. -/
def isReferenceSlot (t : TypeInfo) (payload offset : Nat) (build : Build := .checked) :
    Except Error Bool :=
  if offset % slotSize ≠ 0 then .ok false
  else do
    let stop ← build.add offset slotSize
    return decide (stop ≤ payload) && t.hasSlot offset

/-- Whether the range of bytes from `offset` up to `stop` crosses a reference
slot. An empty range inside a slot does. -/
def crossesReference (t : TypeInfo) (payload offset stop : Nat) : Bool :=
  (t.referenceOffsets payload).any fun slot => decide (slot < stop ∧ offset < slot + slotSize)

/-- Whether the range of `length` bytes from `offset` on crosses a reference
slot. Nothing keeps its end from being no word. -/
def overlapsReference (t : TypeInfo) (payload offset length : Nat) (build : Build := .checked) :
    Except Error Bool := do
  let stop ← build.add offset length
  return t.crossesReference payload offset stop

/-- The layout as diagnostics show it. -/
def layoutText (t : TypeInfo) : String :=
  match t.layout with
  | .noReferences => "NoReferences"
  | .fields offsets =>
    "Fields([" ++ ", ".intercalate (offsets.map fun o => toString o.toNat) ++ "])"
  | .allSlots => "AllSlots"

end TypeInfo

/-! ### Type systems -/

/-- What a host knows of its types. A number without a descriptor is unknown. -/
abbrev TypeSystem := TypeId → Option TypeInfo

/-- Descriptors in the order of their registration, which gives each its number.
None is ever removed or changed. -/
structure TypeRegistry where
  types : Array TypeInfo := #[]

namespace TypeRegistry

/-- Registers a descriptor and gives its number. -/
def register (r : TypeRegistry) (t : TypeInfo) : TypeId × TypeRegistry :=
  (⟨UInt32.ofNat r.types.size⟩, ⟨r.types.push t⟩)

/-- The number of registered types. -/
def size (r : TypeRegistry) : Nat := r.types.size

/-- The descriptor with a given number. -/
def info? (r : TypeRegistry) : TypeSystem := fun id => r.types[id.index.toNat]?

end TypeRegistry

end GenerationalHeap
