/-
Tables of handles: strong roots, weak references, and providers of root slots.

* `HandleTable` — values by handle. Handles are counted from one and never issued
  again, so a table is a row of places, of which those of released handles are
  empty. `HandleTable.get?` is the view that `get?_add`, `get?_modify`, `get?_map`
  and `get?_erase` are stated in.
* `RootSlots` — the slots of a provider. A slot without an object keeps its
  place.
* `Fate`, `WeakTable` — what a collection decides about the object of a weak
  handle, and what becomes of the handle.
-/
import GenerationalHeap.Error

namespace GenerationalHeap

/-! ### Tables -/

/-- Values by handle, in the order they were added. -/
structure HandleTable (α : Type) where
  /-- The value of handle `i + 1` at place `i`; none once the handle is released. -/
  places : Array (Option α) := #[]

namespace HandleTable

variable {α : Type}

/-- The next handle to issue. -/
def next (t : HandleTable α) : Nat := t.places.size + 1

/-- Adds a value and issues its handle. -/
def add : HandleTable α → α → Nat × HandleTable α
  | ⟨places⟩, value => (places.size + 1, ⟨places.push (some value)⟩)

/-- The value of a handle. -/
def get? (t : HandleTable α) : (id : Nat) → Option α
  | 0 => none
  | i + 1 => t.places[i]?.join

/-- The value of a handle, or that the handle is invalid. -/
def get (t : HandleTable α) (id : Nat) : Except Error α :=
  match t.get? id with
  | some value => .ok value
  | none => .error (.invalidHandle id)

/-- Whether a handle is in the table. -/
def contains (t : HandleTable α) (id : Nat) : Bool := (t.get? id).isSome

/-- Changes the value of a handle. Nothing happens if the handle is invalid. -/
def modify : HandleTable α → (id : Nat) → (α → α) → HandleTable α
  | t, 0, _ => t
  | ⟨places⟩, i + 1, f => ⟨places.modify i (·.map f)⟩

/-- Takes a handle out of the table. Nothing happens if the handle is invalid. -/
def erase : HandleTable α → (id : Nat) → HandleTable α
  | t, 0 => t
  | ⟨places⟩, i + 1 => ⟨places.modify i fun _ => none⟩

/-- Takes a handle out of the table. The answer is its value. -/
def remove (id : Nat) : Action (HandleTable α) α := fun t =>
  match t.get id with
  | .ok value => .ok value (t.erase id)
  | .error e => .error e t

/-- Gives a handle another value. -/
def replace (id : Nat) (value : α) : Action (HandleTable α) Unit := fun t =>
  match t.get id with
  | .ok _ => .ok () (t.modify id fun _ => value)
  | .error e => .error e t

/-- The handles in the table, in the order they were issued. -/
def ids (t : HandleTable α) : List Nat :=
  (List.range' 1 t.places.size).filter t.contains

/-- The values in the order they were added. -/
def values (t : HandleTable α) : List α := t.places.toList.filterMap id

/-- Changes every value. -/
def map (f : α → α) : HandleTable α → HandleTable α
  | ⟨places⟩ => ⟨places.map (·.map f)⟩

/-- The number of handles in the table. -/
def size (t : HandleTable α) : Nat := t.places.countP Option.isSome

/-! ### What looking up shows of the operations -/

theorem get?_add (t : HandleTable α) (value : α) (id : Nat) :
    (t.add value).2.get? id = if id = t.next then some value else t.get? id := by
  cases id with
  | zero => simp [get?, next]
  | succ i =>
    rw [add, get?, get?, Array.getElem?_push, next]
    by_cases h : i = t.places.size
    · simp [h]
    · simp [h]

theorem get?_modify (t : HandleTable α) (id k : Nat) (f : α → α) :
    (t.modify id f).get? k = if k = id then (t.get? k).map f else t.get? k := by
  cases id with
  | zero => cases k <;> simp [modify, get?]
  | succ i =>
    cases k with
    | zero => simp [get?]
    | succ j =>
      rw [modify, get?, get?, Array.getElem?_modify]
      by_cases h : j = i
      · subst h
        cases t.places[j]? <;> simp
      · simp [h, Ne.symm h]

theorem get?_map (t : HandleTable α) (f : α → α) (k : Nat) :
    (t.map f).get? k = (t.get? k).map f := by
  cases k with
  | zero => rfl
  | succ i =>
    rw [map, get?, get?, Array.getElem?_map]
    cases t.places[i]? <;> simp

theorem get?_erase (t : HandleTable α) (id k : Nat) :
    (t.erase id).get? k = if k = id then none else t.get? k := by
  cases id with
  | zero => cases k <;> simp [erase, get?]
  | succ i =>
    cases k with
    | zero => simp [get?]
    | succ j =>
      rw [erase, get?, get?, Array.getElem?_modify]
      by_cases h : j = i
      · subst h
        cases t.places[j]? <;> simp
      · simp [h, Ne.symm h]

end HandleTable

/-- The text of a root handle. -/
def rootHandleText (id : Nat) : String := "root#" ++ toString id

/-- The text of a weak handle. -/
def weakHandleText (id : Nat) : String := "weak#" ++ toString id

/-! ### Slots of a provider -/

/-- The root slots of a provider, such as a mutator's stack. -/
abbrev RootSlots := Array (Option Address)

namespace RootSlots

/-- The object in a slot. -/
def object? (slots : RootSlots) (i : Nat) : Option Address := slots[i]?.join

/-- Puts an object into a slot, or empties it. Nothing happens without such a
slot. -/
def put (slots : RootSlots) (i : Nat) (object : Option Address) : RootSlots :=
  slots.modify i fun _ => object

/-- Takes the last slot away. The answer is the object in it. -/
def takeLast (slots : RootSlots) : Option Address × RootSlots := (slots.back?.join, slots.pop)

/-- The objects in the slots, in order. -/
def objects (slots : RootSlots) : List Address := slots.toList.filterMap id

/-- Changes every slot that has an object. -/
def redirect (f : Address → Address) (slots : RootSlots) : RootSlots := slots.map (·.map f)

end RootSlots

/-! ### Weak handles -/

/-- What a collection decides about an object. -/
inductive Fate where
  /-- It survives, perhaps at a new address. -/
  | lives (address : Address)
  /-- It is reclaimed. -/
  | dies
  /-- It lies in a space that is not collected. -/
  | untouched
  deriving DecidableEq

/-- The object of a weak handle after a collection; none from the time it dies. -/
def Fate.apply (old : Address) : Fate → Option Address
  | .lives address => some address
  | .dies => none
  | .untouched => some old

/-- Weak handles. A handle whose object has died stays in the table, cleared. -/
structure WeakTable where
  handles : HandleTable (Option Address) := {}
  /-- How many handles were cleared so far. -/
  clearedTotal : Nat := 0

namespace WeakTable

/-- Makes a weak handle to an object. -/
def create (t : WeakTable) (object : Address) : Nat × WeakTable :=
  let (id, handles) := t.handles.add (some object)
  (id, { t with handles })

/-- Releases a weak handle. -/
def free (id : Nat) : Action WeakTable Unit := fun t =>
  match HandleTable.remove id t.handles with
  | .ok _ handles => .ok () { t with handles }
  | .error e handles => .error e { t with handles }

/-- Applies what a collection decides about the objects. The answer is the
number of handles that are cleared. -/
def process (t : WeakTable) (fate : Address → Fate) : Nat × WeakTable :=
  let cleared := t.handles.values.countP fun object =>
    match object with
    | some a => fate a = .dies
    | none => false
  (cleared,
    { handles := t.handles.map fun object => object.bind fun a => (fate a).apply a
      clearedTotal := t.clearedTotal + cleared })

end WeakTable

end GenerationalHeap
