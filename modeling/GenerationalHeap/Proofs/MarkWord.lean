/-
The mark word as six fields that know nothing of each other.

Four flags, the age and the tag share one word. Every setter replaces the bits of its own field and
no others, so it is seen by its own reader alone, and setters of different fields may be used in
any order.

* `Header.Field`, `Header.read` — the fields, where they lie, and what they tell.
* `Header.Update`, `Header.apply` — the setters.
* `Word.splice` — some bits of a word replaced; `Header.markWord_apply` — so does every setter.
* `Header.read_apply_of_ne`, `Header.apply_comm` — fields are independent.
* `Header.stored_and_set` — headers in memory, and their fields.
-/
import GenerationalHeap.Proofs.Agreement
import Mathlib.Data.List.Nodup

namespace GenerationalHeap

/-! ### Some bits of a word -/

namespace Word

/-- A word with the bits of a mask replaced. -/
def splice (w mask bits : UInt64) : UInt64 := w &&& ~~~mask ||| bits

variable {w a b v u : UInt64}

theorem getLsbD_splice {i : Nat} (hi : i < 64) (w a v : UInt64) :
    (splice w a v).toBitVec.getLsbD i =
      (w.toBitVec.getLsbD i && !a.toBitVec.getLsbD i || v.toBitVec.getLsbD i) := by
  simp [splice, hi]

/-- Bits that are put there lie within the mask. -/
theorem bit_of_within (h : v &&& a = v) {i : Nat} (ha : a.toBitVec.getLsbD i = false) :
    v.toBitVec.getLsbD i = false := by
  rw [← h, UInt64.toBitVec_and, BitVec.getLsbD_and, ha, Bool.and_false]

theorem splice_and_of_apart (hab : a &&& b = 0) (hv : v &&& a = v) :
    splice w a v &&& b = w &&& b := by
  have hvb : v &&& b = 0 := by rw [← hv, UInt64.and_assoc, hab, UInt64.and_zero]
  rw [splice, or_and_of_apart hvb, and_not_and_of_apart hab]

theorem splice_comm (hab : a &&& b = 0) (hv : v &&& a = v) (hu : u &&& b = u) :
    splice (splice w a v) b u = splice (splice w b u) a v := by
  refine eq_of_bits fun i hi => ?_
  rw [getLsbD_splice hi, getLsbD_splice hi, getLsbD_splice hi, getLsbD_splice hi]
  have hbits := bit_of_and_eq_zero hab i
  -- a bit outside of both masks is that of the word, and no bit lies in both
  cases ha : a.toBitVec.getLsbD i with
  | false =>
    rw [bit_of_within hv ha]
    simp
  | true =>
    rw [ha, Bool.true_and] at hbits
    rw [bit_of_within hu hbits, hbits]
    simp

theorem or_eq_splice (w a : UInt64) : w ||| a = splice w a a := by
  refine eq_of_bits fun i hi => ?_
  rw [getLsbD_splice hi, UInt64.toBitVec_or, BitVec.getLsbD_or]
  cases w.toBitVec.getLsbD i <;> cases a.toBitVec.getLsbD i <;> rfl

theorem ite_and_self (a : UInt64) (on : Bool) :
    (if on then a else 0) &&& a = if on then a else 0 := by
  cases on with
  | false => exact UInt64.zero_and
  | true => exact UInt64.and_self

theorem and_not_eq_splice (w a : UInt64) : w &&& ~~~a = splice w a 0 := (UInt64.or_zero).symm

end Word

namespace Header

/-! ### Fields -/

/-- The fields of the mark word. -/
inductive Field where
  | marked
  | hasFinalizer
  | finalized
  | forwarded
  | age
  | space
  deriving DecidableEq

namespace Field

/-- The lowest bit of a field. -/
def low : Field → Nat
  | marked => 0
  | hasFinalizer => 1
  | finalized => 2
  | forwarded => 3
  | age => 8
  | space => 12

/-- The number of bits of a field. -/
def width : Field → Nat
  | age | space => 4
  | _ => 1

/-- The bits of a field. -/
def mask : Field → UInt64
  | marked => markedMask
  | hasFinalizer => finalizerMask
  | finalized => finalizedMask
  | forwarded => forwardedMask
  | age => ageMask
  | space => spaceMask

/-- What a field tells. -/
abbrev Value : Field → Type
  | age => Nat
  | space => Space
  | _ => Bool

theorem mask_apart {f g : Field} (h : f ≠ g) : f.mask &&& g.mask = 0 := by
  cases f <;> cases g <;> revert h <;> decide

/-- The mask of a field holds the bits from its lowest one on. -/
theorem getLsbD_mask (f : Field) {i : Nat} (hi : i < 64) :
    f.mask.toBitVec.getLsbD i = decide (f.low ≤ i ∧ i < f.low + f.width) := by
  have hall : ∀ i : Fin 64,
      f.mask.toBitVec.getLsbD i.val = decide (f.low ≤ i.val ∧ i.val < f.low + f.width) := by
    cases f <;> decide
  exact hall ⟨i, hi⟩

end Field

/-- What a field of a header tells. -/
def read (h : Header) : (f : Field) → f.Value
  | .marked => h.isMarked
  | .hasFinalizer => h.hasFinalizer
  | .finalized => h.isFinalized
  | .forwarded => h.isForwarded
  | .age => h.age
  | .space => h.space

theorem read_congr {h h' : Header} {f : Field}
    (hw : h'.markWord &&& f.mask = h.markWord &&& f.mask) : h'.read f = h.read f := by
  cases f with
  | age => exact congrArg (fun w : UInt64 => (w >>> 8).toNat) hw
  | space => exact congrArg (fun w : UInt64 => Space.ofTag (w >>> 12).toNat) hw
  | _ => exact congrArg (fun w : UInt64 => w != 0) hw

theorem eq_of_parts {h h' : Header} (hw : h.markWord = h'.markWord) (hs : h.size = h'.size)
    (ht : h.typeId = h'.typeId) (hl : h.slot = h'.slot) (hf : h.forwarding = h'.forwarding) :
    h = h' := by
  cases h
  cases h'
  simp_all only

/-! ### Setters -/

/-- A change of one field. An object is forwarded to an address, or its address is taken back. -/
inductive Update where
  | marked (on : Bool)
  | hasFinalizer (on : Bool)
  | finalized (on : Bool)
  | forwarded (dest : Option Address)
  | age (n : Nat)
  | space (s : Space)
  deriving DecidableEq

/-- Changes one field of a header. -/
def apply (h : Header) : Update → Header
  | .marked on => h.setMarked on
  | .hasFinalizer on => h.setHasFinalizer on
  | .finalized on => h.setFinalized on
  | .forwarded (some a) => h.forwardTo a
  | .forwarded none => h.clearForwarding
  | .age n => h.setAge n
  | .space s => h.setSpace s

namespace Update

/-- The field that is changed. -/
def field : Update → Field
  | marked _ => .marked
  | hasFinalizer _ => .hasFinalizer
  | finalized _ => .finalized
  | forwarded _ => .forwarded
  | age _ => .age
  | space _ => .space

/-- What the field tells afterwards. -/
def value : (u : Update) → u.field.Value
  | marked on | hasFinalizer on | finalized on => on
  | forwarded dest => dest.isSome
  | age n => (min n maxAge : Nat)
  | space s => s

/-- The bits that are put into the field. -/
def bits : Update → UInt64
  | marked on => if on then markedMask else 0
  | hasFinalizer on => if on then finalizerMask else 0
  | finalized on => if on then finalizedMask else 0
  | forwarded dest => if dest.isSome then forwardedMask else 0
  | age n => UInt64.ofNat (min n maxAge) <<< 8
  | space s => UInt64.ofNat s.rank <<< 12

/-- What becomes of the forwarding address. -/
def forwarding (u : Update) (a : Address) : Address :=
  match u with
  | forwarded dest => dest.getD 0
  | _ => a

theorem bits_within (u : Update) : u.bits &&& u.field.mask = u.bits := by
  have hage : ∀ n : Fin 16, UInt64.ofNat n.val <<< 8 &&& ageMask = UInt64.ofNat n.val <<< 8 := by
    decide
  cases u with
  | age n => exact hage ⟨min n maxAge, by unfold maxAge; omega⟩
  | space s => rcases s with (_ | _ | _) | _ <;> rfl
  | forwarded dest => exact Word.ite_and_self _ _
  | marked on | hasFinalizer on | finalized on => exact Word.ite_and_self _ on

theorem forwarding_of_ne {u : Update} (h : u.field ≠ .forwarded) (a : Address) :
    u.forwarding a = a := by
  cases u with
  | forwarded dest => exact absurd rfl h
  | _ => rfl

theorem forwarding_comm {u v : Update} (h : u.field ≠ v.field) (a : Address) :
    u.forwarding (v.forwarding a) = v.forwarding (u.forwarding a) := by
  by_cases hu : u.field = .forwarded
  · have hv : v.field ≠ .forwarded := fun hv => h (hu.trans hv.symm)
    rw [forwarding_of_ne hv, forwarding_of_ne hv]
  · rw [forwarding_of_ne hu, forwarding_of_ne hu]

end Update

/-! ### What setters do -/

section Apply

variable (h : Header) (u v : Update)

theorem markWord_setFlag (mask : UInt64) (on : Bool) :
    (h.setFlag mask on).markWord = Word.splice h.markWord mask (if on then mask else 0) := by
  cases on with
  | false => exact Word.and_not_eq_splice _ _
  | true => exact Word.or_eq_splice _ _

/-- A setter replaces the bits of its field. -/
theorem markWord_apply :
    (h.apply u).markWord = Word.splice h.markWord u.field.mask u.bits := by
  cases u with
  | forwarded dest => cases dest <;> exact markWord_setFlag _ _ _
  | age n => rfl
  | space s => rfl
  | marked on | hasFinalizer on | finalized on => exact markWord_setFlag _ _ on

theorem forwarding_apply : (h.apply u).forwarding = u.forwarding h.forwarding := by
  cases u with
  | forwarded dest => cases dest <;> rfl
  | _ => rfl

@[simp] theorem size_apply : (h.apply u).size = h.size := by
  rcases u with _ | _ | _ | (_ | _) | _ | _ <;> rfl

@[simp] theorem typeId_apply : (h.apply u).typeId = h.typeId := by
  rcases u with _ | _ | _ | (_ | _) | _ | _ <;> rfl

@[simp] theorem slot_apply : (h.apply u).slot = h.slot := by
  rcases u with _ | _ | _ | (_ | _) | _ | _ <;> rfl

theorem read_apply_self : (h.apply u).read u.field = u.value := by
  cases u with
  | age n => exact age_setAge h n
  | space s => exact space_setSpace h s
  | forwarded dest => cases dest <;> exact flag_setFlag_self _ (by decide) _
  | marked on | hasFinalizer on | finalized on => exact flag_setFlag_self h (by decide) on

variable {u v}

theorem read_apply_of_ne {f : Field} (hf : f ≠ u.field) : (h.apply u).read f = h.read f := by
  refine read_congr ?_
  rw [markWord_apply, Word.splice_and_of_apart (Field.mask_apart hf.symm) u.bits_within]

theorem bit_apply_of_outside {i : Nat} (hi : i < 64)
    (hout : ¬(u.field.low ≤ i ∧ i < u.field.low + u.field.width)) :
    (h.apply u).markWord.toBitVec.getLsbD i = h.markWord.toBitVec.getLsbD i := by
  have hmask : u.field.mask.toBitVec.getLsbD i = false := by
    rw [Field.getLsbD_mask _ hi, decide_eq_false hout]
  rw [markWord_apply, Word.getLsbD_splice hi, hmask, Word.bit_of_within u.bits_within hmask,
    Bool.not_false, Bool.and_true, Bool.or_false]

theorem apply_comm (huv : u.field ≠ v.field) : (h.apply u).apply v = (h.apply v).apply u := by
  have hword : ((h.apply u).apply v).markWord = ((h.apply v).apply u).markWord := by
    simp only [markWord_apply]
    exact Word.splice_comm (Field.mask_apart huv) u.bits_within v.bits_within
  have hforward : ((h.apply u).apply v).forwarding = ((h.apply v).apply u).forwarding := by
    simp only [forwarding_apply]
    exact (Update.forwarding_comm huv h.forwarding).symm
  exact eq_of_parts hword (by simp) (by simp) (by simp) hforward

end Apply

/-! ### Headers in memory, and their fields -/

/-- Storing a header that was read leaves no trace. -/
theorem byte_store_load {m : Memory} {x : Nat} (hx : x + headerSize ≤ m.size) (i : Nat) :
    ((load m x).store m x).byte i = m.byte i := by
  by_cases hin : x ≤ i ∧ i < x + headerSize
  · have hbyte := byte_of_load_eq (load_store (load m x) hx) (i := i - x) (by omega)
    rwa [Nat.add_sub_cancel' hin.1] at hbyte
  · rw [byte_store _ hx, if_neg hin]

/-- What a setter does to a header: its field tells the new value, and nothing else has changed
in the mark word. -/
structure Sets (u : Update) (h h' : Header) : Prop where
  own : h'.read u.field = u.value
  others : ∀ f, f ≠ u.field → h'.read f = h.read f
  bits : ∀ i < 64, ¬(u.field.low ≤ i ∧ i < u.field.low + u.field.width) →
    h'.markWord.toBitVec.getLsbD i = h.markWord.toBitVec.getLsbD i

/-- A header is read as it was stored, storing a header that was read changes no byte, and
storing changes no bytes but its own. Whatever the mark word, each setter changes its own field
alone, so setters of different fields may come in any order. -/
theorem stored_and_set {m : Memory} {x : Nat} (hx : x + headerSize ≤ m.size) :
    (∀ h : Header, load (h.store m x) x = h) ∧
    (∀ i, ((load m x).store m x).byte i = m.byte i) ∧
    (∀ h : Header, (h.store m x).size = m.size ∧
      ∀ i, i < x ∨ x + headerSize ≤ i → (h.store m x).byte i = m.byte i) ∧
    (∀ (h : Header) (u : Update), Sets u h (h.apply u)) ∧
    ∀ (h : Header) (us us' : List Update), us.Perm us' → (us.map Update.field).Nodup →
      us.foldl apply h = us'.foldl apply h := by
  refine ⟨fun h => load_store h hx, byte_store_load hx, ?_, ?_, ?_⟩
  · intro h
    refine ⟨size_store h m x, fun i hi => ?_⟩
    rw [byte_store h hx, if_neg (by omega)]
  · intro h u
    exact
      { own := read_apply_self h u
        others := fun _ hf => read_apply_of_ne h hf
        bits := fun _ hi hout => bit_apply_of_outside h hi hout }
  · intro h us us' hperm hnodup
    refine hperm.foldl_eq' (fun u hu v hv z => ?_) h
    by_cases huv : u.field = v.field
    · -- two setters of one field are the same member of the list
      rw [List.inj_on_of_nodup_map hnodup hu hv huv]
    · exact apply_comm z huv

/-- All bits set in a row of 48 bytes, and a header stored from the ninth byte on. Of the header
that was there the age is raised too far, the mark taken back and the tag changed. -/
theorem stored_and_set_ones :
    8 + headerSize ≤ (Memory.ofBytes ⟨Array.replicate 48 255⟩).size ∧
    (∀ m : Memory, m = .ofBytes ⟨Array.replicate 48 255⟩ →
      load ((fresh ⟨7⟩ 48 (.arena .gen1) true).store m 8) 8 = fresh ⟨7⟩ 48 (.arena .gen1) true ∧
      [Update.age 200, .marked false, .space (.arena .gen1)].foldl apply (load m 8) =
        [Update.space (.arena .gen1), .age 200, .marked false].foldl apply (load m 8) ∧
      ((load m 8).apply (.age 200)).age = 15) := by
  refine ⟨by decide, ?_⟩
  rintro m rfl
  obtain ⟨hload, -, -, hsets, hperm⟩ :=
    stored_and_set (m := .ofBytes ⟨Array.replicate 48 255⟩) (x := 8) (by decide)
  exact ⟨hload _, hperm _ _ _ (by decide) (by decide), (hsets _ (.age 200)).own⟩

end Header

end GenerationalHeap
