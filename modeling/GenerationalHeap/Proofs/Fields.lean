/-
The fields of the objects are an exact memory.

A write into a field is read back, and changes the bytes of the field and no other byte of the
heap. That it is seen by no other field has three reasons: the blocks of different objects are
apart, slots of one object are apart or the same, and plain bytes are kept out of the slots.
All this is about slots whose end is a word. Where it is none, a build that goes on with the rest
takes words of the header for slots.

* `Action.FailsClean` — an operation that fails leaves the state as it was.
* `Heap.InField` — the bytes of a field; `Heap.Stores.payload_of_apart`,
  `Heap.payload_setPayload` — what a write leaves to be read.
* `Collector.SameBut` — all but the bytes of one field is as it was, and is read as before.
* `Collector.Reachable.fields_are_exact` — the calls on fields, and what the calls on fields,
  finalizers and handles do when they fail.
-/
import GenerationalHeap.Proofs.Agreement
import GenerationalHeap.Proofs.Commuting
import GenerationalHeap.Proofs.Effects
import GenerationalHeap.Proofs.Guarantees

namespace GenerationalHeap

/-! ### Calls that fail -/

namespace Action

variable {σ α β : Type}

/-- If the operation fails, the state is as it was. -/
def FailsClean (act : Action σ α) : Prop := ∀ s e s', act s = .error e s' → s' = s

theorem failsClean_of_ok {act : Action σ α} (h : ∀ s, ∃ a s', act s = .ok a s') :
    act.FailsClean := by
  intro s e s' hrun
  obtain ⟨a, s₁, hok⟩ := h s
  rw [hok] at hrun
  exact absurd hrun (by simp)

theorem failsClean_throw (e : Error) : (throw e : Action σ α).FailsClean := by
  rintro s _ s' ⟨⟩
  rfl

theorem FailsClean.get_bind {f : σ → Action σ α} (h : ∀ s, (f s).FailsClean) :
    (get >>= f).FailsClean := fun s => h s s

theorem outcome_bind_of_ok {act : Action σ α} {s s' : σ} {a : α} (h : act s = .ok a s')
    (f : α → Action σ β) : (act >>= f).outcome s = (f a).outcome s' := by
  rw [outcome, bind_of_ok h, outcome]

theorem outcome_bind_of_error {act : Action σ α} {s s' : σ} {e : Error}
    (h : act s = .error e s') (f : α → Action σ β) : (act >>= f).outcome s = .error e :=
  outcome_of_error (bind_of_error h f)

end Action

/-! ### Reading a payload -/

namespace Heap

variable {h h' : Heap} {types : TypeSystem} {a b : Address} {offset length : Nat}

/-- A byte of a field: of the `length` bytes from `offset` on in the payload of `a`. -/
def InField (a : Address) (offset length : Nat) (s : Space) (i : Nat) : Prop :=
  Space.ofAddress? a = some s ∧ s.offset a + headerSize + offset ≤ i ∧
    i < s.offset a + headerSize + offset + length

theorem size_payload (hw : h.WellFormed) (ha : a ∈ h.objects)
    (hle : offset + length ≤ (h.header a).payloadSize) :
    (h.payload a offset length).size = length := by
  obtain ⟨s, hs, hx⟩ := hw.mem_objects_iff.1 ha
  have hfit := hw.fits hx
  rw [sizeAt_offset hs, Header.blockSize_eq] at hfit
  rw [payload, readAt, hs, Memory.size_slice]
  omega

theorem byte_payload (h : Heap) (a : Address) (offset length i : Nat) :
    Page.byte (h.payload a offset length) i =
      if i < length then h.byte a (headerSize + offset + i) else 0 := by
  cases hs : Space.ofAddress? a with
  | none =>
    rw [payload, byte, readAt, readAt, hs, Memory.byte_slice]
    rfl
  | some s =>
    rw [payload, readAt, hs, Memory.byte_slice, byte_eq hs]
    simp only [Nat.add_assoc]

/-- Bytes that are written are read back. -/
theorem payload_setPayload (hw : h.WellFormed) (ha : a ∈ h.objects) {bytes : ByteArray}
    (hle : offset + bytes.size ≤ (h.header a).payloadSize) :
    (h.setPayload a offset bytes).payload a offset bytes.size = bytes := by
  have hst := stores_setPayload hw ha hle
  have hobjects := hst.layout.objects hw
  have hsize := size_payload (hst.layout.wellFormed hw) (hobjects ▸ ha)
    (hst.header a ha ▸ hle)
  refine Page.eq_of_byte hsize fun i => ?_
  rw [byte_payload]
  by_cases hi : i < bytes.size
  · rw [if_pos hi, hst.byte a ha _ (by rw [Header.blockSize_eq]; omega),
      if_pos ⟨rfl, by omega, by omega⟩, Nat.add_sub_cancel_left]
  · rw [if_neg hi, Page.byte_of_size_le (Nat.not_lt.1 hi)]

/-- A write is not seen in a field that is apart from it. -/
theorem Stores.payload_of_apart {k : Nat} {bytes : ByteArray} (hst : Stores a k bytes h h')
    (hw : h.WellFormed) (hb : b ∈ h.objects) (hle : offset + length ≤ (h.header b).payloadSize)
    (hapart : b ≠ a ∨ headerSize + offset + length ≤ k ∨ k + bytes.size ≤ headerSize + offset) :
    h'.payload b offset length = h.payload b offset length := by
  have hobjects := hst.layout.objects hw
  have hsize := size_payload (hst.layout.wellFormed hw) (hobjects ▸ hb)
    (by rw [hst.header b hb]; exact hle)
  refine Page.eq_of_byte (hsize.trans (size_payload hw hb hle).symm) fun i => ?_
  rw [byte_payload, byte_payload]
  by_cases hi : i < length
  · rw [if_pos hi, if_pos hi, hst.byte b hb _ (by rw [Header.blockSize_eq]; omega), if_neg]
    rintro ⟨hba, hlo, hhi⟩
    rcases hapart with hne | hout
    · exact hne hba
    · omega
  · rw [if_neg hi, if_neg hi]

/-- The check of an address goes by the objects there are. -/
theorem check_congr (hw : h.WellFormed) (ht : h.Tagged) (hw' : h'.WellFormed) (ht' : h'.Tagged)
    (hobjects : h'.objects = h.objects) (a : Address) : h'.check a = h.check a := by
  have hobject : h'.isObject a = h.isObject a := by
    rw [Bool.eq_iff_iff, isObject_iff hw ht, isObject_iff hw' ht', hobjects]
  rw [check, check, hobject]

end Heap

namespace Collector

variable {κ : Type} {config : Config} {types : TypeRegistry} {c c' : Collector κ TypeRegistry}
  {a : Address}

/-! ### Calls that begin with checks -/

theorem failsClean_ask {α : Type} (check : Collector κ TypeRegistry → Except Error α) :
    (ask check).FailsClean := by
  intro c e c' hrun
  cases hcheck : check c with
  | error e' =>
    rw [ask_of_error hcheck] at hrun
    cases hrun
    rfl
  | ok x =>
    rw [ask_of_ok hcheck] at hrun
    exact absurd hrun (by simp)

theorem failsClean_ask_bind {α β : Type} {check : Collector κ TypeRegistry → Except Error α}
    {rest : α → Action (Collector κ TypeRegistry) β} (hrest : ∀ x, (rest x).FailsClean) :
    (ask check >>= rest).FailsClean := by
  intro c e c' hrun
  cases hcheck : check c with
  | error e' =>
    rw [Action.bind_of_error (ask_of_error hcheck)] at hrun
    cases hrun
    rfl
  | ok x =>
    rw [Action.bind_of_ok (ask_of_ok hcheck)] at hrun
    exact hrest x c e c' hrun

theorem outcome_ask {α : Type} (check : Collector κ TypeRegistry → Except Error α)
    (c : Collector κ TypeRegistry) : (ask check).outcome c = check c := by
  cases hcheck : check c with
  | error e => exact Action.outcome_of_error (ask_of_error hcheck)
  | ok x => exact Action.outcome_of_ok (ask_of_ok hcheck)

/-- Collectors in which a check comes to the same, and all that follows it. -/
theorem outcome_ask_bind_congr {α β : Type} {check : Collector κ TypeRegistry → Except Error α}
    {rest : α → Action (Collector κ TypeRegistry) β} (hcheck : check c' = check c)
    (hrest : ∀ x, check c = .ok x → (rest x).outcome c' = (rest x).outcome c) :
    (ask check >>= rest).outcome c' = (ask check >>= rest).outcome c := by
  cases hx : check c with
  | error e =>
    rw [Action.outcome_bind_of_error (ask_of_error hx),
      Action.outcome_bind_of_error (ask_of_error (hcheck.trans hx))]
  | ok x =>
    rw [Action.outcome_bind_of_ok (ask_of_ok hx),
      Action.outcome_bind_of_ok (ask_of_ok (hcheck.trans hx))]
    exact hrest x hx

section FailsClean

variable (a : Address) (offset : Nat)

theorem failsClean_writeRef (build : Build) (value : Option Address) :
    (writeRefIn build a offset value : Action (Collector κ TypeRegistry) Unit).FailsClean := by
  refine failsClean_ask_bind fun _ => ?_
  have hstore : (storeRefIn build a offset value :
      Action (Collector κ TypeRegistry) Unit).FailsClean :=
    failsClean_ask_bind fun _ => Action.failsClean_of_ok fun c => ⟨(), _, rfl⟩
  cases value with
  | none => exact hstore
  | some target => exact failsClean_ask_bind fun _ => hstore

theorem failsClean_readRef (build : Build) :
    (readRefIn build a offset : Action (Collector κ TypeRegistry) (Option Address)).FailsClean :=
  failsClean_ask_bind fun _ => failsClean_ask_bind fun _ =>
    Action.failsClean_of_ok fun c => ⟨_, c, rfl⟩

theorem failsClean_writeData (bytes : ByteArray) :
    (writeData a offset bytes : Action (Collector κ TypeRegistry) Unit).FailsClean :=
  failsClean_ask_bind fun _ => failsClean_ask_bind fun _ =>
    Action.failsClean_of_ok fun _ => ⟨(), _, rfl⟩

theorem failsClean_readData (length : Nat) :
    (readData a offset length : Action (Collector κ TypeRegistry) ByteArray).FailsClean :=
  failsClean_ask_bind fun _ => failsClean_ask _

theorem failsClean_registerFinalizer (callback : κ) :
    (registerFinalizer a callback : Action (Collector κ TypeRegistry) Unit).FailsClean := by
  refine failsClean_ask_bind fun _ => Action.FailsClean.get_bind fun c => ?_
  dsimp only
  split
  · exact Action.failsClean_of_ok fun c => ⟨(), _, rfl⟩
  · split
    · exact Action.failsClean_of_ok fun c => ⟨(), _, rfl⟩
    · exact Action.failsClean_throw _

theorem failsClean_suppressFinalization :
    (suppressFinalization a : Action (Collector κ TypeRegistry) Unit).FailsClean := by
  refine failsClean_ask_bind fun _ => Action.FailsClean.get_bind fun c => ?_
  dsimp only
  split <;> split <;> exact Action.failsClean_of_ok fun c => ⟨(), _, rfl⟩

theorem failsClean_onRoots {α : Type} {act : Action (HandleTable Address) α}
    (h : act.FailsClean) : (onRoots act : Action (Collector κ TypeRegistry) α).FailsClean := by
  intro c e c' hrun
  rw [onRoots] at hrun
  cases hact : act c.roots with
  | ok x roots => simp [hact] at hrun
  | error e' roots =>
    obtain rfl := h _ _ _ hact
    simp only [hact] at hrun
    cases hrun
    rfl

theorem failsClean_addRoot :
    (addRoot a : Action (Collector κ TypeRegistry) Nat).FailsClean :=
  failsClean_ask_bind fun _ => failsClean_onRoots
    (Action.failsClean_of_ok fun _ => ⟨_, _, rfl⟩)

theorem failsClean_setRoot (id : Nat) :
    (setRoot id a : Action (Collector κ TypeRegistry) Unit).FailsClean := by
  refine failsClean_ask_bind fun _ => failsClean_onRoots ?_
  intro t e t' hrun
  rw [HandleTable.replace] at hrun
  split at hrun
  · exact absurd hrun (by simp)
  · cases hrun
    rfl

theorem failsClean_createWeak :
    (createWeak a : Action (Collector κ TypeRegistry) Nat).FailsClean :=
  failsClean_ask_bind fun _ => Action.failsClean_of_ok fun _ => ⟨_, _, rfl⟩

end FailsClean

/-! ### What is read after a write -/

theorem Sound.mem_of_check (hc : c.Sound) {s : Space} (hs : c.heap.check a = .ok s) :
    a ∈ c.heap.objects :=
  ((Heap.check_eq_ok_iff hc.heap.wellFormed hc.heap.tagged).1 hs).1

theorem checkSlot_congr {h h' : Heap} {b : Address} (hheader : h'.header b = h.header b)
    (types : TypeSystem) (offset : Nat) :
    checkSlot h' types b offset = checkSlot h types b offset := by
  rw [checkSlot, checkSlot, Heap.typeOf, Heap.typeOf, hheader]

section Stores

variable {b : Address} {k offset length : Nat} {bytes : ByteArray} (hc : c.Sound)
  (hc' : c'.Sound) (hst : Heap.Stores a k bytes c.heap c'.heap)

include hc hc' hst

theorem check_after_stores (b : Address) : c'.heap.check b = c.heap.check b :=
  Heap.check_congr hc.heap.wellFormed hc.heap.tagged hc'.heap.wellFormed hc'.heap.tagged
    (hst.layout.objects hc.heap.wellFormed) b

/-- A slot that holds what it held is read as before. -/
theorem readRef_after_stores (htypes : c'.types = c.types)
    (hword : b ∈ c.heap.objects → offset ∈ c.heap.slots c.types b →
      c'.heap.word b offset = c.heap.word b offset) :
    (readRef b offset).outcome c' = (readRef b offset).outcome c := by
  refine outcome_ask_bind_congr (check_after_stores hc hc' hst b) fun s hs => ?_
  have hb := hc.mem_of_check hs
  refine outcome_ask_bind_congr ?_ fun _ hslot => ?_
  · rw [htypes]
    exact checkSlot_congr (hst.header b hb) _ _
  · have ho := mem_slots_of_checkSlot hslot
    have hsame :
        c'.heap.blockWord b (slotPlace offset) = c.heap.blockWord b (slotPlace offset) := by
      rw [slotPlace_of_mem ho, Heap.blockWord_payload, Heap.blockWord_payload, hword hb ho]
    show Except.ok (if c'.heap.blockWord b (slotPlace offset) = 0 then none
        else some (c'.heap.blockWord b (slotPlace offset))) =
      .ok (if c.heap.blockWord b (slotPlace offset) = 0 then none
        else some (c.heap.blockWord b (slotPlace offset)))
    rw [hsame]

/-- Bytes apart from a write are read as before. -/
theorem readData_after_stores
    (hapart : b ≠ a ∨ headerSize + offset + length ≤ k ∨ k + bytes.size ≤ headerSize + offset) :
    (readData b offset length).outcome c' = (readData b offset length).outcome c := by
  refine outcome_ask_bind_congr (check_after_stores hc hc' hst b) fun s hs => ?_
  have hb := hc.mem_of_check hs
  rw [outcome_ask, outcome_ask, hst.header b hb]
  dsimp only
  split
  · rfl
  · rename_i hle
    rw [hst.payload_of_apart hc.heap.wellFormed hb (Nat.not_lt.1 hle) hapart]

end Stores

/-! ### Writes that succeed -/

/-- The check that a call begins with has succeeded. -/
theorem of_ask_bind_ok {α β : Type} {check : Collector κ TypeRegistry → Except Error α}
    {rest : α → Action (Collector κ TypeRegistry) β} {y : β}
    (hrun : (ask check >>= rest) c = .ok y c') :
    ∃ x, check c = .ok x ∧ rest x c = .ok y c' := by
  cases hx : check c with
  | error e =>
    rw [Action.bind_of_error (ask_of_error hx)] at hrun
    exact absurd hrun (by simp)
  | ok x => exact ⟨x, rfl, (Action.bind_of_ok (ask_of_ok hx) rest).symm.trans hrun⟩

/-- A reference that is stored goes into a slot, and is null or an object. -/
theorem Sound.writeRef_of_ok (hc : c.Sound) {offset : Nat} {value : Option Address}
    (hrun : Collector.writeRef a offset value c = .ok () c') :
    a ∈ c.heap.objects ∧ checkSlot c.heap c.types a offset = .ok () ∧
      (∀ t, value = some t → t ∈ c.heap.objects) ∧
      c' = { c with
        heap := c.heap.setWord a offset (value.getD 0), barrier := c.barrier.store a value } := by
  obtain ⟨s, hs, hrun⟩ := of_ask_bind_ok hrun
  -- what is left to do once the new value is checked
  have hrest : ∀ hrun : storeRefIn .checked a offset value c = .ok () c',
      checkSlot c.heap c.types a offset = .ok () ∧
      c' = { c with
        heap := c.heap.setWord a offset (value.getD 0), barrier := c.barrier.store a value } := by
    intro hrun
    obtain ⟨_, hslot, -⟩ := of_ask_bind_ok hrun
    obtain ⟨-, rfl⟩ := EStateM.Result.ok.inj ((storeRef_of_ok hslot).symm.trans hrun)
    exact ⟨hslot, rfl⟩
  cases value with
  | none =>
    obtain ⟨hslot, hc'⟩ := hrest hrun
    exact ⟨hc.mem_of_check hs, hslot, fun t ht => absurd ht (by simp), hc'⟩
  | some target =>
    obtain ⟨_, htarget, hrun⟩ := of_ask_bind_ok hrun
    obtain ⟨hslot, hc'⟩ := hrest hrun
    refine ⟨hc.mem_of_check hs, hslot, fun t ht => ?_, hc'⟩
    exact Option.some.inj ht ▸ hc.mem_of_check htarget

/-- Bytes that are stored stay within the payload and out of the slots. -/
theorem Sound.writeData_of_ok (hc : c.Sound) {offset : Nat} {bytes : ByteArray}
    (hrun : Collector.writeData a offset bytes c = .ok () c') :
    a ∈ c.heap.objects ∧ checkData c.heap c.types a offset bytes.size = .ok () ∧
      c' = { c with heap := c.heap.setPayload a offset bytes } := by
  obtain ⟨s, hs, hrun⟩ := of_ask_bind_ok hrun
  obtain ⟨_, hdata, hrun⟩ := of_ask_bind_ok hrun
  cases hrun
  exact ⟨hc.mem_of_check hs, hdata, rfl⟩

/-- In a checked build, a store in a slot whose end is no word panics, before anything is
changed. -/
theorem Sound.writeRef_of_cut (hc : c.Sound) (ha : a ∈ c.heap.objects) {offset : Nat}
    (haligned : offset % slotSize = 0) (hcut : UInt64.size ≤ offset + slotSize)
    (value : Option Address) (hvalue : ∀ t, value = some t → t ∈ c.heap.objects) :
    Collector.writeRef a offset value c = .error .panicked c := by
  have hslot : checkSlot c.heap c.types a offset = .error .panicked :=
    checkSlot_of_cut (hc.heap.typed a ha) haligned hcut
  have hstore : storeRefIn .checked a offset value c = .error .panicked c :=
    Action.bind_of_error (ask_of_error hslot) _
  obtain ⟨s, hs⟩ := hc.checkObject_eq ha
  refine (Action.bind_of_ok hs _).trans ?_
  cases value with
  | none => exact hstore
  | some t =>
    obtain ⟨s', ht⟩ := hc.checkObject_eq (hvalue t rfl)
    exact (Action.bind_of_ok ht _).trans hstore

/-! ### Exactness -/

/-- All but the bytes of one field is as it was, and is read as before. -/
structure SameBut (a : Address) (offset length : Nat) (c c' : Collector κ TypeRegistry) :
    Prop where
  bytes : c.heap.AgreesBut (Heap.InField a offset length) c'.heap
  data : ∀ b j n, b ≠ a ∨ j + n ≤ offset ∨ offset + length ≤ j →
    (readData b j n).outcome c' = (readData b j n).outcome c

theorem Sound.sameBut (hc : c.Sound) (hc' : c'.Sound) {offset : Nat} {bytes : ByteArray}
    (ha : a ∈ c.heap.objects) (hle : offset + bytes.size ≤ (c.heap.header a).payloadSize)
    (hheap : c'.heap = c.heap.patch a (headerSize + offset) bytes) :
    SameBut a offset bytes.size c c' where
  bytes := by
    obtain ⟨s, hs, hx⟩ := hc.heap.wellFormed.mem_objects_iff.1 ha
    have hfit := hc.heap.wellFormed.fits hx
    rw [Heap.sizeAt_offset hs, Header.blockSize_eq] at hfit
    rw [hheap]
    refine (Heap.agrees_patch hs (by omega)).mono ?_
    rintro t i ⟨rfl, hlo, hhi⟩
    exact ⟨hs, by omega, by omega⟩
  data b j n hapart := by
    have hst : Heap.Stores a (headerSize + offset) bytes c.heap c'.heap := by
      rw [hheap]
      refine Heap.stores_patch hc.heap.wellFormed ha (Nat.le_add_right _ _) ?_
      rw [Header.blockSize_eq]
      omega
    refine readData_after_stores hc hc' hst ?_
    rcases hapart with hne | hlt | hgt
    · exact Or.inl hne
    · exact Or.inr (Or.inl (by omega))
    · exact Or.inr (Or.inr (by omega))

/-- A reference that is stored is read back, and no other slot is read otherwise. -/
theorem Sound.writeRef_exact (hc : c.Sound) {offset : Nat} {value : Option Address}
    (hrun : Collector.writeRef a offset value c = .ok () c') :
    (readRef a offset).outcome c' = .ok value ∧
      (∀ b j, b ≠ a ∨ j ≠ offset → (readRef b j).outcome c' = (readRef b j).outcome c) ∧
      SameBut a offset slotSize c c' ∧
      c' = { c with heap := c'.heap, barrier := c.barrier.store a value } := by
  have hc' : c'.Sound := Action.final_of_ok hrun ▸ hc.writeRef a offset value
  obtain ⟨ha, hslot, hvalue, rfl⟩ := hc.writeRef_of_ok hrun
  have hw := hc.heap.wellFormed
  have hmem := mem_slots_of_checkSlot hslot
  have hst := Heap.stores_setWord hw ha (Heap.slot_fits hmem) (value.getD 0)
  refine ⟨?_, ?_, ?_, rfl⟩
  · obtain ⟨s, hs⟩ := hc'.checkObject_eq (hst.layout.objects hw ▸ ha)
    have hslot' : checkSlot (c.heap.setWord a offset (value.getD 0)) c.types a offset = .ok () :=
      (checkSlot_congr (hst.header a ha) _ _).trans hslot
    have hrun : (readRef a offset).outcome _ = _ := (Action.outcome_bind_of_ok hs _).trans
      (Action.outcome_bind_of_ok (ask_of_ok hslot') _)
    rw [hrun]
    show Except.ok (if (c.heap.setWord a offset (value.getD 0)).blockWord a (slotPlace offset) = 0
      then none
      else some ((c.heap.setWord a offset (value.getD 0)).blockWord a (slotPlace offset))) =
        .ok value
    rw [slotPlace_of_mem hmem, Heap.blockWord_payload,
      Heap.word_setWord hw ha (Heap.slot_fits hmem)]
    -- a null reference is stored as zero, and no object has that address
    cases value with
    | none => rfl
    | some t =>
      rw [Option.getD_some, if_neg (hw.ne_zero (hvalue t rfl))]
  · intro b j hother
    refine readRef_after_stores hc hc' hst rfl fun hb hj => ?_
    rw [Heap.word_setWord_slot hw ha hmem hb hj, if_neg]
    rintro ⟨hba, hjo⟩
    exact hother.elim (· hba) (· hjo)
  · have hsize := Heap.size_wordBytes (value.getD 0)
    have hpatch : c.heap.setWord a offset (value.getD 0) =
        c.heap.patch a (headerSize + offset) (Heap.wordBytes (value.getD 0)) :=
      Heap.setWord_eq_patch _ _ _ _
    have hsame := hc.sameBut hc' ha (by rw [hsize]; exact Heap.slot_fits hmem) hpatch
    rwa [hsize] at hsame

/-- Bytes that are stored are read back, and no slot is read otherwise. -/
theorem Sound.writeData_exact (hc : c.Sound) {offset : Nat} {bytes : ByteArray}
    (hrun : Collector.writeData a offset bytes c = .ok () c') :
    (readData a offset bytes.size).outcome c' = .ok bytes ∧
      (∀ b j, (readRef b j).outcome c' = (readRef b j).outcome c) ∧
      SameBut a offset bytes.size c c' ∧ c' = { c with heap := c'.heap } := by
  have hc' : c'.Sound := Action.final_of_ok hrun ▸ hc.writeData a offset bytes
  obtain ⟨ha, hdata, rfl⟩ := hc.writeData_of_ok hrun
  obtain ⟨hle, hout⟩ := apart_of_checkData hdata
  have hw := hc.heap.wellFormed
  have hst := Heap.stores_setPayload hw ha hle
  refine ⟨?_, ?_, hc.sameBut hc' ha hle (Heap.setPayload_eq_patch _ _ _ _), rfl⟩
  · obtain ⟨s, hs⟩ := hc'.checkObject_eq (hst.layout.objects hw ▸ ha)
    rw [readData, Action.outcome_bind_of_ok hs, outcome_ask]
    dsimp only
    rw [hst.header a ha, if_neg (Nat.not_lt.2 hle), Heap.payload_setPayload hw ha hle]
  · intro b j
    refine readRef_after_stores hc hc' hst rfl fun hb hj => ?_
    refine hst.word_of_apart hb (Heap.slot_fits hj) ?_
    by_cases hba : b = a
    · subst hba
      have hslot := hout j hj
      unfold slotSize at hslot
      exact Or.inr (by omega)
    · exact Or.inl hba

/-- The fields of all objects are an exact memory, in every build that does not cut off the end
of a slot. A reference or bytes that are stored are read back. A write changes the bytes of its
field and nothing else, but for the barrier, which notes a reference that is stored. All other
slots are read as before, and all bytes of other objects or in other places. A call on fields,
finalizers or handles that fails has changed nothing. -/
theorem Reachable.fields_are_exact (h : Reachable config types c) (a : Address) (offset : Nat) :
    (∀ build value c', build.Exact (offset + slotSize) →
      writeRefIn build a offset value c = .ok () c' →
      (readRefIn build a offset).outcome c' = .ok value ∧
      (∀ b j, build.Exact (j + slotSize) → b ≠ a ∨ j ≠ offset →
        (readRefIn build b j).outcome c' = (readRefIn build b j).outcome c) ∧
      SameBut a offset slotSize c c' ∧
      c' = { c with heap := c'.heap, barrier := c.barrier.store a value }) ∧
    (∀ bytes c', writeData a offset bytes c = .ok () c' →
      (readData a offset bytes.size).outcome c' = .ok bytes ∧
      (∀ build b j, Build.Exact build (j + slotSize) →
        (readRefIn build b j).outcome c' = (readRefIn build b j).outcome c) ∧
      SameBut a offset bytes.size c c' ∧ c' = { c with heap := c'.heap }) ∧
    (∀ build value e c', writeRefIn build a offset value c = .error e c' → c' = c) ∧
    (∀ build e c', readRefIn build a offset c = .error e c' → c' = c) ∧
    (∀ bytes e c', writeData a offset bytes c = .error e c' → c' = c) ∧
    (∀ length e c', readData a offset length c = .error e c' → c' = c) ∧
    (∀ callback e c', registerFinalizer a callback c = .error e c' → c' = c) ∧
    (∀ e c', suppressFinalization a c = .error e c' → c' = c) ∧
    (∀ e c', createWeak a c = .error e c' → c' = c) ∧
    (∀ e c', addRoot a c = .error e c' → c' = c) ∧
    ∀ id e c', setRoot id a c = .error e c' → c' = c := by
  have hc := h.sound
  refine ⟨?_, ?_, fun build value => failsClean_writeRef a offset build value c,
    fun build => failsClean_readRef a offset build c,
    fun bytes => failsClean_writeData a offset bytes c,
    fun length => failsClean_readData a offset length c,
    fun callback => failsClean_registerFinalizer a callback c,
    failsClean_suppressFinalization a c, failsClean_createWeak a c, failsClean_addRoot a c,
    fun id => failsClean_setRoot a id c⟩
  · intro build value c' hexact hrun
    rw [writeRefIn_of_exact hexact] at hrun
    obtain ⟨hread, hother, hsame, hc'⟩ := hc.writeRef_exact hrun
    refine ⟨?_, ?_, hsame, hc'⟩
    · rw [readRefIn_of_exact hexact]
      exact hread
    · intro b j hj hne
      rw [readRefIn_of_exact hj]
      exact hother b j hne
  · intro bytes c' hrun
    obtain ⟨hread, hother, hsame, hc'⟩ := hc.writeData_exact hrun
    refine ⟨hread, ?_, hsame, hc'⟩
    intro build b j hj
    rw [readRefIn_of_exact hj]
    exact hother b j

/-- The address of the second object in the nursery. -/
def mixed : Address := (Space.arena .gen0).address 48

/-- A type with one reference slot. -/
def node : TypeInfo where
  name := "node"
  layout := .fields [0]
  valid := ⟨List.pairwise_singleton _ _, fun o ho => by rw [List.mem_singleton.1 ho]; rfl⟩

/-- The objects of `pair`, and one with a reference slot before eight plain bytes. -/
def triple : Collector Unit TypeRegistry :=
  [.registerType node, .allocate ⟨1⟩ 16 false].foldl (fun c k => after k c) pair

theorem reachable_triple : Reachable {} ⟨#[.array "row"]⟩ triple := reachable_pair.calls _

/-- The calls on the object of mixed layout of `triple`. -/
theorem fields_of_mixed :
    (∃ c', writeRef mixed 0 (some old) triple = .ok () c' ∧
      (readRef mixed 0).outcome c' = .ok (some old)) ∧
    (∃ c', writeData mixed 8 ⟨#[1, 2, 3]⟩ triple = .ok () c' ∧
      (readData mixed 8 3).outcome c' = .ok ⟨#[1, 2, 3]⟩) ∧
    ∃ e, writeData mixed 0 ⟨#[1, 2, 3]⟩ triple = .error e triple := by
  obtain ⟨href, -, -, -, hclean, -⟩ := reachable_triple.fields_are_exact mixed 0
  obtain ⟨-, hdata, -⟩ := reachable_triple.fields_are_exact mixed 8
  have hwriteRef : ((writeRef mixed 0 (some old)).outcome triple).isOk = true := by decide +kernel
  have hwriteData : ((writeData mixed 8 ⟨#[1, 2, 3]⟩).outcome triple).isOk = true := by
    decide +kernel
  have hover : ((writeData mixed 0 ⟨#[1, 2, 3]⟩).outcome triple).isOk = false := by decide +kernel
  obtain ⟨_, c₁, hrun₁⟩ := Action.exists_ok_of_isOk hwriteRef
  obtain ⟨_, c₂, hrun₂⟩ := Action.exists_ok_of_isOk hwriteData
  obtain ⟨e, c₃, hrun₃⟩ := Action.exists_error_of_isOk hover
  obtain rfl := hclean _ e c₃ hrun₃
  exact ⟨⟨c₁, hrun₁, (href .checked _ c₁ (.inl rfl) hrun₁).1⟩,
    ⟨c₂, hrun₂, (hdata _ c₂ hrun₂).1⟩, e, hrun₃⟩

/-- At the last offset of all the end of a slot is cut off. A wrapping build takes the word
before the payload for a slot of the young object of `pair`, an array, and stores a reference in
its header; a checked build panics. -/
theorem header_taken_for_slot :
    (∃ u, writeRefIn .wrapping young lastOffset (some old) pair = .ok u overwritten) ∧
    (pair.heap.header young).forwarding = 0 ∧ (overwritten.heap.header young).forwarding = old ∧
    ¬SameBut young lastOffset slotSize pair overwritten ∧
    writeRef young lastOffset (some old) pair = .error .panicked pair := by
  obtain ⟨-, hforwarding, -, -, hbyte⟩ := overwritten_spec
  refine ⟨writeRef_overwritten, reachable_pair.sound.heap.clean.forwarding young young_mem_pair,
    hforwarding, ?_, ?_⟩
  · -- a byte of the header is in no field
    intro hsame
    have hout : ¬Heap.InField young lastOffset slotSize (.arena .gen0) 28 :=
      fun hin => absurd hin.2.1 (by decide)
    exact hbyte (hsame.bytes.byte (.arena .gen0) 28 hout)
  · have haligned : lastOffset % slotSize = 0 := by decide
    have hcut : UInt64.size ≤ lastOffset + slotSize := by decide
    exact reachable_pair.sound.writeRef_of_cut young_mem_pair haligned hcut (some old)
      fun t ht => Option.some.inj ht ▸ old_mem_pair

end Collector

end GenerationalHeap
