/-
The calls of a mutator.

* `Heap.Sound.setWord`, `Heap.Sound.setPayload` — what the field writes do to a heap.
* `Collector.Sound.writeRef` — a reference is stored, and its holder remembered if need be.
* `Collector.Sound.writeData` — plain bytes are stored, and no reference changes.
* `Collector.writeRefIn_of_exact`, `Collector.readRefIn_of_exact` — on a slot whose end is a word,
  or that a build panics at, all builds agree with a checked one.
* `Collector.Sound.registerFinalizer` and the like — the calls on finalizers and handles
  keep a collector sound, whether they fail or not.
-/
import GenerationalHeap.Proofs.Requests

namespace GenerationalHeap

/-! ### Checks -/

namespace Heap

variable (h : Heap) (a : Address) (offset : Nat)

theorem blockWord_payload : h.blockWord a (headerSize + offset) = h.word a offset := by
  simp only [blockWord, word, Nat.add_assoc]

theorem setBlockWord_payload (w : UInt64) :
    h.setBlockWord a (headerSize + offset) w = h.setWord a offset w := by
  simp only [setBlockWord, setWord, Nat.add_assoc]

end Heap

namespace Collector

variable {h : Heap} {types : TypeSystem} {a : Address} {offset length : Nat}

/-- A field access that passes its check is to a slot that tracing reads. -/
theorem mem_slots_of_checkSlot (hslot : checkSlot h types a offset = .ok ()) :
    offset ∈ h.slots types a := by
  cases hinfo : types (h.header a).typeId with
  | none => simp [checkSlot, Heap.typeOf, hinfo, bind, Except.bind] at hslot
  | some info =>
    simp only [checkSlot, Heap.typeOf, hinfo, bind, Except.bind] at hslot
    cases hcheck : info.isReferenceSlot (h.header a).payloadSize offset with
    | error e => simp [hcheck] at hslot
    | ok found =>
      cases found with
      | false => simp [hcheck, throw, throwThe, MonadExceptOf.throw] at hslot
      | true =>
        rw [Heap.slots, hinfo]
        exact (TypeInfo.isReferenceSlot_iff (h.header a).size.toNat_lt).1 hcheck

/-- The check is the same in every build that does not cut off the end of the slot. -/
theorem checkSlot_of_exact {build : Build} (hexact : build.Exact (offset + slotSize)) :
    checkSlot h types a offset build = checkSlot h types a offset := by
  cases hinfo : types (h.header a).typeId with
  | none => simp only [checkSlot, Heap.typeOf, hinfo, bind, Except.bind]
  | some info =>
    have hsmall : (h.header a).payloadSize < UInt32.size := (h.header a).size.toNat_lt
    simp only [checkSlot, Heap.typeOf, hinfo, TypeInfo.isReferenceSlot_of_exact hsmall hexact]

/-- A checked build panics at a slot whose end is no word. -/
theorem checkSlot_of_cut (htyped : (types (h.header a).typeId).isSome = true)
    (haligned : offset % slotSize = 0) (hcut : UInt64.size ≤ offset + slotSize) :
    checkSlot h types a offset = .error .panicked := by
  obtain ⟨info, hinfo⟩ := Option.isSome_iff_exists.1 htyped
  simp only [checkSlot, Heap.typeOf, hinfo, TypeInfo.isReferenceSlot_of_le haligned hcut, bind,
    Except.bind]

/-- A slot of an object is where it is, in words too. -/
theorem slotPlace_of_mem (ho : offset ∈ h.slots types a) :
    slotPlace offset = headerSize + offset := by
  have hfits := Heap.slot_fits ho
  have hsmall : (h.header a).payloadSize < UInt32.size := (h.header a).size.toNat_lt
  refine Nat.mod_eq_of_lt ?_
  unfold UInt32.size at hsmall
  unfold UInt64.size headerSize
  omega

/-- The end of a range within a payload is a word. -/
theorem overlapsReference_of_le {info : TypeInfo}
    (hle : offset + length ≤ (h.header a).payloadSize) :
    info.overlapsReference (h.header a).payloadSize offset length =
      .ok (info.crossesReference (h.header a).payloadSize offset (offset + length)) := by
  have hsmall : (h.header a).payloadSize < UInt32.size := (h.header a).size.toNat_lt
  have hend : offset + length < UInt64.size := by
    unfold UInt32.size at hsmall
    unfold UInt64.size
    omega
  rw [TypeInfo.overlapsReference, Build.add_of_lt hend]
  rfl

/-- Plain bytes that pass their check stay within the payload and out of the slots. -/
theorem apart_of_checkData (hdata : checkData h types a offset length = .ok ()) :
    offset + length ≤ (h.header a).payloadSize ∧
      ∀ slot ∈ h.slots types a, slot + slotSize ≤ offset ∨ offset + length ≤ slot := by
  rw [checkData] at hdata
  by_cases hpast : offset + length > (h.header a).payloadSize
  · simp [hpast, throw, throwThe, MonadExceptOf.throw, bind, Except.bind] at hdata
  · refine ⟨Nat.not_lt.1 hpast, ?_⟩
    intro slot hslot
    cases hinfo : types (h.header a).typeId with
    | none => simp [Heap.slots, hinfo] at hslot
    | some info =>
      by_contra hno
      have hover : info.crossesReference (h.header a).payloadSize offset (offset + length) =
          true := by
        rw [Heap.slots, hinfo] at hslot
        refine List.any_eq_true.2 ⟨slot, hslot, ?_⟩
        rw [decide_eq_true_eq]
        omega
      simp [hpast, Heap.typeOf, hinfo, overlapsReference_of_le (Nat.not_lt.1 hpast), hover, throw,
        throwThe, MonadExceptOf.throw, bind, Except.bind] at hdata

end Collector

/-! ### Headers -/

namespace Header

theorem Alike.trans {x y z : Header} (h : x.Alike y) (h' : y.Alike z) : x.Alike z :=
  ⟨h'.typeId.trans h.typeId, h'.size.trans h.size, h'.space.trans h.space,
    h'.isMarked.trans h.isMarked, h'.isForwarded.trans h.isForwarded,
    h'.forwarding.trans h.forwarding⟩

theorem alike_setHasFinalizer (x : Header) (on : Bool) : x.Alike (x.setHasFinalizer on) :=
  ⟨rfl, rfl, space_setFlag x (by decide) on, flag_setFlag_of_apart x (by decide) on,
    flag_setFlag_of_apart x (by decide) on, rfl⟩

theorem alike_setFinalized (x : Header) (on : Bool) : x.Alike (x.setFinalized on) :=
  ⟨rfl, rfl, space_setFlag x (by decide) on, flag_setFlag_of_apart x (by decide) on,
    flag_setFlag_of_apart x (by decide) on, rfl⟩

theorem alike_slot (x : Header) (slot : UInt64) : x.Alike { x with slot } :=
  ⟨rfl, rfl, rfl, rfl, rfl, rfl⟩

end Header

/-! ### Writing into a heap -/

namespace Heap

variable {h : Heap} {types : TypeSystem} {a b : Address}

/-- A word that is put into a slot is found there, and every other slot is as it was. -/
theorem word_setWord_slot (hw : h.WellFormed) (ha : a ∈ h.objects) {o p : Nat}
    (ho : o ∈ h.slots types a) (hb : b ∈ h.objects) (hp : p ∈ h.slots types b) (w : UInt64) :
    (h.setWord a o w).word b p = if b = a ∧ p = o then w else h.word b p := by
  by_cases hsame : b = a ∧ p = o
  · rw [if_pos hsame, hsame.1, hsame.2]
    exact word_setWord hw ha (slot_fits ho) w
  · rw [if_neg hsame]
    refine (stores_setWord hw ha (slot_fits ho) w).word_of_apart hb (slot_fits hp) ?_
    by_cases hba : b = a
    · subst hba
      rw [size_wordBytes]
      rcases slots_apart ho hp with heq | hlt | hgt
      · exact absurd ⟨rfl, heq.symm⟩ hsame
      · exact Or.inr (Or.inr (by omega))
      · exact Or.inr (Or.inl (by omega))
    · exact Or.inl hba

/-- A reference to an object, or null, is put into a slot. -/
theorem Sound.setWord (hs : h.Sound types) (ha : a ∈ h.objects) {o : Nat}
    (ho : o ∈ h.slots types a) {w : UInt64} (hv : w = 0 ∨ w ∈ h.objects) :
    (h.setWord a o w).Sound types ∧ (h.setWord a o w).objects = h.objects ∧
      ∀ b ∈ h.objects, (h.setWord a o w).HoldsYounger types b →
        h.HoldsYounger types b ∨ b = a ∧ w ≠ 0 ∧ pointsDown a w = true := by
  have hw := hs.wellFormed
  have hst := stores_setWord hw ha (slot_fits ho) w
  refine ⟨hs.of_sameLayout hst.layout ?_ ?_, hst.layout.objects hw, ?_⟩
  · intro b hb
    rw [hst.header b hb]
    exact .refl _
  · intro b hb p hp
    rw [word_setWord_slot hw ha ho hb hp]
    split
    · exact hv
    · exact hs.noDangling.slot hb hp
  · intro b hb hy
    obtain ⟨x, ⟨hx, p, hp, rfl⟩, hdown⟩ := hy
    rw [hst.slots hb] at hp
    rw [word_setWord_slot hw ha ho hb hp] at hx hdown
    split at hx
    · rename_i hsame
      rw [if_pos hsame] at hdown
      exact Or.inr ⟨hsame.1, hx, hsame.1 ▸ hdown⟩
    · rename_i hother
      rw [if_neg hother] at hdown
      exact Or.inl ⟨_, ⟨hx, p, hp, rfl⟩, hdown⟩

/-- Bytes are put into a payload, out of the slots. -/
theorem Sound.setPayload (hs : h.Sound types) (ha : a ∈ h.objects) {o : Nat} {bytes : ByteArray}
    (ho : o + bytes.size ≤ (h.header a).payloadSize)
    (hapart : ∀ slot ∈ h.slots types a, slot + slotSize ≤ o ∨ o + bytes.size ≤ slot) :
    (h.setPayload a o bytes).Sound types ∧ (h.setPayload a o bytes).objects = h.objects ∧
      ∀ b ∈ h.objects, ∀ x, (h.setPayload a o bytes).PointsTo types b x ↔
        h.PointsTo types b x := by
  have hw := hs.wellFormed
  have hst := stores_setPayload hw ha ho
  -- no slot meets the bytes that are written
  have hword : ∀ b ∈ h.objects, ∀ p ∈ h.slots types b,
      (h.setPayload a o bytes).word b p = h.word b p := by
    intro b hb p hp
    refine hst.word_of_apart hb (slot_fits hp) ?_
    by_cases hba : b = a
    · subst hba
      have hout := hapart p hp
      unfold slotSize at hout
      exact Or.inr (by omega)
    · exact Or.inl hba
  refine ⟨hs.of_sameLayout hst.layout ?_ ?_, hst.layout.objects hw, ?_⟩
  · intro b hb
    rw [hst.header b hb]
    exact .refl _
  · intro b hb p hp
    rw [hword b hb p hp]
    exact hs.noDangling.slot hb hp
  · intro b hb x
    have hheader := hst.header b hb
    exact pointsTo_of_words (congrArg Header.typeId hheader) (congrArg Header.size hheader)
      (hword b hb)

end Heap

/-! ### The barrier -/

namespace Barrier

variable {b : Barrier} {a x : Address}

theorem mem_store (b : Barrier) (a x : Address) (value : Option Address) :
    x ∈ (b.store a value).remembered.holders ↔
      x ∈ b.remembered.holders ∨ x = a ∧ ∃ t, value = some t ∧ pointsDown a t = true := by
  cases value with
  | none => simp [store]
  | some t =>
    rw [store]
    by_cases hdown : pointsDown a t = true
    · simp only [if_pos hdown, Remembered.mem_insert]
      simp [hdown]
    · simp [hdown]

theorem nodup_store (hn : b.remembered.holders.toList.Nodup) (value : Option Address) :
    (b.store a value).remembered.holders.toList.Nodup := by
  cases value with
  | none => exact hn
  | some t =>
    rw [store]
    by_cases hdown : pointsDown a t = true
    · simp only [if_pos hdown]
      exact Remembered.nodup_insert hn a
    · simp only [if_neg hdown]
      exact hn

end Barrier

/-! ### Fields -/

namespace Collector

variable {κ : Type} {c c' : Collector κ TypeRegistry} {a : Address}

/-- A call that begins with a check. -/
theorem final_ask_bind {P : Collector κ TypeRegistry → Prop} {α β : Type}
    {check : Collector κ TypeRegistry → Except Error α}
    {rest : α → Action (Collector κ TypeRegistry) β} (hc : P c)
    (hrest : ∀ x, check c = .ok x → P ((rest x).final c)) : P ((ask check >>= rest).final c) := by
  cases hcheck : check c with
  | error e =>
    rw [Action.final_of_error (Action.bind_of_error (ask_of_error hcheck) rest)]
    exact hc
  | ok x =>
    rw [Action.final, Action.bind_of_ok (ask_of_ok hcheck)]
    exact hrest x hcheck

/-- A call that begins with the check of an address. -/
theorem Sound.checkObject_bind {β : Type} {rest : Space → Action (Collector κ TypeRegistry) β}
    (hc : c.Sound) (hrest : ∀ s, a ∈ c.heap.objects → ((rest s).final c).Sound) :
    ((checkObject a >>= rest).final c).Sound :=
  final_ask_bind hc fun s hs =>
    hrest s ((Heap.check_eq_ok_iff hc.heap.wellFormed hc.heap.tagged).1 hs).1

theorem writeRefIn_of_exact {build : Build} {offset : Nat}
    (hexact : build.Exact (offset + slotSize)) (a : Address) (value : Option Address) :
    (writeRefIn build a offset value : Action (Collector κ TypeRegistry) Unit) =
      writeRef a offset value := by
  simp only [writeRefIn, storeRefIn, checkSlot_of_exact hexact]

theorem readRefIn_of_exact {build : Build} {offset : Nat}
    (hexact : build.Exact (offset + slotSize)) (a : Address) :
    (readRefIn build a offset : Action (Collector κ TypeRegistry) (Option Address)) =
      readRef a offset := by
  simp only [readRefIn, checkSlot_of_exact hexact]

/-- A reference that is checked is stored, unless there is no slot for it. -/
theorem storeRef_of_ok {offset : Nat} {value : Option Address}
    (hslot : checkSlot c.heap c.types a offset = .ok ()) :
    storeRefIn .checked a offset value c = .ok () { c with
      heap := c.heap.setWord a offset (value.getD 0), barrier := c.barrier.store a value } := by
  rw [storeRefIn, Action.bind_of_ok (ask_of_ok hslot),
    slotPlace_of_mem (mem_slots_of_checkSlot hslot), ← Heap.setBlockWord_payload]
  rfl

theorem final_storeRef {P : Collector κ TypeRegistry → Prop} {offset : Nat}
    {value : Option Address} (hc : P c)
    (hstore : offset ∈ c.heap.slots c.types a → P { c with
      heap := c.heap.setWord a offset (value.getD 0), barrier := c.barrier.store a value }) :
    P ((storeRefIn .checked a offset value).final c) := by
  cases hslot : checkSlot c.heap c.types a offset with
  | error e =>
    rw [storeRefIn, Action.final_of_error (Action.bind_of_error (ask_of_error hslot) _)]
    exact hc
  | ok u =>
    rw [Action.final_of_ok (storeRef_of_ok hslot)]
    exact hstore (mem_slots_of_checkSlot hslot)

/-- A call that stores a reference checks both objects first. -/
theorem Sound.final_writeRef {P : Collector κ TypeRegistry → Prop} (hc : c.Sound) (hP : P c)
    {offset : Nat} {value : Option Address}
    (hstore : a ∈ c.heap.objects → (∀ t, value = some t → t ∈ c.heap.objects) →
      offset ∈ c.heap.slots c.types a → P { c with
        heap := c.heap.setWord a offset (value.getD 0), barrier := c.barrier.store a value }) :
    P ((Collector.writeRef a offset value).final c) := by
  have hmem : ∀ {b s}, c.heap.check b = .ok s → b ∈ c.heap.objects := fun hs =>
    ((Heap.check_eq_ok_iff hc.heap.wellFormed hc.heap.tagged).1 hs).1
  -- both ways of writing come to the same store, with the new value checked or without it
  refine final_ask_bind hP fun s hs => ?_
  cases value with
  | none => exact final_storeRef hP (hstore (hmem hs) fun t ht => absurd ht (by simp))
  | some t =>
    refine final_ask_bind hP fun s ht => ?_
    exact final_storeRef hP (hstore (hmem hs) fun t' ht' => Option.some.inj ht' ▸ hmem ht)

/-- A reference is stored, and its holder remembered if need be. -/
theorem Sound.writeRef (hc : c.Sound) (a : Address) (offset : Nat) (value : Option Address) :
    ((Collector.writeRef a offset value).final c).Sound := by
  refine hc.final_writeRef hc ?_
  intro ha hvalue hslot
  have hv : value.getD 0 = 0 ∨ value.getD 0 ∈ c.heap.objects := by
    cases value with
    | none => exact Or.inl rfl
    | some t => exact Or.inr (hvalue t rfl)
  obtain ⟨hheap, hobjects, hyoung⟩ := hc.heap.setWord ha hslot hv
  refine
    { heap := hheap
      roots := fun b hb => hobjects.symm ▸ hc.roots b hb
      queue := fun b hb => hobjects.symm ▸ hc.queue b hb
      weak := fun b hb => hobjects.symm ▸ hc.weak b hb
      remembered := fun b hb => ?_
      nodup := Barrier.nodup_store hc.nodup value
      complete := fun b hb hy => ?_ }
  · show b ∈ (c.heap.setWord a offset (value.getD 0)).objects
    rw [hobjects]
    rcases (Barrier.mem_store _ _ _ _).1 hb with hb | ⟨rfl, -⟩
    · exact hc.remembered b hb
    · exact ha
  · -- a reference to a younger object is an old one or the one just stored
    rw [Barrier.mem_store]
    have hb' : b ∈ c.heap.objects := hobjects ▸ hb
    rcases hyoung b hb' hy with hold | ⟨rfl, hne, hdown⟩
    · exact Or.inl (hc.complete b hb' hold)
    · cases value with
      | none => exact absurd rfl hne
      | some t => exact Or.inr ⟨rfl, t, rfl, hdown⟩

/-- Plain bytes are stored, and no reference changes. -/
theorem Sound.writeData (hc : c.Sound) (a : Address) (offset : Nat) (bytes : ByteArray) :
    ((Collector.writeData a offset bytes).final c).Sound := by
  refine hc.checkObject_bind fun s ha => final_ask_bind hc ?_
  intro _ hdata
  obtain ⟨hle, hapart⟩ := apart_of_checkData hdata
  obtain ⟨hheap, hobjects, hpoints⟩ := hc.heap.setPayload ha hle hapart
  show Sound { c with heap := c.heap.setPayload a offset bytes }
  refine hc.of_heap ⟨rfl, rfl, rfl, rfl, rfl, rfl, rfl⟩ hheap hobjects ?_
  intro b hb hy
  obtain ⟨x, hbx, hdown⟩ := hy
  exact ⟨x, (hpoints b hb x).1 hbx, hdown⟩

/-! ### Finalizers -/

/-- The header of an object changes in what finalization notes there. -/
theorem Sound.setHeader (hc : c.Sound) (hs : SameTables c c') {new : Header}
    (hheap : c'.heap = c.heap.setHeader a new) (ha : a ∈ c.heap.objects)
    (hnew : (c.heap.header a).Alike new) : c'.Sound := by
  have hr := Heap.relabels_setHeader hc.heap.wellFormed ha hnew.size
  rw [← hheap] at hr
  refine hc.of_relabels hs hr ?_
  intro b hb
  split
  · rename_i hba
    rw [hba]
    exact hnew
  · exact .refl _

/-- An object is given a finalizer. -/
theorem Sound.registerFinalizer (hc : c.Sound) (a : Address) (callback : κ) :
    ((Collector.registerFinalizer a callback).final c).Sound := by
  refine hc.checkObject_bind ?_
  intro s ha
  have harmed := (Header.alike_setHasFinalizer (c.heap.header a) true).trans
    (Header.alike_setFinalized _ false)
  rw [Action.final_get_bind]
  dsimp only
  split
  · exact hc.setHeader ⟨rfl, rfl, rfl, rfl, rfl, rfl, rfl⟩ rfl ha harmed
  · split
    · exact hc.setHeader ⟨rfl, rfl, rfl, rfl, rfl, rfl, rfl⟩ rfl ha
        (harmed.trans (Header.alike_slot _ _))
    · exact hc

/-- An object's finalizer is taken away. -/
theorem Sound.suppressFinalization (hc : c.Sound) (a : Address) :
    ((Collector.suppressFinalization a).final c).Sound := by
  refine hc.checkObject_bind ?_
  intro s ha
  have hover : (c.heap.header a).Alike ({ c.heap.header a with slot := 0 }.setFinalized true) :=
    (Header.alike_slot _ 0).trans (Header.alike_setFinalized _ true)
  rw [Action.final_get_bind]
  dsimp only
  split
  · split
    · exact hc.setHeader ⟨rfl, rfl, rfl, rfl, rfl, rfl, rfl⟩ rfl ha hover
    · exact hc.setHeader ⟨rfl, rfl, rfl, rfl, rfl, rfl, rfl⟩ rfl ha hover
  · split
    · exact hc.setHeader ⟨rfl, rfl, rfl, rfl, rfl, rfl, rfl⟩ rfl ha hover
    · exact hc.setHeader ⟨rfl, rfl, rfl, rfl, rfl, rfl, rfl⟩ rfl ha hover

/-! ### Handles -/

theorem Sound.of_roots (hc : c.Sound) {roots : HandleTable Address}
    (h : ∀ a ∈ roots.values, a ∈ c.heap.objects) : Sound { c with roots } :=
  ⟨hc.heap, h, hc.queue, hc.weak, hc.remembered, hc.nodup, hc.complete⟩

theorem Sound.of_weak (hc : c.Sound) {weak : WeakTable}
    (h : ∀ a, some a ∈ weak.handles.values → a ∈ c.heap.objects) : Sound { c with weak } :=
  ⟨hc.heap, hc.roots, hc.queue, h, hc.remembered, hc.nodup, hc.complete⟩

theorem Sound.of_providers (hc : c.Sound) (providers : HandleTable RootSlots) :
    Sound { c with providers } :=
  ⟨hc.heap, hc.roots, hc.queue, hc.weak, hc.remembered, hc.nodup, hc.complete⟩

theorem final_onRoots {α : Type} (act : Action (HandleTable Address) α)
    (c : Collector κ TypeRegistry) :
    (onRoots act).final c = { c with roots := act.final c.roots } := by
  rw [Action.final, onRoots, Action.final]
  cases act c.roots <;> rfl

theorem final_onWeak {α : Type} (act : Action WeakTable α) (c : Collector κ TypeRegistry) :
    (onWeak act).final c = { c with weak := act.final c.weak } := by
  rw [Action.final, onWeak, Action.final]
  cases act c.weak <;> rfl

theorem final_onProviders {α : Type} (act : Action (HandleTable RootSlots) α)
    (c : Collector κ TypeRegistry) :
    (onProviders act).final c = { c with providers := act.final c.providers } := by
  rw [Action.final, onProviders, Action.final]
  cases act c.providers <;> rfl

theorem Sound.addRoot (hc : c.Sound) (a : Address) : ((Collector.addRoot a).final c).Sound := by
  refine hc.checkObject_bind ?_
  intro s ha
  rw [final_onRoots]
  refine hc.of_roots ?_
  intro b hb
  rcases HandleTable.mem_values_add hb with rfl | hb
  · exact ha
  · exact hc.roots b hb

theorem Sound.setRoot (hc : c.Sound) (id : Nat) (a : Address) :
    ((Collector.setRoot id a).final c).Sound := by
  refine hc.checkObject_bind ?_
  intro s ha
  rw [final_onRoots]
  refine hc.of_roots ?_
  intro b hb
  rcases HandleTable.mem_values_replace hb with rfl | hb
  · exact ha
  · exact hc.roots b hb

theorem Sound.removeRoot (hc : c.Sound) (id : Nat) :
    ((Collector.removeRoot id).final c).Sound := by
  have hremove : Action.Keeps Sound
      (onRoots (HandleTable.remove id) : Action (Collector κ TypeRegistry) Address) := by
    intro c hc
    rw [final_onRoots]
    exact hc.of_roots fun b hb => hc.roots b (HandleTable.mem_values_remove hb)
  exact Action.keeps_discard hremove c hc

theorem Sound.createWeak (hc : c.Sound) (a : Address) :
    ((Collector.createWeak a).final c).Sound := by
  refine hc.checkObject_bind ?_
  intro s ha
  rw [final_onWeak]
  refine hc.of_weak ?_
  intro b hb
  rcases HandleTable.mem_values_add hb with heq | hb
  · exact Option.some.inj heq ▸ ha
  · exact hc.weak b hb

theorem Sound.freeWeak (hc : c.Sound) (id : Nat) : ((Collector.freeWeak id).final c).Sound := by
  rw [Collector.freeWeak, final_onWeak]
  refine hc.of_weak fun b hb => hc.weak b ?_
  rw [WeakTable.handles_free] at hb
  exact HandleTable.mem_values_remove hb

theorem Sound.addProvider (hc : c.Sound) (slots : RootSlots) : (c.addProvider slots).2.Sound :=
  hc.of_providers _

theorem Sound.modifySlots (hc : c.Sound) (id : Nat) (f : RootSlots → RootSlots) :
    (c.modifySlots id f).Sound := hc.of_providers _

theorem Sound.removeProvider (hc : c.Sound) (id : Nat) :
    ((Collector.removeProvider id).final c).Sound := by
  rw [Collector.removeProvider, final_onProviders]
  exact hc.of_providers _

end Collector

end GenerationalHeap
