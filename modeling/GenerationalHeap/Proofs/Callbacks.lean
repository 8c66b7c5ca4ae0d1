/-
Slots in headers, and the table of callbacks.

* `Collector.Slotted` — the slots in the headers are the handles of the table, each in one
  header, and an object with a slot awaits finalization.
* `Collector.Collected.callbacks_eq` — so a collection has no callback to drop.
* `Collector.Steady` — what holds between any two calls, slots and callbacks included.
* `Collector.Reachable.steady` — a collector is steady whenever it is reached.
-/
import GenerationalHeap.Proofs.Failures

namespace GenerationalHeap

namespace Collector

variable {κ : Type} {config : Config} {types : TypeRegistry} {c c' : Collector κ TypeRegistry}
  {target : Target} {a : Address}

/-- Slots in headers and callbacks belong together. -/
structure Slotted (c : Collector κ TypeRegistry) : Prop where
  /-- An object with a slot awaits finalization. -/
  needs : ∀ a ∈ c.heap.objects, (c.heap.header a).slot ≠ 0 →
    (c.heap.header a).needsFinalization = true
  /-- No two objects share a slot. -/
  distinct : ∀ a ∈ c.heap.objects, ∀ b ∈ c.heap.objects, (c.heap.header a).slot ≠ 0 →
    (c.heap.header a).slot = (c.heap.header b).slot → a = b
  /-- The callbacks are those of the slots. -/
  table : ∀ id, c.callbacks.contains id = true ↔ ∃ a ∈ c.heap.objects,
    (c.heap.header a).slot ≠ 0 ∧ (c.heap.header a).slot.toNat = id

theorem Slotted.isFinalized_of_slot (hs : c.Slotted) (ha : a ∈ c.heap.objects)
    (hz : (c.heap.header a).slot ≠ 0) : (c.heap.header a).isFinalized = false := by
  have hneeds := hs.needs a ha hz
  rw [Header.needsFinalization, Bool.and_eq_true, Bool.not_eq_true'] at hneeds
  exact hneeds.2

/-! ### Changes that keep slots and callbacks together -/

theorem Slotted.of_quiet (hs : c.Slotted) (hq : Quiet c c') : c'.Slotted where
  needs a ha := by
    rw [hq.objects] at ha
    rw [hq.header a ha]
    exact hs.needs a ha
  distinct a ha b hb := by
    rw [hq.objects] at ha hb
    rw [hq.header a ha, hq.header b hb]
    exact hs.distinct a ha b hb
  table id := by
    rw [hq.callbacks, hs.table, hq.objects]
    exact exists_congr fun a => and_congr_right fun ha => by rw [hq.header a ha]

/-- A slot that an object is given is not the slot of another one. -/
theorem Slotted.slot_ne_of_fresh (hs : c.Slotted) (ha : a ∈ c.heap.objects) {new : Header}
    (hfresh : new.slot = (c.heap.header a).slot ∨ c.callbacks.contains new.slot.toNat = false)
    (hz : new.slot ≠ 0) (hb : b ∈ c.heap.objects) (hne : b ≠ a) :
    new.slot ≠ (c.heap.header b).slot := by
  intro heq
  rcases hfresh with hold | hnot
  · exact hne (hs.distinct a ha b hb (hold ▸ hz) (hold ▸ heq)).symm
  · have hin := (hs.table new.slot.toNat).2 ⟨b, hb, heq ▸ hz, by rw [heq]⟩
    rw [hnot] at hin
    exact absurd hin Bool.false_ne_true

/-- One header changes, and with it the callback in its slot. -/
theorem Slotted.of_setHeader (hs : c.Slotted) (hc : c.Sound) (ha : a ∈ c.heap.objects)
    {new : Header} (hheap : c'.heap = c.heap.setHeader a new)
    (hsize : new.size = (c.heap.header a).size)
    (hneeds : new.slot ≠ 0 → new.needsFinalization = true)
    (hfresh : new.slot ≠ 0 →
      new.slot = (c.heap.header a).slot ∨ c.callbacks.contains new.slot.toNat = false)
    (htable : ∀ id, c'.callbacks.contains id = true ↔
      c.callbacks.contains id = true ∧ id ≠ (c.heap.header a).slot.toNat ∨
        new.slot ≠ 0 ∧ new.slot.toNat = id) : c'.Slotted := by
  have hr := Heap.relabels_setHeader hc.heap.wellFormed ha hsize
  rw [← hheap] at hr
  have hobjects := hr.layout.objects hc.heap.wellFormed
  have hself : c'.heap.header a = new := by rw [hr.header a ha, if_pos rfl]
  have hother : ∀ b ∈ c.heap.objects, b ≠ a → c'.heap.header b = c.heap.header b := by
    intro b hb hne
    rw [hr.header b hb, if_neg hne]
  refine ⟨?_, ?_, ?_⟩
  · intro b hb hz
    rw [hobjects] at hb
    by_cases hba : b = a
    · subst hba
      rw [hself] at hz ⊢
      exact hneeds hz
    · rw [hother b hb hba] at hz ⊢
      exact hs.needs b hb hz
  · intro x hx y hy hz heq
    rw [hobjects] at hx hy
    by_cases hxa : x = a
    · subst hxa
      by_contra hne
      rw [hself] at hz heq
      rw [hother y hy (Ne.symm hne)] at heq
      exact hs.slot_ne_of_fresh ha (hfresh hz) hz hy (Ne.symm hne) heq
    · rw [hother x hx hxa] at hz heq
      by_cases hya : y = a
      · subst hya
        rw [hself] at heq
        have hz' : new.slot ≠ 0 := heq ▸ hz
        exact absurd heq.symm (hs.slot_ne_of_fresh ha (hfresh hz') hz' hx hxa)
      · rw [hother y hy hya] at heq
        exact hs.distinct x hx y hy hz heq
  · intro id
    rw [htable, hs.table, hobjects]
    constructor
    · rintro (⟨⟨b, hb, hz, rfl⟩, hne⟩ | ⟨hz, rfl⟩)
      · have hba : b ≠ a := by
          rintro rfl
          exact hne rfl
        exact ⟨b, hb, by rw [hother b hb hba]; exact ⟨hz, rfl⟩⟩
      · exact ⟨a, ha, by rw [hself]; exact ⟨hz, rfl⟩⟩
    · rintro ⟨b, hb, hz, rfl⟩
      by_cases hba : b = a
      · subst hba
        rw [hself] at hz ⊢
        exact Or.inr ⟨hz, rfl⟩
      · rw [hother b hb hba] at hz ⊢
        refine Or.inl ⟨⟨b, hb, hz, rfl⟩, ?_⟩
        intro heq
        exact hba (hs.distinct b hb a ha hz (UInt64.toNat_inj.1 heq))

/-- A new object has no slot. -/
theorem Slotted.of_adds (hs : c.Slotted) (hc : c.Sound) {new : Header} {heap : Heap}
    (hadd : Heap.Adds a new c.heap heap) (hslot : new.slot = 0) :
    Slotted { c with heap } := by
  have hother : ∀ b ∈ c.heap.objects, heap.header b = c.heap.header b := fun b hb =>
    hadd.header hc.heap.wellFormed hb
  -- an object with a slot is an old one
  have hold : ∀ b ∈ heap.objects, (heap.header b).slot ≠ 0 → b ∈ c.heap.objects := by
    intro b hb hz
    rcases (hadd.mem b).1 hb with hb | rfl
    · exact hb
    · rw [hadd.header_new] at hz
      exact absurd hslot hz
  refine ⟨?_, ?_, ?_⟩
  · intro b hb hz
    have hb' := hold b hb hz
    show (heap.header b).needsFinalization = true
    rw [hother b hb']
    exact hs.needs b hb' (hother b hb' ▸ hz)
  · intro x hx y hy hz heq
    have hx' := hold x hx hz
    have hy' := hold y hy (heq ▸ hz)
    refine hs.distinct x hx' y hy' (hother x hx' ▸ hz) ?_
    rw [← hother x hx', ← hother y hy']
    exact heq
  · intro id
    rw [hs.table]
    constructor
    · rintro ⟨b, hb, hz, rfl⟩
      refine ⟨b, (hadd.mem b).2 (Or.inl hb), ?_⟩
      show (heap.header b).slot ≠ 0 ∧ (heap.header b).slot.toNat = _
      rw [hother b hb]
      exact ⟨hz, rfl⟩
    · rintro ⟨b, hb, hz, rfl⟩
      have hb' := hold b hb hz
      refine ⟨b, hb', ?_⟩
      show (c.heap.header b).slot ≠ 0 ∧ _ = (heap.header b).slot.toNat
      rw [← hother b hb']
      exact ⟨hz, rfl⟩

/-! ### Collections -/

/-- An object that awaits finalization survives. -/
theorem survives_of_needsFinalization (ha : a ∈ c.heap.objects)
    (hneeds : (c.heap.header a).needsFinalization = true) :
    c.heap.Survives c.types target c.rootObjects a := by
  refine ⟨ha, ?_⟩
  by_cases hcond : target.condemnsAddress a = true
  · by_cases hheld : c.heap.Held c.types target c.rootObjects a
    · exact Or.inr (Or.inl hheld)
    · exact Or.inr (Or.inr ⟨a, ⟨ha, hcond, hheld, hneeds⟩, .refl⟩)
  · exact Or.inl (by simpa using hcond)

variable {F : Address → Address} {dying : List Address}

/-- A dying object was not in the queue before. -/
theorem Collected.not_mem_queue_of_dying (h : Collected target F dying c c') (ha : a ∈ dying) :
    a ∉ c.queue.objects := fun hin =>
  ((h.mem_dying a).1 ha).2.2.1 ⟨a, Or.inl (List.mem_append_right _ hin), .refl⟩

theorem Collected.survives_of_dying (h : Collected target F dying c c') (ha : a ∈ dying) :
    c.heap.Survives c.types target c.rootObjects a := by
  have hdying := (h.mem_dying a).1 ha
  exact ⟨hdying.1, Or.inr (Or.inr ⟨a, hdying, .refl⟩)⟩

theorem Collected.nodup_of_dying (h : Collected target F dying c c') : dying.Nodup := by
  refine h.sorted.imp ?_
  rintro a _ hlt rfl
  exact Nat.lt_irrefl _ hlt

theorem survives_of_queue (hall : ∀ a ∈ c.rootObjects, a ∈ c.heap.objects)
    (ha : a ∈ c.queue.objects) : c.heap.Survives c.types target c.rootObjects a :=
  survives_of_root hall (List.mem_append_right _ ha)

/-- A collection puts no object into the queue that is in it. -/
theorem Collected.nodup_queue (h : Collected target F dying c c')
    (hall : ∀ a ∈ c.rootObjects, a ∈ c.heap.objects) (hn : c.queue.objects.Nodup) :
    c'.queue.objects.Nodup := by
  have hinj : ∀ x ∈ c.queue.pending ++ dying ++ c.queue.inFlight.toList,
      ∀ y ∈ c.queue.pending ++ dying ++ c.queue.inFlight.toList, F x = F y → x = y := by
    have hs : ∀ x ∈ c.queue.pending ++ dying ++ c.queue.inFlight.toList,
        c.heap.Survives c.types target c.rootObjects x := by
      intro x hx
      simp only [List.mem_append] at hx
      rcases hx with (hx | hx) | hx
      · exact survives_of_queue hall (List.mem_append_left _ hx)
      · exact h.survives_of_dying hx
      · exact survives_of_queue hall (List.mem_append_right _ hx)
    exact fun x hx y hy => h.moves.inj x y (hs x hx) (hs y hy)
  -- the new queue is the image of the old one with the dying objects put in
  have hobjects : c'.queue.objects =
      (c.queue.pending ++ dying ++ c.queue.inFlight.toList).map F := by
    rw [FinalizationQueue.objects, h.pending, h.inFlight, List.map_append, List.map_append]
    cases c.queue.inFlight <;> rfl
  rw [hobjects]
  refine List.Nodup.map_on hinj ?_
  rw [FinalizationQueue.objects, List.nodup_append'] at hn
  rw [List.append_assoc, List.nodup_append', List.nodup_append', List.disjoint_append_right]
  refine ⟨hn.1, ⟨h.nodup_of_dying, hn.2.1, ?_⟩, ?_, hn.2.2⟩
  · exact fun a ha hin => h.not_mem_queue_of_dying ha (List.mem_append_right _ hin)
  · exact fun a hin ha => h.not_mem_queue_of_dying ha (List.mem_append_left _ hin)

/-- A collection has no callback to drop. -/
theorem Collected.callbacks_eq (h : Collected target F dying c c') (hs : c.Slotted) :
    c'.callbacks = c.callbacks := by
  obtain ⟨orphans, horphans, hcallbacks⟩ := h.callbacks
  obtain rfl : orphans = [] := by
    refine List.eq_nil_iff_forall_not_mem.2 fun slot hslot => ?_
    obtain ⟨hne, a, ha, hdead, rfl⟩ := horphans slot hslot
    exact hdead (survives_of_needsFinalization ha (hs.needs a ha hne))
  exact hcallbacks

/-- The headers of survivors keep their slots, and there are no other objects. -/
theorem Slotted.of_collected (hs : c.Slotted) (h : Collected target F dying c c') : c'.Slotted := by
  have hslot : ∀ a, c.heap.Survives c.types target c.rootObjects a →
      (c'.heap.header (F a)).slot = (c.heap.header a).slot := fun a ha =>
    congrArg Header.Identity.slot (h.moves.identity a ha)
  refine ⟨?_, ?_, ?_⟩
  · intro b hb hz
    obtain ⟨a, ha, rfl⟩ := (h.moves.mem b).1 hb
    rw [hslot a ha] at hz
    rw [Header.needsFinalization_congr (h.moves.identity a ha)]
    exact hs.needs a ha.1 hz
  · intro x hx y hy hz heq
    obtain ⟨a, ha, rfl⟩ := (h.moves.mem x).1 hx
    obtain ⟨b, hb, rfl⟩ := (h.moves.mem y).1 hy
    rw [hslot a ha] at hz heq
    rw [hslot b hb] at heq
    rw [hs.distinct a ha.1 b hb.1 hz heq]
  · intro id
    rw [h.callbacks_eq hs, hs.table]
    constructor
    · -- whoever has a callback survives, so no callback is lost
      rintro ⟨a, ha, hz, rfl⟩
      have hsurvives : c.heap.Survives c.types target c.rootObjects a :=
        survives_of_needsFinalization ha (hs.needs a ha hz)
      exact ⟨F a, h.moves.mem_objects hsurvives, by rw [hslot a hsurvives]; exact ⟨hz, rfl⟩⟩
    · rintro ⟨b, hb, hz, rfl⟩
      obtain ⟨a, ha, rfl⟩ := (h.moves.mem b).1 hb
      rw [hslot a ha] at hz ⊢
      exact ⟨a, ha.1, hz, rfl⟩

/-! ### Finalizers -/

theorem contains_iff_of_slot (hs : c.Slotted) (ha : a ∈ c.heap.objects)
    (hz : (c.heap.header a).slot ≠ 0) : c.callbacks.contains (c.heap.header a).slot.toNat = true :=
  (hs.table _).2 ⟨a, ha, hz, rfl⟩

/-- A handle of the table is not zero. -/
theorem ne_toNat_of_contains {t : Callbacks κ} {id : Nat} (h : t.contains id = true) {slot : UInt64}
    (hz : slot = 0) : id ≠ slot.toNat := by
  rintro rfl
  subst hz
  exact absurd h Bool.false_ne_true

/-- A slot is taken from an object, with its callback. -/
theorem Slotted.of_cleared (hs : c.Slotted) (hc : c.Sound) (ha : a ∈ c.heap.objects) {new : Header}
    (hheap : c'.heap = c.heap.setHeader a new) (hsize : new.size = (c.heap.header a).size)
    (hnew : new.slot = 0)
    (hcallbacks : c'.callbacks =
      if (c.heap.header a).slot ≠ 0 then c.callbacks.erase (c.heap.header a).slot.toNat
      else c.callbacks) : c'.Slotted := by
  refine hs.of_setHeader hc ha hheap hsize (fun hz => absurd hnew hz) (fun hz => absurd hnew hz) ?_
  intro id
  rw [hcallbacks]
  split
  · simp [hnew, and_comm]
  · rename_i hz
    simp only [ne_eq, Classical.not_not] at hz
    constructor
    · exact fun hin => Or.inl ⟨hin, ne_toNat_of_contains hin hz⟩
    · rintro (⟨hin, -⟩ | ⟨hne, -⟩)
      · exact hin
      · exact absurd hnew hne

theorem Slotted.registerFinalizer (hs : c.Slotted) (hc : c.Sound) (a : Address) (callback : κ) :
    ((Collector.registerFinalizer a callback).final c).Slotted := by
  rcases hc.registerFinalizer_cases a callback with ⟨e, hrun⟩ | ⟨slot, callbacks, ha, hrun, hkind⟩
  · rw [Action.final_of_error hrun]
    exact hs
  rw [Action.final_of_ok hrun]
  have hneeds : ({ (c.heap.header a).armed with slot } : Header).needsFinalization = true :=
    (c.heap.header a).needsFinalization_armed
  -- a callback replaces that of the object, or it gets a slot of its own
  rcases hkind with ⟨hslot, hz, hin, rfl⟩ | ⟨hslot, hnext, hnot, rfl⟩
  · refine hs.of_setHeader hc ha rfl rfl (fun _ => hneeds) (fun _ => Or.inl hslot) ?_
    intro id
    rw [HandleTable.contains_modify, ← hslot]
    constructor
    · intro hid
      by_cases heq : slot.toNat = id
      · exact Or.inr ⟨hz, heq⟩
      · exact Or.inl ⟨hid, Ne.symm heq⟩
    · rintro (⟨hid, -⟩ | ⟨-, rfl⟩)
      · exact hid
      · exact hin
  · -- whoever has a slot has a callback in it, so the object had none
    have hold : (c.heap.header a).slot = 0 := by
      by_contra hz
      exact hnot ⟨hz, contains_iff_of_slot hs ha hz⟩
    have htoNat : slot.toNat = c.callbacks.next := by
      rw [hslot]
      exact UInt64.toNat_ofNat_of_lt' (Nat.lt_of_succ_lt hnext)
    have hz : slot ≠ 0 := by
      rintro rfl
      exact absurd htoNat (by simp [HandleTable.next])
    refine hs.of_setHeader hc ha rfl rfl (fun _ => hneeds) (fun _ => Or.inr ?_) ?_
    · rw [htoNat]
      exact HandleTable.contains_next _
    · intro id
      rw [HandleTable.contains_add, htoNat]
      constructor
      · rintro (rfl | hid)
        · exact Or.inr ⟨hz, rfl⟩
        · exact Or.inl ⟨hid, ne_toNat_of_contains hid hold⟩
      · rintro (⟨hid, -⟩ | ⟨-, rfl⟩)
        · exact Or.inr hid
        · exact Or.inl rfl

theorem Slotted.suppressFinalization (hs : c.Slotted) (hc : c.Sound) (a : Address) :
    ((Collector.suppressFinalization a).final c).Slotted := by
  rcases hc.suppressFinalization_cases a with ⟨e, hrun⟩ | ⟨suppressed, ha, hrun⟩
  · rw [Action.final_of_error hrun]
    exact hs
  · rw [Action.final_of_ok hrun]
    exact hs.of_cleared hc ha rfl rfl rfl rfl

theorem Slotted.beginTurn (hs : c.Slotted) (hc : c.Sound) : c.beginTurn.2.Slotted := by
  rcases hc.beginTurn_eq with ⟨hrun, -⟩ | ⟨a, -, ha, hz, running, hrun⟩
  · rw [hrun]
    exact hs
  · rw [hrun]
    exact hs.of_cleared hc ha rfl rfl rfl (if_pos hz).symm

theorem Slotted.endTurn (hs : c.Slotted) (hc : c.Sound) : c.endTurn.Slotted := by
  rw [hc.endTurn_eq]
  cases hflight : c.queue.inFlight with
  | none => exact { hs with }
  | some a =>
    dsimp only [Option.elim]
    split
    · rename_i hz
      have ha : a ∈ c.heap.objects :=
        hc.queue a (FinalizationQueue.mem_objects_of_inFlight hflight)
      exact hs.of_cleared hc ha rfl rfl hz (if_neg fun hne => hne hz).symm
    · exact { hs with }

/-! ### Steps -/

/-- A collection that fails is quiet. -/
theorem Sound.quiet_of_error (hc : c.Sound) (hr : c.AtRest) {reason : Reason} {e : Error}
    (hrun : Collector.collectFor target reason c = .error e c') : Quiet c c' := by
  have hfixed : FixedTypes TypeRegistry := fun _ _ _ => rfl
  have hres := restored_of_error hfixed hc.heap.intact hr.collecting hrun
  have hagrees : Heap.AgreesBut c.heap.InPayload c.heap c'.heap :=
    hres.heap.mono fun _ _ hno => hno.elim
  exact
    { objects := (hagrees.sameLayout hc.heap.wellFormed).objects hc.heap.wellFormed
      header := fun a ha => hagrees.header hc.heap.wellFormed ha
      callbacks := hres.callbacks
      pending := by rw [hres.queue]
      inFlight := by rw [hres.queue]
      collecting := by rw [hres.queue]
      phase := hres.phase.trans hr.phase.symm }

theorem Slotted.collectFor (hs : c.Slotted) (hc : c.Sound) (hr : c.AtRest) (target : Target)
    (reason : Reason) : ((Collector.collectFor target reason).final c).Slotted := by
  cases hrun : Collector.collectFor target reason c with
  | ok report c' =>
    obtain ⟨F, dying, -, hcol⟩ := hc.collected_of_ok hrun
    rw [Action.final_of_ok hrun]
    exact hs.of_collected hcol
  | error e c' =>
    rw [Action.final_of_error hrun]
    exact hs.of_quiet (hc.quiet_of_error hr hrun)

/-- A larger nursery is not seen. -/
theorem Sound.quiet_growNursery (hc : c.Sound) (blockSize : Nat) :
    Quiet c
      ((onHeap (Heap.growNursery blockSize) : Action (Collector κ TypeRegistry) _).final c) := by
  have hr := Heap.relabels_growNursery hc.heap.wellFormed blockSize
  have hquiet : ∀ h, Heap.Relabels (fun _ x => x) c.heap h → Quiet c { c with heap := h } :=
    fun h hr => ⟨hr.layout.objects hc.heap.wellFormed, hr.header, rfl, rfl, rfl, rfl, rfl⟩
  cases hrun : Heap.growNursery blockSize c.heap with
  | ok sizes h =>
    rw [Action.final_of_ok hrun] at hr
    rw [Action.final_of_ok (onHeap_of_ok hrun)]
    exact hquiet h hr
  | error e h =>
    rw [Action.final_of_error hrun] at hr
    rw [Action.final_of_error (onHeap_of_error hrun)]
    exact hquiet h hr

/-- What holds of a collector between any two calls, slots and callbacks included. -/
structure Steady (c : Collector κ TypeRegistry) : Prop
    extends c.Sound, c.AtRest, c.Slotted

/-- What is no concern of slots and objects may change. -/
theorem Steady.of_tables (hc : c.Steady) (hs : SameTables c c') (hheap : c'.heap = c.heap)
    (hq : Quiet c c') : c'.Steady :=
  ⟨hc.toSound.of_tables hs hheap, hq.atRest hc.toAtRest, hc.toSlotted.of_quiet hq⟩

section Ladder

variable {r : Request}

/-- An object is placed, or nothing happens. -/
theorem Sound.place_ends (hc : c.Sound) (hr : r.Prepared c.types) :
    (onHeap r.place?).Ends c (fun c' => c' = c) fun placed c' => placed.elim (c' = c) fun a =>
      ∃ heap, c' = { c with heap } ∧ Heap.Adds a r.header c.heap heap ∧
        heap.maxSize = c.heap.maxSize ∧ heap.usedBytes ≤ heap.maxSize := by
  rcases Request.place?_spec hr hc.heap.wellFormed hc.heap.used_le with
    ⟨e, hrun⟩ | hrun | ⟨a, h', hrun, ha, hmax, hused⟩
  · exact Action.ends_of_error (onHeap_of_error hrun) rfl
  · exact Action.ends_of_ok (onHeap_of_ok hrun) rfl
  · exact Action.ends_of_ok (onHeap_of_ok hrun) ⟨h', rfl, ha, hmax, hused⟩

theorem Steady.of_adds (hc : c.Steady) (hr : r.Prepared c.types) {heap : Heap}
    (ha : Heap.Adds a r.header c.heap heap) (hmax : heap.maxSize = c.heap.maxSize)
    (hused : heap.usedBytes ≤ heap.maxSize) : Steady { c with heap } := by
  have ht : (c.types r.header.typeId).isSome = true := by
    rw [Request.typeId_header]
    exact hr.typed
  exact
    { toSound := hc.toSound.of_adds ha ht r.clean_header hused hmax
      toAtRest := ⟨hc.phase, hc.collecting⟩
      toSlotted := hc.toSlotted.of_adds hc.toSound ha (Header.slot_fresh _ _ _ _) }

theorem Steady.collectFor (hc : c.Steady) (target : Target) (reason : Reason) :
    ((Collector.collectFor target reason).final c).Steady where
  toSound := hc.toSound.collectFor target reason
  toAtRest := atRest_collectFor target reason c
  toSlotted := hc.toSlotted.collectFor hc.toSound hc.toAtRest target reason

theorem Steady.growNursery (hc : c.Steady) (hr : r.Prepared c.types) (blockSize : Nat) :
    Steady ((onHeap (Heap.growNursery blockSize) :
      Action (Collector κ TypeRegistry) _).final c) where
  toSound := (keeps_growNursery blockSize c ⟨hc.toSound, hr⟩).toSound
  toAtRest := (hc.quiet_growNursery blockSize).atRest hc.toAtRest
  toSlotted := hc.toSlotted.of_quiet (hc.quiet_growNursery blockSize)

theorem keeps_steady (r : Request) (config : Config) :
    Action.Keeps (fun c : Collector κ TypeRegistry => c.Steady ∧ r.Prepared c.types)
      (allocate owner r config) := by
  have ho : owner.Upholds r (fun c : Collector κ TypeRegistry => c.Steady ∧ r.Prepared c.types)
      fun _ c => c.Steady ∧ r.Prepared c.types :=
    { place := fun c hc => (hc.1.place_ends hc.2).imp (fun c' heq => heq ▸ hc) fun placed c' h => by
        cases placed with
        | none => exact h ▸ hc
        | some a =>
          obtain ⟨heap, rfl, ha, hmax, hused⟩ := h
          exact ⟨hc.1.of_adds hc.2 ha hmax hused, hc.2⟩
      grow := fun c hc => Action.Keeps.ends (fun c hc => ⟨hc.1.growNursery hc.2 r.blockSize,
        (keeps_growNursery r.blockSize c ⟨hc.1.toSound, hc.2⟩).prepared⟩) hc
      grown := fun _ _ c hc =>
        ⟨hc.1.of_tables ⟨rfl, rfl, rfl, rfl, rfl, rfl, rfl⟩ rfl
          ⟨rfl, fun _ _ => rfl, rfl, rfl, rfl, rfl, rfl⟩, hc.2⟩
      collect := fun target reason c hc => Action.Keeps.ends (fun c hc => ⟨?_,
        (keeps_collect target reason c ⟨hc.1.toSound, hc.2⟩).prepared⟩) hc }
  · exact Action.keeps_of_ends fun c hc => ho.allocate config hc
  · have hfinal : (owner.collect target reason).final c =
        (Collector.collectFor target reason).final c :=
      Action.final_discard _ c
    rw [hfinal]
    exact hc.1.collectFor target reason

end Ladder

theorem Steady.allocateObject (hc : c.Steady) (typeId : TypeId) (size : Nat)
    (hasFinalizer : Bool) (build : Build) :
    ((Collector.allocateObjectIn build typeId size hasFinalizer).final c).Steady := by
  refine final_allocateObject hc fun r hr _ _ _ => ?_
  have hkept := (keeps_steady r c.config c ⟨hc, hr⟩).1
  exact hkept.of_tables ⟨rfl, rfl, rfl, rfl, rfl, rfl, rfl⟩ rfl
    ⟨rfl, fun _ _ => rfl, rfl, rfl, rfl, rfl, rfl⟩

theorem Steady.after_slotted (hc : c.Steady) (k : Call κ) : (Collector.after k c).Slotted := by
  cases hk : k.isQuiet with
  | true => exact hc.toSlotted.of_quiet (hc.quiet_after hk)
  | false =>
    cases k with
    | allocate typeId size hasFinalizer build =>
      exact (hc.allocateObject typeId size hasFinalizer build).toSlotted
    | collect target reason => exact (hc.collectFor target reason).toSlotted
    | registerFinalizer a callback => exact hc.toSlotted.registerFinalizer hc.toSound a callback
    | suppressFinalization a => exact hc.toSlotted.suppressFinalization hc.toSound a
    | _ => exact absurd hk (by simp [Call.isQuiet])

theorem Steady.of_step (hc : c.Steady) (hs : Step c c') : c'.Steady := by
  refine ⟨hs.sound hc.toSound, hs.atRest hc.toSound hc.toAtRest, ?_⟩
  cases hs with
  | call k => exact hc.after_slotted k
  | takeNext patience => exact { hc.toSlotted with }
  | beginTurn => exact hc.toSlotted.beginTurn hc.toSound
  | flag inside => exact { hc.toSlotted with }
  | noteOutcome a fault =>
    cases fault with
    | none => exact { hc.toSlotted with }
    | some message => exact { hc.toSlotted with }
  | endTurn => exact hc.toSlotted.endTurn hc.toSound

theorem slotted_of_create {build : Build} (h : create config types build = .ok c) : c.Slotted := by
  have hnone : ∀ a, a ∉ c.heap.objects := by
    intro a ha
    rw [eq_of_create h, Heap.objects_empty] at ha
    exact List.not_mem_nil ha
  have hempty : ∀ id, c.callbacks.contains id = false := by
    intro id
    rw [eq_of_create h]
    cases id <;> rfl
  refine ⟨fun a ha => absurd ha (hnone a), fun a ha => absurd ha (hnone a), fun id => ?_⟩
  rw [hempty]
  constructor
  · exact fun hin => absurd hin Bool.false_ne_true
  · rintro ⟨a, ha, -⟩
    exact absurd ha (hnone a)

/-- A collector is steady whenever it is reached. -/
theorem Reachable.steady (h : Reachable config types c) : c.Steady := by
  induction h with
  | start build hcreate =>
    exact ⟨sound_of_create hcreate, atRest_of_create hcreate, slotted_of_create hcreate⟩
  | step _ hs ih => exact ih.of_step hs

end Collector

end GenerationalHeap
