/-
Which plain writes are accepted.

A write is compared with every reference slot of the object as one interval with another. If it
has bytes, the intervals meet exactly if one of its bytes belongs to the slot. An empty write has
none, but strictly between the ends of a slot the comparison refuses it all the same.

* `TypeInfo.crossesReference_eq_true_iff` — the comparison, in terms of bytes.
* `Collector.checkData_eq_ok_iff` — the check of a write.
* `Collector.Reachable.writeData_accepts_iff` — the writes that are accepted in any state.
-/
import GenerationalHeap.Proofs.Fields

namespace GenerationalHeap

/-! ### Intervals -/

namespace TypeInfo

variable {t : TypeInfo} {payload offset length : Nat}

/-- A range with bytes crosses a slot if it has a byte of the slot, and an empty range if it
lies strictly between the ends of the slot. -/
theorem crossesReference_eq_true_iff :
    t.crossesReference payload offset (offset + length) = true ↔
      ∃ o ∈ t.referenceOffsets payload,
        (∃ i, offset ≤ i ∧ i < offset + length ∧ o ≤ i ∧ i < o + slotSize) ∨
        length = 0 ∧ o < offset ∧ offset < o + slotSize := by
  rw [crossesReference, List.any_eq_true]
  refine exists_congr fun o => and_congr_right fun _ => ?_
  rw [decide_eq_true_eq]
  constructor
  · rintro ⟨hlo, hhi⟩
    rcases Nat.eq_zero_or_pos length with rfl | hpos
    · exact Or.inr ⟨rfl, hlo, hhi⟩
    · -- the later one of the two starts is a byte of both
      exact Or.inl ⟨max offset o, by unfold slotSize at *; omega⟩
  · rintro (⟨i, hi⟩ | ⟨rfl, hlo, hhi⟩)
    · omega
    · exact ⟨hlo, hhi⟩

end TypeInfo

namespace Collector

variable {κ : Type} {config : Config} {types : TypeRegistry} {c : Collector κ TypeRegistry}
  {a : Address}

/-! ### The check -/

/-- The check of a write to an object of a known type is the two comparisons. -/
theorem checkData_eq_ok_iff_of_type {h : Heap} {types : TypeSystem} {offset length : Nat}
    {info : TypeInfo} (hinfo : types (h.header a).typeId = some info) :
    checkData h types a offset length = .ok () ↔
      offset + length ≤ (h.header a).payloadSize ∧
      info.crossesReference (h.header a).payloadSize offset (offset + length) ≠ true := by
  simp only [checkData, Heap.typeOf, hinfo, bind, Except.bind]
  by_cases hpast : offset + length > (h.header a).payloadSize
  · rw [if_pos hpast]
    exact ⟨fun herr => absurd herr (by simp [throw, throwThe, MonadExceptOf.throw]),
      fun hfits => absurd hfits.1 (Nat.not_le.2 hpast)⟩
  · rw [if_neg hpast]
    simp only [overlapsReference_of_le (Nat.not_lt.1 hpast)]
    by_cases hover : info.crossesReference (h.header a).payloadSize offset (offset + length) = true
    · simp [hover, throw, throwThe, MonadExceptOf.throw]
    · simp [hover, Nat.not_lt.1 hpast, pure, Except.pure]

/-- Plain bytes may be written to a range that stays within the payload, has no byte of a slot,
and is not an empty range within a slot. -/
theorem checkData_eq_ok_iff {h : Heap} {types : TypeSystem} {offset length : Nat}
    (ht : (types (h.header a).typeId).isSome = true) :
    checkData h types a offset length = .ok () ↔
      offset + length ≤ (h.header a).payloadSize ∧
      (∀ i, offset ≤ i → i < offset + length →
        ∀ o ∈ h.slots types a, ¬(o ≤ i ∧ i < o + slotSize)) ∧
      (length = 0 → ∀ o ∈ h.slots types a, ¬(o < offset ∧ offset < o + slotSize)) := by
  obtain ⟨info, hinfo⟩ := Option.isSome_iff_exists.1 ht
  have hslots : h.slots types a = info.referenceOffsets (h.header a).payloadSize := by
    rw [Heap.slots, hinfo]
  rw [checkData_eq_ok_iff_of_type hinfo, Ne, TypeInfo.crossesReference_eq_true_iff, hslots]
  refine and_congr_right fun _ => ⟨fun hno => ⟨?_, ?_⟩, ?_⟩
  · exact fun i hlo hhi o ho hin => hno ⟨o, ho, Or.inl ⟨i, hlo, hhi, hin⟩⟩
  · exact fun hzero o ho hin => hno ⟨o, ho, Or.inr ⟨hzero, hin⟩⟩
  · rintro ⟨hbytes, hempty⟩ ⟨o, ho, ⟨i, hlo, hhi, hin⟩ | ⟨hzero, hin⟩⟩
    · exact hbytes i hlo hhi o ho hin
    · exact hempty hzero o ho hin

/-! ### The call -/

/-- A write to an object is accepted exactly if it stays within the payload, none of its bytes
belongs to a reference slot, and it is not an empty one strictly between the ends of a slot. -/
theorem Reachable.writeData_accepts_iff (h : Reachable config types c)
    (ha : a ∈ c.heap.objects) (offset : Nat) (bytes : ByteArray) :
    (∃ c', writeData a offset bytes c = .ok () c') ↔
      offset + bytes.size ≤ (c.heap.header a).payloadSize ∧
      (∀ i, offset ≤ i → i < offset + bytes.size →
        ∀ o ∈ c.heap.slots c.types a, ¬(o ≤ i ∧ i < o + slotSize)) ∧
      (bytes.size = 0 → ∀ o ∈ c.heap.slots c.types a, ¬(o < offset ∧ offset < o + slotSize)) := by
  have hc := h.sound
  rw [← checkData_eq_ok_iff (hc.heap.typed a ha)]
  constructor
  · rintro ⟨c', hrun⟩
    exact (hc.writeData_of_ok hrun).2.1
  · intro hcheck
    obtain ⟨s, hs⟩ := hc.checkObject_eq ha
    exact ⟨{ c with heap := c.heap.setPayload a offset bytes },
      (Action.bind_of_ok hs _).trans (Action.bind_of_ok (ask_of_ok hcheck) _)⟩

/-- Three bytes behind the slot of the object of mixed layout. -/
theorem writeData_accepts_behind_slot :
    mixed ∈ triple.heap.objects ∧ ∃ c', writeData mixed 8 ⟨#[1, 2, 3]⟩ triple = .ok () c' := by
  have ha : mixed ∈ triple.heap.objects := by decide +kernel
  have hslots : triple.heap.slots triple.types mixed = [0] := by decide +kernel
  refine ⟨ha, (reachable_triple.writeData_accepts_iff ha 8 ⟨#[1, 2, 3]⟩).2 ⟨?_, ?_, ?_⟩⟩
  · decide +kernel
  · intro i hlo hhi o ho hin
    rw [hslots, List.mem_singleton] at ho
    unfold slotSize at hin
    omega
  · exact fun hzero => absurd hzero (by decide)

/-- No byte is written, and so none to a slot, but the write is refused. -/
theorem writeData_refuses_empty :
    ¬∀ (types : TypeRegistry) (c : Collector Unit TypeRegistry) (a : Address) (offset : Nat)
        (bytes : ByteArray), Reachable {} types c → a ∈ c.heap.objects →
      ((∃ c', writeData a offset bytes c = .ok () c') ↔
        offset + bytes.size ≤ (c.heap.header a).payloadSize ∧
        ∀ i, offset ≤ i → i < offset + bytes.size →
          ∀ o ∈ c.heap.slots c.types a, ¬(o ≤ i ∧ i < o + slotSize)) := by
  intro hall
  obtain ⟨c', hrun⟩ := (hall _ triple mixed 4 .empty reachable_triple (by decide +kernel)).2
    ⟨by decide +kernel, fun i hlo hhi => absurd hhi (Nat.not_lt.2 hlo)⟩
  have hrefused : ((writeData mixed 4 .empty).outcome triple).isOk = false := by decide +kernel
  rw [Action.outcome_of_ok hrun] at hrefused
  exact absurd hrefused (by decide)

end Collector

end GenerationalHeap
