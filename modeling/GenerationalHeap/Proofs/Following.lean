/-
Objects and the notes of them.

* `Chronicle.Located` — every object has one number, by which it is found.
* `Chronicle.Faithful` — headers, table and queue are as the notes tell.
* `Chronicle.Later` — what becomes of the objects in the course of a turn.
* `Chronicle.Faithful.of_collected`, `Chronicle.Faithful.of_adds` — collections and new objects.
* `Chronicle.Faithful.allocateObject` — allocations, with the collections that they start.
-/
import GenerationalHeap.Proofs.Callbacks
import GenerationalHeap.Proofs.Chronicle

namespace GenerationalHeap

namespace Chronicle

variable {κ : Type} {w w' w'' : Chronicle κ} {c : Collector κ TypeRegistry} {target : Target}
  {o p : Nat} {a b : Address}

/-! ### Places -/

theorem place_eq_some_iff : w.place o = some a ↔ w.places[o]? = some (some a) :=
  Option.join_eq_some_iff

theorem lt_of_place (h : w.place o = some a) : o < w.places.length :=
  (List.getElem?_eq_some_iff.1 (place_eq_some_iff.1 h)).1

/-- The places of a chronicle are those of the objects. -/
structure Located (w : Chronicle κ) : Prop where
  mem : ∀ {o a}, w.place o = some a → a ∈ w.collector.heap.objects
  known : ∀ {a}, a ∈ w.collector.heap.objects → ∃ o, w.place o = some a
  apart : ∀ {o p a}, w.place o = some a → w.place p = some a → o = p

namespace Located

variable (hw : w.Located)
include hw

/-- An object is found by its number. -/
theorem place_number (ha : a ∈ w.collector.heap.objects) : w.place (w.number a) = some a := by
  obtain ⟨o, ho⟩ := hw.known ha
  have hmem : some a ∈ w.places := List.mem_iff_getElem?.2 ⟨o, place_eq_some_iff.1 ho⟩
  exact place_eq_some_iff.2 (List.getElem?_idxOf hmem)

theorem number_eq (h : w.place o = some a) : w.number a = o :=
  hw.apart (hw.place_number (hw.mem h)) h

theorem number_lt (ha : a ∈ w.collector.heap.objects) : w.number a < w.places.length :=
  lt_of_place (hw.place_number ha)

theorem eq_of_place (h : w.place o = some a) : a = b ↔ o = w.number b := by
  constructor
  · rintro rfl
    exact (hw.number_eq h).symm
  · rintro rfl
    by_contra hne
    have hb : w.places.idxOf (some b) < w.places.length := lt_of_place h
    have hplace : w.places[w.places.idxOf (some b)]? = some (some b) :=
      List.getElem?_idxOf (List.idxOf_lt_length_iff.1 hb)
    have hself : w.places[w.places.idxOf (some b)]? = some (some a) := place_eq_some_iff.1 h
    rw [hplace] at hself
    exact hne (Option.some.inj (Option.some.inj hself)).symm

end Located

theorem Located.of_objects (hw : w.Located) (hplaces : w'.places = w.places)
    (hobjects : w'.collector.heap.objects = w.collector.heap.objects) : w'.Located := by
  have hplace : ∀ o, w'.place o = w.place o := fun o => by rw [place, place, hplaces]
  refine ⟨?_, ?_, ?_⟩
  · intro o a ho
    rw [hplace] at ho
    rw [hobjects]
    exact hw.mem ho
  · intro a ha
    rw [hobjects] at ha
    simp only [hplace]
    exact hw.known ha
  · intro o p a ho hp
    rw [hplace] at ho hp
    exact hw.apart ho hp

/-! ### What the notes tell -/

/-- The queue is as the turn wants it. -/
structure InTurn (w : Chronicle κ) : Prop where
  /-- No object waits twice. -/
  nodup : w.collector.queue.objects.Nodup
  between : w.stage = .between ↔ w.collector.queue.inFlight = none
  /-- A callback runs only while it is the turn of its own object. -/
  job : ∀ o callback, w.stage = .begun (some (o, callback)) →
    ∃ a, w.place o = some a ∧ w.collector.queue.inFlight = some a

/-- Headers, table and queue are as the notes tell. -/
structure Faithful (w : Chronicle κ) : Prop extends w.Located, w.InTurn where
  steady : w.collector.Steady
  orderly : w.notes.Orderly
  noted : ∀ n ∈ w.notes, n.object < w.places.length
  /-- The callback in the slot of an object is the one that was registered for it. -/
  standing : ∀ o a, w.place o = some a → (w.collector.heap.header a).slot ≠ 0 →
    w.collector.callbacks.get? (w.collector.heap.header a).slot.toNat = w.notes.standing o
  /-- An object that awaits finalization and is not enqueued is armed. -/
  owed : ∀ o a, w.place o = some a →
    (w.collector.heap.header a).needsFinalization = true → a ∉ w.collector.queue.objects →
      w.notes.armed o = true
  /-- So is the object whose turn it is, if it was given a callback meanwhile. -/
  rearmed : ∀ o a, w.place o = some a → w.stage.isBegun = true →
    w.collector.queue.inFlight = some a → (w.collector.heap.header a).slot ≠ 0 →
      w.notes.armed o = true

theorem Faithful.mem_of_queue (hw : w.Faithful) (ha : a ∈ w.collector.queue.objects) :
    a ∈ w.collector.heap.objects :=
  hw.steady.queue a ha

/-- What becomes of the objects in the course of a turn: those that await finalization and those
that wait are not lost, and the notes tell who is new to the queue. -/
structure Later (w w' : Chronicle κ) : Prop where
  awaiting : ∀ o a, w.place o = some a →
    (w.collector.heap.header a).needsFinalization = true →
      ∃ b, w'.place o = some b ∧ (w'.collector.heap.header b).needsFinalization = true
  queued : ∀ o a, w.place o = some a → a ∈ w.collector.queue.objects →
    ∃ b, w'.place o = some b ∧ b ∈ w'.collector.queue.objects
  inFlight : ∀ o a, w.place o = some a → w.collector.queue.inFlight = some a →
    ∃ b, w'.place o = some b ∧ w'.collector.queue.inFlight = some b
  notes : ∃ l, w'.notes = l ++ w.notes ∧
    (∀ o a, w.place o = some a → a ∈ w.collector.queue.objects → .enqueued o ∉ l) ∧
    ∀ o b, w'.place o = some b → b ∈ w'.collector.queue.objects →
      .enqueued o ∈ l ∨ ∃ a, w.place o = some a ∧ a ∈ w.collector.queue.objects

namespace Later

theorem refl (w : Chronicle κ) : w.Later w where
  awaiting _ a ho hneeds := ⟨a, ho, hneeds⟩
  queued _ a ho ha := ⟨a, ho, ha⟩
  inFlight _ a ho ha := ⟨a, ho, ha⟩
  notes := ⟨[], rfl, fun _ _ _ _ => List.not_mem_nil, fun _ b ho hb => Or.inr ⟨b, ho, hb⟩⟩

theorem trans (h : w.Later w') (h' : w'.Later w'') : w.Later w'' where
  awaiting o a ho hneeds := by
    obtain ⟨b, hb, hneeds'⟩ := h.awaiting o a ho hneeds
    exact h'.awaiting o b hb hneeds'
  queued o a ho ha := by
    obtain ⟨b, hb, hqueue⟩ := h.queued o a ho ha
    exact h'.queued o b hb hqueue
  inFlight o a ho ha := by
    obtain ⟨b, hb, hflight⟩ := h.inFlight o a ho ha
    exact h'.inFlight o b hb hflight
  notes := by
    obtain ⟨l, hl, hno, hnew⟩ := h.notes
    obtain ⟨l', hl', hno', hnew'⟩ := h'.notes
    refine ⟨l' ++ l, by rw [hl', hl, List.append_assoc], ?_, ?_⟩
    · intro o a ho ha hin
      rcases List.mem_append.1 hin with hin | hin
      · obtain ⟨b, hb, hqueue⟩ := h.queued o a ho ha
        exact hno' o b hb hqueue hin
      · exact hno o a ho ha hin
    · intro o c ho hc
      rcases hnew' o c ho hc with hin | ⟨b, ho, hb⟩
      · exact Or.inl (List.mem_append_left l hin)
      · exact (hnew o b ho hb).imp_left (List.mem_append_right l')

end Later

/-! ### Quiet changes -/

theorem Faithful.of_quiet (hw : w.Faithful) (hq : Collector.Quiet w.collector c)
    (hc : c.Steady) : (w.withCollector c).Faithful := by
  -- what is quiet changes no header, so the notes need not tell anything new
  have hheader : ∀ {o a}, w.place o = some a → c.heap.header a = w.collector.heap.header a :=
    fun ho => hq.header _ (hw.mem ho)
  exact
    { toLocated := hw.toLocated.of_objects rfl hq.objects
      steady := hc
      nodup := (congrArg List.Nodup hq.queue).mpr hw.nodup
      between := hw.between.trans (by rw [← hq.inFlight]; rfl)
      job := fun o callback hstage => by
        obtain ⟨a, ho, hflight⟩ := hw.job o callback hstage
        exact ⟨a, ho, hq.inFlight.trans hflight⟩
      orderly := hw.orderly
      noted := hw.noted
      standing := fun o a ho hz => by
        show c.callbacks.get? (c.heap.header a).slot.toNat = w.notes.standing o
        change (c.heap.header a).slot ≠ 0 at hz
        rw [hheader ho] at hz ⊢
        rw [hq.callbacks]
        exact hw.standing o a ho hz
      owed := fun o a ho hneeds hout => by
        change (c.heap.header a).needsFinalization = true at hneeds
        change a ∉ c.queue.objects at hout
        rw [hheader ho] at hneeds
        rw [hq.queue] at hout
        exact hw.owed o a ho hneeds hout
      rearmed := fun o a ho hbegun hflight hz => by
        change (c.heap.header a).slot ≠ 0 at hz
        rw [hheader ho] at hz
        exact hw.rearmed o a ho hbegun (hq.inFlight.symm.trans hflight) hz }

theorem Faithful.later_of_quiet (hw : w.Faithful) (hq : Collector.Quiet w.collector c) :
    w.Later (w.withCollector c) where
  awaiting o a ho hneeds := by
    refine ⟨a, ho, ?_⟩
    show (c.heap.header a).needsFinalization = true
    rw [hq.header a (hw.mem ho)]
    exact hneeds
  queued o a ho ha := ⟨a, ho, (congrArg (a ∈ ·) hq.queue).mpr ha⟩
  inFlight o a ho ha := ⟨a, ho, hq.inFlight.trans ha⟩
  notes := ⟨[], rfl, fun _ _ _ _ => List.not_mem_nil, fun _ b ho hb =>
    Or.inr ⟨b, ho, (congrArg (b ∈ ·) hq.queue).mp hb⟩⟩

/-! ### Collections -/

section Collected

open Collector (Collected)

variable {F : Address → Address} {dying : List Address}

theorem place_follow (w : Chronicle κ) (c : Collector κ TypeRegistry) (o : Nat) :
    (w.follow target c).place o = (w.place o).bind (w.collector.placeAfter target) := by
  rw [place, place, follow, List.getElem?_map]
  cases w.places[o]? <;> rfl

/-- A collection that has succeeded is followed. -/
theorem places_of_collectFor {reason : Reason} {report : Report}
    (hrun : Chronicle.collectFor target reason w = .ok report w') :
    Collector.collectFor target reason w.collector = .ok report w'.collector ∧
      w'.places = (w.follow target w'.collector).places := by
  rw [Chronicle.collectFor] at hrun
  cases hcollect : Collector.collectFor target reason w.collector with
  | error e c =>
    rw [hcollect] at hrun
    exact absurd hrun (by simp)
  | ok report' c =>
    rw [hcollect] at hrun
    obtain ⟨rfl, rfl⟩ := EStateM.Result.ok.inj hrun
    exact ⟨rfl, rfl⟩

/-- A collection takes the numbers of the survivors along, and no other ones. -/
theorem place_follow_iff (hw : w.Faithful) (hcol : Collected target F dying w.collector c) :
    (w.follow target c).place o = some b ↔ ∃ a, w.place o = some a ∧
      w.collector.heap.Survives w.collector.types target w.collector.rootObjects a ∧ F a = b := by
  rw [place_follow, Option.bind_eq_some_iff]
  refine exists_congr fun a => and_congr_right fun ho => ?_
  rw [hcol.followed a (hw.mem ho)]
  split
  · rename_i hs
    rw [Option.some_inj]
    exact (and_iff_right hs).symm
  · rename_i hs
    exact iff_of_false (by simp) fun h => hs h.1

theorem Located.follow (hw : w.Faithful) (hcol : Collected target F dying w.collector c) :
    (w.follow target c).Located where
  mem ho := by
    obtain ⟨a, -, hs, rfl⟩ := (place_follow_iff hw hcol).1 ho
    exact hcol.moves.mem_objects hs
  known hb := by
    obtain ⟨a, hs, rfl⟩ := (hcol.moves.mem _).1 hb
    obtain ⟨o, ho⟩ := hw.known hs.1
    exact ⟨o, (place_follow_iff hw hcol).2 ⟨a, ho, hs, rfl⟩⟩
  apart ho hp := by
    obtain ⟨a, hoa, hs, rfl⟩ := (place_follow_iff hw hcol).1 ho
    obtain ⟨b, hpb, hs', hab⟩ := (place_follow_iff hw hcol).1 hp
    obtain rfl := hcol.moves.inj b a hs' hs hab
    exact hw.apart hoa hpb

/-- The objects of the queue after a collection: those that were in it, and the dying ones. -/
theorem mem_queue_of_collected (hcol : Collected target F dying w.collector c) :
    b ∈ c.queue.objects ↔ ∃ a, (a ∈ w.collector.queue.objects ∨ a ∈ dying) ∧ F a = b := by
  simp only [FinalizationQueue.mem_objects, hcol.pending, hcol.inFlight, List.mem_append,
    List.mem_map, Option.map_eq_some_iff]
  constructor
  · rintro ((⟨a, ha, rfl⟩ | ⟨a, ha, rfl⟩) | ⟨a, ha, rfl⟩)
    · exact ⟨a, Or.inl (Or.inl ha), rfl⟩
    · exact ⟨a, Or.inr ha, rfl⟩
    · exact ⟨a, Or.inl (Or.inr ha), rfl⟩
  · rintro ⟨a, (ha | ha) | ha, rfl⟩
    · exact Or.inl (Or.inl ⟨a, ha, rfl⟩)
    · exact Or.inr ⟨a, ha, rfl⟩
    · exact Or.inl (Or.inr ⟨a, ha, rfl⟩)

/-- The notes of a collection are about the dying objects, by their old numbers. -/
theorem noteEnqueued_follow (hw : w.Faithful) (hcol : Collected target F dying w.collector c) :
    (w.follow target c).noteEnqueued (dying.map F) =
      { w.follow target c with notes := (dying.map w.number).map .enqueued ++ w.notes } := by
  have hnumber : ∀ a ∈ dying, (w.follow target c).number (F a) = w.number a := by
    intro a ha
    have hs := hcol.survives_of_dying ha
    exact (Located.follow hw hcol).number_eq
      ((place_follow_iff hw hcol).2 ⟨a, hw.place_number hs.1, hs, rfl⟩)
  rw [noteEnqueued, List.map_map, List.map_map]
  congr 2
  exact List.map_congr_left fun a ha => congrArg Note.enqueued (hnumber a ha)

/-- Objects that are not dying are as armed as they were. -/
theorem armed_of_not_dying (hw : w.Faithful) (ho : w.place o = some a) (hnot : a ∉ dying) :
    Notes.armed o ((dying.map w.number).map .enqueued ++ w.notes) = w.notes.armed o := by
  refine Notes.armed_append fun n hn => ?_
  obtain ⟨p, hp, rfl⟩ := List.mem_map.1 hn
  obtain ⟨b, hb, rfl⟩ := List.mem_map.1 hp
  refine ⟨rfl, ?_⟩
  show (w.number b == o) = false
  rw [beq_eq_false_iff_ne]
  intro heq
  exact hnot ((hw.eq_of_place ho).2 heq.symm ▸ hb)

/-- The dying objects are armed, so they may be enqueued. -/
theorem orderly_of_dying (hw : w.Faithful) (hcol : Collected target F dying w.collector c) :
    Notes.Orderly ((dying.map w.number).map .enqueued ++ w.notes) := by
  refine hw.orderly.enqueue ?_ ?_
  · refine List.Nodup.map_on ?_ hcol.nodup_of_dying
    intro x hx y hy hxy
    exact (hw.eq_of_place (hw.place_number (hcol.survives_of_dying hx).1)).2 hxy
  · intro o ho
    obtain ⟨a, ha, rfl⟩ := List.mem_map.1 ho
    have hdying := (hcol.mem_dying a).1 ha
    exact hw.owed _ a (hw.place_number hdying.1) hdying.2.2.2 (hcol.not_mem_queue_of_dying ha)

section

variable (hall : ∀ a ∈ w.collector.rootObjects, a ∈ w.collector.heap.objects)
  (hw : w.Faithful) (hcol : Collected target F dying w.collector c)
include hall hw hcol

/-- A turn that is under way is still that of the same object. -/
theorem InTurn.follow : (w.follow target c).InTurn where
  nodup := hcol.nodup_queue hall hw.nodup
  between := by
    show w.stage = .between ↔ c.queue.inFlight = none
    rw [hcol.inFlight, Option.map_eq_none_iff]
    exact hw.between
  job o callback hstage := by
    obtain ⟨a, ho, ha⟩ := hw.job o callback hstage
    have hqueue := FinalizationQueue.mem_objects_of_inFlight ha
    exact ⟨F a, (place_follow_iff hw hcol).2
        ⟨a, ho, Collector.survives_of_queue hall hqueue, rfl⟩,
      hcol.inFlight.trans (congrArg (Option.map F) ha)⟩

/-- A collection keeps a chronicle faithful. -/
theorem Faithful.of_collected (hc : c.Steady) :
    ((w.follow target c).noteEnqueued (dying.map F)).Faithful := by
  have hidentity : ∀ {a}, w.collector.heap.Survives w.collector.types target
      w.collector.rootObjects a →
      (c.heap.header (F a)).identity = (w.collector.heap.header a).identity :=
    fun hs => hcol.moves.identity _ hs
  have hslot : ∀ {a}, w.collector.heap.Survives w.collector.types target
      w.collector.rootObjects a →
      (c.heap.header (F a)).slot = (w.collector.heap.header a).slot :=
    fun hs => congrArg Header.Identity.slot (hidentity hs)
  obtain ⟨hnodup, hbetween, hjob⟩ := InTurn.follow hall hw hcol
  rw [noteEnqueued_follow hw hcol]
  refine
    { toLocated := (Located.follow hw hcol).of_objects rfl rfl
      steady := hc
      nodup := hnodup
      between := hbetween
      job := hjob
      orderly := orderly_of_dying hw hcol
      noted := ?_
      standing := ?_
      owed := ?_
      rearmed := ?_ }
  · intro n hn
    show n.object < (w.places.map _).length
    rw [List.length_map]
    rcases List.mem_append.1 hn with hn | hn
    · obtain ⟨o, ho, rfl⟩ := List.mem_map.1 hn
      obtain ⟨a, ha, rfl⟩ := List.mem_map.1 ho
      exact hw.number_lt (hcol.survives_of_dying ha).1
    · exact hw.noted n hn
  · intro o b hb hz
    obtain ⟨a, ho, hs, rfl⟩ := (place_follow_iff hw hcol).1 hb
    show c.callbacks.get? (c.heap.header (F a)).slot.toNat = _
    change (c.heap.header (F a)).slot ≠ 0 at hz
    rw [hslot hs] at hz ⊢
    rw [hcol.callbacks_eq hw.steady.toSlotted, Notes.standing_append]
    · exact hw.standing o a ho hz
    · intro n hn
      obtain ⟨p, -, rfl⟩ := List.mem_map.1 hn
      rfl
  · -- a dying object is in the queue now, so this one is not dying
    intro o b hb hneeds hout
    obtain ⟨a, ho, hs, rfl⟩ := (place_follow_iff hw hcol).1 hb
    change F a ∉ c.queue.objects at hout
    rw [mem_queue_of_collected hcol] at hout
    have hnot : a ∉ dying := fun ha => hout ⟨a, Or.inr ha, rfl⟩
    show Notes.armed o ((dying.map w.number).map .enqueued ++ w.notes) = true
    rw [armed_of_not_dying hw ho hnot]
    refine hw.owed o a ho ?_ fun ha => hout ⟨a, Or.inl ha, rfl⟩
    rw [← Header.needsFinalization_congr (hidentity hs)]
    exact hneeds
  · -- the object in flight is a root, so it is not dying either
    intro o b hb hbegun hin hz
    obtain ⟨a, ho, hs, rfl⟩ := (place_follow_iff hw hcol).1 hb
    change c.queue.inFlight = some (F a) at hin
    rw [hcol.inFlight] at hin
    obtain ⟨a', ha', heq⟩ := Option.map_eq_some_iff.1 hin
    have hqueue := FinalizationQueue.mem_objects_of_inFlight ha'
    obtain rfl := hcol.moves.inj a' a (Collector.survives_of_queue hall hqueue) hs heq
    change (c.heap.header (F a')).slot ≠ 0 at hz
    rw [hslot hs] at hz
    show Notes.armed o ((dying.map w.number).map .enqueued ++ w.notes) = true
    rw [armed_of_not_dying hw ho fun ha => hcol.not_mem_queue_of_dying ha hqueue]
    exact hw.rearmed o a' ho hbegun ha' hz

/-- A collection neither loses objects that await finalization or wait, nor enqueues those that
wait already. -/
theorem Faithful.later_of_collected :
    w.Later ((w.follow target c).noteEnqueued (dying.map F)) := by
  have hplace : ∀ {o a}, w.place o = some a →
      w.collector.heap.Survives w.collector.types target w.collector.rootObjects a →
      (w.follow target c).place o = some (F a) := fun ho hs =>
    (place_follow_iff hw hcol).2 ⟨_, ho, hs, rfl⟩
  rw [noteEnqueued_follow hw hcol]
  refine ⟨?_, ?_, ?_, ?_⟩
  · intro o a ho hneeds
    have hs : w.collector.heap.Survives w.collector.types target w.collector.rootObjects a :=
      Collector.survives_of_needsFinalization (hw.mem ho) hneeds
    refine ⟨F a, hplace ho hs, ?_⟩
    show (c.heap.header (F a)).needsFinalization = true
    rw [Header.needsFinalization_congr (hcol.moves.identity a hs)]
    exact hneeds
  · intro o a ho ha
    exact ⟨F a, hplace ho (Collector.survives_of_queue hall ha),
      (mem_queue_of_collected hcol).2 ⟨a, Or.inl ha, rfl⟩⟩
  · intro o a ho ha
    have hqueue := FinalizationQueue.mem_objects_of_inFlight ha
    refine ⟨F a, hplace ho (Collector.survives_of_queue hall hqueue), ?_⟩
    show c.queue.inFlight = some (F a)
    rw [hcol.inFlight, ha]
    rfl
  · refine ⟨_, rfl, ?_, ?_⟩
    · intro o a ho ha hin
      obtain ⟨p, hp, heq⟩ := List.mem_map.1 hin
      obtain ⟨b, hb, rfl⟩ := List.mem_map.1 hp
      obtain rfl : a = b := (hw.eq_of_place ho).2 (Note.enqueued.inj heq).symm
      exact hcol.not_mem_queue_of_dying hb ha
    · intro o b hb hin
      obtain ⟨a, ho, hs, rfl⟩ := (place_follow_iff hw hcol).1 hb
      obtain ⟨a', ha', heq⟩ := (mem_queue_of_collected hcol).1 hin
      have hs' : w.collector.heap.Survives w.collector.types target w.collector.rootObjects a' :=
        ha'.elim (Collector.survives_of_queue hall) hcol.survives_of_dying
      obtain rfl := hcol.moves.inj a' a hs' hs heq
      -- it was in the queue before, or it is dying and noted
      rcases ha' with ha' | ha'
      · exact Or.inr ⟨a', ho, ha'⟩
      · exact Or.inl (List.mem_map_of_mem (hw.number_eq ho ▸ List.mem_map_of_mem ha'))

end

end Collected

/-- Whether it fails or not, a collection keeps a chronicle faithful, and does no harm to the
objects that await finalization or wait. -/
theorem Faithful.collectFor (hw : w.Faithful) (target : Target) (reason : Reason) :
    ((Chronicle.collectFor target reason).final w).Faithful ∧
      w.Later ((Chronicle.collectFor target reason).final w) := by
  have hc := hw.steady.collectFor target reason
  rw [Action.final, Chronicle.collectFor]
  cases hrun : Collector.collectFor target reason w.collector with
  | ok report c =>
    rw [Action.final_of_ok hrun] at hc
    obtain ⟨F, dying, hall, hcol⟩ := hw.steady.collected_of_ok hrun
    have hnew : c.queue.pending.drop w.collector.queue.pending.length = dying.map F := by
      rw [hcol.pending]
      exact List.drop_left' (List.length_map F)
    dsimp only
    rw [hnew]
    exact ⟨hw.of_collected hall hcol hc, hw.later_of_collected hall hcol⟩
  | error e c =>
    rw [Action.final_of_error hrun] at hc
    have hquiet := hw.steady.quiet_of_error hw.steady.toAtRest hrun
    exact ⟨hw.of_quiet hquiet hc, hw.later_of_quiet hquiet⟩

/-! ### Allocations -/

/-- A new object gets the next number. -/
theorem place_born (w : Chronicle κ) (c : Collector κ TypeRegistry) (a : Address)
    (hasFinalizer : Bool) (o : Nat) :
    ((w.withCollector c).born a hasFinalizer).place o =
      if o = w.places.length then some a else w.place o := by
  show (w.places ++ [some a])[o]?.join = _
  split
  · rename_i heq
    rw [heq, List.getElem?_append_right (Nat.le_refl _), Nat.sub_self]
    rfl
  · rename_i hne
    rw [place]
    rcases Nat.lt_or_gt_of_ne hne with hlt | hgt
    · rw [List.getElem?_append_left hlt]
    · rw [List.getElem?_eq_none (by rw [List.length_append]; exact hgt),
        List.getElem?_eq_none (Nat.le_of_lt hgt)]

theorem place_born_of_place (ho : w.place o = some b) (c : Collector κ TypeRegistry) (a : Address)
    (hasFinalizer : Bool) : ((w.withCollector c).born a hasFinalizer).place o = some b := by
  rw [place_born, if_neg (Nat.ne_of_lt (lt_of_place ho)), ho]

section Adds

variable {new : Header} (hw : w.Faithful) (hadd : Heap.Adds a new w.collector.heap c.heap)
include hw

include hadd in
theorem Located.born (hasFinalizer : Bool) :
    ((w.withCollector c).born a hasFinalizer).Located where
  mem {o b} ho := by
    rw [place_born] at ho
    refine (hadd.mem b).2 ?_
    split at ho
    · exact Or.inr (Option.some.inj ho).symm
    · exact Or.inl (hw.mem ho)
  known {b} hb := by
    rcases (hadd.mem b).1 hb with hb | rfl
    · obtain ⟨o, ho⟩ := hw.known hb
      exact ⟨o, place_born_of_place ho _ _ _⟩
    · exact ⟨w.places.length, by rw [place_born, if_pos rfl]⟩
  apart {o p b} ho hp := by
    rw [place_born] at ho hp
    split at ho <;> split at hp
    · rename_i hlen hlen'
      exact hlen.trans hlen'.symm
    · obtain rfl := Option.some.inj ho
      exact absurd (hw.mem hp) hadd.fresh
    · obtain rfl := Option.some.inj hp
      exact absurd (hw.mem ho) hadd.fresh
    · exact hw.apart ho hp

theorem InTurn.born (hqueue : c.queue = w.collector.queue) (hasFinalizer : Bool) :
    ((w.withCollector c).born a hasFinalizer).InTurn where
  nodup := (congrArg (·.objects.Nodup) hqueue).mpr hw.nodup
  between := hw.between.trans (by rw [← hqueue]; rfl)
  job o callback hstage := by
    obtain ⟨b, ho, hb⟩ := hw.job o callback hstage
    exact ⟨b, place_born_of_place ho _ _ _, (congrArg (·.inFlight) hqueue).trans hb⟩

include hadd

/-- A new object keeps a chronicle faithful. -/
theorem Faithful.of_adds (hslot : new.slot = 0) (hc : c.Steady)
    (hqueue : c.queue = w.collector.queue) (hcallbacks : c.callbacks = w.collector.callbacks) :
    ((w.withCollector c).born a new.needsFinalization).Faithful := by
  have hheader : ∀ {o b}, w.place o = some b → c.heap.header b = w.collector.heap.header b :=
    fun ho => hadd.header hw.steady.heap.wellFormed (hw.mem ho)
  have harmed : ∀ o, Notes.armed o (.born w.places.length new.needsFinalization :: w.notes) =
      ((w.places.length == o && new.needsFinalization) || w.notes.armed o) := fun _ => rfl
  refine
    { toLocated := Located.born hw hadd _
      toInTurn := InTurn.born hw hqueue _
      steady := hc
      orderly := ⟨hw.noted, hw.orderly⟩
      noted := ?_
      standing := ?_
      owed := ?_
      rearmed := ?_ }
  · intro n hn
    show n.object < (w.places ++ [some a]).length
    rw [List.length_append]
    rcases List.mem_cons.1 hn with rfl | hn
    · exact Nat.lt_succ_self w.places.length
    · exact Nat.lt_succ_of_lt (hw.noted n hn)
  · intro o b ho hz
    show c.callbacks.get? (c.heap.header b).slot.toNat = w.notes.standing o
    change (c.heap.header b).slot ≠ 0 at hz
    rw [place_born] at ho
    split at ho
    · obtain rfl := Option.some.inj ho
      rw [hadd.header_new] at hz
      exact absurd hslot hz
    · rw [hheader ho] at hz ⊢
      rw [hcallbacks]
      exact hw.standing o b ho hz
  · intro o b ho hneeds hout
    change (c.heap.header b).needsFinalization = true at hneeds
    change b ∉ c.queue.objects at hout
    refine (harmed o).trans ?_
    rw [place_born] at ho
    split at ho
    · rename_i hlen
      obtain rfl := Option.some.inj ho
      rw [hadd.header_new] at hneeds
      rw [hlen, hneeds, BEq.rfl]
      rfl
    · rw [hheader ho] at hneeds
      rw [hqueue] at hout
      rw [hw.owed o b ho hneeds hout, Bool.or_true]
  · intro o b ho hbegun hb hz
    change c.queue.inFlight = some b at hb
    change (c.heap.header b).slot ≠ 0 at hz
    refine (harmed o).trans ?_
    rw [place_born] at ho
    split at ho
    · obtain rfl := Option.some.inj ho
      rw [hadd.header_new] at hz
      exact absurd hslot hz
    · rw [hheader ho] at hz
      rw [hqueue] at hb
      rw [hw.rearmed o b ho hbegun hb hz, Bool.or_true]

theorem Faithful.later_of_adds (hqueue : c.queue = w.collector.queue) (hasFinalizer : Bool) :
    w.Later ((w.withCollector c).born a hasFinalizer) where
  awaiting o b ho hneeds := by
    refine ⟨b, place_born_of_place ho _ _ _, ?_⟩
    show (c.heap.header b).needsFinalization = true
    rw [hadd.header hw.steady.heap.wellFormed (hw.mem ho)]
    exact hneeds
  queued o b ho hb :=
    ⟨b, place_born_of_place ho _ _ _, (congrArg (b ∈ ·.objects) hqueue).mpr hb⟩
  inFlight o b ho hb :=
    ⟨b, place_born_of_place ho _ _ _, (congrArg (·.inFlight) hqueue).trans hb⟩
  notes := by
    refine ⟨[.born _ _], rfl, fun _ _ _ _ => by simp, ?_⟩
    intro o b ho hb
    change b ∈ c.queue.objects at hb
    rw [hqueue] at hb
    rw [place_born] at ho
    split at ho
    · obtain rfl := Option.some.inj ho
      exact absurd (hw.mem_of_queue hb) hadd.fresh
    · exact Or.inr ⟨b, ho, hb⟩

end Adds

section Allocate

variable {r : Request}

/-- What holds on every rung of the ladder of an allocation that starts from `w`. -/
structure Climbs (r : Request) (w w' : Chronicle κ) : Prop extends w'.Faithful where
  later : w.Later w'
  prepared : r.Prepared w'.collector.types

/-- What holds when the object is placed. -/
def Places (r : Request) (w : Chronicle κ) (a : Address) (w' : Chronicle κ) : Prop :=
  ∃ v heap, Climbs r w v ∧ w' = v.withCollector { v.collector with heap } ∧
    Heap.Adds a r.header v.collector.heap heap ∧ Collector.Steady { v.collector with heap }

theorem Climbs.of_quiet (hw' : Climbs r w w') (hq : Collector.Quiet w'.collector c) (hc : c.Steady)
    (ht : c.types = w'.collector.types) : Climbs r w (w'.withCollector c) where
  toFaithful := hw'.toFaithful.of_quiet hq hc
  later := hw'.later.trans (hw'.later_of_quiet hq)
  prepared := by
    show r.Prepared c.types
    rw [ht]
    exact hw'.prepared

theorem Climbs.of_tables (hw' : Climbs r w w') (hs : Collector.SameTables w'.collector c)
    (hheap : c.heap = w'.collector.heap) (hq : Collector.Quiet w'.collector c) :
    Climbs r w (w'.withCollector c) :=
  hw'.of_quiet hq (hw'.steady.of_tables hs hheap hq) hs.types

/-- The object that is placed gets a number. -/
theorem Places.born (h : Places r w a w') (statistics : Statistics) :
    ((w'.withCollector { w'.collector with statistics }).born a
        r.header.needsFinalization).Faithful ∧
      w.Later ((w'.withCollector { w'.collector with statistics }).born a
        r.header.needsFinalization) := by
  obtain ⟨v, heap, hv, rfl, hadd, hc⟩ := h
  have hcounted : Collector.Steady { v.collector with heap, statistics } :=
    hc.of_tables ⟨rfl, rfl, rfl, rfl, rfl, rfl, rfl⟩ rfl
      ⟨rfl, fun _ _ => rfl, rfl, rfl, rfl, rfl, rfl⟩
  have hslot : r.header.slot = 0 := Header.slot_fresh _ _ _ _
  exact ⟨hv.toFaithful.of_adds hadd hslot hcounted rfl rfl, hv.later.trans
    (hv.toFaithful.later_of_adds (c := { v.collector with heap, statistics }) hadd rfl _)⟩

theorem upholds_owner (r : Request) (w : Chronicle κ) :
    owner.Upholds r (Climbs r w) (Places r w) where
  place v hv := by
    refine (beside.ends_onHeap (hv.steady.place_ends hv.prepared)).imp ?_ ?_
    · rintro _ ⟨c, rfl, rfl⟩
      exact hv
    · rintro (_ | a) _ ⟨c, rfl, hc⟩
      · obtain rfl : c = v.collector := hc
        exact hv
      · obtain ⟨heap, rfl, hadd, hmax, hused⟩ := hc
        exact ⟨v, heap, hv, rfl, hadd, hv.steady.of_adds hv.prepared hadd hmax hused⟩
  grow v hv := by
    refine beside.ends_of_final ?_
    refine hv.of_quiet (hv.steady.quiet_growNursery r.blockSize)
      (hv.steady.growNursery hv.prepared r.blockSize) ?_
    rw [Action.final, onHeap]
    cases Heap.growNursery r.blockSize v.collector.heap <;> rfl
  grown old new v hv :=
    hv.of_tables ⟨rfl, rfl, rfl, rfl, rfl, rfl, rfl⟩ rfl
      ⟨rfl, fun _ _ => rfl, rfl, rfl, rfl, rfl, rfl⟩
  collect target reason v hv := by
    obtain ⟨hfaithful, hlater⟩ := hv.toFaithful.collectFor target reason
    refine Action.ends_of_final ?_
    rw [owner, Action.final_discard]
    refine ⟨hfaithful, hv.later.trans hlater, ?_⟩
    have htypes : ((Chronicle.collectFor target reason).final v).collector.types =
        v.collector.types := by
      rw [← (seenAs_collectFor target reason).final v]
      exact congrArg Host.types (hv.steady.toSound.host_collectFor target reason)
    rw [htypes]
    exact hv.prepared

/-- An allocation keeps a chronicle faithful, with all the collections that it starts, whether
it fails or not. -/
theorem Faithful.allocateObject (hw : w.Faithful) (typeId : TypeId) (size : Nat)
    (hasFinalizer : Bool) (build : Build) :
    ((Chronicle.allocateObject typeId size hasFinalizer build).final w).Faithful ∧
      w.Later ((Chronicle.allocateObject typeId size hasFinalizer build).final w) := by
  rw [allocateObject_eq_recorder]
  refine Recorder.final_allocateObject (R := fun w' => w'.Faithful ∧ w.Later w') ⟨hw, .refl w⟩
    fun r hr => ?_
  have hends := (upholds_owner r w).allocate w.collector.config
    ⟨hw, .refl w, Request.prepare_spec hr⟩
  refine hends.imp ?_ ?_
  · intro w' hv e
    obtain ⟨statistics, log, processLog, heq⟩ := Collector.noteFailure_eq e w'.collector
    have hkept := hv.of_tables (c := { w'.collector with statistics, log, processLog })
      ⟨rfl, rfl, rfl, rfl, rfl, rfl, rfl⟩ rfl ⟨rfl, fun _ _ => rfl, rfl, rfl, rfl, rfl, rfl⟩
    dsimp only [recorder]
    rw [heq]
    exact ⟨hkept.toFaithful, hkept.later⟩
  · intro a w' hplaced
    have hborn := hplaced.born (w'.collector.statistics.recordAllocation r.blockSize)
    rw [Request.needsFinalization_header hr] at hborn
    exact hborn

end Allocate

end Chronicle

end GenerationalHeap
