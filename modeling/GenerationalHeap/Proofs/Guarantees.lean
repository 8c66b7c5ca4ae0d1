/-
What holds of every collector that can be reached.

* `Collector.Reachable.references_lead_to_objects` — whatever a slot, a handle or the queue
  names is an object, garbage included.
* `Collector.Reachable.remembers_older_holders` — the remembered set misses no reference into
  a younger space, and is exact after a collection.
* `Collector.Reachable.collection_keeps_graph` — a collection moves the survivors with all
  that they hold.
* `Collector.Reachable.collection_keeps_what_is_held` — it keeps what is held or awaits
  finalization, and nothing else.

Each is followed by an instance, about a collector with a young object that only an older one
refers to: `Collector.pair`. `Collector.overwritten` is what becomes of it when a store is taken
for one in a slot and goes to the header of that object.
-/
import GenerationalHeap.Proofs.Runs
import Mathlib.Data.Set.Function

namespace GenerationalHeap

namespace Collector

variable {κ : Type} {config : Config} {types : TypeRegistry} {c c' : Collector κ TypeRegistry}
  {target : Target} {F : Address → Address}

/-! ### An instance -/

/-- The address of the first object in the nursery. -/
def young : Address := (Space.arena .gen0).address 0

/-- The address of the first large object. -/
def old : Address := Space.large.address 0

/-- A young object that wants finalization, a large one whose second slot refers to it, and a
root handle for the large one. -/
def pair : Collector Unit TypeRegistry :=
  [.allocate ⟨0⟩ 16 true, .allocate ⟨0⟩ 90000 false, .writeRef old 8 (some young),
    .addRoot old].foldl (fun c k => after k c)
    { config := {}
      heap := .empty (256 * 1024) (256 * 1024 * 1024)
      log := { config := logConfig {} }
      host := ⟨#[.array "row"]⟩ }

theorem reachable_pair : Reachable {} ⟨#[.array "row"]⟩ pair :=
  (Reachable.start .checked rfl).calls _

/-- The objects of `pair`, the slot that leads from one to the other, that there are no
providers, and that there is room for a third object. -/
theorem pair_spec :
    pair.heap.isObject young = true ∧ pair.heap.isObject old = true ∧
    8 ∈ pair.heap.slots pair.types old ∧ pair.heap.word old 8 = young ∧
    pair.providers.values = [] ∧ ((allocateObject ⟨0⟩ 20 true).outcome pair).isOk = true := by
  decide +kernel

theorem young_mem_pair : young ∈ pair.heap.objects :=
  (Heap.isObject_iff reachable_pair.sound.heap.wellFormed reachable_pair.sound.heap.tagged).1
    pair_spec.1

theorem old_mem_pair : old ∈ pair.heap.objects :=
  (Heap.isObject_iff reachable_pair.sound.heap.wellFormed reachable_pair.sound.heap.tagged).1
    pair_spec.2.1

theorem old_pointsTo_young : pair.heap.PointsTo pair.types old young := by
  obtain ⟨-, -, hslot, hword, -⟩ := pair_spec
  exact ⟨by decide, 8, hslot, hword⟩

theorem provided_pair :
    ∀ slots ∈ pair.providers.values, ∀ a ∈ slots.objects, a ∈ pair.heap.objects := by
  obtain ⟨-, -, -, -, hnone, -⟩ := pair_spec
  exact provided_of_no_providers hnone

theorem allocates_pair : ∃ a c', allocateObject ⟨0⟩ 20 true pair = .ok a c' := by
  obtain ⟨-, -, -, -, -, hok⟩ := pair_spec
  exact Action.exists_ok_of_isOk hok

/-- The last multiple of the slot size that is a word. The end of a slot there is none. -/
def lastOffset : Nat := 18446744073709551608

/-- What a wrapping build makes of a store there, in the young object of `pair`. -/
def overwritten : Collector Unit TypeRegistry :=
  (writeRefIn .wrapping young lastOffset (some old)).final pair

/-- The store leaves an address in the header of the young object, at offset 0 of its arena. -/
theorem overwritten_spec :
    ((writeRefIn .wrapping young lastOffset (some old)).outcome pair).isOk = true ∧
    (overwritten.heap.header young).forwarding = old ∧
    0 ∈ (overwritten.heap.arena .gen0).offsets ∧
    ((overwritten.heap.arena .gen0).header 0).forwarding = old ∧
    (overwritten.heap.memory (.arena .gen0)).byte 28 ≠
      (pair.heap.memory (.arena .gen0)).byte 28 := by
  decide +kernel

theorem writeRef_overwritten :
    ∃ u, writeRefIn .wrapping young lastOffset (some old) pair = .ok u overwritten := by
  obtain ⟨u, c', hrun⟩ := Action.exists_ok_of_isOk overwritten_spec.1
  exact ⟨u, hrun.trans (by rw [overwritten, Action.final_of_ok hrun])⟩

/-! ### References -/

/-- Whatever a slot, a handle or the queue names is an object, be its holder alive or not. -/
theorem Reachable.references_lead_to_objects (h : Reachable config types c) :
    (∀ a ∈ c.heap.objects, ∃ slots, c.heap.slotsOf c.types a = .ok slots ∧
      ∀ o ∈ slots, c.heap.word a o = 0 ∨ c.heap.word a o ∈ c.heap.objects) ∧
    (∀ id a, c.roots.get? id = some a → a ∈ c.heap.objects) ∧
    (∀ a ∈ c.queue.pending, a ∈ c.heap.objects) ∧
    (∀ a, c.queue.inFlight = some a → a ∈ c.heap.objects) ∧
    ∀ id a, c.weak.handles.get? id = some (some a) → a ∈ c.heap.objects := by
  have hc := h.sound
  refine ⟨?_, ?_, ?_, ?_, ?_⟩
  · intro a ha
    exact ⟨c.heap.slots c.types a, Heap.slotsOf_eq_ok (hc.heap.typed a ha), fun o ho =>
      hc.heap.noDangling.slot ha ho⟩
  · intro id a hid
    exact hc.roots a (HandleTable.mem_values_iff.2 ⟨id, hid⟩)
  · intro a ha
    exact hc.queue a (List.mem_append_left _ ha)
  · intro a ha
    refine hc.queue a (List.mem_append_right _ ?_)
    rw [ha]
    exact List.mem_singleton.2 rfl
  · intro id a hid
    exact hc.weak a (HandleTable.mem_values_iff.2 ⟨id, hid⟩)

/-- A slot of the large object of `pair` leads to the young one. -/
theorem references_of_pair :
    pair.heap.word old 8 = young ∧ (∃ slots, pair.heap.slotsOf pair.types old = .ok slots ∧
      ∀ o ∈ slots, pair.heap.word old o = 0 ∨ pair.heap.word old o ∈ pair.heap.objects) :=
  ⟨pair_spec.2.2.2.1, reachable_pair.references_lead_to_objects.1 old old_mem_pair⟩

/-! ### Remembered holders -/

/-- The remembered set misses no object with a reference into a younger space and holds objects
alone. After a collection it is exact. -/
theorem Reachable.remembers_older_holders (h : Reachable config types c) :
    (∀ a ∈ c.heap.objects, c.heap.HoldsYounger c.types a → a ∈ c.barrier.remembered.holders) ∧
    (∀ a ∈ c.barrier.remembered.holders, a ∈ c.heap.objects) ∧
    ∀ target reason report c', collectFor target reason c = .ok report c' →
      c'.barrier.remembered.holders.toList.Nodup ∧
        ∀ a, a ∈ c'.barrier.remembered.holders ↔
          a ∈ c'.heap.objects ∧ c'.heap.HoldsYounger c'.types a := by
  have hc := h.sound
  refine ⟨hc.complete, hc.remembered, ?_⟩
  intro target reason report c' hrun
  obtain ⟨F, dying, -, hcol⟩ := hc.collected_of_ok hrun
  exact ⟨hcol.nodup, hcol.remembered⟩

/-- The large object of `pair` holds a younger reference, so it is remembered. -/
theorem remembered_of_pair :
    pair.heap.HoldsYounger pair.types old ∧ old ∈ pair.barrier.remembered.holders := by
  have hyoung : pair.heap.HoldsYounger pair.types old := ⟨young, old_pointsTo_young, by decide⟩
  exact ⟨hyoung, reachable_pair.remembers_older_holders.1 old old_mem_pair hyoung⟩

/-! ### The graph of the objects -/

/-- The survivors of a collection lie in `c'` where `F` tells, with all that they hold. -/
structure Relocates (target : Target) (F : Address → Address) (c c' : Collector κ TypeRegistry) :
    Prop where
  bijOn : Set.BijOn F {a | c.heap.Survives c.types target c.rootObjects a}
    {b | b ∈ c'.heap.objects}
  fixed : ∀ a ∈ c.heap.objects,
    target.condemnsAddress a = false ∨ Space.ofAddress? a = some .large → F a = a
  rooted : ∀ a ∈ c.rootObjects, c.heap.Survives c.types target c.rootObjects a
  roots : c'.roots = c.roots.map F
  providers : c'.providers = c.providers.map (RootSlots.redirect F)
  inFlight : c'.queue.inFlight = c.queue.inFlight.map F
  /-- Those that were waiting stay in front of those that are resurrected. -/
  pending : ∃ resurrected : List Address,
    (∀ a ∈ resurrected, c.heap.Dying c.types target c.rootObjects a) ∧
    c'.queue.pending = c.queue.pending.map F ++ resurrected.map F
  /-- Type, payload size, finalization flags and finalizer slot. -/
  identity : ∀ a, c.heap.Survives c.types target c.rootObjects a →
    (c'.heap.header (F a)).identity = (c.heap.header a).identity
  slots : ∀ a, c.heap.Survives c.types target c.rootObjects a →
    c'.heap.slots c'.types (F a) = c.heap.slots c.types a
  null : ∀ a, c.heap.Survives c.types target c.rootObjects a → ∀ o ∈ c.heap.slots c.types a,
    c.heap.word a o = 0 → c'.heap.word (F a) o = 0
  reference : ∀ a, c.heap.Survives c.types target c.rootObjects a →
    ∀ o ∈ c.heap.slots c.types a, c.heap.word a o ≠ 0 →
      c.heap.Survives c.types target c.rootObjects (c.heap.word a o) ∧
        c'.heap.word (F a) o = F (c.heap.word a o)
  /-- The bytes outside of the reference slots. -/
  plain : ∀ a, c.heap.Survives c.types target c.rootObjects a → ∀ i, c.heap.Plain c.types a i →
    c'.heap.byte (F a) (headerSize + i) = c.heap.byte a (headerSize + i)

theorem Collected.relocates {dying : List Address} (hc : c.Sound)
    (hall : ∀ a ∈ c.rootObjects, a ∈ c.heap.objects) (h : Collected target F dying c c') :
    Relocates target F c c' where
  bijOn := by
    refine ⟨fun a ha => h.moves.mem_objects ha, fun a ha b hb hab => h.moves.inj a b ha hb hab, ?_⟩
    intro b hb
    obtain ⟨a, ha, hab⟩ := (h.moves.mem b).1 hb
    exact ⟨a, ha, hab⟩
  fixed := h.fixed
  rooted a ha := survives_of_root hall ha
  roots := h.roots
  providers := h.providers
  inFlight := h.inFlight
  pending := ⟨dying, fun a ha => (h.mem_dying a).1 ha, h.pending⟩
  identity := h.moves.identity
  slots a ha := by
    have htypes : c'.types = c.types := congrArg Host.types h.host
    rw [htypes]
    exact h.moves.slots ha
  null a ha o ho hz := by
    rw [h.moves.word a ha o ho, hz]
    exact h.moves.null
  reference a ha o ho hne :=
    ⟨ha.pointsTo hc.heap.noDangling ⟨hne, o, ho, rfl⟩, h.moves.word a ha o ho⟩
  plain := h.moves.plain

/-- A collection succeeds if the slots of the providers name objects, and a collection that
succeeds takes the survivors one to one to the objects of the new heap, with their references
and their bytes. It may be one that was asked for, or one that an allocation starts. -/
theorem Reachable.collection_keeps_graph (h : Reachable config types c) (target : Target)
    (reason : Reason) :
    ((∀ slots ∈ c.providers.values, ∀ a ∈ slots.objects, a ∈ c.heap.objects) →
      ∃ report c', collectFor target reason c = .ok report c') ∧
    ∀ report c', collectFor target reason c = .ok report c' → ∃ F, Relocates target F c c' := by
  have hc := h.sound
  refine ⟨fun hproviders => hc.collectFor_ok hproviders target reason, ?_⟩
  intro report c' hrun
  obtain ⟨F, dying, hall, hcol⟩ := hc.collected_of_ok hrun
  exact ⟨F, hcol.relocates hc hall⟩

/-- A collection of the nursery of `pair` succeeds, and the large object stays in its place. -/
theorem graph_of_pair : ∃ report c', collectFor .gen0 .explicit pair = .ok report c' ∧
    ∃ F, Relocates .gen0 F pair c' ∧ F old = old := by
  obtain ⟨hok, hmoves⟩ := reachable_pair.collection_keeps_graph .gen0 .explicit
  obtain ⟨report, c', hrun⟩ := hok provided_pair
  obtain ⟨F, hF⟩ := hmoves report c' hrun
  exact ⟨report, c', hrun, F, hF, hF.fixed old old_mem_pair (Or.inr (by decide))⟩

/-! ### What is kept -/

/-- A collection keeps what is held and what the objects that await finalization lead to, and
no other object. The remembered holders stand for all older objects. -/
theorem Reachable.collection_keeps_what_is_held (h : Reachable config types c) (target : Target)
    (reason : Reason) {report : Report} (hrun : collectFor target reason c = .ok report c') :
    (∃ (F : Address → Address) (dying : List Address),
      Heap.Moves c.types F (c.heap.Survives c.types target c.rootObjects) c.heap c'.heap ∧
      (∀ a ∈ c.heap.objects, target.condemnsAddress a = false → F a = a) ∧
      (∀ a, a ∈ dying ↔ c.heap.Dying c.types target c.rootObjects a) ∧
      dying.Pairwise (fun a b => a.toNat < b.toNat) ∧
      c'.queue.pending = c.queue.pending.map F ++ dying.map F ∧
      (target = .full → ∀ b, b ∈ c'.heap.objects ↔
        ∃ r a, (r ∈ c.rootObjects ∨ r ∈ dying) ∧ c.heap.Reaches c.types r a ∧ F a = b)) ∧
    ∃ stats h₁ stats' h₂,
      Heap.markLive c.types target c.rootObjects (c.rememberedFor target) c.heap = .ok stats h₁ ∧
      Heap.markLive c.types target c.rootObjects (c.heap.older target) c.heap = .ok stats' h₂ ∧
      ∀ a ∈ c.heap.objects, (h₁.header a).isMarked = (h₂.header a).isMarked := by
  have hc := h.sound
  obtain ⟨F, dying, hall, hcol⟩ := hc.collected_of_ok hrun
  refine ⟨⟨F, dying, hcol.moves, fun a ha hout => hcol.fixed a ha (Or.inl hout), hcol.mem_dying,
    hcol.sorted, hcol.pending, ?_⟩, ?_⟩
  · rintro rfl b
    rw [hcol.moves.mem]
    simp only [Heap.survives_full_iff hc.heap.wellFormed hc.heap.noDangling hall, ← hcol.mem_dying]
    constructor
    · rintro ⟨a, ⟨r, hr, hreach⟩, rfl⟩
      exact ⟨r, a, hr, hreach, rfl⟩
    · rintro ⟨r, a, hr, hreach, rfl⟩
      exact ⟨a, ⟨r, hr, hreach⟩, rfl⟩
  · -- either list of holders shows every reference into the collected spaces
    have hmark : ∀ holders, c.heap.Remembers c.types target holders → ∃ stats h',
        Heap.markLive c.types target c.rootObjects holders c.heap = .ok stats h' ∧
        ∀ a ∈ c.heap.objects, (h'.header a).isMarked = true ↔
          target.condemnsAddress a = true ∧ c.heap.Held c.types target c.rootObjects a := by
      intro holders hrem
      rcases Heap.markLive_spec hc.heap.toTraceable hc.heap.clean hrem with
        ⟨-, -, -, -, -, r, hr, hout⟩ | ⟨stats, h', hrun, -, -, hmarked⟩
      · exact absurd (hall r hr) hout
      · exact ⟨stats, h', hrun, hmarked⟩
    obtain ⟨stats, h₁, hrun₁, hmarked₁⟩ := hmark _
      ((hc.remembersYounger target).remembers hc.heap.wellFormed hc.heap.noDangling)
    obtain ⟨stats', h₂, hrun₂, hmarked₂⟩ := hmark _ (c.heap.remembers_older c.types target)
    refine ⟨stats, h₁, stats', h₂, hrun₁, hrun₂, ?_⟩
    intro a ha
    rw [Bool.eq_iff_iff, hmarked₁ a ha, hmarked₂ a ha]

/-- The young object of `pair` outlives a collection of the nursery, though only an older
object refers to it. -/
theorem kept_of_pair : ∃ report c', collectFor .gen0 .explicit pair = .ok report c' ∧
    ∃ F : Address → Address, F old = old ∧ F young ∈ c'.heap.objects := by
  obtain ⟨report, c', hrun⟩ := reachable_pair.sound.collectFor_ok provided_pair .gen0 .explicit
  obtain ⟨⟨F, dying, hmoves, hfixed, -⟩, -⟩ :=
    reachable_pair.collection_keeps_what_is_held .gen0 .explicit hrun
  have hout : Target.gen0.condemnsAddress old = false := by decide
  have hheld : pair.heap.Held pair.types .gen0 pair.rootObjects young :=
    ⟨old, Or.inr ⟨old_mem_pair, hout⟩, .single old_pointsTo_young⟩
  exact ⟨report, c', hrun, F, hfixed old old_mem_pair hout,
    hmoves.mem_objects ⟨young_mem_pair, Or.inr (Or.inl hheld)⟩⟩

end Collector

end GenerationalHeap
