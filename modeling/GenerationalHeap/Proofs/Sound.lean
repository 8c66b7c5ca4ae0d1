/-
What holds of a collector between any two calls.

* `Heap.Sound` — of its heap: objects lie back to back, nothing is marked or forwarded, no
  reference dangles, and the heap limit is kept.
* `Collector.Sound` — of the whole: what its tables name are objects, and every object that
  holds a younger reference is remembered.
* `Heap.Sound.of_sameLayout`, `Heap.Sound.of_types` — changes of a heap that keep it so.
* `Collector.Sound.of_heap` — a change of the heap alone.
-/
import GenerationalHeap.Proofs.Compacting
import GenerationalHeap.Proofs.Handles
import GenerationalHeap.Collector.State

namespace GenerationalHeap

/-! ### Heaps -/

/-- Two headers that differ at most in what finalization notes there. -/
structure Header.Alike (x y : Header) : Prop where
  typeId : y.typeId = x.typeId
  size : y.size = x.size
  space : y.space = x.space
  isMarked : y.isMarked = x.isMarked
  isForwarded : y.isForwarded = x.isForwarded
  forwarding : y.forwarding = x.forwarding

theorem Header.Alike.refl (x : Header) : x.Alike x := ⟨rfl, rfl, rfl, rfl, rfl, rfl⟩

namespace Heap

/-- What holds of a heap between any two calls. -/
structure Sound (h : Heap) (types : TypeSystem) : Prop extends h.Traceable types where
  clean : h.Clean
  used_le : h.usedBytes ≤ h.maxSize
  maxSize_le : h.maxSize ≤ spaceLimit

variable {h h' : Heap} {types types' : TypeSystem} {a b : Address}

/-- The blocks stay, and every slot is null or names an object. -/
theorem Sound.of_sameLayout (hs : h.Sound types) (hl : h.SameLayout h')
    (hheader : ∀ a ∈ h.objects, (h.header a).Alike (h'.header a))
    (hword : ∀ a ∈ h.objects, ∀ o ∈ h.slots types a, h'.word a o = 0 ∨ h'.word a o ∈ h.objects) :
    h'.Sound types := by
  have hw := hs.wellFormed
  have hobjects := hl.objects hw
  refine ⟨⟨hl.wellFormed hw, ?_, ?_, ?_⟩, ⟨?_, ?_, ?_⟩, ?_, ?_⟩
  · intro s a ha
    rw [hl.objectsIn hw] at ha
    rw [(hheader a (List.mem_flatMap.2 ⟨s, s.mem_all, ha⟩)).space, hs.tagged s a ha]
  · intro a ha
    rw [hobjects] at ha
    rw [(hheader a ha).typeId]
    exact hs.typed a ha
  · intro a ha b hab
    rw [hobjects] at ha ⊢
    obtain ⟨hb, o, ho, rfl⟩ := hab
    rw [slots_eq_of_type (hheader a ha).typeId (hheader a ha).size] at ho
    exact (hword a ha o ho).resolve_left hb
  · intro a ha
    rw [hobjects] at ha
    rw [(hheader a ha).isMarked, hs.clean.isMarked a ha]
  · intro a ha
    rw [hobjects] at ha
    rw [(hheader a ha).isForwarded, hs.clean.isForwarded a ha]
  · intro a ha
    rw [hobjects] at ha
    rw [(hheader a ha).forwarding, hs.clean.forwarding a ha]
  · rw [hl.usedBytes, hl.maxSize]
    exact hs.used_le
  · rw [hl.maxSize]
    exact hs.maxSize_le

/-- References are read off the slots of an object. -/
theorem pointsTo_of_words (htype : (h'.header a).typeId = (h.header a).typeId)
    (hsize : (h'.header a).size = (h.header a).size)
    (hword : ∀ o ∈ h.slots types a, h'.word a o = h.word a o) :
    h'.PointsTo types a b ↔ h.PointsTo types a b := by
  rw [PointsTo, PointsTo, slots_eq_of_type htype hsize]
  refine and_congr_right fun _ => exists_congr fun o => and_congr_right ?_
  intro ho
  rw [hword o ho]

/-- Headers change in what finalization notes there. -/
theorem Sound.of_relabels {F : Address → Header → Header} (hs : h.Sound types)
    (hr : Relabels F h h') (hF : ∀ a ∈ h.objects, (h.header a).Alike (F a (h.header a))) :
    h'.Sound types ∧ ∀ a ∈ h.objects, ∀ b, h'.PointsTo types a b ↔ h.PointsTo types a b := by
  have hheader : ∀ a ∈ h.objects, (h.header a).Alike (h'.header a) := fun a ha => by
    rw [hr.header a ha]
    exact hF a ha
  refine ⟨hs.of_sameLayout hr.layout hheader ?_, ?_⟩
  · intro a ha o ho
    rw [hr.word ha (slot_fits ho)]
    exact hs.noDangling.slot ha ho
  · intro a ha b
    exact pointsTo_of_words (hheader a ha).typeId (hheader a ha).size fun o ho =>
      hr.word ha (slot_fits ho)

/-! ### More types -/

theorem slots_of_types (ht : types' (h.header a).typeId = types (h.header a).typeId) :
    h.slots types' a = h.slots types a := by
  rw [slots, slots, ht]

theorem pointsTo_of_types (ht : types' (h.header a).typeId = types (h.header a).typeId) :
    h.PointsTo types' a b ↔ h.PointsTo types a b := by
  rw [PointsTo, PointsTo, slots_of_types ht]

/-- More types change nothing about the objects that are there. -/
theorem Sound.of_types (hs : h.Sound types)
    (ht : ∀ a ∈ h.objects, types' (h.header a).typeId = types (h.header a).typeId) :
    h.Sound types' where
  wellFormed := hs.wellFormed
  tagged := hs.tagged
  typed a ha := by
    rw [ht a ha]
    exact hs.typed a ha
  noDangling a ha b hab := hs.noDangling a ha b ((pointsTo_of_types (ht a ha)).1 hab)
  clean := hs.clean
  used_le := hs.used_le
  maxSize_le := hs.maxSize_le

end Heap

/-- A type that is registered stays as it is. -/
theorem TypeRegistry.info?_register {r : TypeRegistry} {t : TypeInfo} {id : TypeId}
    (hid : (r.info? id).isSome = true) : (r.register t).2.info? id = r.info? id := by
  obtain ⟨info, hinfo⟩ := Option.isSome_iff_exists.1 hid
  have hlt := (Array.getElem?_eq_some_iff.1 hinfo).1
  show (r.types.push t)[id.index.toNat]? = r.types[id.index.toNat]?
  rw [Array.getElem?_push, if_neg (Nat.ne_of_lt hlt)]

/-! ### Collectors -/

namespace Collector

variable {κ : Type}

/-- What holds of a collector between any two calls. -/
structure Sound (c : Collector κ TypeRegistry) : Prop where
  heap : c.heap.Sound c.types
  roots : ∀ a ∈ c.roots.values, a ∈ c.heap.objects
  queue : ∀ a ∈ c.queue.objects, a ∈ c.heap.objects
  weak : ∀ a, some a ∈ c.weak.handles.values → a ∈ c.heap.objects
  remembered : ∀ a ∈ c.barrier.remembered.holders, a ∈ c.heap.objects
  nodup : c.barrier.remembered.holders.toList.Nodup
  complete : ∀ a ∈ c.heap.objects, c.heap.HoldsYounger c.types a →
    a ∈ c.barrier.remembered.holders

variable {c c' d : Collector κ TypeRegistry}

/-- Two collectors with the same types whose tables name the same objects. -/
structure SameTables (c c' : Collector κ TypeRegistry) : Prop where
  host : c'.host = c.host
  roots : c'.roots = c.roots
  providers : c'.providers = c.providers
  pending : c'.queue.pending = c.queue.pending
  inFlight : c'.queue.inFlight = c.queue.inFlight
  weak : c'.weak = c.weak
  barrier : c'.barrier = c.barrier

namespace SameTables

variable (hs : SameTables c c')
include hs

theorem types : c'.types = c.types := congrArg Host.types hs.host

theorem queue : c'.queue.objects = c.queue.objects := by
  rw [FinalizationQueue.objects, FinalizationQueue.objects, hs.pending, hs.inFlight]

end SameTables

/-- Another heap with the same objects, of which none holds a younger reference that did
not hold one before. -/
theorem Sound.of_heap (hc : c.Sound) (hs : SameTables c c') (hheap : c'.heap.Sound c.types)
    (hobjects : c'.heap.objects = c.heap.objects)
    (hyoung : ∀ a ∈ c.heap.objects, c'.heap.HoldsYounger c.types a →
      c.heap.HoldsYounger c.types a) : c'.Sound where
  heap := hs.types ▸ hheap
  roots := by
    rw [hs.roots, hobjects]
    exact hc.roots
  queue := by
    rw [hs.queue, hobjects]
    exact hc.queue
  weak := by
    rw [hs.weak, hobjects]
    exact hc.weak
  remembered := by
    rw [hs.barrier, hobjects]
    exact hc.remembered
  nodup := by
    rw [hs.barrier]
    exact hc.nodup
  complete a ha hy := by
    rw [hobjects] at ha
    rw [hs.types] at hy
    rw [hs.barrier]
    exact hc.complete a ha (hyoung a ha hy)

theorem Sound.of_tables (hc : c.Sound) (hs : SameTables c c') (hheap : c'.heap = c.heap) :
    c'.Sound := by
  refine hc.of_heap hs (by rw [hheap]; exact hc.heap) (by rw [hheap]) ?_
  intro a _ hy
  rwa [hheap] at hy

/-- Headers change in what finalization notes there. -/
theorem Sound.of_relabels (hc : c.Sound) (hs : SameTables c c') {F : Address → Header → Header}
    (hr : Heap.Relabels F c.heap c'.heap)
    (hF : ∀ a ∈ c.heap.objects, (c.heap.header a).Alike (F a (c.heap.header a))) : c'.Sound := by
  obtain ⟨hheap, hpoints⟩ := hc.heap.of_relabels hr hF
  refine hc.of_heap hs hheap (hr.layout.objects hc.heap.wellFormed) ?_
  intro a ha hy
  obtain ⟨b, hab, hdown⟩ := hy
  exact ⟨b, (hpoints a ha b).1 hab, hdown⟩

end Collector

end GenerationalHeap
