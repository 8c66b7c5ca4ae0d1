/-
What an allocation that succeeds has done.

It has collected and grown the nursery as often as the ladder asks for, and then placed the
object in the state that it has come to. That the new object is nobody's and its payload zero is
not seen to at that time: it is what every state keeps. References, handles and the queue name
objects alone, and the bytes above the blocks are zero.

* `Collector.MakesRoom` — a collection that succeeds, or a growth of the nursery.
* `Collector.Newborn` — an object that has just been placed, compared with the state before.
* `Collector.Reachable.allocation_places_newborn` — an allocation makes room, and places a new
  object; a request that is refused does nothing at all.
-/
import GenerationalHeap.Proofs.Balance
import GenerationalHeap.Proofs.Lasting

namespace GenerationalHeap

open Relation (ReflTransGen)

namespace Header

variable (typeId : TypeId) (size : UInt32) (s : Space) (hasFinalizer : Bool)

@[simp] theorem hasFinalizer_fresh :
    (fresh typeId size s hasFinalizer).hasFinalizer = hasFinalizer :=
  flag_setFlag_self _ (by decide) hasFinalizer

@[simp] theorem isFinalized_fresh : (fresh typeId size s hasFinalizer).isFinalized = false :=
  flag_fresh typeId size s hasFinalizer (by decide) (by decide)

end Header

/-- The space in which an object is born. -/
def Config.birthplace (config : Config) (payload : Nat) : Space :=
  if payload ≤ config.largeObjectThreshold then .arena .gen0 else .large

namespace Request

variable {r : Request} {config : Config} {types : TypeSystem} {typeId : TypeId} {size : Nat}
  {hasFinalizer : Bool} {build : Build}

theorem header_of_prepare (hr : prepare config types typeId size hasFinalizer build = .ok r) :
    r.header = .fresh typeId (UInt32.ofNat r.payload) (config.birthplace r.payload)
      hasFinalizer := by
  obtain ⟨-, -, -, -, -, heq⟩ := of_prepare hr
  rw [heq, header, Config.birthplace, Config.sizeClassOf]
  by_cases hle : r.payload ≤ config.largeObjectThreshold
  · rw [if_pos hle, if_neg (Nat.not_lt.2 hle)]
  · rw [if_neg hle, if_pos (Nat.not_le.1 hle)]

/-- An object that was placed is the only new one, and its block the only one that counts. -/
theorem adds_of_place? {h h' : Heap} {a : Address} (hr : r.Prepared types) (hw : h.WellFormed)
    (hused : h.usedBytes ≤ h.maxSize) (hplace : r.place? h = .ok (some a) h') :
    Heap.Adds a r.header h h' ∧ h'.usedBytes = h.usedBytes + r.blockSize := by
  rcases place?_spec hr hw hused with ⟨e, hrun⟩ | hrun | ⟨b, heap, hrun, hadds, -⟩
  · exact absurd (hplace.symm.trans hrun) (by simp)
  · exact absurd (hplace.symm.trans hrun) (by simp)
  · obtain ⟨hab, rfl⟩ := EStateM.Result.ok.inj (hplace.symm.trans hrun)
    obtain rfl := Option.some.inj hab
    refine ⟨hadds, ?_⟩
    rw [hadds.usedBytes_eq hw, ← blockSize_eq_roomFor hr, Nat.add_comm]

end Request

namespace Collector

variable {κ : Type} {config : Config} {types : TypeRegistry} {c c' d : Collector κ TypeRegistry}
  {a : Address} {r : Request} {typeId : TypeId} {size : Nat} {hasFinalizer : Bool}

/-! ### Making room -/

/-- What an allocation does before the object is placed. -/
inductive MakesRoom : Collector κ TypeRegistry → Collector κ TypeRegistry → Prop where
  | collected {target reason report c c'} :
    collectFor target reason c = .ok report c' → MakesRoom c c'
  | grown {blockSize old new heap c} :
    Heap.growNursery blockSize c.heap = .ok (old, new) heap →
      MakesRoom c (owner.nurseryGrown old new { c with heap })

/-- A collector that an allocation has come to before the object is placed. -/
structure Roomier (r : Request) (c d : Collector κ TypeRegistry) : Prop extends Ready r d where
  steps : ReflTransGen MakesRoom c d

/-- An object has been placed in such a collector. -/
def PlacedFrom (r : Request) (c : Collector κ TypeRegistry) (a : Address)
    (c' : Collector κ TypeRegistry) : Prop :=
  ∃ d heap, Roomier r c d ∧ r.place? d.heap = .ok (some a) heap ∧ c' = { d with heap }

theorem leads_owner (r : Request) (c : Collector κ TypeRegistry) :
    owner.Leads r (Roomier r c) (fun _ => True) (PlacedFrom r c) where
  place d hd := by
    rcases Request.place?_spec hd.prepared hd.heap.wellFormed hd.heap.used_le with
      ⟨e, hrun⟩ | hrun | ⟨a, heap, hrun, -⟩
    · exact Action.ends_of_error (onHeap_of_error hrun) trivial
    · exact Action.ends_of_ok (onHeap_of_ok hrun) hd
    · exact Action.ends_of_ok (onHeap_of_ok hrun) ⟨d, heap, hd, hrun, rfl⟩
  grow d hd := by
    have hready := keeps_growNursery (κ := κ) r.blockSize d hd.toReady
    cases hrun : Heap.growNursery r.blockSize d.heap with
    | error e heap => exact Action.ends_of_error (onHeap_of_error hrun) trivial
    | ok sizes heap =>
      refine Action.ends_of_ok (onHeap_of_ok hrun) ?_
      rw [Action.final_of_ok (onHeap_of_ok hrun)] at hready
      exact { hready.toSound.of_tables ⟨rfl, rfl, rfl, rfl, rfl, rfl, rfl⟩ rfl with
        prepared := hready.prepared
        steps := hd.steps.tail (.grown hrun) }
  collect target reason d hd := by
    have hready := keeps_collect target reason d hd.toReady
    refine Action.ends_discard ?_
    cases hrun : collectFor target reason d with
    | error e d' => exact Action.ends_of_error hrun trivial
    | ok report d' =>
      rw [owner, Action.final_discard, Action.final_of_ok hrun] at hready
      exact Action.ends_of_ok hrun { hready with steps := hd.steps.tail (.collected hrun) }
  gaveUp _ _ := trivial

/-! ### The new object -/

/-- An object `a` that was placed in `d`, and is all that the heap of `c'` has got. -/
structure Newborn (config : Config) (typeId : TypeId) (payload : Nat) (hasFinalizer : Bool)
    (a : Address) (d c' : Collector κ TypeRegistry) : Prop where
  objects : ∀ b, b ∈ c'.heap.objects ↔ b ∈ d.heap.objects ∨ b = a
  fresh : a ∉ d.heap.objects
  /-- No byte of the block belongs to the block of another object. -/
  apart : ∀ b ∈ d.heap.objects, ∀ i < c'.heap.extent a, ∀ j < d.heap.extent b,
    a + UInt64.ofNat i ≠ b + UInt64.ofNat j
  root : a ∉ d.roots.values
  weak : some a ∉ d.weak.handles.values
  queue : a ∉ d.queue.objects
  slot : ∀ b ∈ d.heap.objects, ∀ o ∈ d.heap.slots d.types b, d.heap.word b o ≠ a
  remembered : a ∉ d.barrier.remembered.holders
  payloadSize : (c'.heap.header a).payloadSize = payload
  zero : ∀ i < payload, c'.heap.byte a (headerSize + i) = 0
  typeId : (c'.heap.header a).typeId = typeId
  hasFinalizer : (c'.heap.header a).hasFinalizer = hasFinalizer
  unmarked : (c'.heap.header a).isMarked = false
  unforwarded : (c'.heap.header a).isForwarded = false
  notFinalized : (c'.heap.header a).isFinalized = false
  age : (c'.heap.header a).age = 0
  noSlot : (c'.heap.header a).slot = 0
  /-- The address and the header tell the same space. -/
  space : Space.ofAddress? a = some (config.birthplace payload) ∧
    (c'.heap.header a).space = config.birthplace payload
  bytes : ∀ b ∈ d.heap.objects, ∀ i < (d.heap.header b).blockSize,
    c'.heap.byte b i = d.heap.byte b i

/-- Nothing names what is not an object. -/
theorem Sound.newborn (hd : d.Sound) {heap : Heap} {statistics : Statistics} {build : Build}
    (hr : Request.prepare config c.types typeId size hasFinalizer build = .ok r)
    (ha : Heap.Adds a r.header d.heap heap) :
    Newborn config typeId r.payload hasFinalizer a d { d with heap, statistics } := by
  have hw := hd.heap.wellFormed
  have hheader : heap.header a = _ := ha.header_new.trans (Request.header_of_prepare hr)
  have hpayload := Request.payloadSize_header (Request.prepare_spec hr)
  have hmem : a ∈ heap.objects := (ha.mem a).2 (Or.inr rfl)
  refine
    { objects := ha.mem
      fresh := ha.fresh
      apart := fun b hb i hi j hj => ?_
      root := fun h => ha.fresh (hd.roots a h)
      weak := fun h => ha.fresh (hd.weak a h)
      queue := fun h => ha.fresh (hd.queue a h)
      slot := fun b hb o ho heq => ?_
      remembered := fun h => ha.fresh (hd.remembered a h)
      payloadSize := (congrArg Header.payloadSize ha.header_new).trans hpayload
      zero := fun i hi => ha.zero _ (Nat.le_add_right _ _) ?_
      typeId := ?_
      hasFinalizer := ?_
      unmarked := ?_
      unforwarded := ?_
      notFinalized := ?_
      age := ?_
      noSlot := ?_
      space := ⟨?_, ?_⟩
      bytes := ha.byte }
  · -- the block of the other object is as large in the new heap
    have hb' : b ∈ heap.objects := (ha.mem b).2 (Or.inl hb)
    have hextent : heap.extent b = d.heap.extent b := by
      obtain ⟨s, hs, -⟩ := hw.mem_objects_iff.1 hb
      rw [ha.wellFormed.extent_eq_roomFor hb' hs, hw.extent_eq_roomFor hb hs, ha.header hw hb]
    exact ha.wellFormed.extent_apart hmem hb' (fun hab => ha.fresh (hab ▸ hb)) hi (hextent ▸ hj)
  · -- no reference dangled, so none leads to where nothing was
    rcases hd.heap.noDangling.slot hb ho with hnull | hobject
    · exact ha.wellFormed.ne_zero hmem (heq.symm.trans hnull)
    · exact ha.fresh (heq ▸ hobject)
  · rw [Request.blockSize_header (Request.prepare_spec hr)]
    exact Nat.add_lt_add_left hi headerSize
  · rw [hheader, Header.typeId_fresh]
  · rw [hheader, Header.hasFinalizer_fresh]
  · rw [hheader, Header.isMarked_fresh]
  · rw [hheader, Header.isForwarded_fresh]
  · rw [hheader, Header.isFinalized_fresh]
  · rw [hheader, Header.age_fresh]
  · rw [hheader, Header.slot_fresh]
  · rw [ha.space, Request.header_of_prepare hr, Header.space_fresh]
  · rw [hheader, Header.space_fresh]

/-- An allocation that succeeds has made room, by collections and by the growth of the nursery,
and has then placed an object that is new in every respect. It adds the bytes of its block to
those in use, and changes nothing else but what is counted of allocations. A request that is
refused changes nothing. All this is so in every build, with a payload as large as the build
makes the size: the last sizes of all are rounded to zero by a wrapping build, and make a checked
build panic, which changes nothing either. -/
theorem Reachable.allocation_places_newborn (h : Reachable config types c) (build : Build)
    (typeId : TypeId) (size : Nat) (hasFinalizer : Bool) :
    (∀ a c', allocateObjectIn build typeId size hasFinalizer c = .ok a c' → ∃ r d,
      Request.prepare c.config c.types typeId size hasFinalizer build = .ok r ∧
      alignUp size build = .ok r.payload ∧
      ReflTransGen MakesRoom c d ∧
      r.place? d.heap = .ok (some a) c'.heap ∧
      Newborn c.config typeId r.payload hasFinalizer a d c' ∧
      c'.heap.usedBytes = d.heap.usedBytes + r.blockSize ∧
      c' = { d with
        heap := c'.heap, statistics := d.statistics.recordAllocation r.blockSize }) ∧
    ∀ e, Request.prepare c.config c.types typeId size hasFinalizer build = .error e →
      allocateObjectIn build typeId size hasFinalizer c = .error e c := by
  refine ⟨fun a c' hrun => ?_, fun e hr => allocateObject_of_error hr⟩
  cases hr : Request.prepare c.config c.types typeId size hasFinalizer build with
  | error e => exact absurd ((allocateObject_of_error hr).symm.trans hrun) (by simp)
  | ok r =>
    obtain ⟨hok, herror⟩ := allocateObject_of_ok hr
    have hprepared := Request.prepare_spec hr
    obtain ⟨-, -, -, hpayload, -⟩ := Request.of_prepare hr
    -- whatever rung succeeds places the object in a heap that only made room
    have hladder := (leads_owner r c).allocate c.config
      ⟨⟨h.sound, hprepared⟩, ReflTransGen.refl⟩
    cases hallocate : allocate owner r c.config c with
    | error e c₁ => exact absurd ((herror e c₁ hallocate).symm.trans hrun) (by simp)
    | ok b c₁ =>
      obtain ⟨rfl, rfl⟩ := EStateM.Result.ok.inj ((hok b c₁ hallocate).symm.trans hrun)
      obtain ⟨d, heap, hd, hplace, rfl⟩ := hladder.of_ok hallocate
      obtain ⟨hadds, hused⟩ :=
        Request.adds_of_place? hd.prepared hd.heap.wellFormed hd.heap.used_le hplace
      exact ⟨r, d, rfl, hpayload, hd.steps, hplace, hd.toSound.newborn hr hadds, hused, rfl⟩

/-- A third object beside those of `pair`, one without a payload, whose size a wrapping build has
rounded to zero, and a request that is refused. -/
theorem newborn_of_pair :
    (∃ a c' d, allocateObject ⟨0⟩ 20 true pair = .ok a c' ∧
      Newborn pair.config ⟨0⟩ 24 true a d c') ∧
    (∃ a c' d, allocateObjectIn .wrapping ⟨0⟩ 18446744073709551615 false pair = .ok a c' ∧
      Newborn pair.config ⟨0⟩ 0 false a d c') ∧
    ∃ e, allocateObject ⟨7⟩ 16 false pair = .error e pair := by
  obtain ⟨a, c₁, hrun₁⟩ := allocates_pair
  have hok : ((allocateObjectIn .wrapping ⟨0⟩ 18446744073709551615 false).outcome pair).isOk =
      true := by decide +kernel
  obtain ⟨b, c₂, hrun₂⟩ := Action.exists_ok_of_isOk hok
  obtain ⟨r₁, d₁, -, hpayload₁, -, -, hborn₁, -⟩ :=
    (reachable_pair.allocation_places_newborn .checked ⟨0⟩ 20 true).1 a c₁ hrun₁
  obtain ⟨r₂, d₂, -, hpayload₂, -, -, hborn₂, -⟩ :=
    (reachable_pair.allocation_places_newborn .wrapping ⟨0⟩ 18446744073709551615 false).1 b c₂ hrun₂
  have hrounded₁ : alignUp 20 = .ok 24 := by with_unfolding_all rfl
  have hrounded₂ : alignUp 18446744073709551615 .wrapping = .ok 0 := by with_unfolding_all rfl
  rw [← Except.ok.inj (hrounded₁.symm.trans hpayload₁)] at hborn₁
  rw [← Except.ok.inj (hrounded₂.symm.trans hpayload₂)] at hborn₂
  have hunknown : pair.types ⟨7⟩ = none := Option.isNone_iff_eq_none.1 (by decide +kernel)
  have hrefused : Request.prepare pair.config pair.types ⟨7⟩ 16 false =
      .error (.unknownType ⟨7⟩) := by
    rw [Request.prepare, hunknown]
  exact ⟨⟨a, c₁, d₁, hrun₁, hborn₁⟩, ⟨b, c₂, d₂, hrun₂, hborn₂⟩, _,
    (reachable_pair.allocation_places_newborn .checked ⟨7⟩ 16 false).2 _ hrefused⟩

end Collector

end GenerationalHeap
