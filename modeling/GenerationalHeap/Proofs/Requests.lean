/-
Allocations of a collector.

* `Request.Prepared` — what the check of a request makes sure of.
* `Request.place?_spec` — an object is placed within the heap limit, or nothing happens.
* `Collector.Sound.allocateObject` — an allocation keeps a collector sound, with all the
  collections that it starts, whether it fails or not.
* `Collector.allocate_congr` — the collections that an allocation starts begin in states
  that collections lead to.
-/
import GenerationalHeap.Collector.Mutator
import GenerationalHeap.Proofs.Allocating
import GenerationalHeap.Proofs.Collecting
import GenerationalHeap.Proofs.Ladder

namespace GenerationalHeap

/-! ### Requests -/

namespace Request

variable {r : Request} {h : Heap} {config : Config} {types : TypeSystem} {typeId : TypeId}
  {size : Nat} {hasFinalizer : Bool}

/-- What the check of a request makes sure of. -/
structure Prepared (r : Request) (types : TypeSystem) : Prop where
  typed : (types r.typeId).isSome = true
  aligned : r.payload % alignment = 0
  small : r.payload < UInt32.size

/-- What passes the check of a request is what was asked for, with the payload rounded up. -/
theorem of_prepare {build : Build}
    (hr : prepare config types typeId size hasFinalizer build = .ok r) :
    ∃ info, types typeId = some info ∧ info.minPayload ≤ size ∧
      alignUp size build = .ok r.payload ∧ r.payload < UInt32.size ∧
      r = { typeId, payload := r.payload, hasFinalizer,
            sizeClass := config.sizeClassOf r.payload } := by
  rw [prepare] at hr
  cases hinfo : types typeId with
  | none => simp [hinfo] at hr
  | some info =>
    simp only [hinfo] at hr
    split at hr
    · exact absurd hr (by simp)
    · rename_i hmin
      cases hpayload : alignUp size build with
      | error e => simp [hpayload] at hr
      | ok payload =>
        simp only [hpayload] at hr
        split at hr
        · exact absurd hr (by simp)
        · rename_i hsmall
          obtain rfl := Except.ok.inj hr
          exact ⟨info, rfl, Nat.not_lt.1 hmin, rfl, Nat.not_le.1 hsmall, rfl⟩

theorem prepare_spec {build : Build}
    (hr : prepare config types typeId size hasFinalizer build = .ok r) : r.Prepared types := by
  obtain ⟨info, hinfo, -, hpayload, hsmall, heq⟩ := of_prepare hr
  have htype : r.typeId = typeId := by rw [heq]
  refine ⟨by rw [htype, hinfo]; rfl, ?_, hsmall⟩
  exact Nat.mod_eq_zero_of_dvd (Build.dvd_of_roundUp hpayload)

theorem needsFinalization_header {build : Build}
    (hr : prepare config types typeId size hasFinalizer build = .ok r) :
    r.header.needsFinalization = hasFinalizer := by
  obtain ⟨-, -, -, -, -, heq⟩ := of_prepare hr
  rw [header, Header.needsFinalization_fresh, heq]

theorem space_header_of_small (hclass : r.sizeClass = .small) :
    r.header.space = .arena .gen0 := by
  rw [header, hclass]
  exact Header.space_fresh _ _ _ _

theorem space_header_of_large (hclass : r.sizeClass = .large) : r.header.space = .large := by
  rw [header, hclass]
  exact Header.space_fresh _ _ _ _

theorem typeId_header (r : Request) : r.header.typeId = r.typeId :=
  Header.typeId_fresh _ _ _ _

theorem clean_header (r : Request) :
    r.header.isMarked = false ∧ r.header.isForwarded = false ∧ r.header.forwarding = 0 :=
  ⟨Header.isMarked_fresh _ _ _ _, Header.isForwarded_fresh _ _ _ _,
    Header.forwarding_fresh _ _ _ _⟩

theorem payloadSize_header (hr : r.Prepared types) : r.header.payloadSize = r.payload := by
  rw [Header.payloadSize, header, Header.size_fresh]
  exact UInt32.toNat_ofNat_of_lt' hr.small

theorem blockSize_header (hr : r.Prepared types) : r.header.blockSize = headerSize + r.payload :=
  congrArg (headerSize + ·) (payloadSize_header hr)

/-- An object is placed within the heap limit, or nothing happens. -/
theorem place?_spec (hr : r.Prepared types) (hw : h.WellFormed) (hused : h.usedBytes ≤ h.maxSize) :
    (∃ e, r.place? h = .error e h) ∨ r.place? h = .ok none h ∨
      ∃ a h', r.place? h = .ok (some a) h' ∧ Heap.Adds a r.header h h' ∧
        h'.maxSize = h.maxSize ∧ h'.usedBytes ≤ h'.maxSize := by
  have hmod : r.header.payloadSize % alignment = 0 := by
    rw [payloadSize_header hr]
    exact hr.aligned
  have hblock := blockSize_header hr
  by_cases hroom : r.blockSize > h.headroom
  · exact Or.inr (Or.inl (by rw [place?, if_pos hroom]))
  have hfits : h.usedBytes + r.blockSize ≤ h.maxSize := by
    unfold Heap.headroom at hroom
    omega
  -- within the limit, an arena may be full and the space for large objects may refuse
  cases hclass : r.sizeClass with
  | small =>
    have hspace := space_header_of_small hclass
    have hsize : r.blockSize = r.header.blockSize := by
      rw [hblock, blockSize, hclass]
    refine Or.inr ?_
    rcases Heap.allocateSmall?_spec hw hmod hspace with hfull | ⟨a, h', hrun, ha, hmax, hadd⟩
    · refine Or.inl ?_
      rw [place?, if_neg hroom]
      simp only [hclass, hfull]
    · refine Or.inr ⟨a, h', ?_, ha, hmax, by omega⟩
      rw [place?, if_neg hroom]
      simp only [hclass, hrun]
  | large =>
    have hspace := space_header_of_large hclass
    have hsize : r.blockSize = LargeSpace.blockSizeFor r.header.blockSize := by
      rw [hblock, blockSize, hclass]
    rcases Heap.allocateLarge_spec hw hmod hspace with ⟨e, hrun⟩ | ⟨a, h', hrun, ha, hmax, hadd⟩
    · refine Or.inl ⟨e, ?_⟩
      rw [place?, if_neg hroom]
      simp only [hclass]
      show EStateM.map some (Heap.allocateLarge r.header) h = .error e h
      rw [EStateM.map, hrun]
    · refine Or.inr (Or.inr ⟨a, h', ?_, ha, hmax, by omega⟩)
      rw [place?, if_neg hroom]
      simp only [hclass]
      show EStateM.map some (Heap.allocateLarge r.header) h = .ok (some a) h'
      rw [EStateM.map, hrun]

end Request

/-! ### A larger nursery -/

namespace Heap

variable {h : Heap} {g : Generation}

theorem relabels_ensureArena (hw : h.WellFormed) (g : Generation) (needed : Nat) :
    Relabels (fun _ x => x) h ((ensureArena g needed).final h) := by
  by_cases hn : needed ≤ spaceLimit
  · obtain ⟨h', hrun, hr, -⟩ := ensureArena_spec (g := g) hw hn
    rwa [Action.final_of_ok hrun]
  · have hcap := (hw.arena g).capacity_le
    have herror : ensureArena g needed h =
        .error (.outOfMemory needed (spaceLimit - (h.arena g).top))
          (h.mapArena g fun _ => h.arena g) := by
      rw [ensureArena, Arena.ensure, if_neg (fun hc => hn (Nat.le_trans hc hcap)),
        if_pos (Nat.not_le.1 hn)]
    rw [Action.final_of_error herror]
    exact relabels_grown hw
      ⟨rfl, rfl, fun _ => rfl, fun _ => rfl, Nat.le_refl _, hcap, (hw.arena g).covered⟩

theorem relabels_growNursery (hw : h.WellFormed) (blockSize : Nat) :
    Relabels (fun _ x => x) h ((growNursery blockSize).final h) := by
  have hr := relabels_ensureArena hw .gen0 ((h.arena .gen0).used + blockSize)
  cases hrun : ensureArena .gen0 ((h.arena .gen0).used + blockSize) h with
  | ok u h' =>
    rw [Action.final_of_ok hrun] at hr
    have hgrow : growNursery blockSize h =
        .ok ((h.arena .gen0).capacity, (h'.arena .gen0).capacity) h' := by
      rw [growNursery, Action.get_bind, Action.bind_of_ok hrun]
      rfl
    rwa [Action.final_of_ok hgrow]
  | error e h' =>
    rw [Action.final_of_error hrun] at hr
    have hgrow : growNursery blockSize h = .error e h' := by
      rw [growNursery, Action.get_bind, Action.bind_of_error hrun]
    rwa [Action.final_of_error hgrow]

end Heap

/-! ### The owner -/

namespace Collector

variable {κ : Type} {c c' : Collector κ TypeRegistry} {r : Request} {config : Config}

/-- A collector that an allocation may turn to. -/
structure Ready (r : Request) (c : Collector κ TypeRegistry) : Prop extends c.Sound where
  prepared : r.Prepared c.types

/-- A new object names nothing and is not remembered. -/
theorem Sound.of_adds (hc : c.Sound) {a : Address} {new : Header} {h' : Heap}
    (ha : Heap.Adds a new c.heap h') (ht : (c.types new.typeId).isSome = true)
    (hclean : new.isMarked = false ∧ new.isForwarded = false ∧ new.forwarding = 0)
    (hused : h'.usedBytes ≤ h'.maxSize) (hmax : h'.maxSize = c.heap.maxSize) :
    Sound { c with heap := h' } := by
  obtain ⟨hheap, hyoung⟩ := ha.sound hc.heap ht hclean hused (hmax ▸ hc.heap.maxSize_le)
  have hold : ∀ b ∈ c.heap.objects, b ∈ h'.objects := fun b hb => (ha.mem b).2 (Or.inl hb)
  exact
    { heap := hheap
      roots := fun b hb => hold b (hc.roots b hb)
      queue := fun b hb => hold b (hc.queue b hb)
      weak := fun b hb => hold b (hc.weak b hb)
      remembered := fun b hb => hold b (hc.remembered b hb)
      nodup := hc.nodup
      complete := fun b hb hy => hc.complete b (hyoung b hb hy).1 (hyoung b hb hy).2 }

theorem keeps_place : Action.Keeps (Ready (κ := κ) r) (onHeap r.place?) := by
  intro c hc
  rcases Request.place?_spec hc.prepared hc.heap.wellFormed hc.heap.used_le with
    ⟨e, hrun⟩ | hrun | ⟨a, h', hrun, ha, hmax, hused⟩
  · rw [Action.final_of_error (onHeap_of_error hrun)]
    exact hc
  · rw [Action.final_of_ok (onHeap_of_ok hrun)]
    exact hc
  · rw [Action.final_of_ok (onHeap_of_ok hrun)]
    have ht : (c.types r.header.typeId).isSome = true := by
      rw [Request.typeId_header]
      exact hc.prepared.typed
    exact ⟨hc.of_adds ha ht r.clean_header hused hmax, hc.prepared⟩

theorem keeps_growNursery (blockSize : Nat) :
    Action.Keeps (Ready (κ := κ) r) (onHeap (Heap.growNursery blockSize)) := by
  intro c hc
  have hr := Heap.relabels_growNursery hc.heap.wellFormed blockSize
  cases hrun : Heap.growNursery blockSize c.heap with
  | ok sizes h' =>
    rw [Action.final_of_ok hrun] at hr
    rw [Action.final_of_ok (onHeap_of_ok hrun)]
    exact ⟨hc.of_relabels ⟨rfl, rfl, rfl, rfl, rfl, rfl, rfl⟩ hr fun _ _ => .refl _, hc.prepared⟩
  | error e h' =>
    rw [Action.final_of_error hrun] at hr
    rw [Action.final_of_error (onHeap_of_error hrun)]
    exact ⟨hc.of_relabels ⟨rfl, rfl, rfl, rfl, rfl, rfl, rfl⟩ hr fun _ _ => .refl _, hc.prepared⟩

theorem Sound.host_collectFor (hc : c.Sound) (target : Target) (reason : Reason) :
    ((Collector.collectFor target reason).final c).host = c.host := by
  rcases hc.final_collectFor target reason with h | ⟨F, dying, -, h⟩
  · exact h.host
  · exact h.host

theorem keeps_collect (target : Target) (reason : Reason) :
    Action.Keeps (Ready (κ := κ) r) (owner.collect target reason) := by
  refine Action.keeps_discard fun c hc => ⟨hc.toSound.collectFor target reason, ?_⟩
  have htypes : ((collectFor target reason).final c).types = c.types :=
    congrArg Host.types (hc.host_collectFor target reason)
  rw [htypes]
  exact hc.prepared

theorem keeps_allocate (config : Config) :
    Action.Keeps (Ready (κ := κ) r) (allocate owner r config) := by
  have ho : owner.Upholds r (Ready (κ := κ) r) fun _ => Ready r :=
    { place := fun s hs => (keeps_place.ends hs).imp (fun _ h => h) fun placed s' h => by
        cases placed <;> exact h
      grow := fun s hs => (keeps_growNursery _).ends hs
      grown := fun _ _ s hs =>
        ⟨hs.toSound.of_tables ⟨rfl, rfl, rfl, rfl, rfl, rfl, rfl⟩ rfl, hs.prepared⟩
      collect := fun target reason s hs => (keeps_collect target reason).ends hs }
  exact Action.keeps_of_ends fun s hs => ho.allocate config hs

theorem noteFailure_eq (e : Error) (c : Collector κ TypeRegistry) :
    ∃ statistics log processLog, noteFailure e c = { c with statistics, log, processLog } := by
  cases e with
  | _ => exact ⟨_, _, _, rfl⟩

theorem ask_of_ok {α : Type} {check : Collector κ TypeRegistry → Except Error α} {a : α}
    (h : check c = .ok a) : ask check c = .ok a c := by
  rw [ask, h]

theorem ask_of_error {α : Type} {check : Collector κ TypeRegistry → Except Error α} {e : Error}
    (h : check c = .error e) : ask check c = .error e c := by
  rw [ask, h]

section AllocateObject

variable {build : Build} {typeId : TypeId} {size : Nat} {hasFinalizer : Bool}

theorem allocateObject_of_error {e : Error}
    (hr : Request.prepare c.config c.types typeId size hasFinalizer build = .error e) :
    allocateObjectIn build typeId size hasFinalizer c = .error e c :=
  Action.bind_of_error (ask_of_error hr) _

theorem allocateObject_of_ok
    (hr : Request.prepare c.config c.types typeId size hasFinalizer build = .ok r) :
    (∀ a c', allocate owner r c.config c = .ok a c' →
      allocateObjectIn build typeId size hasFinalizer c =
        .ok a { c' with statistics := c'.statistics.recordAllocation r.blockSize }) ∧
    ∀ e c', allocate owner r c.config c = .error e c' →
      allocateObjectIn build typeId size hasFinalizer c = .error e (noteFailure e c') := by
  have hask : ask (fun c : Collector κ TypeRegistry =>
      Request.prepare c.config c.types typeId size hasFinalizer build) c = .ok r c := ask_of_ok hr
  constructor
  · intro a c' hrun
    simp only [allocateObjectIn, bind, EStateM.bind, hask, hrun]
  · intro e c' hrun
    simp only [allocateObjectIn, bind, EStateM.bind, hask, hrun]

/-- An allocation is checked first, and counted at the end. What is told of neither counts nor
logs is left to the ladder. -/
theorem final_allocateObject {P : Collector κ TypeRegistry → Prop} (h : P c)
    (hladder : ∀ r, r.Prepared c.types → ∀ statistics log processLog,
      P { (allocate owner r c.config).final c with statistics, log, processLog }) :
    P ((allocateObjectIn build typeId size hasFinalizer).final c) := by
  cases hr : Request.prepare c.config c.types typeId size hasFinalizer build with
  | error e =>
    rw [Action.final_of_error (allocateObject_of_error hr)]
    exact h
  | ok r =>
    obtain ⟨hok, herror⟩ := allocateObject_of_ok hr
    have hkept := hladder r (Request.prepare_spec hr)
    cases hrun : allocate owner r c.config c with
    | ok a c' =>
      rw [Action.final_of_ok hrun] at hkept
      rw [Action.final_of_ok (hok a c' hrun)]
      exact hkept _ _ _
    | error e c' =>
      rw [Action.final_of_error hrun] at hkept
      rw [Action.final_of_error (herror e c' hrun)]
      obtain ⟨statistics, log, processLog, heq⟩ := noteFailure_eq e c'
      exact heq ▸ hkept statistics log processLog

/-- An allocation keeps a collector sound, with all the collections that it starts, whether
it fails or not. -/
theorem Sound.allocateObject (hc : c.Sound) (build : Build) (typeId : TypeId) (size : Nat)
    (hasFinalizer : Bool) :
    ((Collector.allocateObjectIn build typeId size hasFinalizer).final c).Sound := by
  refine final_allocateObject hc fun r hr _ _ _ => ?_
  have hkept := keeps_allocate c.config c ⟨hc, hr⟩
  exact hkept.toSound.of_tables ⟨rfl, rfl, rfl, rfl, rfl, rfl, rfl⟩ rfl

end AllocateObject

/-! ### Where collections start -/

section Congr

variable {P : Collector κ TypeRegistry → Prop} {o : Owner (Collector κ TypeRegistry)}

/-- What is done after a failed attempt starts where the attempt started. -/
theorem placeOr_congr {next next' : Action (Collector κ TypeRegistry) Address} (hc : Ready r c)
    (hnext : next c = next' c) : r.placeOr next c = r.placeOr next' c := by
  rcases Request.place?_spec hc.prepared hc.heap.wellFormed hc.heap.used_le with
    ⟨e, hrun⟩ | hrun | ⟨a, h', hrun, -⟩
  · rw [Request.placeOr, Action.bind_of_error (onHeap_of_error hrun), Request.placeOr,
      Action.bind_of_error (onHeap_of_error hrun)]
  · rw [Request.placeOr, Action.bind_of_ok (onHeap_of_ok hrun), Request.placeOr,
      Action.bind_of_ok (onHeap_of_ok hrun)]
    exact hnext
  · rw [Request.placeOr, Action.bind_of_ok (onHeap_of_ok hrun), Request.placeOr,
      Action.bind_of_ok (onHeap_of_ok hrun)]

variable
  (hkeep : ∀ target reason c, P c → P ((owner.collect target reason).final c))
  (hcollect : ∀ target reason c, P c → o.collect target reason c = owner.collect target reason c)

include hkeep hcollect

theorem collect_bind_congr {f g : Unit → Action (Collector κ TypeRegistry) Address} (hc : P c)
    (target : Target) (reason : Reason) (hfg : ∀ c, P c → f () c = g () c) :
    (o.collect target reason >>= f) c = (owner.collect target reason >>= g) c := by
  have hkept := hkeep target reason c hc
  have hsame := hcollect target reason c hc
  cases hrun : owner.collect target reason c with
  | ok u c' =>
    rw [Action.final_of_ok hrun] at hkept
    rw [Action.bind_of_ok (hsame.trans hrun), Action.bind_of_ok hrun]
    exact hfg c' hkept
  | error e c' => rw [Action.bind_of_error (hsame.trans hrun), Action.bind_of_error hrun]

/-- All that an allocation asks of the owner of its heap is asked in states with a property
that collections keep. -/
theorem allocate_congr (hready : ∀ c, P c → Ready r c)
    (hgrown : o.nurseryGrown = owner.nurseryGrown) (config : Config) (hc : P c) :
    allocate o r config c = allocate owner r config c := by
  have hgrow : growAndPlace o r = growAndPlace owner r := by
    rw [growAndPlace, growAndPlace, hgrown]
  cases hclass : r.sizeClass with
  | small =>
    simp only [allocate, hclass]
    rw [allocateSmall, allocateSmall]
    refine placeOr_congr (hready c hc) ?_
    rw [Action.get_bind, Action.get_bind]
    refine collect_bind_congr hkeep hcollect hc _ _ ?_
    intro c₁ hc₁
    refine placeOr_congr (hready c₁ hc₁) ?_
    by_cases hfull : escalate config (HoldsHeap.heap c) = .full
    · rw [if_pos hfull, if_pos hfull, hgrow]
    · rw [if_neg hfull, if_neg hfull, hgrow]
      exact collect_bind_congr hkeep hcollect hc₁ _ _ fun _ _ => rfl
  | large =>
    simp only [allocate, hclass]
    have hrest : ∀ c, P c → r.placeOr (do
          o.collect .full (.allocationFailure r.blockSize)
          r.placeOr r.giveUp) c =
        r.placeOr (do
          owner.collect .full (.allocationFailure r.blockSize)
          r.placeOr r.giveUp) c := by
      intro c hc
      exact placeOr_congr (hready c hc)
        (collect_bind_congr hkeep hcollect hc _ _ fun _ _ => rfl)
    rw [allocateLarge, allocateLarge, Action.get_bind, Action.get_bind]
    by_cases hover : (HoldsHeap.heap c).usedIn .large > config.lohBudget
    · simp only [if_pos hover]
      exact collect_bind_congr hkeep hcollect hc _ _ hrest
    · simp only [if_neg hover]
      exact hrest c hc

end Congr

end Collector

end GenerationalHeap
