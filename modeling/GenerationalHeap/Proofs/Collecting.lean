/-
A whole collection.

* `Collector.Collected` — what a collection makes of a collector, told by the new place of
  every survivor.
* `Collector.markPhase_spec`, `Collector.finalizePhase_spec`, `Collector.compactPhase_spec` —
  the phases.
* `Collector.collectFor_spec` — a collection fails only if a provider names something that
  is no object, and then leaves the heap as it was.
* `Collector.Collected.sound` — the collector is sound afterwards.
-/
import GenerationalHeap.Collector.Cycle
import GenerationalHeap.Proofs.Sound

namespace GenerationalHeap

/-! ### Marked heaps -/

theorem Header.isForwarded_markIf (x : Header) (on : Bool) :
    (x.markIf on).isForwarded = x.isForwarded := by
  cases on with
  | false => rfl
  | true => exact isForwarded_setMarked x true

theorem Header.forwarding_markIf (x : Header) (on : Bool) :
    (x.markIf on).forwarding = x.forwarding := by
  cases on with
  | false => rfl
  | true => exact forwarding_setMarked x true

namespace Heap

open Compaction (Alive)

variable {h h' h'' : Heap} {types : TypeSystem} {target : Target} {roots : List Address}
  {F : Address → Address} {alive alive' : Address → Prop} {a : Address}

/-- A heap in which all that is kept is marked can be compacted. -/
theorem Sound.traced (hs : h.Sound types) (hm : h.OnlyMarks h')
    (hmarked : ∀ a ∈ h.objects, (h'.header a).isMarked = true ↔
      target.condemnsAddress a = true ∧ h.Kept types target roots a) :
    h'.Traced types target ∧ ∀ a, Alive h' target a ↔ h.Survives types target roots a := by
  have hobjects := hm.layout.objects hs.wellFormed
  -- alive by the marks is the same as surviving by the references
  have halive : ∀ a, Alive h' target a ↔ h.Survives types target roots a := by
    intro a
    rw [Alive, Survives, hobjects]
    refine and_congr_right ?_
    intro ha
    rw [hmarked a ha]
    cases hc : target.condemnsAddress a <;> simp
  refine ⟨⟨hm.traceable hs.toTraceable, ?_, ?_, ?_, ?_, ?_⟩, halive⟩
  · intro a ha
    rw [hobjects] at ha
    rw [hm.header a ha, Header.isForwarded_markIf, hs.clean.isForwarded a ha]
  · intro a ha
    rw [hobjects] at ha
    rw [hm.header a ha, Header.forwarding_markIf, hs.clean.forwarding a ha]
  · intro a ha hma
    rw [hobjects] at ha
    exact ((hmarked a ha).1 hma).1
  · intro a b ha hab
    rw [halive] at ha ⊢
    exact ha.pointsTo hs.noDangling ((hm.pointsTo_iff ha.1).1 hab)
  · rw [hm.layout.usedBytes]
    exact Nat.le_trans hs.used_le hs.maxSize_le

theorem RemembersYounger.of_onlyMarks {holders : List Address}
    (hr : h.RemembersYounger types target holders) (hw : h.WellFormed) (hm : h.OnlyMarks h') :
    h'.RemembersYounger types target holders where
  mem a ha := by
    rw [hm.layout.objects hw]
    exact hr.mem a ha
  nodup := hr.nodup
  complete a ha hout hy := by
    rw [hm.layout.objects hw] at ha
    exact hr.complete a ha hout ((hm.holdsYounger_iff ha).1 hy)

/-- Marks are not seen in what moves. -/
theorem Moves.of_onlyMarks (hmv : Moves types F alive' h' h'') (hm : h.OnlyMarks h')
    (halive : ∀ a, alive' a ↔ alive a) (hsub : ∀ a, alive a → a ∈ h.objects) :
    Moves types F alive h h'' where
  mem b := by
    rw [hmv.mem]
    simp only [halive]
  inj a b ha hb := hmv.inj a b ((halive a).2 ha) ((halive b).2 hb)
  null := hmv.null
  identity a ha := by
    rw [hmv.identity a ((halive a).2 ha), hm.identity (hsub a ha)]
  word a ha o ho := by
    rw [hmv.word a ((halive a).2 ha) o (hm.slots (hsub a ha) ▸ ho), hm.word (hsub a ha) ho]
  plain a ha i hi := by
    have hobj := hsub a ha
    rw [hmv.plain a ((halive a).2 ha) i (hi.congr (hm.identity hobj))]
    exact hm.byte a hobj _ (Nat.le_add_right _ _) hi.lt_blockSize

/-- Where a collection puts an object, as a weak handle learns it: nowhere if the object is
reclaimed. -/
def placeAfter (types : TypeSystem) (target : Target) (roots holders : List Address) (h : Heap)
    (a : Address) : Option Address :=
  let planning : Action Heap Compaction := do
    let _ ← markLive types target roots holders
    let h ← get
    let _ ← resurrect types target (Trace.candidates target h)
    Compaction.start target
  match planning h with
  | .ok c h => (c.fate h a).apply a
  | .error _ _ => some a

theorem placeAfter_of_ok {holders : List Address} {c : Compaction} {h₁ : Heap}
    {stats stats' : TraceStats} (hmark : markLive types target roots holders h = .ok stats h')
    (hresurrect : resurrect types target (Trace.candidates target h') h' = .ok stats' h'')
    (hstart : Compaction.start target h'' = .ok c h₁) (a : Address) :
    h.placeAfter types target roots holders a = (c.fate h₁ a).apply a := by
  rw [placeAfter, Action.bind_of_ok hmark, Action.get_bind, Action.bind_of_ok hresurrect, hstart]

end Heap

/-! ### Collectors -/

namespace Collector

variable {κ : Type} {target : Target} {c c' d : Collector κ TypeRegistry} {a : Address}

section OnHeap

variable {ω α : Type} {c : Collector κ ω} {act : Action Heap α} {x : α} {e : Error} {h : Heap}

theorem onHeap_of_ok (hact : act c.heap = .ok x h) : onHeap act c = .ok x { c with heap := h } := by
  simp only [onHeap, show HoldsHeap.heap c = c.heap from rfl, hact]
  rfl

theorem onHeap_of_error (hact : act c.heap = .error e h) :
    onHeap act c = .error e { c with heap := h } := by
  simp only [onHeap, show HoldsHeap.heap c = c.heap from rfl, hact]
  rfl

theorem onHeap_ends {E : Heap → Prop} {Q : α → Heap → Prop} {E' : Collector κ ω → Prop}
    {Q' : α → Collector κ ω → Prop} (hends : act.Ends c.heap E Q)
    (hE : ∀ h, E h → E' { c with heap := h }) (hQ : ∀ a h, Q a h → Q' a { c with heap := h }) :
    (onHeap act).Ends c E' Q' := by
  cases hact : act c.heap with
  | ok a h => exact Action.ends_of_ok (onHeap_of_ok hact) (hQ a h (hends.of_ok hact))
  | error e h => exact Action.ends_of_error (onHeap_of_error hact) (hE h (hends.of_error hact))

end OnHeap

/-- A registry of types takes no notice of visits. -/
theorem visitProviders_eq (c : Collector κ TypeRegistry) : c.visitProviders = c := by
  have hhost : ∀ (ids : List Nat) (r : TypeRegistry),
      ids.foldl (fun w id => Host.visited id c.phase w) r = r := by
    intro ids
    induction ids with
    | nil => exact fun _ => rfl
    | cons id rest ih => exact ih
  rw [visitProviders, hhost]

/-- The remembered holders in the spaces that are left alone. -/
theorem Sound.remembersYounger (hc : c.Sound) (target : Target) :
    c.heap.RemembersYounger c.types target (c.rememberedFor target) := by
  have hspace : ∀ a ∈ c.heap.objects, ((Space.ofAddress? a).any fun s => !target.condemns s) =
      !target.condemnsAddress a := by
    intro a ha
    obtain ⟨s, hs, -⟩ := hc.heap.wellFormed.mem_objects_iff.1 ha
    rw [Compaction.condemnsAddress_eq hs, hs]
    rfl
  refine ⟨?_, hc.nodup.filter _, ?_⟩
  · intro a ha
    obtain ⟨hin, hany⟩ := List.mem_filter.1 ha
    have hobj := hc.remembered a (Array.mem_toList_iff.1 hin)
    rw [hspace a hobj] at hany
    exact ⟨hobj, by simpa using hany⟩
  · intro a ha hout hy
    refine List.mem_filter.2 ⟨Array.mem_toList_iff.2 (hc.complete a ha hy), ?_⟩
    rw [hspace a ha, hout]
    rfl

/-- Root handles and queued objects name objects, so that a bad root is one of a provider. -/
theorem Sound.mem_rootObjects (hc : c.Sound)
    (hproviders : ∀ slots ∈ c.providers.values, ∀ a ∈ slots.objects, a ∈ c.heap.objects) :
    ∀ a ∈ c.rootObjects, a ∈ c.heap.objects := by
  intro a ha
  rcases List.mem_append.1 ha with ha | ha
  · rcases List.mem_append.1 ha with ha | ha
    · exact hc.roots a ha
    · obtain ⟨slots, hslots, ha⟩ := List.mem_flatMap.1 ha
      exact hproviders slots hslots a ha
  · exact hc.queue a ha

/-! ### The phases -/

/-- The first phase fails only if a root is no object. -/
theorem Sound.markPhase_spec (hc : c.Sound) :
    (∃ e h', markPhase target c = .error e { c with heap := h' } ∧ c.heap.OnlyMarks h' ∧
      (∀ a ∈ c.heap.objects, (h'.header a).isMarked = true → target.condemnsAddress a = true) ∧
      ∃ r ∈ c.rootObjects, r ∉ c.heap.objects) ∨
    (∃ n h', markPhase target c = .ok n { c with heap := h' } ∧ c.heap.OnlyMarks h' ∧
      (∀ r ∈ c.rootObjects, r ∈ c.heap.objects) ∧
      (∃ stats, Heap.markLive c.types target c.rootObjects (c.rememberedFor target) c.heap =
        .ok stats h') ∧
      ∀ a ∈ c.heap.objects, (h'.header a).isMarked = true ↔
        target.condemnsAddress a = true ∧ c.heap.Held c.types target c.rootObjects a) := by
  have hrem := (hc.remembersYounger target).remembers hc.heap.wellFormed hc.heap.noDangling
  rcases Heap.markLive_spec hc.heap.toTraceable hc.heap.clean hrem with
    ⟨e, h', hrun, hm, hmarked, hbad⟩ | ⟨stats, h', hrun, hm, hroots, hmarked⟩
  · refine Or.inl ⟨e, h', ?_, hm, hmarked, hbad⟩
    rw [markPhase, Action.modify_bind, Action.get_bind, visitProviders_eq,
      Action.bind_of_error (onHeap_of_error hrun)]
  · refine Or.inr ⟨stats.markedObjects, h', ?_, hm, hroots, ⟨stats, hrun⟩, hmarked⟩
    rw [markPhase, Action.modify_bind, Action.get_bind, visitProviders_eq,
      Action.bind_of_ok (onHeap_of_ok hrun)]
    rfl

/-- The second phase keeps what the dying objects lead to. -/
theorem Sound.finalizePhase_spec (hc : c.Sound) {h' : Heap} (hm : c.heap.OnlyMarks h')
    (hmarked : ∀ a ∈ c.heap.objects, (h'.header a).isMarked = true ↔
      target.condemnsAddress a = true ∧ c.heap.Held c.types target c.rootObjects a)
    (hheap : d.heap = h') (htypes : d.types = c.types) :
    ∃ n h'', finalizePhase target d =
        .ok (Trace.candidates target h', n) { d with heap := h'' } ∧
      (∃ stats, Heap.resurrect c.types target (Trace.candidates target h') h' = .ok stats h'') ∧
      c.heap.OnlyMarks h'' ∧ ∀ a ∈ c.heap.objects, (h''.header a).isMarked = true ↔
        target.condemnsAddress a = true ∧ c.heap.Kept c.types target c.rootObjects a := by
  obtain ⟨stats, h'', hrun, hm', hkept⟩ :=
    Heap.resurrect_spec hc.heap.toTraceable hm hmarked
  refine ⟨stats.resurrectedObjects, h'', ?_, ⟨stats, hrun⟩, hm', hkept⟩
  rw [← hheap, ← htypes] at hrun
  rw [finalizePhase, Action.get_bind, Action.bind_of_ok (onHeap_of_ok hrun), hheap]
  rfl

open Compaction (Compacted Orphans) in
/-- What the last phase makes of a collector whose heap is marked. -/
structure Compacts (target : Target) (dying : List Address) (F : Address → Address)
    (c c' : Collector κ TypeRegistry) : Prop where
  heap : Compacted c.types target c.heap c'.heap
  roots : c'.roots = c.roots.map F
  providers : c'.providers = c.providers.map (RootSlots.redirect F)
  pending : c'.queue.pending = c.queue.pending.map F ++ dying.map F
  inFlight : c'.queue.inFlight = c.queue.inFlight.map F
  weak : ∀ id, c'.weak.handles.get? id = (c.weak.handles.get? id).map fun o => o.bind fun a =>
    if target.condemnsAddress a = true ∧ (c.heap.header a).isMarked = false then none
    else some (F a)
  callbacks : ∃ orphans, Orphans c.heap target orphans ∧
    c'.callbacks = (c.callbacks.release (orphans.map UInt64.toNat)).2
  nodup : c'.barrier.remembered.holders.toList.Nodup
  remembered : ∀ a, a ∈ c'.barrier.remembered.holders ↔
    a ∈ c'.heap.objects ∧ c'.heap.HoldsYounger c'.types a
  host : c'.host = c.host
  followed : ∃ comp h₁, Compaction.start target c.heap = .ok comp h₁ ∧
    ∀ a ∈ c.heap.objects, (comp.fate h₁ a).apply a =
      if target.condemnsAddress a = true ∧ (c.heap.header a).isMarked = false then none
      else some (F a)

theorem compactPhase_spec {dying : List Address} (hT : c.heap.Traced c.types target)
    (hrem : c.heap.RemembersYounger c.types target (c.rememberedFor target))
    (hroots : ∀ a ∈ c.rootObjects, a ∈ c.heap.objects)
    (hweak : ∀ a, some a ∈ c.weak.handles.values → a ∈ c.heap.objects)
    (hdying : ∀ a ∈ dying, a ∈ c.heap.objects) :
    ∃ answer c', compactPhase target dying c = .ok answer c' ∧
      Compacts target dying (Plan.ofHeap c.heap target).place c c' := by
  obtain ⟨comp, h₁, hstart, hs⟩ := Compaction.start_spec hT.wellFormed hT.used_le target
  obtain ⟨sweep, r, h', hrun, hcompacted, horphans, hnodup, hholders⟩ :=
    Compaction.complete_spec hT hs hrem
  have hforward : ∀ a ∈ c.heap.objects,
      comp.forward h₁ a = (Plan.ofHeap c.heap target).place a := fun a ha => hs.forward_eq hT ha
  have hqueue : ∀ a ∈ c.queue.objects, a ∈ c.heap.objects := fun a ha =>
    hroots a (List.mem_append_right _ ha)
  -- the roots are redirected on the heap that the start leaves
  have hredirect : redirectAll comp dying { c with heap := h₁ } =
      .ok ((c.weak.process (comp.fate h₁)).1, dying.map (comp.forward h₁))
        ((redirectRoots (comp.forward h₁) { c with heap := h₁ }).processWeak comp).2 := rfl
  refine ⟨(comp.stats sweep, (c.weak.process (comp.fate h₁)).1),
    { c with
      heap := h'
      roots := c.roots.map (comp.forward h₁)
      providers := c.providers.map (RootSlots.redirect (comp.forward h₁))
      queue := (c.queue.redirect (comp.forward h₁)).enqueue (dying.map (comp.forward h₁))
      weak := (c.weak.process (comp.fate h₁)).2
      barrier := { c.barrier with remembered := r }
      callbacks := (c.callbacks.release ((sweep.orphans ++ comp.plan.orphans).map
        UInt64.toNat)).2 }, ?_, hcompacted, ?_, ?_, ?_, ?_, ?_, ⟨_, ?_, rfl⟩, hnodup, hholders,
    rfl, ⟨comp, h₁, hstart, fun a ha => hs.fate_eq hT ha⟩⟩
  · rw [compactPhase, Action.bind_of_ok (onHeap_of_ok hstart), Action.modify_bind,
      visitProviders_eq, Action.bind_of_ok hredirect]
    exact Action.bind_of_ok (onHeap_of_ok
      (c := ((redirectRoots (comp.forward h₁) { c with heap := h₁ }).processWeak comp).2) hrun) _
  · exact HandleTable.map_congr fun a ha => hforward a (hroots a
      (List.mem_append_left _ (List.mem_append_left _ ha)))
  · refine HandleTable.map_congr fun slots hslots => RootSlots.redirect_congr fun a ha =>
      hforward a (hroots a (List.mem_append_left _ (List.mem_append_right _ ?_)))
    exact List.mem_flatMap.2 ⟨slots, hslots, ha⟩
  · show (c.queue.redirect (comp.forward h₁)).pending ++ dying.map (comp.forward h₁) = _
    rw [FinalizationQueue.redirect_congr fun a ha => hforward a (hqueue a ha),
      List.map_congr_left fun a ha => hforward a (hdying a ha)]
    rfl
  · show (c.queue.redirect (comp.forward h₁)).inFlight = _
    rw [FinalizationQueue.redirect_congr fun a ha => hforward a (hqueue a ha)]
    rfl
  · intro id
    show (c.weak.handles.map fun o => o.bind fun a => (comp.fate h₁ a).apply a).get? id = _
    rw [HandleTable.get?_map]
    cases hid : c.weak.handles.get? id with
    | none => rfl
    | some o =>
      cases o with
      | none => rfl
      | some a =>
        have ha := hweak a (HandleTable.mem_values_iff.2 ⟨id, hid⟩)
        exact congrArg some (hs.fate_eq hT ha)
  · intro slot hslot
    rw [hs.plan] at hslot
    exact (List.mem_append.1 hslot).elim (horphans slot)
      (Compaction.orphans_ofHeap hT.wellFormed target slot)

/-! ### The whole -/

section Collected

attribute [local instance] Classical.propDecidable

/-- Where a collection puts an object: nowhere if the object is reclaimed. -/
def placeAfter (target : Target) (c : Collector κ TypeRegistry) (a : Address) : Option Address :=
  c.heap.placeAfter c.types target c.rootObjects (c.rememberedFor target) a

/-- What a collection makes of a collector. The survivors go where `F` tells, and the dying
objects wait for their finalizers. -/
structure Collected (target : Target) (F : Address → Address) (dying : List Address)
    (c c' : Collector κ TypeRegistry) : Prop where
  wellFormed : c'.heap.WellFormed
  tagged : c'.heap.Tagged
  clean : c'.heap.Clean
  moves : Heap.Moves c.types F (c.heap.Survives c.types target c.rootObjects) c.heap c'.heap
  fixed : ∀ a ∈ c.heap.objects,
    target.condemnsAddress a = false ∨ Space.ofAddress? a = some .large → F a = a
  used_le : c'.heap.usedBytes ≤ c.heap.usedBytes
  maxSize : c'.heap.maxSize = c.heap.maxSize
  sorted : dying.Pairwise fun a b => a.toNat < b.toNat
  mem_dying : ∀ a, a ∈ dying ↔ c.heap.Dying c.types target c.rootObjects a
  roots : c'.roots = c.roots.map F
  providers : c'.providers = c.providers.map (RootSlots.redirect F)
  pending : c'.queue.pending = c.queue.pending.map F ++ dying.map F
  inFlight : c'.queue.inFlight = c.queue.inFlight.map F
  weak : ∀ id, c'.weak.handles.get? id = (c.weak.handles.get? id).map fun o => o.bind fun a =>
    if c.heap.Survives c.types target c.rootObjects a then some (F a) else none
  /-- The callbacks that are dropped are those of reclaimed objects. -/
  callbacks : ∃ orphans : List UInt64,
    (∀ slot ∈ orphans, slot ≠ 0 ∧ ∃ a ∈ c.heap.objects,
      ¬c.heap.Survives c.types target c.rootObjects a ∧ (c.heap.header a).slot = slot) ∧
    c'.callbacks = (c.callbacks.release (orphans.map UInt64.toNat)).2
  nodup : c'.barrier.remembered.holders.toList.Nodup
  remembered : ∀ a, a ∈ c'.barrier.remembered.holders ↔
    a ∈ c'.heap.objects ∧ c'.heap.HoldsYounger c'.types a
  host : c'.host = c.host
  followed : ∀ a ∈ c.heap.objects, c.placeAfter target a =
    if c.heap.Survives c.types target c.rootObjects a then some (F a) else none

theorem Collected.of_tables {F : Address → Address} {dying : List Address}
    (h : Collected target F dying c c') (hs : SameTables c' d) (hheap : d.heap = c'.heap)
    (hcallbacks : d.callbacks = c'.callbacks) : Collected target F dying c d where
  wellFormed := hheap ▸ h.wellFormed
  tagged := hheap ▸ h.tagged
  clean := hheap ▸ h.clean
  moves := hheap ▸ h.moves
  fixed := h.fixed
  used_le := hheap ▸ h.used_le
  maxSize := hheap ▸ h.maxSize
  sorted := h.sorted
  mem_dying := h.mem_dying
  roots := hs.roots.trans h.roots
  providers := hs.providers.trans h.providers
  pending := hs.pending.trans h.pending
  inFlight := hs.inFlight.trans h.inFlight
  weak id := by
    rw [hs.weak]
    exact h.weak id
  callbacks := hcallbacks ▸ h.callbacks
  followed := h.followed
  nodup := by
    rw [hs.barrier]
    exact h.nodup
  remembered a := by
    rw [hs.barrier, hheap, hs.types]
    exact h.remembered a
  host := hs.host.trans h.host

/-- What a collection does is told by the heap and the tables that it starts from. -/
theorem Collected.of_start {F : Address → Address} {dying : List Address}
    (h : Collected target F dying d c') (hs : SameTables c d) (hheap : d.heap = c.heap)
    (hcallbacks : d.callbacks = c.callbacks) : Collected target F dying c c' := by
  have hroots : d.rootObjects = c.rootObjects := by
    rw [rootObjects, rootObjects, hs.roots, hs.providers, hs.queue]
  have hplace : d.placeAfter target = c.placeAfter target := by
    funext a
    rw [placeAfter, placeAfter, hheap, hs.types, hroots, rememberedFor, rememberedFor, hs.barrier]
  obtain ⟨hw, ht, hcl, hmv, hfix, hused, hmax, hso, hdy, hr, hp, hpe, hfl, hwk, hcb, hn, hrem, hho,
    hfo⟩ := h
  rw [hheap, hs.types, hroots] at hmv
  simp only [hheap, hs.types, hroots, hcallbacks, hplace] at hdy hwk hcb hfo
  exact ⟨hw, ht, hcl, hmv, hheap ▸ hfix, hheap ▸ hused, hheap ▸ hmax, hso, hdy, hs.roots ▸ hr,
    hs.providers ▸ hp, hs.pending ▸ hpe, hs.inFlight ▸ hfl, hs.weak ▸ hwk, hcb, hn, hrem,
    hho.trans hs.host, hfo⟩

/-- The last phase, seen from the collector before the first one. -/
theorem Compacts.collected {c₁ : Collector κ TypeRegistry} {dying : List Address} (hc : c.Sound)
    {h' : Heap} {stats stats' : TraceStats}
    (hmark : Heap.markLive c.types target c.rootObjects (c.rememberedFor target) c.heap =
      .ok stats h')
    (hresurrect : Heap.resurrect c.types target (Trace.candidates target h') h' =
      .ok stats' c₁.heap)
    (hm : c.heap.OnlyMarks c₁.heap)
    (hkept : ∀ a ∈ c.heap.objects, (c₁.heap.header a).isMarked = true ↔
      target.condemnsAddress a = true ∧ c.heap.Kept c.types target c.rootObjects a)
    (hsame : c₁ =
      { c with heap := c₁.heap, log := c₁.log, processLog := c₁.processLog, phase := c₁.phase })
    (hsorted : dying.Pairwise fun a b => a.toNat < b.toNat)
    (hdying : ∀ a, a ∈ dying ↔ c.heap.Dying c.types target c.rootObjects a)
    (hcp : Compacts target dying (Plan.ofHeap c₁.heap target).place c₁ c') :
    Collected target (Plan.ofHeap c₁.heap target).place dying c c' := by
  have hobjects := hm.layout.objects hc.heap.wellFormed
  have hw₁ := hm.layout.wellFormed hc.heap.wellFormed
  have hhost : c₁.host = c.host := by rw [hsame]
  have hqueue : c₁.queue = c.queue := by rw [hsame]
  have htypes : c₁.types = c.types := congrArg Host.types hhost
  -- the marks tell who survives, so the compaction moves the survivors
  have halive := (hc.heap.traced hm hkept).2
  have hmoves := hcp.heap.moves
  rw [htypes] at hmoves
  have hiff : ∀ a ∈ c.heap.objects,
      (target.condemnsAddress a = true ∧ (c₁.heap.header a).isMarked = false) ↔
        ¬c.heap.Survives c.types target c.rootObjects a := by
    intro a ha
    rw [← halive, Compaction.Alive, hobjects]
    simp [ha]
  have hplace : ∀ a ∈ c.heap.objects, ∀ b : Address,
      (if target.condemnsAddress a = true ∧ (c₁.heap.header a).isMarked = false then none
        else some b) = if c.heap.Survives c.types target c.rootObjects a then some b else none := by
    intro a ha b
    by_cases hs : c.heap.Survives c.types target c.rootObjects a
    · rw [if_pos hs, if_neg fun hboth => (hiff a ha).1 hboth hs]
    · rw [if_neg hs, if_pos ((hiff a ha).2 hs)]
  refine
    { wellFormed := hcp.heap.wellFormed
      tagged := hcp.heap.tagged
      clean := hcp.heap.clean
      moves := hmoves.of_onlyMarks hm halive fun a ha => ha.1
      fixed := fun a ha hout => ?_
      used_le := hm.layout.usedBytes ▸ hcp.heap.used_le
      maxSize := hcp.heap.maxSize.trans hm.layout.maxSize
      sorted := hsorted
      mem_dying := hdying
      roots := hcp.roots.trans (by rw [hsame])
      providers := hcp.providers.trans (by rw [hsame])
      pending := hqueue ▸ hcp.pending
      inFlight := hqueue ▸ hcp.inFlight
      weak := fun id => ?_
      callbacks := ?_
      nodup := hcp.nodup
      remembered := hcp.remembered
      host := hcp.host.trans hhost
      followed := fun a ha => ?_ }
  · -- an object that is not collected, or is large, keeps its place
    rcases hout with hc' | hl
    · exact Compaction.place_of_not_condemned hw₁ hc'
    · refine Compaction.place_eq_self hw₁ ?_
      intro g hg
      rw [hl] at hg
      exact absurd (Option.some.inj hg) (by simp)
  · have hweak : c₁.weak = c.weak := by rw [hsame]
    rw [hcp.weak, hweak]
    cases hid : c.weak.handles.get? id with
    | none => rfl
    | some o =>
      cases o with
      | none => rfl
      | some a =>
        have ha := hc.weak a (HandleTable.mem_values_iff.2 ⟨id, hid⟩)
        exact congrArg some (hplace a ha _)
  · -- only the callbacks of the dead are dropped
    obtain ⟨orphans, horphans, hcallbacks⟩ := hcp.callbacks
    have hsame : c₁.callbacks = c.callbacks := by rw [hsame]
    refine ⟨orphans, fun slot hslot => ?_, hsame ▸ hcallbacks⟩
    obtain ⟨hne, a, ha, hdead, rfl⟩ := horphans slot hslot
    rw [halive] at hdead
    rw [hobjects] at ha
    exact ⟨hne, a, ha, hdead, (congrArg Header.Identity.slot (hm.identity ha)).symm⟩
  · obtain ⟨comp, h₁, hstart, hfate⟩ := hcp.followed
    rw [placeAfter, Heap.placeAfter_of_ok hmark hresurrect hstart, hfate a (hobjects ▸ ha)]
    exact hplace a ha _

end Collected

/-- A cycle fails in the first phase or not at all. -/
theorem Sound.runCycle_spec (hc : c.Sound) (target : Target) (cycle : Nat) :
    (∃ e h', runCycle target cycle c = .error e { c with phase := .marking, heap := h' } ∧
      c.heap.OnlyMarks h' ∧
      (∀ a ∈ c.heap.objects, (h'.header a).isMarked = true → target.condemnsAddress a = true) ∧
      ∃ r ∈ c.rootObjects, r ∉ c.heap.objects) ∨
    (∃ tally c' F dying, runCycle target cycle c = .ok tally c' ∧
      (∀ r ∈ c.rootObjects, r ∈ c.heap.objects) ∧ Collected target F dying c c') := by
  have hc₁ : (enter .marking c).Sound := hc.of_tables ⟨rfl, rfl, rfl, rfl, rfl, rfl, rfl⟩ rfl
  rcases hc₁.markPhase_spec with
    ⟨e, h', hrun, hm, hmarked, hbad⟩ | ⟨n, h', hrun, hm, hroots, ⟨stats, hmark⟩, hmarked⟩
  · refine Or.inl ⟨e, h', ?_, hm, hmarked, hbad⟩
    rw [runCycle, Action.modify_bind, Action.bind_of_error hrun]
    rfl
  · obtain ⟨m, h'', hfinal, ⟨stats', hresurrect⟩, hm', hkept⟩ := hc₁.finalizePhase_spec
      (d := enter .finalizing (leave cycle "mark" { enter .marking c with heap := h' }))
      hm hmarked rfl rfl
    have hobjects := hm'.layout.objects hc.heap.wellFormed
    have hdying : ∀ a, a ∈ Trace.candidates target h' ↔
        c.heap.Dying c.types target c.rootObjects a := fun a =>
      Heap.mem_candidates_iff hc.heap.toTraceable hm hmarked
    have hsorted : (Trace.candidates target h').Pairwise fun a b => a.toNat < b.toNat := by
      rw [Heap.candidates_eq hc.heap.toTraceable hm]
      exact hc.heap.wellFormed.objects_sorted.filter _
    -- the collector before the last phase differs from the first one in its heap, its
    -- logs and its phase
    obtain ⟨d, hd⟩ : ∃ d, d = enter .compacting (leave cycle "finalize"
        { enter .finalizing (leave cycle "mark" { enter .marking c with heap := h' }) with
          heap := h'' }) := ⟨_, rfl⟩
    have hsame : d =
        { c with heap := d.heap, log := d.log, processLog := d.processLog, phase := d.phase } := by
      rw [hd]
      rfl
    have hheap : d.heap = h'' := by
      rw [hd]
      rfl
    subst hheap
    have htypes : d.types = c.types := by
      rw [hsame]
      rfl
    have hroots' : d.rootObjects = c.rootObjects := by
      rw [hsame]
      rfl
    have hholders : d.rememberedFor target = c.rememberedFor target := by
      rw [hsame]
      rfl
    have hweak : d.weak = c.weak := by rw [hsame]
    obtain ⟨answer, c', hcompact, hcp⟩ := compactPhase_spec (c := d)
      (by rw [htypes]; exact (hc.heap.traced hm' hkept).1)
      (by
        rw [htypes, hholders]
        exact (hc.remembersYounger target).of_onlyMarks hc.heap.wellFormed hm')
      (by rw [hroots', hobjects]; exact hroots) (by rw [hweak, hobjects]; exact hc.weak)
      (fun a ha => hobjects ▸ ((hdying a).1 ha).1)
    refine Or.inr ⟨⟨n + m, (Trace.candidates target h').length, answer.2, answer.1⟩,
      leave cycle "compact" c', (Plan.ofHeap d.heap target).place, Trace.candidates target h', ?_,
      hroots, ?_⟩
    · rw [runCycle, Action.modify_bind, Action.bind_of_ok hrun, Action.modify_bind,
        Action.modify_bind, Action.bind_of_ok hfinal]
      rw [hd] at hcompact
      exact Action.bind_of_ok hcompact _
    · exact (hcp.collected hc hmark hresurrect hm' hkept hsame hsorted hdying).of_tables
        ⟨rfl, rfl, rfl, rfl, rfl, rfl, rfl⟩ rfl rfl

theorem foldl_emit {ω : Type} (events : List Event) (c : Collector κ ω) :
    events.foldl emit c =
      { c with
        log := (events.foldl emit c).log
        processLog := (events.foldl emit c).processLog } := by
  induction events generalizing c with
  | nil => rfl
  | cons e rest ih =>
    rw [List.foldl_cons, ih (c.emit e)]
    rfl

/-- What a collection that fails leaves behind: every object as it was, and the tables. -/
structure Untouched (c c' : Collector κ TypeRegistry) : Prop extends SameTables c c' where
  heap : Heap.Relabels (fun _ x => x) c.heap c'.heap

/-- A collection fails only if a provider names something that is no object. -/
theorem Sound.collectFor_spec (hc : c.Sound) (target : Target) (reason : Reason) :
    (∃ e c', collectFor target reason c = .error e c' ∧ Untouched c c' ∧
      ∃ slots ∈ c.providers.values, ∃ a ∈ slots.objects, a ∉ c.heap.objects) ∨
    (∃ report c' F dying, collectFor target reason c = .ok report c' ∧
      (∀ a ∈ c.rootObjects, a ∈ c.heap.objects) ∧ Collected target F dying c c') := by
  obtain ⟨d, hd⟩ : ∃ d, d = (beginCycle target reason c).2 := ⟨_, rfl⟩
  have hheap : d.heap = c.heap := by
    rw [hd]
    rfl
  have hs : SameTables c d := by
    rw [hd]
    exact ⟨rfl, rfl, rfl, rfl, rfl, rfl, rfl⟩
  have hcallbacks : d.callbacks = c.callbacks := by
    rw [hd]
    rfl
  have hroots : d.rootObjects = c.rootObjects := by
    rw [hd]
    rfl
  rcases (hc.of_tables hs hheap).runCycle_spec target d.cycles with
    ⟨e, h', hrun, hm, hmarked, hbad⟩ | ⟨tally, c', F, dying, hrun, hall, hcol⟩
  · rw [hheap] at hm hmarked
    refine Or.inl ⟨e, abandon target (endCycle { d with phase := .marking, heap := h' }), ?_,
      ⟨⟨hs.host, hs.roots, hs.providers, hs.pending, hs.inFlight, hs.weak, hs.barrier⟩,
        Heap.clearMarks_spec hc.heap.wellFormed hc.heap.clean hm hmarked⟩, ?_⟩
    · rw [hd] at hrun ⊢
      rw [collectFor]
      simp only [hrun]
    · -- only a provider can bring in an address where no object is
      by_contra hno
      obtain ⟨r, hr, hout⟩ := hbad
      rw [hroots] at hr
      rw [hheap] at hout
      refine hout (hc.mem_rootObjects ?_ r hr)
      intro slots hslots a ha
      by_contra hne
      exact hno ⟨slots, hslots, a, ha, hne⟩
  · obtain ⟨report, hreport⟩ : ∃ report, report = reportOf d.cycles target reason c.heap.usedBytes
      c'.endCycle.heap.usedBytes tally := ⟨_, rfl⟩
    have hemit := foldl_emit (closingEvents report)
      { c'.endCycle with statistics := c'.endCycle.statistics.recordCollection report }
    refine Or.inr ⟨report, (closingEvents report).foldl emit
      { c'.endCycle with statistics := c'.endCycle.statistics.recordCollection report },
      F, dying, ?_, ?_, ?_⟩
    · rw [hreport]
      rw [hd] at hrun ⊢
      rw [collectFor]
      simp only [hrun]
      rfl
    · rw [hroots, hheap] at hall
      exact hall
    · rw [hemit]
      exact (hcol.of_start hs hheap hcallbacks).of_tables ⟨rfl, rfl, rfl, rfl, rfl, rfl, rfl⟩
        rfl rfl

/-- A collection that succeeds. -/
theorem Sound.collected_of_ok (hc : c.Sound) {reason : Reason} {report : Report}
    (hrun : collectFor target reason c = .ok report c') :
    ∃ F dying, (∀ a ∈ c.rootObjects, a ∈ c.heap.objects) ∧ Collected target F dying c c' := by
  rcases hc.collectFor_spec target reason with
    ⟨e, d, herror, -⟩ | ⟨report', d, F, dying, hok, hall, hcol⟩
  · rw [herror] at hrun
    exact absurd hrun (by simp)
  · obtain ⟨-, rfl⟩ := EStateM.Result.ok.inj (hok.symm.trans hrun)
    exact ⟨F, dying, hall, hcol⟩

/-- A collection that fails. -/
theorem Sound.untouched_of_error (hc : c.Sound) {reason : Reason} {e : Error}
    (hrun : collectFor target reason c = .error e c') : Untouched c c' := by
  rcases hc.collectFor_spec target reason with
    ⟨e', d, herror, huntouched, -⟩ | ⟨report, d, F, dying, hok, -⟩
  · obtain ⟨-, rfl⟩ := EStateM.Result.error.inj (herror.symm.trans hrun)
    exact huntouched
  · rw [hok] at hrun
    exact absurd hrun (by simp)

/-- Whether it fails or not. -/
theorem Sound.final_collectFor (hc : c.Sound) (target : Target) (reason : Reason) :
    Untouched c ((collectFor target reason).final c) ∨
    ∃ F dying, (∀ a ∈ c.rootObjects, a ∈ c.heap.objects) ∧
      Collected target F dying c ((collectFor target reason).final c) := by
  cases hrun : collectFor target reason c with
  | ok report c' =>
    rw [Action.final_of_ok hrun]
    exact Or.inr (hc.collected_of_ok hrun)
  | error e c' =>
    rw [Action.final_of_error hrun]
    exact Or.inl (hc.untouched_of_error hrun)

/-- A collection succeeds if the slots of all providers name objects. -/
theorem Sound.collectFor_ok (hc : c.Sound)
    (hproviders : ∀ slots ∈ c.providers.values, ∀ a ∈ slots.objects, a ∈ c.heap.objects)
    (target : Target) (reason : Reason) :
    ∃ report c', collectFor target reason c = .ok report c' := by
  rcases hc.collectFor_spec target reason with
    ⟨e, d, -, -, slots, hslots, a, ha, hout⟩ | ⟨report, d, F, dying, hok, -⟩
  · exact absurd (hproviders slots hslots a ha) hout
  · exact ⟨report, d, hok⟩

/-- Where no provider is registered, none names what is no object. -/
theorem provided_of_no_providers (hnone : c.providers.values = []) :
    ∀ slots ∈ c.providers.values, ∀ a ∈ slots.objects, a ∈ c.heap.objects := by
  rw [hnone]
  exact fun slots hslots => absurd hslots List.not_mem_nil

/-! ### Soundness -/

theorem Untouched.sound (hc : c.Sound) (h : Untouched c c') : c'.Sound :=
  hc.of_relabels h.toSameTables h.heap fun _ _ => .refl _

theorem survives_of_root (hall : ∀ a ∈ c.rootObjects, a ∈ c.heap.objects)
    (ha : a ∈ c.rootObjects) : c.heap.Survives c.types target c.rootObjects a :=
  ⟨hall a ha, Or.inr (Or.inl ⟨a, Or.inl ha, .refl⟩)⟩

theorem Collected.sound {F : Address → Address} {dying : List Address} (hc : c.Sound)
    (hall : ∀ a ∈ c.rootObjects, a ∈ c.heap.objects) (h : Collected target F dying c c') :
    c'.Sound := by
  have htypes : c'.types = c.types := congrArg Host.types h.host
  have hroot : ∀ a ∈ c.rootObjects, F a ∈ c'.heap.objects := fun a ha =>
    h.moves.mem_objects (survives_of_root hall ha)
  have hqueue : ∀ a ∈ c.queue.objects, F a ∈ c'.heap.objects := fun a ha =>
    hroot a (List.mem_append_right _ ha)
  refine
    { heap :=
        { wellFormed := h.wellFormed
          tagged := h.tagged
          typed := htypes ▸ h.moves.typed hc.heap.typed fun a ha => ha.1
          noDangling := htypes ▸ h.moves.noDangling fun a b ha hab =>
            ha.pointsTo hc.heap.noDangling hab
          clean := h.clean
          used_le := h.maxSize ▸ Nat.le_trans h.used_le hc.heap.used_le
          maxSize_le := h.maxSize ▸ hc.heap.maxSize_le }
      roots := fun b hb => ?_
      queue := fun b hb => ?_
      weak := fun b hb => ?_
      remembered := fun a ha => ((h.remembered a).1 ha).1
      nodup := h.nodup
      complete := fun a ha hy => (h.remembered a).2 ⟨ha, hy⟩ }
  · rw [h.roots] at hb
    obtain ⟨a, ha, rfl⟩ := HandleTable.mem_values_map.1 hb
    exact hroot a (List.mem_append_left _ (List.mem_append_left _ ha))
  · -- in the queue are the moved entries and the dying objects, and both survive
    rcases List.mem_append.1 hb with hb | hb
    · rw [h.pending] at hb
      rcases List.mem_append.1 hb with hb | hb
      · obtain ⟨a, ha, rfl⟩ := List.mem_map.1 hb
        exact hqueue a (List.mem_append_left _ ha)
      · obtain ⟨a, ha, rfl⟩ := List.mem_map.1 hb
        have hd := (h.mem_dying a).1 ha
        exact h.moves.mem_objects ⟨hd.1, Or.inr (Or.inr ⟨a, hd, .refl⟩)⟩
    · rw [h.inFlight, Option.mem_toList] at hb
      obtain ⟨a, ha, rfl⟩ := Option.map_eq_some_iff.1 hb
      exact hqueue a (FinalizationQueue.mem_objects_of_inFlight ha)
  · obtain ⟨id, hid⟩ := HandleTable.mem_values_iff.1 hb
    rw [h.weak] at hid
    obtain ⟨o, -, ho⟩ := Option.map_eq_some_iff.1 hid
    obtain ⟨a, -, ha⟩ := Option.bind_eq_some_iff.1 ho
    -- a weak handle is kept only for a survivor
    split at ha
    · rename_i hs
      rw [← Option.some.inj ha]
      exact h.moves.mem_objects hs
    · exact absurd ha (by simp)

/-- A collection keeps a collector sound, whether it fails or not. -/
theorem Sound.collectFor (hc : c.Sound) (target : Target) (reason : Reason) :
    ((collectFor target reason).final c).Sound := by
  rcases hc.final_collectFor target reason with h | ⟨F, dying, hall, h⟩
  · exact h.sound hc
  · exact h.sound hc hall

end Collector

end GenerationalHeap
