/-
A collection depends on which objects are roots, and not on how they are listed.

* `Heap.redirectSlots_perm`, `Compaction.complete_congr` — the holders may be redirected in any
  order.
* `Collector.Relisted` — a collector with the same roots and remembered holders, listed in
  another order or more than once.
* `Collector.Relisted.kept`, `Collector.Relisted.finished` — its passes make the same heaps: the
  marks are the same, and all that follows is told by the marks.
* `Collector.Sound.collection_ignores_listing` — so a collection of it ends in the same heap,
  with the same report, and again in collectors that differ in their lists alone.
-/
import GenerationalHeap.Proofs.MarkOrder
import GenerationalHeap.Proofs.Succession

namespace GenerationalHeap

/-! ### References -/

namespace Heap

variable {h h' : Heap} {types : TypeSystem} {F : Address → Address} {a b : Address}
  {l l' : List Address}

/-- What a slot holds stays if it is null or names an object that stays. -/
def SlotStays (F : Address → Address) (h : Heap) (slot : Address × Nat) : Prop :=
  h.word slot.1 slot.2 = 0 ∨ F (h.word slot.1 slot.2) = h.word slot.1 slot.2

theorem redirectSlot_of_stays {x : Address × Nat} (hx : SlotStays F h x) :
    h.redirectSlot F x = h := if_pos hx

theorem redirectSlot_of_not_stays {x : Address × Nat} (hx : ¬SlotStays F h x) :
    h.redirectSlot F x = h.setWord x.1 x.2 (F (h.word x.1 x.2)) := if_neg hx

/-- Slots that do not meet may be redirected in either order. -/
theorem redirectSlot_comm {x y : Address × Nat}
    (hapart : Apart x.1 (headerSize + x.2) 8 y.1 (headerSize + y.2) 8) (h : Heap) :
    (h.redirectSlot F x).redirectSlot F y = (h.redirectSlot F y).redirectSlot F x := by
  have hleft : ∀ w, (h.setWord x.1 x.2 w).word y.1 y.2 = h.word y.1 y.2 := by
    intro w
    rw [setWord_eq_patch]
    exact word_patch_of_apart (by rwa [← wordBytes, size_wordBytes])
  have hright : ∀ w, (h.setWord y.1 y.2 w).word x.1 x.2 = h.word x.1 x.2 := by
    intro w
    rw [setWord_eq_patch]
    exact word_patch_of_apart (by rw [← wordBytes, size_wordBytes]; exact hapart.symm)
  have hboth : ∀ w w', (h.setWord x.1 x.2 w).setWord y.1 y.2 w' =
      (h.setWord y.1 y.2 w').setWord x.1 x.2 w := by
    intro w w'
    simp only [setWord_eq_patch]
    exact patch_comm (by rwa [← wordBytes, ← wordBytes, size_wordBytes, size_wordBytes]) h
  -- either slot is written or left alone, whatever happens to the other
  by_cases hx : SlotStays F h x <;> by_cases hy : SlotStays F h y
  · rw [redirectSlot_of_stays hx, redirectSlot_of_stays hy, redirectSlot_of_stays hx]
  · rw [redirectSlot_of_stays hx, redirectSlot_of_not_stays hy,
      redirectSlot_of_stays (by rwa [SlotStays, hright])]
  · rw [redirectSlot_of_stays hy, redirectSlot_of_not_stays hx,
      redirectSlot_of_stays (by rwa [SlotStays, hleft])]
  · rw [redirectSlot_of_not_stays hx, redirectSlot_of_not_stays hy,
      redirectSlot_of_not_stays (by rwa [SlotStays, hleft]),
      redirectSlot_of_not_stays (by rwa [SlotStays, hright]), hleft, hright, hboth]

/-- The slots of objects do not meet. -/
theorem slotsOfEach_apart (hw : h.WellFormed) (hl : ∀ a ∈ l, a ∈ h.objects) {x y : Address × Nat}
    (hx : x ∈ h.slotsOfEach types l) (hy : y ∈ h.slotsOfEach types l) (hxy : x ≠ y) :
    Apart x.1 (headerSize + x.2) 8 y.1 (headerSize + y.2) 8 := by
  obtain ⟨a, ha, hx⟩ := List.mem_flatMap.1 hx
  obtain ⟨o, ho, rfl⟩ := List.mem_map.1 hx
  obtain ⟨b, hb, hy⟩ := List.mem_flatMap.1 hy
  obtain ⟨p, hp, rfl⟩ := List.mem_map.1 hy
  have hfits : ∀ {a o}, o ∈ h.slots types a → headerSize + o + 8 ≤ (h.header a).blockSize := by
    intro a o ho
    have := slot_fits ho
    rw [Header.blockSize_eq]
    omega
  by_cases hab : a = b
  · subst hab
    have hne : o ≠ p := fun hop => hxy (hop ▸ rfl)
    have hslots := slots_apart ho hp
    intro s _ _
    dsimp only
    omega
  · exact hw.apart_blocks (hl a ha) (hl b hb) hab (hfits ho) (hfits hp)

/-- The order of the objects whose slots are redirected does not matter. -/
theorem redirectSlots_perm (hw : h.WellFormed) (hl : ∀ a ∈ l, a ∈ h.objects) (hp : l.Perm l') :
    (h.slotsOfEach types l).foldl (redirectSlot F) h' =
      (h.slotsOfEach types l').foldl (redirectSlot F) h' := by
  refine (hp.flatMap_right _).foldl_eq' (fun x hx y hy z => ?_) h'
  by_cases hxy : x = y
  · rw [hxy]
  · exact redirectSlot_comm (slotsOfEach_apart hw hl hx hy hxy) z

end Heap

/-! ### Completing a compaction -/

namespace Compaction

variable {h h' h₁ h₂ h₂' : Heap} {types : TypeSystem} {target : Target} {c : Compaction}
  {holders holders' : List Address} {sweep : Sweep} {r : Remembered}

/-- The heap that is left when the headers are cleared does not depend on who was remembered. -/
theorem heap_of_finish {previous : List Address} (hrun : c.finish types previous h = .ok r h') :
    h' = (c.settled h).foldl clearObject h := by
  rw [finish] at hrun
  split at hrun
  · exact (EStateM.Result.ok.inj hrun).2.symm
  · exact absurd hrun (by simp)

section Congr

variable (hT : h.Traced types target) (hs : Started h target c h₁)
  (hrem : h.RemembersYounger types target holders)
  (hrem' : h.RemembersYounger types target holders')
  (hsame : ∀ a, a ∈ holders' ↔ a ∈ holders)
include hT hs hrem hrem' hsame

/-- The same slots are redirected, whatever the order of the remembered holders. -/
theorem fixReferences_congr (hrun : c.fixReferences types holders h₁ = .ok () h₂)
    (hrun' : c.fixReferences types holders' h₁ = .ok () h₂') : h₂' = h₂ := by
  obtain ⟨_, hfix, -, heach⟩ := redirects_all hT hs hrem
  obtain ⟨_, hfix', -, heach'⟩ := redirects_all hT hs hrem'
  obtain ⟨-, rfl⟩ := EStateM.Result.ok.inj (hrun.symm.trans hfix)
  obtain ⟨-, rfl⟩ := EStateM.Result.ok.inj (hrun'.symm.trans hfix')
  have hperm : (c.holders ++ holders').Perm (c.holders ++ holders) :=
    ((List.perm_ext_iff_of_nodup hrem'.nodup hrem.nodup).2 hsame).append_left _
  have hobjects : ∀ a ∈ c.holders ++ holders', a ∈ h₁.objects := by
    intro a ha
    rw [hs.objects_eq hT]
    rcases List.mem_append.1 ha with ha | ha
    · exact ((hs.mem_holders hT).1 ha).1
    · exact (hrem'.mem a ha).1
  rw [heach, heach']
  exact Heap.redirectSlots_perm (hs.wellFormed hT) hobjects hperm

/-- What remains to be done once the roots are redirected depends on which holders are
remembered, and not on their order. -/
theorem complete_congr (hrun : c.complete types holders h₁ = .ok (sweep, r) h') :
    ∃ r', c.complete types holders' h₁ = .ok (sweep, r') h' ∧
      ∀ a, a ∈ r'.holders ↔ a ∈ r.holders := by
  obtain ⟨h₂, _, h₃, _, _, hfix, hsweep, hfinish, -, -, -, -, -, hr⟩ := complete_steps hT hs hrem
  obtain ⟨h₂', _, h₃', r', h₅', hfix', hsweep', hfinish', -, -, -, -, -, hr'⟩ :=
    complete_steps hT hs hrem'
  obtain ⟨hpair, rfl⟩ :=
    EStateM.Result.ok.inj (hrun.symm.trans (complete_of_steps hfix hsweep hfinish))
  obtain ⟨rfl, rfl⟩ := Prod.mk.inj hpair
  -- the two runs are one, up to what is remembered in the end
  obtain rfl : h₂' = h₂ := fixReferences_congr hT hs hrem hrem' hsame hfix hfix'
  obtain ⟨rfl, rfl⟩ := EStateM.Result.ok.inj (hsweep.symm.trans hsweep')
  obtain rfl : h₅' = h' := (heap_of_finish hfinish').trans (heap_of_finish hfinish).symm
  refine ⟨r', complete_of_steps hfix' hsweep' hfinish', fun a => ?_⟩
  rw [hr', hr, hsame]

end Congr

end Compaction

/-! ### Other lists of the same roots -/

namespace Collector

variable {κ : Type} {target : Target} {reason : Reason} {c c' d : Collector κ TypeRegistry}
  {a : Address}

/-- The collector `d` is `c` with the same roots and the same remembered holders, listed in
another order or more than once. -/
structure Relisted (c d : Collector κ TypeRegistry) : Prop where
  rest : ∃ roots providers remembered,
    d = { c with roots, providers, barrier := { c.barrier with remembered } }
  roots : ∀ a, a ∈ d.rootObjects ↔ a ∈ c.rootObjects
  remembered : ∀ a, a ∈ d.barrier.remembered.holders ↔ a ∈ c.barrier.remembered.holders

namespace Relisted

variable (hs : c.Relisted d)
include hs

/-- What does not look at the lists is the same. -/
theorem same {α : Type} (f : Collector κ TypeRegistry → α)
    (hf : ∀ roots providers remembered,
      f { c with roots, providers, barrier := { c.barrier with remembered } } = f c) :
    f d = f c := by
  obtain ⟨roots, providers, remembered, rfl⟩ := hs.rest
  exact hf roots providers remembered

/-- A change that neither looks at the lists nor changes them. -/
theorem map (f : Collector κ TypeRegistry → Collector κ TypeRegistry)
    (hf : ∀ roots providers remembered,
      f { c with roots, providers, barrier := { c.barrier with remembered } } =
        { f c with roots, providers, barrier := { (f c).barrier with remembered } })
    (hroots : ∀ e, (f e).rootObjects = e.rootObjects)
    (hremembered : ∀ e, (f e).barrier.remembered = e.barrier.remembered) :
    (f c).Relisted (f d) := by
  refine ⟨?_, fun a => ?_, fun a => ?_⟩
  · obtain ⟨roots, providers, remembered, rfl⟩ := hs.rest
    exact ⟨roots, providers, remembered, hf roots providers remembered⟩
  · rw [hroots, hroots]
    exact hs.roots a
  · rw [hremembered, hremembered]
    exact hs.remembered a

theorem heap : d.heap = c.heap := hs.same (·.heap) fun _ _ _ => rfl

theorem types : d.types = c.types := hs.same (·.types) fun _ _ _ => rfl

theorem weak : d.weak = c.weak := hs.same (·.weak) fun _ _ _ => rfl

theorem queue : d.queue = c.queue := hs.same (·.queue) fun _ _ _ => rfl

theorem cycles : d.cycles = c.cycles := hs.same (·.cycles) fun _ _ _ => rfl

theorem mem_rememberedFor : a ∈ d.rememberedFor target ↔ a ∈ c.rememberedFor target := by
  simp only [rememberedFor, Remembered.within, List.mem_filter, Array.mem_toList_iff,
    hs.remembered]

theorem held_iff : d.heap.Held d.types target d.rootObjects a ↔
    c.heap.Held c.types target c.rootObjects a := by
  rw [hs.heap, hs.types]
  simp only [Heap.Held, hs.roots]

/-! ### The passes -/

section Passes

variable (hc : c.Sound) (hd : d.Sound) (p : Passes target c) (q : Passes target d)
include hc hd

/-- The same objects are marked, and a heap made by marks is known by them. -/
theorem marked : q.marked = p.marked := by
  have hw := hc.heap.wellFormed
  have hclean := hc.heap.clean
  have hm := Heap.withMarks_markLive hw hclean hc.heap.tagged p.markLive
  have hm' := Heap.withMarks_markLive hd.heap.wellFormed hd.heap.clean hd.heap.tagged q.markLive
  have hmarked := (p.onlyMarks_marked hc).2
  have hmarked' := (q.onlyMarks_marked hd).2
  rw [hs.heap] at hm' hmarked'
  refine hm'.eq hw hclean hm fun a ha => ?_
  rw [hmarked a ha, hmarked' a ha, ← hs.heap, hs.held_iff, hs.heap]

theorem dying : q.dying = p.dying :=
  congrArg (Trace.candidates target) (hs.marked hc hd p q)

/-- All that follows the first pass is told by its marks. -/
theorem kept : q.kept = p.kept := by
  have hrun := q.resurrect
  rw [hs.types, hs.marked hc hd p q, p.resurrect] at hrun
  exact (EStateM.Result.ok.inj hrun).2.symm

theorem started : q.compaction = p.compaction ∧ q.planned = p.planned := by
  have hrun := q.start
  rw [hs.kept hc hd p q, p.start] at hrun
  exact ⟨(EStateM.Result.ok.inj hrun).1.symm, (EStateM.Result.ok.inj hrun).2.symm⟩

theorem finished : q.finished = p.finished ∧ q.sweep = p.sweep ∧
    ∀ a, a ∈ q.remembered.holders ↔ a ∈ p.remembered.holders := by
  have hrem := q.remembersYounger hd
  rw [hs.kept hc hd p q, hs.types] at hrem
  obtain ⟨r, hrun, hr⟩ := Compaction.complete_congr (p.traced hc) (p.started hc)
    (p.remembersYounger hc) hrem (fun a => hs.mem_rememberedFor) p.complete
  have hrun' := q.complete
  rw [(hs.started hc hd p q).1, (hs.started hc hd p q).2, hs.types, hrun] at hrun'
  obtain ⟨hpair, hheap⟩ := EStateM.Result.ok.inj hrun'
  obtain ⟨hsweep, hremembered⟩ := Prod.mk.inj hpair
  exact ⟨hheap.symm, hsweep.symm, hremembered ▸ hr⟩

theorem tally : q.tally = p.tally := by
  obtain ⟨hcompaction, hplanned⟩ := hs.started hc hd p q
  have hmarked : q.tally.marked = p.tally.marked := by
    rw [q.marked_eq hd, p.marked_eq hc, hs.kept hc hd p q]
  calc q.tally
      = { marked := q.tally.marked
          enqueued := q.dying.length
          weakCleared := (d.weak.process (q.compaction.fate q.planned)).1
          compaction := q.compaction.stats q.sweep } := rfl
    _ = p.tally := by
        rw [hmarked, hs.dying hc hd p q, hs.weak, hcompaction, hplanned,
          (hs.finished hc hd p q).2.1]
        rfl

/-- After the passes the lists are the only difference again. -/
theorem outcome (cycle : Nat) : (p.outcome cycle).Relisted (q.outcome cycle) := by
  obtain ⟨hcompaction, hplanned⟩ := hs.started hc hd p q
  obtain ⟨hfinished, hsweep, hremembered⟩ := hs.finished hc hd p q
  have hdying := hs.dying hc hd p q
  refine ⟨⟨(q.outcome cycle).roots, (q.outcome cycle).providers, q.remembered, ?_⟩, ?_,
    hremembered⟩
  · simp only [Passes.outcome, Passes.queue, hcompaction, hplanned, hfinished, hsweep, hdying]
    obtain ⟨_, _, _, rfl⟩ := hs.rest
    rfl
  · intro b
    have hroots : ∀ {e : Collector κ TypeRegistry} (u : Passes target e),
        b ∈ (u.outcome cycle).rootObjects ↔ ∃ a, (a ∈ e.rootObjects ∨ a ∈ u.dying) ∧
          u.compaction.forward u.planned a = b :=
      fun u => mem_rootObjects_of_map rfl rfl rfl rfl
    rw [hroots q, hroots p, hcompaction, hplanned, hdying]
    simp only [hs.roots]

end Passes

/-! ### Before and after the passes -/

theorem begun : (beginCycle target reason c).2.Relisted (beginCycle target reason d).2 :=
  hs.map (fun c => (beginCycle target reason c).2) (fun _ _ _ => rfl) (fun _ => rfl) fun _ => rfl

theorem emit (e : Event) : (c.emit e).Relisted (d.emit e) :=
  hs.map (Collector.emit · e) (fun _ _ _ => rfl) (fun _ => rfl) fun _ => rfl

theorem foldl_emit (events : List Event) :
    (events.foldl Collector.emit c).Relisted (events.foldl Collector.emit d) := by
  induction events generalizing c d with
  | nil => exact hs
  | cons e rest ih => exact ih (hs.emit e)

theorem conclude (report : Report) : (c.conclude report).Relisted (d.conclude report) := by
  refine foldl_emit ?_ (closingEvents report)
  exact hs.map
    (fun c => { c.endCycle with statistics := c.endCycle.statistics.recordCollection report })
    (fun _ _ _ => rfl) (fun _ => rfl) fun _ => rfl

end Relisted

/-- A collection does not depend on how roots and remembered holders are listed. If it succeeds
with one listing, it does so with the other, with the same report. It puts every object at the
same place or reclaims it as well, and leaves the same heap, the same weak handles and the same
queue. The lists of what it leaves may differ again, but not in what they name. -/
theorem Sound.collection_ignores_listing (hc : c.Sound) (hd : d.Sound) (hs : c.Relisted d)
    {report : Report} (hrun : Collector.collectFor target reason c = .ok report c') :
    ∃ d', Collector.collectFor target reason d = .ok report d' ∧
      d'.heap = c'.heap ∧ d'.weak = c'.weak ∧ d'.queue = c'.queue ∧
      (∀ a, a ∈ d'.barrier.remembered.holders ↔ a ∈ c'.barrier.remembered.holders) ∧
      (∀ a, d.placeAfter target a = c.placeAfter target a) ∧ c'.Relisted d' := by
  -- the roots are objects in either collector, so neither collection fails
  obtain ⟨F, dying, hall, -⟩ := hc.collected_of_ok hrun
  have hall' : ∀ slots ∈ d.providers.values, ∀ a ∈ slots.objects, a ∈ d.heap.objects := by
    intro slots hslots a ha
    rw [hs.heap]
    refine hall a ((hs.roots a).1 (List.mem_append_left _ (List.mem_append_right _ ?_)))
    exact List.mem_flatMap.2 ⟨slots, hslots, ha⟩
  obtain ⟨report', d', hrun'⟩ := hd.collectFor_ok hall' target reason
  have hbegun : ∀ {e : Collector κ TypeRegistry}, e.Sound →
      (beginCycle target reason e).2.Sound := fun he =>
    he.of_tables ⟨rfl, rfl, rfl, rfl, rfl, rfl, rfl⟩ rfl
  obtain ⟨p, hreport, rfl⟩ := Passes.of_collectFor_begun hrun
  obtain ⟨q, hreport', rfl⟩ := Passes.of_collectFor_begun hrun'
  obtain rfl : report' = report := by
    rw [hreport, hreport', hs.heap, hs.cycles, hs.begun.tally (hbegun hc) (hbegun hd) p q,
      (hs.begun.finished (hbegun hc) (hbegun hd) p q).1]
  have hend := (hs.begun.outcome (hbegun hc) (hbegun hd) p q (c.cycles + 1)).conclude report'
  rw [hs.cycles] at hrun'
  refine ⟨_, hrun', hend.heap, hend.weak, hend.queue, hend.remembered, fun a => ?_, hend⟩
  obtain ⟨hcompaction, hplanned⟩ := hs.begun.started (hbegun hc) (hbegun hd) p q
  have hplace : c.placeAfter target a = (p.compaction.fate p.planned a).apply a :=
    Heap.placeAfter_of_ok p.markLive p.resurrect p.start a
  have hplace' : d.placeAfter target a = (q.compaction.fate q.planned a).apply a :=
    Heap.placeAfter_of_ok q.markLive q.resurrect q.start a
  rw [hplace, hplace', hcompaction, hplanned]

/-- The objects of `pair` under root handles that were given out in a certain order. -/
def rooted (l : List Address) : Collector Unit TypeRegistry :=
  { pair with roots := l.foldl (fun t a => (t.add a).2) {} }

/-- Two objects under two handles, and under three handles in another order: a collection leaves
the same heap and the same remembered holders. -/
theorem listing_of_rooted : (rooted [old, young]).roots.values = [old, young] ∧
    (rooted [young, old, young]).roots.values = [young, old, young] ∧
    ∃ report c' d', collectFor .full .explicit (rooted [old, young]) = .ok report c' ∧
      collectFor .full .explicit (rooted [young, old, young]) = .ok report d' ∧
      d'.heap = c'.heap ∧ c'.Relisted d' := by
  have hvalues : (rooted [old, young]).roots.values = [old, young] := by decide +kernel
  have hvalues' : (rooted [young, old, young]).roots.values = [young, old, young] := by
    decide +kernel
  -- both lists name objects of the heap, so either makes a sound collector
  have hsound : ∀ {l}, (rooted l).roots.values = l → (∀ a ∈ l, a = old ∨ a = young) →
      (rooted l).Sound := by
    intro l hl hmem
    refine reachable_pair.sound.of_roots fun a ha => ?_
    rcases hmem a (hl ▸ ha) with rfl | rfl
    · exact old_mem_pair
    · exact young_mem_pair
  have hc : (rooted [old, young]).Sound := hsound hvalues (by simp)
  have hd : (rooted [young, old, young]).Sound := hsound hvalues' (by simp)
  have hs : (rooted [old, young]).Relisted (rooted [young, old, young]) := by
    refine ⟨⟨_, _, _, rfl⟩, fun a => ?_, fun a => Iff.rfl⟩
    have hothers : (rooted [young, old, young]).providers.values.flatMap RootSlots.objects ++
        (rooted [young, old, young]).queue.objects = [] ∧
        (rooted [old, young]).providers.values.flatMap RootSlots.objects ++
        (rooted [old, young]).queue.objects = [] := by decide +kernel
    rw [rootObjects, rootObjects, List.append_assoc, List.append_assoc, hothers.1, hothers.2,
      hvalues, hvalues']
    simp only [List.append_nil, List.mem_cons, List.not_mem_nil]
    tauto
  obtain ⟨report, c', hrun⟩ := hc.collectFor_ok
    (provided_of_no_providers (show pair.providers.values = [] by decide +kernel)) .full .explicit
  obtain ⟨d', hrun', hheap, -, -, -, -, hend⟩ := hc.collection_ignores_listing hd hs hrun
  exact ⟨hvalues, hvalues', report, c', d', hrun, hrun', hheap, hend⟩

end Collector

end GenerationalHeap
