/-
Collections that fail.

* `Heap.stray?` — the first of some addresses that names no object.
* `Heap.markLive_of_stray` — marking stops at the first root that names no object.
* `Collector.Reachable.collection_fails_at_first_stray` — a collection fails if and only if
  a slot of a provider names no object, and tells the first such slot.
* `Collector.runCycle_ends` — up to the point from which on no collection fails, nothing but
  marks has been written, whatever the payloads and the slots of the providers hold.
* `Collector.Reachable.failed_collection_takes_all_back` — a collection that fails leaves all
  as it was but the number of collections and the event logs. That no header holds an address
  between two calls is used here: `Collector.failed_collection_clears_store`.
-/
import GenerationalHeap.Proofs.Attempts
import GenerationalHeap.Proofs.Effects
import GenerationalHeap.Proofs.Guarantees

namespace GenerationalHeap

/-! ### Stray roots -/

namespace Heap

variable {h : Heap} {types : TypeSystem} {target : Target} {l l' roots : List Address}
  {a : Address}

end Heap

namespace Collector

variable {κ : Type} {config : Config} {types : TypeRegistry} {c c' : Collector κ TypeRegistry}
  {target : Target} {a : Address}

section Host

variable {ω : Type} [Host ω] {c c' d : Collector κ ω}

/-- The types of a host are not changed by visits of its providers. -/
def FixedTypes (ω : Type) [Host ω] : Prop :=
  ∀ provider phase (w : ω), Host.types (Host.visited provider phase w) = Host.types w

/-- Two collectors that differ at most in their heaps, their phases, their logs and in what
the host notes for itself. -/
structure Standing (c c' : Collector κ ω) : Prop where
  config : c'.config = c.config
  roots : c'.roots = c.roots
  providers : c'.providers = c.providers
  weak : c'.weak = c.weak
  barrier : c'.barrier = c.barrier
  callbacks : c'.callbacks = c.callbacks
  queue : c'.queue = c.queue
  statistics : c'.statistics = c.statistics
  inFinalizer : c'.inFinalizer = c.inFinalizer
  cycles : c'.cycles = c.cycles
  types : c'.types = c.types
  logged : ∃ events : List Event, c'.log = events.foldl EventLog.record c.log

namespace Standing

theorem refl (c : Collector κ ω) : Standing c c :=
  ⟨rfl, rfl, rfl, rfl, rfl, rfl, rfl, rfl, rfl, rfl, rfl, [], rfl⟩

variable (hs : Standing c c')
include hs

theorem enter (p : Phase) : Standing c (enter p c') := { hs with }

theorem withHeap (h : Heap) : Standing c { c' with heap := h } := { hs with }

theorem leave (cycle : Nat) (phase : String) : Standing c (leave cycle phase c') :=
  { hs with
    logged := by
      obtain ⟨events, hlog⟩ := hs.logged
      refine ⟨events ++ [.phaseEnd cycle phase 0], ?_⟩
      rw [List.foldl_append, ← hlog]
      rfl }

theorem visitProviders (hfixed : FixedTypes ω) : Standing c c'.visitProviders := by
  have htypes : ∀ (ids : List Nat) (w : ω),
      Host.types (ids.foldl (fun w id => Host.visited id c'.phase w) w) = Host.types w := by
    intro ids
    induction ids with
    | nil => exact fun _ => rfl
    | cons id rest ih => exact fun w => (ih _).trans (hfixed id c'.phase w)
  exact { hs with types := (htypes _ c'.host).trans hs.types }

theorem rememberedFor (target : Target) : c'.rememberedFor target = c.rememberedFor target := by
  rw [Collector.rememberedFor, Collector.rememberedFor, hs.barrier]

end Standing

/-- A collection under way that may still fail: nothing but marks has been written. -/
structure Pending (target : Target) (c c' : Collector κ ω) : Prop extends Standing c c' where
  heap : c.heap.Attempted target c'.heap

/-- The types of all marked objects and of all remembered holders are known. -/
structure Legible (target : Target) (c c' : Collector κ ω) : Prop where
  marked : ∀ a ∈ c.heap.objects, (c'.heap.header a).isMarked = true → c.heap.TypeKnown c.types a
  holders : ∀ a ∈ c.rememberedFor target, a ∈ c.heap.objects ∧ c.heap.TypeKnown c.types a

section Phases

variable (hi : c.heap.Intact)
include hi

theorem markPhase_ends (hfixed : FixedTypes ω) (hs : Standing c d) (hheap : d.heap = c.heap) :
    (markPhase target).Ends d (Pending target c) fun _ d' =>
      Pending target c d' ∧ Legible target c d' := by
  obtain ⟨v, hv⟩ : ∃ v, v = d.visitProviders := ⟨_, rfl⟩
  have hs' : Standing c v := hv ▸ hs.visitProviders hfixed
  have hheap' : v.heap = c.heap := by
    rw [hv]
    exact hheap
  have hmark : (Heap.markLive v.types target v.rootObjects (v.rememberedFor target)).Ends v.heap
      (c.heap.Attempted target) fun _ h => c.heap.Attempted target h ∧
        (∀ a ∈ c.heap.objects, (h.header a).isMarked = true → c.heap.TypeKnown c.types a) ∧
        ∀ a ∈ c.rememberedFor target, a ∈ c.heap.objects ∧ c.heap.TypeKnown c.types a := by
    rw [hs'.types, hs'.rememberedFor, hheap']
    exact Heap.markLive_ends hi _ _
  have hrun : markPhase target d = (do
      let stats ← onHeap (Heap.markLive v.types target v.rootObjects (v.rememberedFor target))
      return stats.markedObjects) v := by
    rw [hv]
    rfl
  refine Action.Ends.of_eq hrun ((onHeap_ends hmark (fun h ha => ?_) fun _ h hq => ?_).bind
    fun _ _ hq => hq)
  · exact ⟨hs'.withHeap h, ha⟩
  · exact ⟨⟨hs'.withHeap h, hq.1⟩, hq.2.1, hq.2.2⟩

theorem finalizePhase_ends (hp : Pending target c d) (hl : Legible target c d) :
    (finalizePhase target).Ends d (Pending target c) fun _ d' =>
      Pending target c d' ∧ Legible target c d' := by
  have hres := Heap.resurrect_ends hi hp.heap hl.marked
  rw [← hp.types] at hres
  refine Action.Ends.of_eq (Action.get_bind _ d) ((onHeap_ends hres (fun h ha => ?_)
    fun _ h hq => ?_).bind fun _ _ hq => hq)
  · exact ⟨hp.withHeap h, ha⟩
  · exact ⟨⟨hp.withHeap h, hq.1⟩, hp.types ▸ hq.2, hl.holders⟩

omit [Host ω] hi in
theorem condemnsAddress_of_rememberedFor (ha : a ∈ c.rememberedFor target) :
    target.condemnsAddress a = false := by
  obtain ⟨-, hany⟩ := List.mem_filter.1 ha
  cases hs : Space.ofAddress? a with
  | none => rw [Target.condemnsAddress, hs]
  | some s =>
    rw [hs] at hany
    rw [Compaction.condemnsAddress_eq hs]
    simpa using hany

/-- Once the types of all that is marked are known, a collection does not fail any more. -/
theorem compactPhase_ok (hfixed : FixedTypes ω) (hp : Pending target c d)
    (hl : Legible target c d) (dying : List Address) :
    ∃ answer d', compactPhase target dying d = .ok answer d' := by
  have hobjects := hp.heap.marks.layout.objects hi.wellFormed
  have hT := Compaction.traced_leaves hi hp.heap
  obtain ⟨comp, h₁, hstart, hs⟩ := Compaction.start_spec hT.wellFormed hT.used_le target
  have hmarked : ∀ a ∈ d.heap.objects, (d.heap.header a).isMarked = true →
      d.heap.TypeKnown c.types a := by
    intro a ha hm
    rw [hobjects] at ha
    exact (hp.heap.marks.typeKnown_iff ha).2 (hl.marked a ha hm)
  have hholders : ∀ a ∈ c.rememberedFor target, a ∈ d.heap.objects ∧
      target.condemnsAddress a = false ∧ d.heap.TypeKnown c.types a := by
    intro a ha
    obtain ⟨hobj, hk⟩ := hl.holders a ha
    exact ⟨hobjects ▸ hobj, condemnsAddress_of_rememberedFor ha,
      (hp.heap.marks.typeKnown_iff hobj).2 hk⟩
  obtain ⟨answer, h', hcomplete⟩ := Compaction.complete_of_typeKnown hT hs hmarked hholders
  -- the roots are redirected on the heap that the start leaves
  obtain ⟨v, hv⟩ : ∃ v, v = ({ d with heap := h₁ } : Collector κ ω).visitProviders := ⟨_, rfl⟩
  have hstanding : Standing c v := hv ▸ (hp.withHeap h₁).visitProviders hfixed
  obtain ⟨cleared, moved, r, hredirect, hheap, hremembered, htypes⟩ : ∃ cleared moved r,
      redirectAll comp dying v = .ok (cleared, moved) r ∧ r.heap = v.heap ∧
        r.rememberedFor target = v.rememberedFor target ∧ r.types = v.types :=
    ⟨_, _, _, rfl, rfl, rfl, rfl⟩
  have hrun : comp.complete r.types (r.rememberedFor target) r.heap = .ok answer h' := by
    rw [htypes, hremembered, hheap, hstanding.types, hstanding.rememberedFor, hv]
    exact hcomplete
  rw [compactPhase, Action.bind_of_ok (onHeap_of_ok hstart), Action.modify_bind, ← hv,
    Action.bind_of_ok hredirect]
  dsimp only
  rw [Action.get_bind, Action.bind_of_ok (onHeap_of_ok hrun)]
  exact ⟨_, _, rfl⟩

/-- A cycle that fails has written nothing but marks. -/
theorem runCycle_ends (hfixed : FixedTypes ω) (target : Target) (cycle : Nat) :
    (runCycle target cycle).Ends c (Pending target c) fun _ _ => True := by
  have hstart : Standing c (enter .marking c) := (Standing.refl c).enter _
  rw [runCycle]
  refine Action.Ends.of_eq (Action.modify_bind _ _ c) ?_
  refine (markPhase_ends hi hfixed hstart rfl).bind ?_
  rintro marked d ⟨hp, hl⟩
  refine Action.Ends.of_eq (Action.modify_bind _ _ d) ?_
  have hp₁ : Pending target c (enter .finalizing (leave cycle "mark" d)) :=
    ⟨(hp.leave cycle "mark").enter _, hp.heap⟩
  have hl₁ : Legible target c (enter .finalizing (leave cycle "mark" d)) := ⟨hl.marked, hl.holders⟩
  refine Action.Ends.of_eq (Action.modify_bind _ _ _) ?_
  refine (finalizePhase_ends hi hp₁ hl₁).bind ?_
  rintro ⟨dying, resurrected⟩ d' ⟨hp', hl'⟩
  refine Action.Ends.of_eq (Action.modify_bind _ _ d') ?_
  refine Action.Ends.of_eq (Action.modify_bind _ _ _) ?_
  obtain ⟨answer, d'', hcompact⟩ := compactPhase_ok hi hfixed
    (d := enter .compacting (leave cycle "finalize" d'))
    ⟨(hp'.leave cycle "finalize").enter _, hp'.heap⟩ ⟨hl'.marked, hl'.holders⟩ dying
  exact Action.Ends.bind (Q := fun _ _ => True) (Action.ends_of_ok hcompact trivial)
    fun _ _ _ => trivial

end Phases

/-- What a collection that fails leaves behind: only the number of collections and the event
log have advanced. -/
structure Restored (c c' : Collector κ ω) : Prop where
  heap : c.heap.Identical c'.heap
  config : c'.config = c.config
  roots : c'.roots = c.roots
  providers : c'.providers = c.providers
  weak : c'.weak = c.weak
  barrier : c'.barrier = c.barrier
  callbacks : c'.callbacks = c.callbacks
  queue : c'.queue = c.queue
  statistics : c'.statistics = c.statistics
  inFinalizer : c'.inFinalizer = c.inFinalizer
  phase : c'.phase = .idle
  cycles : c'.cycles = c.cycles + 1
  types : c'.types = c.types
  logged : ∃ events : List Event, c'.log = events.foldl EventLog.record c.log

/-- A collection that fails takes all back, whatever the slots hold and whichever types are
known. -/
theorem restored_of_error (hfixed : FixedTypes ω) (hi : c.heap.Intact)
    (hcollecting : c.queue.collecting = false) {reason : Reason} {e : Error}
    (hrun : collectFor target reason c = .error e c') : Restored c c' := by
  have hends := runCycle_ends (c := (beginCycle target reason c).2) hi hfixed target
    (beginCycle target reason c).2.cycles
  rw [collectFor] at hrun
  dsimp only at hrun
  split at hrun
  · rename_i e' d hcycle
    obtain ⟨-, rfl⟩ := EStateM.Result.error.inj hrun
    have hp := hends.of_error hcycle
    obtain ⟨events, hlog⟩ := hp.logged
    exact
      { heap := hp.heap.identical_clearMarks hi
        config := hp.config
        roots := hp.roots
        providers := hp.providers
        weak := hp.weak
        barrier := hp.barrier
        callbacks := hp.callbacks
        queue := by
          show d.queue.endCollection = c.queue
          rw [hp.queue]
          show c.queue.beginCollection.endCollection = c.queue
          rw [FinalizationQueue.beginCollection, FinalizationQueue.endCollection, ← hcollecting]
        statistics := hp.statistics
        inFinalizer := hp.inFinalizer
        phase := rfl
        cycles := hp.cycles
        types := hp.types
        logged := ⟨.cycleStart (c.cycles + 1) target.name reason.text :: events, hlog⟩ }
  · exact absurd hrun (by simp)

/-- The collector with another heap, with other slots of its providers, and with a host that
may know other types. -/
def corrupted {κ : Type} (c : Collector κ TypeRegistry) (heap : Heap)
    (providers : HandleTable RootSlots) (host : ω) : Collector κ ω :=
  { c with heap, providers, host }

/-- Whatever has become of the payloads of the objects, of the slots of the providers and of the
types, a collection that fails leaves every byte of the heap and every table as they were. Only
the number of collections and the event logs have advanced. -/
theorem Reachable.failed_collection_takes_all_back {c : Collector κ TypeRegistry}
    (h : Reachable config types c) (hfixed : FixedTypes ω) {heap : Heap}
    (hheap : Heap.AgreesBut c.heap.InPayload c.heap heap) (providers : HandleTable RootSlots)
    (host : ω) (target : Target) (reason : Reason) {e : Error} {c' : Collector κ ω}
    (hrun : collectFor target reason (c.corrupted heap providers host) = .error e c') :
    Restored (c.corrupted heap providers host) c' :=
  restored_of_error hfixed (h.sound.heap.intact.of_agrees hheap) h.atRest.collecting hrun

/-- The collector `pair` with a host that has forgotten the types of its objects. -/
def forgetful : Collector Unit TypeRegistry := pair.corrupted pair.heap {} ⟨#[]⟩

/-- A collection of `forgetful` fails. -/
theorem restored_of_pair :
    ∃ e c', collectFor .full .explicit forgetful = .error e c' ∧ Restored forgetful c' := by
  have hfails : (match collectFor .full .explicit forgetful with
      | .ok .. => false
      | .error .. => true) = true := by decide +kernel
  have hfixed : FixedTypes TypeRegistry := fun _ _ _ => rfl
  have hsame : Heap.AgreesBut pair.heap.InPayload pair.heap pair.heap := .refl _ _
  cases hrun : collectFor .full .explicit forgetful with
  | ok report c' =>
    rw [hrun] at hfails
    exact absurd hfails Bool.false_ne_true
  | error e c' =>
    exact ⟨e, c', rfl, reachable_pair.failed_collection_takes_all_back hfixed hsame _ _ _ _ hrun⟩

/-- What a wrapping build makes of `pair` when it stores a reference in a slot whose end is cut
off, with another root handle for the young object and a provider whose only slot names none. -/
def strayOverwritten : Collector Unit TypeRegistry :=
  [.addRoot young, .addProvider #[some 8]].foldl (fun c k => after k c) overwritten

/-- The store has left an address in the header of the young object. A collection that fails takes
it for one of its own and clears it. -/
theorem failed_collection_clears_store :
    (∃ u, writeRefIn .wrapping young lastOffset (some old) pair = .ok u overwritten) ∧
    ∃ e c', collectFor .full .explicit strayOverwritten = .error e c' ∧
      (strayOverwritten.heap.header young).forwarding = old ∧
      (c'.heap.header young).forwarding = 0 ∧ ¬Restored strayOverwritten c' := by
  obtain ⟨hfails, hbefore, hafter, hbyte⟩ :
      ((collectFor .full .explicit).outcome strayOverwritten).isOk = false ∧
      (strayOverwritten.heap.header young).forwarding = old ∧
      (((collectFor .full .explicit).final strayOverwritten).heap.header young).forwarding = 0 ∧
      (((collectFor .full .explicit).final strayOverwritten).heap.memory (.arena .gen0)).byte 28 ≠
        (strayOverwritten.heap.memory (.arena .gen0)).byte 28 := by
    decide +kernel
  obtain ⟨e, c', hrun⟩ := Action.exists_error_of_isOk hfails
  rw [Action.final_of_error hrun] at hafter hbyte
  refine ⟨writeRef_overwritten, e, c', hrun, hbefore, hafter, ?_⟩
  exact fun hrestored => hbyte (hrestored.heap.byte (.arena .gen0) 28 not_false)

end Host

end Collector

end GenerationalHeap
