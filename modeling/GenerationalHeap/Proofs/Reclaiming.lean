/-
What a compaction gives back, counted.

* `Heap.retained`, `Heap.reclaimed` — the marked and the unmarked objects of the collected
  spaces.
* `Compaction.Started.survivors_eq` — the count of survivors is the number of the former.
* `Compaction.Started.reclaimed_eq` — what the plan and the sweep count together is the number
  and the bytes of the latter.
* `Compaction.objects_perm`, `Compaction.extent_place` — all other objects
  are still there, and no block has changed its size.
-/
import GenerationalHeap.Proofs.Compacting
import GenerationalHeap.Proofs.Extents

namespace GenerationalHeap

/-! ### The objects of the collected spaces -/

namespace Heap

/-- The marked objects of the collected spaces. -/
def retained (h : Heap) (target : Target) : List Address :=
  h.objects.filter fun a => target.condemnsAddress a && (h.header a).isMarked

/-- The unmarked objects of the collected spaces. -/
def reclaimed (h : Heap) (target : Target) : List Address :=
  h.objects.filter fun a => target.condemnsAddress a && !(h.header a).isMarked

/-- The unmarked objects of a space, if it is collected. -/
def reclaimedIn (h : Heap) (target : Target) (s : Space) : List Address :=
  if target.condemns s then (h.objectsIn s).filter fun a => !(h.header a).isMarked else []

/-- The number of objects of the collected spaces. -/
def condemnedCount (h : Heap) (target : Target) : Nat :=
  ((Space.all.filter target.condemns).map h.objectCount).sum

variable {h : Heap} {target : Target} {s : Space} {g : Generation}

theorem WellFormed.condemnsAddress_eq (hw : h.WellFormed) {a : Address} (ha : a ∈ h.objectsIn s) :
    target.condemnsAddress a = target.condemns s :=
  Compaction.condemnsAddress_eq (hw.mem_objectsIn_iff.1 ha).1

/-- The objects of the collected spaces, space by space. -/
theorem WellFormed.filter_condemned (hw : h.WellFormed) (target : Target) (p : Address → Bool) :
    (h.objects.filter fun a => target.condemnsAddress a && p a) =
      Space.all.flatMap fun s => if target.condemns s then (h.objectsIn s).filter p else [] := by
  rw [objects, List.filter_flatMap]
  refine congrArg (fun f => Space.all.flatMap f) (funext fun s => ?_)
  split
  · rename_i hs
    exact List.filter_congr fun a ha => by rw [hw.condemnsAddress_eq ha, hs, Bool.true_and]
  · rename_i hs
    refine List.filter_eq_nil_iff.2 fun a ha => ?_
    rw [hw.condemnsAddress_eq ha, Bool.eq_false_iff.2 hs, Bool.false_and]
    exact Bool.false_ne_true

theorem WellFormed.reclaimed_eq (hw : h.WellFormed) (target : Target) :
    h.reclaimed target = Space.all.flatMap (h.reclaimedIn target) :=
  hw.filter_condemned target _

theorem WellFormed.reclaimedIn_eq (hw : h.WellFormed) (hs : target.condemns s = true) :
    h.reclaimedIn target s = ((h.offsetsIn s).filter fun x =>
      !(Header.load (h.memory s) x).isMarked).map s.address := by
  rw [reclaimedIn, if_pos hs, objectsIn, List.filter_map]
  refine congrArg _ (List.filter_congr fun x hx => ?_)
  rw [Function.comp_apply, hw.header_address hx]

theorem WellFormed.sum_reclaimedIn (hw : h.WellFormed) (hs : target.condemns s = true) :
    ((h.reclaimedIn target s).map h.extent).sum = (((h.offsetsIn s).filter fun x =>
      !(Header.load (h.memory s) x).isMarked).map (h.extentAt s)).sum := by
  rw [hw.reclaimedIn_eq hs, List.map_map]
  refine congrArg List.sum (List.map_congr_left fun x hx => ?_)
  rw [Function.comp_apply, hw.extent_address (List.mem_filter.1 hx).1]

/-- The objects of the collected spaces are marked or not. -/
theorem WellFormed.condemnedCount_eq (hw : h.WellFormed) (target : Target) :
    h.condemnedCount target = (h.retained target).length + (h.reclaimed target).length := by
  have hall : h.condemnedCount target = (h.objects.filter target.condemnsAddress).length := by
    have hlist := hw.filter_condemned target fun _ => true
    simp only [Bool.and_true, List.filter_true] at hlist
    rw [hlist, ← flatMap_filter, List.length_flatMap, condemnedCount]
    exact congrArg List.sum (List.map_congr_left fun s _ => (List.length_map _).symm)
  have hparts := (h.objects.filter target.condemnsAddress).length_eq_length_filter_add
    fun a => (h.header a).isMarked
  rw [List.filter_filter, List.filter_filter] at hparts
  rw [hall, hparts, retained, reclaimed]
  simp only [Bool.and_comm]

end Heap

/-! ### Survivors -/

namespace Compaction

variable {types : TypeSystem} {target : Target} {h h' h₁ h₂ h₃ : Heap} {c : Compaction}
  {a : Address}

/-- The survivors that are counted are the marked objects of the collected spaces. -/
theorem Started.survivors_eq (hT : h.Traced types target) (hs : Started h target c h₁) :
    c.plan.survivorCount + c.largeSurvivors.length = (h.retained target).length := by
  have hcount : c.plan.survivorCount + c.largeSurvivors.length = c.holders.length := by
    rw [holders, List.length_append, List.length_flatMap, Plan.survivorCount]
    simp [PerGeneration.toList, Generation.all, PerGeneration.get]
  have hperm : c.holders.Perm (h.retained target) := by
    refine (List.perm_ext_iff_of_nodup (hs.nodup_holders hT)
      (hT.wellFormed.objects_nodup.filter _)).2 fun a => ?_
    rw [hs.mem_holders hT, List.mem_filter, Bool.and_eq_true,
      and_comm (a := (h.header a).isMarked = true)]
  rw [hcount, hperm.length_eq]

/-! ### The sweep -/

variable {keep : Block → Prop}

/-- An unmarked object is counted with its block. -/
theorem sweepObject_counts (hw : h.WellFormed) (hs : Heap.Swept keep h h') {b : Block}
    (hb : b ∈ h.large.live) (hk : keep b) {s s' : Sweep}
    (hrun : sweepObject s (Space.large.address b.offset) h' = .ok s' h₂) :
    if (h.large.header b.offset).isMarked then s' = s
    else s'.objects = s.objects + 1 ∧ s'.bytes = s.bytes + b.size := by
  obtain ⟨hb', hlt, hheader⟩ := hs.of_live hw hb hk
  rw [sweepObject, Action.get_bind, hheader] at hrun
  dsimp only at hrun
  split
  · rename_i hm
    rw [if_pos hm] at hrun
    exact (EStateM.Result.ok.inj hrun).1.symm
  · rename_i hm
    rw [if_neg hm] at hrun
    obtain ⟨bytes, h₃, hfree, hend⟩ := Action.of_bind_ok hrun
    obtain ⟨rfl, -⟩ := EStateM.Result.ok.inj hend
    obtain ⟨large, hblock, -, -⟩ := LargeSpace.freeAt_spec hs.blocks hb'
    rw [Heap.freeLarge, Space.offset_address hlt] at hfree
    simp only [hblock] at hfree
    obtain ⟨rfl, -⟩ := EStateM.Result.ok.inj hfree
    exact ⟨rfl, rfl⟩

/-- A sweep counts the unmarked blocks. -/
theorem sweepObjects_counts (hw : h.WellFormed) {blocks : List Block} (hn : blocks.Nodup)
    (hsub : ∀ b ∈ blocks, b ∈ h.large.live) (hs : Heap.Swept keep h h')
    (hk : ∀ b ∈ blocks, keep b) {s s' : Sweep} (hdead : s.FromDead h)
    (hrun : (blocks.map fun b => Space.large.address b.offset).foldlM sweepObject s h' =
      .ok s' h₂) :
    s'.objects = s.objects +
        (blocks.filter fun b => !(h.large.header b.offset).isMarked).length ∧
      s'.bytes = s.bytes +
        ((blocks.filter fun b => !(h.large.header b.offset).isMarked).map (·.size)).sum := by
  -- by induction on the blocks that are left, since each step frees the block that it sweeps
  induction blocks generalizing h' keep s with
  | nil =>
    obtain ⟨rfl, -⟩ := EStateM.Result.ok.inj hrun
    exact ⟨rfl, rfl⟩
  | cons b rest ih =>
    obtain ⟨hnot, hn⟩ := List.nodup_cons.1 hn
    have hb := hsub b List.mem_cons_self
    have hkb := hk b List.mem_cons_self
    rw [List.map_cons, List.foldlM_cons] at hrun
    obtain ⟨s₁, h₁, hfirst, hrest⟩ := Action.of_bind_ok hrun
    obtain ⟨_, _, hfirst', hs₁, hdead₁⟩ := sweepObject_spec hw hs hb hkb hdead
    obtain ⟨rfl, rfl⟩ := EStateM.Result.ok.inj (hfirst.symm.trans hfirst')
    obtain ⟨hobjects, hbytes⟩ := ih hn (fun c hc => hsub c (List.mem_cons_of_mem _ hc)) hs₁
      (fun c hc => ⟨hk c (List.mem_cons_of_mem _ hc), fun heq => absurd (heq ▸ hc) hnot⟩) hdead₁
      hrest
    have hone := sweepObject_counts hw hs hb hkb hfirst
    rw [hobjects, hbytes, List.filter_cons]
    cases hm : (h.large.header b.offset).isMarked with
    | true =>
      rw [hm, if_pos rfl] at hone
      rw [hone, Bool.not_true, if_neg Bool.false_ne_true]
      exact ⟨rfl, rfl⟩
    | false =>
      rw [hm, if_neg Bool.false_ne_true] at hone
      rw [hone.1, hone.2, Bool.not_false, if_pos rfl, List.length_cons, List.map_cons,
        List.sum_cons]
      omega

/-- A sweep of the large objects counts those that are reclaimed. -/
theorem sweepLarge_counts (hw : h.WellFormed) {s : Sweep} (hrun : c.sweepLarge h = .ok s h₂) :
    s.objects = (h.reclaimedIn c.plan.target .large).length ∧
      s.bytes = ((h.reclaimedIn c.plan.target .large).map h.extent).sum := by
  by_cases hc : c.plan.target.condemns .large = true
  · have hlist : h.objectsIn .large = h.large.live.map fun b => Space.large.address b.offset :=
      List.map_map
    have hfilter : ((h.offsetsIn .large).filter fun x =>
          !(Header.load (h.memory .large) x).isMarked) =
        (h.large.live.filter fun b => !(h.large.header b.offset).isMarked).map (·.offset) :=
      List.filter_map
    rw [sweepLarge, if_pos hc, Action.get_bind, hlist] at hrun
    obtain ⟨hobjects, hbytes⟩ := sweepObjects_counts hw hw.large.live.nodup (fun _ hb => hb)
      (.refl hw) (fun _ _ => trivial) (Sweep.fromDead_empty h) hrun
    rw [hw.sum_reclaimedIn hc, hw.reclaimedIn_eq hc, List.length_map, hfilter, List.length_map,
      List.map_map]
    refine ⟨hobjects.trans (Nat.zero_add _), hbytes.trans ((Nat.zero_add _).trans ?_)⟩
    refine congrArg List.sum (List.map_congr_left fun b hb => ?_)
    rw [Function.comp_apply, hw.extentAt_large (List.mem_filter.1 hb).1]
  · rw [sweepLarge, if_neg hc] at hrun
    obtain ⟨rfl, -⟩ := EStateM.Result.ok.inj hrun
    rw [Heap.reclaimedIn, if_neg hc]
    exact ⟨rfl, rfl⟩

end Compaction

/-! ### The plan -/

namespace Plan

variable {target : Target} {h : Heap}

theorem census_dead (a : Arena) : (Census.ofArena a).dead =
    (a.offsets.filter fun x => !(a.header x).isMarked).map a.header := by
  show List.filterMap _ (a.offsets.map fun x => (x, a.header x)) = _
  generalize a.offsets = offsets
  induction offsets with
  | nil => rfl
  | cons x rest ih =>
    rw [List.map_cons, List.filterMap_cons, List.filter_cons]
    cases hm : (a.header x).isMarked with
    | true => simpa [hm] using ih
    | false => simpa [hm] using ih

/-- A plan counts the dead of its census. -/
theorem dead_census (h : Heap) (target : Target) (g : Generation) :
    ((ofHeap h target).spaces.get g).deadObjects =
        ((Census.ofHeap h target).get g).dead.length ∧
      ((ofHeap h target).spaces.get g).deadBytes =
        (((Census.ofHeap h target).get g).dead.map Header.blockSize).sum := by
  simp only [ofHeap, PerGeneration.get_ofFn]
  exact ⟨rfl, rfl⟩

/-- A plan counts the reclaimed objects of every arena. -/
theorem dead_get (hw : h.WellFormed) (target : Target) (g : Generation) :
    ((ofHeap h target).spaces.get g).deadObjects = (h.reclaimedIn target (.arena g)).length ∧
      ((ofHeap h target).spaces.get g).deadBytes =
        ((h.reclaimedIn target (.arena g)).map h.extent).sum := by
  rw [(dead_census h target g).1, (dead_census h target g).2, Census.ofHeap, PerGeneration.get_ofFn]
  by_cases hc : target.condemns (.arena g) = true
  · rw [if_pos hc, hw.sum_reclaimedIn hc, hw.reclaimedIn_eq hc, census_dead, List.length_map,
      List.length_map, List.map_map]
    exact ⟨rfl, rfl⟩
  · rw [if_neg hc, Heap.reclaimedIn, if_neg hc]
    exact ⟨rfl, rfl⟩

end Plan

namespace Compaction

variable {types : TypeSystem} {target : Target} {h h' h₁ h₂ h₃ : Heap} {c : Compaction}
  {a : Address}

/-- What the plan and the sweep count are the objects that are reclaimed, with their blocks. -/
theorem Started.reclaimed_eq (hT : h.Traced types target) (hs : Started h target c h₁)
    (hlayout : h₁.SameLayout h₂) (hheader : ∀ a ∈ h.objects, h₂.header a = h₁.header a)
    {sweep : Sweep} (hrun : c.sweepLarge h₂ = .ok sweep h₃) :
    (c.stats sweep).reclaimedObjects = (h.reclaimed target).length ∧
      (c.stats sweep).reclaimedBytes = ((h.reclaimed target).map h.extent).sum := by
  have hw := hT.wellFormed
  have hl : h.SameLayout h₂ := hs.written.payloads.layout.trans hlayout hw
  obtain ⟨hobjects, hbytes⟩ := sweepLarge_counts (hl.wellFormed hw) hrun
  -- the sweep sees the marks and the blocks of the heap that the plan was made for
  have hlarge : h₂.reclaimedIn target .large = h.reclaimedIn target .large := by
    have hmarked : ∀ a ∈ h.objectsIn .large, (h₂.header a).isMarked = (h.header a).isMarked := by
      intro a ha
      have hobj : a ∈ h.objects := List.mem_flatMap.2 ⟨_, Space.mem_all _, ha⟩
      rw [hheader a hobj, hs.isMarked hobj]
    rw [Heap.reclaimedIn, Heap.reclaimedIn, hl.objectsIn hw]
    exact if_congr Iff.rfl (List.filter_congr fun a ha => by rw [hmarked a ha]) rfl
  have hextent : ∀ a ∈ h.reclaimedIn target .large, h₂.extent a = h.extent a := by
    intro a ha
    rw [Heap.reclaimedIn] at ha
    split at ha
    · have hspace := (hw.mem_objectsIn_iff.1 (List.mem_filter.1 ha).1).1
      rw [Heap.extent_eq hspace, Heap.extent_eq hspace, Heap.extentAt, Heap.extentAt, hl.live]
    · exact absurd ha List.not_mem_nil
  rw [hs.target_eq, hlarge] at hobjects hbytes
  rw [List.map_congr_left hextent] at hbytes
  obtain ⟨hobjects₀, hbytes₀⟩ := Plan.dead_get hw target .gen0
  obtain ⟨hobjects₁, hbytes₁⟩ := Plan.dead_get hw target .gen1
  obtain ⟨hobjects₂, hbytes₂⟩ := Plan.dead_get hw target .gen2
  rw [hw.reclaimed_eq, stats, hs.plan, hobjects, hbytes]
  simp only [Space.all, List.flatMap_cons, List.flatMap_nil, List.append_nil, List.map_append,
    List.sum_append, List.length_append, Plan.deadObjects, Plan.deadBytes, PerGeneration.toList,
    List.map_cons, List.map_nil, List.sum_cons, List.sum_nil, ← hobjects₀, ← hobjects₁,
    ← hobjects₂, ← hbytes₀, ← hbytes₁, ← hbytes₂, PerGeneration.get]
  omega

/-! ### What is left -/

/-- An object that is not reclaimed has a block of the same size at its new place. -/
theorem extent_place (hT : h.Traced types target) (hc : Compacted types target h h')
    (ha : Alive h target a) : h'.extent ((Plan.ofHeap h target).place a) = h.extent a := by
  have hw := hT.wellFormed
  have hsize : (h'.header ((Plan.ofHeap h target).place a)).blockSize = (h.header a).blockSize :=
    congrArg (fun x => headerSize + x.size.toNat) (hc.moves.identity a ha)
  -- an arena gives a block as many bytes as any other arena, and large objects do not move
  have hroom : ∃ s s', Space.ofAddress? a = some s ∧
      Space.ofAddress? ((Plan.ofHeap h target).place a) = some s' ∧
      ∀ x y : Header, x.blockSize = y.blockSize → s'.roomFor x = s.roomFor y := by
    by_cases hmem : a ∈ (Plan.ofHeap h target).transfers.map Transfer.old
    · obtain ⟨t, ht, rfl⟩ := List.mem_map.1 hmem
      rw [Plan.place_old hw ht]
      exact ⟨_, _, Plan.ofAddress?_old hw ht, (Settled.ofAddress?_new hw hT.used_le ht).1,
        fun _ _ heq => heq⟩
    · obtain ⟨s, hs, -⟩ := hw.mem_objects_iff.1 ha.1
      rw [Plan.place_of_not_mem hmem]
      exact ⟨s, s, hs, hs, fun _ _ => Space.roomFor_congr⟩
  obtain ⟨s, s', hspace, hspace', hroom⟩ := hroom
  rw [hc.wellFormed.extent_eq_roomFor (hc.moves.mem_objects ha) hspace',
    hw.extent_eq_roomFor ha.1 hspace]
  exact hroom _ _ hsize

/-- The objects that a compaction does not reclaim. -/
def remaining (h : Heap) (target : Target) : List Address :=
  h.objects.filter fun a => !(target.condemnsAddress a && !(h.header a).isMarked)

theorem mem_remaining : a ∈ remaining h target ↔ Alive h target a := by
  rw [remaining, List.mem_filter, Alive, Bool.not_eq_true', Bool.and_eq_false_imp]
  simp only [Bool.not_eq_false']

/-- The objects after a compaction are those that it does not reclaim. -/
theorem objects_perm (hT : h.Traced types target) (hc : Compacted types target h h') :
    h'.objects.Perm ((remaining h target).map (Plan.ofHeap h target).place) := by
  have hnodup : ((remaining h target).map (Plan.ofHeap h target).place).Nodup :=
    (hT.wellFormed.objects_nodup.filter _).map_on fun a ha b hb =>
      hc.moves.inj a b (mem_remaining.1 ha) (mem_remaining.1 hb)
  refine (List.perm_ext_iff_of_nodup hc.wellFormed.objects_nodup hnodup).2 fun b => ?_
  rw [hc.moves.mem, List.mem_map]
  exact exists_congr fun a => and_congr_left' mem_remaining.symm

/-- An object is reclaimed or it remains. -/
theorem length_objects_add (hT : h.Traced types target) (hc : Compacted types target h h') :
    h'.objects.length + (h.reclaimed target).length = h.objects.length := by
  have hparts := h.objects.length_eq_length_filter_add
    fun a => target.condemnsAddress a && !(h.header a).isMarked
  rw [(objects_perm hT hc).length_eq, List.length_map, hparts, remaining, Heap.reclaimed,
    Nat.add_comm]

/-- A byte in use is given back with a reclaimed object or stays in use. -/
theorem usedBytes_add (hT : h.Traced types target) (hc : Compacted types target h h') :
    h'.usedBytes + ((h.reclaimed target).map h.extent).sum = h.usedBytes := by
  have hstay : h'.usedBytes = ((remaining h target).map h.extent).sum := by
    rw [hc.wellFormed.usedBytes_eq_sum, ((objects_perm hT hc).map _).sum_eq, List.map_map]
    exact congrArg List.sum (List.map_congr_left fun a ha =>
      extent_place hT hc (mem_remaining.1 ha))
  have hparts := List.filter_append_perm
    (fun a => target.condemnsAddress a && !(h.header a).isMarked) h.objects
  rw [hT.wellFormed.usedBytes_eq_sum, ← (hparts.map _).sum_eq, List.map_append, List.sum_append,
    hstay, remaining, Heap.reclaimed, Nat.add_comm]

end Compaction

end GenerationalHeap
