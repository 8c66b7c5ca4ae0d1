/-
A whole compaction.

* `Heap.Traced` — a heap whose collected spaces are marked; whatever a compaction keeps
  refers only to what it keeps.
* `Heap.Moves` — the objects of a heap are those of another one that survive, each at a
  new place and with its references redirected.
* `Compaction.start_spec` — a plan is made, and the headers tell the new places.
* `Compaction.redirects_all` — every reference of every survivor is redirected. Of the
  objects that are left alone, the remembered ones alone can refer to what moves.
* `Compaction.complete_spec` — the survivors are moved, and the remembered set is exactly
  what holds younger references.
-/
import GenerationalHeap.Proofs.Finishing
import GenerationalHeap.Proofs.Liveness
import GenerationalHeap.Proofs.Redirection
import GenerationalHeap.Proofs.Transport

namespace GenerationalHeap

namespace Heap

open Compaction (Alive)

/-! ### Heaps that are traced -/

/-- A heap whose collected spaces are marked. -/
structure Traced (h : Heap) (types : TypeSystem) (target : Target) : Prop
    extends h.Traceable types where
  isForwarded : ∀ a ∈ h.objects, (h.header a).isForwarded = false
  forwarding : ∀ a ∈ h.objects, (h.header a).forwarding = 0
  condemned : ∀ a ∈ h.objects, (h.header a).isMarked = true → target.condemnsAddress a = true
  closed : ∀ a b, Alive h target a → h.PointsTo types a b → Alive h target b
  used_le : h.usedBytes ≤ spaceLimit

/-- The remembered holders, of which an object that holds a younger reference is one. -/
structure RemembersYounger (h : Heap) (types : TypeSystem) (target : Target)
    (holders : List Address) : Prop where
  mem : ∀ a ∈ holders, a ∈ h.objects ∧ target.condemnsAddress a = false
  nodup : holders.Nodup
  complete : ∀ a ∈ h.objects, target.condemnsAddress a = false → h.HoldsYounger types a →
    a ∈ holders

/-- The objects of `h'` are the objects of `h` with the property `alive`, each at the place
that `F` gives it and with its references redirected by `F`. -/
structure Moves (types : TypeSystem) (F : Address → Address) (alive : Address → Prop)
    (h h' : Heap) : Prop where
  mem : ∀ b, b ∈ h'.objects ↔ ∃ a, alive a ∧ F a = b
  inj : ∀ a b, alive a → alive b → F a = F b → a = b
  null : F 0 = 0
  identity : ∀ a, alive a → (h'.header (F a)).identity = (h.header a).identity
  word : ∀ a, alive a → ∀ o ∈ h.slots types a, h'.word (F a) o = F (h.word a o)
  plain : ∀ a, alive a → ∀ i, h.Plain types a i →
    h'.byte (F a) (headerSize + i) = h.byte a (headerSize + i)

variable {h h' h'' : Heap} {types : TypeSystem} {target : Target} {F : Address → Address}
  {alive : Address → Prop} {holders : List Address} {a b : Address}

/-- A reference from a space that is left alone into a collected one leads to a younger
space, since the collected spaces are the youngest ones. -/
theorem pointsDown_of_condemns (hw : h.WellFormed) (ha : a ∈ h.objects) (hb : b ∈ h.objects)
    (hout : target.condemnsAddress a = false) (hin : target.condemnsAddress b = true) :
    pointsDown a b = true := by
  obtain ⟨s, hs, -⟩ := hw.mem_objects_iff.1 ha
  obtain ⟨t, ht, -⟩ := hw.mem_objects_iff.1 hb
  rw [Compaction.condemnsAddress_eq hs, Target.condemns, decide_eq_false_iff_not] at hout
  rw [Compaction.condemnsAddress_eq ht, Target.condemns, decide_eq_true_eq] at hin
  rw [pointsDown_eq_true_iff hs ht]
  omega

/-- A look at the remembered holders shows every reference into the collected spaces. -/
theorem RemembersYounger.remembers (hr : h.RemembersYounger types target holders)
    (hw : h.WellFormed) (hd : h.NoDangling types) : h.Remembers types target holders where
  mem := hr.mem
  complete a ha hout b hab hin :=
    hr.complete a ha hout ⟨b, hab, pointsDown_of_condemns hw ha (hd a ha b hab) hout hin⟩

namespace OnlyMarks

variable (hm : h.OnlyMarks h')
include hm

theorem pointsTo_iff (ha : a ∈ h.objects) : h'.PointsTo types a b ↔ h.PointsTo types a b := by
  rw [PointsTo, PointsTo, hm.slots ha]
  refine and_congr_right fun _ => exists_congr fun o => and_congr_right ?_
  intro ho
  rw [hm.word ha ho]

theorem traceable (ht : h.Traceable types) : h'.Traceable types where
  wellFormed := hm.layout.wellFormed ht.wellFormed
  tagged := hm.tagged ht.wellFormed ht.tagged
  typed a ha := by
    rw [hm.layout.objects ht.wellFormed] at ha
    rw [show (h'.header a).typeId = (h.header a).typeId from
      congrArg Header.Identity.typeId (hm.identity ha)]
    exact ht.typed a ha
  noDangling a ha b hab := by
    rw [hm.layout.objects ht.wellFormed] at ha ⊢
    exact ht.noDangling a ha b ((hm.pointsTo_iff ha).1 hab)

theorem holdsYounger_iff (ha : a ∈ h.objects) :
    h'.HoldsYounger types a ↔ h.HoldsYounger types a :=
  exists_congr fun _ => and_congr_left fun _ => hm.pointsTo_iff ha

end OnlyMarks

namespace Moves

variable (hm : Moves types F alive h h')
include hm

theorem mem_objects (ha : alive a) : F a ∈ h'.objects := (hm.mem _).2 ⟨a, ha, rfl⟩

theorem slots (ha : alive a) : h'.slots types (F a) = h.slots types a :=
  slots_congr (hm.identity a ha)

/-- What an object refers to after the moves. -/
theorem of_pointsTo (ha : alive a) (hab : h'.PointsTo types (F a) b) :
    ∃ c, h.PointsTo types a c ∧ F c = b := by
  obtain ⟨hb, o, ho, hword⟩ := hab
  rw [hm.slots ha] at ho
  rw [hm.word a ha o ho] at hword
  refine ⟨h.word a o, ⟨?_, o, ho, rfl⟩, hword⟩
  intro hz
  rw [hz, hm.null] at hword
  exact hb hword.symm

theorem typed (ht : h.Typed types) (halive : ∀ a, alive a → a ∈ h.objects) : h'.Typed types := by
  intro b hb
  obtain ⟨a, ha, rfl⟩ := (hm.mem b).1 hb
  rw [show (h'.header (F a)).typeId = (h.header a).typeId from
    congrArg Header.Identity.typeId (hm.identity a ha)]
  exact ht a (halive a ha)

/-- No reference dangles if what survives refers to what survives. -/
theorem noDangling (hclosed : ∀ a b, alive a → h.PointsTo types a b → alive b) :
    h'.NoDangling types := by
  intro b hb x hbx
  obtain ⟨a, ha, rfl⟩ := (hm.mem b).1 hb
  obtain ⟨c, hac, rfl⟩ := hm.of_pointsTo ha hbx
  exact hm.mem_objects (hclosed a c ha hac)

end Moves

end Heap

namespace Compaction

variable {h h₁ h₂ h₃ h₄ h₅ : Heap} {types : TypeSystem} {target : Target} {c : Compaction}
  {holders : List Address} {a b : Address}

/-- What lies in a space that is left alone does not move. -/
theorem place_of_not_condemned (hw : h.WellFormed) (hc : target.condemnsAddress a = false) :
    (Plan.ofHeap h target).place a = a := by
  refine place_eq_self hw ?_
  intro g hg
  rwa [condemnsAddress_eq hg] at hc

/-! ### The start -/

/-- What is known of a compaction once its plan is made by the marks of the heap `h`. -/
structure Started (h : Heap) (target : Target) (c : Compaction) (h₁ : Heap) : Prop where
  plan : c.plan = Plan.ofHeap h target
  written : Plan.Written h target h₁
  nodup : c.largeSurvivors.Nodup
  large : ∀ a, a ∈ c.largeSurvivors ↔ a ∈ h.objects ∧ (h.header a).isMarked = true ∧
    Space.ofAddress? a = some .large ∧ target.condemns .large = true

/-- A large object has no other header after the start. -/
theorem header_large (hw : h.WellFormed) (hp : Plan.Written h target h₁)
    (hs : Space.ofAddress? a = some .large) (ha : a ∈ h.objects) : h₁.header a = h.header a := by
  refine hp.others a ha ?_
  intro hmem
  obtain ⟨-, -, g, hg, -⟩ := (Plan.mem_map_old_iff hw).1 hmem
  rw [hs] at hg
  exact absurd (Option.some.inj hg) (by simp)

theorem mem_markedLarge (hw : h.WellFormed) (hp : Plan.Written h target h₁) :
    a ∈ markedLarge h₁ ↔ a ∈ h.objects ∧ (h.header a).isMarked = true ∧
      Space.ofAddress? a = some .large := by
  rw [markedLarge, hp.payloads.layout.objectsIn hw, List.mem_filter]
  constructor
  · rintro ⟨hin, hm⟩
    have ha : a ∈ h.objects := List.mem_flatMap.2 ⟨_, Space.mem_all _, hin⟩
    have hs := (hw.mem_objectsIn_iff.1 hin).1
    rw [header_large hw hp hs ha] at hm
    exact ⟨ha, hm, hs⟩
  · rintro ⟨ha, hm, hs⟩
    obtain ⟨s, hs', hx⟩ := hw.mem_objects_iff.1 ha
    obtain rfl : s = .large := Option.some.inj (hs'.symm.trans hs)
    rw [header_large hw hp hs ha]
    exact ⟨hw.mem_objectsIn_iff.2 ⟨hs, hx⟩, hm⟩

theorem start_spec (hw : h.WellFormed) (hused : h.usedBytes ≤ spaceLimit) (target : Target) :
    ∃ c h₁, start target h = .ok c h₁ ∧ Started h target c h₁ := by
  obtain ⟨h₁, hbuild, hwritten⟩ := Plan.build_spec hw hused target
  refine ⟨⟨Plan.ofHeap h target, if target.condemns .large then markedLarge h₁ else []⟩, h₁, ?_,
    rfl, hwritten, ?_, ?_⟩
  · rw [start, Action.bind_of_ok hbuild]
    rfl
  · dsimp only
    split
    · rw [markedLarge, hwritten.payloads.layout.objectsIn hw]
      exact (hw.objectsIn_nodup .large).filter _
    · exact List.nodup_nil
  · intro a
    dsimp only
    split
    · rename_i hc
      rw [mem_markedLarge hw hwritten]
      simp only [hc, and_true]
    · rename_i hc
      simp [hc]

namespace Started

variable (hT : h.Traced types target) (hs : Started h target c h₁)
include hs

theorem target_eq : c.plan.target = target := by
  rw [hs.plan]
  rfl

theorem identity (ha : a ∈ h.objects) : (h₁.header a).identity = (h.header a).identity := by
  by_cases hmem : a ∈ (Plan.ofHeap h target).transfers.map Transfer.old
  · obtain ⟨t, ht, rfl⟩ := List.mem_map.1 hmem
    rw [hs.written.moving t ht, Header.identity_forwarded]
  · rw [hs.written.others a ha hmem]

theorem isMarked (ha : a ∈ h.objects) : (h₁.header a).isMarked = (h.header a).isMarked := by
  by_cases hmem : a ∈ (Plan.ofHeap h target).transfers.map Transfer.old
  · obtain ⟨t, ht, rfl⟩ := List.mem_map.1 hmem
    rw [hs.written.moving t ht, Header.isMarked_forwarded]
  · rw [hs.written.others a ha hmem]

theorem slots (ha : a ∈ h.objects) : h₁.slots types a = h.slots types a :=
  Heap.slots_congr (hs.identity ha)

theorem word (ha : a ∈ h.objects) {o : Nat} (ho : o ∈ h.slots types a) :
    h₁.word a o = h.word a o := hs.written.payloads.word ha (Heap.slot_fits ho)

theorem holders_eq :
    c.holders = (Plan.ofHeap h target).transfers.map Transfer.old ++ c.largeSurvivors := by
  rw [holders, hs.plan, Plan.transfers, List.map_flatMap]
  congr 2
  funext g
  rw [List.map_append, List.map_append, List.map_map, List.map_map]
  rfl

include hT

theorem objects_eq : h₁.objects = h.objects := hs.written.payloads.layout.objects hT.wellFormed

theorem wellFormed : h₁.WellFormed := hs.written.payloads.layout.wellFormed hT.wellFormed

/-- The headers tell where an object goes. -/
theorem forward_eq (ha : a ∈ h.objects) : c.forward h₁ a = (Plan.ofHeap h target).place a := by
  rw [forward, hs.plan]
  exact Plan.forwardObject_eq hT.wellFormed hT.used_le hT.isForwarded hs.written
    (fun _ _ => rfl) ha

theorem follows : c.Follows types h₁ (Plan.ofHeap h target).place where
  forward h' hh' w hw := by
    rw [objects_eq hT hs] at hh' hw
    rw [hs.plan]
    exact Plan.forward_eq hT.wellFormed hT.isForwarded hs.written hh' hw
  zero := Plan.place_zero hT.wellFormed

/-- What a weak handle to an object holds from now on. -/
theorem fate_eq (ha : a ∈ h.objects) : (c.fate h₁ a).apply a =
    if target.condemnsAddress a = true ∧ (h.header a).isMarked = false then none
    else some ((Plan.ofHeap h target).place a) := by
  rw [fate, hs.target_eq, hs.isMarked ha, forward_eq hT hs ha]
  by_cases hc : target.condemnsAddress a = true
  · rw [if_pos hc]
    cases hm : (h.header a).isMarked <;> simp [hc, Fate.apply]
  · rw [if_neg hc, if_neg fun hboth => hc hboth.1]
    rw [place_of_not_condemned hT.wellFormed (by simpa using hc)]
    rfl

theorem typed : h₁.Typed types := by
  intro a ha
  rw [objects_eq hT hs] at ha
  rw [show (h₁.header a).typeId = (h.header a).typeId from
    congrArg Header.Identity.typeId (hs.identity ha)]
  exact hT.typed a ha

theorem noDangling : h₁.NoDangling types := by
  intro a ha b hab
  obtain ⟨hb, o, ho, hword⟩ := hab
  rw [objects_eq hT hs] at ha ⊢
  rw [hs.slots ha] at ho
  rw [hs.word ha ho] at hword
  exact hT.noDangling a ha b ⟨hb, o, ho, hword⟩

/-- The holders whose references are redirected besides the remembered ones are the
survivors of the collected spaces. -/
theorem mem_holders : a ∈ c.holders ↔
    a ∈ h.objects ∧ (h.header a).isMarked = true ∧ target.condemnsAddress a = true := by
  rw [hs.holders_eq, List.mem_append, Plan.mem_map_old_iff hT.wellFormed, hs.large]
  constructor
  · rintro (⟨ha, hm, g, hg, hc⟩ | ⟨ha, hm, hl, hc⟩)
    · exact ⟨ha, hm, (condemnsAddress_eq hg).trans hc⟩
    · exact ⟨ha, hm, (condemnsAddress_eq hl).trans hc⟩
  · rintro ⟨ha, hm, hc⟩
    obtain ⟨s, hsp, -⟩ := hT.wellFormed.mem_objects_iff.1 ha
    rw [condemnsAddress_eq hsp] at hc
    cases s with
    | arena g => exact Or.inl ⟨ha, hm, g, hsp, hc⟩
    | large => exact Or.inr ⟨ha, hm, hsp, hc⟩

theorem nodup_holders : c.holders.Nodup := by
  rw [hs.holders_eq]
  refine List.nodup_append.2 ⟨Plan.nodup_map_old hT.wellFormed, hs.nodup, ?_⟩
  intro a ha b hb hab
  obtain ⟨-, -, g, hg, -⟩ := (Plan.mem_map_old_iff hT.wellFormed).1 ha
  obtain ⟨-, -, hl, -⟩ := (hs.large b).1 hb
  rw [hab, hl] at hg
  exact absurd (Option.some.inj hg) (by simp)

end Started

/-! ### References -/

/-- What is known once the references are redirected: every survivor names the new places
of what it refers to. -/
structure Redirected (types : TypeSystem) (target : Target) (h h₁ h₂ : Heap) : Prop where
  layout : h₁.SameLayout h₂
  header : ∀ a ∈ h.objects, h₂.header a = h₁.header a
  word : ∀ a, Alive h target a → ∀ o ∈ h.slots types a,
    h₂.word a o = (Plan.ofHeap h target).place (h.word a o)
  plain : ∀ a ∈ h.objects, ∀ i, h.Plain types a i →
    h₂.byte a (headerSize + i) = h.byte a (headerSize + i)

theorem redirects_all (hT : h.Traced types target) (hs : Started h target c h₁)
    (hr : h.RemembersYounger types target holders) :
    ∃ h₂, c.fixReferences types holders h₁ = .ok () h₂ ∧ Redirected types target h h₁ h₂ ∧
      h₂ = (h₁.slotsOfEach types (c.holders ++ holders)).foldl
        (Heap.redirectSlot (Plan.ofHeap h target).place) h₁ := by
  have hobjects := hs.objects_eq hT
  -- the holders found by the plan are in collected spaces, the remembered ones are not
  have hn : (c.holders ++ holders).Nodup := by
    refine List.nodup_append.2 ⟨hs.nodup_holders hT, hr.nodup, ?_⟩
    intro a ha b hb hab
    have hin := ((hs.mem_holders hT).1 ha).2.2
    rw [hab, (hr.mem b hb).2] at hin
    exact absurd hin (by decide)
  have hsub : ∀ a ∈ c.holders ++ holders, a ∈ h₁.objects := by
    intro a ha
    rw [hobjects]
    rcases List.mem_append.1 ha with ha | ha
    · exact ((hs.mem_holders hT).1 ha).1
    · exact (hr.mem a ha).1
  obtain ⟨h₂, hrun, hred, heach⟩ := fixReferences_spec (hs.wellFormed hT) (hs.typed hT)
    (hs.noDangling hT) (hs.follows hT) hn hsub
  refine ⟨h₂, hrun, ⟨hred.layout, fun a ha => hred.header a (hobjects ▸ ha), ?_, ?_⟩, heach⟩
  · intro a ha o ho
    have ha₁ : a ∈ h₁.objects := hobjects ▸ ha.1
    have ho₁ : o ∈ h₁.slots types a := hs.slots ha.1 ▸ ho
    by_cases hdone : a ∈ c.holders ++ holders
    · rw [hred.word a ha₁ o ho₁ hdone, hs.word ha.1 ho]
    · rw [hred.others a ha₁ o ho₁ hdone, hs.word ha.1 ho]
      rw [List.mem_append, not_or] at hdone
      have hout : target.condemnsAddress a = false := by
        by_contra hc
        have hc' : target.condemnsAddress a = true := by simpa using hc
        exact hdone.1 ((hs.mem_holders hT).2 ⟨ha.1, ha.2 hc', hc'⟩)
      rcases hT.noDangling.slot ha.1 ho with hz | hb
      · rw [hz, Plan.place_zero hT.wellFormed]
      · -- a reference to something that moves would make the object a remembered holder
        refine (place_of_not_condemned hT.wellFormed ?_).symm
        by_contra hc
        have hab : h.PointsTo types a (h.word a o) := ⟨hT.wellFormed.ne_zero hb, o, ho, rfl⟩
        exact hdone.2 ((hr.remembers hT.wellFormed hT.noDangling).complete a ha.1 hout _ hab
          (by simpa using hc))
  · intro a ha i hi
    rw [hred.plain a (hobjects ▸ ha) i (hi.congr (hs.identity ha))]
    exact hs.written.payloads.byte a ha _ (Nat.le_add_right _ _) hi.lt_blockSize

/-! ### Sweep and moves -/

/-- What is known once the survivors are at their new places. -/
structure Carried (target : Target) (h h₂ : Heap) (c : Compaction) (h₄ : Heap) : Prop where
  carries : Heap.Carries (Plan.ofHeap h target).place (Alive h target) h₂ h₄
  offsets : ∀ g, (h₄.arena g).offsetsFrom (settledFrom (Plan.ofHeap h target) g) =
    newOffsets (Plan.ofHeap h target) g
  nodup : ∀ g, (newOffsets (Plan.ofHeap h target) g).Nodup
  used_le : h₄.usedBytes ≤ h.usedBytes
  maxSize : h₄.maxSize = h.maxSize

/-- Finalizer slots of objects that a collection gives up. -/
def Orphans (h : Heap) (target : Target) (slots : List UInt64) : Prop :=
  ∀ slot ∈ slots, slot ≠ 0 ∧ ∃ a ∈ h.objects, ¬Alive h target a ∧ (h.header a).slot = slot

/-- The orphans of a plan are slots of unmarked objects of the collected arenas. -/
theorem orphans_ofHeap (hw : h.WellFormed) (target : Target) :
    Orphans h target (Plan.ofHeap h target).orphans := by
  intro slot hslot
  obtain ⟨hne, g, hc, x, hx, hm, rfl⟩ := Plan.mem_orphans hslot
  have hx' : x ∈ h.offsetsIn (.arena g) := hx
  have hspace := Space.ofAddress?_address (s := .arena g) (hw.lt_spaceLimit hx')
  have hheader : h.header ((Space.arena g).address x) = (h.arena g).header x := by
    rw [Heap.header_eq hspace, Space.offset_address (hw.lt_spaceLimit hx')]
    rfl
  refine ⟨hne, _, Heap.address_mem_objects hx', fun halive => ?_, by rw [hheader]⟩
  have hmarked := halive.2 ((condemnsAddress_eq hspace).trans hc)
  rw [hheader, hm] at hmarked
  exact absurd hmarked Bool.false_ne_true

theorem carried_sweep (hT : h.Traced types target) (hs : Started h target c h₁)
    (hlayout : h₁.SameLayout h₂) (hheader : ∀ a ∈ h.objects, h₂.header a = h₁.header a) :
    ∃ sweep h₃, c.sweepLarge h₂ = .ok sweep h₃ ∧ Carried target h h₂ c (c.relocate h₃) ∧
      Orphans h target sweep.orphans := by
  have hw := hT.wellFormed
  have hl : h.SameLayout h₂ := hs.written.payloads.layout.trans hlayout hw
  have hw₂ := hl.wellFormed hw
  obtain ⟨sweep, h₃, hrun, hsw, hdead, hcondemned⟩ := sweepLarge_spec hw₂ c
  -- the header of a large block is that of the object at its address
  have hlarge : ∀ b ∈ h₂.large.live, Space.large.address b.offset ∈ h.objects ∧
      Space.ofAddress? (Space.large.address b.offset) = some .large ∧
      h₂.large.header b.offset = h₁.header (Space.large.address b.offset) := by
    intro b hb
    have hx : b.offset ∈ h₂.offsetsIn .large := List.mem_map_of_mem hb
    have hlt := hw₂.lt_spaceLimit hx
    have ha : Space.large.address b.offset ∈ h.objects :=
      hl.objects hw ▸ Heap.address_mem_objects hx
    refine ⟨ha, Space.ofAddress?_address hlt, ?_⟩
    rw [← hheader _ ha, Heap.header_eq (Space.ofAddress?_address hlt), Space.offset_address hlt]
    rfl
  have hkeeps : Heap.Swept (KeepsBlock h target) h₂ h₃ := by
    refine hsw.congr ?_
    intro b hb
    obtain ⟨ha, -, heq⟩ := hlarge b hb
    rw [KeepsBlock, heq, hs.isMarked ha, hs.target_eq]
  have horphans : Orphans h target sweep.orphans := by
    intro slot hslot
    obtain ⟨hne, b, hb, hm, hb'⟩ := hdead slot hslot
    obtain ⟨ha, hspace, heq⟩ := hlarge b hb
    have hcond : target.condemns .large = true :=
      hs.target_eq ▸ hcondemned (List.ne_nil_of_mem hslot)
    refine ⟨hne, _, ha, fun halive => ?_, ?_⟩
    · have hmarked := halive.2 ((condemnsAddress_eq hspace).trans hcond)
      rw [heq, hs.isMarked ha, hmarked] at hm
      exact absurd hm (by decide)
    · rw [← hb', heq]
      exact congrArg Header.Identity.slot (hs.identity ha).symm
  -- the start of the compaction has made room for every new top
  have hroom : ∀ g, (Plan.ofHeap h target).newTop.get g ≤ (h₂.arena g).capacity := fun g =>
    Nat.le_trans (hs.written.room g) (hlayout.capacity g)
  have hset := relocate_spec hw (ready_of_swept hw hl hroom hkeeps) hs.plan
  refine ⟨sweep, h₃, hrun, ⟨carries_relocate hw hT.used_le hl hkeeps hset, hset.settled,
    fun g => (List.nodup_append.1 (hset.nodup_offsets g)).2.1, ?_, ?_⟩, horphans⟩
  · -- what is in use afterwards is what the plan has counted
    have hsum := Plan.newTop_sum_le hw target
    have hused := hkeeps.used
    rw [hl.used] at hused
    rw [Plan.usedBytes_eq, Plan.usedBytes_eq, hset.top, hset.top, hset.top, hset.large]
    omega
  · rw [hset.maxSize, hkeeps.maxSize, hl.maxSize]

namespace Carried

variable (hT : h.Traced types target) (hs : Started h target c h₁) (hc : Carried target h h₂ c h₄)
include hT hs hc

/-- The objects whose headers are cleared are the survivors of the collected spaces, at
their new places. -/
theorem mem_settled : b ∈ c.settled h₄ ↔
    ∃ a, Alive h target a ∧ target.condemnsAddress a = true ∧
      (Plan.ofHeap h target).place a = b := by
  have hw := hT.wellFormed
  -- what a walk over the arenas finds is where the plan has moved objects
  have hmoved : (b ∈ Generation.all.flatMap fun g => ((h₄.arena g).offsetsFrom
      (settledFrom c.plan g)).map (Space.arena g).address) ↔
      ∃ t ∈ (Plan.ofHeap h target).transfers, t.new = b := by
    rw [hs.plan, List.mem_flatMap]
    constructor
    · rintro ⟨g, -, hb⟩
      rw [hc.offsets] at hb
      obtain ⟨x, hx, rfl⟩ := List.mem_map.1 hb
      obtain ⟨t, ht, rfl, rfl⟩ := (mem_newOffsets hw).1 hx
      exact ⟨t, ht, rfl⟩
    · rintro ⟨t, ht, rfl⟩
      refine ⟨t.dest, Plan.mem_all_generations _, ?_⟩
      rw [hc.offsets]
      exact List.mem_map_of_mem ((mem_newOffsets hw).2 ⟨t, ht, rfl, rfl⟩)
  rw [settled, List.mem_append, hmoved, hs.large]
  constructor
  · rintro (⟨t, ht, rfl⟩ | ⟨hb, hm, hl, hcl⟩)
    · obtain ⟨-, -, g, hg, hcg⟩ := (Plan.mem_map_old_iff hw).1 (List.mem_map_of_mem ht)
      exact ⟨t.old, alive_old hw ht, (condemnsAddress_eq hg).trans hcg, Plan.place_old hw ht⟩
    · refine ⟨b, ⟨hb, fun _ => hm⟩, (condemnsAddress_eq hl).trans hcl, place_eq_self hw ?_⟩
      intro g hg
      rw [hl] at hg
      exact absurd (Option.some.inj hg) (by simp)
  · rintro ⟨a, ha, hca, rfl⟩
    have hm := ha.2 hca
    obtain ⟨s, hsp, -⟩ := hw.mem_objects_iff.1 ha.1
    rw [condemnsAddress_eq hsp] at hca
    -- an object of an arena was moved by the plan, a large one has kept its place
    cases s with
    | arena g =>
      obtain ⟨t, ht, rfl⟩ := List.mem_map.1 ((Plan.mem_map_old_iff hw).2 ⟨ha.1, hm, g, hsp, hca⟩)
      exact Or.inl ⟨t, ht, (Plan.place_old hw ht).symm⟩
    | large =>
      rw [place_eq_self hw fun g hg => by
        rw [hsp] at hg
        exact absurd (Option.some.inj hg) (by simp)]
      exact Or.inr ⟨ha.1, hm, hsp, hca⟩

theorem place_mem_settled (ha : Alive h target a) :
    (Plan.ofHeap h target).place a ∈ c.settled h₄ ↔ target.condemnsAddress a = true := by
  rw [hc.mem_settled hT hs]
  constructor
  · rintro ⟨b, hb, hcond, heq⟩
    rwa [hc.carries.inj a b ha hb heq.symm]
  · exact fun hcond => ⟨a, ha, hcond, rfl⟩

theorem nodup_settled : (c.settled h₄).Nodup := by
  have hw := hT.wellFormed
  have hspace : ∀ g, ∀ x ∈ newOffsets (Plan.ofHeap h target) g, x < spaceLimit := by
    intro g x hx
    obtain ⟨t, ht, -, rfl⟩ := (mem_newOffsets hw).1 hx
    exact Plan.dest_lt hw hT.used_le ht
  rw [settled, hs.plan]
  refine List.nodup_append.2 ⟨List.pairwise_flatMap.2 ⟨?_, ?_⟩, hs.nodup, ?_⟩
  · intro g _
    rw [hc.offsets]
    refine List.pairwise_map.2 ((hc.nodup g).imp_of_mem ?_)
    intro x y hx hy hne heq
    exact hne (Space.address_inj (hspace g x hx) (hspace g y hy) heq)
  · -- addresses of different arenas are different
    have hall : Generation.all.Pairwise (· ≠ ·) := by decide
    refine hall.imp ?_
    intro g k hgk a ha b hb hab
    rw [hc.offsets] at ha hb
    obtain ⟨x, hx, rfl⟩ := List.mem_map.1 ha
    obtain ⟨y, hy, rfl⟩ := List.mem_map.1 hb
    have hg := Space.ofAddress?_address (s := .arena g) (hspace g x hx)
    have hk := Space.ofAddress?_address (s := .arena k) (hspace k y hy)
    rw [hab, hk] at hg
    exact hgk (Space.arena.inj (Option.some.inj hg)).symm
  · intro a ha b hb hab
    obtain ⟨g, -, ha⟩ := List.mem_flatMap.1 ha
    rw [hc.offsets] at ha
    obtain ⟨x, hx, rfl⟩ := List.mem_map.1 ha
    obtain ⟨-, -, hl, -⟩ := (hs.large b).1 hb
    rw [← hab, Space.ofAddress?_address (hspace g x hx)] at hl
    exact absurd (Option.some.inj hl) (by simp)

/-- The objects whose headers are cleared are there. -/
theorem settled_sub : ∀ a ∈ c.settled h₄, a ∈ h₄.objects := by
  intro a ha
  obtain ⟨d, hd, -, rfl⟩ := (hc.mem_settled hT hs).1 ha
  exact hc.carries.mem_objects hd

omit hT hs in
/-- The remembered holders are where they were. -/
theorem holders_sub (hw : h.WellFormed) (hrem : h.RemembersYounger types target holders) :
    ∀ a ∈ holders, a ∈ h₄.objects := by
  intro a ha
  obtain ⟨hobj, hout⟩ := hrem.mem a ha
  refine (hc.carries.mem a).2 ⟨a, ⟨hobj, ?_⟩, place_of_not_condemned hw hout⟩
  intro hcond
  rw [hout] at hcond
  exact absurd hcond (by decide)

end Carried

/-! ### The end -/

/-- The tag in the header of an object names the space of its new place. -/
theorem Started.space_header (hT : h.Traced types target) (hs : Started h target c h₁)
    (ha : a ∈ h.objects) {s : Space}
    (hsp : Space.ofAddress? ((Plan.ofHeap h target).place a) = some s) :
    (h₁.header a).space = s := by
  have hw := hT.wellFormed
  by_cases hmem : a ∈ (Plan.ofHeap h target).transfers.map Transfer.old
  · obtain ⟨t, ht, rfl⟩ := List.mem_map.1 hmem
    rw [Plan.place_old hw ht, (Settled.ofAddress?_new hw hT.used_le ht).1] at hsp
    rw [hs.written.moving t ht, Header.space_forwarded]
    exact Option.some.inj hsp
  · rw [Plan.place_of_not_mem hmem] at hsp
    rw [hs.written.others a ha hmem]
    obtain ⟨s', hs', hx⟩ := hw.mem_objects_iff.1 ha
    obtain rfl : s' = s := Option.some.inj (hs'.symm.trans hsp)
    exact hT.tagged s' a (hw.mem_objectsIn_iff.2 ⟨hsp, hx⟩)

/-- What a compaction makes of a heap. -/
structure Compacted (types : TypeSystem) (target : Target) (h h' : Heap) : Prop where
  wellFormed : h'.WellFormed
  tagged : h'.Tagged
  clean : h'.Clean
  moves : Heap.Moves types (Plan.ofHeap h target).place (Alive h target) h h'
  used_le : h'.usedBytes ≤ h.usedBytes
  maxSize : h'.maxSize = h.maxSize

/-- A survivor has the header at its new place that it had at its old one. -/
theorem header_carried (hT : h.Traced types target) (hs : Started h target c h₁)
    (hlayout : h₁.SameLayout h₂) (hheader : ∀ a ∈ h.objects, h₂.header a = h₁.header a)
    (hc : Carried target h h₂ c h₄) (ha : Alive h target a) :
    h₄.header ((Plan.ofHeap h target).place a) = h₁.header a := by
  have hw₂ := hlayout.wellFormed (hs.wellFormed hT)
  have ha₂ : a ∈ h₂.objects := by
    rw [hlayout.objects (hs.wellFormed hT), hs.objects_eq hT]
    exact ha.1
  rw [hc.carries.header hw₂ ha₂ ha, hheader a ha.1]

section Complete

variable (hT : h.Traced types target) (hs : Started h target c h₁)
  (hr : Redirected types target h h₁ h₂) (hc : Carried target h h₂ c h₄)
  (hl : Heap.Relabels (fun a x => if a ∈ c.settled h₄ then x.cleared else x) h₄ h₅)
include hT hs hr hc hl

/-- The header of a survivor after the compaction. -/
theorem header_finished (ha : Alive h target a) :
    h₅.header ((Plan.ofHeap h target).place a) =
      if target.condemnsAddress a = true then (h₁.header a).cleared else h.header a := by
  rw [hl.header _ (hc.carries.mem_objects ha), header_carried hT hs hr.layout hr.header hc ha]
  by_cases hcond : target.condemnsAddress a = true
  · rw [if_pos hcond, if_pos ((hc.place_mem_settled hT hs ha).2 hcond)]
  · rw [if_neg hcond, if_neg fun hmem => hcond ((hc.place_mem_settled hT hs ha).1 hmem)]
    refine hs.written.others a ha.1 ?_
    intro hmem
    obtain ⟨-, -, g, hg, hcg⟩ := (Plan.mem_map_old_iff hT.wellFormed).1 hmem
    exact hcond ((condemnsAddress_eq hg).trans hcg)

theorem moves_finished :
    Heap.Moves types (Plan.ofHeap h target).place (Alive h target) h h₅ := by
  have hobjects := hl.layout.objects hc.carries.wellFormed
  -- sizes are part of the identity, which no phase changes
  have hsize₂ : ∀ a, Alive h target a → (h₂.header a).size = (h.header a).size := fun a ha => by
    rw [hr.header a ha.1]
    exact congrArg Header.Identity.size (hs.identity ha.1)
  have hsize₄ : ∀ a, Alive h target a →
      (h₄.header ((Plan.ofHeap h target).place a)).size = (h.header a).size := fun a ha => by
    rw [header_carried hT hs hr.layout hr.header hc ha]
    exact congrArg Header.Identity.size (hs.identity ha.1)
  refine ⟨fun b => by rw [hobjects]; exact hc.carries.mem b, hc.carries.inj,
    Plan.place_zero hT.wellFormed, ?_, ?_, ?_⟩
  · intro a ha
    rw [header_finished hT hs hr hc hl ha]
    split
    · rw [Header.identity_cleared, hs.identity ha.1]
    · rfl
  · intro a ha o ho
    have hfit := Heap.slot_fits ho
    rw [hl.word (hc.carries.mem_objects ha) (by rwa [Header.payloadSize, hsize₄ a ha]),
      hc.carries.word ha (by rwa [Header.payloadSize, hsize₂ a ha]), hr.word a ha o ho]
  · intro a ha i hi
    have hlt : headerSize + i < headerSize + (h.header a).size.toNat :=
      Nat.add_lt_add_left hi.lt _
    rw [hl.byte _ (hc.carries.mem_objects ha) _ (Nat.le_add_right _ _)
        (by rwa [Header.blockSize, hsize₄ a ha]),
      hc.carries.byte a ha _ (by rwa [Header.blockSize, hsize₂ a ha]), hr.plain a ha.1 i hi]

theorem compacted : Compacted types target h h₅ where
  wellFormed := hl.layout.wellFormed hc.carries.wellFormed
  tagged := by
    have hw₅ := hl.layout.wellFormed hc.carries.wellFormed
    intro s b hb
    have hobj : b ∈ h₅.objects := List.mem_flatMap.2 ⟨s, s.mem_all, hb⟩
    obtain ⟨a, ha, rfl⟩ := ((moves_finished hT hs hr hc hl).mem b).1 hobj
    have hsp := (hw₅.mem_objectsIn_iff.1 hb).1
    have htag := hs.space_header hT ha.1 hsp
    rw [header_finished hT hs hr hc hl ha]
    -- the tags of what was collected were written anew, the others were right already
    by_cases hcond : target.condemnsAddress a = true
    · rw [if_pos hcond, Header.space_cleared, htag]
    · rw [if_neg hcond]
      rw [place_of_not_condemned hT.wellFormed (by simpa using hcond)] at hsp
      obtain ⟨s', hs', hx⟩ := hT.wellFormed.mem_objects_iff.1 ha.1
      obtain rfl : s' = s := Option.some.inj (hs'.symm.trans hsp)
      exact hT.tagged s' a (hT.wellFormed.mem_objectsIn_iff.2 ⟨hsp, hx⟩)
  clean := by
    have hheader : ∀ b ∈ h₅.objects, (h₅.header b).isMarked = false ∧
        (h₅.header b).isForwarded = false ∧ (h₅.header b).forwarding = 0 := by
      intro b hb
      obtain ⟨a, ha, rfl⟩ := ((moves_finished hT hs hr hc hl).mem b).1 hb
      rw [header_finished hT hs hr hc hl ha]
      by_cases hcond : target.condemnsAddress a = true
      · rw [if_pos hcond]
        exact ⟨Header.isMarked_cleared _, Header.isForwarded_cleared _,
          Header.forwarding_cleared _⟩
      · rw [if_neg hcond]
        refine ⟨?_, hT.isForwarded a ha.1, hT.forwarding a ha.1⟩
        -- nothing outside of the collected spaces was ever marked
        by_contra hm
        exact hcond (hT.condemned a ha.1 (by simpa using hm))
    exact ⟨fun b hb => (hheader b hb).1, fun b hb => (hheader b hb).2.1,
      fun b hb => (hheader b hb).2.2⟩
  moves := moves_finished hT hs hr hc hl
  used_le := hl.layout.usedBytes.trans_le hc.used_le
  maxSize := hl.layout.maxSize.trans hc.maxSize

/-- What holds a younger reference after the moves is a survivor of the collected spaces or
was remembered before. -/
theorem holdsYounger_finished (hrem : h.RemembersYounger types target holders)
    (hb : b ∈ h₅.objects) (hyoung : h₅.HoldsYounger types b) :
    b ∈ c.settled h₄ ∨ b ∈ holders := by
  have hm := moves_finished hT hs hr hc hl
  obtain ⟨a, ha, rfl⟩ := (hm.mem b).1 hb
  by_cases hcond : target.condemnsAddress a = true
  · exact Or.inl ((hc.place_mem_settled hT hs ha).2 hcond)
  · have hout : target.condemnsAddress a = false := by simpa using hcond
    have hplace := place_of_not_condemned hT.wellFormed hout
    obtain ⟨x, hx, hdown⟩ := hyoung
    obtain ⟨d, hd, hdx⟩ := hm.of_pointsTo ha hx
    rw [hplace] at hdown ⊢
    refine Or.inr (hrem.complete a ha.1 hout ⟨d, hd, ?_⟩)
    by_cases hcd : target.condemnsAddress d = true
    · exact Heap.pointsDown_of_condemns hT.wellFormed ha.1 (hT.noDangling a ha.1 d hd) hout hcd
    · rw [place_of_not_condemned hT.wellFormed (by simpa using hcd)] at hdx
      rwa [hdx]

end Complete

/-- The steps of what remains to be done once the roots are redirected, each with what is known
after it. -/
theorem complete_steps (hT : h.Traced types target) (hs : Started h target c h₁)
    (hrem : h.RemembersYounger types target holders) :
    ∃ h₂ sweep h₃ r h₅, c.fixReferences types holders h₁ = .ok () h₂ ∧
      c.sweepLarge h₂ = .ok sweep h₃ ∧ c.finish types holders (c.relocate h₃) = .ok r h₅ ∧
      Redirected types target h h₁ h₂ ∧ Carried target h h₂ c (c.relocate h₃) ∧
      Orphans h target sweep.orphans ∧
      Heap.Relabels (fun a x => if a ∈ c.settled (c.relocate h₃) then x.cleared else x)
        (c.relocate h₃) h₅ ∧ r.holders.toList.Nodup ∧
      ∀ a, a ∈ r.holders ↔
        (a ∈ c.settled (c.relocate h₃) ∨ a ∈ holders) ∧ h₅.HoldsYounger types a := by
  have hw := hT.wellFormed
  obtain ⟨h₂, hfix, hr, -⟩ := redirects_all hT hs hrem
  obtain ⟨sweep, h₃, hsweep, hc, horphans⟩ := carried_sweep hT hs hr.layout hr.header
  have hmem := hc.settled_sub hT hs
  have hprev := hc.holders_sub hw hrem
  have htyped : (c.relocate h₃).Typed types := by
    intro b hb
    obtain ⟨a, ha, rfl⟩ := (hc.carries.mem b).1 hb
    have htype : (h₁.header a).typeId = (h.header a).typeId :=
      congrArg Header.Identity.typeId (hs.identity ha.1)
    rw [header_carried hT hs hr.layout hr.header hc ha, htype]
    exact hT.typed a ha.1
  obtain ⟨r, h₅, hfinish, hl, hnodup, hholders⟩ :=
    finish_spec hc.carries.wellFormed (hc.nodup_settled hT hs) hmem hprev fun a ha =>
      htyped a ((List.mem_append.1 ha).elim (hmem a) (hprev a))
  exact ⟨h₂, sweep, h₃, r, h₅, hfix, hsweep, hfinish, hr, hc, horphans, hl, hnodup, hholders⟩

/-- The steps, one after the other. -/
theorem complete_of_steps {sweep : Sweep} {r : Remembered}
    (hfix : c.fixReferences types holders h₁ = .ok () h₂) (hsweep : c.sweepLarge h₂ = .ok sweep h₃)
    (hfinish : c.finish types holders (c.relocate h₃) = .ok r h₅) :
    c.complete types holders h₁ = .ok (sweep, r) h₅ := by
  rw [complete, Action.bind_of_ok hfix, Action.bind_of_ok hsweep]
  show (c.finish types holders >>= _) (c.relocate h₃) = _
  rw [Action.bind_of_ok hfinish]
  rfl

/-- All that remains to be done once the roots are redirected. -/
theorem complete_spec (hT : h.Traced types target) (hs : Started h target c h₁)
    (hrem : h.RemembersYounger types target holders) :
    ∃ sweep r h', c.complete types holders h₁ = .ok (sweep, r) h' ∧
      Compacted types target h h' ∧ Orphans h target sweep.orphans ∧ r.holders.toList.Nodup ∧
      ∀ a, a ∈ r.holders ↔ a ∈ h'.objects ∧ h'.HoldsYounger types a := by
  obtain ⟨h₂, sweep, h₃, r, h₅, hfix, hsweep, hfinish, hr, hc, horphans, hl, hnodup, hholders⟩ :=
    complete_steps hT hs hrem
  have hobjects := hl.layout.objects hc.carries.wellFormed
  refine ⟨sweep, r, h₅, complete_of_steps hfix hsweep hfinish, compacted hT hs hr hc hl, horphans,
    hnodup, ?_⟩
  intro a
  rw [hholders]
  constructor
  · rintro ⟨hin, hyoung⟩
    rw [hobjects]
    exact ⟨hin.elim (hc.settled_sub hT hs a) (hc.holders_sub hT.wellFormed hrem a), hyoung⟩
  · rintro ⟨hobj, hyoung⟩
    exact ⟨holdsYounger_finished hT hs hr hc hl hrem hobj hyoung, hyoung⟩

/-- The header of a survivor once all is done. -/
theorem complete_header (hT : h.Traced types target) (hs : Started h target c h₁)
    (hrem : h.RemembersYounger types target holders) {answer : Sweep × Remembered}
    (hrun : c.complete types holders h₁ = .ok answer h₅) (ha : Alive h target a) :
    h₅.header ((Plan.ofHeap h target).place a) =
      if target.condemnsAddress a = true then (h₁.header a).cleared else h.header a := by
  obtain ⟨h₂, sweep, h₃, r, h', hfix, hsweep, hfinish, hr, hc, -, hl, -⟩ :=
    complete_steps hT hs hrem
  obtain ⟨-, rfl⟩ :=
    EStateM.Result.ok.inj ((complete_of_steps hfix hsweep hfinish).symm.trans hrun)
  exact header_finished hT hs hr hc hl ha

end Compaction

end GenerationalHeap
