/-
Where a collection puts a survivor, and what its header says there.

* `Collector.Passes.place_eq` — the plan of the passes tells the new places.
* `Collector.Collected.extent` — no block changes its size.
* `Plan.dest_eq`, `Collector.Collected.placed` — a survivor of a collected space goes to the
  space, and gets the age, that `Space.place` tells.
* `Collector.Collected.age_of_not_condemned` — all others keep their ages.
-/
import GenerationalHeap.Proofs.Passes

namespace GenerationalHeap

/-! ### Ages -/

namespace Header

theorem age_le (x : Header) : x.age ≤ maxAge := by
  have hmask : (x.markWord.toNat &&& ageMask.toNat) ≤ ageMask.toNat := Nat.and_le_right
  rw [age, UInt64.toNat_shiftRight, UInt64.toNat_and, Nat.shiftRight_eq_div_pow]
  exact Nat.div_le_div_right hmask

@[simp] theorem age_setMarked (x : Header) (on : Bool) : (x.setMarked on).age = x.age :=
  age_setFlag _ (by decide) on

@[simp] theorem age_markIf (x : Header) (on : Bool) : (x.markIf on).age = x.age := by
  cases on with
  | false => rfl
  | true => exact age_setMarked x true

@[simp] theorem age_cleared (x : Header) : x.cleared.age = x.age := by
  rw [cleared, clearForwarding]
  exact (age_setFlag _ (by decide) false).trans (age_setMarked x false)

/-- A survivor gets an age that a header can hold. -/
theorem age_place_le (s : Space) (x : Header) : (s.place x).age ≤ maxAge := by
  have hx := x.age_le
  rcases s with (_ | _ | _) | _
  · rw [Space.place]
    by_cases hleaves : x.age + 1 ≥ promotionAge
    · simp [hleaves]
    · simp only [hleaves, if_false]
      unfold promotionAge at hleaves
      unfold maxAge
      omega
  · exact Nat.zero_le _
  · exact hx
  · exact hx

theorem age_forwarded (old : Space) (x : Header) (g : Generation) (dest : Nat) :
    (Plan.forwarded old x g dest).age = (old.place x).age := by
  rw [Plan.forwarded, age_setSpace, age_setAge, Nat.min_eq_left (age_place_le old x)]

end Header

/-- Only the age in a header tells where its object goes. -/
theorem Space.place_congr {s : Space} {x y : Header} (h : x.age = y.age) :
    s.place x = s.place y := by
  rcases s with (_ | _ | _) | _ <;> simp only [Space.place, h]

/-- An object that leaves its arena goes to the next older one, as planned. -/
theorem Plan.dest_eq {h : Heap} {target : Target} (hw : h.WellFormed) {t : Transfer}
    (ht : t ∈ (ofHeap h target).transfers) :
    ((Space.arena t.source).place (h.header t.old)).space = .arena t.dest := by
  have hheader : (h.arena t.source).header t.move.source = h.header t.old := by
    rw [Heap.header_eq (ofAddress?_old hw ht), offset_old hw ht]
    rfl
  have hleaves : ∀ x, (h.arena t.source).leaves x =
      ((Space.arena t.source).place ((h.arena t.source).header x)).isPromotion
        (.arena t.source) := by
    intro x
    rw [Arena.leaves, (hw.arena t.source).space_eq]
  rcases (mem_transfers _).1 ht with ⟨hdest, hm⟩ | ⟨hdest, hm⟩
  · have hstays := (mem_staying.1 (mem_stays hw hm).1).2.2.2
    rw [hleaves, hheader, Placement.isPromotion, bne_eq_false_iff_eq] at hstays
    rw [hstays, hdest]
  · have hleaves' := (mem_leaving.1 (mem_promotions hm).1).2.2.2
    rw [hleaves, hheader, Placement.isPromotion, bne_iff_ne] at hleaves'
    rw [hdest]
    -- the only space other than its own that the policy has for an arena is the next older one
    revert hleaves'
    generalize t.source = g
    rcases g with _ | _ | _ <;> simp only [Space.place, Generation.older]
    · split <;> simp
    · simp
    · simp

namespace Collector

variable {κ : Type} {target : Target} {c c' : Collector κ TypeRegistry} {F : Address → Address}
  {dying : List Address} {a : Address}

/-! ### Plans and places -/

namespace Passes

variable (hc : c.Sound) (p : Passes target c)
include hc

theorem alive_iff :
    Compaction.Alive p.kept target a ↔ c.heap.Survives c.types target c.rootObjects a := by
  obtain ⟨hm, hkept⟩ := p.onlyMarks_kept hc
  exact (hc.heap.traced hm hkept).2 a

/-- The plan of the passes tells the places that weak handles learn. -/
theorem place_eq (hcol : Collected target F dying c c')
    (ha : c.heap.Survives c.types target c.rootObjects a) :
    (Plan.ofHeap p.kept target).place a = F a := by
  have halive := (p.alive_iff hc).2 ha
  have hfate := hcol.followed a ha.1
  rw [if_pos ha, placeAfter, Heap.placeAfter_of_ok p.markLive p.resurrect p.start,
    (p.started hc).fate_eq (p.traced hc) halive.1, if_neg] at hfate
  · exact Option.some.inj hfate
  · rintro ⟨hcond, hunmarked⟩
    rw [halive.2 hcond] at hunmarked
    exact absurd hunmarked (by simp)

/-- Marks change neither the age nor the size of an object. -/
theorem header_kept (ha : a ∈ c.heap.objects) :
    (p.kept.header a).age = (c.heap.header a).age ∧
      (p.kept.header a).blockSize = (c.heap.header a).blockSize := by
  rw [(p.onlyMarks_kept hc).1.header a ha, Header.blockSize, Header.blockSize, Header.size_markIf]
  exact ⟨Header.age_markIf _ _, rfl⟩

end Passes

/-! ### Survivors at their places -/

section Collected

variable {reason : Reason} {report : Report} (hc : c.Sound)
  (hrun : collectFor target reason c = .ok report c') (hcol : Collected target F dying c c')
  (ha : c.heap.Survives c.types target c.rootObjects a)
include hc hrun hcol ha

/-- A survivor has a block of the same size at its new place. -/
theorem Collected.extent : c'.heap.extent (F a) = c.heap.extent a := by
  obtain ⟨p, hleaves, -⟩ := Passes.of_collectFor hrun
  have hmoved := Compaction.extent_place (p.traced hc) (p.compacted hc) ((p.alive_iff hc).2 ha)
  rw [p.place_eq hc hcol ha, ← hleaves.heap] at hmoved
  obtain ⟨s, hs, -⟩ := hc.heap.wellFormed.mem_objects_iff.1 ha.1
  rw [hmoved, (p.traced hc).wellFormed.extent_eq_roomFor (p.objects_kept hc ▸ ha.1) hs,
    hc.heap.wellFormed.extent_eq_roomFor ha.1 hs]
  exact Space.roomFor_congr (p.header_kept hc ha.1).2

/-- A survivor of a collected space goes where the policy tells, and has the age that it
tells. -/
theorem Collected.placed (hcond : target.condemnsAddress a = true) {s : Space}
    (hs : Space.ofAddress? a = some s) :
    Space.ofAddress? (F a) = some (s.place (c.heap.header a)).space ∧
      (c'.heap.header (F a)).age = (s.place (c.heap.header a)).age := by
  obtain ⟨p, hleaves, -⟩ := Passes.of_collectFor hrun
  have hT := p.traced hc
  have hw := hT.wellFormed
  have hstarted := p.started hc
  have halive := (p.alive_iff hc).2 ha
  have hplace : s.place (p.kept.header a) = s.place (c.heap.header a) :=
    Space.place_congr (p.header_kept hc ha.1).1
  have hheader := Compaction.complete_header hT hstarted (p.remembersYounger hc) p.complete halive
  rw [p.place_eq hc hcol ha, if_pos hcond, ← hleaves.heap] at hheader
  rw [hheader, Header.age_cleared, ← hplace]
  -- an arena object goes where the plan sends it, a large one stays
  cases s with
  | arena g =>
    have hcond' := (Compaction.condemnsAddress_eq hs).symm.trans hcond
    obtain ⟨t, ht, rfl⟩ := List.mem_map.1
      ((Plan.mem_map_old_iff hw).2 ⟨halive.1, halive.2 hcond, g, hs, hcond'⟩)
    obtain rfl : t.source = g :=
      Space.arena.inj (Option.some.inj ((Plan.ofAddress?_old hw ht).symm.trans hs))
    rw [Plan.dest_eq hw ht, ← p.place_eq hc hcol ha, Plan.place_old hw ht,
      hstarted.written.moving t ht]
    exact ⟨(Compaction.Settled.ofAddress?_new hw hT.used_le ht).1, Header.age_forwarded _ _ _ _⟩
  | large =>
    rw [hcol.fixed a ha.1 (Or.inr hs), Compaction.header_large hw hstarted.written hs halive.1]
    exact ⟨hs, rfl⟩

/-- An object that is left alone keeps its age. -/
theorem Collected.age_of_not_condemned (hout : target.condemnsAddress a = false) :
    (c'.heap.header (F a)).age = (c.heap.header a).age := by
  obtain ⟨p, hleaves, -⟩ := Passes.of_collectFor hrun
  have hheader := Compaction.complete_header (p.traced hc) (p.started hc) (p.remembersYounger hc)
    p.complete ((p.alive_iff hc).2 ha)
  rw [p.place_eq hc hcol ha, hout, if_neg Bool.false_ne_true, ← hleaves.heap] at hheader
  rw [hheader, (p.header_kept hc ha.1).1]

end Collected

end Collector

end GenerationalHeap
