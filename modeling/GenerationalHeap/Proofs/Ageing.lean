/-
The generations of objects.

* `Generation.afterLiving` — the generation of a small object, told by the targets of the
  collections that it has lived through.
* `SizeClass.placeIn_spaceAfter` — one collection more, as the promotion policy has it.
* `Roster.lived` — the targets of the collections that an object has lived through.
* `Roster.Aged`, `Roster.lasting_aged` — every object is where these targets tell, and its age
  counts them for as long as it is in the nursery.
* `Roster.Ripens`, `Roster.lasting_ripens` — what becomes of the objects of a roster later on.
* `Roster.Recorded.generation_of_lived` — so it is along every run.

It is followed by an instance, about a small and a large object in the course of five collections,
one of which fails: `Roster.grown`.
-/
import GenerationalHeap.Proofs.Lasting

namespace GenerationalHeap

/-! ### The promotion policy -/

/-- The generation of a small object that has lived through collections of the targets `ts`. The
second one takes it out of the nursery, and the first one after that which collects more than the
nursery out of generation 1. -/
def Generation.afterLiving (ts : List Target) : Generation :=
  if ts.length < 2 then .gen0
  else if ∃ t ∈ ts.drop 2, t ≠ .gen0 then .gen2
  else .gen1

/-- The space of an object of a size class. -/
def SizeClass.spaceAfter (ts : List Target) : SizeClass → Space
  | .small => .arena (.afterLiving ts)
  | .large => .large

/-- Where an object goes in a collection, which may leave its space alone. -/
def Space.placeIn (s : Space) (t : Target) (x : Header) : Placement :=
  if t.condemns s then s.place x else ⟨s, x.age⟩

namespace Generation

variable {ts : List Target} {t : Target}

theorem afterLiving_of_lt (h : ts.length < 2) : afterLiving ts = .gen0 := if_pos h

theorem afterLiving_eq_gen0_iff : afterLiving ts = .gen0 ↔ ts.length < 2 := by
  rw [afterLiving]
  split
  · exact ⟨fun _ => ‹_›, fun _ => rfl⟩
  · split <;> exact ⟨fun h => absurd h (by simp), fun h => absurd h ‹_›⟩

/-- Only the collections after the second one tell the two older generations apart. -/
theorem afterLiving_concat (h : 2 ≤ ts.length) (t : Target) :
    afterLiving (ts ++ [t]) = if t = .gen0 then afterLiving ts else .gen2 := by
  have hdrop : (ts ++ [t]).drop 2 = ts.drop 2 ++ [t] := List.drop_append_of_le_length h
  have hlong : ¬(ts ++ [t]).length < 2 := by
    rw [List.length_append]
    omega
  rw [afterLiving, if_neg hlong, afterLiving, if_neg (Nat.not_lt.2 h), hdrop]
  by_cases ht : t = .gen0
  · simp [ht]
  · simp [ht]

theorem rank_afterLiving_concat (ts : List Target) (t : Target) :
    (afterLiving ts).rank ≤ (afterLiving (ts ++ [t])).rank := by
  by_cases h : ts.length < 2
  · rw [afterLiving_of_lt h]
    exact Nat.zero_le _
  · rw [afterLiving_concat (Nat.not_lt.1 h)]
    split
    · exact Nat.le_refl _
    · cases afterLiving ts <;> decide

theorem rank_afterLiving_append (ts more : List Target) :
    (afterLiving ts).rank ≤ (afterLiving (ts ++ more)).rank := by
  induction more generalizing ts with
  | nil => rw [List.append_nil]
  | cons t rest ih =>
    have hrest := ih (ts ++ [t])
    rw [List.append_assoc] at hrest
    exact Nat.le_trans (rank_afterLiving_concat ts t) hrest

end Generation

namespace SizeClass

theorem rank_spaceAfter_append (k : SizeClass) (ts more : List Target) :
    (k.spaceAfter ts).rank ≤ (k.spaceAfter (ts ++ more)).rank := by
  cases k with
  | small => exact Generation.rank_afterLiving_append ts more
  | large => exact Nat.le_refl _

/-- In one collection more, an object goes where the list of its targets tells from then on. -/
theorem placeIn_spaceAfter (k : SizeClass) {ts : List Target} {x : Header}
    (hage : k.spaceAfter ts = .arena .gen0 → x.age = ts.length) (t : Target) :
    ((k.spaceAfter ts).placeIn t x).space = k.spaceAfter (ts ++ [t]) ∧
      (k.spaceAfter (ts ++ [t]) = .arena .gen0 →
        ((k.spaceAfter ts).placeIn t x).age = (ts ++ [t]).length) := by
  cases k with
  -- a large object stays in its space whatever is collected
  | large =>
    refine ⟨?_, fun h => absurd h (by simp [spaceAfter])⟩
    show (Space.placeIn .large t x).space = .large
    rw [Space.placeIn]
    split <;> rfl
  | small =>
    simp only [spaceAfter, Space.arena.injEq, Generation.afterLiving_eq_gen0_iff] at hage ⊢
    by_cases hyoung : ts.length < 2
    · -- every target collects the nursery
      have hgen := Generation.afterLiving_of_lt hyoung
      have hx : x.age = ts.length := hage hyoung
      have hcond : t.condemns (.arena .gen0) = true := by cases t <;> rfl
      rw [hgen, Space.placeIn, if_pos hcond]
      simp only [Space.place, hx, promotionAge, List.length_append, List.length_singleton]
      by_cases hleaves : ts.length + 1 ≥ 2
      · have hlong : (ts ++ [t]).length = 2 := by
          rw [List.length_append, List.length_singleton]
          omega
        have hdrop : (ts ++ [t]).drop 2 = [] := List.drop_eq_nil_of_le (Nat.le_of_eq hlong)
        rw [if_pos hleaves, Generation.afterLiving, if_neg (by omega), hdrop]
        exact ⟨by simp, fun h => absurd h (by omega)⟩
      · rw [if_neg hleaves, Generation.afterLiving_of_lt (by simpa using hleaves)]
        exact ⟨rfl, fun _ => rfl⟩
    · -- an older object moves on by what the target tells alone
      rw [Generation.afterLiving_concat (Nat.not_lt.1 hyoung), List.length_append]
      refine ⟨?_, fun h => absurd h (by omega)⟩
      have hold : Generation.afterLiving ts ≠ .gen0 :=
        mt Generation.afterLiving_eq_gen0_iff.1 hyoung
      revert hold
      generalize Generation.afterLiving ts = g
      intro hold
      cases g with
      | gen0 => exact absurd rfl hold
      | gen1 => cases t <;> rfl
      | gen2 => cases t <;> rfl

end SizeClass

namespace Request

/-- A new object has lived through nothing. -/
theorem space_header (r : Request) : r.header.space = r.sizeClass.spaceAfter [] := by
  cases hclass : r.sizeClass with
  | small => exact space_header_of_small hclass
  | large => exact space_header_of_large hclass

theorem age_header (r : Request) : r.header.age = 0 := Header.age_fresh _ _ _ _

end Request

/-! ### One collection -/

namespace Collector

variable {κ : Type} {target : Target} {c c' : Collector κ TypeRegistry} {F : Address → Address}
  {dying : List Address} {a : Address}

/-- The size class of an object, by its payload. -/
def sizeClassAt (c : Collector κ TypeRegistry) (a : Address) : SizeClass :=
  c.config.sizeClassOf (c.heap.header a).payloadSize

theorem Unmoved.sizeClassAt (h : Unmoved c c') (ha : a ∈ c.heap.objects) :
    c'.sizeClassAt a = c.sizeClassAt a := by
  rw [Collector.sizeClassAt, Collector.sizeClassAt, h.config, Header.payloadSize,
    Header.payloadSize, (h.header a ha).1]

/-- A survivor goes where the policy tells, and keeps its size class. -/
theorem Collected.placedIn {reason : Reason} {report : Report} (hc : c.Sound)
    (hrun : Collector.collectFor target reason c = .ok report c')
    (hcol : Collected target F dying c c')
    (ha : c.heap.Survives c.types target c.rootObjects a) {s : Space}
    (hs : Space.ofAddress? a = some s) :
    Space.ofAddress? (F a) = some (s.placeIn target (c.heap.header a)).space ∧
      (c'.heap.header (F a)).age = (s.placeIn target (c.heap.header a)).age := by
  have hcond : target.condemnsAddress a = target.condemns s := Compaction.condemnsAddress_eq hs
  rw [Space.placeIn]
  cases hin : target.condemns s with
  | true => exact hcol.placed hc hrun ha (hcond.trans hin) hs
  | false =>
    have hout := hcond.trans hin
    refine ⟨?_, hcol.age_of_not_condemned hc hrun ha hout⟩
    rw [hcol.fixed a ha.1 (Or.inl hout)]
    exact hs

theorem Collected.sizeClassAt (hcol : Collected target F dying c c')
    (hconfig : c'.config = c.config) (ha : c.heap.Survives c.types target c.rootObjects a) :
    c'.sizeClassAt (F a) = c.sizeClassAt a := by
  have hsize : (c'.heap.header (F a)).size = (c.heap.header a).size :=
    congrArg Header.Identity.size (hcol.moves.identity a ha)
  rw [Collector.sizeClassAt, Collector.sizeClassAt, hconfig, Header.payloadSize,
    Header.payloadSize, hsize]

end Collector

/-! ### What an object has lived through -/

/-- Whether an object was there before a collection and after it. -/
def Turnover.spares {κ : Type} (o : Nat) (e : Turnover κ) : Bool :=
  (e.before.place o).isSome && (e.after.place o).isSome

namespace Roster

open Relation (ReflTransGen)

variable {κ : Type} {config : Config} {types : TypeRegistry} {u v v' : Roster κ} {o : Nat}
  {a b : Address}

/-- The targets of the collections that an object has lived through, the first one first. -/
def lived (v : Roster κ) (o : Nat) : List Target :=
  ((v.turnovers.filter (·.spares o)).map (·.target)).reverse

theorem lived_of_turnovers {l : List (Turnover κ)} (h : v'.turnovers = l ++ v.turnovers)
    (o : Nat) :
    v'.lived o = v.lived o ++ ((l.filter (·.spares o)).map (·.target)).reverse := by
  rw [lived, h, List.filter_append, List.map_append, List.reverse_append]
  rfl

/-- Whoever is there after a collection has lived through it. -/
theorem Faithful.lived_collected (hv : v.Faithful) {target : Target} {reason : Reason}
    {report : Report} {w : Chronicle κ}
    (hrun : Chronicle.collectFor target reason v.chronicle = .ok report w)
    (hb : w.place o = some b) :
    (v.collected target report w).lived o = v.lived o ++ [target] := by
  obtain ⟨-, -, F, dying, -, hplace⟩ := hv.chronicle.of_collectFor_ok hrun
  obtain ⟨a, ha, -⟩ := (hplace o b).1 hb
  have hspares : (Turnover.mk target report v.watched v.chronicle w).spares o = true := by
    rw [Turnover.spares, ha, hb]
    rfl
  rw [lived_of_turnovers (l := [⟨target, report, v.watched, v.chronicle, w⟩]) rfl,
    List.filter_singleton, hspares]
  rfl

/-- Every object is where the collections that it has lived through tell. -/
structure Aged (v : Roster κ) : Prop where
  /-- The collections are over before the next object is born. -/
  known : ∀ e ∈ v.turnovers, e.before.places.length ≤ v.chronicle.places.length
  space : ∀ o a, v.place o = some a →
    Space.ofAddress? a = some ((v.collector.sizeClassAt a).spaceAfter (v.lived o))
  age : ∀ o a, v.place o = some a → Space.ofAddress? a = some (.arena .gen0) →
    (v.collector.heap.header a).age = (v.lived o).length

namespace Aged

theorem stays (h : v.Aged) (hv : v.Faithful) (hs : v.Stays v') : v'.Aged := by
  have hlived : v'.lived = v.lived := by
    funext o
    rw [lived, lived, hs.turnovers]
  refine ⟨?_, ?_, ?_⟩
  · rw [hs.turnovers, hs.places]
    exact h.known
  · intro o a ho
    rw [hs.place] at ho
    rw [hs.sizeClassAt (hv.chronicle.mem ho), hlived]
    exact h.space o a ho
  · intro o a ho hyoung
    rw [hs.place] at ho
    rw [(hs.header a (hv.chronicle.mem ho)).2, hlived]
    exact h.age o a ho hyoung

section Collected

variable {target : Target} {reason : Reason} {report : Report} {w : Chronicle κ}

/-- Where an object is after a collection, and how old. -/
theorem place_collected (h : v.Aged) (hv : v.Faithful)
    (hrun : Chronicle.collectFor target reason v.chronicle = .ok report w)
    (hb : w.place o = some b) :
    Space.ofAddress? b = some ((w.collector.sizeClassAt b).spaceAfter (v.lived o ++ [target])) ∧
      ((w.collector.sizeClassAt b).spaceAfter (v.lived o ++ [target]) = .arena .gen0 →
        (w.collector.heap.header b).age = (v.lived o ++ [target]).length) := by
  obtain ⟨hcollect, -, F, dying, hcol, hplace⟩ := hv.chronicle.of_collectFor_ok hrun
  obtain ⟨a, ha, hsurvives, rfl⟩ := (hplace o b).1 hb
  have hspace := h.space o a ha
  obtain ⟨hmoved, hage⟩ := hcol.placedIn hv.steady.toSound hcollect hsurvives hspace
  obtain ⟨hnext, hnext'⟩ := (v.collector.sizeClassAt a).placeIn_spaceAfter
    (fun hyoung => h.age o a ha (hspace.trans (congrArg some hyoung))) target
  rw [hcol.sizeClassAt (Collector.config_of_ok hcollect) hsurvives, hmoved, hage]
  exact ⟨congrArg some hnext, hnext'⟩

theorem collected (h : v.Aged) (hv : v.Faithful)
    (hrun : Chronicle.collectFor target reason v.chronicle = .ok report w) :
    (v.collected target report w).Aged := by
  refine ⟨?_, ?_, ?_⟩
  · intro e he
    refine Nat.le_trans ?_ (Nat.le_of_eq (hv.chronicle.of_collectFor_ok hrun).2.1.symm)
    rcases List.mem_cons.1 he with rfl | he
    · exact Nat.le_refl _
    · exact h.known e he
  · intro o b hb
    rw [hv.lived_collected hrun hb]
    exact (h.place_collected hv hrun hb).1
  · intro o b hb hyoung
    obtain ⟨hspace, hage⟩ := h.place_collected hv hrun hb
    rw [hv.lived_collected hrun hb]
    exact hage (Option.some.inj (hspace.symm.trans hyoung))

end Collected

/-- No collection has met an object that is yet to be born. -/
theorem lived_length (h : v.Aged) : v.lived v.chronicle.places.length = [] := by
  rw [lived, List.filter_eq_nil_iff.2, List.map_nil, List.reverse_nil]
  intro e he
  have hnone : e.before.place v.chronicle.places.length = none := by
    rw [Chronicle.place, List.getElem?_eq_none (h.known e he), Option.join_none]
  simp [Turnover.spares, hnone]

theorem born (h : v.Aged) (hv : v.Faithful) {r : Request} {hasFinalizer : Bool} {heap : Heap}
    {statistics : Statistics} (hr : r.Prepared v.collector.types)
    (hclass : r.sizeClass = v.collector.config.sizeClassOf r.payload)
    (hadd : Heap.Adds a r.header v.collector.heap heap) :
    (v.born a hasFinalizer heap statistics).Aged := by
  have hplace : ∀ p, (v.born a hasFinalizer heap statistics).place p =
      if p = v.chronicle.places.length then some a else v.place p :=
    Chronicle.place_born v.chronicle _ a hasFinalizer
  have hold : ∀ b ∈ v.collector.heap.objects,
      (v.born a hasFinalizer heap statistics).collector.heap.header b =
        v.collector.heap.header b := fun b hb =>
    hadd.header hv.steady.toSound.heap.wellFormed hb
  have hself : (v.born a hasFinalizer heap statistics).collector.heap.header a = r.header :=
    hadd.header_new
  -- an object is the new one or an old one
  refine ⟨?_, ?_, ?_⟩
  · intro e he
    show _ ≤ (v.chronicle.places ++ [some a]).length
    rw [List.length_append]
    exact Nat.le_succ_of_le (h.known e he)
  · intro p b hp
    rw [hplace] at hp
    split at hp
    · rename_i hlen
      obtain rfl := Option.some.inj hp
      show _ = some (SizeClass.spaceAfter (v.lived p) (v.collector.config.sizeClassOf
        (Header.payloadSize ((v.born a hasFinalizer heap statistics).collector.heap.header a))))
      rw [hself, Request.payloadSize_header hr, ← hclass, hlen, h.lived_length, hadd.space,
        Request.space_header]
    · have hb := hv.chronicle.mem hp
      show _ = some (SizeClass.spaceAfter (v.lived p) (v.collector.config.sizeClassOf
        (Header.payloadSize ((v.born a hasFinalizer heap statistics).collector.heap.header b))))
      rw [hold b hb]
      exact h.space p b hp
  · intro p b hp hyoung
    rw [hplace] at hp
    split at hp
    · rename_i hlen
      obtain rfl := Option.some.inj hp
      show _ = (v.lived p).length
      rw [hself, hlen, h.lived_length, Request.age_header]
      rfl
    · rw [hold b (hv.chronicle.mem hp)]
      exact h.age p b hp hyoung

end Aged

theorem lasting_aged : Lasting (Aged (κ := κ)) where
  stays _ _ hv hs h := h.stays hv hs
  collected _ _ _ _ _ hv hrun h := h.collected hv hrun
  born _ _ _ _ _ _ hv hr hclass hadd h := h.born hv hr hclass hadd

/-! ### Later on -/

/-- What becomes of the objects of a roster in the course of a run. -/
structure Ripens (v v' : Roster κ) : Prop where
  config : v'.collector.config = v.collector.config
  turnovers : ∃ l, v'.turnovers = l ++ v.turnovers
  length_le : v.chronicle.places.length ≤ v'.chronicle.places.length
  sizeClass : ∀ o a b, v.place o = some a → v'.place o = some b →
    v'.collector.sizeClassAt b = v.collector.sizeClassAt a
  /-- Large objects stay where they are. -/
  fixed : ∀ o a b, v.place o = some a → v'.place o = some b → Space.ofAddress? a = some .large →
    b = a

theorem Ripens.refl (v : Roster κ) : v.Ripens v where
  config := rfl
  turnovers := ⟨[], rfl⟩
  length_le := Nat.le_refl _
  sizeClass o a b ha hb := by rw [Option.some.inj (ha.symm.trans hb)]
  fixed o a b ha hb _ := Option.some.inj (hb.symm.trans ha)

theorem lasting_ripens (u : Roster κ) : Lasting (Ripens u) where
  stays v v' hv hs h := by
    refine ⟨hs.config.trans h.config, ?_, ?_, ?_, ?_⟩
    · rw [hs.turnovers]
      exact h.turnovers
    · rw [hs.places]
      exact h.length_le
    · intro o a b ha hb
      rw [hs.place] at hb
      rw [hs.sizeClassAt (hv.chronicle.mem hb)]
      exact h.sizeClass o a b ha hb
    · intro o a b ha hb
      rw [hs.place] at hb
      exact h.fixed o a b ha hb
  collected v target reason report w hv hrun h := by
    obtain ⟨hcollect, hlength, F, dying, hcol, hplace⟩ := hv.chronicle.of_collectFor_ok hrun
    have hconfig := Collector.config_of_ok hcollect
    obtain ⟨l, hl⟩ := h.turnovers
    refine ⟨hconfig.trans h.config, ⟨_ :: l, congrArg (_ :: ·) hl⟩, ?_, ?_, ?_⟩
    · exact Nat.le_trans h.length_le (Nat.le_of_eq hlength.symm)
    · intro o a b ha hb
      obtain ⟨x, hx, hsurvives, rfl⟩ := (hplace o b).1 hb
      exact (hcol.sizeClassAt hconfig hsurvives).trans (h.sizeClass o a x ha hx)
    · intro o a b ha hb hlarge
      obtain ⟨x, hx, hsurvives, rfl⟩ := (hplace o b).1 hb
      obtain rfl := h.fixed o a x ha hx hlarge
      exact hcol.fixed x hsurvives.1 (Or.inr hlarge)
  born v r a hasFinalizer heap statistics hv hr hclass hadd h := by
    have hw := hv.steady.toSound.heap.wellFormed
    -- a new object has a new number
    have hplace : ∀ o x, u.place o = some x →
        (v.born a hasFinalizer heap statistics).place o = v.place o := by
      intro o x hx
      have hlt := Nat.lt_of_lt_of_le (Chronicle.lt_of_place hx) h.length_le
      exact (Chronicle.place_born v.chronicle _ a hasFinalizer o).trans (if_neg (Nat.ne_of_lt hlt))
    refine ⟨h.config, h.turnovers, ?_, ?_, ?_⟩
    · show _ ≤ (v.chronicle.places ++ [some a]).length
      rw [List.length_append]
      exact Nat.le_succ_of_le h.length_le
    · intro o x b hx hb
      rw [hplace o x hx] at hb
      have hsame : (v.born a hasFinalizer heap statistics).collector.heap.header b =
          v.collector.heap.header b := hadd.header hw (hv.chronicle.mem hb)
      rw [← h.sizeClass o x b hx hb, Collector.sizeClassAt, hsame]
      rfl
    · intro o x b hx hb
      rw [hplace o x hx] at hb
      exact h.fixed o x b hx hb

/-- The collections of the list are those that have succeeded. -/
theorem lasting_listed : Lasting fun v : Roster κ => ∀ e ∈ v.turnovers, ∃ reason,
    Collector.collectFor e.target reason e.before.collector = .ok e.report e.after.collector where
  stays v v' _ hs h := hs.turnovers ▸ h
  collected v target reason report w hv hrun h := by
    intro e he
    rcases List.mem_cons.1 he with rfl | he
    · exact ⟨reason, (hv.chronicle.of_collectFor_ok hrun).1⟩
    · exact h e he
  born _ _ _ _ _ _ _ _ _ _ h := h

/-! ### Runs -/

namespace Recorded

/-- What lasts holds all along a run if it does so at the start. -/
theorem lasts {P : Roster κ → Prop} (hP : Lasting P)
    (hstart : ∀ build, ∀ c : Collector κ TypeRegistry,
      Collector.create config types build = .ok c → P { chronicle := { collector := c } })
    (h : Recorded config types v) : P v := by
  induction h with
  | start build hcreate => exact hstart build _ hcreate
  | step hprev hs ih => exact hP.of_step hprev.faithful hs ih

theorem aged (h : Recorded config types v) : v.Aged := by
  refine h.lasts lasting_aged fun _ c _ => ?_
  exact ⟨fun _ he => absurd he List.not_mem_nil,
    fun _ _ ho => absurd ho (by simp [place, Chronicle.place]),
    fun _ _ ho => absurd ho (by simp [place, Chronicle.place])⟩

theorem ripens (h : Recorded config types v) (hs : ReflTransGen Step v v') :
    Recorded config types v' ∧ v.Ripens v' := by
  induction hs with
  | refl => exact ⟨h, .refl v⟩
  | tail _ hstep ih =>
    obtain ⟨hrec, hripens⟩ := ih
    exact ⟨hrec.step hstep, (lasting_ripens v).of_step hrec.faithful hstep hripens⟩

/-- Address and tag are those of the space that the collections tell. -/
theorem placed (h : Recorded config types v) {a : Address} (ho : v.place o = some a) :
    Space.ofAddress? a = some ((v.collector.sizeClassAt a).spaceAfter (v.lived o)) ∧
      (v.collector.heap.header a).space =
        (v.collector.sizeClassAt a).spaceAfter (v.lived o) := by
  have hsound := h.faithful.steady.toSound.heap
  have hspace := h.aged.space o a ho
  exact ⟨hspace, hsound.tagged.space_eq hsound.wellFormed (h.faithful.chronicle.mem ho) hspace⟩

/-- The generation of an object is told by the targets of the collections that it has lived
through, those that allocations have started among them. A small object leaves the nursery with
the second one and generation 1 with the first one after that which collects more than the
nursery; a large object stays where it is until it is reclaimed. The address and the tag in the
header agree on that. Collections that fail do not count, and no run brings an object back to a
younger space. -/
theorem generation_of_lived (h : Recorded config types v) :
    (∀ o a, v.place o = some a →
      (v.collector.sizeClassAt a = .small →
        Space.ofAddress? a = some (.arena (.afterLiving (v.lived o))) ∧
          (v.collector.heap.header a).space = .arena (.afterLiving (v.lived o))) ∧
      (v.collector.sizeClassAt a = .large →
        Space.ofAddress? a = some .large ∧ (v.collector.heap.header a).space = .large)) ∧
    (∀ v', ReflTransGen Step v v' → ∀ o a, v.place o = some a →
      (v.collector.sizeClassAt a = .large → v'.place o = some a ∨ v'.place o = none) ∧
      ∀ b, v'.place o = some b → v'.collector.sizeClassAt b = v.collector.sizeClassAt a ∧
        (v.collector.heap.header a).space.rank ≤ (v'.collector.heap.header b).space.rank) ∧
    (∀ e ∈ v.turnovers, ∃ reason,
      Collector.collectFor e.target reason e.before.collector = .ok e.report e.after.collector) ∧
    ∀ target reason,
      (∀ report c, Collector.collectFor target reason v.collector = .ok report c →
        ∀ o, ((after (.collect target reason) v).place o).isSome = true →
          (after (.collect target reason) v).lived o = v.lived o ++ [target]) ∧
      ∀ e c, Collector.collectFor target reason v.collector = .error e c →
        (after (.collect target reason) v).place = v.place ∧
          (after (.collect target reason) v).lived = v.lived := by
  refine ⟨?_, ?_, h.lasts lasting_listed fun _ c _ e he => absurd he List.not_mem_nil, ?_⟩
  · intro o a ho
    obtain ⟨hspace, htag⟩ := h.placed ho
    constructor
    · intro hsmall
      rw [hsmall] at hspace htag
      exact ⟨hspace, htag⟩
    · intro hlarge
      rw [hlarge] at hspace htag
      exact ⟨hspace, htag⟩
  · intro v' hsteps o a ho
    obtain ⟨h', hripens⟩ := h.ripens hsteps
    obtain ⟨hspace, htag⟩ := h.placed ho
    constructor
    · intro hlarge
      cases hb : v'.place o with
      | none => exact Or.inr rfl
      | some b =>
        rw [hlarge] at hspace
        rw [hripens.fixed o a b ho hb hspace]
        exact Or.inl rfl
    · -- what an object has lived through only grows
      intro b hb
      have hclass := hripens.sizeClass o a b ho hb
      obtain ⟨l, hl⟩ := hripens.turnovers
      rw [htag, (h'.placed hb).2, hclass, lived_of_turnovers hl]
      exact ⟨rfl, SizeClass.rank_spaceAfter_append _ _ _⟩
  · intro target reason
    have hafter : after (.collect target reason) v = (Roster.collectFor target reason).final v :=
      rfl
    rw [hafter, Action.final, Roster.collectFor]
    cases hrun : Chronicle.collectFor target reason v.chronicle with
    | ok report w =>
      have hcollect := (h.faithful.chronicle.of_collectFor_ok hrun).1
      refine ⟨fun _ _ _ o hsome => ?_, fun e c herror => ?_⟩
      · obtain ⟨b, hb⟩ := Option.isSome_iff_exists.1 hsome
        exact h.faithful.lived_collected hrun hb
      · exact absurd (herror.symm.trans hcollect) (by simp)
    | error e w =>
      obtain ⟨c, hcollect, rfl⟩ := Chronicle.of_collectFor_error hrun
      refine ⟨fun report c hok => ?_, fun _ _ _ => ⟨rfl, rfl⟩⟩
      exact absurd (hok.symm.trans hcollect) (by simp)

end Recorded

/-- A small and a large object with root handles in the course of five collections, one of which
fails for a provider. -/
def grown : Roster Unit :=
  [.allocate ⟨0⟩ 16 false, .addRoot Collector.young, .allocate ⟨0⟩ 256 false,
    .addRoot Collector.old, .collect .gen0 .explicit, .collect .full .explicit,
    .addProvider #[some 8], .collect .gen1 .explicit, .removeProvider 1, .collect .gen0 .explicit,
    .collect .gen1 .explicit].foldl (fun v k => after k v)
    { chronicle :=
        { collector :=
            { config := { largeObjectThreshold := 128 }
              heap := .empty (256 * 1024) (256 * 1024 * 1024)
              log := { config := Collector.logConfig { largeObjectThreshold := 128 } }
              host := ⟨#[.array "row"]⟩ } } }

theorem recorded_grown :
    Recorded { largeObjectThreshold := 128 } ⟨#[.array "row"]⟩ grown :=
  (Recorded.start .checked rfl).calls _

/-- The small object has come to generation 2, and the large one is where it was made. -/
theorem generation_of_grown :
    grown.lived 0 = [.gen0, .full, .gen0, .gen1] ∧
    (∃ a, grown.place 0 = some a ∧ Space.ofAddress? a = some (.arena .gen2) ∧
      (grown.collector.heap.header a).space = .arena .gen2) ∧
    grown.place 1 = some Collector.old ∧
    (grown.collector.heap.header Collector.old).space = .large := by
  obtain ⟨hlived, ha, hclass, hplace, hlarge⟩ :
      grown.lived 0 = [.gen0, .full, .gen0, .gen1] ∧
      grown.place 0 = some ((Space.arena .gen2).address 0) ∧
      grown.collector.sizeClassAt ((Space.arena .gen2).address 0) = .small ∧
      grown.place 1 = some Collector.old ∧
      grown.collector.sizeClassAt Collector.old = .large := by decide +kernel
  obtain ⟨hspaces, -⟩ := Recorded.generation_of_lived recorded_grown
  have hgen : Generation.afterLiving (grown.lived 0) = .gen2 := by
    rw [hlived]
    decide
  obtain ⟨hspace, htag⟩ := (hspaces 0 _ ha).1 hclass
  rw [hgen] at hspace htag
  exact ⟨hlived, ⟨_, ha, hspace, htag⟩, hplace, ((hspaces 1 _ hplace).2 hlarge).2⟩

end Roster

end GenerationalHeap
