/-
Which objects a collection keeps.

* `Heap.Held` — what the roots and the objects of the spaces that are left alone lead
  to.
* `Heap.Dying` — what is not held but still needs finalization.
* `Heap.Survives` — what is kept.
* `Heap.markLive_spec` — the first pass marks the held objects of the collected spaces;
  the remembered holders stand for all objects of the others.
* `Heap.candidates_eq`, `Heap.resurrect_spec` — the second pass marks what the dying
  objects lead to.
* `Heap.clearMarks_spec` — a pass that fails can be undone.
-/
import GenerationalHeap.Proofs.Tracing

namespace GenerationalHeap

namespace Heap

section Defs

variable (h : Heap) (types : TypeSystem) (target : Target) (roots : List Address)

/-- An object that a root, or an object of a space that is left alone, leads to. -/
def Held (a : Address) : Prop :=
  ∃ r, (r ∈ roots ∨ r ∈ h.objects ∧ target.condemnsAddress r = false) ∧ h.Reaches types r a

/-- An object of a collected space that is not held but needs finalization. -/
def Dying (a : Address) : Prop :=
  a ∈ h.objects ∧ target.condemnsAddress a = true ∧ ¬h.Held types target roots a ∧
    (h.header a).needsFinalization = true

/-- An object that is held, or that a dying object leads to. -/
def Kept (a : Address) : Prop :=
  h.Held types target roots a ∨ ∃ d, h.Dying types target roots d ∧ h.Reaches types d a

/-- An object that is there after a collection. -/
def Survives (a : Address) : Prop :=
  a ∈ h.objects ∧ (target.condemnsAddress a = false ∨ h.Kept types target roots a)

/-- The remembered holders: objects of the spaces that are left alone, among them all that
hold a reference into a collected space. -/
structure Remembers (holders : List Address) : Prop where
  mem : ∀ a ∈ holders, a ∈ h.objects ∧ target.condemnsAddress a = false
  complete : ∀ a ∈ h.objects, target.condemnsAddress a = false → ∀ b, h.PointsTo types a b →
    target.condemnsAddress b = true → a ∈ holders

end Defs

variable {h h' : Heap} {types : TypeSystem} {target : Target} {roots holders : List Address}
  {a b : Address}

theorem Held.pointsTo (ha : h.Held types target roots a) (hab : h.PointsTo types a b) :
    h.Held types target roots b := by
  obtain ⟨r, hr, hreach⟩ := ha
  exact ⟨r, hr, hreach.tail hab⟩

theorem Kept.pointsTo (ha : h.Kept types target roots a) (hab : h.PointsTo types a b) :
    h.Kept types target roots b := by
  rcases ha with hheld | ⟨d, hd, hreach⟩
  · exact Or.inl (hheld.pointsTo hab)
  · exact Or.inr ⟨d, hd, hreach.tail hab⟩

/-- A chain of references that starts at an object stays among objects. -/
theorem NoDangling.reaches (hd : h.NoDangling types) (ha : a ∈ h.objects)
    (hab : h.Reaches types a b) : b ∈ h.objects := by
  induction hab with
  | refl => exact ha
  | tail _ hbc ih => exact hd _ ih _ hbc

/-- An object that survives refers to objects that survive. -/
theorem Survives.pointsTo (hd : h.NoDangling types) (ha : h.Survives types target roots a)
    (hab : h.PointsTo types a b) : h.Survives types target roots b := by
  refine ⟨hd a ha.1 b hab, Or.inr ?_⟩
  rcases ha.2 with hout | hkept
  · exact Or.inl ⟨a, Or.inr ⟨ha.1, hout⟩, .single hab⟩
  · exact hkept.pointsTo hab

/-- A collection of all spaces keeps what a root, or an object that needs finalization, leads
to. -/
theorem survives_full_iff (hw : h.WellFormed) (hd : h.NoDangling types)
    (hroots : ∀ r ∈ roots, r ∈ h.objects) :
    h.Survives types .full roots a ↔
      ∃ r, (r ∈ roots ∨ h.Dying types .full roots r) ∧ h.Reaches types r a := by
  have hall : ∀ b ∈ h.objects, Target.full.condemnsAddress b = true := by
    intro b hb
    obtain ⟨s, hs, -⟩ := hw.mem_objects_iff.1 hb
    rw [Target.condemnsAddress, hs]
    exact decide_eq_true (Nat.le_of_lt_succ (Header.rank_lt s))
  constructor
  · rintro ⟨ha, hout | ⟨r, hr | hr, hreach⟩ | ⟨d, hdying, hreach⟩⟩
    · rw [hall a ha] at hout
      exact absurd hout (by simp)
    · exact ⟨r, Or.inl hr, hreach⟩
    · rw [hall r hr.1] at hr
      exact absurd hr.2 (by simp)
    · exact ⟨d, Or.inr hdying, hreach⟩
  · rintro ⟨r, hr | hr, hreach⟩
    · exact ⟨hd.reaches (hroots r hr) hreach, Or.inr (Or.inl ⟨r, Or.inl hr, hreach⟩)⟩
    · exact ⟨hd.reaches hr.1 hreach, Or.inr (Or.inr ⟨r, hr, hreach⟩)⟩

/-! ### The first pass -/

/-- All objects of the spaces that are left alone. -/
def older (h : Heap) (target : Target) : List Address :=
  h.objects.filter fun a => !target.condemnsAddress a

theorem mem_older : a ∈ h.older target ↔ a ∈ h.objects ∧ target.condemnsAddress a = false := by
  rw [older, List.mem_filter, Bool.not_eq_true']

theorem remembers_older (h : Heap) (types : TypeSystem) (target : Target) :
    h.Remembers types target (h.older target) where
  mem _ ha := mem_older.1 ha
  complete _ ha hout _ _ _ := mem_older.2 ⟨ha, hout⟩

/-- Objects of the collected spaces that are marked and lead to marked ones alone, with
all roots and all that the remembered holders refer to among them, are all that is held. -/
theorem marked_of_held (hd : h.NoDangling types) (hrem : h.Remembers types target holders)
    {M : Address → Prop} (hroots : ∀ a ∈ roots, a ∈ h.objects ∧
      (target.condemnsAddress a = true → M a))
    (hholders : ∀ a ∈ holders, ∀ b, h.PointsTo types a b → target.condemnsAddress b = true → M b)
    (hclosed : ∀ a ∈ h.objects, M a → ∀ b, h.PointsTo types a b →
      target.condemnsAddress b = true → M b)
    (ha : h.Held types target roots a) (hc : target.condemnsAddress a = true) : M a := by
  obtain ⟨r, hr, hreach⟩ := ha
  have hobj : r ∈ h.objects := by
    rcases hr with hr | hr
    · exact (hroots r hr).1
    · exact hr.1
  -- along the chain, an object is marked or lies in a space that is left alone
  have hchain : target.condemnsAddress a = true → M a := by
    induction hreach with
    | refl =>
      intro hc
      rcases hr with hr | hr
      · exact (hroots r hr).2 hc
      · exact absurd hc (by rw [hr.2]; exact Bool.false_ne_true)
    | @tail b c hrb hbc ih =>
      intro hc
      have hb := hd.reaches hobj hrb
      by_cases hcb : target.condemnsAddress b = true
      · exact hclosed b hb (ih hcb hcb) c hbc hc
      · have hout : target.condemnsAddress b = false := by simpa using hcb
        exact hholders b (hrem.complete b hb hout c hbc hc) c hbc hc
  exact hchain hc

variable (hh : h.Traceable types)
include hh

/-- The first pass fails only if a root is no object. Otherwise it marks exactly the held
objects of the collected spaces. -/
theorem markLive_spec (hclean : h.Clean) (hrem : h.Remembers types target holders) :
    (∃ e h', markLive types target roots holders h = .error e h' ∧ h.OnlyMarks h' ∧
      (∀ a ∈ h.objects, (h'.header a).isMarked = true → target.condemnsAddress a = true) ∧
      ∃ r ∈ roots, r ∉ h.objects) ∨
    (∃ stats h', markLive types target roots holders h = .ok stats h' ∧ h.OnlyMarks h' ∧
      (∀ r ∈ roots, r ∈ h.objects) ∧
      ∀ a ∈ h.objects, (h'.header a).isMarked = true ↔
        target.condemnsAddress a = true ∧ h.Held types target roots a) := by
  have hP : ∀ a b, h.Held types target roots a → h.PointsTo types a b →
      h.Held types target roots b := fun a b ha hab => ha.pointsTo hab
  have hv : ({ heap := h } : Trace).Valid h target (h.Held types target roots) :=
    .start hh.wellFormed hclean
  have hc : ({ heap := h } : Trace).Closed h types target := fun a ha hm =>
    absurd hm (Trace.not_marked_of_clean hclean ha)
  have hroots : ∀ r ∈ roots, h.Held types target roots r := fun r hr => ⟨r, Or.inl hr, .refl⟩
  have hheld : ∀ a ∈ holders, h.Held types target roots a := fun a ha =>
    ⟨a, Or.inr (hrem.mem a ha), .refl⟩
  rcases Trace.markRoots_spec hh hroots hv hc with
    ⟨e, t', herr, hv', hbad⟩ | ⟨t₁, hok, hv₁, hc₁, -, hall⟩
  · refine Or.inl ⟨e, t'.heap, ?_, hv'.marks, fun a ha hm => (hv'.sound a ha hm).1, hbad⟩
    rw [markLive]
    refine Action.bind_of_error ?_ _
    rw [Trace.run, Action.bind_of_error herr]
  · -- the roots are marked, then what the holders refer to, and the rest is drained
    obtain ⟨t₂, hscan, hv₂, he₂, hscanned⟩ :=
      Trace.scanHolders_spec hh hP (fun a ha => (hrem.mem a ha).1) hheld hv₁
    obtain ⟨t₃, hdrain, hv₃, hc₃, hdone, hmono⟩ :=
      Trace.drain_spec hh hP hv₂ (he₂.closed hh.noDangling hc₁)
    refine Or.inr ⟨t₃.stats, t₃.heap, ?_, hv₃.marks, fun r hr => (hall r hr).1, ?_⟩
    · rw [markLive]
      refine Action.bind_of_ok (a := ((), t₃.stats)) ?_ _
      rw [Trace.run, Action.bind_of_ok hok, Action.bind_of_ok hscan, hdrain]
    · intro a ha
      refine ⟨fun hm => hv₃.sound a ha hm, ?_⟩
      intro hboth
      obtain ⟨hcond, hheld⟩ := hboth
      -- the marks are closed under references: nothing waits in the worklist any more
      refine marked_of_held hh.noDangling hrem (M := t₃.Marked) ?_ ?_ ?_ hheld hcond
      · intro r hr
        have hr' := (hall r hr).1
        exact ⟨hr', fun hcr => hmono r hr' (he₂.marked r hr' ((hall r hr).2 hcr))⟩
      · intro a ha b hab hcb
        exact hmono b (hh.noDangling a (hrem.mem a ha).1 b hab) (hscanned a ha b hab hcb)
      · intro a ha hm b hab hcb
        rcases hc₃ a ha hm with hq | hs
        · exact absurd (hdone ▸ hq) List.not_mem_nil
        · exact hs b hab hcb

/-! ### The second pass -/

omit hh in
theorem flatMap_filter {α β : Type} (l : List α) (p : α → Bool) (f : α → List β) :
    (l.filter p).flatMap f = l.flatMap fun x => if p x then f x else [] := by
  induction l with
  | nil => rfl
  | cons x rest ih =>
    rw [List.filter_cons, List.flatMap_cons, ← ih]
    by_cases hp : p x = true
    · rw [if_pos hp, if_pos hp, List.flatMap_cons]
    · rw [if_neg hp, if_neg hp, List.nil_append]

/-- The candidates are listed by ascending address. -/
theorem candidates_eq (hm : h.OnlyMarks h') :
    Trace.candidates target h' = h.objects.filter fun a =>
      target.condemnsAddress a &&
        (!(h'.header a).isMarked && (h.header a).needsFinalization) := by
  -- space by space, the marks leave the flags about finalization as they were
  have hspace : ∀ s, (if target.condemns s then
      (h'.objectsIn s).filter fun a =>
        !(h'.header a).isMarked && (h'.header a).needsFinalization else []) =
      (h.objectsIn s).filter fun a => target.condemnsAddress a &&
        (!(h'.header a).isMarked && (h.header a).needsFinalization) := by
    intro s
    have hmem : ∀ a ∈ h.objectsIn s, target.condemnsAddress a = target.condemns s := by
      intro a ha
      rw [Target.condemnsAddress, (hh.wellFormed.mem_objectsIn_iff.1 ha).1]
    rw [hm.layout.objectsIn hh.wellFormed]
    by_cases hs : target.condemns s = true
    · rw [if_pos hs]
      refine List.filter_congr ?_
      intro a ha
      have hid := hm.identity (List.mem_flatMap.2 ⟨s, s.mem_all, ha⟩ : a ∈ h.objects)
      have hf : (h'.header a).hasFinalizer = (h.header a).hasFinalizer :=
        congrArg Header.Identity.hasFinalizer hid
      have hd : (h'.header a).isFinalized = (h.header a).isFinalized :=
        congrArg Header.Identity.isFinalized hid
      rw [hmem a ha, hs, Bool.true_and, Header.needsFinalization, Header.needsFinalization, hf, hd]
    · rw [if_neg hs, eq_comm, List.filter_eq_nil_iff]
      intro a ha hc
      rw [hmem a ha] at hc
      simp [hs] at hc
  rw [Trace.candidates, objects, List.filter_flatMap, flatMap_filter]
  exact congrArg (fun f => Space.all.flatMap f) (funext hspace)

/-- The candidates are the dying objects. -/
theorem mem_candidates_iff (hm : h.OnlyMarks h') (hmarked : ∀ a ∈ h.objects,
    (h'.header a).isMarked = true ↔
      target.condemnsAddress a = true ∧ h.Held types target roots a) :
    a ∈ Trace.candidates target h' ↔ h.Dying types target roots a := by
  rw [candidates_eq hh hm, List.mem_filter, Dying]
  refine and_congr_right ?_
  intro ha
  simp only [Bool.and_eq_true, Bool.not_eq_true']
  refine and_congr_right fun hc => and_congr_left ?_
  intro _
  rw [← Bool.not_eq_true, hmarked a ha]
  exact not_congr ⟨fun hcm => hcm.2, fun hheld => ⟨hc, hheld⟩⟩

omit hh in
theorem markAll_spec (hw : h.WellFormed) {P : Address → Prop} {l : List Address} {t : Trace}
    (hl : ∀ a ∈ l, a ∈ h.objects ∧ P a) (hv : t.Valid h target P) :
    (l.foldl (fun t a => t.mark target a) t).Valid h target P ∧
      t.Extends h (l.foldl (fun t a => t.mark target a) t) ∧
      ∀ a ∈ l, target.condemnsAddress a = true →
        (l.foldl (fun t a => t.mark target a) t).Marked a := by
  induction l generalizing t with
  | nil => exact ⟨hv, .refl t, fun a ha => absurd ha List.not_mem_nil⟩
  | cons a rest ih =>
    obtain ⟨ha, hPa⟩ := hl a List.mem_cons_self
    obtain ⟨hv₁, he₁, hm₁⟩ := Trace.mark_spec hw hv ha fun _ => hPa
    obtain ⟨hv₂, he₂, hm₂⟩ := ih (fun b hb => hl b (List.mem_cons_of_mem _ hb)) hv₁
    refine ⟨hv₂, he₁.trans he₂, ?_⟩
    intro b hb hc
    rcases List.mem_cons.1 hb with rfl | hb
    · exact he₂.marked b ha (hm₁ hc)
    · exact hm₂ b hb hc

/-- The second pass does not fail. It marks what the dying objects lead to. -/
theorem resurrect_spec (hm : h.OnlyMarks h')
    (hmarked : ∀ a ∈ h.objects, (h'.header a).isMarked = true ↔
      target.condemnsAddress a = true ∧ h.Held types target roots a) :
    ∃ stats h'', resurrect types target (Trace.candidates target h') h' = .ok stats h'' ∧
      h.OnlyMarks h'' ∧ ∀ a ∈ h.objects, (h''.header a).isMarked = true ↔
        target.condemnsAddress a = true ∧ h.Kept types target roots a := by
  have hP : ∀ a b, h.Kept types target roots a → h.PointsTo types a b →
      h.Kept types target roots b := fun a b ha hab => ha.pointsTo hab
  have hdying : ∀ a ∈ Trace.candidates target h', h.Dying types target roots a := fun a ha =>
    (mem_candidates_iff hh hm hmarked).1 ha
  have hv : ({ heap := h', resurrecting := true } : Trace).Valid h target
      (h.Kept types target roots) :=
    { marks := hm
      worklist := fun a ha => absurd ha List.not_mem_nil
      sound := fun a ha hma => ⟨((hmarked a ha).1 hma).1, Or.inl ((hmarked a ha).1 hma).2⟩ }
  have hc : ({ heap := h', resurrecting := true } : Trace).Closed h types target :=
    fun a ha hma => Or.inr fun b hab hcb =>
      (hmarked b (hh.noDangling a ha b hab)).2 ⟨hcb, ((hmarked a ha).1 hma).2.pointsTo hab⟩
  obtain ⟨hv₁, he₁, hm₁⟩ := markAll_spec hh.wellFormed
    (fun a ha => ⟨(hdying a ha).1, Or.inr ⟨a, hdying a ha, .refl⟩⟩) hv
  obtain ⟨t, hdrain, hv₂, hc₂, hdone, hmono⟩ :=
    Trace.drain_spec hh hP hv₁ (he₁.closed hh.noDangling hc)
  refine ⟨t.stats, t.heap, ?_, hv₂.marks, fun a ha => ⟨hv₂.sound a ha, ?_⟩⟩
  · rw [resurrect]
    refine Action.bind_of_ok (a := ((), t.stats)) ?_ _
    rw [Trace.run, Trace.resurrect]
    simp only [hdrain]
  · intro hboth
    have hold : ∀ b ∈ h.objects, (h'.header b).isMarked = true → t.Marked b := fun b hb hmb =>
      hmono b hb (he₁.marked b hb hmb)
    have hclosed : ∀ b ∈ h.objects, t.Marked b → Trace.Scanned h types target b t := by
      intro b hb hmb
      rcases hc₂ b hb hmb with hq | hs
      · exact absurd (hdone ▸ hq) List.not_mem_nil
      · exact hs
    obtain ⟨hcond, hkept⟩ := hboth
    rcases hkept with hheld | ⟨d, hd, hreach⟩
    · exact hold a ha ((hmarked a ha).2 ⟨hcond, hheld⟩)
    · -- along the chain, an object is marked or lies in a space that is left alone; what
      -- such an object refers to is held, and so was marked by the first pass
      have hcand := (mem_candidates_iff hh hm hmarked).2 hd
      have hchain : target.condemnsAddress a = true → t.Marked a := by
        clear ha hcond
        induction hreach with
        | refl => exact fun hcd => hmono _ hd.1 (hm₁ _ hcand hcd)
        | @tail b c hdb hbc ih =>
          intro hcc
          have hb := hh.noDangling.reaches hd.1 hdb
          have hc' := hh.noDangling b hb c hbc
          by_cases hcb : target.condemnsAddress b = true
          · exact hclosed b hb (ih hcb) c hbc hcc
          · have hout : target.condemnsAddress b = false := by simpa using hcb
            exact hold c hc' ((hmarked c hc').2 ⟨hcc, b, Or.inr ⟨hb, hout⟩, .single hbc⟩)
      exact hchain hcond

/-! ### Taking marks back -/

/-- A header without mark and forwarding address. -/
def unmark (x : Header) : Header :=
  if x.isMarked || x.isForwarded then (x.setMarked false).clearForwarding else x

omit hh in
theorem relabels_clearMark (hw : h.WellFormed) (ha : a ∈ h.objects) :
    Relabels (fun b x => if b = a then unmark x else x) h (h.clearMark a) := by
  have hsize : ((h.header a).setMarked false).clearForwarding.size = (h.header a).size := by
    rw [Header.size_clearForwarding, Header.size_setMarked]
  unfold clearMark
  dsimp only
  by_cases hm : ((h.header a).isMarked || (h.header a).isForwarded) = true
  · rw [if_pos hm]
    refine (relabels_setHeader hw ha hsize).congr ?_
    intro b _
    by_cases hba : b = a
    · rw [if_pos hba, if_pos hba, hba, unmark, if_pos hm]
    · rw [if_neg hba, if_neg hba]
  · rw [if_neg hm]
    refine (Relabels.refl hw).congr ?_
    intro b _
    by_cases hba : b = a
    · rw [if_pos hba, hba, unmark, if_neg hm]
    · rw [if_neg hba]

omit hh in
theorem sameLayout_clearMarks (hw : h.WellFormed) (hl : h.SameLayout h') {l : List Address}
    (hsub : ∀ a ∈ l, a ∈ h.objects) : h.SameLayout (l.foldl clearMark h') := by
  induction l generalizing h' with
  | nil => exact hl
  | cons a rest ih =>
    have ha : a ∈ h'.objects := hl.objects hw ▸ hsub a List.mem_cons_self
    have hstep := relabels_clearMark (hl.wellFormed hw) ha
    exact ih (hl.trans hstep.layout hw) fun b hb => hsub b (List.mem_cons_of_mem _ hb)

omit hh in
/-- The objects of a space are listed after those of younger ones were changed, but no
block has moved since. -/
theorem clearMarks_eq (hw : h.WellFormed) (hl : h.SameLayout h') (spaces : List Space) :
    spaces.foldl (fun h s => (h.objectsIn s).foldl clearMark h) h' =
      (spaces.flatMap h.objectsIn).foldl clearMark h' := by
  induction spaces generalizing h' with
  | nil => rfl
  | cons s rest ih =>
    have hfirst := sameLayout_clearMarks hw hl (l := h.objectsIn s) fun a ha =>
      List.mem_flatMap.2 ⟨s, s.mem_all, ha⟩
    rw [List.foldl_cons, List.flatMap_cons, List.foldl_append, hl.objectsIn hw, ih hfirst]

omit hh in
/-- Marks of objects of the collected spaces can be taken back. -/
theorem clearMarks_spec (hw : h.WellFormed) (hclean : h.Clean) (hm : h.OnlyMarks h')
    (hcond : ∀ a ∈ h.objects, (h'.header a).isMarked = true → target.condemnsAddress a = true) :
    Relabels (fun _ x => x) h (h'.clearMarks target) := by
  have hw' := hm.layout.wellFormed hw
  have hsub : ((Space.all.filter target.condemns).flatMap h.objectsIn).Sublist h.objects :=
    List.Sublist.flatMap List.filter_sublist _
  have hmem : ∀ a ∈ h.objects, target.condemnsAddress a = true →
      a ∈ (Space.all.filter target.condemns).flatMap h.objectsIn := by
    intro a ha hc
    obtain ⟨s, hs, hx⟩ := hw.mem_objects_iff.1 ha
    rw [Target.condemnsAddress, hs] at hc
    exact List.mem_flatMap.2 ⟨s, List.mem_filter.2 ⟨s.mem_all, hc⟩,
      hw.mem_objectsIn_iff.2 ⟨hs, hx⟩⟩
  -- the folded steps touch different objects, so each header changes once
  have hfold : Relabels
      (fun a x =>
        if a ∈ (Space.all.filter target.condemns).flatMap h.objectsIn then unmark x else x)
      h' (((Space.all.filter target.condemns).flatMap h.objectsIn).foldl clearMark h') :=
    relabels_foldl (F := fun _ => unmark) hw' (hsub.nodup hw.objects_nodup)
    (fun a ha h'' hl => relabels_clearMark (hl.wellFormed hw')
      (by rw [hl.objects hw', hm.layout.objects hw]; exact hsub.subset ha))
    (fun a ha => by rw [hm.layout.objects hw]; exact hsub.subset ha)
  rw [clearMarks, clearMarks_eq hw hm.layout]
  refine (hm.trans hfold hw).congr ?_
  intro a ha
  have hx := hclean.isMarked a ha
  have hf := hclean.isForwarded a ha
  by_cases hma : (h'.header a).isMarked = true
  · rw [if_pos (hmem a ha (hcond a ha hma)), hma]
    have hmarked : ((h.header a).markIf true).isMarked = true := Header.isMarked_markIf hx true
    rw [unmark, hmarked, Bool.true_or, if_pos rfl]
    exact Header.unmark_setMarked hx hf (hclean.forwarding a ha)
  · have hma' : (h'.header a).isMarked = false := by simpa using hma
    have hsame : unmark (h.header a) = h.header a := by
      rw [unmark, hx, hf]
      rfl
    rw [hma', show (h.header a).markIf false = h.header a from rfl, hsame, ite_self]

end Heap

end GenerationalHeap
