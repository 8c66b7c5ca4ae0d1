/-
Redirecting references to the new places.

* `Plan.place` — the place that a plan gives an address; `Plan.forwardObject_eq` — it is
  what a look into the headers tells while every object is still at its old place.
* `Heap.Redirects` — some slots are redirected, and nothing else changes.
* `Compaction.fixReferences_spec` — every slot of every holder is redirected once, since
  no holder is listed twice.
-/
import GenerationalHeap.Proofs.Forwarding
import GenerationalHeap.Proofs.References
import Mathlib.Data.List.Nodup

namespace GenerationalHeap

/-! ### New places -/

namespace Plan

/-- The place that a plan gives an address. -/
def place (p : Plan) (a : Address) : Address :=
  match p.transfers.find? fun t => t.old == a with
  | some t => t.new
  | none => a

variable {h h' h'' : Heap} {target : Target} {a : Address} {t : Transfer}

/-- Where a transfer ends: among what stays in its arena, or among what arrives there. -/
theorem transfer_dest (hw : h.WellFormed) (ht : t ∈ (ofHeap h target).transfers) :
    t.dest = t.source ∧ t.move ∈ ((ofHeap h target).spaces.get t.dest).stays ∨
      t.dest = t.source.older ∧ t.dest ≠ t.source ∧
        t.move ∈ (ofHeap h target).arrivals t.dest := by
  rcases (mem_transfers _).1 ht with ⟨hd, hm⟩ | ⟨hd, hm⟩
  · exact Or.inl ⟨hd, hd ▸ hm⟩
  · refine Or.inr ⟨hd, ?_⟩
    rw [hd]
    cases hs : t.source with
    | gen0 => exact ⟨by decide, by rw [hs] at hm; exact hm⟩
    | gen1 => exact ⟨by decide, by rw [hs] at hm; exact hm⟩
    | gen2 =>
      rw [hs, promotions_gen2 hw] at hm
      exact absurd hm List.not_mem_nil

theorem incomingStart_le_newTop (h : Heap) (target : Target) (g : Generation) :
    (ofHeap h target).incomingStart.get g ≤ (ofHeap h target).newTop.get g := by
  rw [newTop_get]
  exact Nat.le_add_right _ _

theorem transfer_dest_le (hw : h.WellFormed) (ht : t ∈ (ofHeap h target).transfers) :
    t.move.dest + t.move.size ≤ (ofHeap h target).newTop.get t.dest := by
  rcases transfer_dest hw ht with ⟨hd, hm⟩ | ⟨-, -, hm⟩
  · have hc := (transfer_source hw ht).1
    rw [← hd] at hc
    have hle := incomingStart_le_newTop h target t.dest
    have hin := (stays_stacked hc).bounds hm
    omega
  · exact ((arrivals_stacked h target t.dest).bounds hm).2

section Place

variable (hw : h.WellFormed) (hused : h.usedBytes ≤ spaceLimit)
include hw

theorem place_old (ht : t ∈ (ofHeap h target).transfers) :
    (ofHeap h target).place t.old = t.new := by
  rw [place]
  cases hfind : (ofHeap h target).transfers.find? fun u => u.old == t.old with
  | none =>
    have hno := List.find?_eq_none.1 hfind t ht
    exact absurd (beq_self_eq_true t.old) hno
  | some u =>
    have hu := List.mem_of_find?_eq_some hfind
    have hold : u.old = t.old := by simpa using List.find?_some hfind
    rw [List.inj_on_of_nodup_map (nodup_map_old hw) hu ht hold]

omit hw in
theorem place_of_not_mem (ha : a ∉ (ofHeap h target).transfers.map Transfer.old) :
    (ofHeap h target).place a = a := by
  rw [place]
  cases hfind : (ofHeap h target).transfers.find? fun u => u.old == a with
  | none => rfl
  | some u =>
    have hold : u.old = a := by simpa using List.find?_some hfind
    exact absurd (List.mem_map.2 ⟨u, List.mem_of_find?_eq_some hfind, hold⟩) ha

theorem place_zero : (ofHeap h target).place 0 = 0 :=
  place_of_not_mem fun hmem => hw.ne_zero ((mem_map_old_iff hw).1 hmem).1 rfl

include hused

theorem dest_lt (ht : t ∈ (ofHeap h target).transfers) : t.move.dest < spaceLimit := by
  have hle := transfer_dest_le hw ht
  have htop := newTop_le hw target t.dest
  have hpos : 0 < t.move.size := by
    rw [(transfer_source hw ht).2.2.2]
    exact Header.blockSize_pos _
  omega

theorem place_ne_zero (ha : a ∈ h.objects) : (ofHeap h target).place a ≠ 0 := by
  by_cases hmem : a ∈ (ofHeap h target).transfers.map Transfer.old
  · obtain ⟨t, ht, rfl⟩ := List.mem_map.1 hmem
    rw [place_old hw ht]
    exact Space.address_ne_zero (dest_lt hw hused ht)
  · rw [place_of_not_mem hmem]
    exact hw.ne_zero ha

variable (hf : ∀ a ∈ h.objects, (h.header a).isForwarded = false) (hp : Written h target h')
  (hsame : ∀ a ∈ h.objects, h''.header a = h'.header a)
include hf hp hsame

omit hused in
/-- The headers tell the new place of an object as long as they are at their old places. -/
theorem forward_eq (ha : a = 0 ∨ a ∈ h.objects) :
    (ofHeap h target).forward h'' a = (ofHeap h target).place a := by
  rcases ha with rfl | ha
  · rw [place_zero hw]
    rfl
  obtain ⟨s, hs, -⟩ := hw.mem_objects_iff.1 ha
  rw [forward, hs]
  -- what moves has its new place in its header, and no other header is marked as forwarded
  by_cases hmem : a ∈ (ofHeap h target).transfers.map Transfer.old
  · obtain ⟨t, ht, rfl⟩ := List.mem_map.1 hmem
    obtain rfl : s = .arena t.source := Option.some.inj (hs.symm.trans (ofAddress?_old hw ht))
    have hc : (ofHeap h target).target.condemns (.arena t.source) = true :=
      (transfer_source hw ht).1
    rw [place_old hw ht]
    simp only [hc, if_true]
    rw [hsame _ ha, hp.moving t ht, Header.isForwarded_forwarded, if_pos rfl]
    rfl
  · rw [place_of_not_mem hmem]
    cases s with
    | large => rfl
    | arena g =>
      have hno : (h''.header a).isForwarded = false := by
        rw [hsame a ha, hp.others a ha hmem, hf a ha]
      simp only [hno, Bool.false_eq_true, if_false, ite_self]

theorem forwardObject_eq (ha : a ∈ h.objects) :
    (ofHeap h target).forwardObject h'' a = (ofHeap h target).place a := by
  rw [forwardObject, forward_eq hw hf hp hsame (Or.inr ha)]
  exact if_neg (place_ne_zero hw hused ha)

end Place

end Plan

/-! ### Slots that are redirected -/

namespace Heap

/-- Redirects what a slot names. A slot whose content stays is not written at all. -/
def redirectSlot (F : Address → Address) (h : Heap) (slot : Address × Nat) : Heap :=
  let old := h.word slot.1 slot.2
  if old = 0 ∨ F old = old then h else h.setWord slot.1 slot.2 (F old)

/-- The reference slots of some objects. -/
def slotsOfEach (h : Heap) (types : TypeSystem) (l : List Address) : List (Address × Nat) :=
  l.flatMap fun a => (h.slots types a).map (a, ·)

/-- Some slots of the objects of `h` hold what `F` gives for their old contents; nothing
else has changed. -/
structure Redirects (types : TypeSystem) (F : Address → Address) (done : Address → Nat → Prop)
    (h h' : Heap) : Prop where
  layout : h.SameLayout h'
  header : ∀ a ∈ h.objects, h'.header a = h.header a
  word : ∀ a ∈ h.objects, ∀ o ∈ h.slots types a, done a o → h'.word a o = F (h.word a o)
  others : ∀ a ∈ h.objects, ∀ o ∈ h.slots types a, ¬done a o → h'.word a o = h.word a o
  plain : ∀ a ∈ h.objects, ∀ i, h.Plain types a i →
    h'.byte a (headerSize + i) = h.byte a (headerSize + i)

namespace Redirects

variable {types : TypeSystem} {F : Address → Address} {done done' : Address → Nat → Prop}
  {h h' h'' : Heap} {a : Address}

theorem refl (hw : h.WellFormed) : Redirects types F (fun _ _ => False) h h where
  layout := .refl hw
  header _ _ := rfl
  word _ _ _ _ hd := absurd hd id
  others _ _ _ _ _ := rfl
  plain _ _ _ _ := rfl

theorem slots (hr : Redirects types F done h h') (ha : a ∈ h.objects) :
    h'.slots types a = h.slots types a :=
  slots_congr (congrArg Header.identity (hr.header a ha))

theorem congr (hr : Redirects types F done h h')
    (hd : ∀ a, ∀ o ∈ h.slots types a, done' a o ↔ done a o) : Redirects types F done' h h' where
  layout := hr.layout
  header := hr.header
  word a ha o ho hdone := hr.word a ha o ho ((hd a o ho).1 hdone)
  others a ha o ho hdone := hr.others a ha o ho fun hc => hdone ((hd a o ho).2 hc)
  plain := hr.plain

/-- Slots that are redirected one after the other, none of them twice. -/
theorem trans (hr : Redirects types F done h h') (hr' : Redirects types F done' h' h'')
    (hw : h.WellFormed) (hapart : ∀ a o, done a o → ¬done' a o) :
    Redirects types F (fun a o => done a o ∨ done' a o) h h'' where
  layout := hr.layout.trans hr'.layout hw
  header a ha := by rw [hr'.header a (hr.layout.objects hw ▸ ha), hr.header a ha]
  word a ha o ho hd := by
    have ha' : a ∈ h'.objects := hr.layout.objects hw ▸ ha
    have ho' : o ∈ h'.slots types a := hr.slots ha ▸ ho
    -- a slot is done in the second run, and then it was left alone by the first, or before
    by_cases hd' : done' a o
    · have hno : ¬done a o := fun hc => hapart a o hc hd'
      rw [hr'.word a ha' o ho' hd', hr.others a ha o ho hno]
    · have hfirst : done a o := hd.resolve_right hd'
      rw [hr'.others a ha' o ho' hd', hr.word a ha o ho hfirst]
  others a ha o ho hd := by
    have ha' : a ∈ h'.objects := hr.layout.objects hw ▸ ha
    have ho' : o ∈ h'.slots types a := hr.slots ha ▸ ho
    rw [hr'.others a ha' o ho' fun hc => hd (Or.inr hc),
      hr.others a ha o ho fun hc => hd (Or.inl hc)]
  plain a ha i hi := by
    have hi' : h'.Plain types a i := hi.congr (congrArg Header.identity (hr.header a ha))
    rw [hr'.plain a (hr.layout.objects hw ▸ ha) i hi', hr.plain a ha i hi]

/-- A new word in a slot. -/
theorem setWord (hw : h.WellFormed) (ha : a ∈ h.objects) {o : Nat} (ho : o ∈ h.slots types a)
    {w : UInt64} (hF : w = F (h.word a o)) :
    Redirects types F (fun b p => b = a ∧ p = o) h (h.setWord a o w) := by
  have hs := stores_setWord hw ha (slot_fits ho) w
  refine ⟨hs.layout, hs.header, ?_, ?_, ?_⟩
  · rintro b hb p hp ⟨rfl, rfl⟩
    rw [word_setWord hw hb (slot_fits ho), hF]
  · intro b hb p hp hne
    refine hs.word_of_apart hb (slot_fits hp) ?_
    -- a slot of another object, or another slot of the same one
    by_cases hba : b = a
    · subst hba
      have hapart := Heap.slots_apart hp ho
      have hne' : p ≠ o := fun hpo => hne ⟨rfl, hpo⟩
      rw [size_wordBytes]
      right
      omega
    · exact Or.inl hba
  · intro b hb i hi
    rw [hs.byte b hb _ hi.lt_blockSize, if_neg]
    rintro ⟨rfl, hlo, hhi⟩
    -- the byte would lie in the slot that is written
    have hout := hi.outside o ho
    rw [size_wordBytes] at hhi
    unfold slotSize at hout
    omega

end Redirects

end Heap

/-! ### The references of holders -/

namespace Compaction

variable {h h' : Heap} {types : TypeSystem} {c : Compaction} {F : Address → Address}
  {holders : List Address} {a : Address}

/-- What `F` has to say of references: it is what the headers tell as long as they stay. -/
structure Follows (c : Compaction) (types : TypeSystem) (h : Heap) (F : Address → Address) :
    Prop where
  forward : ∀ h', (∀ a ∈ h.objects, h'.header a = h.header a) → ∀ w, w = 0 ∨ w ∈ h.objects →
    c.plan.forward h' w = F w
  zero : F 0 = 0

/-- A slot that was not yet redirected is redirected by `F`. -/
theorem fixSlot_eq (hd : h.NoDangling types) (hF : c.Follows types h F)
    (hheader : ∀ a ∈ h.objects, h'.header a = h.header a) (ha : a ∈ h.objects) {o : Nat}
    (ho : o ∈ h.slots types a) (hword : h'.word a o = h.word a o) :
    c.fixSlot a h' o = h'.redirectSlot F (a, o) := by
  have hforward : c.plan.forward h' (h'.word a o) = F (h'.word a o) := by
    rw [hword]
    exact hF.forward h' hheader _ (hd.slot ha ho)
  rw [fixSlot, hforward, Heap.redirectSlot]

/-- What a slot holds is redirected if it is not null. -/
theorem redirects_redirectSlot (hF : c.Follows types h F) (hw' : h'.WellFormed)
    (hobjects : h'.objects = h.objects) (hheader : ∀ a ∈ h.objects, h'.header a = h.header a)
    (ha : a ∈ h.objects) {o : Nat} (ho : o ∈ h.slots types a) :
    Heap.Redirects types F (fun b p => b = a ∧ p = o) h' (h'.redirectSlot F (a, o)) := by
  have ho' : o ∈ h'.slots types a :=
    Heap.slots_congr (congrArg Header.identity (hheader a ha)) ▸ ho
  rw [Heap.redirectSlot]
  by_cases hsame : h'.word a o = 0 ∨ F (h'.word a o) = h'.word a o
  · rw [if_pos hsame]
    refine ⟨.refl hw', fun _ _ => rfl, ?_, fun _ _ _ _ _ => rfl, fun _ _ _ _ => rfl⟩
    rintro b - p - ⟨rfl, rfl⟩
    rcases hsame with hz | hfix
    · rw [hz, hF.zero]
    · exact hfix.symm
  · rw [if_neg hsame]
    exact .setWord hw' (hobjects ▸ ha) ho' rfl

/-- The slots of one holder, redirected one after the other. -/
theorem redirects_fixSlots (hw : h.WellFormed) (hd : h.NoDangling types)
    (hF : c.Follows types h F) (ha : a ∈ h.objects) {done : Address → Nat → Prop}
    (hr : Heap.Redirects types F done h h') {slots : List Nat} (hn : slots.Nodup)
    (hsub : ∀ o ∈ slots, o ∈ h.slots types a) (hnew : ∀ o ∈ slots, ¬done a o) :
    Heap.Redirects types F (fun b p => done b p ∨ b = a ∧ p ∈ slots) h
      (slots.foldl (c.fixSlot a) h') ∧
    slots.foldl (c.fixSlot a) h' = (slots.map (a, ·)).foldl (Heap.redirectSlot F) h' := by
  -- `done` grows by one slot with each step, so the slots to come are not yet in it
  induction slots generalizing h' done with
  | nil =>
    refine ⟨hr.congr fun b p _ => ⟨?_, Or.inl⟩, rfl⟩
    intro hc
    rcases hc with hc | ⟨-, hc⟩
    · exact hc
    · exact absurd hc List.not_mem_nil
  | cons o rest ih =>
    obtain ⟨hnot, hn⟩ := List.nodup_cons.1 hn
    have ho := hsub o List.mem_cons_self
    have hslot := fixSlot_eq hd hF hr.header ha ho (hr.others a ha o ho (hnew o List.mem_cons_self))
    have hfirst := redirects_redirectSlot hF (hr.layout.wellFormed hw) (hr.layout.objects hw)
      hr.header ha ho
    rw [← hslot] at hfirst
    have hboth := hr.trans hfirst hw fun b p hdone hc => by
      obtain ⟨rfl, rfl⟩ := hc
      exact hnew p List.mem_cons_self hdone
    obtain ⟨hall, hrest⟩ := ih hboth hn (fun p hp => hsub p (List.mem_cons_of_mem _ hp))
      fun p hp hc => by
        rcases hc with hc | ⟨-, rfl⟩
        · exact hnew p (List.mem_cons_of_mem _ hp) hc
        · exact hnot hp
    refine ⟨hall.congr fun b p _ => ?_, ?_⟩
    · rw [List.mem_cons]
      tauto
    · rw [List.foldl_cons, hrest, hslot, List.map_cons, List.foldl_cons]

/-- The slots of some holders, none of them listed twice. -/
theorem redirects_fixHolders (hw : h.WellFormed) (ht : h.Typed types) (hd : h.NoDangling types)
    (hF : c.Follows types h F) {done : Address → Prop}
    (hr : Heap.Redirects types F (fun b _ => done b) h h') (hn : holders.Nodup)
    (hsub : ∀ a ∈ holders, a ∈ h.objects) (hnew : ∀ a ∈ holders, ¬done a) :
    ∃ h'', holders.forM (c.fixHolder types) h' = .ok () h'' ∧
      Heap.Redirects types F (fun b _ => done b ∨ b ∈ holders) h h'' ∧
      h'' = (h.slotsOfEach types holders).foldl (Heap.redirectSlot F) h' := by
  -- the types of all holders are known, so that none of the steps can fail
  induction holders generalizing h' done with
  | nil =>
    refine ⟨h', rfl, hr.congr fun b p _ => ⟨?_, Or.inl⟩, rfl⟩
    intro hc
    exact hc.resolve_right List.not_mem_nil
  | cons a rest ih =>
    obtain ⟨hnot, hn⟩ := List.nodup_cons.1 hn
    have ha := hsub a List.mem_cons_self
    have htype : (h'.header a).typeId = (h.header a).typeId :=
      congrArg Header.typeId (hr.header a ha)
    have hslots : h'.slotsOf types a = .ok (h.slots types a) := by
      rw [Heap.slotsOf_eq_ok (htype ▸ ht a ha), hr.slots ha]
    obtain ⟨hfirst, hslotsEach⟩ := redirects_fixSlots hw hd hF ha hr (h.slots_nodup types a)
      (fun _ ho => ho) fun _ _ => hnew a List.mem_cons_self
    have hstep : c.fixHolder types a h' = .ok () ((h.slots types a).foldl (c.fixSlot a) h') := by
      rw [fixHolder, hslots]
    have hnext : Heap.Redirects types F (fun b _ => done b ∨ b = a) h
        ((h.slots types a).foldl (c.fixSlot a) h') :=
      hfirst.congr fun b p hp => by
        constructor
        · rintro (hb | rfl)
          · exact Or.inl hb
          · exact Or.inr ⟨rfl, hp⟩
        · rintro (hb | ⟨rfl, -⟩)
          · exact Or.inl hb
          · exact Or.inr rfl
    have hlater : ∀ b ∈ rest, ¬(done b ∨ b = a) := by
      rintro b hb (hc | rfl)
      · exact hnew b (List.mem_cons_of_mem _ hb) hc
      · exact hnot hb
    obtain ⟨h'', hrest, hall, heach⟩ :=
      ih hnext hn (fun b hb => hsub b (List.mem_cons_of_mem _ hb)) hlater
    refine ⟨h'', ?_, hall.congr fun b p _ => by rw [List.mem_cons]; tauto, ?_⟩
    · show (c.fixHolder types a >>= fun _ => rest.forM (c.fixHolder types)) h' = _
      rw [Action.bind_of_ok hstep]
      exact hrest
    · rw [heach, hslotsEach, ← List.foldl_append]
      rfl

/-- Every slot of the survivors of the collected spaces and of the remembered holders is
redirected, and only those. -/
theorem fixReferences_spec (hw : h.WellFormed) (ht : h.Typed types) (hd : h.NoDangling types)
    (hF : c.Follows types h F) (hn : (c.holders ++ holders).Nodup)
    (hsub : ∀ a ∈ c.holders ++ holders, a ∈ h.objects) :
    ∃ h', c.fixReferences types holders h = .ok () h' ∧
      Heap.Redirects types F (fun a _ => a ∈ c.holders ++ holders) h h' ∧
      h' = (h.slotsOfEach types (c.holders ++ holders)).foldl (Heap.redirectSlot F) h := by
  have hstart : Heap.Redirects types F (fun _ _ => False) h h := .refl hw
  obtain ⟨h', hrun, hr, heach⟩ :=
    redirects_fixHolders hw ht hd hF hstart hn hsub fun _ _ hc => hc
  exact ⟨h', hrun, hr.congr fun a o _ => by rw [false_or], heach⟩

end Compaction

end GenerationalHeap
