/-
What a change of one object leaves alone.

Objects never overlap, so bytes that are put into the block of one of them are not seen
by any other.

* `Heap.patch` — bytes put into a block, as every setter does; `Heap.byte_patch`,
  `Heap.sameLayout_patch`.
* `Heap.SamePayloads`, `Heap.Relabels` — a change of headers alone;
  `Heap.relabels_setHeader`, `Heap.foldl_headers`, `Heap.relabels_foldl`.
* `Heap.Stores` — a change within one payload; `Heap.stores_patch`.
-/
import GenerationalHeap.Proofs.Objects

namespace GenerationalHeap

namespace Heap

variable {h : Heap} {a b : Address}

/-! ### Putting bytes into a block -/

/-- Puts bytes into the block at an address, from place `k` of the block on. -/
def patch (h : Heap) (a : Address) (k : Nat) (bytes : ByteArray) : Heap :=
  h.writeAt a fun start m => m.overwrite (start + k) bytes

theorem setHeader_eq_patch (h : Heap) (a : Address) (new : Header) :
    h.setHeader a new = h.patch a 0 new.bytes := rfl

theorem setWord_eq_patch (h : Heap) (a : Address) (offset : Nat) (w : UInt64) :
    h.setWord a offset w =
      h.patch a (headerSize + offset) (Word.pushWord (.emptyWithCapacity 8) w) := by
  simp only [setWord, patch, Memory.setWord, Nat.add_assoc]

theorem setPayload_eq_patch (h : Heap) (a : Address) (offset : Nat) (bytes : ByteArray) :
    h.setPayload a offset bytes = h.patch a (headerSize + offset) bytes := by
  simp only [setPayload, patch, Nat.add_assoc]

theorem memory_mapMemory (h : Heap) (s t : Space) (f : Memory → Memory) :
    (h.mapMemory s f).memory t = if t = s then f (h.memory t) else h.memory t := by
  rcases s with g | _ <;> rcases t with k | _
  · show ((h.arenas.modify g (Arena.mapMemory f)).get k).memory = _
    rw [PerGeneration.get_modify]
    by_cases hk : k = g
    · rw [if_pos hk, if_pos (congrArg _ hk)]
      rfl
    · rw [if_neg hk, if_neg (fun hc => hk (Space.arena.inj hc))]
      rfl
  · rfl
  · rfl
  · rfl

theorem arena_mapArena (h : Heap) (g k : Generation) (f : Arena → Arena) :
    (h.mapArena g f).arena k = if k = g then f (h.arena k) else h.arena k :=
  PerGeneration.get_modify _ _ _ _

/-- All but the bytes of a heap is kept when bytes of a space change. -/
theorem mapMemory_eq (h : Heap) (s : Space) (f : Memory → Memory) :
    (∀ g, ((h.mapMemory s f).arena g).space = (h.arena g).space ∧
      ((h.mapMemory s f).arena g).top = (h.arena g).top ∧
      ((h.mapMemory s f).arena g).starts = (h.arena g).starts) ∧
    (h.mapMemory s f).large.live = h.large.live ∧
    (h.mapMemory s f).large.free = h.large.free ∧
    (h.mapMemory s f).large.top = h.large.top ∧
    (h.mapMemory s f).large.used = h.large.used ∧
    (h.mapMemory s f).maxSize = h.maxSize := by
  cases s with
  | large => exact ⟨fun g => ⟨rfl, rfl, rfl⟩, rfl, rfl, rfl, rfl, rfl⟩
  | arena g =>
    refine ⟨?_, rfl, rfl, rfl, rfl, rfl⟩
    intro k
    simp only [mapMemory, arena_mapArena]
    split <;> exact ⟨rfl, rfl, rfl⟩

theorem patch_eq_mapMemory {s : Space} (hs : Space.ofAddress? a = some s) (k : Nat)
    (bytes : ByteArray) :
    h.patch a k bytes = h.mapMemory s fun m => m.overwrite (s.offset a + k) bytes := by
  rw [patch, writeAt, hs]

theorem memory_patch {s : Space} (hs : Space.ofAddress? a = some s) (k : Nat) (bytes : ByteArray)
    (t : Space) :
    (h.patch a k bytes).memory t =
      if t = s then (h.memory t).overwrite (s.offset a + k) bytes else h.memory t := by
  rw [patch_eq_mapMemory hs, memory_mapMemory]

theorem size_memory_patch {s : Space} (hs : Space.ofAddress? a = some s) (k : Nat)
    (bytes : ByteArray) (t : Space) :
    ((h.patch a k bytes).memory t).size = (h.memory t).size := by
  rw [memory_patch hs]
  split
  · exact Memory.size_overwrite _ _ _
  · rfl

section Patch

variable {k : Nat} {bytes : ByteArray}

/-- Bytes that are put into the block of an object are seen there and nowhere else. -/
theorem byte_patch (hw : h.WellFormed) (ha : a ∈ h.objects)
    (hk : k + bytes.size ≤ (h.header a).blockSize) (hb : b ∈ h.objects) {i : Nat}
    (hi : i < (h.header b).blockSize) :
    (h.patch a k bytes).byte b i =
      if b = a ∧ k ≤ i ∧ i < k + bytes.size then Page.byte bytes (i - k) else h.byte b i := by
  obtain ⟨s, hs, hx⟩ := hw.mem_objects_iff.1 ha
  obtain ⟨t, ht, hy⟩ := hw.mem_objects_iff.1 hb
  have hfit := hw.fits hx
  rw [sizeAt_offset hs] at hfit
  rw [byte_eq ht, byte_eq ht, memory_patch hs]
  -- in another space nothing is written
  by_cases hst : t = s
  · subst hst
    rw [if_pos rfl, Memory.byte_overwrite (by omega)]
    by_cases hba : b = a
    · subst hba
      by_cases hin : k ≤ i ∧ i < k + bytes.size
      · rw [if_pos (by omega), if_pos ⟨rfl, hin⟩]
        congr 1
        omega
      · rw [if_neg (by omega), if_neg fun hc => hin hc.2]
    · -- the two blocks are apart, so the byte lies outside of the bytes that are put
      have hapart := hw.apart hx hy
      rw [sizeAt_offset hs, sizeAt_offset ht] at hapart
      have hne : t.offset a ≠ t.offset b := fun heq => hba <| by
        rw [← Space.address_offset hs, ← Space.address_offset ht, heq]
      rw [if_neg (by omega), if_neg fun hc => hba hc.1]
  · rw [if_neg hst, if_neg]
    rintro ⟨rfl, -⟩
    exact hst (Option.some.inj (ht.symm.trans hs))

/-- All but the bytes of a heap is kept when bytes are put into a block. -/
theorem patch_eq {s : Space} (hs : Space.ofAddress? a = some s) (k : Nat) (bytes : ByteArray) :
    (∀ g, ((h.patch a k bytes).arena g).space = (h.arena g).space ∧
      ((h.patch a k bytes).arena g).top = (h.arena g).top ∧
      ((h.patch a k bytes).arena g).starts = (h.arena g).starts) ∧
    (h.patch a k bytes).large.live = h.large.live ∧
    (h.patch a k bytes).large.free = h.large.free ∧
    (h.patch a k bytes).large.top = h.large.top ∧
    (h.patch a k bytes).large.used = h.large.used ∧
    (h.patch a k bytes).maxSize = h.maxSize := by
  rw [patch_eq_mapMemory hs]
  exact mapMemory_eq h s fun m => m.overwrite (s.offset a + k) bytes

/-- The blocks stay where they are if the bytes that are put do not change the size in
the header. -/
theorem sameLayout_patch (hw : h.WellFormed) (ha : a ∈ h.objects)
    (hk : k + bytes.size ≤ (h.header a).blockSize)
    (hsize : ((h.patch a k bytes).header a).blockSize = (h.header a).blockSize) :
    h.SameLayout (h.patch a k bytes) := by
  obtain ⟨s, hs, hx⟩ := hw.mem_objects_iff.1 ha
  -- only bytes of one memory change: tops, start maps and large blocks are as before
  obtain ⟨harena, hlive, hfree, htop, hused, hmax⟩ := patch_eq hs k bytes
  have hcap : ∀ g, ((h.patch a k bytes).arena g).capacity = (h.arena g).capacity := fun g =>
    size_memory_patch hs k bytes (.arena g)
  refine
    { space := fun g => (harena g).1
      top := fun g => (harena g).2.1
      isSet := fun g x => by rw [(harena g).2.2]
      capacity := fun g => Nat.le_of_eq (hcap g).symm
      capacity_le := fun g => (hcap g).symm ▸ (hw.arena g).capacity_le
      covered := fun g => by
        rw [hcap g, (harena g).2.2]
        exact (hw.arena g).covered
      above := fun g i hi => ?_
      largeSize := size_memory_patch hs k bytes .large
      live := hlive
      free := hfree
      largeTop := htop
      used := hused
      maxSize := hmax
      sizeAt := fun t y hy => ?_ }
  · show ((h.patch a k bytes).memory (.arena g)).byte i = (h.memory (.arena g)).byte i
    rw [memory_patch hs]
    split
    · -- the block ends at or below the top of its arena
      rename_i hg
      subst hg
      have hle := (hw.arena g).add_sizeAt_le hx
      have hfit := hw.fits hx
      rw [sizeAt_offset hs] at hfit
      have hle' : (Space.arena g).offset a + (h.header a).blockSize ≤ (h.arena g).top := by
        rw [← sizeAt_offset hs]
        exact hle
      rw [Memory.byte_overwrite (by omega), if_neg (by omega)]
    · rfl
  · have hlt := hw.lt_spaceLimit hy
    have hyt : Space.ofAddress? (t.address y) = some t := Space.ofAddress?_address hlt
    have hobj : t.address y ∈ h.objects := address_mem_objects hy
    have hoff : t.offset (t.address y) = y := Space.offset_address hlt
    rw [← hoff, sizeAt_offset hyt, sizeAt_offset hyt]
    -- the header of any other object is not touched
    by_cases hya : t.address y = a
    · rw [hya]
      exact hsize
    · refine congrArg Header.blockSize (header_congr hyt hyt ?_)
      intro i hi
      rw [byte_patch hw ha hk hobj (Nat.lt_of_lt_of_le hi (Header.headerSize_le _)),
        if_neg fun hc => hya hc.1]

end Patch

/-! ### Changes of headers -/

/-- Two heaps with the same blocks and the same payloads. -/
structure SamePayloads (h h' : Heap) : Prop where
  layout : h.SameLayout h'
  byte : ∀ a ∈ h.objects, ∀ i, headerSize ≤ i → i < (h.header a).blockSize →
    h'.byte a i = h.byte a i

/-- The heap `h'` is `h` with the header of every object changed by `F`. -/
structure Relabels (F : Address → Header → Header) (h h' : Heap) : Prop
    extends SamePayloads h h' where
  header : ∀ a ∈ h.objects, h'.header a = F a (h.header a)

theorem SameLayout.blockSize {h' : Heap} (hl : h.SameLayout h') (hw : h.WellFormed)
    (ha : a ∈ h.objects) : (h'.header a).blockSize = (h.header a).blockSize := by
  obtain ⟨s, hs, hx⟩ := hw.mem_objects_iff.1 ha
  rw [← sizeAt_offset hs, ← sizeAt_offset hs]
  exact hl.sizeAt s _ hx

namespace SamePayloads

variable {h h' h'' : Heap}

theorem refl (hw : h.WellFormed) : h.SamePayloads h where
  layout := .refl hw
  byte _ _ _ _ _ := rfl

theorem trans (hp : h.SamePayloads h') (hp' : h'.SamePayloads h'') (hw : h.WellFormed) :
    h.SamePayloads h'' where
  layout := hp.layout.trans hp'.layout hw
  byte a ha i hlo hhi := by
    rw [hp'.byte a (hp.layout.objects hw ▸ ha) i hlo (by rwa [hp.layout.blockSize hw ha]),
      hp.byte a ha i hlo hhi]

/-- A change of headers is not seen in the payloads. -/
theorem word (hp : h.SamePayloads h') (ha : a ∈ h.objects) {offset : Nat}
    (ho : offset + 8 ≤ (h.header a).payloadSize) : h'.word a offset = h.word a offset := by
  refine word_congr ?_
  intro k hk
  exact hp.byte a ha _ (by omega) (Header.payload_lt ho hk)

end SamePayloads

namespace Relabels

variable {F G : Address → Header → Header} {h h' h'' : Heap}

theorem refl (hw : h.WellFormed) : Relabels (fun _ x => x) h h where
  toSamePayloads := .refl hw
  header _ _ := rfl

theorem trans (hr : Relabels F h h') (hr' : Relabels G h' h'') (hw : h.WellFormed) :
    Relabels (fun a x => G a (F a x)) h h'' where
  toSamePayloads := hr.toSamePayloads.trans hr'.toSamePayloads hw
  header a ha := by
    rw [hr'.header a (hr.layout.objects hw ▸ ha), hr.header a ha]

theorem congr (hr : Relabels F h h')
    (hFG : ∀ a ∈ h.objects, F a (h.header a) = G a (h.header a)) : Relabels G h h' where
  toSamePayloads := hr.toSamePayloads
  header a ha := (hr.header a ha).trans (hFG a ha)

end Relabels

/-- Bytes of another object, or of the payload, belong to no header. -/
theorem header_patch_outside (hw : h.WellFormed) (ha : a ∈ h.objects) {k : Nat}
    {bytes : ByteArray} (hk : k + bytes.size ≤ (h.header a).blockSize) {b : Address}
    (hb : b ∈ h.objects) (hapart : b ≠ a ∨ headerSize ≤ k) :
    (h.patch a k bytes).header b = h.header b := by
  obtain ⟨t, ht, -⟩ := hw.mem_objects_iff.1 hb
  refine header_congr ht ht ?_
  intro i hi
  rw [byte_patch hw ha hk hb (Nat.lt_of_lt_of_le hi (Header.headerSize_le _)), if_neg]
  rintro ⟨hba, hlo, -⟩
  rcases hapart with hne | hle
  · exact hne hba
  · exact absurd hi (Nat.not_lt.2 (Nat.le_trans hle hlo))

theorem header_setHeader (hw : h.WellFormed) (ha : a ∈ h.objects) (new : Header) :
    (h.setHeader a new).header a = new := by
  obtain ⟨s, hs, hx⟩ := hw.mem_objects_iff.1 ha
  have hfit := hw.fits hx
  have hle : headerSize ≤ h.sizeAt s (s.offset a) := Header.headerSize_le _
  rw [header_eq hs, setHeader_eq_patch, memory_patch hs, if_pos rfl, Nat.add_zero]
  exact Header.load_store new (by omega)

/-- A new header of the same size changes that header and nothing else. -/
theorem relabels_setHeader (hw : h.WellFormed) (ha : a ∈ h.objects) {new : Header}
    (hsize : new.size = (h.header a).size) :
    Relabels (fun b old => if b = a then new else old) h (h.setHeader a new) := by
  have hself := header_setHeader hw ha new
  have hk : 0 + new.bytes.size ≤ (h.header a).blockSize := by
    rw [Header.size_bytes, Header.blockSize]
    omega
  rw [setHeader_eq_patch] at hself ⊢
  refine ⟨⟨sameLayout_patch hw ha hk ?_, ?_⟩, ?_⟩
  · rw [hself, Header.blockSize, hsize, Header.blockSize]
  · intro b hb i hlo hhi
    rw [byte_patch hw ha hk hb hhi, Header.size_bytes, if_neg (by omega)]
  · intro b hb
    by_cases hba : b = a
    · rw [if_pos hba, hba, hself]
    · rw [if_neg hba]
      exact header_patch_outside hw ha hk hb (Or.inl hba)

/-- The headers of some objects changed one after the other. -/
theorem foldl_headers {ι : Type} {addr : ι → Address} {F : ι → Header → Header}
    {step : Heap → ι → Heap} {items : List ι} (hw : h.WellFormed) (hn : (items.map addr).Nodup)
    (hstep : ∀ i ∈ items, ∀ h', h.SameLayout h' →
      Relabels (fun b x => if b = addr i then F i x else x) h' (step h' i))
    (hmem : ∀ i ∈ items, addr i ∈ h.objects) :
    h.SamePayloads (items.foldl step h) ∧
      (∀ i ∈ items, (items.foldl step h).header (addr i) = F i (h.header (addr i))) ∧
      ∀ a ∈ h.objects, a ∉ items.map addr → (items.foldl step h).header a = h.header a := by
  -- the first step leaves the blocks alone, so the rest starts in a heap like the first one
  induction items generalizing h with
  | nil => exact ⟨.refl hw, fun i hi => absurd hi List.not_mem_nil, fun _ _ _ => rfl⟩
  | cons i rest ih =>
    obtain ⟨hnot, hn⟩ := List.nodup_cons.1 hn
    have hfirst := hstep i List.mem_cons_self h (.refl hw)
    have hobjects := hfirst.layout.objects hw
    obtain ⟨hpay, hall, hothers⟩ := ih (hfirst.layout.wellFormed hw) hn
      (fun j hj h' hl => hstep j (List.mem_cons_of_mem _ hj) h' (hfirst.layout.trans hl hw))
      fun j hj => hobjects ▸ hmem j (List.mem_cons_of_mem _ hj)
    refine ⟨hfirst.toSamePayloads.trans hpay hw, ?_, ?_⟩
    · intro j hj
      have hj' := hmem j hj
      rcases List.mem_cons.1 hj with rfl | hj
      · rw [List.foldl_cons, hothers _ (hobjects ▸ hj') hnot, hfirst.header _ hj', if_pos rfl]
      · have hne : addr j ≠ addr i := fun heq => hnot (heq ▸ List.mem_map_of_mem hj)
        rw [List.foldl_cons, hall j hj, hfirst.header _ hj', if_neg hne]
    · intro a ha hout
      rw [List.map_cons, List.mem_cons, not_or] at hout
      rw [List.foldl_cons, hothers a (hobjects ▸ ha) hout.2, hfirst.header a ha, if_neg hout.1]

/-- The headers of some objects changed one after the other, by one function. -/
theorem relabels_foldl {F : Address → Header → Header} {step : Heap → Address → Heap}
    {objects : List Address} (hw : h.WellFormed) (hn : objects.Nodup)
    (hstep : ∀ a ∈ objects, ∀ h', h.SameLayout h' →
      Relabels (fun b x => if b = a then F a x else x) h' (step h' a))
    (hmem : ∀ a ∈ objects, a ∈ h.objects) :
    Relabels (fun a x => if a ∈ objects then F a x else x) h (objects.foldl step h) := by
  have hmap : objects.map id = objects := List.map_id _
  have hn' : (objects.map id).Nodup := hmap.symm ▸ hn
  obtain ⟨hpay, hall, hothers⟩ := foldl_headers hw hn' hstep hmem
  refine ⟨hpay, ?_⟩
  intro a ha
  by_cases hin : a ∈ objects
  · rw [if_pos hin]
    exact hall a hin
  · rw [if_neg hin]
    exact hothers a ha (hmap.symm ▸ hin)

/-! ### Changes of payloads -/

/-- The heap `h'` is `h` with bytes put into the payload of an object, from place `k` of
its block on. -/
structure Stores (a : Address) (k : Nat) (bytes : ByteArray) (h h' : Heap) : Prop where
  layout : h.SameLayout h'
  header : ∀ b ∈ h.objects, h'.header b = h.header b
  byte : ∀ b ∈ h.objects, ∀ i < (h.header b).blockSize,
    h'.byte b i =
      if b = a ∧ k ≤ i ∧ i < k + bytes.size then Page.byte bytes (i - k) else h.byte b i

theorem stores_patch (hw : h.WellFormed) (ha : a ∈ h.objects) {k : Nat} {bytes : ByteArray}
    (hlo : headerSize ≤ k) (hk : k + bytes.size ≤ (h.header a).blockSize) :
    Stores a k bytes h (h.patch a k bytes) := by
  have hheader : ∀ b ∈ h.objects, (h.patch a k bytes).header b = h.header b := fun b hb =>
    header_patch_outside hw ha hk hb (Or.inr hlo)
  refine ⟨sameLayout_patch hw ha hk ?_, hheader, fun b hb i hi => byte_patch hw ha hk hb hi⟩
  rw [hheader a ha]

end Heap

end GenerationalHeap
