/-
Sums of sizes that do not fit a word.

Sizes and offsets are words of 64 bits. Where a sum of them is not tested beforehand, what comes of
one that does not fit depends on the build: a checked build panics, so that the call has no answer,
and a wrapping build goes on with the low 64 bits.

* `Build` — the two kinds of builds.
* `Build.add`, `Build.sub` — sums and differences of words.
* `roundedUp`, `Build.roundUp` — a multiple of a unit, and what a build makes of it.
* `Build.add_of_lt`, `Build.roundUp_of_lt` — a sum that fits is the same in every build.
-/
import GenerationalHeap.Error

namespace GenerationalHeap

/-- What a program was built to do with a sum of words that is none. -/
inductive Build where
  /-- It panics. -/
  | checked
  /-- It drops what is above the 64 bits. -/
  | wrapping
  deriving DecidableEq, Inhabited

/-- The least multiple of a unit that is not below a size. -/
def roundedUp (unit size : Nat) : Nat := (size + (unit - 1)) / unit * unit

theorem dvd_roundedUp (unit size : Nat) : unit ∣ roundedUp unit size := Nat.dvd_mul_left _ _

theorem le_roundedUp {unit : Nat} (hunit : 0 < unit) (size : Nat) :
    size ≤ roundedUp unit size := by
  have hrest := Nat.mod_lt (size + (unit - 1)) hunit
  have hsum := Nat.div_add_mod' (size + (unit - 1)) unit
  rw [roundedUp]
  omega

namespace Build

variable {b : Build} {m n unit size : Nat}

/-- The build cuts no bits off a sum: it panics instead, or else the sum is a word. -/
def Exact (b : Build) (sum : Nat) : Prop := b = .checked ∨ sum < UInt64.size

/-- What a build makes of a result that is no word. -/
def overflow (b : Build) (low : Nat) : Except Error Nat :=
  match b with
  | .checked => .error .panicked
  | .wrapping => .ok low

/-- The sum of two words. -/
def add (b : Build) (m n : Nat) : Except Error Nat :=
  if m + n < UInt64.size then .ok (m + n) else b.overflow ((m + n) % UInt64.size)

/-- The difference of two words. -/
def sub (b : Build) (m n : Nat) : Except Error Nat :=
  if n ≤ m then .ok (m - n) else b.overflow (m + UInt64.size - n)

-- Irreducible, since a reduction would count a unit of thousands of bytes one by one.
/-- A word rounded up to a multiple of a power of two: the power is added, one is taken off
again, and the low bits are cleared. -/
@[irreducible] def roundUp (b : Build) (unit size : Nat) : Except Error Nat := do
  let above ← b.add size unit
  let last ← b.sub above 1
  return last / unit * unit

theorem add_of_lt (h : m + n < UInt64.size) : b.add m n = .ok (m + n) := if_pos h

theorem add_of_le (h : UInt64.size ≤ m + n) : b.add m n = b.overflow ((m + n) % UInt64.size) :=
  if_neg (Nat.not_lt.2 h)

theorem roundUp_of_lt (hunit : 0 < unit) (h : size + unit < UInt64.size) :
    b.roundUp unit size = .ok (roundedUp unit size) := by
  have hpos : 1 ≤ size + unit := by omega
  simp only [roundUp, add_of_lt h, sub, if_pos hpos, bind, Except.bind, pure, Except.pure,
    roundedUp, Nat.add_sub_assoc hunit]

/-- What does not fit with the unit added to it is not rounded by a checked build. -/
theorem checked_roundUp_of_le (h : UInt64.size ≤ size + unit) :
    checked.roundUp unit size = .error .panicked := by
  simp only [roundUp, add_of_le h, overflow, bind, Except.bind]

/-- Whatever the build makes of it, the rounded size is a multiple of the unit. -/
theorem dvd_of_roundUp (h : b.roundUp unit size = .ok n) : unit ∣ n := by
  cases habove : b.add size unit with
  | error e => simp [roundUp, habove, bind, Except.bind] at h
  | ok above =>
    cases hlast : b.sub above 1 with
    | error e => simp [roundUp, habove, hlast, bind, Except.bind] at h
    | ok last =>
      simp only [roundUp, habove, hlast, bind, Except.bind, pure, Except.pure] at h
      exact Except.ok.inj h ▸ Nat.dvd_mul_left unit _

end Build

end GenerationalHeap
