/-
A histogram of 64-bit values in buckets that double in width.

Bucket `b` counts the values of bit length `b`, so a percentile is exact up to
a factor of two.

* `Histogram.record`, `Histogram.clear` — adds a value, forgets all.
* `Histogram.atRank` — an upper bound of the value of a given rank.
* `Histogram.percentile` — the same for a part of all values.
-/
import GenerationalHeap.Report

namespace GenerationalHeap

/-- A histogram of 64-bit values. -/
structure Histogram where
  /-- The number of values of each bit length, from 0 to 64. -/
  buckets : List Nat := List.replicate 65 0
  count : Nat := 0
  /-- The sum of the values, modulo `2 ^ 64`. -/
  sum : UInt64 := 0
  /-- The smallest value; the largest word as long as there is none. -/
  smallest : UInt64 := 0xffffffffffffffff
  largest : UInt64 := 0

namespace Histogram

/-- The number of bits that a value needs. -/
def bitLength (v : Nat) : Nat := if v = 0 then 0 else v.log2 + 1

/-- The largest value of a bit length. -/
def upperBound (bits : Nat) : Nat := 2 ^ bits - 1

/-- Adds a value. -/
def record (h : Histogram) (v : UInt64) : Histogram :=
  { buckets := h.buckets.modify (bitLength v.toNat) (· + 1)
    count := h.count + 1
    sum := h.sum + v
    smallest := min h.smallest v
    largest := max h.largest v }

/-- Forgets all values. -/
def clear (_ : Histogram) : Histogram := {}

/-- The first bucket from `bits` on with at least `rank` values up to it. -/
def bucketOf? (rank bits : Nat) : List Nat → Option Nat
  | [] => none
  | n :: rest => if rank ≤ n then some bits else bucketOf? (rank - n) (bits + 1) rest

/-- An upper bound of the value of a rank, counted from one, in ascending order.
It is never above the largest value, which also answers for higher ranks. -/
def atRank (h : Histogram) (rank : Nat) : Nat :=
  match bucketOf? rank 0 h.buckets with
  | some bits => min (upperBound bits) h.largest.toNat
  | none => h.largest.toNat

/-- The rank that a part `p` of all values stands for. -/
def rankOf (h : Histogram) (p : Float) : Nat :=
  max 1 (countToFloat h.count * p).ceil.toUInt64.toNat

/-- An upper bound of the value below which a part `p` of all values lies; zero
without values. -/
def percentile (h : Histogram) (p : Float) : Nat :=
  if h.count = 0 then 0 else h.atRank (h.rankOf p)

/-- The median. -/
def p50 (h : Histogram) : Nat := h.percentile 0.50

/-- The value that one in a hundred exceeds. -/
def p99 (h : Histogram) : Nat := h.percentile 0.99

/-- The value that one in a thousand exceeds. -/
def p999 (h : Histogram) : Nat := h.percentile 0.999

/-- The mean of the values by their wrapped sum; zero without values. -/
def mean (h : Histogram) : Nat := h.sum.toNat / h.count

/-- The smallest value; zero without values, and for the largest word. -/
def min (h : Histogram) : Nat :=
  if h.smallest = 0xffffffffffffffff then 0 else h.smallest.toNat

/-- The largest value; zero without values. -/
def max (h : Histogram) : Nat := h.largest.toNat

end Histogram

end GenerationalHeap
