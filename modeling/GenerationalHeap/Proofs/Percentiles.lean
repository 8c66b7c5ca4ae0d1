/-
Percentiles of recorded values.

A histogram keeps of its values only how many there are of each bit length. For a percentile it
walks up the buckets until they hold as many values as the rank asks for. That leads to the
bucket of the value of that rank, for the values of smaller bit lengths come before it in
ascending order, and those of larger ones behind it.

* `Histogram.Holds` — what a histogram knows of the values that were recorded in it;
  `Histogram.holds_ofHistory` — that it does, after any calls.
* `Histogram.bucketOf?_eq_some` — where the walk over the buckets ends.
* `Histogram.Holds.atRank_eq` — the answer for a rank is told by the value of that rank.
* `Histogram.answers_of_perm` — so it is at least that value and less than twice of it, and grows
  with the rank.
-/
import GenerationalHeap.Monitoring.Histogram
import Mathlib.Data.List.Pairwise
import Mathlib.Tactic.ByContra

namespace GenerationalHeap

namespace Histogram

/-! ### Bit lengths -/

theorem lt_two_pow_bitLength (v : Nat) : v < 2 ^ bitLength v := by
  rw [bitLength]
  split
  · rename_i hz
    rw [hz]
    exact Nat.one_pos
  · exact Nat.lt_log2_self

theorem two_pow_bitLength_le {v : Nat} (hv : v ≠ 0) : 2 ^ bitLength v ≤ 2 * v := by
  rw [bitLength, if_neg hv, Nat.pow_succ]
  have hle := Nat.log2_self_le hv
  omega

theorem bitLength_le_of_lt {v n : Nat} (hv : v < 2 ^ n) : bitLength v ≤ n := by
  by_contra hlong
  have hne : v ≠ 0 := by
    rintro rfl
    exact hlong (Nat.zero_le n)
  have hpow : 2 ^ (n + 1) ≤ 2 ^ bitLength v :=
    Nat.pow_le_pow_right Nat.two_pos (Nat.not_le.1 hlong)
  have hdouble := two_pow_bitLength_le hne
  rw [Nat.pow_succ] at hpow
  omega

theorem bitLength_mono {v w : Nat} (h : v ≤ w) : bitLength v ≤ bitLength w :=
  bitLength_le_of_lt (Nat.lt_of_le_of_lt h (lt_two_pow_bitLength w))

/-- There is a bucket for every word. -/
theorem bitLength_lt_of_word (v : UInt64) : bitLength v.toNat < 65 :=
  Nat.lt_succ_of_le (bitLength_le_of_lt v.toNat_lt)

theorem le_upperBound (v : Nat) : v ≤ upperBound (bitLength v) := by
  have hlt := lt_two_pow_bitLength v
  unfold upperBound
  omega

theorem upperBound_lt {v : Nat} (hv : v ≠ 0) : upperBound (bitLength v) < 2 * v := by
  have hle := two_pow_bitLength_le hv
  unfold upperBound
  omega

theorem upperBound_mono {m n : Nat} (h : m ≤ n) : upperBound m ≤ upperBound n :=
  Nat.sub_le_sub_right (Nat.pow_le_pow_right Nat.two_pos h) 1

/-! ### Recording -/

/-- One more in a bucket is one more in all buckets up to it. -/
theorem sum_take_modify {l : List Nat} {i : Nat} (hi : i < l.length) (k : Nat) :
    ((l.modify i (· + 1)).take k).sum = (l.take k).sum + if i < k then 1 else 0 := by
  induction l generalizing i k with
  | nil => exact absurd hi (Nat.not_lt_zero i)
  | cons n rest ih =>
    cases k with
    | zero => rfl
    | succ k =>
      cases i with
      | zero =>
        simp only [List.modify_zero_cons, List.take_succ_cons, List.sum_cons,
          if_pos (Nat.zero_lt_succ k)]
        omega
      | succ i =>
        simp only [List.modify_succ_cons, List.take_succ_cons, List.sum_cons,
          ih (Nat.lt_of_succ_lt_succ hi) k, Nat.add_lt_add_iff_right]
        omega

/-- What a histogram knows of the values that were recorded in it. -/
structure Holds (h : Histogram) (values : List UInt64) : Prop where
  length : h.buckets.length = 65
  below : ∀ k, (h.buckets.take k).sum = values.countP fun v => decide (bitLength v.toNat < k)
  count : h.count = values.length
  le_largest : ∀ v ∈ values, v.toNat ≤ h.largest.toNat
  largest_mem : values = [] ∧ h.largest = 0 ∨ h.largest ∈ values

theorem holds_empty : Holds {} [] where
  length := rfl
  below k := by
    show ((List.replicate 65 0).take k).sum = 0
    rw [List.take_replicate, List.sum_replicate_nat, Nat.mul_zero]
  count := rfl
  le_largest v hv := absurd hv List.not_mem_nil
  largest_mem := Or.inl ⟨rfl, rfl⟩

/-- The largest value is the one before or the new one. -/
theorem largest_record (h : Histogram) (v : UInt64) :
    (h.record v).largest = if h.largest ≤ v then v else h.largest := rfl

theorem Holds.record {h : Histogram} {values : List UInt64} (hh : h.Holds values) (v : UInt64) :
    (h.record v).Holds (values ++ [v]) where
  length := (List.length_modify _ _ _).trans hh.length
  below k := by
    have hbucket : bitLength v.toNat < h.buckets.length := hh.length ▸ bitLength_lt_of_word v
    -- the bucket of the new value is one of the first k exactly if its index is less
    show ((h.buckets.modify (bitLength v.toNat) (· + 1)).take k).sum = _
    rw [sum_take_modify hbucket, hh.below k, List.countP_append, List.countP_singleton]
    simp only [decide_eq_true_eq]
  count := by
    rw [List.length_append, ← hh.count]
    rfl
  le_largest w hw := by
    rw [largest_record]
    rcases List.mem_append.1 hw with hw | hw
    · have hle := hh.le_largest w hw
      split
      · rename_i hv
        exact Nat.le_trans hle (UInt64.le_iff_toNat_le.1 hv)
      · exact hle
    · obtain rfl := List.mem_singleton.1 hw
      split
      · exact Nat.le_refl _
      · rename_i hv
        rw [UInt64.le_iff_toNat_le] at hv
        omega
  largest_mem := by
    refine Or.inr ?_
    rw [largest_record]
    rcases hh.largest_mem with ⟨rfl, hzero⟩ | hmem
    · rw [hzero, if_pos (UInt64.le_iff_toNat_le.2 (Nat.zero_le _))]
      exact List.mem_singleton_self v
    · split
      · exact List.mem_append_right _ (List.mem_singleton_self v)
      · exact List.mem_append_left _ hmem

/-- A call that changes a histogram. -/
inductive Change where
  | record (v : UInt64)
  | clear

/-- The histogram after a call. -/
def after (h : Histogram) : Change → Histogram
  | .record v => h.record v
  | .clear => h.clear

/-- A new histogram after some calls. -/
def ofHistory (history : List Change) : Histogram := history.foldl after {}

/-- The values that are recorded after a call. -/
def Change.recorded (values : List UInt64) : Change → List UInt64
  | .record v => values ++ [v]
  | .clear => []

/-- The values that were recorded since the last call that cleared, in the order of the calls. -/
def recorded (history : List Change) : List UInt64 := history.foldl Change.recorded []

theorem Holds.after {h : Histogram} {values : List UInt64} (hh : h.Holds values)
    (change : Change) : (h.after change).Holds (change.recorded values) := by
  cases change with
  | record v => exact hh.record v
  | clear => exact holds_empty

/-- A histogram holds the values that were recorded in it since it was last cleared. -/
theorem holds_ofHistory (history : List Change) :
    (ofHistory history).Holds (recorded history) := by
  suffices hrun : ∀ (h : Histogram) (values : List UInt64), h.Holds values →
      (history.foldl Histogram.after h).Holds (history.foldl Change.recorded values) from
    hrun {} [] holds_empty
  induction history with
  | nil => exact fun _ _ hh => hh
  | cons change rest ih => exact fun _ _ hh => ih _ _ (hh.after change)

/-! ### The walk over the buckets -/

/-- The walk ends in the first bucket up to which there are enough values. -/
theorem bucketOf?_eq_some {buckets : List Nat} {rank k : Nat} (bits : Nat)
    (hbelow : (buckets.take k).sum < rank) (hreach : rank ≤ (buckets.take (k + 1)).sum) :
    bucketOf? rank bits buckets = some (bits + k) := by
  induction buckets generalizing rank k bits with
  | nil =>
    rw [List.take_nil] at hbelow hreach
    exact absurd (Nat.lt_of_lt_of_le hbelow hreach) (Nat.lt_irrefl _)
  | cons n rest ih =>
    rw [List.take_succ_cons, List.sum_cons] at hreach
    cases k with
    | zero =>
      rw [List.take_zero, List.sum_nil, Nat.add_zero] at hreach
      rw [bucketOf?, if_pos hreach, Nat.add_zero]
    | succ k =>
      rw [List.take_succ_cons, List.sum_cons] at hbelow
      have hnext : bucketOf? (rank - n) (bits + 1) rest = some (bits + 1 + k) :=
        ih (bits + 1) (by omega) (by omega)
      rw [bucketOf?, if_neg (by omega), hnext]
      congr 1
      omega

/-- There is no such bucket for a rank above the number of values. -/
theorem bucketOf?_eq_none {buckets : List Nat} {rank : Nat} (bits : Nat)
    (h : buckets.sum < rank) : bucketOf? rank bits buckets = none := by
  induction buckets generalizing rank bits with
  | nil => rfl
  | cons n rest ih =>
    rw [List.sum_cons] at h
    rw [bucketOf?, if_neg (by omega)]
    exact ih (bits + 1) (by omega)

/-! ### The value of a rank -/

/-- In ascending order, no number behind a place is smaller than the number there, and no number
up to it is larger. -/
theorem countP_lt_of_sorted {l : List Nat} (hl : l.Pairwise (· ≤ ·)) {i : Nat} (hi : i < l.length) :
    l.countP (fun n => decide (n < l[i])) ≤ i ∧ i < l.countP fun n => decide (n < l[i] + 1) := by
  constructor
  · have hbehind : (l.drop i).countP (fun n => decide (n < l[i])) = 0 := by
      refine List.countP_eq_zero.2 fun n hn => ?_
      obtain ⟨j, hj, rfl⟩ := List.mem_drop_iff_getElem.1 hn
      rw [decide_eq_true_eq]
      exact Nat.not_lt.2 (hl.rel_get_of_le (a := ⟨i, hi⟩) (b := ⟨i + j, _⟩) (Nat.le_add_right i j))
    have hbefore : (l.take i).countP (fun n => decide (n < l[i])) ≤ i :=
      Nat.le_trans List.countP_le_length (List.length_take_le i l)
    have hsplit : ∀ q : Nat → Bool, l.countP q = (l.take i).countP q + (l.drop i).countP q :=
      fun q => by rw [← List.countP_append, List.take_append_drop]
    rw [hsplit]
    omega
  · have hbefore : (l.take (i + 1)).countP (fun n => decide (n < l[i] + 1)) = i + 1 := by
      have hlength : (l.take (i + 1)).length = i + 1 := List.length_take_of_le hi
      refine (List.countP_eq_length.2 fun n hn => ?_).trans hlength
      obtain ⟨j, hj, rfl⟩ := List.mem_take_iff_getElem.1 hn
      rw [decide_eq_true_eq]
      exact Nat.lt_succ_of_le
        (hl.rel_get_of_le (a := ⟨j, _⟩) (b := ⟨i, hi⟩) (by simp only [Fin.mk_le_mk]; omega))
    have hpart : (l.take (i + 1)).countP (fun n => decide (n < l[i] + 1)) ≤
        l.countP fun n => decide (n < l[i] + 1) := (List.take_sublist (i + 1) l).countP_le
    omega

section Sorted

variable {h : Histogram} {values sorted : List UInt64} (hh : h.Holds values)
  (hperm : sorted.Perm values) (hsorted : sorted.Pairwise (· ≤ ·))
include hh hperm hsorted

/-- The walk for a rank ends in the bucket of the value of that rank. -/
theorem Holds.bucketOf?_eq {i : Nat} (hi : i < sorted.length) :
    bucketOf? (i + 1) 0 h.buckets = some (bitLength sorted[i].toNat) := by
  have hlengths : (sorted.map fun v => bitLength v.toNat).Pairwise (· ≤ ·) :=
    List.pairwise_map.2 (hsorted.imp fun hle => bitLength_mono (UInt64.le_iff_toNat_le.1 hle))
  have hcount := countP_lt_of_sorted hlengths (i := i) (by rwa [List.length_map])
  rw [List.getElem_map, List.countP_map, List.countP_map] at hcount
  -- the order in which the values were recorded does not matter
  have hbelow : ∀ k, (h.buckets.take k).sum =
      sorted.countP ((fun n => decide (n < k)) ∘ fun v => bitLength v.toNat) := fun k =>
    (hh.below k).trans (hperm.countP_eq _).symm
  rw [← Nat.zero_add (bitLength sorted[i].toNat)]
  exact bucketOf?_eq_some 0 (by rw [hbelow]; omega) (by rw [hbelow]; omega)

theorem Holds.atRank_eq {i : Nat} (hi : i < sorted.length) :
    h.atRank (i + 1) = Nat.min (upperBound (bitLength sorted[i].toNat)) h.largest.toNat := by
  rw [atRank, hh.bucketOf?_eq hperm hsorted hi]

omit hsorted in
theorem Holds.atRank_eq_max {rank : Nat} (hrank : sorted.length < rank) :
    h.atRank rank = h.max := by
  have hall : h.buckets.sum ≤ values.length := by
    rw [← List.take_of_length_le (Nat.le_refl h.buckets.length), hh.below]
    exact List.countP_le_length
  have hlength := hperm.length_eq
  rw [atRank, bucketOf?_eq_none 0 (by omega), max]

theorem Holds.atRank_le_max {rank : Nat} (hrank : 1 ≤ rank) : h.atRank rank ≤ h.max := by
  obtain ⟨i, rfl⟩ := Nat.exists_eq_add_of_le' hrank
  by_cases hi : i < sorted.length
  · rw [hh.atRank_eq hperm hsorted hi]
    exact Nat.min_le_right _ _
  · exact Nat.le_of_eq (hh.atRank_eq_max hperm (by omega))

/-- A higher rank has no smaller answer. -/
theorem Holds.atRank_mono {r s : Nat} (hr : 1 ≤ r) (hrs : r ≤ s) : h.atRank r ≤ h.atRank s := by
  by_cases hs : s ≤ sorted.length
  · obtain ⟨i, rfl⟩ := Nat.exists_eq_add_of_le' hr
    obtain ⟨j, rfl⟩ := Nat.exists_eq_add_of_le' (Nat.le_trans hr hrs)
    have hle : sorted[i].toNat ≤ sorted[j].toNat := UInt64.le_iff_toNat_le.1
      (hsorted.rel_get_of_le (a := ⟨i, by omega⟩) (b := ⟨j, hs⟩) (Nat.le_of_add_le_add_right hrs))
    rw [hh.atRank_eq hperm hsorted (by omega), hh.atRank_eq hperm hsorted hs]
    have hbound := upperBound_mono (bitLength_mono hle)
    exact Nat.le_min.2 ⟨Nat.le_trans (Nat.min_le_left _ _) hbound, Nat.min_le_right _ _⟩
  · rw [hh.atRank_eq_max hperm (Nat.not_le.1 hs)]
    exact hh.atRank_le_max hperm hsorted hr

/-- The largest value stands last. -/
theorem Holds.getLast?_eq (hne : values ≠ []) : sorted.getLast? = some h.largest := by
  have hmem : h.largest ∈ sorted := hperm.mem_iff.2 (hh.largest_mem.resolve_left fun he => hne he.1)
  obtain ⟨i, hi, hlargest⟩ := List.getElem_of_mem hmem
  rw [List.getLast?_eq_getElem?, List.getElem?_eq_getElem (by omega)]
  refine congrArg some (UInt64.toNat_inj.1 (Nat.le_antisymm ?_ ?_))
  · exact hh.le_largest _ (hperm.mem_iff.1 (List.getElem_mem _))
  · rw [← hlargest]
    exact UInt64.le_iff_toNat_le.1 (hsorted.rel_get_of_le (a := ⟨i, hi⟩)
      (b := ⟨sorted.length - 1, by omega⟩) (Nat.le_sub_one_of_lt hi))

end Sorted

/-! ### Percentiles -/

/-- The answers of a histogram, beside the values in ascending order. Ranks are counted from one,
so the value of rank `i + 1` stands at place `i`. -/
structure Answers (h : Histogram) (sorted : List UInt64) : Prop where
  percentile : ∀ p, h.percentile p = h.atRank (h.rankOf p)
  one_le_rankOf : ∀ p, 1 ≤ h.rankOf p
  value_le : ∀ i (hi : i < sorted.length), sorted[i].toNat ≤ h.atRank (i + 1)
  le_max : ∀ i < sorted.length, h.atRank (i + 1) ≤ h.max
  zero : ∀ i (hi : i < sorted.length), sorted[i] = 0 → h.atRank (i + 1) = 0
  lt_double : ∀ i (hi : i < sorted.length), sorted[i] ≠ 0 →
    h.atRank (i + 1) < 2 * sorted[i].toNat
  above : ∀ rank, sorted.length < rank → h.atRank rank = h.max
  max_eq : sorted.getLast?.map UInt64.toNat = some h.max
  mono : ∀ r s, 1 ≤ r → r ≤ s → h.atRank r ≤ h.atRank s
  p50_le_p99 : h.rankOf 0.50 ≤ h.rankOf 0.99 → h.p50 ≤ h.p99
  p99_le_p999 : h.rankOf 0.99 ≤ h.rankOf 0.999 → h.p99 ≤ h.p999
  p999_le_max : h.p999 ≤ h.max

/-- What a histogram answers for a rank is at least the value of that rank, less than its double,
and at most the largest value. It is zero if the value is, the largest value for ranks above the
number of values, and it grows with the rank. The order in which the values were recorded does
not matter. -/
theorem answers_of_perm {history : List Change} {sorted : List UInt64}
    (hne : recorded history ≠ []) (hperm : sorted.Perm (recorded history))
    (hsorted : sorted.Pairwise (· ≤ ·)) : (ofHistory history).Answers sorted := by
  have hh := holds_ofHistory history
  generalize ofHistory history = h at hh ⊢
  have hcount : h.count ≠ 0 := by
    rw [hh.count]
    exact fun hzero => hne (List.eq_nil_of_length_eq_zero hzero)
  have hrank : ∀ p, 1 ≤ h.rankOf p := fun p => Nat.le_max_left _ _
  have hpercentile : ∀ p, h.percentile p = h.atRank (h.rankOf p) := fun p => if_neg hcount
  have hordered : ∀ p q, h.rankOf p ≤ h.rankOf q → h.percentile p ≤ h.percentile q := by
    intro p q hpq
    rw [hpercentile, hpercentile]
    exact hh.atRank_mono hperm hsorted (hrank p) hpq
  exact
    { percentile := hpercentile
      one_le_rankOf := hrank
      value_le := fun i hi => by
        rw [hh.atRank_eq hperm hsorted hi]
        exact Nat.le_min.2
          ⟨le_upperBound _, hh.le_largest _ (hperm.mem_iff.1 (List.getElem_mem hi))⟩
      le_max := fun i _ => hh.atRank_le_max hperm hsorted (Nat.le_add_left 1 i)
      zero := fun i hi hzero => by
        rw [hh.atRank_eq hperm hsorted hi, hzero]
        exact Nat.zero_min _
      lt_double := fun i hi hpos => by
        have hpos' : sorted[i].toNat ≠ 0 := fun hzero => hpos (UInt64.toNat_inj.1 hzero)
        rw [hh.atRank_eq hperm hsorted hi]
        exact Nat.lt_of_le_of_lt (Nat.min_le_left _ _) (upperBound_lt hpos')
      above := fun rank => hh.atRank_eq_max hperm
      max_eq := by
        rw [hh.getLast?_eq hperm hsorted hne]
        rfl
      mono := fun r s => hh.atRank_mono hperm hsorted
      p50_le_p99 := hordered _ _
      p99_le_p999 := hordered _ _
      p999_le_max := by
        rw [p999, hpercentile]
        exact hh.atRank_le_max hperm hsorted (hrank _) }

/-- A value that was cleared away, and four that were recorded out of order. The second smallest
of these is five, and the answer for its rank is seven. -/
theorem answers_of_four :
    (ofHistory [.record 3, .clear, .record 100, .record 0, .record 0x8000000000000000,
      .record 5]).Answers [0, 5, 100, 0x8000000000000000] ∧
    (ofHistory [.record 3, .clear, .record 100, .record 0, .record 0x8000000000000000,
      .record 5]).atRank 2 = 7 :=
  ⟨answers_of_perm (by decide) (by decide) (by decide), by decide⟩

end Histogram

end GenerationalHeap
