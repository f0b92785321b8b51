/-
# The profile of a numeric column

`_profile_column` describes a column for the table browser: how many rows are NULL, how many values
are distinct, the least, the greatest and the mean value, and a histogram of ten buckets.  A value's
bucket comes from one formula (`bucketId`, a division cut to an integer and clipped), the edges that are
reported from another (`histogram`).

* `histogram_partitions`: the two describe one partition of the data exactly when all values are equal.

Otherwise every bucket is as wide as the whole range: the division by ten is missing.

Numbers are rational.  The standard deviation (a square root) and the most frequent values, which are
library calls beside the histogram, are left out.
-/
import Mathlib.Algebra.Order.Field.Rat
import Mathlib.Data.Rat.Floor
import Mathlib.Tactic.Linarith
import Mathlib.Tactic.Ring
import Mathlib.Algebra.BigOperators.Group.List.Lemmas
import Mathlib.Order.MinMax

namespace RyuDB

namespace Profile

/-! ## 1. The profile -/

/-- `{"lo": .., "hi": .., "count": ..}`. -/
structure Bucket where
  lo : ℚ
  hi : ℚ
  count : Nat
  deriving DecidableEq, Repr

/-- The part of the result that is modelled. -/
structure ColumnProfile where
  rowCount : Nat
  nullCount : Nat
  nullPct : ℚ
  distinct : Nat
  min : Option ℚ
  max : Option ℚ
  mean : Option ℚ
  histogram : Option (List Bucket)
  deriving DecidableEq, Repr

/-- `s.dropna()`. -/
def dropna (s : List (Option ℚ)) : List ℚ := s.filterMap id

/-- `(mx - mn) or 1.0`. -/
def width (mn mx : ℚ) : ℚ := if mx - mn = 0 then 1 else mx - mn

/-- `astype("int64")`: the part behind the point is cut off. -/
def truncate (q : ℚ) : Int := if 0 ≤ q then ⌊q⌋ else ⌈q⌉

/-- `clip(lo, hi)`. -/
def clip (lo hi k : Int) : Int := Min.min (Max.max k lo) hi

/-- `bid` of one value. -/
def bucketId (mn mx v : ℚ) : Int := clip 0 9 (truncate ((v - mn) / width mn mx))

/-- `value_counts()`. -/
def valueCounts (ids : List Int) : List (Int × Nat) := ids.dedup.map fun k => (k, ids.count k)

/-- `counts.get(i, 0)`. -/
def countOf (counts : List (Int × Nat)) (i : Int) : Nat := (counts.lookup i).getD 0

/-- The ten buckets that are reported. -/
def histogram (snn : List ℚ) (mn mx : ℚ) : List Bucket :=
  let counts := valueCounts (snn.map (bucketId mn mx))
  (List.range 10).map fun i : Nat =>
    ⟨mn + i * width mn mx, mn + (i + 1) * width mn mx, countOf counts i⟩

/-- `round(x, 6)`: the nearest number of six decimals, and of two the one with an even last digit. -/
def round6 (x : ℚ) : ℚ :=
  let scaled := x * 1000000
  let low := ⌊scaled⌋
  let up := scaled - low > 1 / 2 ∨ scaled - low = 1 / 2 ∧ low % 2 = 1
  ((if up then low + 1 else low : Int) : ℚ) / 1000000

/-- `_profile_column` of a numeric column. -/
def profileColumn (s : List (Option ℚ)) (rowCount : Nat) : ColumnProfile :=
  let snn := dropna s
  let nullCount := s.countP Option.isNone
  let distinct := snn.dedup.length
  let some? := rowCount ≠ 0 ∧ distinct ≠ 0
  { rowCount, nullCount, distinct
    nullPct := round6 (if rowCount = 0 then 0 else nullCount / rowCount)
    min := snn.min?
    max := snn.max?
    mean := if some? then some (snn.sum / snn.length) else none
    histogram := if some? then
        match snn.min?, snn.max? with
        | some mn, some mx => some (histogram snn mn mx)
        | _, _ => none
      else none }

/-! ## 2. What a histogram is -/

/-- A value lies in a bucket; the last one has its upper edge too. -/
def Bucket.Holds (b : Bucket) (last : Bool) (v : ℚ) : Prop :=
  b.lo ≤ v ∧ (v < b.hi ∨ last = true ∧ v = b.hi)

instance (b : Bucket) (last : Bool) (v : ℚ) : Decidable (b.Holds last v) :=
  inferInstanceAs (Decidable (_ ∧ _))

/-- **Ten buckets partition the values** between `mn` and `mx`. -/
structure Partitions (values : List ℚ) (mn mx : ℚ) (bs : List Bucket) : Prop where
  ten : bs.length = 10
  adjacent : ∀ (i : Nat) (h : i + 1 < bs.length), bs[i].hi = bs[i + 1].lo
  equalWidth : ∀ b ∈ bs, ∀ b' ∈ bs, b.hi - b.lo = b'.hi - b'.lo
  first : mn ≠ mx → bs.head?.map Bucket.lo = some mn
  last : mn ≠ mx → bs.getLast?.map Bucket.hi = some mx
  counts : ∀ (i : Nat) (h : i < bs.length),
    bs[i].count = values.countP fun v => bs[i].Holds (decide (i = 9)) v
  total : (bs.map Bucket.count).sum = values.length

/-! ## 3. The counts -/

theorem lookup_map_count (ids : List Int) (i : Int) : ∀ keys : List Int,
    (keys.map fun k => (k, ids.count k)).lookup i = if i ∈ keys then some (ids.count i) else none := by
  intro keys
  induction keys with
  | nil => simp
  | cons k keys ih =>
    by_cases hk : i = k
    · subst hk
      simp
    · have hne : (i == k) = false := by simpa using hk
      simp [List.lookup_cons, hne, ih, hk]

theorem countOf_valueCounts (ids : List Int) (i : Int) : countOf (valueCounts ids) i = ids.count i := by
  unfold countOf valueCounts
  rw [lookup_map_count]
  by_cases hi : i ∈ ids
  · simp [hi]
  · simp [hi, List.count_eq_zero_of_not_mem hi]

/-- When all values are equal they are in bucket 0. -/
theorem bucketId_same (v : ℚ) : bucketId v v v = 0 := by
  simp [bucketId, truncate, clip]

theorem width_same (v : ℚ) : width v v = 1 := by
  simp [width]

theorem getElem_histogram (snn : List ℚ) (mn mx : ℚ) (i : Nat) (h : i < (histogram snn mn mx).length) :
    (histogram snn mn mx)[i] = ⟨mn + i * width mn mx, mn + (i + 1) * width mn mx,
      (snn.map (bucketId mn mx)).count (i : Int)⟩ := by
  simp [histogram, countOf_valueCounts]

theorem length_histogram (snn : List ℚ) (mn mx : ℚ) : (histogram snn mn mx).length = 10 := by
  simp [histogram]

/-! ## 4. Equal values -/

/-- The histogram of equal values: all of them are in the first bucket. -/
theorem partitions_same {snn : List ℚ} {m : ℚ} (h : ∀ v ∈ snn, v = m) :
    Partitions snn m m (histogram snn m m) := by
  have hids : snn.map (bucketId m m) = List.replicate snn.length 0 := by
    refine List.eq_replicate_iff.mpr ⟨by simp, fun k hk => ?_⟩
    obtain ⟨v, hv, rfl⟩ := List.mem_map.mp hk
    rw [h v hv, bucketId_same]
  refine ⟨length_histogram snn m m, fun i hi => ?_, fun b hb b' hb' => ?_, fun hne => absurd rfl hne,
    fun hne => absurd rfl hne, fun i hi => ?_, ?_⟩
  · simp [getElem_histogram, width_same]
  · simp only [histogram, width_same, List.mem_map] at hb hb'
    obtain ⟨i, -, rfl⟩ := hb
    obtain ⟨j, -, rfl⟩ := hb'
    ring
  · rw [getElem_histogram, hids, List.count_replicate]
    rcases Nat.eq_zero_or_pos i with rfl | hpos
    · have hall : ∀ v ∈ snn, decide (Bucket.Holds ⟨m + (0 : Nat) * width m m,
          m + ((0 : Nat) + 1) * width m m, snn.length⟩ (decide (0 = 9)) v) = true := by
        intro v hv
        rw [h v hv, width_same]
        simp [Bucket.Holds]
      simpa using (List.countP_eq_length.mpr hall).symm
    · have hnone : ∀ v ∈ snn, ¬ decide (Bucket.Holds ⟨m + i * width m m, m + (i + 1) * width m m,
          0⟩ (decide (i = 9)) v) = true := by
        intro v hv hd
        have hlo := (of_decide_eq_true hd).1
        rw [h v hv, width_same] at hlo
        have hi1 : (1 : ℚ) ≤ i := by exact_mod_cast hpos
        dsimp only at hlo
        linarith
      have hi0 : ((0 : Int) == (i : Int)) = false := by
        simp
        omega
      simpa [hi0] using (List.countP_eq_zero.mpr hnone).symm
  · simp only [histogram, countOf_valueCounts, hids, List.map_map, Function.comp_def,
      List.count_replicate]
    simp [List.range_succ]

/-! ## 5. The condition -/

/-- The buckets of two different values end past the greatest one. -/
theorem last_of_ne {snn : List ℚ} {mn mx : ℚ} (hne : mn ≠ mx) :
    (histogram snn mn mx).getLast?.map Bucket.hi ≠ some mx := by
  have hw : mx - mn ≠ 0 := sub_ne_zero.mpr hne.symm
  have hlast : (histogram snn mn mx).getLast?.map Bucket.hi = some (mn + 10 * width mn mx) := by
    simp only [histogram, List.range_succ, List.range_zero, List.nil_append, List.map_append,
      List.map_cons, List.map_nil, List.getLast?_append, List.getLast?_singleton, Option.some_or,
      Option.map_some, Option.some.injEq]
    push_cast
    ring
  rw [hlast, width, if_neg hw]
  intro h
  have heq : mn + 10 * (mx - mn) = mx := Option.some.inj h
  exact hw (by linarith)

/-- **The profile histogram.**  A column with a value has a histogram, and this partitions the data
exactly when all values of the column are equal.  With two different values each of the ten buckets is
as wide as the whole range, and the last does not end at the greatest value.  A column without values
has no histogram at all. -/
theorem histogram_partitions (s : List (Option ℚ)) (h : dropna s ≠ []) :
    (∃ mn mx bs, (profileColumn s s.length).min = some mn ∧ (profileColumn s s.length).max = some mx ∧
      (profileColumn s s.length).histogram = some bs ∧ Partitions (dropna s) mn mx bs) ↔
    ∀ v ∈ dropna s, ∀ w ∈ dropna s, v = w := by
  obtain ⟨mn, hmn⟩ : ∃ mn, (dropna s).min? = some mn :=
    Option.isSome_iff_exists.mp (by simpa [List.isSome_min?_iff] using h)
  obtain ⟨mx, hmx⟩ : ∃ mx, (dropna s).max? = some mx :=
    Option.isSome_iff_exists.mp (by simpa [List.isSome_max?_iff] using h)
  have hs : s.length ≠ 0 := by
    intro h0
    rw [List.length_eq_zero_iff.mp h0] at h
    exact h rfl
  have hd : (dropna s).dedup.length ≠ 0 := by
    simpa using h
  have hhist : (profileColumn s s.length).histogram = some (histogram (dropna s) mn mx) := by
    simp only [profileColumn, hmn, hmx]
    rw [if_pos ⟨hs, hd⟩]
  obtain ⟨hmin, hle⟩ := List.min?_eq_some_iff.mp hmn
  obtain ⟨hmax, hge⟩ := List.max?_eq_some_iff.mp hmx
  constructor
  · rintro ⟨mn', mx', bs, h1, h2, h3, hp⟩
    obtain rfl : mn = mn' := Option.some.inj (hmn.symm.trans h1)
    obtain rfl : mx = mx' := Option.some.inj (hmx.symm.trans h2)
    obtain rfl := Option.some.inj (hhist.symm.trans h3)
    have heq : mn = mx := by
      by_contra hne
      exact last_of_ne hne (hp.last hne)
    intro v hv w hw
    have hv' : v = mn := le_antisymm (heq ▸ hge v hv) (hle v hv)
    have hw' : w = mn := le_antisymm (heq ▸ hge w hw) (hle w hw)
    rw [hv', hw']
  · intro hall
    obtain rfl : mn = mx := hall mn hmin mx hmax
    exact ⟨mn, mn, _, hmn, hmx, hhist, partitions_same fun v hv => hall v hv mn hmin⟩

/-- A column of one value and a NULL. -/
theorem histogram_partitions_one :
    ∃ mn mx bs, (profileColumn [some 5, none] 2).min = some mn ∧
      (profileColumn [some 5, none] 2).max = some mx ∧
      (profileColumn [some 5, none] 2).histogram = some bs ∧
      Partitions (dropna [some 5, none]) mn mx bs :=
  (histogram_partitions [some 5, none] (by decide)).mpr (by decide)

/-- **The column 0, 1** is reported as ten buckets up to 10: the value 1 is counted in the bucket from 1
to 2, and the last bucket does not end at the greatest value. -/
theorem buckets_too_wide :
    (profileColumn [some 0, some 1] 2).histogram =
      some ((List.range 10).map fun i => ⟨i, i + 1, if i ≤ 1 then 1 else 0⟩) ∧
    ¬ ∃ mn mx bs, (profileColumn [some 0, some 1] 2).min = some mn ∧
      (profileColumn [some 0, some 1] 2).max = some mx ∧
      (profileColumn [some 0, some 1] 2).histogram = some bs ∧
      Partitions (dropna [some 0, some 1]) mn mx bs := by
  have hbuckets : (profileColumn [some 0, some 1] 2).histogram =
      some ((List.range 10).map fun i => ⟨i, i + 1, if i ≤ 1 then 1 else 0⟩) := by decide +kernel
  refine ⟨hbuckets, ?_⟩
  rintro ⟨mn, mx, bs, h1, h2, h3, hp⟩
  obtain rfl := Option.some.inj (hbuckets.symm.trans h3)
  have hmin : (profileColumn [some 0, some 1] 2).min = some 0 := by decide +kernel
  have hmax : (profileColumn [some 0, some 1] 2).max = some 1 := by decide +kernel
  obtain rfl := Option.some.inj (hmin.symm.trans h1)
  obtain rfl := Option.some.inj (hmax.symm.trans h2)
  have hlast := hp.last (by norm_num)
  revert hlast
  decide +kernel

end Profile

end RyuDB
