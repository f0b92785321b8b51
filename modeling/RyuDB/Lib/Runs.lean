/-
# Runs of equal keys in a sorted sequence

A sequence of `n` positions carries a key, and equal keys are next to each other.  A boundary marks the
first position of every run.  From the boundary alone, by filling forwards and backwards, one gets the
first and the last position of the run of every position; by counting, a number for every run and sums
that begin anew with it.

`Marks n key b` says that `b` marks the runs of `key`.  Its consequences:

* `Marks.mem_run`: the run of a position is an interval from `start` to `stop`.
* `Marks.groupSum_eq`: a sum over the positions with the same number is a sum over an interval.
* `Marks.card_image`: the boundaries in an interval count its distinct keys.
-/
import Mathlib.Algebra.BigOperators.Intervals
import Mathlib.Order.Interval.Finset.Nat

namespace Runs

variable {κ α : Type}

/-! ## 1. Filling -/

/-- The last value at or before a position. -/
def ffill (s : Nat → Option α) : Nat → Option α
  | 0 => s 0
  | i + 1 => (s (i + 1)).or (ffill s i)

/-- The first value at or after a position, among the first `n`. -/
def bfill (n : Nat) (s : Nat → Option α) (i : Nat) : Option α := next (n - i) i
where
  next : Nat → Nat → Option α
    | 0, _ => none
    | m + 1, i => (s i).or (next m (i + 1))

theorem ffill_eq_none {s : Nat → Option α} {i : Nat} :
    ffill s i = none ↔ ∀ j ≤ i, s j = none := by
  induction i with
  | zero =>
    rw [ffill]
    exact ⟨fun h j hj => by rwa [Nat.le_zero.mp hj], fun h => h 0 (le_refl 0)⟩
  | succ i ih =>
    rw [ffill, Option.or_eq_none_iff, ih]
    constructor
    · rintro ⟨hlast, hrest⟩ j hj
      rcases Nat.le_succ_iff.mp hj with hj | rfl
      · exact hrest j hj
      · exact hlast
    · intro h
      exact ⟨h _ (le_refl _), fun j hj => h j (Nat.le_succ_of_le hj)⟩

theorem ffill_eq_some {s : Nat → Option α} {i : Nat} {a : α} :
    ffill s i = some a ↔ ∃ j ≤ i, s j = some a ∧ ∀ k, j < k → k ≤ i → s k = none := by
  induction i with
  | zero =>
    rw [ffill]
    constructor
    · intro h
      exact ⟨0, le_refl 0, h, fun k hk hk' => by omega⟩
    · rintro ⟨j, hj, hs, -⟩
      rwa [Nat.le_zero.mp hj] at hs
  | succ i ih =>
    rw [ffill]
    cases hs : s (i + 1) with
    | some b =>
      rw [Option.some_or]
      constructor
      · intro h
        exact ⟨i + 1, le_refl _, hs.trans h, fun k hk hk' => by omega⟩
      · rintro ⟨j, hj, ha, hnone⟩
        rcases Nat.lt_or_ge j (i + 1) with hlt | hge
        · rw [hnone (i + 1) hlt (le_refl _)] at hs
          cases hs
        · rw [← hs, ← ha, le_antisymm hj hge]
    | none =>
      rw [Option.none_or, ih]
      constructor
      · rintro ⟨j, hj, ha, hnone⟩
        refine ⟨j, Nat.le_succ_of_le hj, ha, fun k hk hk' => ?_⟩
        rcases Nat.le_succ_iff.mp hk' with hk' | rfl
        · exact hnone k hk hk'
        · exact hs
      · rintro ⟨j, hj, ha, hnone⟩
        rcases Nat.le_succ_iff.mp hj with hj | rfl
        · exact ⟨j, hj, ha, fun k hk hk' => hnone k hk (Nat.le_succ_of_le hk')⟩
        · rw [hs] at ha
          cases ha

theorem next_eq_some {s : Nat → Option α} {a : α} {m i : Nat} (h : bfill.next s m i = some a) :
    ∃ j, i ≤ j ∧ j < i + m ∧ s j = some a ∧ ∀ k, i ≤ k → k < j → s k = none := by
  induction m generalizing i with
  | zero => cases h
  | succ m ih =>
    rw [bfill.next] at h
    cases hs : s i with
    | some b =>
      rw [hs, Option.some_or] at h
      exact ⟨i, le_refl i, by omega, hs.trans h, fun k hk hk' => by omega⟩
    | none =>
      rw [hs, Option.none_or] at h
      obtain ⟨j, hj, hlt, ha, hnone⟩ := ih h
      refine ⟨j, by omega, by omega, ha, fun k hk hk' => ?_⟩
      rcases Nat.eq_or_lt_of_le hk with rfl | hk
      · exact hs
      · exact hnone k hk hk'

theorem next_eq_none {s : Nat → Option α} {m i : Nat} (h : bfill.next s m i = none) :
    ∀ j, i ≤ j → j < i + m → s j = none := by
  induction m generalizing i with
  | zero => exact fun j hj hj' => by omega
  | succ m ih =>
    rw [bfill.next, Option.or_eq_none_iff] at h
    intro j hj hj'
    rcases Nat.eq_or_lt_of_le hj with rfl | hj
    · exact h.1
    · exact ih h.2 j hj (by omega)

/-! ## 2. The ends of a run -/

/-- The positions where `b` holds. -/
def mark (b : Nat → Bool) (i : Nat) : Option Nat := if b i then some i else none

/-- The last boundary at or before a position. -/
def start (b : Nat → Bool) (i : Nat) : Nat := (ffill (mark b) i).getD 0

/-- The position before a boundary, or the last one. -/
def isLast (n : Nat) (b : Nat → Bool) (i : Nat) : Bool := if i + 1 < n then b (i + 1) else true

/-- The first end of a run at or after a position. -/
def stop (n : Nat) (b : Nat → Bool) (i : Nat) : Nat := (bfill n (mark (isLast n b)) i).getD 0

theorem mark_eq_none {b : Nat → Bool} {i : Nat} : mark b i = none ↔ b i = false := by
  unfold mark
  cases b i with
  | true => simp
  | false => simp

theorem mark_eq_some {b : Nat → Bool} {i j : Nat} : mark b i = some j ↔ b i = true ∧ i = j := by
  unfold mark
  cases b i with
  | true => simp
  | false => simp

theorem start_spec {b : Nat → Bool} (h0 : b 0 = true) (i : Nat) :
    start b i ≤ i ∧ b (start b i) = true ∧ ∀ k, start b i < k → k ≤ i → b k = false := by
  cases hf : ffill (mark b) i with
  | none =>
    have hno := mark_eq_none.mp (ffill_eq_none.mp hf 0 (Nat.zero_le i))
    rw [h0] at hno
    cases hno
  | some a =>
    obtain ⟨j, hj, hmark, hnone⟩ := ffill_eq_some.mp hf
    obtain ⟨hb, rfl⟩ := mark_eq_some.mp hmark
    have hstart : start b i = j := by rw [start, hf, Option.getD_some]
    rw [hstart]
    exact ⟨hj, hb, fun k hk hk' => mark_eq_none.mp (hnone k hk hk')⟩

theorem stop_spec {n : Nat} (b : Nat → Bool) {i : Nat} (hi : i < n) :
    i ≤ stop n b i ∧ stop n b i < n ∧ isLast n b (stop n b i) = true ∧
      ∀ k, i ≤ k → k < stop n b i → isLast n b k = false := by
  cases hf : bfill n (mark (isLast n b)) i with
  | none =>
    have hno := mark_eq_none.mp (next_eq_none hf (n - 1) (by omega) (by omega))
    rw [isLast, if_neg (by omega)] at hno
    cases hno
  | some a =>
    obtain ⟨j, hj, hlt, hmark, hnone⟩ := next_eq_some hf
    obtain ⟨hb, rfl⟩ := mark_eq_some.mp hmark
    have hstop : stop n b i = j := by rw [stop, hf, Option.getD_some]
    rw [hstop]
    exact ⟨hj, by omega, hb, fun k hk hk' => mark_eq_none.mp (hnone k hk hk')⟩

/-! ## 3. Runs of a key -/

/-- `b` marks the first positions of the runs of `key`, and equal keys are next to each other. -/
structure Marks (n : Nat) (key : Nat → κ) (b : Nat → Bool) : Prop where
  first : b 0 = true
  marks : ∀ i, 0 < i → i < n → (b i = true ↔ key i ≠ key (i - 1))
  contiguous : ∀ {i j k}, i ≤ j → j ≤ k → k < n → key i = key k → key j = key i

/-- A key that does not change from one position to the next is the same at all. -/
theorem key_const {key : Nat → κ} {s i : Nat} (h : ∀ k, s < k → k ≤ i → key k = key (k - 1))
    {j : Nat} (hs : s ≤ j) (hj : j ≤ i) : key j = key s := by
  induction j, hs using Nat.le_induction with
  | base => rfl
  | succ j hs ih => rw [h (j + 1) (by omega) hj, Nat.add_sub_cancel, ih (by omega)]

namespace Marks

variable {n : Nat} {key : Nat → κ} {b : Nat → Bool}

/-- Where there is no boundary the key stays. -/
theorem same (h : Marks n key b) {i : Nat} (h0 : 0 < i) (hi : i < n) (hb : b i = false) :
    key i = key (i - 1) := by
  by_contra hne
  rw [(h.marks i h0 hi).mpr hne] at hb
  cases hb

theorem start_le (h : Marks n key b) (i : Nat) : start b i ≤ i := (start_spec h.first i).1

theorem start_boundary (h : Marks n key b) (i : Nat) : b (start b i) = true :=
  (start_spec h.first i).2.1

theorem le_stop (_ : Marks n key b) {i : Nat} (hi : i < n) : i ≤ stop n b i := (stop_spec b hi).1

theorem stop_lt (_ : Marks n key b) {i : Nat} (hi : i < n) : stop n b i < n :=
  (stop_spec b hi).2.1

theorem key_start (h : Marks n key b) {i : Nat} (hi : i < n) : key (start b i) = key i := by
  obtain ⟨hle, -, hnone⟩ := start_spec h.first i
  refine (key_const (fun k hk hk' => ?_) hle (le_refl i)).symm
  exact h.same (by omega) (by omega) (hnone k hk hk')

theorem key_stop (h : Marks n key b) {i : Nat} (hi : i < n) : key (stop n b i) = key i := by
  obtain ⟨hle, hlt, -, hnone⟩ := stop_spec b hi
  refine key_const (fun k hk hk' => ?_) hle (le_refl _)
  have hlast := hnone (k - 1) (by omega) (by omega)
  rw [isLast, if_pos (by omega), Nat.sub_add_cancel (by omega)] at hlast
  exact h.same (by omega) (by omega) hlast

/-- **The run of a position is an interval.** -/
theorem mem_run (h : Marks n key b) {i j : Nat} (hi : i < n) (hj : j < n) :
    key j = key i ↔ start b i ≤ j ∧ j ≤ stop n b i := by
  have hstop := h.stop_lt hi
  constructor
  · intro hkey
    constructor
    · by_contra hlt
      -- the position before the boundary lies between two positions of the run
      have hpos : 0 < start b i := by omega
      have hle := h.start_le i
      have hprev : key (start b i - 1) = key j :=
        h.contiguous (by omega) (by omega) hi hkey
      exact (h.marks _ hpos (by omega)).mp (h.start_boundary i)
        ((h.key_start hi).trans (hkey.symm.trans hprev.symm))
    · by_contra hlt
      obtain ⟨hle, -, hlast, -⟩ := stop_spec b hi
      rw [isLast, if_pos (by omega)] at hlast
      have hnext : key (stop n b i + 1) = key i :=
        h.contiguous (by omega) (by omega) hj hkey.symm
      exact (h.marks _ (by omega) (by omega)).mp hlast
        (hnext.trans (h.key_stop hi).symm)
  · rintro ⟨hlo, hhi⟩
    rw [← h.key_start hi]
    exact h.contiguous hlo hhi hstop ((h.key_start hi).trans (h.key_stop hi).symm)

/-- Positions of one run share its first position. -/
theorem start_eq_iff (h : Marks n key b) {i j : Nat} (hi : i < n) (hj : j < n) :
    start b j = start b i ↔ key j = key i := by
  constructor
  · intro hs
    rw [← h.key_start hj, hs, h.key_start hi]
  · intro hkey
    have hsi := h.start_le i
    have hsj := h.start_le j
    refine le_antisymm ?_ ?_
    · exact ((h.mem_run hj (by omega)).mp ((h.key_start hi).trans hkey.symm)).1
    · exact ((h.mem_run hi (by omega)).mp ((h.key_start hj).trans hkey)).1

theorem stop_eq (h : Marks n key b) {i j : Nat} (hi : i < n) (hj : j < n)
    (hkey : key j = key i) : stop n b j = stop n b i := by
  have hsi := h.stop_lt hi
  have hsj := h.stop_lt hj
  refine le_antisymm ?_ ?_
  · exact ((h.mem_run hi hsj).mp ((h.key_stop hj).trans hkey)).2
  · exact ((h.mem_run hj hsi).mp ((h.key_stop hi).trans hkey.symm)).2

/-- A run begins no later than a position exactly when the run of that position ends no earlier. -/
theorem start_le_iff (h : Marks n key b) {i j : Nat} (hi : i < n) (hj : j < n) :
    start b j ≤ i ↔ j ≤ stop n b i := by
  have hsi := h.start_le i
  have hsj := h.start_le j
  have hti := h.le_stop hi
  have htj := h.le_stop hj
  constructor
  · intro hle
    rcases Nat.lt_or_ge i j with hlt | hge
    · have hkey := (h.mem_run hj hi).mpr ⟨hle, by omega⟩
      exact ((h.mem_run hi hj).mp hkey.symm).2
    · omega
  · intro hle
    rcases Nat.lt_or_ge j i with hlt | hge
    · omega
    · have hkey := (h.mem_run hi hj).mpr ⟨by omega, hle⟩
      exact ((h.mem_run hj hi).mp hkey.symm).1

/-- A finer key has shorter runs. -/
theorem start_le_start {κ' : Type} {key' : Nat → κ'} {b' : Nat → Bool} (h : Marks n key b)
    (h' : Marks n key' b') (hfine : ∀ i j, key' i = key' j → key i = key j) {i : Nat}
    (hi : i < n) : start b i ≤ start b' i := by
  have hle := h'.start_le i
  exact ((h.mem_run hi (by omega)).mp (hfine _ _ (h'.key_start hi))).1

theorem stop_le_stop {κ' : Type} {key' : Nat → κ'} {b' : Nat → Bool} (h : Marks n key b)
    (h' : Marks n key' b') (hfine : ∀ i j, key' i = key' j → key i = key j) {i : Nat}
    (hi : i < n) : stop n b' i ≤ stop n b i :=
  ((h.mem_run hi (h'.stop_lt hi)).mp (hfine _ _ (h'.key_stop hi))).2

end Marks

/-! ## 4. Numbers and sums of runs -/

/-- The number of boundaries up to a position. -/
def number (b : Nat → Bool) (i : Nat) : Nat := ((Finset.range (i + 1)).filter (b · = true)).card

/-- The number stays between two positions exactly when there is no boundary between them. -/
theorem number_eq_iff {b : Nat → Bool} {i j : Nat} (h : j ≤ i) :
    number b j = number b i ↔ ∀ k, j < k → k ≤ i → b k = false := by
  have hsub : (Finset.range (j + 1)).filter (b · = true) ⊆
      (Finset.range (i + 1)).filter (b · = true) :=
    Finset.filter_subset_filter _ (Finset.range_subset_range.mpr (by omega))
  constructor
  · intro hcard k hk hk'
    by_contra hb
    have hmem : k ∈ (Finset.range (i + 1)).filter (b · = true) :=
      Finset.mem_filter.mpr ⟨Finset.mem_range.mpr (by omega), by simpa using hb⟩
    rw [← Finset.eq_of_subset_of_card_le hsub hcard.ge] at hmem
    have hlt := Finset.mem_range.mp (Finset.mem_filter.mp hmem).1
    omega
  · intro hnone
    refine congrArg Finset.card (Finset.Subset.antisymm hsub fun k hk => ?_)
    obtain ⟨hlt, hb⟩ := Finset.mem_filter.mp hk
    rw [Finset.mem_range] at hlt
    refine Finset.mem_filter.mpr ⟨Finset.mem_range.mpr ?_, hb⟩
    by_contra hgt
    rw [hnone k (by omega) (by omega)] at hb
    cases hb

theorem number_succ (b : Nat → Bool) (i : Nat) :
    number b (i + 1) = number b i + if b (i + 1) = true then 1 else 0 := by
  unfold number
  rw [Finset.range_add_one (n := i + 1), Finset.filter_insert]
  split
  · rw [Finset.card_insert_of_notMem fun h => by simp at h]
  · rfl

/-- The number at a later boundary, by counting the positions before it. -/
theorem number_eq_add_card {b : Nat → Bool} {s t : Nat} (hst : s ≤ t) (hb : b t = true) :
    number b t = number b s + ((Finset.Ico s t).filter (fun j => j = s ∨ b j = true)).card := by
  have hcount : ∀ t, s < t → number b t + 1 = number b s +
      ((Finset.Ico s t).filter (fun j => j = s ∨ b j = true)).card +
        if b t = true then 1 else 0 := by
    intro t ht
    induction t, ht using Nat.le_induction with
    | base => simp [number_succ, Finset.filter_singleton]; omega
    | succ t ht ih =>
      rw [number_succ, Finset.Ico_add_one_right_eq_Icc, ← Finset.Ico_insert_right (by omega),
        Finset.filter_insert]
      have hne : t ≠ s := by omega
      by_cases hbt : b t = true
      · rw [if_pos hbt] at ih
        rw [if_pos (show t = s ∨ b t = true from .inr hbt),
          Finset.card_insert_of_notMem fun h => by simp at h]
        omega
      · rw [if_neg hbt] at ih
        rw [if_neg (show ¬ (t = s ∨ b t = true) from fun h => h.elim hne hbt)]
        omega
  rcases Nat.eq_or_lt_of_le hst with rfl | hlt
  · rw [Finset.Ico_self]
    rfl
  · have h := hcount t hlt
    rw [if_pos hb] at h
    omega

/-- The sum over the positions with the same number, up to this one. -/
def groupSum {M : Type} [AddCommMonoid M] (b : Nat → Bool) (f : Nat → M) (i : Nat) : M :=
  ∑ j ∈ (Finset.range (i + 1)).filter (fun j => number b j = number b i), f j

namespace Marks

variable {n : Nat} {key : Nat → κ} {b : Nat → Bool}

theorem number_eq_iff_start (h : Marks n key b) {i j : Nat} (hj : j ≤ i) :
    number b j = number b i ↔ start b i ≤ j := by
  obtain ⟨hle, hb, hnone⟩ := start_spec h.first i
  rw [number_eq_iff hj]
  constructor
  · intro hno
    by_contra hlt
    rw [hno _ (by omega) hle] at hb
    cases hb
  · intro hs k hk hk'
    exact hnone k (by omega) hk'

/-- **Sums that begin anew with every run.** -/
theorem groupSum_eq {M : Type} [AddCommMonoid M] (h : Marks n key b) (f : Nat → M) (i : Nat) :
    groupSum b f i = ∑ j ∈ Finset.Icc (start b i) i, f j := by
  refine Finset.sum_congr (Finset.ext fun j => ?_) fun _ _ => rfl
  rw [Finset.mem_filter, Finset.mem_range, Finset.mem_Icc]
  constructor
  · rintro ⟨hlt, hnum⟩
    exact ⟨(h.number_eq_iff_start (by omega)).mp hnum, by omega⟩
  · rintro ⟨hs, hle⟩
    exact ⟨by omega, (h.number_eq_iff_start hle).mpr hs⟩

/-- The difference of two such sums in one run is the sum between them. -/
theorem groupSum_diff {M : Type} [AddCommGroup M] (h : Marks n key b) (f : Nat → M) {i u v : Nat}
    (hi : i < n) (hu : start b i ≤ u) (huv : u ≤ v) (hv : v ≤ stop n b i) :
    Runs.groupSum b f v - (if start b i < u then Runs.groupSum b f (u - 1) else 0) =
      ∑ j ∈ Finset.Icc u v, f j := by
  have hstop := h.stop_lt hi
  have hsum : ∀ x, start b i ≤ x → x ≤ stop n b i →
      Runs.groupSum b f x = ∑ j ∈ Finset.Ico (start b i) (x + 1), f j := by
    intro x hlo hhi
    rw [h.groupSum_eq, (h.start_eq_iff hi (by omega)).mpr
      ((h.mem_run hi (by omega)).mpr ⟨hlo, hhi⟩), Finset.Ico_add_one_right_eq_Icc]
  rw [hsum v (by omega) hv, ← Finset.Ico_add_one_right_eq_Icc,
    ← Finset.sum_Ico_consecutive f hu (by omega : u ≤ v + 1)]
  split
  · rw [hsum (u - 1) (by omega) (by omega), Nat.sub_add_cancel (by omega), add_sub_cancel_left]
  · rw [show u = start b i by omega, Finset.Ico_self, Finset.sum_empty, zero_add, sub_zero]

/-- **Boundaries count keys**: those after the first position of an interval, and the first position
itself, are as many as the distinct keys in it. -/
theorem card_image [DecidableEq κ] (h : Marks n key b) {s t : Nat} (ht : t ≤ n) :
    ((Finset.Ico s t).image key).card =
      ((Finset.Ico s t).filter (fun j => j = s ∨ b j = true)).card := by
  induction t with
  | zero =>
    rw [Finset.Ico_eq_empty (by omega)]
    rfl
  | succ t ih =>
    rcases Nat.lt_or_ge t s with hlt | hge
    · rw [Finset.Ico_eq_empty (by omega)]
      rfl
    · rw [Finset.Ico_add_one_right_eq_Icc, ← Finset.Ico_insert_right hge, Finset.image_insert,
        Finset.filter_insert]
      have hnew : t ∉ (Finset.Ico s t).filter (fun j => j = s ∨ b j = true) := fun hmem =>
        Finset.right_notMem_Ico (Finset.mem_filter.mp hmem).1
      rcases Nat.eq_or_lt_of_le hge with rfl | hlt
      · rw [if_pos (.inl rfl), Finset.Ico_self]
        rfl
      · cases hb : b t with
        | true =>
          rw [if_pos (.inr rfl), Finset.card_insert_of_notMem hnew, ← ih (by omega),
            Finset.card_insert_of_notMem]
          intro hmem
          obtain ⟨j, hj, hkey⟩ := Finset.mem_image.mp hmem
          rw [Finset.mem_Ico] at hj
          -- the key of `t` would fill the positions from `j` on
          have hprev := h.contiguous (show j ≤ t - 1 by omega) (by omega) (by omega) hkey
          exact (h.marks t (by omega) (by omega)).mp hb (hkey.symm.trans hprev.symm)
        | false =>
          rw [if_neg (by simp; omega), ← ih (by omega), Finset.insert_eq_of_mem]
          rw [h.same (by omega) (by omega) hb]
          exact Finset.mem_image_of_mem _ (Finset.mem_Ico.mpr (by omega))

end Marks

end Runs
