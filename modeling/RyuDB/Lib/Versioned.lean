/-
# Timestamped rows and tombstones

A versioned table is kept as three logs: rows tagged with the timestamp of their insertion, and
two logs of tombstones, each the key of removed rows with a timestamp.  A row is visible when
every hard tombstone of its key is strictly older than the row and every soft tombstone of its
key is not newer than it.  A reader does not walk the logs: it reduces each tombstone log to the
greatest timestamp per key (`groupMax`) and compares every row with two numbers (`keep`).

`collapse_snoc` says what that reader sees after one more commit: the rows it saw before, less
those whose key the commit removes, followed by the commit's own rows except those it removes
itself.  Every fact about a history, a transaction or a flush is an instance or an iteration of
it; `collapse_history` is the iteration, by induction on the history from its last commit.
`collapse_refold` says when the logs may be read once more over a base that holds their result, and
`collapse_retag` that timestamps may be replaced by others that compare the same.
-/
import RyuDB.Lib.Dict
import Mathlib.Algebra.Order.Group.Int
import Mathlib.Data.List.Induction

namespace Versioned

variable {K R : Type} [DecidableEq K]

/-! ## 1. The greatest value per key -/

/-- Raise the value stored for one key. -/
def bump (d : Dict K Int) (e : K × Int) : Dict K Int :=
  d.set e.1 (match d.get? e.1 with
    | none => e.2
    | some m => max m e.2)

/-- One entry per key, with the greatest of its values. -/
def groupMax (l : List (K × Int)) : Dict K Int := l.foldl bump ∅

theorem groupMax_snoc (l : List (K × Int)) (e : K × Int) :
    groupMax (l ++ [e]) = bump (groupMax l) e := by
  simp [groupMax]

/-- The greatest value of a key, with a default below `x`, is below `x` exactly when all its
values are. -/
theorem groupMax_lt {b x : Int} (hb : b < x) (k : K) : ∀ l : List (K × Int),
    ((groupMax l).get? k).getD b < x ↔ ∀ v, (k, v) ∈ l → v < x := by
  intro l
  induction l using List.reverseRecOn with
  | nil => simp [groupMax, hb]
  | append_singleton l e ih =>
    obtain ⟨j, w⟩ := e
    rw [groupMax_snoc, bump, Dict.get?_set]
    by_cases hkj : k = j
    · subst hkj
      cases hg : (groupMax l).get? k with
      | none =>
        rw [hg] at ih
        simp only [Option.getD_none, hb, true_iff] at ih
        simp only [if_true, Option.getD_some, List.mem_append, List.mem_singleton,
          Prod.mk.injEq, true_and]
        exact ⟨fun h v hv => hv.elim (ih v) (fun hw => hw ▸ h), fun h => h w (Or.inr rfl)⟩
      | some m =>
        rw [hg] at ih
        simp only [Option.getD_some] at ih
        simp only [if_true, Option.getD_some, max_lt_iff, ih, List.mem_append,
          List.mem_singleton, Prod.mk.injEq, true_and]
        exact ⟨fun h v hv => hv.elim (h.1 v) (fun hw => hw ▸ h.2),
          fun h => ⟨fun v hv => h v (Or.inl hv), h w (Or.inr rfl)⟩⟩
    · rw [if_neg hkj, ih]
      simp only [List.mem_append, List.mem_singleton, Prod.mk.injEq, hkj, false_and, or_false]

/-- The same with `≤`, read off the strict form at `x + 1`. -/
theorem groupMax_le {b x : Int} (hb : b ≤ x) (k : K) (l : List (K × Int)) :
    ((groupMax l).get? k).getD b ≤ x ↔ ∀ v, (k, v) ∈ l → v ≤ x := by
  have h := groupMax_lt (x := x + 1) (by omega : b < x + 1) k l
  constructor
  · intro hle v hv
    have := h.mp (by omega) v hv
    omega
  · intro hle
    have := h.mpr (fun v hv => by have := hle v hv; omega)
    omega

/-- The greatest value of a key is one of its values. -/
theorem groupMax_mem {k : K} : ∀ {l : List (K × Int)} {m : Int},
    (groupMax l).get? k = some m → (k, m) ∈ l := by
  intro l
  induction l using List.reverseRecOn with
  | nil =>
    intro m h
    cases h
  | append_singleton l e ih =>
    intro m h
    obtain ⟨j, w⟩ := e
    rw [groupMax_snoc, bump, Dict.get?_set] at h
    rw [List.mem_append]
    split at h
    · rename_i hkj
      subst hkj
      cases hg : (groupMax l).get? k with
      | none =>
        rw [hg] at h
        cases h
        exact Or.inr (List.mem_singleton.mpr rfl)
      | some n =>
        rw [hg] at h
        have hm : max n w = m := Option.some.inj h
        rcases max_choice n w with hmax | hmax
        · rw [hmax] at hm
          subst hm
          exact Or.inl (ih hg)
        · rw [hmax] at hm
          subst hm
          exact Or.inr (List.mem_singleton.mpr rfl)
    · exact Or.inl (ih h)

/-! ## 2. The reader -/

/-- A tagged row survives the two reduced tombstone logs.  A key without tombstone reads `-1`,
which is below every timestamp. -/
def keep (key : R → K) (D U : List (K × Int)) (x : Int × R) : Bool :=
  decide (((groupMax D).get? (key x.2)).getD (-1) < x.1) &&
    decide (((groupMax U).get? (key x.2)).getD (-1) ≤ x.1)

/-- What the reader sees of the tagged rows `T` under hard tombstones `D` and soft ones `U`. -/
def collapse (key : R → K) (T : List (Int × R)) (D U : List (K × Int)) : List (Int × R) :=
  T.filter (keep key D U)

variable {key : R → K} {T : List (Int × R)} {D U : List (K × Int)}

/-- The two comparisons against maxima say what each single tombstone says. -/
theorem keep_iff {x : Int × R} (hx : 0 ≤ x.1) : keep key D U x = true ↔
    (∀ v, (key x.2, v) ∈ D → v < x.1) ∧ (∀ v, (key x.2, v) ∈ U → v ≤ x.1) := by
  rw [keep, Bool.and_eq_true, decide_eq_true_iff, decide_eq_true_iff,
    groupMax_lt (by omega), groupMax_le (by omega)]

/-- Without tombstones every row is seen. -/
theorem collapse_nil (hT : ∀ x ∈ T, 0 ≤ x.1) : collapse key T [] [] = T := by
  refine List.filter_eq_self.mpr fun x hx => ?_
  rw [keep_iff (hT x hx)]
  simp

/-- Fewer tombstones show at least the same rows, also when some rows are left out. -/
theorem collapse_filter_sublist {D' U' : List (K × Int)} (hT : ∀ x ∈ T, 0 ≤ x.1)
    (hD : ∀ e ∈ D', e ∈ D) (hU : ∀ e ∈ U', e ∈ U) (p : Int × R → Bool) :
    List.Sublist ((collapse key T D U).filter p) (collapse key (T.filter p) D' U') := by
  have hkeep : T.filter (keep key D U) = (T.filter (keep key D' U')).filter (keep key D U) := by
    rw [List.filter_filter]
    refine List.filter_congr fun x hx => ?_
    rw [Bool.eq_iff_iff, Bool.and_eq_true, keep_iff (hT x hx), keep_iff (hT x hx)]
    exact ⟨fun h => ⟨h, fun v hv => h.1 v (hD _ hv), fun v hv => h.2 v (hU _ hv)⟩, fun h => h.1⟩
  have hcomm : (T.filter p).filter (keep key D' U') = (T.filter (keep key D' U')).filter p := by
    rw [List.filter_filter, List.filter_filter]
    exact List.filter_congr fun x _ => Bool.and_comm _ _
  unfold collapse
  rw [hkeep, hcomm]
  exact List.filter_sublist.filter p

/-- One commit at `ts` on top of tagged rows: the rows whose key it removes go, its own rows come,
less those it deletes itself. -/
def layer (key : R → K) (ts : Int) (ins : List R) (del upd : List K) (rows : List (Int × R)) :
    List (Int × R) :=
  rows.filter (fun x => decide (key x.2 ∉ del ∧ key x.2 ∉ upd)) ++
    (ins.filter fun r => decide (key r ∉ del)).map fun r => (ts, r)

/-- **One more commit.**  With every tag and tombstone of the logs below `ts`, appending a commit
at `ts` removes the rows whose key it names and adds its rows, less those it deletes itself.  A
soft tombstone spares the rows of its own commit. -/
theorem collapse_snoc {ts : Int} (ins : List R) (del upd : List K)
    (hT : ∀ x ∈ T, 0 ≤ x.1 ∧ x.1 < ts) (hts : 0 ≤ ts)
    (hD : ∀ e ∈ D, e.2 < ts) (hU : ∀ e ∈ U, e.2 < ts) :
    collapse key (T ++ ins.map fun r => (ts, r)) (D ++ del.map fun k => (k, ts))
        (U ++ upd.map fun k => (k, ts)) =
      layer key ts ins del upd (collapse key T D U) := by
  unfold collapse layer
  rw [List.filter_append, List.filter_filter]
  congr 1
  · refine List.filter_congr fun x hx => ?_
    obtain ⟨h0, hlt⟩ := hT x hx
    rw [Bool.eq_iff_iff, keep_iff h0, Bool.and_eq_true, keep_iff h0, decide_eq_true_iff]
    simp only [List.mem_append, List.mem_map, Prod.mk.injEq]
    constructor
    · rintro ⟨hd, hu⟩
      refine ⟨⟨fun hk => ?_, fun hk => ?_⟩, fun v hv => hd v (Or.inl hv),
        fun v hv => hu v (Or.inl hv)⟩
      · have := hd ts (Or.inr ⟨_, hk, rfl, rfl⟩)
        omega
      · have := hu ts (Or.inr ⟨_, hk, rfl, rfl⟩)
        omega
    · rintro ⟨⟨hnd, hnu⟩, hd, hu⟩
      constructor
      · rintro v (hv | ⟨k, hk, rfl, rfl⟩)
        · exact hd v hv
        · exact absurd hk hnd
      · rintro v (hv | ⟨k, hk, rfl, rfl⟩)
        · exact hu v hv
        · exact absurd hk hnu
  · rw [List.filter_map]
    congr 1
    refine List.filter_congr fun r _ => ?_
    rw [Function.comp_apply, Bool.eq_iff_iff, keep_iff hts, decide_eq_true_iff]
    simp only [List.mem_append, List.mem_map, Prod.mk.injEq]
    constructor
    · rintro ⟨hd, -⟩ hk
      have := hd ts (Or.inr ⟨_, hk, rfl, rfl⟩)
      omega
    · intro hk
      constructor
      · rintro v (hv | ⟨k, hk', rfl, rfl⟩)
        · exact hD _ hv
        · exact absurd hk' hk
      · rintro v (hv | ⟨k, hk', rfl, rfl⟩)
        · exact (hU _ hv).le
        · exact le_refl _

/-! ## 3. Reading the logs over their own result -/

/-- Rows without a timestamp of their own. -/
def atZero (base : List R) : List (Int × R) := base.map fun r => (0, r)

theorem atZero_append (l l' : List R) : atZero (l ++ l') = atZero l ++ atZero l' :=
  List.map_append

/-- A tombstone of either kind names the key. -/
def Named (D U : List (K × Int)) (k : K) : Prop := ∃ v, (k, v) ∈ D ∨ (k, v) ∈ U

/-- Under tombstones with positive timestamps, a base row is seen when no tombstone names its key. -/
theorem keep_zero (hD : ∀ e ∈ D, 1 ≤ e.2) (hU : ∀ e ∈ U, 1 ≤ e.2) (r : R) :
    keep key D U (0, r) = true ↔ ¬ Named D U (key r) := by
  rw [keep_iff (le_refl _)]
  constructor
  · rintro ⟨hd, hu⟩ ⟨v, hv | hv⟩
    · have := hd v hv
      have := hD _ hv
      simp only at this
      omega
    · have := hu v hv
      have := hU _ hv
      simp only at this
      omega
  · intro h
    exact ⟨fun v hv => (h ⟨v, Or.inl hv⟩).elim, fun v hv => (h ⟨v, Or.inr hv⟩).elim⟩

/-- **Logs read again over a base that already holds their result change nothing**, provided that
every row they add has a key some tombstone names: such a row in the base is hidden by the
tombstone, and the log adds it back. -/
theorem collapse_refold (base : List R) (hD : ∀ e ∈ D, 1 ≤ e.2) (hU : ∀ e ∈ U, 1 ≤ e.2)
    (habs : ∀ x ∈ collapse key T D U, Named D U (key x.2)) :
    collapse key (atZero ((collapse key (atZero base ++ T) D U).map Prod.snd) ++ T) D U =
      collapse key (atZero base ++ T) D U := by
  have hsplit : ∀ l : List R, collapse key (atZero l ++ T) D U =
      collapse key (atZero l) D U ++ collapse key T D U := fun l => List.filter_append _ _
  have hzero : ∀ l l' : List R, collapse key (atZero (l ++ l')) D U =
      collapse key (atZero l) D U ++ collapse key (atZero l') D U := by
    intro l l'
    unfold collapse atZero
    rw [List.map_append, List.filter_append]
  -- base rows that were seen are seen again, rows of the log are hidden in the base
  have hbase : atZero ((collapse key (atZero base) D U).map Prod.snd) =
      collapse key (atZero base) D U := by
    unfold atZero
    rw [List.map_map]
    refine (List.map_congr_left fun x hx => ?_).trans (List.map_id _)
    obtain ⟨r, -, rfl⟩ := List.mem_map.mp (List.mem_of_mem_filter hx)
    rfl
  have hagain : collapse key (collapse key (atZero base) D U) D U =
      collapse key (atZero base) D U := by
    unfold collapse
    rw [List.filter_filter]
    exact List.filter_congr fun x _ => Bool.and_self _
  have hlog : collapse key (atZero ((collapse key T D U).map Prod.snd)) D U = [] := by
    refine List.filter_eq_nil_iff.mpr fun x hx => ?_
    obtain ⟨r, hr, rfl⟩ := List.mem_map.mp hx
    obtain ⟨y, hy, rfl⟩ := List.mem_map.mp hr
    rw [keep_zero hD hU]
    exact not_not.mpr (habs y hy)
  rw [hsplit, hsplit, List.map_append, hzero, hbase, hagain, hlog, List.append_nil]

/-! ## 4. Other timestamps -/

/-- Other timestamps in place of the old ones. -/
def retag (ρ : Int → Int) (x : Int × R) : Int × R := (ρ x.1, x.2)

/-- Other timestamps on the tombstones. -/
def retomb (ρ : Int → Int) (e : K × Int) : K × Int := (e.1, ρ e.2)

/-- **New timestamps that compare like the old ones show the same rows.** -/
theorem collapse_retag {ρ : Int → Int} (hT : ∀ x ∈ T, 0 ≤ x.1 ∧ 0 ≤ ρ x.1)
    (hD : ∀ x ∈ T, ∀ e ∈ D, ρ e.2 < ρ x.1 ↔ e.2 < x.1)
    (hU : ∀ x ∈ T, ∀ e ∈ U, ρ e.2 ≤ ρ x.1 ↔ e.2 ≤ x.1) :
    collapse key (T.map (retag ρ)) (D.map (retomb ρ)) (U.map (retomb ρ)) =
      (collapse key T D U).map (retag ρ) := by
  unfold collapse
  rw [List.filter_map]
  congr 1
  refine List.filter_congr fun x hx => ?_
  rw [Function.comp_apply, Bool.eq_iff_iff, keep_iff (hT x hx).2, keep_iff (hT x hx).1]
  constructor
  · rintro ⟨h1, h2⟩
    refine ⟨fun v hv => (hD x hx _ hv).mp (h1 _ ?_), fun v hv => (hU x hx _ hv).mp (h2 _ ?_)⟩
    · exact List.mem_map.mpr ⟨_, hv, rfl⟩
    · exact List.mem_map.mpr ⟨_, hv, rfl⟩
  · rintro ⟨h1, h2⟩
    constructor
    · intro v hv
      obtain ⟨e, he, heq⟩ := List.mem_map.mp hv
      obtain ⟨hk, rfl⟩ := Prod.mk.inj heq
      exact (hD x hx e he).mpr (h1 _ (by rw [← show e.1 = key x.2 from hk]; exact he))
    · intro v hv
      obtain ⟨e, he, heq⟩ := List.mem_map.mp hv
      obtain ⟨hk, rfl⟩ := Prod.mk.inj heq
      exact (hU x hx e he).mpr (h2 _ (by rw [← show e.1 = key x.2 from hk]; exact he))
/-- A commit at 0 on a base: a soft tombstone spares the base rows too. -/
theorem collapse_zero (base ins : List R) (del upd : List K) :
    collapse key (atZero base ++ atZero ins) (del.map fun k => (k, 0)) (upd.map fun k => (k, 0)) =
      (atZero base ++ atZero ins).filter fun x => decide (key x.2 ∉ del) := by
  refine List.filter_congr fun x hx => ?_
  have h0 : x.1 = 0 := by
    rw [← atZero_append] at hx
    obtain ⟨r, -, rfl⟩ := List.mem_map.mp hx
    rfl
  rw [Bool.eq_iff_iff, keep_iff (by omega), decide_eq_true_iff]
  simp only [List.mem_map, Prod.mk.injEq, h0]
  constructor
  · rintro ⟨hd, -⟩ hk
    exact absurd (hd 0 ⟨_, hk, rfl, rfl⟩) (lt_irrefl _)
  · intro hk
    constructor
    · rintro v ⟨k, hk', rfl, rfl⟩
      exact absurd hk' hk
    · rintro v ⟨k, -, rfl, rfl⟩
      exact le_refl _

/-- A commit below 0 on a base: its tombstones reach nothing and its own rows are taken for removed
ones. -/
theorem collapse_neg {c : Int} (hc : c < 0) (base ins : List R) (del upd : List K) :
    collapse key (atZero base ++ ins.map fun r => (c, r)) (del.map fun k => (k, c))
      (upd.map fun k => (k, c)) = atZero base := by
  unfold collapse
  rw [List.filter_append]
  have hbase : (atZero base).filter (keep key (del.map fun k => (k, c)) (upd.map fun k => (k, c))) =
      atZero base := by
    refine List.filter_eq_self.mpr fun x hx => ?_
    obtain ⟨r, -, rfl⟩ := List.mem_map.mp hx
    rw [keep_iff (le_refl _)]
    constructor
    · intro v hv
      obtain ⟨k, -, heq⟩ := List.mem_map.mp hv
      cases heq
      exact hc
    · intro v hv
      obtain ⟨k, -, heq⟩ := List.mem_map.mp hv
      cases heq
      exact hc.le
  have hins : (ins.map fun r => (c, r)).filter
      (keep key (del.map fun k => (k, c)) (upd.map fun k => (k, c))) = [] := by
    refine List.filter_eq_nil_iff.mpr fun x hx => ?_
    obtain ⟨r, -, rfl⟩ := List.mem_map.mp hx
    have hle : c ≤ ((groupMax (del.map fun k => (k, c))).get? (key r)).getD (-1) := by
      cases hg : (groupMax (del.map fun k => (k, c))).get? (key r) with
      | none =>
        rw [Option.getD_none]
        omega
      | some m =>
        obtain ⟨k, -, heq⟩ := List.mem_map.mp (groupMax_mem hg)
        cases heq
        exact le_refl _
    simp only [keep, Bool.and_eq_true, decide_eq_true_iff, not_and]
    intro hlt
    omega
  rw [hbase, hins, List.append_nil]

/-! ## 5. Histories -/

/-- One commit on one table: the rows it inserts and the keys it removes. -/
structure Commit (K R : Type) where
  ts : Int
  ins : List R
  del : List K
  upd : List K

/-- Apply a commit to a table: remove the rows whose key it names, then add its rows, less those
it deletes itself. -/
def applyCommit (key : R → K) (rows : List R) (c : Commit K R) : List R :=
  rows.filter (fun r => decide (key r ∉ c.del ∧ key r ∉ c.upd)) ++
    c.ins.filter fun r => decide (key r ∉ c.del)

/-- The tagged rows of a base and a history. -/
def tagged (base : List R) (hist : List (Commit K R)) : List (Int × R) :=
  (base.map fun r => (0, r)) ++ hist.flatMap fun c => c.ins.map fun r => (c.ts, r)

/-- The hard tombstones of a history. -/
def dels (hist : List (Commit K R)) : List (K × Int) :=
  hist.flatMap fun c => c.del.map fun k => (k, c.ts)

/-- The soft tombstones of a history. -/
def upds (hist : List (Commit K R)) : List (K × Int) :=
  hist.flatMap fun c => c.upd.map fun k => (k, c.ts)

/-- Commits in time order, the first not before timestamp 1. -/
def Increasing (hist : List (Commit K R)) : Prop :=
  (hist.map Commit.ts).Pairwise (· < ·) ∧ ∀ c ∈ hist, 1 ≤ c.ts

omit [DecidableEq K] in
theorem tagged_bounds {base : List R} {hist : List (Commit K R)} {ts : Int} (hts : 1 ≤ ts)
    (h : ∀ c ∈ hist, 1 ≤ c.ts ∧ c.ts < ts) : ∀ x ∈ tagged base hist, 0 ≤ x.1 ∧ x.1 < ts := by
  intro x hx
  rw [tagged, List.mem_append, List.mem_map, List.mem_flatMap] at hx
  rcases hx with ⟨r, -, rfl⟩ | ⟨c, hc, hx⟩
  · constructor <;> simp only <;> omega
  · obtain ⟨r, -, rfl⟩ := List.mem_map.mp hx
    have := h c hc
    constructor <;> simp only <;> omega

/-- **Collapsing a history is replaying it.**  Reading the logs of a whole history through the
two maxima gives, row for row, what applying its commits one after another gives. -/
theorem collapse_history (base : List R) (hist : List (Commit K R)) (h : Increasing hist) :
    (collapse key (tagged base hist) (dels hist) (upds hist)).map Prod.snd =
      hist.foldl (applyCommit key) base := by
  induction hist using List.reverseRecOn with
  | nil =>
    have h0 : ∀ x ∈ tagged base ([] : List (Commit K R)), 0 ≤ x.1 := by simp [tagged]
    have he : dels ([] : List (Commit K R)) = [] ∧ upds ([] : List (Commit K R)) = [] :=
      ⟨rfl, rfl⟩
    rw [he.1, he.2, collapse_nil h0]
    simp [tagged, Function.comp_def]
  | append_singleton hist c ih =>
    obtain ⟨hpw, hpos⟩ := h
    rw [List.map_append, List.pairwise_append] at hpw
    have hlt : ∀ d ∈ hist, 1 ≤ d.ts ∧ d.ts < c.ts := fun d hd =>
      ⟨hpos d (by simp [hd]), hpw.2.2 _ (List.mem_map_of_mem hd) _ (by simp)⟩
    have hc : 1 ≤ c.ts := hpos c (by simp)
    have hih := ih ⟨hpw.1, fun d hd => hpos d (by simp [hd])⟩
    have hdel : ∀ e ∈ dels hist, e.2 < c.ts := by
      intro e he
      obtain ⟨d, hd, he⟩ := List.mem_flatMap.mp he
      obtain ⟨k, -, rfl⟩ := List.mem_map.mp he
      exact (hlt d hd).2
    have hupd : ∀ e ∈ upds hist, e.2 < c.ts := by
      intro e he
      obtain ⟨d, hd, he⟩ := List.mem_flatMap.mp he
      obtain ⟨k, -, rfl⟩ := List.mem_map.mp he
      exact (hlt d hd).2
    have hT : tagged base (hist ++ [c]) = tagged base hist ++ c.ins.map fun r => (c.ts, r) := by
      simp [tagged]
    have hD : dels (hist ++ [c]) = dels hist ++ c.del.map fun k => (k, c.ts) := by
      simp [dels]
    have hU : upds (hist ++ [c]) = upds hist ++ c.upd.map fun k => (k, c.ts) := by
      simp [upds]
    rw [hT, hD, hU, collapse_snoc c.ins c.del c.upd (tagged_bounds hc hlt) (by omega) hdel hupd,
      List.foldl_append, ← hih, layer, List.map_append, List.map_map]
    simp only [List.foldl_cons, List.foldl_nil, applyCommit, Function.comp_def, List.map_id']
    congr 1
    rw [List.filter_map]
    rfl

end Versioned
