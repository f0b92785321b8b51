/-
# Where kernel descriptors mean what the expressions mean

* `lowered_faithful`: on a row the tokens of each argument leave exactly its value and the triples hold
  exactly when the predicate does, if and only if no argument reads a time and no comparison with a time
  goes wrong on that row (or others hide it).

The mirrored operators are right on either side, and nested ANDs are their conjuncts.  What goes wrong is
the time: `ts > '1970-01-01'` is false half a second later (`half_second_lost`).

The proof goes by conjuncts.  On a row a conjunct can err in one direction or in the other: `let in`
when the triple holds and the comparison does not, `left out` the other way.  A conjunction hides an
error when another conjunct is false; so the condition is stated for the predicate as a whole, and it
is exact.
-/
import RyuDB.DescriptorTokens

namespace RyuDB.Descriptors

open Fused (Cmp)

/-! ## 1. Comparisons -/

section Comparisons

variable {R : Reader} {ch : Child}

/-- The two tables have the same comparisons, and the kernel tests what the comparison says, on either
side. -/
theorem comparison_of_opCode {op : String} {k : Nat} (h : opCode op = some k) :
    ∃ c, comparison op = some c ∧ (∀ a b, opTest k a b = c.test a b) ∧
      ∀ a b, opTest (mirrorCode k) a b = c.mirror.test a b := by
  unfold opCode at h
  split at h
  · cases h
    exact ⟨.eq, rfl, fun _ _ => rfl, fun _ _ => rfl⟩
  · cases h
    exact ⟨.ne, rfl, fun _ _ => rfl, fun _ _ => rfl⟩
  · cases h
    exact ⟨.lt, rfl, fun _ _ => rfl, fun _ _ => rfl⟩
  · cases h
    exact ⟨.le, rfl, fun _ _ => rfl, fun _ _ => rfl⟩
  · cases h
    exact ⟨.gt, rfl, fun _ _ => rfl, fun _ _ => rfl⟩
  · cases h
    exact ⟨.ge, rfl, fun _ _ => rfl, fun _ _ => rfl⟩
  · cases h

/-- A triple that stands for a conjunct: the array of its column, and a test for its operator. -/
def Lowers (R : Reader) (ch : Child) (cols : List (Nat → ℚ)) (e : Expr) (t : Triple) : Prop :=
  ∃ c n tb v col a, e.sides = some (c, n, tb, v) ∧ ch.get? n = some col ∧ col.array R = some a ∧
    cols[t.1]? = some a ∧ litBeside R col v = some t.2.2 ∧ ∀ x y, opTest t.2.1 x y = c.test x y

theorem Lowers.mono {cols cols' : List (Nat → ℚ)} {e : Expr} {t : Triple} (hpre : cols <+: cols')
    (h : Lowers R ch cols e t) : Lowers R ch cols' e t := by
  obtain ⟨c, n, tb, v, col, a, hs, hcol, ha, hj, hrest⟩ := h
  exact ⟨c, n, tb, v, col, a, hs, hcol, ha, getElem?_later hpre hj, hrest⟩

theorem flattenCmp_spec {code : Nat} {name : String} {v : PyValue} {B B' : Bindings R ch}
    {ts : List Triple} {c : Cmp} {tb : Option String} {e : Expr}
    (h : flattenCmp R code name v B = some (some ts, B')) (hs : e.sides = some (c, name, tb, v))
    (ht : ∀ x y, opTest code x y = c.test x y) :
    B.cols <+: B'.cols ∧ List.Forall₂ (Lowers R ch B'.cols) [e] ts := by
  obtain ⟨⟨j, B1⟩, hj, h⟩ := Option.bind_eq_some_iff.mp h
  obtain ⟨col, hcol, h⟩ := Option.bind_eq_some_iff.mp h
  obtain ⟨q, hq, h⟩ := Option.bind_eq_some_iff.mp h
  cases h
  obtain ⟨hpre, col', a, hcol', ha, hget⟩ := bindNamed_spec hj
  cases hcol.symm.trans hcol'
  exact ⟨hpre, .cons ⟨c, name, tb, v, col, a, hs, hcol, ha, hget, hq, ht⟩ .nil⟩

/-- **The triples of a predicate** stand for its conjuncts, one for each. -/
theorem flattenAndPred_spec {e : Expr} {B B' : Bindings R ch} {ts : List Triple}
    (h : flattenAndPred R e B = some (some ts, B')) : B.cols <+: B'.cols ∧
      List.Forall₂ (Lowers R ch B'.cols) e.conjuncts ts := by
  induction e generalizing B B' ts with
  | and l r ihl ihr =>
    obtain ⟨⟨left, B1⟩, hl, h⟩ := Option.bind_eq_some_iff.mp h
    obtain ⟨⟨right, B2⟩, hr, h⟩ := Option.bind_eq_some_iff.mp h
    cases left with
    | none => cases h
    | some ls =>
      cases right with
      | none => cases h
      | some rs =>
        cases h
        obtain ⟨hpre1, hall1⟩ := ihl hl
        obtain ⟨hpre2, hall2⟩ := ihr hr
        exact ⟨hpre1.trans hpre2,
          List.rel_append (hall1.imp fun _ _ hx => hx.mono hpre2) hall2⟩
  | binOp op l r =>
    unfold flattenAndPred at h
    split at h
    · rename_i heq
      cases heq
    · rename_i op' n tb v heq
      cases heq
      split at h
      · cases h
      · rename_i code hcode
        obtain ⟨c, hc, htest, -⟩ := comparison_of_opCode hcode
        exact flattenCmp_spec h (by rw [Expr.sides, hc]; rfl) htest
    · rename_i op' v n tb heq
      cases heq
      split at h
      · cases h
      · rename_i code hcode
        obtain ⟨c, hc, -, htest⟩ := comparison_of_opCode hcode
        exact flattenCmp_spec h (by rw [Expr.sides, hc]; rfl) htest
    · cases h
  | col name table => cases h
  | lit v => cases h
  | or l r => cases h
  | other => cases h

/-- What `pass_pred` finds for a conjunct. -/
def Expr.passes (R : Reader) (ch : Child) (i : Nat) (e : Expr) : Prop :=
  ∃ c n t v col a q, e.sides = some (c, n, t, v) ∧ ch.get? n = some col ∧ col.array R = some a ∧
    litBeside R col v = some q ∧ c.test (a i) q = true

theorem passes_of_lowers {cols : List (Nat → ℚ)} {e : Expr} {t : Triple} (i : Nat)
    (h : Lowers R ch cols e t) :
    opTest t.2.1 (colVal cols i t.1) t.2.2 = true ↔ e.passes R ch i := by
  obtain ⟨c, n, tb, v, col, a, hs, hcol, ha, hget, hlit, htest⟩ := h
  rw [htest, colVal_later i List.prefix_rfl hget]
  constructor
  · intro hc
    exact ⟨c, n, tb, v, col, a, _, hs, hcol, ha, hlit, hc⟩
  · rintro ⟨c', n', tb', v', col', a', q', hs', hcol', ha', hlit', hc⟩
    cases hs.symm.trans hs'
    cases hcol.symm.trans hcol'
    cases ha.symm.trans ha'
    cases hlit.symm.trans hlit'
    exact hc

/-- `pass_pred` holds when every conjunct passes. -/
theorem passPred_iff {cols : List (Nat → ℚ)} {es : List Expr} {ts : List Triple} (i : Nat)
    (h : List.Forall₂ (Lowers R ch cols) es ts) :
    passPred cols i ts = true ↔ ∀ e ∈ es, e.passes R ch i := by
  induction h with
  | nil => simp [passPred]
  | cons hx _ ih =>
    rw [passPred, List.all_cons, Bool.and_eq_true, passes_of_lowers i hx, List.forall_mem_cons]
    exact and_congr_right fun _ => ih

/-- A conjunction is true when its conjuncts are. -/
theorem holds_conjuncts (R : Reader) (ch : Child) (i : Nat) (e : Expr) :
    e.holds R ch i = some true ↔ ∀ x ∈ e.conjuncts, x.holds R ch i = some true := by
  induction e with
  | and l r ihl ihr =>
    rw [Expr.holds, Kleene.and_eq_true, ihl, ihr, Expr.conjuncts, List.forall_mem_append]
  | _ => simp [Expr.conjuncts]

/-- A comparison with a literal, read with the column on the left. -/
theorem holds_sides {e : Expr} {c : Cmp} {n : String} {tb : Option String} {v : PyValue}
    {col : Column} {o : Operand} (i : Nat) (hs : e.sides = some (c, n, tb, v)) (hb : e.bare ch)
    (hc : ch.get? n = some col) (ho : col.operand i = some o) :
    e.holds R ch i = compare R c o (.literal v) := by
  unfold Expr.sides at hs
  split at hs
  · obtain ⟨c', hc', heq⟩ := Option.map_eq_some_iff.mp hs
    cases heq
    simp only [Expr.holds, hc', Expr.operand, ref_of_bare i hb.1 hc, ho, Option.bind_some]
  · obtain ⟨c', hc', heq⟩ := Option.map_eq_some_iff.mp hs
    cases heq
    simp only [Expr.holds, hc', Expr.operand, ref_of_bare i hb.2 hc, ho, Option.bind_some]
    cases col with
    | numeric value =>
      cases ho
      cases hv : v.num? R <;> simp [compare, Operand.num?, hv, Fused.test_mirror]
    | datetime time =>
      cases ho
      simp only [compare, Fused.test_mirror]
    | text => cases ho
  · cases hs

end Comparisons

/-! ## 2. Whole seconds -/

/-- A comparison looks at the order of its sides only. -/
theorem test_congr {a b a' b' : ℚ} (hlt : a < b ↔ a' < b') (hgt : b < a ↔ b' < a') (c : Cmp) :
    c.test a b = c.test a' b' := by
  have heq : a = b ↔ a' = b' := by
    rw [eq_iff_le_not_lt, eq_iff_le_not_lt, ← not_lt, ← not_lt, hlt, hgt]
  cases c with
  | eq => exact decide_eq_decide.mpr heq
  | ne => exact decide_eq_decide.mpr (not_congr heq)
  | lt => exact decide_eq_decide.mpr hlt
  | le => exact decide_eq_decide.mpr (by rw [← not_lt, ← not_lt, hgt])
  | gt => exact decide_eq_decide.mpr hgt
  | ge => exact decide_eq_decide.mpr (by rw [← not_lt, ← not_lt, hlt])

theorem lt_of_floor_lt {t q : ℚ} (h : ⌊t⌋ < ⌊q⌋) : t < q :=
  lt_of_not_ge fun hle => absurd (Int.floor_mono hle) (not_le.mpr h)

/-- **Two instants cut to whole seconds** compare as before, unless they are of one second. -/
theorem test_floor (c : Cmp) (t q : ℚ) :
    c.test ⌊t⌋ ⌊q⌋ = true ↔
      c.test t q = true ∧
        ¬ (⌊t⌋ = ⌊q⌋ ∧ (t < q ∧ (c = .ne ∨ c = .lt) ∨ q < t ∧ (c = .ne ∨ c = .gt))) ∨
      ⌊t⌋ = ⌊q⌋ ∧ (t < q ∧ (c = .eq ∨ c = .ge) ∨ q < t ∧ (c = .eq ∨ c = .le)) := by
  by_cases hsame : ⌊t⌋ = ⌊q⌋
  · rcases lt_trichotomy t q with hlt | rfl | hgt
    · have hne := hlt.ne
      have hle := hlt.le
      cases c <;> simp [Cmp.test, hsame, hlt, hne, hle, hlt.not_gt, hlt.not_ge]
    · cases c <;> simp [Cmp.test]
    · have hne := hgt.ne'
      have hle := hgt.le
      cases c <;> simp [Cmp.test, hsame, hgt, hne, hle, hgt.not_gt, hgt.not_ge]
  · have hcongr : c.test ⌊t⌋ ⌊q⌋ = c.test t q := by
      refine test_congr ?_ ?_ c
      · rw [Int.cast_lt]
        refine ⟨lt_of_floor_lt, fun h => lt_of_le_of_ne (Int.floor_mono h.le) hsame⟩
      · rw [Int.cast_lt]
        refine ⟨lt_of_floor_lt, fun h => lt_of_le_of_ne (Int.floor_mono h.le) (Ne.symm hsame)⟩
    simp [hcongr, hsame]

/-- A time against `NaT`. -/
theorem test_nat64 (c : Cmp) (t : Instant) :
    c.test ⌊t.seconds⌋ nat64 = true ↔ c = .ne ∨ c = .gt ∨ c = .ge := by
  have hfloor : (-(2 ^ 63) + 1 : Int) ≤ ⌊t.seconds⌋ := Int.le_floor.mpr (by exact_mod_cast t.least)
  have hlt : ((nat64 : Int) : ℚ) < ⌊t.seconds⌋ := by
    rw [Int.cast_lt, nat64]
    omega
  cases c <;> simp [Cmp.test, hlt, hlt.le, hlt.ne', hlt.not_gt, hlt.not_ge]

section Times

variable {R : Reader}

/-- **A comparison with a time** passes when it is true and not wrongly left out, or is wrongly let
in. -/
theorem test_litSeconds (hR : R.Lawful) {c : Cmp} {t : Instant} {v : PyValue} {k : Int}
    (h : litSeconds R v = some k) :
    c.test (R.toSeconds t.seconds) k = true ↔
      compare R c (.instant t.seconds) (.literal v) = some true ∧
        ¬ leavesOut R c t.seconds v ∨ letsIn R c t.seconds v := by
  rw [hR.toSeconds]
  cases v with
  | none =>
    cases h
    simp [test_nat64, compare, PyValue.instant?, letsIn]
  | bool b =>
    cases h
    simp [compare, PyValue.instant?, letsIn]
  | int n =>
    rw [litSeconds] at h
    split at h
    · cases h
      simp [compare, PyValue.instant?, letsIn]
    · cases h
  | str s =>
    obtain ⟨o, ho, rfl⟩ := Option.map_eq_some_iff.mp h
    cases o with
    | none => simp [test_nat64, compare, PyValue.instant?, letsIn, ho]
    | some q =>
      have hfloor := test_floor c t.seconds q
      simpa [compare, PyValue.instant?, letsIn, leavesOut, ho, hR.literalSeconds] using hfloor

/-- What is wrongly let in is not true. -/
theorem compare_of_letsIn {c : Cmp} {t : ℚ} {v : PyValue} (h : letsIn R c t v) :
    compare R c (.instant t) (.literal v) ≠ some true := by
  cases v with
  | str s =>
    rw [letsIn] at h
    split at h
    · rename_i q hq
      obtain ⟨-, ⟨hlt, rfl | rfl⟩ | ⟨hgt, rfl | rfl⟩⟩ := h
      · simp [compare, PyValue.instant?, hq, Cmp.test, hlt.ne]
      · simp [compare, PyValue.instant?, hq, Cmp.test, hlt]
      · simp [compare, PyValue.instant?, hq, Cmp.test, hgt.ne']
      · simp [compare, PyValue.instant?, hq, Cmp.test, hgt]
    · rename_i hq
      simp [compare, PyValue.instant?, hq]
    · cases h
  | _ => simp [compare, PyValue.instant?]

/-- What is wrongly left out is true. -/
theorem compare_of_leavesOut {c : Cmp} {t : ℚ} {v : PyValue} (h : leavesOut R c t v) :
    compare R c (.instant t) (.literal v) = some true := by
  cases v with
  | str s =>
    rw [leavesOut] at h
    split at h
    · rename_i q hq
      obtain ⟨-, ⟨hlt, rfl | rfl⟩ | ⟨hgt, rfl | rfl⟩⟩ := h
      · simp [compare, PyValue.instant?, hq, Cmp.test, hlt.ne]
      · simp [compare, PyValue.instant?, hq, Cmp.test, hlt]
      · simp [compare, PyValue.instant?, hq, Cmp.test, hgt.ne']
      · simp [compare, PyValue.instant?, hq, Cmp.test, hgt]
    · cases h
  | none => cases h
  | bool b => cases h
  | int n => cases h

end Times

/-! ## 3. Predicates -/

section Predicates

variable {R : Reader} {ch : Child}

theorem slips_iff {slip : Cmp → ℚ → PyValue → Prop} {e : Expr} {i : Nat} {c : Cmp} {n : String}
    {t : Option String} {v : PyValue} {time : Nat → Instant} (hs : e.sides = some (c, n, t, v))
    (hc : ch.get? n = some (.datetime time)) :
    e.slips ch i slip ↔ slip c (time i).seconds v := by
  constructor
  · rintro ⟨c', n', t', v', time', hs', hc', h⟩
    cases hs.symm.trans hs'
    cases hc.symm.trans hc'
    exact h
  · intro h
    exact ⟨c, n, t, v, time, hs, hc, h⟩

theorem not_slips {slip : Cmp → ℚ → PyValue → Prop} {e : Expr} {i : Nat} {c : Cmp} {n : String}
    {t : Option String} {v : PyValue} {value : Nat → ℚ} (hs : e.sides = some (c, n, t, v))
    (hc : ch.get? n = some (.numeric value)) : ¬ e.slips ch i slip := by
  rintro ⟨c', n', t', v', time', hs', hc', -⟩
  cases hs.symm.trans hs'
  cases hc.symm.trans hc'

/-- **A conjunct** passes when it is true and not wrongly left out, or is wrongly let in. -/
theorem passes_iff (hR : R.Lawful) {cols : List (Nat → ℚ)} {e : Expr} {x : Triple} (i : Nat)
    (hb : e.bare ch) (h : Lowers R ch cols e x) :
    (e.passes R ch i ↔ e.holds R ch i = some true ∧ ¬ e.wronglyFalse R ch i ∨
        e.wronglyTrue R ch i) ∧
      (e.wronglyTrue R ch i → e.holds R ch i ≠ some true) ∧
      (e.wronglyFalse R ch i → e.holds R ch i = some true) := by
  obtain ⟨c, n, tb, v, col, a, hs, hc, ha, -, hlit, -⟩ := h
  have hpass : e.passes R ch i ↔ c.test (a i) x.2.2 = true := by
    constructor
    · rintro ⟨c', n', tb', v', col', a', q', hs', hcol', ha', hlit', htest⟩
      cases hs.symm.trans hs'
      cases hc.symm.trans hcol'
      cases ha.symm.trans ha'
      cases hlit.symm.trans hlit'
      exact htest
    · intro htest
      exact ⟨c, n, tb, v, col, a, _, hs, hc, ha, hlit, htest⟩
  cases col with
  | text => cases ha
  | numeric value =>
    cases ha
    have hv : v.num? R = some x.2.2 := by
      rw [← litToDouble_eq]
      exact hlit
    have hholds : e.holds R ch i = some (c.test (a i) x.2.2) := by
      rw [holds_sides i hs hb hc rfl]
      simp [compare, Operand.num?, hv]
    have hin : ¬ e.wronglyTrue R ch i := not_slips hs hc
    have hout : ¬ e.wronglyFalse R ch i := not_slips hs hc
    refine ⟨?_, fun h => absurd h hin, fun h => absurd h hout⟩
    rw [hpass, hholds, Option.some_inj]
    simp [hin, hout]
  | datetime time =>
    cases ha
    obtain ⟨k, hk, hq⟩ := Option.map_eq_some_iff.mp hlit
    have hholds : e.holds R ch i = compare R c (.instant (time i).seconds) (.literal v) :=
      holds_sides i hs hb hc rfl
    have hin : e.wronglyTrue R ch i ↔ letsIn R c (time i).seconds v := slips_iff hs hc
    have hout : e.wronglyFalse R ch i ↔ leavesOut R c (time i).seconds v := slips_iff hs hc
    rw [hpass, hholds, hin, hout, ← hq]
    exact ⟨test_litSeconds hR hk, compare_of_letsIn, compare_of_leavesOut⟩

/-- Where each conjunct may err in one direction, the conjunctions agree when none errs, or one that
does not is false, or some err in either direction. -/
theorem forall_iff_forall {α : Type} {l : List α} {P H T F : α → Prop}
    (hP : ∀ x ∈ l, P x ↔ H x ∧ ¬ F x ∨ T x) (hT : ∀ x ∈ l, T x → ¬ H x) (hF : ∀ x ∈ l, F x → H x) :
    ((∀ x ∈ l, P x) ↔ ∀ x ∈ l, H x) ↔
      (∀ x ∈ l, ¬ T x ∧ ¬ F x) ∨ (∃ x ∈ l, ¬ T x ∧ ¬ H x) ∨
        (∃ x ∈ l, T x) ∧ ∃ x ∈ l, F x := by
  constructor
  · intro h
    by_contra hno
    push Not at hno
    obtain ⟨⟨x, hx, hslip⟩, hclean, hboth⟩ := hno
    by_cases hsome : ∃ y ∈ l, T y
    · -- every conjunct passes: a false one is let in, and none is left out
      obtain ⟨y, hy, hTy⟩ := hsome
      have hall : ∀ z ∈ l, P z := by
        intro z hz
        rw [hP z hz]
        by_cases hTz : T z
        · exact Or.inr hTz
        · exact Or.inl ⟨hclean z hz hTz, hboth ⟨y, hy, hTy⟩ z hz⟩
      exact hT y hy hTy (h.mp hall y hy)
    · -- every conjunct is true, and one is left out
      push Not at hsome
      have hall : ∀ z ∈ l, H z := fun z hz => hclean z hz (hsome z hz)
      have hPx := h.mpr hall x hx
      rw [hP x hx] at hPx
      rcases hPx with ⟨-, hnF⟩ | hTx
      · exact hnF (hslip (hsome x hx))
      · exact hsome x hx hTx
  · rintro (hclean | ⟨x, hx, hnT, hnH⟩ | ⟨⟨x, hx, hTx⟩, y, hy, hFy⟩)
    · refine forall₂_congr fun x hx => ?_
      rw [hP x hx]
      simp [hclean x hx]
    · constructor
      · intro hall
        rcases (hP x hx).mp (hall x hx) with ⟨hH, -⟩ | hTx
        · exact absurd hH hnH
        · exact absurd hTx hnT
      · intro hall
        exact absurd (hall x hx) hnH
    · constructor
      · intro hall
        rcases (hP y hy).mp (hall y hy) with ⟨-, hnF⟩ | hTy
        · exact absurd hFy hnF
        · exact absurd (hF y hy hFy) (hT y hy hTy)
      · intro hall
        exact absurd (hall x hx) (hT x hx hTx)

theorem exists_lowers {cols : List (Nat → ℚ)} {es : List Expr} {ts : List Triple}
    (h : List.Forall₂ (Lowers R ch cols) es ts) {e : Expr} (he : e ∈ es) :
    ∃ x, Lowers R ch cols e x := by
  induction h with
  | nil => cases he
  | cons hx _ ih =>
    rcases List.mem_cons.mp he with rfl | he
    · exact ⟨_, hx⟩
    · exact ih he

theorem bare_conjuncts {e : Expr} (h : e.bare ch) : ∀ x ∈ e.conjuncts, x.bare ch := by
  induction e with
  | and l r ihl ihr =>
    intro x hx
    rcases List.mem_append.mp hx with hx | hx
    · exact ihl h.1 x hx
    · exact ihr h.2 x hx
  | _ =>
    intro x hx
    obtain rfl := List.mem_singleton.mp hx
    exact h

/-- **The triples of a predicate** agree with it on a row exactly when it is clear there. -/
theorem passPred_holds (hR : R.Lawful) {cols : List (Nat → ℚ)} {pred : Expr} {ts : List Triple}
    (i : Nat) (hb : pred.bare ch) (h : List.Forall₂ (Lowers R ch cols) pred.conjuncts ts) :
    (passPred cols i ts = true ↔ pred.holds R ch i = some true) ↔ pred.clear R ch i := by
  rw [passPred_iff i h, holds_conjuncts]
  have hpass : ∀ e ∈ pred.conjuncts, ∃ x, Lowers R ch cols e x ∧ e.bare ch := fun e he =>
    (exists_lowers h he).imp fun _ hx => ⟨hx, bare_conjuncts hb e he⟩
  refine forall_iff_forall (fun e he => ?_) (fun e he => ?_) fun e he => ?_
  · obtain ⟨x, hx, hbare⟩ := hpass e he
    exact (passes_iff hR i hbare hx).1
  · obtain ⟨x, hx, hbare⟩ := hpass e he
    exact (passes_iff hR i hbare hx).2.1
  · obtain ⟨x, hx, hbare⟩ := hpass e he
    exact (passes_iff hR i hbare hx).2.2

end Predicates

/-! ## 4. `_run_cpp` -/

section RunCpp

variable {R : Reader} {ch : Child}

/-- At row `i` the slot of every argument leaves exactly one value, that of the argument, and the
triples hold exactly when the predicate does. -/
structure Faithful (R : Reader) (pred : Expr) (aggs : List Agg) (triples : List Triple)
    (L : Lowered R ch) (i : Nat) : Prop where
  args : ∀ (j : Nat) (a : Agg) (e : Expr), aggs[j]? = some a → a.arg = some e →
    ∃ s v, L.slots[j]? = some s ∧ L.evalAgg i s = some [v] ∧ e.num R ch i = some v
  pred : passPred L.bindings.cols i triples = true ↔ pred.holds R ch i = some true

/-- What `_run_cpp` has lowered: a program for each argument, triples for the conjuncts. -/
theorem lower_spec {keys : List (Nat → ℚ)} {pred : Expr} {aggs : List Agg} {triples : List Triple}
    {L : Lowered R ch} (h : lower R keys pred aggs = some (some (triples, L))) :
    List.Forall₂ (Lowers R ch L.bindings.cols) pred.conjuncts triples ∧
      ∃ slots rest, L.slots = slots ++ rest ∧ List.Forall₂ (Carries R L) aggs slots := by
  obtain ⟨⟨ts, B⟩, hts, h⟩ := Option.bind_eq_some_iff.mp h
  cases ts with
  | none => cases h
  | some ts =>
    obtain ⟨L', hL, h⟩ := Option.bind_eq_some_iff.mp h
    cases h
    obtain ⟨-, hall⟩ := flattenAndPred_spec hts
    obtain ⟨hpre, hslots⟩ := lowerAggs_spec hL
    exact ⟨hall.imp fun _ _ hx => hx.mono hpre, hslots⟩

/-- The slot of an aggregate. -/
theorem slot_of_agg {L : Lowered R ch} {aggs : List Agg} {slots rest : List Slot}
    (hslots : L.slots = slots ++ rest) (h : List.Forall₂ (Carries R L) aggs slots) {j : Nat} {a : Agg}
    (ha : aggs[j]? = some a) : ∃ s, L.slots[j]? = some s ∧ Carries R L a s := by
  obtain ⟨hlt, rfl⟩ := List.getElem?_eq_some_iff.mp ha
  have hlt' : j < slots.length := h.length_eq ▸ hlt
  refine ⟨slots[j], ?_, h.get hlt hlt'⟩
  rw [hslots, List.getElem?_append_left hlt', List.getElem?_eq_getElem hlt']

/-- **Kernel descriptors and expressions.**  They agree on a row exactly when every argument reads
numeric columns only and the predicate is clear on that row.  References are `bare`, by the name of a
column without its alias: what an alias means is not the lowering's concern.  `Lawful` is what cuDF
documents of the cast of a time to seconds, and Python of the conversion of a literal: both round
down. -/
theorem lowered_faithful (hR : R.Lawful) {keys : List (Nat → ℚ)} {pred : Expr} {aggs : List Agg}
    {triples : List Triple} {L : Lowered R ch}
    (h : lower R keys pred aggs = some (some (triples, L))) (hpred : pred.bare ch)
    (haggs : ∀ a ∈ aggs, ∀ e, a.arg = some e → e.bare ch) (i : Nat) :
    Faithful R pred aggs triples L i ↔
      (∀ a ∈ aggs, ∀ e, a.arg = some e → e.numeric ch) ∧ pred.clear R ch i := by
  obtain ⟨hall, slots, rest, hslots, hcarries⟩ := lower_spec h
  have hclear := passPred_holds hR i hpred hall
  constructor
  · rintro ⟨hargs, hp⟩
    refine ⟨fun a ha e he => ?_, hclear.mp hp⟩
    obtain ⟨j, hj⟩ := List.mem_iff_getElem?.mp ha
    obtain ⟨s, v, -, -, hv⟩ := hargs j a e hj he
    exact numeric_of_num (haggs a ha e he) hv
  · rintro ⟨hnumeric, hp⟩
    refine ⟨fun j a e hj he => ?_, hclear.mpr hp⟩
    have ha : a ∈ aggs := List.mem_of_getElem? hj
    obtain ⟨s, hs, hc⟩ := slot_of_agg hslots hcarries hj
    obtain ⟨v, hv, -, hnum⟩ := hc.evalAgg he i
    exact ⟨s, v, hs, hv, hnum (haggs a ha e he) (hnumeric a ha e he)⟩

/-- A reader that knows one number and one instant. -/
def smallReader : Reader where
  number s := if s = "2" then some 2 else none
  instant s := if s = "1970-01-01" then some (some 0) else none
  toSeconds := Int.floor
  literalSeconds := Int.floor

theorem smallReader_lawful : smallReader.Lawful where
  toSeconds _ := rfl
  literalSeconds _ := rfl

/-- One row: `x` is 3 and `ts` is half a second past the epoch. -/
def halfPast : Child where
  entries := [("x", .numeric fun _ => 3), ("ts", .datetime fun _ => ⟨1 / 2, by norm_num⟩)]
  nodup := by decide

/-- `2 < x AND x != 2`. -/
def overTwo : Expr :=
  .and (.binOp "<" (.lit (.str "2")) (.col "x" none)) (.binOp "!=" (.col "x" none) (.lit (.str "2")))

/-- `SUM(x * 2 - x)`. -/
def sumOfX : Agg where
  func := "SUM"
  arg := some (.binOp "-" (.binOp "*" (.col "x" none) (.lit (.str "2"))) (.col "x" none))

theorem lowered_faithful_overTwo : ∃ triples, ∃ L : Lowered smallReader halfPast,
    lower smallReader [] overTwo [sumOfX] = some (some (triples, L)) ∧
      Faithful smallReader overTwo [sumOfX] triples L 0 := by
  have hx : halfPast.get? "x" = some (.numeric fun _ => 3) := rfl
  obtain ⟨triples, L, h⟩ : ∃ triples, ∃ L : Lowered smallReader halfPast,
      lower smallReader [] overTwo [sumOfX] = some (some (triples, L)) := ⟨_, _, rfl⟩
  have hbare : overTwo.bare halfPast := ⟨⟨trivial, trivial⟩, trivial, trivial⟩
  refine ⟨triples, L, h, (lowered_faithful smallReader_lawful h hbare ?_ 0).mpr ⟨?_, ?_⟩⟩
  · intro a ha e he
    obtain rfl := List.mem_singleton.mp ha
    cases he
    exact ⟨⟨trivial, trivial⟩, trivial⟩
  · intro a ha e he n hn
    obtain rfl := List.mem_singleton.mp ha
    cases he
    have hname : n = "x" := by simpa [Expr.columns] using hn
    exact ⟨_, hname ▸ hx⟩
  · refine Or.inl fun e he => ?_
    simp only [overTwo, Expr.conjuncts, List.mem_append, List.mem_singleton] at he
    rcases he with rfl | rfl
    · exact ⟨not_slips rfl hx, not_slips rfl hx⟩
    · exact ⟨not_slips rfl hx, not_slips rfl hx⟩

/-- `ts > '1970-01-01'`. -/
def pastEpoch : Expr := .binOp ">" (.col "ts" none) (.lit (.str "1970-01-01"))

/-- **Half a second is lost.**  The predicate is true and its triple is not. -/
theorem half_second_lost : ∃ triples, ∃ L : Lowered smallReader halfPast,
    lower smallReader [] pastEpoch [⟨"COUNT", none⟩] = some (some (triples, L)) ∧
      pastEpoch.holds smallReader halfPast 0 = some true ∧
      passPred L.bindings.cols 0 triples = false := by
  refine ⟨_, _, rfl, ?_, ?_⟩
  · change some (decide ((0 : ℚ) < 1 / 2)) = some true
    norm_num
  · change (decide (((⌊(1 / 2 : ℚ)⌋ : Int) : ℚ) > ((⌊(0 : ℚ)⌋ : Int) : ℚ)) && true) = false
    norm_num

/-- **The kernel's stack** of eight places holds exactly the arguments of depth up to eight; a deeper
one writes behind it. -/
theorem eightPlaces {keys : List (Nat → ℚ)} {pred : Expr} {aggs : List Agg}
    {triples : List Triple} {L : Lowered R ch}
    (h : lower R keys pred aggs = some (some (triples, L))) {j : Nat} {a : Agg} {e : Expr}
    (ha : aggs[j]? = some a) (he : a.arg = some e) (i : Nat) :
    ∃ s, L.slots[j]? = some s ∧
      L.evalAggEight i s = if e.depth ≤ 8 then L.evalAgg i s else none := by
  obtain ⟨-, slots, rest, hslots, hcarries⟩ := lower_spec h
  obtain ⟨s, hs, hc⟩ := slot_of_agg hslots hcarries ha
  obtain ⟨v, hv, height, -⟩ := hc.evalAgg he i
  exact ⟨s, hs, by rw [height, hv]⟩

end RunCpp

end RyuDB.Descriptors
