/-
# Where the fused aggregate is the plain one

`fused_agrees`: on a safe input, whenever `fused_aggregate` returns a frame, its rows are those of
filtering with three-valued logic and grouping, in some order.  Safe says of the C++ backend that the
columns it loads have no NULL and are eight bytes wide, and of both that times are whole seconds, that
the codes are those of this frame, and that the product of the key counts is a 64-bit number; of the
Numba backend, that no group has all its accumulators zero.  None of these is tested by `_match`
(`null_summed_group_lost`).

Why eight bytes: the kernel is given the address of a column and reads `n` numbers of eight bytes from
it, whatever the dtype says.  A column of four bytes is then read two rows at a time, and past its end.

Literals are numbers, instants and NULL.  A string literal beside a numeric column has no form: the test
of the predicate lets it through, `_lit_to_double` makes a number of it if it can, and where it cannot the
kernel path raises; what the cuDF path makes of a number and a string is not read off anything here.
-/
import Mathlib
import RyuDB.GroupCodes

namespace RyuDB.Fused

/-! ## 1. Safe inputs

Each clause of `Safe` stands for a test that is not made.  `bare` is about names: a reference with an
alias may mean a column with the alias in front.  `wholeSeconds` is about the cut of times to seconds,
`wide` about the width of a load, and `CodesOk` about the cache of codes and the product of their
sizes. -/

/-- A reference means the column of its own name. -/
def Scalar.bare (ch : Child) : Scalar → Prop
  | .col n (some t) => Sql.qualified t n ∉ ch.columns.keys
  | .bin _ l r => l.bare ch ∧ r.bare ch
  | _ => True

/-- A time is compared with an instant of a whole second. -/
def Lit.timed (c : Column) (v : Lit) : Prop :=
  ∀ u, c.dtype = .datetime u → ∃ k : Int, v = .instant k

/-- The comparisons of a predicate are on bare columns and with whole seconds. -/
def Pred.clear (ch : Child) : Pred → Prop
  | .and l r => l.clear ch ∧ r.clear ch
  | .or l r => l.clear ch ∧ r.clear ch
  | .cmp _ (.col n t) (.lit v) =>
    (Scalar.col n t).bare ch ∧ ∀ c, ch.columns.get? n = some c → v.timed c
  | .cmp _ (.lit v) (.col n t) =>
    (Scalar.col n t).bare ch ∧ ∀ c, ch.columns.get? n = some c → v.timed c
  | _ => True

/-- The times of a column are whole seconds. -/
def Column.wholeSeconds (c : Column) (n : Nat) : Prop :=
  ∀ u, c.dtype = .datetime u → ∀ i < n, (u.perSecond : Int) ∣ c.ticks i

/-- A load of eight bytes is the value of the row. -/
def Column.wide (c : Column) (n : Nat) : Prop :=
  match c.dtype with
  | .int k => k = 8
  | .uint k => k = 8 ∧ ∀ i < n, load c.mem (8 * i) 8 < 2 ^ 63
  | .float k => k = 8
  | _ => True

/-- The columns of the group keys. -/
def Node.keyColumns (ch : Child) (node : Node) : List (String × Column) :=
  node.keys.filterMap (Scalar.keyColumn ch)

/-- The codes are those of this frame, and their number is a 64-bit integer. -/
structure CodesOk (D : Device) (E : CodeCache) (ch : Child) (node : Node) : Prop where
  coherent : ∀ x ∈ node.keyColumns ch, getCodes D E ch node.table x.1 x.2 = factorize D ch x.2
  small : (sizes ((node.keyColumns ch).map fun x => factorize D ch x.2)).prod < 2 ^ 63

/-- What both backends need. -/
structure Clear (ch : Child) (node : Node) (p : Pred) : Prop where
  keys : ∀ k ∈ node.keys, k.bare ch
  args : ∀ a ∈ node.aggs, ∀ e, a.arg = some e → e.bare ch
  pred : p.clear ch
  seconds : ∀ n ∈ node.colsUsed p, ∀ c, ch.columns.get? n = some c → c.wholeSeconds ch.length

/-- What the C++ backend needs. -/
structure SafeCpp (D : Device) (E : CodeCache) (ch : Child) (node : Node) (p : Pred) : Prop where
  wide : ∀ n ∈ node.colsUsed p, ∀ c, ch.columns.get? n = some c →
    ch.hasNull c = false ∧ c.wide ch.length
  key : ∀ c, node.singleKey ch = some c → c.wide ch.length ∧ c.wholeSeconds ch.length
  codes : node.singleKey ch = none → CodesOk D E ch node

/-- What the Numba backend needs: its codes, and a slot that shows each group. -/
structure SafeNumba (D : Device) (E : CodeCache) (ch : Child) (node : Node) (p : Pred) : Prop where
  codes : CodesOk D E ch node
  shown : node.aggs.any Agg.isCountStar = false → ∀ i ∈ passing D ch p, ∃ a ∈ node.aggs,
    (((passing D ch p).filter fun j => node.key D ch j = node.key D ch i).filterMap fun j =>
      (a.arg.map fun e => e.num D ch j).getD (some 1)).sum ≠ 0

/-- The C++ backend takes the plan. -/
def Node.takenByCpp (D : Device) (E : CodeCache) (ch : Child) (node : Node) (p : Pred) : Bool :=
  D.available && (node.runCpp D E ch p).isSome

/-- **The inputs the fused aggregate is right about.** -/
structure Safe (D : Device) (E : CodeCache) (ch : Child) (node : Node) (p : Pred) : Prop where
  clear : Clear ch node p
  cpp : node.takenByCpp D E ch p = true → SafeCpp D E ch node p
  numba : node.takenByCpp D E ch p = false → SafeNumba D E ch node p

/-! ## 2. Arrays that read the frame -/

/-- The array values of a row are the values of its cells. -/
def Reads (D : Device) (ch : Child) (names : List String) (i : Nat) (arr : String → ℚ) : Prop :=
  ∀ n ∈ names, ∀ c, ch.columns.get? n = some c →
    (c.dtype.isNumeric = true → c.cell D i = some (.num (arr n))) ∧
      ∀ u, c.dtype = .datetime u → c.cell D i = some (.instant (arr n))

theorem Reads.mono {D : Device} {ch : Child} {names names' : List String} {i : Nat}
    {arr : String → ℚ} (h : Reads D ch names i arr) (hsub : ∀ n ∈ names', n ∈ names) :
    Reads D ch names' i arr := fun n hn => h n (hsub n hn)

section Loads

variable {D : Device} {ch : Child} {c : Column} {i : Nat}

theorem valid_of_hasNull (h : ch.hasNull c = false) (hi : i < ch.length) : c.valid i = true := by
  have hnot := List.any_eq_false.mp h i (List.mem_range.mpr hi)
  simpa using hnot

theorem cell_of_valid (h : c.valid i = true) : c.cell D i = some (c.value D i) := if_pos h

theorem signed_small {x : Nat} (h : x < 2 ^ 63) : signed 8 x = x := if_pos h

/-- A whole second is the number of seconds. -/
theorem toSeconds_eq (hD : D.Lawful) {u : TimeUnit} (h : (u.perSecond : Int) ∣ c.ticks i) :
    (D.toSeconds u (c.ticks i) : ℚ) = c.ticks i / u.perSecond := by
  obtain ⟨k, hk⟩ := h
  have hpos : (u.perSecond : ℚ) ≠ 0 := by cases u <;> norm_num [TimeUnit.perSecond]
  rw [hk, hD.toSeconds]
  push_cast
  rw [mul_div_cancel_left₀ _ hpos]

/-- The C++ loads read a wide column without NULL. -/
theorem reads_bound (hD : D.Lawful) {names : List String} (hi : i < ch.length)
    (h : ∀ n ∈ names, ∀ c, ch.columns.get? n = some c →
      (ch.hasNull c = false ∧ c.wide ch.length) ∧ c.wholeSeconds ch.length) :
    Reads D ch names i (ch.bound D i) := by
  intro n hn c hc
  obtain ⟨⟨hnull, hwide⟩, hsec⟩ := h n hn c hc
  have hval := valid_of_hasNull hnull hi
  have harr : ch.bound D i n = c.bound D i := by rw [Child.bound, hc]; rfl
  rw [harr, cell_of_valid hval]
  constructor
  · intro hnum
    unfold Column.wide at hwide
    unfold Column.value Column.bound
    cases hdt : c.dtype with
    | int k =>
      rw [hdt] at hwide
      dsimp only at hwide
      subst hwide
      rfl
    | uint k =>
      rw [hdt] at hwide
      obtain ⟨rfl, hsmall⟩ := hwide
      dsimp only
      rw [signed_small (hsmall i hi)]
      push_cast
      rfl
    | float k =>
      rw [hdt] at hwide
      dsimp only at hwide
      subst hwide
      rfl
    | datetime u =>
      rw [hdt] at hnum
      cases hnum
    | text =>
      rw [hdt] at hnum
      cases hnum
  · intro u hu
    rw [Column.value, Column.bound, hu]
    dsimp only
    rw [toSeconds_eq hD (hsec u hu i hi)]

/-- The Numba loads read every column without NULL. -/
theorem reads_typed (hD : D.Lawful) {names : List String} (hi : i < ch.length)
    (h : ∀ n ∈ names, ∀ c, ch.columns.get? n = some c →
      ch.hasNull c = false ∧ c.wholeSeconds ch.length) :
    Reads D ch names i (ch.typed D i) := by
  intro n hn c hc
  obtain ⟨hnull, hsec⟩ := h n hn c hc
  have hval := valid_of_hasNull hnull hi
  have harr : ch.typed D i n = c.typed D i := by rw [Child.typed, hc]; rfl
  rw [harr, cell_of_valid hval]
  constructor
  · intro hnum
    unfold Column.value Column.typed
    cases hdt : c.dtype with
    | int k => rfl
    | uint k => rfl
    | float k => rfl
    | datetime u =>
      rw [hdt] at hnum
      cases hnum
    | text =>
      rw [hdt] at hnum
      cases hnum
  · intro u hu
    rw [Column.value, Column.typed, hu]
    dsimp only
    rw [toSeconds_eq hD (hsec u hu i hi)]

end Loads

/-! ## 3. Expressions and predicates -/

section Programs

variable {D : Device} {ch : Child} {i : Nat} {arr : String → ℚ}

/-- A bare reference to a column is that column. -/
theorem ref_of_bare {n : String} {t : Option String} {c : Column}
    (hb : (Scalar.col n t).bare ch) (hc : ch.columns.get? n = some c) :
    ch.ref D i n t = c.cell D i := by
  have hmem : n ∈ ch.columns.keys := (Dict.mem_keys _ n).mpr ⟨c, hc⟩
  have hres : Sql.resolve ch.columns.keys n t = some n := by
    cases t with
    | none => exact if_pos hmem
    | some t => rw [Sql.resolve, if_neg hb, if_pos hmem]
  rw [Child.ref, hres, Option.bind_some, Child.cell, hc, Option.bind_some]

/-- **An argument.**  What is emitted for it has the value of the expression. -/
theorem num_emit : ∀ {e : Scalar}, e.isNumericExpr ch = true → e.bare ch →
    Reads D ch e.columns i arr → e.num D ch i = some (e.emit arr)
  | .col n t, hnum, hb, hr => by
    obtain ⟨c, hc, hdt⟩ := Option.any_eq_true _ _ |>.mp hnum
    have hcell := (hr n (List.mem_singleton.mpr rfl) c hc).1 hdt
    rw [Scalar.num, ref_of_bare hb hc, hcell]
    rfl
  | .lit l, hnum, _, _ => by
    cases l with
    | num q => rfl
    | instant q => cases hnum
    | null => cases hnum
  | .bin op l r, hnum, hb, hr => by
    rw [Scalar.isNumericExpr, Bool.and_eq_true] at hnum
    have hl := num_emit hnum.1 hb.1 (hr.mono fun n hn => List.mem_append_left _ hn)
    have hr := num_emit hnum.2 hb.2 (hr.mono fun n hn => List.mem_append_right _ hn)
    rw [Scalar.num, hl, hr]
    rfl
  | .other f, hnum, _, _ => by cases hnum

/-- The tokens of an argument push its value. -/
theorem evalTokens_toPostfix (arr : String → ℚ) : ∀ {e : Scalar}, e.isNumericExpr ch = true →
    ∃ ts, e.toPostfix = some ts ∧ ∀ rest st,
      evalTokens arr (ts ++ rest) st = evalTokens arr rest (e.emit arr :: st)
  | .col n t, _ => ⟨[.col n], rfl, fun _ _ => rfl⟩
  | .lit l, hnum => by
    cases l with
    | num q => exact ⟨[.lit q], rfl, fun _ _ => rfl⟩
    | instant q => cases hnum
    | null => cases hnum
  | .bin op l r, hnum => by
    rw [Scalar.isNumericExpr, Bool.and_eq_true] at hnum
    obtain ⟨tl, hl, hel⟩ := evalTokens_toPostfix arr hnum.1
    obtain ⟨tr, hr, her⟩ := evalTokens_toPostfix arr hnum.2
    refine ⟨tl ++ tr ++ [.op op], by rw [Scalar.toPostfix, hl, hr]; rfl, fun rest st => ?_⟩
    rw [List.append_assoc, List.append_assoc, hel, her]
    rfl
  | .other f, hnum => by cases hnum

theorem evalAgg_toPostfix {e : Scalar} (hnum : e.isNumericExpr ch = true) :
    ∃ ts, e.toPostfix = some ts ∧ ∀ arr, evalAgg arr ts = e.emit arr := by
  obtain ⟨ts, hts, -⟩ := evalTokens_toPostfix (fun _ => 0) hnum
  refine ⟨ts, hts, fun arr => ?_⟩
  obtain ⟨ts', hts', heval⟩ := evalTokens_toPostfix arr hnum
  cases hts.symm.trans hts'
  have hrun := heval [] []
  rw [List.append_nil] at hrun
  rw [evalAgg, hrun]
  rfl

/-- Beside a number only a number is lowered. -/
theorem lower_numeric {c : Column} {v : Lit} {q : ℚ} (hnum : c.dtype.isNumeric = true)
    (hq : D.lower c v = some q) : v = .num q := by
  unfold Device.lower at hq
  cases hdt : c.dtype <;> rw [hdt] at hnum hq <;> cases hnum <;> cases v <;> cases hq <;> rfl

/-- **A comparison.**  The lowered literal stands to the array as the literal to the cell. -/
theorem values_lower (hD : D.Lawful) {n : String} {c : Column} {v : Lit} {q : ℚ}
    (hr : Reads D ch [n] i arr) (hc : ch.columns.get? n = some c) (hcomp : ch.comparable n = true)
    (ht : v.timed c) (hq : D.lower c v = some q) : ∃ x y, c.cell D i = some x ∧
      v.value = some y ∧ ∀ op : Cmp, op.values x y = some (op.test (arr n) q) ∧
        op.values y x = some (op.test q (arr n)) := by
  obtain ⟨hnum, htime⟩ := hr n (List.mem_singleton.mpr rfl) c hc
  by_cases hn : c.dtype.isNumeric = true
  · cases lower_numeric hn hq
    exact ⟨_, _, hnum hn, rfl, fun op => ⟨rfl, rfl⟩⟩
  · cases hdt : c.dtype with
    | datetime u =>
      obtain ⟨k, rfl⟩ := ht u hdt
      unfold Device.lower at hq
      rw [hdt] at hq
      cases hq
      refine ⟨_, _, htime u hdt, rfl, fun op => ?_⟩
      rw [hD.literalSeconds]
      exact ⟨rfl, rfl⟩
    | text =>
      rw [Child.comparable, hc, Option.any_some, hdt] at hcomp
      cases hcomp
    | int k => exact absurd (by rw [hdt]; rfl) hn
    | uint k => exact absurd (by rw [hdt]; rfl) hn
    | float k => exact absurd (by rw [hdt]; rfl) hn

theorem and3_some (a b : Bool) : and3 (some a) (some b) = some (a && b) := by
  cases a <;> cases b <;> rfl

theorem or3_some (a b : Bool) : or3 (some a) (some b) = some (a || b) := by
  cases a <;> cases b <;> rfl

/-- A comparison of a column with a literal, and of a literal with a column. -/
theorem holds_cmp (hD : D.Lawful) {n : String} {t : Option String} {c : Column} {v : Lit} {q : ℚ}
    (hr : Reads D ch [n] i arr) (hc : ch.columns.get? n = some c) (hcomp : ch.comparable n = true)
    (hb : (Scalar.col n t).bare ch) (ht : v.timed c) (hq : D.lower c v = some q) (op : Cmp) :
    (Pred.cmp op (.col n t) (.lit v)).holds D ch i = some (op.test (arr n) q) ∧
      (Pred.cmp op (.lit v) (.col n t)).holds D ch i = some (op.test q (arr n)) := by
  obtain ⟨x, y, hx, hy, hop⟩ := values_lower hD hr hc hcomp ht hq
  simp only [Pred.holds, Scalar.value, ref_of_bare hb hc, hx, hy, Option.bind_some]
  exact hop op

/-- The two forms of a supported comparison. -/
theorem supported_cmp {op : Cmp} {l r : Scalar} (h : (Pred.cmp op l r).supported ch = true) :
    ∃ n t v, ch.comparable n = true ∧
      ((l = .col n t ∧ r = .lit v) ∨ (l = .lit v ∧ r = .col n t)) := by
  cases l with
  | col n t =>
    cases r with
    | lit v => exact ⟨n, t, v, h, .inl ⟨rfl, rfl⟩⟩
    | col n' t' => cases h
    | bin o a b => cases h
    | other f => cases h
  | lit v =>
    cases r with
    | col n t => exact ⟨n, t, v, h, .inr ⟨rfl, rfl⟩⟩
    | lit v' => cases h
    | bin o a b => cases h
    | other f => cases h
  | bin o a b => cases h
  | other f => cases h

theorem exists_of_comparable {n : String} (h : ch.comparable n = true) :
    ∃ c, ch.columns.get? n = some c := by
  obtain ⟨c, hc, -⟩ := Option.any_eq_true _ _ |>.mp h
  exact ⟨c, hc⟩

/-- **The emitted predicate** has the value of the predicate. -/
theorem holds_emit (hD : D.Lawful) : ∀ {p : Pred} {f : (String → ℚ) → Bool},
    p.supported ch = true → p.clear ch → Reads D ch p.columns i arr →
      p.emit D ch = .ok f → p.holds D ch i = some (f arr)
  | .and l r, f, hs, hc, hr, hf => by
    rw [Pred.supported, Bool.and_eq_true] at hs
    obtain ⟨a, ha, hf⟩ := bind_eq_ok.mp hf
    obtain ⟨b, hb, hf⟩ := bind_eq_ok.mp hf
    cases hf
    rw [Pred.holds, holds_emit hD hs.1 hc.1 (hr.mono fun n hn => List.mem_append_left _ hn) ha,
      holds_emit hD hs.2 hc.2 (hr.mono fun n hn => List.mem_append_right _ hn) hb, and3_some]
  | .or l r, f, hs, hc, hr, hf => by
    rw [Pred.supported, Bool.and_eq_true] at hs
    obtain ⟨a, ha, hf⟩ := bind_eq_ok.mp hf
    obtain ⟨b, hb, hf⟩ := bind_eq_ok.mp hf
    cases hf
    rw [Pred.holds, holds_emit hD hs.1 hc.1 (hr.mono fun n hn => List.mem_append_left _ hn) ha,
      holds_emit hD hs.2 hc.2 (hr.mono fun n hn => List.mem_append_right _ hn) hb, or3_some]
  | .cmp op l r, f, hs, hc, hr, hf => by
    obtain ⟨n, t, v, hcomp, ⟨rfl, rfl⟩ | ⟨rfl, rfl⟩⟩ := supported_cmp hs <;>
    · obtain ⟨c, hget⟩ := exists_of_comparable hcomp
      rw [Pred.emit, hget, Option.bind_some] at hf
      cases hq : D.lower c v with
      | none =>
        rw [hq] at hf
        cases hf
      | some q =>
        rw [hq] at hf
        cases hf
        have hcmp := holds_cmp hD hr hget hcomp hc.1 (hc.2 c hget) hq op
        first | exact hcmp.1 | exact hcmp.2
  | .other g, f, hs, hc, hr, hf => by cases hs

/-- **The flattened predicate** has the value of the predicate. -/
theorem holds_flattenAnd (hD : D.Lawful) : ∀ {p : Pred} {preds : List (String × Cmp × ℚ)},
    p.supported ch = true → p.clear ch → Reads D ch p.columns i arr →
      p.flattenAnd D ch = some preds → p.holds D ch i = some (passPred arr preds)
  | .and l r, preds, hs, hc, hr, hf => by
    rw [Pred.supported, Bool.and_eq_true] at hs
    rw [Pred.flattenAnd] at hf
    obtain ⟨a, ha, hf⟩ := Option.bind_eq_some_iff.mp hf
    obtain ⟨b, hb, hf⟩ := Option.bind_eq_some_iff.mp hf
    cases hf
    rw [Pred.holds, holds_flattenAnd hD hs.1 hc.1
        (hr.mono fun n hn => List.mem_append_left _ hn) ha,
      holds_flattenAnd hD hs.2 hc.2 (hr.mono fun n hn => List.mem_append_right _ hn) hb,
      and3_some, passPred, passPred, passPred, List.all_append]
  | .or l r, preds, hs, hc, hr, hf => by cases hf
  | .cmp op l r, preds, hs, hc, hr, hf => by
    obtain ⟨n, t, v, hcomp, ⟨rfl, rfl⟩ | ⟨rfl, rfl⟩⟩ := supported_cmp hs
    · rw [Pred.flattenAnd] at hf
      obtain ⟨c, hget, hf⟩ := Option.bind_eq_some_iff.mp hf
      obtain ⟨q, hq, hf⟩ := Option.bind_eq_some_iff.mp hf
      cases hf
      rw [(holds_cmp hD hr hget hcomp hc.1 (hc.2 c hget) hq op).1]
      simp [passPred]
    · rw [Pred.flattenAnd] at hf
      obtain ⟨c, hget, hf⟩ := Option.bind_eq_some_iff.mp hf
      obtain ⟨q, hq, hf⟩ := Option.bind_eq_some_iff.mp hf
      cases hf
      rw [(holds_cmp hD hr hget hcomp hc.1 (hc.2 c hget) hq op).2]
      simp [passPred, test_mirror]
  | .other g, preds, hs, hc, hr, hf => by cases hs

end Programs

/-! ## 4. Aggregates -/

section Aggregates

variable {D : Device} {ch : Child} {rows : List Nat} {arr : Nat → String → ℚ} {a : Agg}

theorem mapM_some {α β : Type} {f : α → Option β} {g : α → β} : ∀ {l : List α},
    (∀ a ∈ l, f a = some (g a)) → l.mapM f = some (l.map g)
  | [], _ => rfl
  | a :: l, h => by
    rw [List.mapM_cons, h a List.mem_cons_self,
      mapM_some fun b hb => h b (List.mem_cons_of_mem _ hb)]
    rfl

theorem filterMap_some {α β : Type} {f : α → Option β} {g : α → β} {l : List α}
    (h : ∀ a ∈ l, f a = some (g a)) : l.filterMap f = l.map g := by
  rw [← List.filterMap_eq_map]
  exact List.filterMap_congr h

/-- The argument of a supported aggregate is a numeric expression. -/
theorem Agg.isNumericExpr_of_supported (hs : a.supported ch = true) {e : Scalar}
    (he : a.arg = some e) : e.isNumericExpr ch = true := by
  unfold Agg.supported at hs
  rw [he] at hs
  cases hf : a.func <;> rw [hf] at hs <;> simp_all

/-- What the rows give to an aggregate. -/
def Agg.vals (a : Agg) (arr : Nat → String → ℚ) (rows : List Nat) : List ℚ :=
  rows.map fun i => a.emit (arr i)

/-- The value of an aggregate from its accumulator. -/
def Agg.result (a : Agg) (acc count : ℚ) : ℚ := if a.func.isAvg then acc / count else acc

/-- **An aggregate over arrays that read the frame.** -/
theorem Agg.over_reads (hs : a.supported ch = true) (hb : ∀ e, a.arg = some e → e.bare ch)
    (hr : ∀ i ∈ rows, ∀ e, a.arg = some e → Reads D ch e.columns i (arr i)) (hne : rows ≠ []) :
    a.over D ch rows =
      some (a.result (accumulate a.func (a.vals arr rows)) rows.length) := by
  have hvals : a.cells D ch rows = a.vals arr rows := by
    unfold Agg.cells Agg.vals Agg.emit
    cases ha : a.arg with
    | none => rfl
    | some e =>
      exact filterMap_some fun i hi =>
        num_emit (Agg.isNumericExpr_of_supported hs ha) (hb e ha) (hr i hi e ha)
  have hlen : (a.vals arr rows).length = rows.length := List.length_map _
  have hnil : a.vals arr rows ≠ [] := fun h => hne (List.map_eq_nil_iff.mp h)
  unfold Agg.over Agg.result
  rw [hvals]
  cases hf : a.func with
  | count => rfl
  | sum => simp [hnil, Func.reduce, accumulate, Func.isAvg]
  | avg => simp [hnil, Func.reduce, accumulate, Func.isAvg, hlen]
  | min =>
    obtain ⟨m, hm⟩ := Option.isSome_iff_exists.mp (List.isSome_min?_of_ne_nil hnil)
    simp [hm, Func.reduce, accumulate, Func.isAvg]
  | max =>
    obtain ⟨m, hm⟩ := Option.isSome_iff_exists.mp (List.isSome_max?_of_ne_nil hnil)
    simp [hm, Func.reduce, accumulate, Func.isAvg]
  | other f =>
    unfold Agg.supported at hs
    rw [hf] at hs
    cases hs

/-- The tokens of an aggregate. -/
def Agg.tokens (a : Agg) : List Token := (a.arg.bind Scalar.toPostfix).getD []

theorem Agg.lower_eq (hs : a.supported ch = true) : a.lower = some (a.func, a.tokens) := by
  unfold Agg.lower Agg.tokens
  cases ha : a.arg with
  | none => rfl
  | some e =>
    obtain ⟨ts, hts, -⟩ := evalAgg_toPostfix (Agg.isNumericExpr_of_supported hs ha)
    simp only [Option.bind_some, hts, Option.map_some, Option.getD_some]

/-- The accumulator the C++ kernel fills. -/
theorem Agg.accumulate_tokens (rows : List Nat) (arr : Nat → String → ℚ)
    (hs : a.supported ch = true) :
    accumulate a.func (rows.map fun i => evalAgg (arr i) a.tokens) =
      accumulate a.func (a.vals arr rows) := by
  unfold Agg.tokens Agg.vals Agg.emit
  cases ha : a.arg with
  | none =>
    -- only COUNT(*) has no argument, and it counts
    have hcount : a.func = .count := by
      unfold Agg.supported at hs
      rw [ha] at hs
      cases hf : a.func <;> rw [hf] at hs <;> first | rfl | cases hs
    rw [hcount]
    simp [accumulate]
  | some e =>
    obtain ⟨ts, hts, heval⟩ := evalAgg_toPostfix (Agg.isNumericExpr_of_supported hs ha)
    rw [Option.bind_some, hts]
    simp only [Option.getD_some, Option.map_some, heval]

theorem zipWith_map_append {α β γ : Type} {f : α → β → γ} {g : α → β} {tail : List β} :
    ∀ l : List α, List.zipWith f l (l.map g ++ tail) = l.map fun a => f a (g a)
  | [] => by cases tail <;> rfl
  | a :: l => by
    rw [List.map_cons, List.cons_append, List.zipWith_cons_cons, zipWith_map_append l]
    rfl

/-- **The aggregates the C++ backend reads out** for the rows of a group. -/
theorem readOut_slots {aggs : List Agg} (hs : ∀ a ∈ aggs, a.supported ch = true)
    (hb : ∀ a ∈ aggs, ∀ e, a.arg = some e → e.bare ch)
    (hr : ∀ i ∈ rows, ∀ a ∈ aggs, ∀ e, a.arg = some e → Reads D ch e.columns i (ch.bound D i))
    (hne : rows ≠ []) :
    readOut aggs (slots D ch (aggs.map fun a => (a.func, a.tokens)) rows) =
      aggs.map (Agg.over D ch rows) := by
  unfold readOut slots
  rw [List.map_map, zipWith_map_append]
  refine List.map_congr_left fun a ha => ?_
  have hacc := Agg.accumulate_tokens rows (fun i => ch.bound D i) (hs a ha)
  rw [Agg.over_reads (hs a ha) (hb a ha) (fun i hi => hr i hi a ha) hne, ← hacc, Agg.result,
    Function.comp_apply]
  cases havg : a.func.isAvg with
  | false => rfl
  | true =>
    have hany : ((aggs.map fun a => (a.func, a.tokens)).any fun a => a.1.isAvg) = true :=
      List.any_eq_true.mpr ⟨_, List.mem_map_of_mem ha, havg⟩
    rw [hany]
    simp only [if_true, List.getLast?_concat, Option.getD_some]

end Aggregates

/-! ## 5. Codes of rows -/

section Codes

variable {D : Device} {ch : Child} {i j : Nat}

/-- The code of the value of a row. -/
def codeAt (D : Device) (ch : Child) (i : Nat) (c : Column) : Nat :=
  (factorize D ch c).uniques.idxOf (c.value D i)

/-- The columns have no NULL. -/
def Full (ch : Child) (xs : List Column) : Prop := ∀ c ∈ xs, ch.hasNull c = false

theorem value_mem_uniques {c : Column} (hc : ch.hasNull c = false) (hi : i < ch.length) :
    c.value D i ∈ (factorize D ch c).uniques := by
  have hcell := cell_of_valid (D := D) (valid_of_hasNull hc hi)
  simp only [factorize, List.mem_reverse, List.mem_dedup, List.mem_filterMap]
  exact ⟨i, List.mem_range.mpr hi, hcell⟩

theorem codes_factorize {c : Column} (hc : ch.hasNull c = false) (hi : i < ch.length) :
    (factorize D ch c).codes i = codeAt D ch i c := by
  have hcell := cell_of_valid (D := D) (valid_of_hasNull hc hi)
  simp only [factorize, hcell, codeAt]
  rfl

variable {xs : List Column}

/-- A row of a frame without NULL has a value in every key column. -/
theorem valued_factorize (hx : Full ch xs) (hi : i < ch.length) :
    Valued (xs.map (factorize D ch)) i := by
  intro c' hc'
  obtain ⟨c, hc, rfl⟩ := List.mem_map.mp hc'
  rw [codes_factorize (hx c hc) hi]
  exact ⟨Int.natCast_nonneg _,
    Int.ofNat_lt.mpr (List.idxOf_lt_length_of_mem (value_mem_uniques (hx c hc) hi))⟩

theorem codesAt_factorize (hx : Full ch xs) (hi : i < ch.length) :
    codesAt (xs.map (factorize D ch)) i = xs.map (codeAt D ch i) := by
  rw [codesAt, List.map_map]
  refine List.map_congr_left fun c hc => ?_
  rw [Function.comp_apply, codes_factorize (hx c hc) hi, Int.toNat_natCast]

theorem fits_codes (hx : Full ch xs) (hi : i < ch.length) :
    Grouping.Fits (sizes (xs.map (factorize D ch))) (xs.map (codeAt D ch i)) :=
  codesAt_factorize hx hi ▸ fits_codesAt (valued_factorize hx hi)

/-- **The code of a row** is the mixed radix number of its codes. -/
theorem combine_eq (hx : Full ch xs) (hi : i < ch.length)
    (hp : (sizes (xs.map (factorize D ch))).prod < 2 ^ 63) :
    combine (xs.map (factorize D ch)) i =
      Grouping.encode (sizes (xs.map (factorize D ch))) (xs.map (codeAt D ch i)) := by
  rw [combine_encode (valued_factorize hx hi) hp, codesAt_factorize hx hi]

/-- Rows with one key have one code. -/
theorem combine_congr (hx : Full ch xs) (hi : i < ch.length) (hj : j < ch.length)
    (hp : (sizes (xs.map (factorize D ch))).prod < 2 ^ 63)
    (h : xs.map (fun c => c.cell D i) = xs.map fun c => c.cell D j) :
    combine (xs.map (factorize D ch)) i = combine (xs.map (factorize D ch)) j := by
  rw [combine_eq hx hi hp, combine_eq hx hj hp]
  refine congrArg _ (congrArg _ (List.map_congr_left fun c hc => ?_))
  have hcell := List.map_inj_left.mp h c hc
  rw [cell_of_valid (valid_of_hasNull (hx c hc) hi),
    cell_of_valid (valid_of_hasNull (hx c hc) hj)] at hcell
  rw [codeAt, codeAt, Option.some.inj hcell]

theorem label_codeAt {c : Column} (hc : ch.hasNull c = false) (hi : i < ch.length) :
    label (factorize D ch c) (codeAt D ch i c) = some (c.cell D i) := by
  have hget : (factorize D ch c).uniques[codeAt D ch i c]? = some (c.value D i) :=
    List.getElem?_idxOf (value_mem_uniques hc hi)
  rw [label, if_pos (Int.natCast_nonneg _), Int.toNat_natCast, hget, Option.map_some,
    cell_of_valid (valid_of_hasNull hc hi)]

/-- The labels of the codes of a row are its key. -/
theorem labels_codes (hx : Full ch xs) (hi : i < ch.length) :
    labels (xs.map (factorize D ch)) ((xs.map (factorize D ch)).map fun c => c.codes i) =
      some (xs.map fun c => c.cell D i) := by
  have hzip : (xs.map (factorize D ch)).zip ((xs.map (factorize D ch)).map fun c => c.codes i) =
      xs.map fun c => (factorize D ch c, (codeAt D ch i c : Int)) := by
    rw [List.map_map, List.zip_map']
    exact List.map_congr_left fun c hc => congrArg _ (codes_factorize (hx c hc) hi)
  rw [labels, hzip, List.mapM_map]
  exact mapM_some fun c hc => label_codeAt (hx c hc) hi

/-- **The read-outs of a code** give the key of the row back. -/
theorem labels_unravel (hx : Full ch xs) (hi : i < ch.length)
    (hp : (sizes (xs.map (factorize D ch))).prod < 2 ^ 63) :
    labels (xs.map (factorize D ch)) (unravel (strides (xs.map (factorize D ch)))
      (combine (xs.map (factorize D ch)) i)) = some (xs.map fun c => c.cell D i) := by
  rw [unravel_combine (valued_factorize hx hi) hp, labels_codes hx hi]

theorem labels_unravelStrided (hx : Full ch xs) (hi : i < ch.length)
    (hp : (sizes (xs.map (factorize D ch))).prod < 2 ^ 63) :
    labels (xs.map (factorize D ch)) (unravelStrided (xs.map (factorize D ch))
      (combine (xs.map (factorize D ch)) i)) = some (xs.map fun c => c.cell D i) := by
  rw [unravelStrided_combine (valued_factorize hx hi) hp, labels_codes hx hi]

end Codes

/-! ## 6. Groups -/

section Groups

variable {D : Device} {ch : Child} {node : Node} {xs : List Column} {rows : List Nat}
  {out : List Nat → List (Option ℚ)}

/-- The rows of a plan grouped by its key, with what is put out for each group. -/
def groupsBy (key : Nat → List (Option Value)) (out : List Nat → List (Option ℚ))
    (rows : List Nat) : List OutRow :=
  (rows.map key).dedup.map fun k => (k, out (rows.filter fun i => key i = k))

/-- **Groups by a code**, read out through labels. -/
theorem perm_of_codes {code : Nat → Int} {key : Nat → List (Option Value)}
    {read : Int → Option (List (Option Value))} {codes : List Int} {res : List OutRow}
    (hnd : codes.Nodup) (hmem : ∀ g, g ∈ codes ↔ ∃ i ∈ rows, code i = g)
    (hread : ∀ i ∈ rows, read (code i) = some (key i))
    (hinj : ∀ i ∈ rows, ∀ j ∈ rows, key i = key j → code i = code j)
    (hres : (codes.mapM fun g => do
      return ((← read g), out (rows.filter fun i => code i = g))) = some res) :
    res.Perm (groupsBy key out rows) := by
  have hsome : ∀ g ∈ codes, (do
      return ((← read g), out (rows.filter fun i => code i = g)) : Option OutRow) =
        some ((read g).getD [], out (rows.filter fun i => code i = g)) := by
    intro g hg
    obtain ⟨i, hi, rfl⟩ := (hmem g).mp hg
    rw [hread i hi]
    rfl
  rw [mapM_some hsome] at hres
  cases hres
  exact Grouping.perm_groups (fun g => (read g).getD []) (fun k rs => (k, out rs)) hnd hmem
    (fun i hi => by rw [hread i hi]; rfl) hinj

theorem hashGroups_some {capacity : Nat} {code : Nat → Int} {gs : List (Int × List Nat)}
    (h : hashGroups D capacity code rows = some gs) :
    gs = (rows.map code).dedup.map fun k => (k, rows.filter fun i => code i = k) := by
  unfold hashGroups at h
  dsimp only at h
  split at h
  · cases h
  · exact (Option.some.inj h).symm

theorem mem_dedup_codes {code : Nat → Int} (g : Int) :
    g ∈ (rows.map code).dedup ↔ ∃ i ∈ rows, code i = g := by
  rw [List.mem_dedup, List.mem_map]

/-- The codes of the dense groups. -/
theorem mem_dense_codes {n : Int} {code : Nat → Int} (hcode : ∀ i ∈ rows, 0 ≤ code i ∧ code i < n)
    (g : Int) : g ∈ (((List.range n.toNat).map Int.ofNat).filter fun g =>
      rows.any fun i => code i = g) ↔ ∃ i ∈ rows, code i = g := by
  rw [List.mem_filter, List.any_eq_true]
  constructor
  · rintro ⟨-, i, hi, hg⟩
    exact ⟨i, hi, of_decide_eq_true hg⟩
  · rintro ⟨i, hi, rfl⟩
    obtain ⟨h0, hn⟩ := hcode i hi
    refine ⟨List.mem_map.mpr ⟨(code i).toNat, List.mem_range.mpr (by omega), ?_⟩, i, hi,
      decide_eq_true rfl⟩
    exact Int.toNat_of_nonneg h0

theorem nodup_codes_range (n : Int) (q : Int → Bool) :
    (((List.range n.toNat).map Int.ofNat).filter q).Nodup :=
  (List.nodup_range.map fun _ _ h => Int.ofNat.inj h).filter _

/-- The group of a single key, loaded as an integer. -/
theorem cell_boundKey (hD : D.Lawful) {c : Column} {i : Nat} (hk : c.dtype.numericKey = true)
    (hnull : ch.hasNull c = false) (hwide : c.wide ch.length) (hsec : c.wholeSeconds ch.length)
    (hi : i < ch.length) : c.cell D i = some (c.keyValue (c.boundKey D i)) := by
  rw [cell_of_valid (valid_of_hasNull hnull hi)]
  unfold Column.wide at hwide
  unfold Column.value Column.keyValue Column.boundKey
  cases hdt : c.dtype with
  | int k =>
    rw [hdt] at hwide
    dsimp only at hwide
    subst hwide
    rfl
  | uint k =>
    rw [hdt] at hwide
    obtain ⟨rfl, hsmall⟩ := hwide
    dsimp only
    rw [signed_small (hsmall i hi)]
    push_cast
    rfl
  | datetime u =>
    dsimp only
    rw [toSeconds_eq hD (hsec u hdt i hi)]
  | float k =>
    rw [hdt] at hk
    cases hk
  | text =>
    rw [hdt] at hk
    cases hk

theorem keyValue_inj {c : Column} {k k' : Int} (h : c.keyValue k = c.keyValue k') : k = k' := by
  unfold Column.keyValue at h
  split at h
  · exact Int.cast_injective (Value.instant.inj h)
  · exact Int.cast_injective (Value.num.inj h)

/-- The hash table on the key itself. -/
theorem hashKey_perm {c : Column} {capacity : Nat} {key : Nat → List (Option Value)}
    {res : List OutRow} (hkey : ∀ i ∈ rows, key i = [some (c.keyValue (c.boundKey D i))])
    (h : node.launch D out rows (.hashKey c capacity) = some res) :
    res.Perm (groupsBy key out rows) := by
  obtain ⟨gs, hgs, h⟩ := Option.bind_eq_some_iff.mp h
  cases h
  rw [hashGroups_some hgs, List.map_map]
  refine Grouping.perm_groups (fun g => [some (c.keyValue g)]) (fun k rs => (k, out rs))
    (List.nodup_dedup _) mem_dedup_codes (fun i hi => (hkey i hi).symm) fun i hi j hj hij => ?_
  rw [hkey i hi, hkey j hj] at hij
  exact keyValue_inj (Option.some.inj (List.cons.inj hij).1)

/-- The dense accumulator on the codes. -/
theorem dense_perm (hx : Full ch xs) (hrows : ∀ i ∈ rows, i < ch.length)
    (hp : (sizes (xs.map (factorize D ch))).prod < 2 ^ 63) {res : List OutRow}
    (h : node.launch D out rows (.dense (xs.map (factorize D ch))) = some res) :
    res.Perm (groupsBy (fun i => xs.map fun c => c.cell D i) out rows) := by
  rw [Node.launch, denseGroups, List.mapM_map] at h
  have hn : nGroups (xs.map (factorize D ch)) = ((sizes (xs.map (factorize D ch))).prod : Nat) :=
    wrap64_small (Int.natCast_nonneg _) (by omega)
  refine perm_of_codes (nodup_codes_range _ _) (mem_dense_codes fun i hi => ?_)
    (fun i hi => labels_unravel hx (hrows i hi) hp)
    (fun i hi j hj hij => combine_congr hx (hrows i hi) (hrows j hj) hp hij) h
  rw [combine_eq hx (hrows i hi) hp, hn]
  have hlt := Grouping.encode_lt (fits_codes (D := D) hx (hrows i hi))
  exact ⟨Int.natCast_nonneg _, by omega⟩

/-- The hash table on the combined codes. -/
theorem hashCodes_perm (hx : Full ch xs) (hrows : ∀ i ∈ rows, i < ch.length)
    (hp : (sizes (xs.map (factorize D ch))).prod < 2 ^ 63) {capacity : Nat} {res : List OutRow}
    (h : node.launch D out rows (.hashCodes (xs.map (factorize D ch)) capacity) = some res) :
    res.Perm (groupsBy (fun i => xs.map fun c => c.cell D i) out rows) := by
  obtain ⟨gs, hgs, h⟩ := Option.bind_eq_some_iff.mp h
  rw [hashGroups_some hgs, List.mapM_map] at h
  exact perm_of_codes (List.nodup_dedup _) mem_dedup_codes
    (fun i hi => labels_unravelStrided hx (hrows i hi) hp)
    (fun i hi j hj hij => combine_congr hx (hrows i hi) (hrows j hj) hp hij) h

/-- Only what is put out for nonempty groups matters. -/
theorem groupsBy_congr {key : Nat → List (Option Value)} {out' : List Nat → List (Option ℚ)}
    (h : ∀ rs, rs ≠ [] → (∀ i ∈ rs, i ∈ rows) → out rs = out' rs) :
    groupsBy key out rows = groupsBy key out' rows := by
  refine List.map_congr_left fun k hk => ?_
  obtain ⟨i, hi, rfl⟩ := List.mem_map.mp (List.mem_dedup.mp hk)
  have hmem : i ∈ rows.filter fun j => key j = key i :=
    List.mem_filter.mpr ⟨hi, decide_eq_true rfl⟩
  rw [h _ (List.ne_nil_of_mem hmem) fun j hj => (List.mem_filter.mp hj).1]

end Groups

/-! ## 7. The keys of a plan -/

section Keys

variable {D : Device} {E : CodeCache} {ch : Child} {node : Node} {p : Pred}

/-- A group key is a column without NULL. -/
theorem isKey_spec {k : Scalar} (hk : k.isKey ch = true) :
    ∃ n t c, k = .col n t ∧ ch.columns.get? n = some c ∧ k.keyColumn ch = some (n, c) ∧
      ch.hasNull c = false := by
  cases k with
  | col n t =>
    obtain ⟨c, hc, hnull⟩ := Option.any_eq_true _ _ |>.mp hk
    exact ⟨n, t, c, rfl, hc, by rw [Scalar.keyColumn, hc]; rfl, by simpa using hnull⟩
  | lit l => cases hk
  | bin o l r => cases hk
  | other f => cases hk

/-- The columns of the keys. -/
def Node.keyData (ch : Child) (node : Node) : List Column := (node.keyColumns ch).map Prod.snd

theorem values_of_keys (i : Nat) : ∀ {ks : List Scalar}, (∀ k ∈ ks, k.isKey ch = true) →
    (∀ k ∈ ks, k.bare ch) → (ks.map fun k => k.value D ch i) =
      (ks.filterMap (Scalar.keyColumn ch)).map fun x => x.2.cell D i
  | [], _, _ => rfl
  | k :: ks, hk, hb => by
    have ih := values_of_keys i (fun x hx => hk x (List.mem_cons_of_mem _ hx))
      fun x hx => hb x (List.mem_cons_of_mem _ hx)
    obtain ⟨n, t, c, rfl, hc, hcol, -⟩ := isKey_spec (hk k List.mem_cons_self)
    rw [List.filterMap_cons_some hcol, List.map_cons, List.map_cons, ih, Scalar.value,
      ref_of_bare (hb _ List.mem_cons_self) hc]

theorem mapM_keys {f : String × Column → Codes} : ∀ {ks : List Scalar},
    (∀ k ∈ ks, k.isKey ch = true) → (ks.mapM fun k => (k.keyColumn ch).map f) =
      some ((ks.filterMap (Scalar.keyColumn ch)).map f)
  | [], _ => rfl
  | k :: ks, hk => by
    have ih := mapM_keys (f := f) fun x hx => hk x (List.mem_cons_of_mem _ hx)
    obtain ⟨n, t, c, -, -, hcol, -⟩ := isKey_spec (hk k List.mem_cons_self)
    rw [List.filterMap_cons_some hcol, List.mapM_cons, hcol, ih]
    rfl

/-- What `_match` has tested. -/
structure Eligible (ch : Child) (node : Node) (p : Pred) : Prop where
  keys : ∀ k ∈ node.keys, k.isKey ch = true
  aggs : ∀ a ∈ node.aggs, a.supported ch = true
  pred : p.supported ch = true

theorem eligible_of_match (h : node.match? ch = some p) : Eligible ch node p := by
  obtain ⟨-, htest⟩ := Option.filter_eq_some_iff.mp h
  rw [Bool.and_eq_true, Bool.and_eq_true] at htest
  exact ⟨List.all_eq_true.mp htest.1.1, List.all_eq_true.mp htest.1.2, htest.2⟩

theorem full_keyData (he : Eligible ch node p) : Full ch (node.keyData ch) := by
  intro c hmem
  obtain ⟨x, hx, rfl⟩ := List.mem_map.mp hmem
  obtain ⟨k, hk, hcol⟩ := List.mem_filterMap.mp hx
  obtain ⟨n, t, d, -, -, hcol', hnull⟩ := isKey_spec (he.keys k hk)
  cases hcol.symm.trans hcol'
  exact hnull

theorem key_eq (he : Eligible ch node p) (hc : Clear ch node p) (i : Nat) :
    node.key D ch i = (node.keyData ch).map fun c => c.cell D i := by
  rw [Node.keyData, List.map_map]
  exact values_of_keys i he.keys hc.keys

/-- The codes of a plan whose cache is coherent. -/
theorem codes_eq (he : Eligible ch node p) (hk : CodesOk D E ch node) :
    node.codes D E ch = some ((node.keyData ch).map (factorize D ch)) := by
  rw [Node.codes, mapM_keys he.keys, Node.keyData, List.map_map]
  exact congrArg some (List.map_congr_left fun x hx => hk.coherent x hx)

theorem small_codes (hk : CodesOk D E ch node) :
    (sizes ((node.keyData ch).map (factorize D ch))).prod < 2 ^ 63 := by
  rw [Node.keyData, List.map_map]
  exact hk.small

/-- A single integer key. -/
theorem singleKey_spec (he : Eligible ch node p) (hc : Clear ch node p) {c : Column}
    (h : node.singleKey ch = some c) : c.dtype.numericKey = true ∧ ch.hasNull c = false ∧
      ∀ i, node.key D ch i = [c.cell D i] := by
  unfold Node.singleKey at h
  split at h
  · rename_i k hkeys
    obtain ⟨h, hnum⟩ := Option.filter_eq_some_iff.mp h
    have hmem : k ∈ node.keys := by rw [hkeys]; exact List.mem_singleton.mpr rfl
    obtain ⟨n, t, d, rfl, hget, hcol, hnull⟩ := isKey_spec (he.keys k hmem)
    rw [hcol] at h
    cases h
    refine ⟨hnum, hnull, fun i => ?_⟩
    rw [Node.key, hkeys, List.map_singleton, Scalar.value, ref_of_bare (hc.keys _ hmem) hget]
  · cases h

end Keys

/-! ## 8. The backends -/

section Backends

variable {D : Device} {E : CodeCache} {ch : Child} {node : Node} {p : Pred} {res : List OutRow}

/-- The columns of an argument are used. -/
theorem mem_colsUsed {a : Agg} (ha : a ∈ node.aggs) {e : Scalar} (he : a.arg = some e) :
    ∀ n ∈ e.columns, n ∈ node.colsUsed p := by
  intro n hn
  refine List.mem_append_left _ (List.mem_flatMap.mpr ⟨a, ha, ?_⟩)
  rw [he]
  exact hn

/-- Without a row that passes, a global aggregate is zero or NULL. -/
theorem globalNull_eq (he : Eligible ch node p) :
    node.globalNull = ([], node.aggs.map (Agg.over D ch [])) := by
  refine congrArg _ (List.map_congr_left fun a ha => ?_)
  have hs := he.aggs a ha
  unfold Agg.supported at hs
  unfold Agg.over Agg.cells
  cases hf : a.func <;> cases harg : a.arg <;> rw [hf, harg] at hs <;> first
    | (simp [Func.reduce]; done)
    | cases hs

/-- **The C++ backend** returns the plain groups of a safe input. -/
theorem runCpp_perm (hD : D.Lawful) (he : Eligible ch node p) (hc : Clear ch node p)
    (hs : SafeCpp D E ch node p) (h : node.runCpp D E ch p = some res) :
    res.Perm (node.groups D ch (passing D ch p)) := by
  obtain ⟨strategy, hstrat, h⟩ := Option.bind_eq_some_iff.mp h
  obtain ⟨preds, hpreds, h⟩ := Option.bind_eq_some_iff.mp h
  obtain ⟨aggs, haggs, h⟩ := Option.bind_eq_some_iff.mp h
  have hlower : node.aggs.mapM Agg.lower = some (node.aggs.map fun a => (a.func, a.tokens)) :=
    mapM_some fun a ha => Agg.lower_eq (he.aggs a ha)
  cases haggs.symm.trans hlower
  have hreads : ∀ i < ch.length, Reads D ch (node.colsUsed p) i (ch.bound D i) := fun i hi =>
    reads_bound hD hi fun n hn c hcol => ⟨hs.wide n hn c hcol, hc.seconds n hn c hcol⟩
  -- the rows that pass are those of the predicate
  have hpass : ((List.range ch.length).filter fun i => passPred (ch.bound D i) preds) =
      passing D ch p := by
    refine List.filter_congr fun i hi => ?_
    rw [holds_flattenAnd hD he.pred hc.pred ((hreads i (List.mem_range.mp hi)).mono
      fun n hn => List.mem_append_right _ hn) hpreds]
    cases passPred (ch.bound D i) preds <;> rfl
  have hrange : ∀ i ∈ passing D ch p, i < ch.length := fun i hi =>
    List.mem_range.mp (List.mem_filter.mp hi).1
  have hout : ∀ rs, rs ≠ [] → (∀ i ∈ rs, i ∈ passing D ch p) →
      readOut node.aggs (slots D ch (node.aggs.map fun a => (a.func, a.tokens)) rs) =
        node.aggs.map (Agg.over D ch rs) := fun rs hne hrs =>
    readOut_slots he.aggs hc.args (fun i hi a ha e harg =>
      (hreads i (hrange i (hrs i hi))).mono (mem_colsUsed ha harg)) hne
  change node.launch D _ ((List.range ch.length).filter fun i =>
    passPred (ch.bound D i) preds) strategy = some res at h
  rw [hpass] at h
  unfold Node.strategy at hstrat
  by_cases hkeys : node.keys.isEmpty = true
  · -- all rows are one group
    rw [if_pos hkeys] at hstrat
    cases hstrat
    rw [Node.groups, if_pos hkeys]
    cases hrows : passing D ch p with
    | nil =>
      rw [hrows] at h
      cases h
      rw [List.isEmpty_nil, if_pos rfl, globalNull_eq he]
    | cons i rs =>
      have hone := hout (i :: rs) (by simp) fun j hj => hrows ▸ hj
      rw [hrows] at h
      cases h
      rw [List.isEmpty_cons, if_neg Bool.false_ne_true]
      dsimp only
      rw [hone]
  · rw [if_neg hkeys] at hstrat
    rw [Node.groups, if_neg hkeys]
    change res.Perm (groupsBy (node.key D ch) (fun rs => node.aggs.map (Agg.over D ch rs)) _)
    rw [← groupsBy_congr hout]
    cases hsingle : node.singleKey ch with
    | some c =>
      rw [hsingle] at hstrat
      obtain ⟨capacity, -, rfl⟩ := Option.map_eq_some_iff.mp hstrat
      obtain ⟨hnum, hnull, hkey⟩ := singleKey_spec (D := D) he hc hsingle
      obtain ⟨hwide, hsec⟩ := hs.key c hsingle
      refine hashKey_perm (fun i hi => ?_) h
      rw [hkey i, cell_boundKey hD hnum hnull hwide hsec (hrange i hi)]
    | none =>
      rw [hsingle] at hstrat
      have hk := hs.codes hsingle
      have hfull := full_keyData he
      have hkey : node.key D ch = fun i => (node.keyData ch).map fun c => c.cell D i :=
        funext (key_eq he hc)
      rw [hkey]
      obtain ⟨cs, hcs, hstrat⟩ := Option.bind_eq_some_iff.mp hstrat
      cases hcs.symm.trans (codes_eq he hk)
      split at hstrat
      · split at hstrat
        · cases hstrat
          exact dense_perm hfull hrange (small_codes hk) h
        · cases hstrat
      · obtain ⟨capacity, -, hstrat⟩ := Option.bind_eq_some_iff.mp hstrat
        cases hstrat
        exact hashCodes_perm hfull hrange (small_codes hk) h

/-- The slots of the Numba kernel for the rows of a group. -/
def typedSlots (D : Device) (ch : Child) (aggs : List Agg) (rows : List Nat) : List ℚ :=
  aggs.map fun a => (rows.map fun i => a.emit (ch.typed D i)).sum

/-- A group without rows is not kept. -/
theorem keepsGroup_nil (aggs : List Agg) : keepsGroup aggs (typedSlots D ch aggs []) = false := by
  have hzero : ∀ v ∈ typedSlots D ch aggs [], v = 0 := by
    intro v hv
    obtain ⟨a, -, rfl⟩ := List.mem_map.mp hv
    rfl
  unfold keepsGroup
  split
  · rename_i x hx
    have hmem := (List.of_mem_zip (List.mem_of_find?_eq_some hx)).2
    rw [hzero x.2 hmem]
    exact decide_eq_false (lt_irrefl 0)
  · refine List.any_eq_false.mpr fun v hv => ?_
    rw [hzero v hv]
    simp

/-- COUNT(*) shows a group with a row; without one, a slot that is not zero does. -/
theorem keepsGroup_of_shown {aggs : List Agg} {rows : List Nat} (hne : rows ≠ [])
    (h : aggs.any Agg.isCountStar = false → ∃ a ∈ aggs,
      (rows.map fun i => a.emit (ch.typed D i)).sum ≠ 0) :
    keepsGroup aggs (typedSlots D ch aggs rows) = true := by
  have hzip : aggs.zip (typedSlots D ch aggs rows) =
      aggs.map fun a => (a, (rows.map fun i => a.emit (ch.typed D i)).sum) :=
    List.map_prod_left_eq_zip.symm
  unfold keepsGroup
  split
  · rename_i x hx
    have hmem := List.mem_of_find?_eq_some hx
    have hstar : x.1.isCountStar = true := by simpa using List.find?_some hx
    rw [hzip] at hmem
    obtain ⟨a, -, rfl⟩ := List.mem_map.mp hmem
    have hone : ∀ i, a.emit (ch.typed D i) = 1 := by
      intro i
      unfold Agg.isCountStar at hstar
      unfold Agg.emit
      cases harg : a.arg with
      | none => rfl
      | some e =>
        rw [harg] at hstar
        cases hf : a.func <;> rw [hf] at hstar <;> cases hstar
    have hpos : 0 < rows.length := List.length_pos_iff.mpr hne
    simp only [hone, List.map_const', List.sum_replicate, nsmul_eq_mul, mul_one, decide_eq_true_eq]
    exact_mod_cast hpos
  · rename_i hx
    have hno : aggs.any Agg.isCountStar = false := by
      rw [hzip, List.find?_map] at hx
      refine List.any_eq_false.mpr fun a ha hstar => ?_
      have hnone := List.find?_eq_none.mp (Option.map_eq_none_iff.mp hx) a ha
      exact hnone hstar
    obtain ⟨a, ha, hsum⟩ := h hno
    exact List.any_eq_true.mpr ⟨_, List.mem_map_of_mem ha, decide_eq_true hsum⟩

/-- An aggregate the Numba backend does. -/
theorem typedSlots_over {rows : List Nat} (hs : ∀ a ∈ node.aggs, a.supported ch = true)
    (hkind : ∀ a ∈ node.aggs, a.func = .sum ∨ a.func = .count)
    (hb : ∀ a ∈ node.aggs, ∀ e, a.arg = some e → e.bare ch)
    (hr : ∀ i ∈ rows, ∀ a ∈ node.aggs, ∀ e, a.arg = some e →
      Reads D ch e.columns i (ch.typed D i)) (hne : rows ≠ []) :
    (typedSlots D ch node.aggs rows).map some = node.aggs.map (Agg.over D ch rows) := by
  rw [typedSlots, List.map_map]
  refine List.map_congr_left fun a ha => ?_
  rw [Agg.over_reads (hs a ha) (hb a ha) (fun i hi => hr i hi a ha) hne, Agg.result]
  rcases hkind a ha with hsum | hcount
  · rw [hsum]
    rfl
  · -- COUNT(*) adds one for each row
    have hstar : a.arg = none := by
      have hsup := hs a ha
      unfold Agg.supported at hsup
      rw [hcount] at hsup
      cases harg : a.arg with
      | none => rfl
      | some e =>
        rw [harg] at hsup
        cases hsup
    rw [hcount]
    simp [Func.isAvg, accumulate, Agg.vals, Agg.emit, hstar]

/-- The groups `_build_result` shows are those that have rows. -/
theorem buildResult_perm (hkeys : node.keys.isEmpty = false)
    (hkind : ∀ a ∈ node.aggs, a.func = .sum ∨ a.func = .count) (he : Eligible ch node p)
    (hc : Clear ch node p) (hs : SafeNumba D E ch node p)
    (hreads : ∀ i < ch.length, Reads D ch (node.colsUsed p) i (ch.typed D i))
    (h : node.buildResult D ch ((node.keyData ch).map (factorize D ch)) (passing D ch p) =
      some res) : res.Perm (node.groups D ch (passing D ch p)) := by
  have hfull := full_keyData he
  have hp := small_codes hs.codes
  have hrange : ∀ i ∈ passing D ch p, i < ch.length := fun i hi =>
    List.mem_range.mp (List.mem_filter.mp hi).1
  have hargs : ∀ i ∈ passing D ch p, ∀ a ∈ node.aggs, ∀ e, a.arg = some e →
      Reads D ch e.columns i (ch.typed D i) := fun i hi a ha e harg =>
    (hreads i (hrange i hi)).mono (mem_colsUsed ha harg)
  have hkey : node.key D ch = fun i => (node.keyData ch).map fun c => c.cell D i :=
    funext (key_eq he hc)
  have hout : ∀ rs, rs ≠ [] → (∀ i ∈ rs, i ∈ passing D ch p) →
      (typedSlots D ch node.aggs rs).map some = node.aggs.map (Agg.over D ch rs) :=
    fun rs hne hrs => typedSlots_over he.aggs hkind hc.args (fun i hi => hargs i (hrs i hi)) hne
  have hinj : ∀ i ∈ passing D ch p, ∀ j ∈ passing D ch p, node.key D ch i = node.key D ch j →
      combine ((node.keyData ch).map (factorize D ch)) i =
        combine ((node.keyData ch).map (factorize D ch)) j := fun i hi j hj hij =>
    combine_congr hfull (hrange i hi) (hrange j hj) hp (by rw [← key_eq he hc, hij, key_eq he hc])
  rw [Node.groups, if_neg (by rw [hkeys]; exact Bool.false_ne_true)]
  change res.Perm (groupsBy (node.key D ch) (fun rs => node.aggs.map (Agg.over D ch rs)) _)
  rw [← groupsBy_congr hout]
  have hn : nGroups ((node.keyData ch).map (factorize D ch)) =
      ((sizes ((node.keyData ch).map (factorize D ch))).prod : Nat) :=
    wrap64_small (Int.natCast_nonneg _) (by omega)
  refine perm_of_codes (nodup_codes_range _ _) (fun g => ?_)
    (fun i hi => (labels_unravel hfull (hrange i hi) hp).trans (congrArg some (key_eq he hc i).symm))
    hinj h
  rw [List.mem_filter]
  constructor
  · rintro ⟨-, hkept⟩
    by_contra hnone
    -- without a row the slots are zero
    have hempty : ((passing D ch p).filter fun i =>
        combine ((node.keyData ch).map (factorize D ch)) i = g) = [] :=
      List.filter_eq_nil_iff.mpr fun i hi hg => hnone ⟨i, hi, of_decide_eq_true hg⟩
    change keepsGroup node.aggs (typedSlots D ch node.aggs _) = true at hkept
    rw [hempty, keepsGroup_nil] at hkept
    cases hkept
  · rintro ⟨i, hi, rfl⟩
    have hlt := Grouping.encode_lt (fits_codes (D := D) hfull (hrange i hi))
    have hcode := combine_eq hfull (hrange i hi) hp
    refine ⟨List.mem_map.mpr ⟨Grouping.encode (sizes ((node.keyData ch).map (factorize D ch)))
      ((node.keyData ch).map (codeAt D ch i)), List.mem_range.mpr (by omega), hcode.symm⟩, ?_⟩
    have hsame : ((passing D ch p).filter fun j =>
        combine ((node.keyData ch).map (factorize D ch)) j =
          combine ((node.keyData ch).map (factorize D ch)) i) =
        (passing D ch p).filter fun j => node.key D ch j = node.key D ch i := by
      refine List.filter_congr fun j hj => decide_eq_decide.mpr ⟨fun hcomb => ?_, hinj j hj i hi⟩
      have hread := labels_unravel (D := D) hfull (hrange j hj) hp
      rw [hcomb, labels_unravel hfull (hrange i hi) hp, ← key_eq he hc, ← key_eq he hc] at hread
      exact (Option.some.inj hread).symm
    change keepsGroup node.aggs (typedSlots D ch node.aggs _) = true
    rw [hsame]
    have hmem : i ∈ (passing D ch p).filter fun j => node.key D ch j = node.key D ch i :=
      List.mem_filter.mpr ⟨hi, decide_eq_true rfl⟩
    refine keepsGroup_of_shown (List.ne_nil_of_mem hmem) fun hstar => ?_
    obtain ⟨a, ha, hsum⟩ := hs.shown hstar i hi
    refine ⟨a, ha, ?_⟩
    -- what the condition sums is what the kernel adds
    rwa [filterMap_some (g := fun j => a.emit (ch.typed D j))] at hsum
    intro j hj
    unfold Agg.emit
    cases harg : a.arg with
    | none => rfl
    | some e =>
      exact num_emit (Agg.isNumericExpr_of_supported (he.aggs a ha) harg) (hc.args a ha e harg)
        (hargs j (List.mem_filter.mp hj).1 a ha e harg)

/-- **The Numba backend** returns the plain groups of a safe input. -/
theorem runNumba_perm (hD : D.Lawful) (he : Eligible ch node p) (hc : Clear ch node p)
    (hs : SafeNumba D E ch node p) (h : node.runNumba D E ch p = .ok (some res)) :
    res.Perm (node.groups D ch (passing D ch p)) := by
  unfold Node.runNumba at h
  split at h
  · cases h
  · rename_i hshape
    rw [codes_eq he hs.codes] at h
    dsimp only at h
    split at h
    · cases h
    · split at h
      · cases h
      · rename_i hnulls
        obtain ⟨pass, hpass, h⟩ := bind_eq_ok.mp h
        have hkeys : node.keys.isEmpty = false := by
          rw [Bool.or_eq_true, not_or] at hshape
          exact Bool.eq_false_iff.mpr hshape.1
        have hkind : ∀ a ∈ node.aggs, a.func = .sum ∨ a.func = .count := by
          intro a ha
          have hsup := he.aggs a ha
          rw [Bool.or_eq_true, not_or] at hshape
          have hno := List.any_eq_false.mp (Bool.eq_false_iff.mpr hshape.2) a ha
          unfold Agg.supported at hsup
          cases hf : a.func <;> rw [hf] at hsup hno <;> simp_all
        have hreads : ∀ i < ch.length, Reads D ch (node.colsUsed p) i (ch.typed D i) := by
          intro i hi
          refine reads_typed hD hi fun n hn c hcol => ⟨?_, hc.seconds n hn c hcol⟩
          have hno := List.any_eq_false.mp (Bool.eq_false_iff.mpr hnulls) n hn
          rw [hcol, Option.any_some] at hno
          exact Bool.eq_false_iff.mpr hno
        have hrows : ((List.range ch.length).filter fun i => pass (ch.typed D i)) =
            passing D ch p := by
          refine List.filter_congr fun i hi => ?_
          rw [holds_emit hD he.pred hc.pred ((hreads i (List.mem_range.mp hi)).mono
            fun n hn => List.mem_append_right _ hn) hpass]
          cases pass (ch.typed D i) <;> rfl
        rw [hrows] at h
        cases hbuild : node.buildResult D ch ((node.keyData ch).map (factorize D ch))
            (passing D ch p) with
        | none =>
          rw [hbuild] at h
          cases h
        | some out =>
          rw [hbuild] at h
          cases h
          exact buildResult_perm hkeys hkind he hc hs hreads hbuild

end Backends

/-! ## 9. `fused_aggregate` -/

section Main

variable {D : Device} {E : CodeCache} {ch : Child} {node : Node} {p : Pred} {res : List OutRow}

/-- Without a row the result is the groups of no rows. -/
theorem groups_nil (he : Eligible ch node p) :
    (if node.keys.isEmpty then [node.globalNull] else []) = node.groups D ch [] := by
  unfold Node.groups
  split
  · rw [globalNull_eq he]
  · rfl

/-- **The fused aggregate agrees with the plain one.**  On a safe input, a frame `fused_aggregate`
returns has the groups and the aggregates of filtering with three-valued logic and grouping.  `Safe`
is asked of inputs with a row only, as nothing is loaded from an empty one; `Lawful` is that whole
seconds are cast exactly, by the device and for a literal; and `h` that the query is one the function
takes, since otherwise it hands it back. -/
theorem fused_agrees (hD : D.Lawful) (hp : node.predicate = some p)
    (hs : ch.length ≠ 0 → Safe D E ch node p)
    (h : node.fusedAggregate D E ch = .ok (some res)) :
    res.Perm (node.groups D ch (passing D ch p)) := by
  unfold Node.fusedAggregate at h
  cases hm : node.match? ch with
  | none =>
    rw [hm] at h
    cases h
  | some q =>
    have hq : q = p := Option.some.inj ((Option.filter_eq_some_iff.mp hm).1.symm.trans hp)
    subst hq
    have he := eligible_of_match hm
    rw [hm] at h
    dsimp only at h
    split at h
    · rename_i hzero
      cases h
      have hnone : passing D ch q = [] := by rw [passing, hzero]; rfl
      rw [hnone, ← groups_nil he]
    · rename_i hne
      have hs := hs hne
      cases htaken : node.takenByCpp D E ch q with
      | true =>
        obtain ⟨havail, hsome⟩ := Bool.and_eq_true_iff.mp htaken
        obtain ⟨out, hout⟩ := Option.isSome_iff_exists.mp hsome
        rw [havail, if_pos rfl, hout] at h
        cases h
        exact runCpp_perm hD he hs.clear (hs.cpp htaken) hout
      | false =>
        have hnone : (if D.available then node.runCpp D E ch q else none) = none := by
          rcases Bool.and_eq_false_iff.mp htaken with havail | hnot
          · rw [havail, if_neg Bool.false_ne_true]
          · rw [Option.isSome_eq_false_iff, Option.isNone_iff_eq_none] at hnot
            rw [hnot]
            split <;> rfl
        rw [hnone] at h
        exact runNumba_perm hD he hs.clear (hs.numba htaken) h

end Main

/-! ## 10. Small frames -/

/-- A device whose hash table never overflows. -/
def smallDevice (available : Bool) : Device where
  real _ _ := 0
  toSeconds u k := k / u.perSecond
  literalSeconds q := q.floor
  overflow _ _ := false
  available := available

theorem smallDevice_lawful (available : Bool) : (smallDevice available).Lawful where
  toSeconds u k := by
    have hpos : (u.perSecond : Int) ≠ 0 := by cases u <;> decide
    exact Int.mul_ediv_cancel_left k hpos
  literalSeconds k := Rat.floor_intCast k

/-- A 64-bit column of small numbers. -/
def small (l : List Nat) (valid : Nat → Bool) : Column where
  dtype := .int 8
  mem i := if i % 8 = 0 then BitVec.ofNat 8 (l.getD (i / 8) 0) else 0
  text _ := ""
  valid := valid

/-- Two rows: `v` is 5 and NULL, with a 7 in the buffer; `w` is 1 and 1; `z` is 0 and 0. -/
def twoRows : Child where
  length := 2
  columns := (((∅ : Dict String Column).set "v" (small [5, 7] fun i => i = 0)).set "w"
    (small [1, 1] fun _ => true)).set "z" (small [0, 0] fun _ => true)

/-- `w = 1`. -/
def wIsOne : Pred := .cmp .eq (.col "w" none) (.lit (.num 1))

/-- `SELECT SUM(x) .. WHERE w = 1 GROUP BY keys`. -/
def sumOf (x : String) (keys : List Scalar) : Node :=
  ⟨keys, [⟨.sum, some (.col x none)⟩], some wIsOne, none⟩

theorem ok_of_toOption {ε α : Type} {x : Except ε α} {a : α} (h : x.toOption = some a) :
    x = .ok a := by
  cases x with
  | error e => cases h
  | ok b => exact congrArg _ (Option.some.inj h)

theorem sum_w_used {n : String} (h : n ∈ (sumOf "w" []).colsUsed wIsOne) : n = "w" := by
  simpa [Node.colsUsed, sumOf, wIsOne, Pred.columns, Scalar.columns] using h

theorem get?_w : twoRows.columns.get? "w" = some (small [1, 1] fun _ => true) := by
  simp [twoRows, Dict.get?_set]

theorem sum_w_safe : Safe (smallDevice true) none twoRows (sumOf "w" []) wIsOne where
  clear := by
    refine ⟨List.forall_mem_nil _, fun a ha e he => ?_, ⟨trivial, fun c hc u hu => ?_⟩,
      fun n hn c hc u hu => ?_⟩
    · cases List.mem_singleton.mp ha
      cases he
      trivial
    · cases get?_w.symm.trans hc
      cases hu
    · cases sum_w_used hn
      cases get?_w.symm.trans hc
      cases hu
  cpp _ := by
    refine ⟨fun n hn c hc => ?_, fun c hc => (by cases hc), fun _ =>
      ⟨List.forall_mem_nil _, by decide⟩⟩
    cases sum_w_used hn
    cases get?_w.symm.trans hc
    exact ⟨rfl, rfl⟩
  numba h := by
    have htaken : (sumOf "w" []).takenByCpp (smallDevice true) none twoRows wIsOne = true := by
      decide
    rw [htaken] at h
    cases h

/-- The sum of a column without NULL. -/
theorem fused_agrees_sum_w : ∃ res,
    (sumOf "w" []).fusedAggregate (smallDevice true) none twoRows = .ok (some res) ∧
    res.Perm ((sumOf "w" []).groups (smallDevice true) twoRows
      (passing (smallDevice true) twoRows wIsOne)) := by
  have hres : (sumOf "w" []).fusedAggregate (smallDevice true) none twoRows =
      .ok (some [([], [some 2])]) := ok_of_toOption (by with_unfolding_all decide)
  exact ⟨_, hres, fused_agrees (smallDevice_lawful true) rfl (fun _ => sum_w_safe) hres⟩

/-- **A NULL is summed, and a group is lost.**  The C++ backend adds the 7 in the buffer of the NULL
row; the Numba backend returns no row for the one group, whose sum is zero. -/
theorem null_summed_group_lost :
    ((sumOf "v" []).fusedAggregate (smallDevice true) none twoRows = .ok (some [([], [some 12])]) ∧
      (sumOf "v" []).groups (smallDevice true) twoRows
        (passing (smallDevice true) twoRows wIsOne) = [([], [some 5])]) ∧
    ((sumOf "z" [.col "w" none]).fusedAggregate (smallDevice false) none twoRows =
        .ok (some []) ∧
      (sumOf "z" [.col "w" none]).groups (smallDevice false) twoRows
        (passing (smallDevice false) twoRows wIsOne) = [([some (.num 1)], [some 0])]) := by
  refine ⟨⟨ok_of_toOption ?_, ?_⟩, ok_of_toOption ?_, ?_⟩
  · with_unfolding_all decide
  · with_unfolding_all decide
  · with_unfolding_all decide
  · with_unfolding_all decide

end RyuDB.Fused
