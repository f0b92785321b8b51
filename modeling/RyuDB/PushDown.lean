/-
# Predicate pushdown

When does `push_predicates` keep what a plan returns?

A conjunct `c` that is routed to the table `t` ends up on every scan of `t` that `insert` reaches.
`lands c t p` describes the plans `p` in which that is right: `t` is scanned once, on the way down
every join has `t` on a side it does not pad and reads the columns of `c` from that side under the
names they had there, and nothing but joins and filters lies between.  Then filtering the scan
filters the result (`exec_insert`).

    returns_pushPredicates :
      pushSafe D.schema p → exec S D p = .ok f → exec S D (pushPredicates D.schema p) = .ok f

`pushPredicates_exec` is this of the engine (`execute`), which runs the two plans from whatever frames it
has cached, where neither run is disturbed: a pushed Filter can bring an aggregate to the kernels or take
it from them, and these need not answer alike.

`push_predicates` looks at the top join only.  Below an inner join a conjunct on the right side
of a nested LEFT JOIN is pushed under it, and the rows that LEFT JOIN pads come back
(`pushed_below_left_join`).

The proof follows the pass.  Sections 2 and 3 are about one conjunct: where it may land, and when a
row passes the conjuncts that have landed.  Section 4 is the join, the only operator besides a filter
that a conjunct passes through: filtering an input by conjuncts that read that input filters the
result, as long as the join does not pad that side, and does not raise more often.  Section 5 is the
induction over the plan below the filter, and section 6 the one over the whole plan, where a sort may
go back to the source of a projection and so has its own clause in what is carried (`Kept`).
-/
import Mathlib
import RyuDB.BuiltExec
import RyuDB.Optimize

namespace RyuDB.Sql

variable {V : Type}

/-! ## 1. Filters aside, a pushed plan is the plan -/

/-- The plan without its filters. -/
def unfiltered : PlanNode V → PlanNode V
  | .scan t c a => .scan t c a
  | .derived input a => .derived (unfiltered input) a
  | .filter input _ => unfiltered input
  | .project input items => .project (unfiltered input) items
  | .join l r on => .join (unfiltered l) (unfiltered r) on
  | .aggregate input keys aggs => .aggregate (unfiltered input) keys aggs
  | .window input funcs => .window (unfiltered input) funcs
  | .sort input keys => .sort (unfiltered input) keys
  | .limit input n o => .limit (unfiltered input) n o
  | .distinct input => .distinct (unfiltered input)
  | .setOp l r op d => .setOp (unfiltered l) (unfiltered r) op d

theorem subtreeTables_unfiltered (p : PlanNode V) :
    subtreeTables (unfiltered p) = subtreeTables p := by
  induction p <;> simp_all [unfiltered, subtreeTables]

theorem sideAlias_unfiltered (p : PlanNode V) : (unfiltered p).sideAlias = p.sideAlias := by
  induction p <;> simp_all [unfiltered, PlanNode.sideAlias]

theorem outColumns_unfiltered (sch : Dict String (List String)) (p : PlanNode V) :
    outColumns sch (unfiltered p) = outColumns sch p := by
  induction p <;> simp_all [unfiltered, outColumns, sideAlias_unfiltered]

theorem unfiltered_insert : ∀ (p : PlanNode V) (M : Dict String (List (Expr V))),
    unfiltered (insert p M) = unfiltered p := by
  intro p
  induction p with
  | scan t c a =>
    intro M
    unfold insert
    split <;> rfl
  | derived input a ih => exact fun M => rfl
  | join l r on ihl ihr => exact fun M => by rw [insert, unfiltered, unfiltered, ihl, ihr]
  | setOp l r op d ihl ihr => exact fun M => by rw [insert, unfiltered, unfiltered, ihl, ihr]
  | filter input q ih => exact fun M => ih M
  | project input items ih => exact fun M => by rw [insert, unfiltered, unfiltered, ih]
  | aggregate input keys aggs ih => exact fun M => by rw [insert, unfiltered, unfiltered, ih]
  | window input funcs ih => exact fun M => by rw [insert, unfiltered, unfiltered, ih]
  | sort input keys ih => exact fun M => by rw [insert, unfiltered, unfiltered, ih]
  | limit input n o ih => exact fun M => by rw [insert, unfiltered, unfiltered, ih]
  | distinct input ih => exact fun M => by rw [insert, unfiltered, unfiltered, ih]

theorem unfiltered_refilter (p : PlanNode V) (cs : List (Expr V)) :
    unfiltered (refilter p cs) = unfiltered p := by
  cases cs <;> rfl

theorem unfiltered_pushFilter (sch : Dict String (List String)) (p : PlanNode V) (e : Expr V) :
    unfiltered (pushFilter sch p e) = unfiltered p := by
  unfold pushFilter
  split
  · dsimp only
    split
    · rfl
    · rw [unfiltered_refilter, unfiltered_insert]
  · rfl

theorem unfiltered_pushPredicates (sch : Dict String (List String)) (p : PlanNode V) :
    unfiltered (pushPredicates sch p) = unfiltered p := by
  induction p with
  | filter input e ih => rw [pushPredicates, unfiltered_pushFilter, ih, unfiltered]
  | _ => simp_all [pushPredicates, unfiltered]

/-! ## 2. Where a conjunct lands

A conjunct is routed by the tables its names belong to.  That is a look at names; whether the names
mean the same columns at the scan depends on the joins in between, on suffixes, on coalesced keys and
on the aliases of the sides (`readsLeft`, `readsRight`). -/

/-- A column of the result of a join is the column of that name on the left. -/
def fromLeft (lay : Layout) (keys : List (String × String)) (n : String) : Bool :=
  match lay.source n with
  | some (.left m) => m = n
  | some (.both m d) => m = n && (n, d) ∈ keys
  | _ => false

/-- A column of the result of a join is the column of that name on the right. -/
def fromRight (lay : Layout) (keys : List (String × String)) (n : String) : Bool :=
  match lay.source n with
  | some (.right m) => m = n
  | some (.both m d) => d = n && (m, n) ∈ keys
  | _ => false

/-- A reference reads, above a join, the column it would read on the left of it. -/
def readsLeft (on : JoinOn V) (la ra : Option String) (L R : List String)
    (x : String × Option String) : Bool :=
  match resolve L x.1 x.2 with
  | none => false
  | some n => on.how.isSemi ||
      (decide (resolve (joinLayout on la ra L R).columns x.1 x.2 = some n) &&
        fromLeft (joinLayout on la ra L R) (testKeys on) n)

/-- A reference reads, above a join, the column it would read on the right of it. -/
def readsRight (on : JoinOn V) (la ra : Option String) (L R : List String)
    (x : String × Option String) : Bool :=
  match resolve R x.1 x.2 with
  | none => false
  | some n => decide (resolve (joinLayout on la ra L R).columns x.1 x.2 = some n) &&
      fromRight (joinLayout on la ra L R) (testKeys on) n

/-- **A conjunct for the table `t` may be put on the scans of `t`**: there is one, no join on the
way to it pads its side, none has `t` on the other side, and the conjunct's references read that
scan's columns all the way up. -/
def lands (sch : Dict String (List String)) (c : Expr V) (t : String) : PlanNode V → Bool
  | .scan t' cols _ => t' = t &&
      c.refs.all fun x => (resolve (scanColumns ((sch.get? t').getD []) cols) x.1 x.2).isSome
  | .filter input _ => lands sch c t input
  | .join l r on =>
    (!on.how.keepsRight && !(subtreeTables r).contains t && lands sch c t l &&
      c.refs.all (readsLeft on l.sideAlias r.sideAlias (outColumns sch l) (outColumns sch r))) ||
    (!on.how.keepsLeft && !on.how.isSemi && !(subtreeTables l).contains t && lands sch c t r &&
      c.refs.all (readsRight on l.sideAlias r.sideAlias (outColumns sch l) (outColumns sch r)))
  | _ => false

theorem lands_unfiltered (sch : Dict String (List String)) (c : Expr V) (t : String)
    (p : PlanNode V) : lands sch c t (unfiltered p) = lands sch c t p := by
  induction p <;>
    simp_all [unfiltered, lands, outColumns_unfiltered, sideAlias_unfiltered,
      subtreeTables_unfiltered]

/-- The two ways to land below a join. -/
theorem lands_join {sch : Dict String (List String)} {c : Expr V} {t : String}
    {l r : PlanNode V} {on : JoinOn V} (h : lands sch c t (.join l r on) = true) :
    (on.how.keepsRight = false ∧ t ∉ subtreeTables r ∧ lands sch c t l = true ∧
      ∀ x ∈ c.refs, readsLeft on l.sideAlias r.sideAlias (outColumns sch l) (outColumns sch r) x =
        true) ∨
    (on.how.keepsLeft = false ∧ on.how.isSemi = false ∧ t ∉ subtreeTables l ∧
      lands sch c t r = true ∧
      ∀ x ∈ c.refs, readsRight on l.sideAlias r.sideAlias (outColumns sch l) (outColumns sch r) x =
        true) := by
  simpa [lands, and_assoc] using h

/-- A conjunct lands on a table of the plan. -/
theorem mem_of_lands {sch : Dict String (List String)} {c : Expr V} {t : String} :
    ∀ {p : PlanNode V}, lands sch c t p = true → t ∈ subtreeTables p := by
  intro p
  induction p with
  | scan t' cols a =>
    intro h
    simp only [lands, Bool.and_eq_true, decide_eq_true_eq] at h
    simp [subtreeTables, h.1]
  | filter input e ih => exact ih
  | join l r on ihl ihr =>
    intro h
    rw [subtreeTables, List.mem_append]
    rcases lands_join h with h | h
    · exact .inl (ihl h.2.2.1)
    · exact .inr (ihr h.2.2.2.1)
  | _ =>
    intro h
    cases h

/-- Above a join such a reference names the left column it would name below it. -/
theorem readsLeft_spec {on : JoinOn V} {la ra : Option String} {L R : List String}
    {x : String × Option String} (h : readsLeft on la ra L R x = true) :
    ∃ n, resolve L x.1 x.2 = some n ∧ (on.how.isSemi = true ∨
      resolve (joinLayout on la ra L R).columns x.1 x.2 = some n ∧
        fromLeft (joinLayout on la ra L R) (testKeys on) n = true) := by
  unfold readsLeft at h
  cases hn : resolve L x.1 x.2 with
  | none => simp [hn] at h
  | some n =>
    simp only [hn, Bool.or_eq_true, Bool.and_eq_true, decide_eq_true_eq] at h
    exact ⟨n, rfl, h⟩

theorem readsRight_spec {on : JoinOn V} {la ra : Option String} {L R : List String}
    {x : String × Option String} (h : readsRight on la ra L R x = true) :
    ∃ n, resolve R x.1 x.2 = some n ∧
      resolve (joinLayout on la ra L R).columns x.1 x.2 = some n ∧
        fromRight (joinLayout on la ra L R) (testKeys on) n = true := by
  unfold readsRight at h
  cases hn : resolve R x.1 x.2 with
  | none => simp [hn] at h
  | some n =>
    simp only [hn, Bool.and_eq_true, decide_eq_true_eq] at h
    exact ⟨n, rfl, h⟩

/-- A conjunct that lands can be evaluated on what the plan returns. -/
theorem known_of_lands {sch : Dict String (List String)} {c : Expr V} {t : String} :
    ∀ {p : PlanNode V}, lands sch c t p = true → c.Known (outColumns sch p) := by
  intro p
  induction p with
  | scan t' cols a =>
    intro h x hx
    simp only [lands, Bool.and_eq_true, List.all_eq_true] at h
    exact h.2 x hx
  | filter input e ih => exact ih
  | join l r on ihl ihr =>
    intro h x hx
    rw [outColumns]
    rcases lands_join h with ⟨-, -, hl, hreads⟩ | ⟨-, hsemi, -, -, hreads⟩
    · obtain ⟨n, hn, hs⟩ := readsLeft_spec (hreads x hx)
      split
      · exact ihl hl x hx
      · rename_i hsemi
        rcases hs with hs | hs
        · exact absurd hs hsemi
        · rw [hs.1]
          rfl
    · obtain ⟨n, hn, hs, -⟩ := readsRight_spec (hreads x hx)
      rw [if_neg (by rw [hsemi]; decide), hs]
      rfl
  | _ =>
    intro h
    cases h

/-! ## 3. The rows the conjuncts accept -/

/-- All conjuncts hold of a row. -/
def accepts (S : Scalars V) (cols : List String) (M : Dict String (List (Expr V))) (r : Row V) :
    Bool := M.entries.all fun e => e.2.all fun c => S.holds (c.value S cols r)

theorem mem_lists {M : Dict String (List (Expr V))} {t : String} {c : Expr V} :
    c ∈ M.lists t ↔ ∃ cs, (t, cs) ∈ M.entries ∧ c ∈ cs := by
  simp only [Dict.mem_entries, Dict.lists]
  cases M.get? t <;> simp

theorem accepts_iff {S : Scalars V} {cols : List String} {M : Dict String (List (Expr V))}
    {r : Row V} : accepts S cols M r = true ↔
      ∀ t c, c ∈ M.lists t → S.holds (c.value S cols r) = true := by
  simp only [accepts, List.all_eq_true]
  constructor
  · intro h t c hc
    obtain ⟨cs, he, hc⟩ := mem_lists.mp hc
    exact h (t, cs) he c hc
  · intro h e he c hc
    exact h e.1 c (mem_lists.mpr ⟨e.2, he, hc⟩)

/-- Two tests by conjuncts agree when each conjunct agrees. -/
theorem accepts_congr {S : Scalars V} {cols cols' : List String}
    {M : Dict String (List (Expr V))} {r r' : Row V}
    (h : ∀ t c, c ∈ M.lists t → c.value S cols r = c.value S cols' r') :
    accepts S cols M r = accepts S cols' M r' := by
  rw [Bool.eq_iff_iff, accepts_iff, accepts_iff]
  constructor
  · exact fun hr t c hc => by rw [← h t c hc]; exact hr t c hc
  · exact fun hr t c hc => by rw [h t c hc]; exact hr t c hc

theorem mem_forTables {M : Dict String (List (Expr V))} {ts : List String} {t : String}
    {c : Expr V} : c ∈ (forTables M ts).lists t ↔ c ∈ M.lists t ∧ t ∈ ts := by
  simp only [forTables, Dict.lists, Dict.get?_filter]
  cases M.get? t with
  | none => simp
  | some cs => by_cases h : t ∈ ts <;> simp [h, Option.filter]

/-- The truth of a conjunction. -/
theorem holds_conjoin (S : Scalars V) (cols : List String) (r : Row V) :
    ∀ (cs : List (Expr V)) (c : Expr V), S.holds ((conjoin c cs).value S cols r) =
      (c :: cs).all fun e => S.holds (e.value S cols r)
  | [], c => by simp [conjoin]
  | d :: cs, c => by
    have hand : S.holds ((Expr.and c d).value S cols r) =
        (S.holds (c.value S cols r) && S.holds (d.value S cols r)) := S.truth_conj _ _
    rw [conjoin, List.foldl_cons, ← conjoin, holds_conjoin S cols r cs (.and c d),
      List.all_cons, List.all_cons, List.all_cons, hand, Bool.and_assoc]

/-- The truth of a predicate is that of its conjuncts. -/
theorem holds_splitAnd (S : Scalars V) (cols : List String) (r : Row V) (e : Expr V) :
    S.holds (e.value S cols r) = (splitAnd e).all fun c => S.holds (c.value S cols r) := by
  induction e with
  | and a b ha hb =>
    have hand : S.holds ((Expr.and a b).value S cols r) =
        (S.holds (a.value S cols r) && S.holds (b.value S cols r)) := S.truth_conj _ _
    rw [hand, splitAnd, List.all_append, ha, hb]
  | _ => simp [splitAnd]

theorem check_conjoin {cols : List String} : ∀ {cs : List (Expr V)} {c : Expr V},
    (∀ e ∈ c :: cs, e.check cols = .ok ()) →
    (c :: cs).Pairwise (fun a b => a.isSeries = true → b.isSeries = true) →
    (conjoin c cs).check cols = .ok ()
  | [], c, h, _ => h c List.mem_cons_self
  | d :: cs, c, h, hp => by
    obtain ⟨hc, hrest⟩ := List.pairwise_cons.mp hp
    obtain ⟨hd, htail⟩ := List.pairwise_cons.mp hrest
    have hcd : (Expr.and c d).check cols = .ok () := by
      rw [Expr.check_ok]
      obtain ⟨h1, h2⟩ := Expr.check_ok.mp (h c (by simp))
      obtain ⟨h3, h4⟩ := Expr.check_ok.mp (h d (by simp))
      refine ⟨fun x hx => (List.mem_append.mp hx).elim (h1 x) (h3 x), ?_⟩
      have hcd := hc d List.mem_cons_self
      rw [Expr.wellShaped, h2, h4]
      cases hs : c.isSeries with
      | false => rfl
      | true => rw [hcd hs]; rfl
    rw [conjoin, List.foldl_cons, ← conjoin]
    refine check_conjoin (fun e he => ?_) (List.pairwise_cons.mpr ⟨fun e he hs => ?_, htail⟩)
    · rcases List.mem_cons.mp he with rfl | he
      · exact hcd
      · exact h e (by simp [he])
    · rw [Expr.isSeries, Bool.or_eq_true] at hs
      rcases hs with hs | hs
      · exact hc e (List.mem_cons_of_mem _ he) hs
      · exact hd e he hs

/-! ## 4. A join of filtered inputs -/

variable [DecidableEq V]

theorem row_fromLeft {lay : Layout} {keys : List (String × String)} {n : String} {l r : Row V}
    (h : fromLeft lay keys n = true) (hr : sameKeys keys l r = true ∨ r = nullRow) :
    lay.row l r n = l n := by
  unfold fromLeft at h
  cases hs : lay.source n with
  | none => simp [hs] at h
  | some s =>
    rw [Layout.row_source hs]
    cases s with
    | left m =>
      simp only [hs, decide_eq_true_eq] at h
      rw [Source.cell, h]
    | right m => simp [hs] at h
    | both m d =>
      simp only [hs, Bool.and_eq_true, decide_eq_true_eq] at h
      obtain ⟨rfl, hm⟩ := h
      rcases hr with hr | rfl
      · rw [Source.cell, ← sameKeys_mem hr hm, Option.or_self]
      · rw [Source.cell, nullRow, Option.or_none]

theorem row_fromRight {lay : Layout} {keys : List (String × String)} {n : String} {l r : Row V}
    (h : fromRight lay keys n = true) (hl : sameKeys keys l r = true ∨ l = nullRow) :
    lay.row l r n = r n := by
  unfold fromRight at h
  cases hs : lay.source n with
  | none => simp [hs] at h
  | some s =>
    rw [Layout.row_source hs]
    cases s with
    | left m => simp [hs] at h
    | right m =>
      simp only [hs, decide_eq_true_eq] at h
      rw [Source.cell, h]
    | both m d =>
      simp only [hs, Bool.and_eq_true, decide_eq_true_eq] at h
      obtain ⟨rfl, hm⟩ := h
      rcases hl with hl | rfl
      · rw [Source.cell, sameKeys_mem hl hm, Option.or_self]
      · rw [Source.cell, nullRow, Option.none_or]

/-- A conjunct that reads the left side has the value it has there. -/
theorem value_left {S : Scalars V} {on : JoinOn V} {la ra : Option String} {L R : List String}
    {c : Expr V} (hc : ∀ x ∈ c.refs, readsLeft on la ra L R x = true)
    (hsemi : on.how.isSemi = false) {l r : Row V}
    (hr : sameKeys (testKeys on) l r = true ∨ r = nullRow) :
    c.value S (joinLayout on la ra L R).columns ((joinLayout on la ra L R).row l r) =
      c.value S L l := by
  refine Expr.value_congr fun x hx => ?_
  obtain ⟨n, hn, hs⟩ := readsLeft_spec (hc x hx)
  rw [hsemi] at hs
  obtain ⟨hres, hfrom⟩ := hs.resolve_left (by decide)
  rw [hn, hres]
  exact row_fromLeft hfrom hr

/-- A conjunct that reads the right side has the value it has there. -/
theorem value_right {S : Scalars V} {on : JoinOn V} {la ra : Option String} {L R : List String}
    {c : Expr V} (hc : ∀ x ∈ c.refs, readsRight on la ra L R x = true) {l r : Row V}
    (hl : sameKeys (testKeys on) l r = true ∨ l = nullRow) :
    c.value S (joinLayout on la ra L R).columns ((joinLayout on la ra L R).row l r) =
      c.value S R r := by
  refine Expr.value_congr fun x hx => ?_
  obtain ⟨n, hn, hres, hfrom⟩ := readsRight_spec (hc x hx)
  rw [hn, hres]
  exact row_fromRight hfrom hl

/-- Fewer rows are as joinable. -/
theorem Joinable.filter {on : JoinOn V} {la ra : Option String} {left right : Frame V}
    (h : Joinable on la ra left right) (p q : Row V → Bool) :
    Joinable on la ra (left.filter p) (right.filter q) where
  fits := h.fits
  residual hp hex := by
    obtain ⟨l, hl, r, hr, hk⟩ := hex
    exact h.residual hp ⟨l, (List.mem_filter.mp hl).1, r, (List.mem_filter.mp hr).1, hk⟩

omit [DecidableEq V] in
theorem Frame.filter_true {f : Frame V} {p : Row V → Bool} (h : ∀ r, p r = true) :
    f.filter p = f :=
  Frame.ext rfl (by rw [Frame.filter_rows]; exact List.filter_eq_self.mpr fun r _ => h r)

omit [DecidableEq V] in
theorem Frame.filter_filter (f : Frame V) (p q : Row V → Bool) :
    (f.filter p).filter q = f.filter fun r => p r && q r :=
  Frame.ext rfl (by
    simp only [Frame.filter_rows, List.filter_filter]
    exact List.filter_congr fun r _ => Bool.and_comm _ _)

/-- Filtering the left input of a join filters its result. -/
theorem joined_filter_left {S : Scalars V} {on : JoinOn V} {la ra : Option String}
    {left right : Frame V} {M : Dict String (List (Expr V))}
    (hkeep : on.how.keepsRight = false) (hM : ∀ t c, c ∈ M.lists t → ∀ x ∈ c.refs,
      readsLeft on la ra left.columns right.columns x = true) :
    joined S on la ra (left.filter (accepts S left.columns M)) right =
      (joined S on la ra left right).filter
        (accepts S (joined S on la ra left right).columns M) := by
  by_cases hsemi : on.how.isSemi = true
  · simp only [joined_columns, if_pos hsemi]
    simp only [joined, if_pos hsemi, Frame.filter_columns]
    rw [Frame.filter_filter, Frame.filter_filter]
    exact congrArg _ (funext fun r => Bool.and_comm _ _)
  · have hsemi' : on.how.isSemi = false := Bool.eq_false_iff.mpr hsemi
    refine Frame.ext ?_ ?_
    · simp only [Frame.filter_columns, joined_columns]
    · rw [joined_rows hsemi']
      simp only [Frame.filter_rows, Frame.filter_columns]
      rw [joined_rows hsemi', joined_columns, if_neg hsemi, hkeep]
      refine (JoinSpec.run_filter_left ?_ ?_ _ _ _).symm
      · intro l r hlr
        exact accepts_congr fun t c hc =>
          value_left (hM t c hc) hsemi' (.inl (sameKeys_of_joinTest hlr))
      · intro l
        exact accepts_congr fun t c hc => value_left (hM t c hc) hsemi' (.inr rfl)

/-- Filtering the right input of a join filters its result. -/
theorem joined_filter_right {S : Scalars V} {on : JoinOn V} {la ra : Option String}
    {left right : Frame V} {M : Dict String (List (Expr V))}
    (hkeep : on.how.keepsLeft = false) (hsemi : on.how.isSemi = false)
    (hM : ∀ t c, c ∈ M.lists t → ∀ x ∈ c.refs,
      readsRight on la ra left.columns right.columns x = true) :
    joined S on la ra left (right.filter (accepts S right.columns M)) =
      (joined S on la ra left right).filter
        (accepts S (joined S on la ra left right).columns M) := by
  refine Frame.ext ?_ ?_
  · simp only [Frame.filter_columns, joined_columns]
  · rw [joined_rows hsemi]
    simp only [Frame.filter_rows, Frame.filter_columns]
    rw [joined_rows hsemi, joined_columns, if_neg (by rw [hsemi]; decide), hkeep]
    refine (JoinSpec.run_filter_right ?_ ?_ _ _ _).symm
    · intro l r hlr
      exact accepts_congr fun t c hc => value_right (hM t c hc) (.inl (sameKeys_of_joinTest hlr))
    · intro r
      exact accepts_congr fun t c hc => value_right (hM t c hc) (.inr rfl)

omit [DecidableEq V] in
/-- No conjunct accepts every row. -/
theorem accepts_of_empty {S : Scalars V} {cols : List String} {M : Dict String (List (Expr V))}
    (h : ∀ t c, c ∉ M.lists t) (r : Row V) : accepts S cols M r = true :=
  accepts_iff.mpr fun t c hc => absurd hc (h t c)

/-- Filtering both inputs of a join, each by conjuncts that may be put there. -/
theorem joined_filter {S : Scalars V} {on : JoinOn V} {la ra : Option String}
    {left right : Frame V} {Ml Mr : Dict String (List (Expr V))}
    (hl : ∀ t c, c ∈ Ml.lists t → on.how.keepsRight = false ∧ ∀ x ∈ c.refs,
      readsLeft on la ra left.columns right.columns x = true)
    (hr : ∀ t c, c ∈ Mr.lists t → on.how.keepsLeft = false ∧ on.how.isSemi = false ∧
      ∀ x ∈ c.refs, readsRight on la ra left.columns right.columns x = true) :
    joined S on la ra (left.filter (accepts S left.columns Ml))
        (right.filter (accepts S right.columns Mr)) =
      (joined S on la ra left right).filter fun r =>
        accepts S (joined S on la ra left right).columns Ml r &&
          accepts S (joined S on la ra left right).columns Mr r := by
  -- a side with no conjunct is not filtered, so the two steps need their condition only when
  -- there is one
  have hleft : ∀ right' : Frame V, right'.columns = right.columns →
      joined S on la ra (left.filter (accepts S left.columns Ml)) right' =
        (joined S on la ra left right').filter
          (accepts S (joined S on la ra left right').columns Ml) := by
    intro right' hc
    by_cases hex : ∃ t c, c ∈ Ml.lists t
    · obtain ⟨t, c, hm⟩ := hex
      exact joined_filter_left (hl t c hm).1 fun t c hm => by rw [hc]; exact (hl t c hm).2
    · have hnone : ∀ t c, c ∉ Ml.lists t := fun t c hm => hex ⟨t, c, hm⟩
      rw [Frame.filter_true (accepts_of_empty hnone), Frame.filter_true (accepts_of_empty hnone)]
  have hright : joined S on la ra left (right.filter (accepts S right.columns Mr)) =
      (joined S on la ra left right).filter
        (accepts S (joined S on la ra left right).columns Mr) := by
    by_cases hex : ∃ t c, c ∈ Mr.lists t
    · obtain ⟨t, c, hm⟩ := hex
      exact joined_filter_right (hr t c hm).1 (hr t c hm).2.1 fun t c hm => (hr t c hm).2.2
    · have hnone : ∀ t c, c ∉ Mr.lists t := fun t c hm => hex ⟨t, c, hm⟩
      rw [Frame.filter_true (accepts_of_empty hnone), Frame.filter_true (accepts_of_empty hnone)]
  rw [hleft (right.filter (accepts S right.columns Mr)) rfl, hright, Frame.filter_filter,
    Frame.filter_columns]
  exact congrArg _ (funext fun r => Bool.and_comm _ _)

/-! ## 5. Inserting conjuncts filters the result -/

omit [DecidableEq V] in
theorem sideAlias_insert (p : PlanNode V) (M : Dict String (List (Expr V))) :
    (insert p M).sideAlias = p.sideAlias := by
  rw [← sideAlias_unfiltered, unfiltered_insert, sideAlias_unfiltered]

omit [DecidableEq V] in
/-- An expression with a column reference gives a Series. -/
theorem isSeries_of_refs {e : Expr V} : e.refs ≠ [] → e.isSeries = true := by
  induction e with
  | col name table => exact fun _ => rfl
  | lit v => exact fun h => absurd rfl h
  | and a b ha hb =>
    intro h
    rw [Expr.isSeries, Bool.or_eq_true]
    by_cases hn : a.refs = []
    · exact .inr (hb fun hb' => h (by rw [Expr.refs, hn, hb']; rfl))
    · exact .inl (ha hn)
  | or a b ha hb =>
    intro h
    rw [Expr.isSeries, Bool.or_eq_true]
    by_cases hn : a.refs = []
    · exact .inr (hb fun hb' => h (by rw [Expr.refs, hn, hb']; rfl))
    · exact .inl (ha hn)
  | not e ih => exact ih
  | app op args ih =>
    intro h
    obtain ⟨x, hx⟩ := List.exists_mem_of_ne_nil _ h
    obtain ⟨l, hl, hx⟩ := List.mem_flatten.mp hx
    obtain ⟨i, rfl⟩ := (List.mem_ofFn' _ _).mp hl
    rw [Expr.isSeries, Bool.or_eq_true, List.any_eq_true]
    exact .inr ⟨(args i).isSeries, (List.mem_ofFn' _ _).mpr ⟨i, rfl⟩,
      ih i (List.ne_nil_of_mem hx)⟩

omit [DecidableEq V] in
/-- Inserting no conjunct changes nothing. -/
theorem insert_of_empty : ∀ (p : PlanNode V) {M : Dict String (List (Expr V))},
    (∀ t c, c ∉ M.lists t) → insert p M = p := by
  have hfor : ∀ {M : Dict String (List (Expr V))} (ts : List String), (∀ t c, c ∉ M.lists t) →
      ∀ t c, c ∉ (forTables M ts).lists t :=
    fun ts h t c hc => h t c (mem_forTables.mp hc).1
  intro p
  induction p with
  | scan t cols a =>
    intro M h
    unfold insert
    split
    · rename_i e es hg
      have he : e ∈ M.lists t := by rw [Dict.lists, hg]; exact List.mem_cons_self
      exact absurd he (h t e)
    · rfl
  | derived input a ih => exact fun _ => rfl
  | join l r on ihl ihr => exact fun h => by rw [insert, ihl (hfor _ h), ihr (hfor _ h)]
  | setOp l r op d ihl ihr => exact fun h => by rw [insert, ihl (hfor _ h), ihr (hfor _ h)]
  | _ => simp_all [insert]

/-- Inserting conjuncts that land filters what the plan returns.  It is what the induction over plans
proves; a conjunct lands in a scan of its table or passes a join on a side whose columns it reads. -/
def Inserts (S : Scalars V) (D : Database V) (p : PlanNode V) : Prop :=
  ∀ {M : Dict String (List (Expr V))} {f : Frame V}, exec S D p = .ok f →
    (∀ t c, c ∈ M.lists t → lands D.schema c t p = true) →
    (∀ t c, c ∈ M.lists t → c.wellShaped = true ∧ c.isSeries = true) →
    exec S D (insert p M) = .ok (f.filter (accepts S f.columns M))

section Inserts

variable {S : Scalars V} {D : Database V}

/-- At a scan the conjuncts of its table become a filter. -/
theorem inserts_scan (t : String) (cols : Option (List String)) (a : Option String) :
    Inserts S D (.scan t cols a) := by
  intro M f h hland hshape
  have honly : ∀ t' c, c ∈ M.lists t' → t' = t := by
    intro t' c hc
    have := hland t' c hc
    simp only [lands, Bool.and_eq_true, decide_eq_true_eq] at this
    exact this.1.symm
  have hcheck : ∀ c ∈ M.lists t, c.check f.columns = .ok () := by
    intro c hc
    rw [Expr.check_ok, exec_columns h]
    exact ⟨known_of_lands (hland t c hc), (hshape t c hc).1⟩
  -- no conjunct for this table is no conjunct at all
  have hskip : M.lists t = [] → exec S D (.scan t cols a) = .ok (f.filter (accepts S f.columns M)) := by
    intro hnil
    have hnone : ∀ t' c, c ∉ M.lists t' := by
      intro t' c hc
      rw [honly t' c hc, hnil] at hc
      cases hc
    rw [Frame.filter_true (accepts_of_empty hnone)]
    exact h
  unfold insert
  cases hg : M.get? t with
  | none => exact hskip (by rw [Dict.lists, hg]; rfl)
  | some cs =>
    cases cs with
    | nil => exact hskip (by rw [Dict.lists, hg]; rfl)
    | cons c cs =>
      have hlist : M.lists t = c :: cs := by rw [Dict.lists, hg]; rfl
      refine bind_eq_ok.mpr ⟨f, h, filterFrame_ok.mpr ⟨?_, ?_⟩⟩
      · refine check_conjoin (fun e he => hcheck e (hlist ▸ he)) ?_
        exact List.pairwise_of_forall_mem_list fun e _ e' he' _ =>
          (hshape t e' (hlist ▸ he')).2
      · refine congrArg _ (funext fun r => ?_)
        rw [holds_conjoin, Bool.eq_iff_iff, accepts_iff, List.all_eq_true]
        constructor
        · exact fun hr e he => hr t e (hlist ▸ he)
        · intro hr t' e he
          rw [honly t' e he, hlist] at he
          exact hr e he

/-- At a join the conjuncts go to the side that their table is on. -/
theorem Inserts.join {l r : PlanNode V} (ihl : Inserts S D l) (ihr : Inserts S D r) (on : JoinOn V) :
    Inserts S D (.join l r on) := by
  intro M f h hland hshape
  obtain ⟨left, hl, h⟩ := bind_eq_ok.mp h
  obtain ⟨right, hr, h⟩ := bind_eq_ok.mp h
  obtain ⟨hj, rfl⟩ := joinFrames_ok.mp h
  have hcl := exec_columns hl
  have hcr := exec_columns hr
  have hMl : ∀ t c, c ∈ (forTables M (subtreeTables l)).lists t →
      on.how.keepsRight = false ∧ lands D.schema c t l = true ∧ ∀ x ∈ c.refs,
        readsLeft on l.sideAlias r.sideAlias left.columns right.columns x = true := by
    intro t c hc
    obtain ⟨hc, ht⟩ := mem_forTables.mp hc
    rcases lands_join (hland t c hc) with h | h
    · rw [hcl, hcr]
      exact ⟨h.1, h.2.2.1, h.2.2.2⟩
    · exact absurd ht h.2.2.1
  have hMr : ∀ t c, c ∈ (forTables M (subtreeTables r)).lists t →
      on.how.keepsLeft = false ∧ on.how.isSemi = false ∧ lands D.schema c t r = true ∧
        ∀ x ∈ c.refs,
          readsRight on l.sideAlias r.sideAlias left.columns right.columns x = true := by
    intro t c hc
    obtain ⟨hc, ht⟩ := mem_forTables.mp hc
    rcases lands_join (hland t c hc) with h | h
    · exact absurd ht h.2.1
    · rw [hcl, hcr]
      exact ⟨h.1, h.2.1, h.2.2.2.1, h.2.2.2.2⟩
  have hil := ihl hl (fun t c hc => (hMl t c hc).2.1)
    fun t c hc => hshape t c (mem_forTables.mp hc).1
  have hir := ihr hr (fun t c hc => (hMr t c hc).2.2.1)
    fun t c hc => hshape t c (mem_forTables.mp hc).1
  refine bind_eq_ok.mpr ⟨_, hil, bind_eq_ok.mpr ⟨_, hir, joinFrames_ok.mpr ⟨?_, ?_⟩⟩⟩
  · rw [sideAlias_insert, sideAlias_insert]
    exact hj.filter _ _
  · rw [sideAlias_insert, sideAlias_insert,
      joined_filter (fun t c hc => ⟨(hMl t c hc).1, (hMl t c hc).2.2⟩)
        fun t c hc => ⟨(hMr t c hc).1, (hMr t c hc).2.1, (hMr t c hc).2.2.2⟩]
    refine congrArg _ (funext fun row => ?_)
    rw [Bool.eq_iff_iff, Bool.and_eq_true, accepts_iff, accepts_iff, accepts_iff]
    constructor
    · intro hall
      exact ⟨fun t c hc => hall t c (mem_forTables.mp hc).1,
        fun t c hc => hall t c (mem_forTables.mp hc).1⟩
    · rintro ⟨hall, hall'⟩ t c hc
      rcases lands_join (hland t c hc) with h | h
      · exact hall t c (mem_forTables.mpr ⟨hc, mem_of_lands h.2.2.1⟩)
      · exact hall' t c (mem_forTables.mpr ⟨hc, mem_of_lands h.2.2.2.1⟩)

end Inserts

/-- **Inserting conjuncts that land filters what the plan returns.** -/
theorem exec_insert {S : Scalars V} {D : Database V} (p : PlanNode V) : Inserts S D p := by
  induction p with
  | scan t cols a => exact inserts_scan t cols a
  | filter input e ih =>
    intro M f h hland hshape
    obtain ⟨df, hdf, h⟩ := bind_eq_ok.mp h
    obtain ⟨hc, rfl⟩ := filterFrame_ok.mp h
    refine bind_eq_ok.mpr ⟨_, ih hdf hland hshape, filterFrame_ok.mpr ⟨hc, ?_⟩⟩
    rw [Frame.filter_filter, Frame.filter_filter]
    exact congrArg _ (funext fun r => Bool.and_comm _ _)
  | join l r on ihl ihr => exact ihl.join ihr on
  | _ =>
    intro M f h hland hshape
    -- no conjunct lands in a plan of another kind
    have hnone : ∀ t c, c ∉ M.lists t := fun t c hc => absurd (hland t c hc) (by simp [lands])
    rw [insert_of_empty _ hnone, Frame.filter_true (accepts_of_empty hnone)]
    exact h

/-! ## 6. Pushing keeps what the plan returns -/

omit [DecidableEq V] in
theorem mem_addConjunct {dest : Expr V → Option String} {M : Dict String (List (Expr V))}
    {t : String} {c d : Expr V} :
    c ∈ (addConjunct dest M d).lists t ↔ c ∈ M.lists t ∨ c = d ∧ dest d = some t := by
  unfold addConjunct
  cases hd : dest d with
  | none => simp
  | some u =>
    rw [Dict.lists_push]
    by_cases hu : t = u
    · simp [hu]
    · simp [hu, Ne.symm hu]

omit [DecidableEq V] in
theorem mem_pushable {dest : Expr V → Option String} {cs : List (Expr V)} {t : String}
    {c : Expr V} : c ∈ (pushable dest cs).lists t ↔ c ∈ cs ∧ dest c = some t := by
  have hfold : ∀ (cs : List (Expr V)) (M : Dict String (List (Expr V))),
      c ∈ (cs.foldl (addConjunct dest) M).lists t ↔
        c ∈ M.lists t ∨ c ∈ cs ∧ dest c = some t := by
    intro cs
    induction cs with
    | nil => simp
    | cons d cs ih =>
      intro M
      rw [List.foldl_cons, ih, mem_addConjunct, List.mem_cons]
      constructor
      · rintro ((h | ⟨rfl, h⟩) | h)
        · exact .inl h
        · exact .inr ⟨.inl rfl, h⟩
        · exact .inr ⟨.inr h.1, h.2⟩
      · rintro (h | ⟨rfl | h, ht⟩)
        · exact .inl (.inl h)
        · exact .inl (.inr ⟨rfl, ht⟩)
        · exact .inr ⟨h, ht⟩
  rw [pushable, hfold]
  simp

omit [DecidableEq V] in
/-- A conjunct that is routed to a table reads a column. -/
theorem refs_of_route {sch : Dict String (List String)} {how : JoinHow} {lt rt : List String}
    {c : Expr V} {t : String} (h : route sch how lt rt c = some t) : c.refs ≠ [] := by
  intro hn
  have hcols : tablesOf sch c = [] := by rw [tablesOf, Expr.columns_eq, hn]; rfl
  simp [route, hcols] at h

omit [DecidableEq V] in
/-- The conjuncts of a predicate that can be evaluated can be evaluated. -/
theorem check_splitAnd {cols : List String} {e : Expr V} : e.check cols = .ok () →
    ∀ c ∈ splitAnd e, c.check cols = .ok () := by
  induction e with
  | and a b ha hb =>
    intro h c hc
    obtain ⟨_, hca, h⟩ := bind_eq_ok.mp h
    obtain ⟨_, hcb, h⟩ := bind_eq_ok.mp h
    rcases List.mem_append.mp hc with hc | hc
    · exact ha hca c hc
    · exact hb hcb c hc
  | _ =>
    intro h c hc
    rw [List.mem_singleton.mp hc]
    exact h

/-- Pushing the conjuncts of a filter over a join keeps what it returns. -/
theorem exec_pushJoin {S : Scalars V} {D : Database V} {l r : PlanNode V} {on : JoinOn V}
    {e : Expr V} {df f : Frame V} {dest : Expr V → Option String}
    (hdest : dest = route D.schema on.how (subtreeTables l) (subtreeTables r))
    (hdf : exec S D (.join l r on) = .ok df) (hf : filterFrame S df e = .ok f)
    (hland : ∀ c ∈ splitAnd e, ∀ t, dest c = some t → lands D.schema c t (.join l r on) = true)
    (hshape : (remaining dest (splitAnd e)).Pairwise
      fun a b => a.isSeries = true → b.isSeries = true) :
    exec S D (refilter (insert (.join l r on) (pushable dest (splitAnd e)))
      (remaining dest (splitAnd e))) = .ok f := by
  obtain ⟨hcheck, rfl⟩ := filterFrame_ok.mp hf
  have hparts := check_splitAnd hcheck
  have hins := exec_insert _ hdf (M := pushable dest (splitAnd e))
    (fun t c hc => hland c (mem_pushable.mp hc).1 t (mem_pushable.mp hc).2)
    fun t c hc => ⟨(Expr.check_ok.mp (hparts c (mem_pushable.mp hc).1)).2,
      isSeries_of_refs (refs_of_route (hdest ▸ (mem_pushable.mp hc).2))⟩
  -- a row passes all conjuncts when it passes those that are pushed and those that remain
  have hrow : ∀ row, S.holds (e.value S df.columns row) =
      (accepts S df.columns (pushable dest (splitAnd e)) row &&
        (remaining dest (splitAnd e)).all fun c => S.holds (c.value S df.columns row)) := by
    intro row
    rw [holds_splitAnd, Bool.eq_iff_iff, Bool.and_eq_true, accepts_iff, List.all_eq_true,
      List.all_eq_true]
    constructor
    · intro hall
      exact ⟨fun t c hc => hall c (mem_pushable.mp hc).1,
        fun c hc => hall c (List.mem_filter.mp hc).1⟩
    · rintro ⟨hpush, hstay⟩ c hc
      cases hd : dest c with
      | some t => exact hpush t c (mem_pushable.mpr ⟨hc, hd⟩)
      | none => exact hstay c (List.mem_filter.mpr ⟨hc, by rw [hd]; rfl⟩)
  simp only [hrow, ← Frame.filter_filter]
  cases hrem : remaining dest (splitAnd e) with
  | nil =>
    rw [refilter, hins]
    simp only [List.all_nil]
    rw [Frame.filter_true fun _ => rfl]
  | cons c cs =>
    rw [hrem] at hshape
    refine bind_eq_ok.mpr ⟨_, hins, filterFrame_ok.mpr ⟨?_, ?_⟩⟩
    · refine check_conjoin (fun e' he' => hparts e' ?_) hshape
      exact (List.mem_filter.mp (hrem ▸ he' : e' ∈ remaining dest (splitAnd e))).1
    · simp only [holds_conjoin, Frame.filter_columns]

omit [DecidableEq V] in
/-- The join a plan becomes when the filters above it are pushed away entirely. -/
def topJoin (sch : Dict String (List String)) :
    PlanNode V → Option (PlanNode V × PlanNode V × JoinOn V)
  | .join l r on => some (l, r, on)
  | .filter input e => (topJoin sch input).filter fun j =>
      (splitAnd e).all fun c =>
        (route sch j.2.2.how (subtreeTables j.1) (subtreeTables j.2.1) c).isSome
  | _ => none

omit [DecidableEq V] in
/-- The conjuncts of `e` over the join `j` may be pushed: either none is, or each that is lands
on its table and no constant conjunct is left to the right of one that reads a column. -/
def pushes (sch : Dict String (List String)) (e : Expr V)
    (j : PlanNode V × PlanNode V × JoinOn V) : Bool :=
  let dest := route sch j.2.2.how (subtreeTables j.1) (subtreeTables j.2.1)
  (splitAnd e).all (fun c => (dest c).isNone) ||
    ((splitAnd e).all (fun c => (dest c).all fun t => lands sch c t (.join j.1 j.2.1 j.2.2)) &&
      decide ((remaining dest (splitAnd e)).Pairwise
        fun a b => a.isSeries = true → b.isSeries = true))

omit [DecidableEq V] in
/-- **The plans `push_predicates` is right about.** -/
def pushSafe (sch : Dict String (List String)) : PlanNode V → Bool
  | .scan _ _ _ => true
  | .derived input _ => pushSafe sch input
  | .filter input e => pushSafe sch input && (topJoin sch input).all (pushes sch e)
  | .project input _ => pushSafe sch input
  | .join l r _ => pushSafe sch l && pushSafe sch r
  | .aggregate input _ _ => pushSafe sch input
  | .window input _ => pushSafe sch input
  | .sort input _ => pushSafe sch input
  | .limit input _ _ => pushSafe sch input
  | .distinct input => pushSafe sch input
  | .setOp l r _ _ => pushSafe sch l && pushSafe sch r

omit [DecidableEq V] in
theorem sideAlias_pushPredicates (sch : Dict String (List String)) (p : PlanNode V) :
    (pushPredicates sch p).sideAlias = p.sideAlias := by
  rw [← sideAlias_unfiltered, unfiltered_pushPredicates, sideAlias_unfiltered]

omit [DecidableEq V] in
/-- A plan whose pushed form is a join has a top join, the same up to filters. -/
theorem topJoin_of_push {sch : Dict String (List String)} : ∀ {p l' r' : PlanNode V}
    {on : JoinOn V}, pushPredicates sch p = .join l' r' on →
    ∃ l r, topJoin sch p = some (l, r, on) ∧ unfiltered l' = unfiltered l ∧
      unfiltered r' = unfiltered r := by
  intro p
  induction p with
  | join l r on ihl ihr =>
    intro l' r' on' h
    cases h
    exact ⟨l, r, rfl, unfiltered_pushPredicates sch l, unfiltered_pushPredicates sch r⟩
  | filter input e ih =>
    intro l' r' on' h
    rw [pushPredicates] at h
    unfold pushFilter at h
    split at h
    · rename_i l1 r1 on1 hin
      obtain ⟨l, r, htop, hl, hr⟩ := ih hin
      have htl : subtreeTables l1 = subtreeTables l := by
        rw [← subtreeTables_unfiltered, hl, subtreeTables_unfiltered]
      have htr : subtreeTables r1 = subtreeTables r := by
        rw [← subtreeTables_unfiltered, hr, subtreeTables_unfiltered]
      dsimp only at h
      rw [htl, htr] at h
      split at h
      · cases h
      · cases hrem : remaining (route sch on1.how (subtreeTables l) (subtreeTables r))
            (splitAnd e) with
        | cons c cs =>
          rw [hrem] at h
          cases h
        | nil =>
          rw [hrem, refilter, insert] at h
          cases h
          refine ⟨l, r, ?_, by rw [unfiltered_insert, hl], by rw [unfiltered_insert, hr]⟩
          rw [topJoin, htop, Option.filter_some, if_pos]
          rw [List.all_eq_true]
          intro c hc
          have hnot := List.filter_eq_nil_iff.mp hrem c hc
          simpa [Option.isSome_iff_ne_none] using hnot
    · cases h
  | _ =>
    intro l' r' on' h
    cases h

omit [DecidableEq V] in
theorem pushFilter_not_project (sch : Dict String (List String)) (p : PlanNode V) (e : Expr V) :
    (pushFilter sch p e).isProject = false := by
  unfold pushFilter
  split
  · dsimp only
    split
    · rfl
    · unfold refilter
      split <;> rfl
  · rfl

/-- The filter case: over a join the conjuncts are pushed, over anything else the filter stays. -/
theorem exec_pushFilter {S : Scalars V} {D : Database V} {input : PlanNode V} {e : Expr V}
    {df f : Frame V} (hsafe : (topJoin D.schema input).all (pushes D.schema e) = true)
    (hdf : exec S D (pushPredicates D.schema input) = .ok df)
    (hf : filterFrame S df e = .ok f) :
    exec S D (pushFilter D.schema (pushPredicates D.schema input) e) = .ok f := by
  have hstay : exec S D (.filter (pushPredicates D.schema input) e) = .ok f :=
    bind_eq_ok.mpr ⟨df, hdf, hf⟩
  cases hin : pushPredicates D.schema input with
  | join l' r' on =>
    obtain ⟨l, r, htop, hl, hr⟩ := topJoin_of_push hin
    rw [hin] at hdf hstay
    have htl : subtreeTables l' = subtreeTables l := by
      rw [← subtreeTables_unfiltered, hl, subtreeTables_unfiltered]
    have htr : subtreeTables r' = subtreeTables r := by
      rw [← subtreeTables_unfiltered, hr, subtreeTables_unfiltered]
    have hlands : ∀ c t, lands D.schema c t (.join l r on) =
        lands D.schema c t (.join l' r' on) := by
      intro c t
      rw [← lands_unfiltered, ← lands_unfiltered D.schema c t (.join l' r' on), unfiltered,
        unfiltered, hl, hr]
    rw [htop, Option.all_some, pushes] at hsafe
    simp only [Bool.or_eq_true, Bool.and_eq_true, decide_eq_true_eq] at hsafe
    unfold pushFilter
    dsimp only
    split
    · exact hstay
    · rename_i hnone
      rw [htl, htr] at hnone ⊢
      obtain ⟨hall, hshape⟩ := hsafe.resolve_left hnone
      refine exec_pushJoin (by rw [htl, htr]) hdf hf (fun c hc t ht => ?_) hshape
      have hc' := List.all_eq_true.mp hall c hc
      rw [ht, Option.all_some, hlands] at hc'
      exact hc'
  | _ =>
    rw [hin] at hstay
    exact hstay

/-- What the induction over a plan carries: the pushed plan returns what the plan returns, and so
does the frame a sort above it goes back to. -/
structure Kept (S : Scalars V) (D : Database V) (p q : PlanNode V) : Prop where
  returns : ∀ {f}, exec S D p = .ok f → exec S D q = .ok f
  source : ∀ {df s}, sortSource S D p df = .ok s → sortSource S D q df = .ok s

theorem Kept.of_not_project {S : Scalars V} {D : Database V} {p q : PlanNode V}
    (hp : p.isProject = false) (hq : q.isProject = false)
    (h : ∀ {f}, exec S D p = .ok f → exec S D q = .ok f) : Kept S D p q where
  returns := h
  source := by
    intro df s hs
    rw [sortSource_of_not_project hp] at hs
    rw [sortSource_of_not_project hq]
    exact hs

omit [DecidableEq V] in
/-- A sort that returned gives the same over a source that returns the same. -/
theorem sortFrame_mono {S : Scalars V} {df f : Frame V} {keys : List (Expr V × Bool)}
    {src src' : Except DbError (Frame V)} (hsrc : ∀ {s}, src = .ok s → src' = .ok s)
    (h : sortFrame S df keys src = .ok f) : sortFrame S df keys src' = .ok f := by
  unfold sortFrame at h ⊢
  split at h
  · rename_i hk
    rw [if_pos hk]
    exact h
  · rename_i hk
    rw [if_neg hk]
    obtain ⟨pairs, hp, h⟩ := bind_eq_ok.mp h
    refine bind_eq_ok.mpr ⟨pairs, ?_, h⟩
    unfold sortPairs at hp ⊢
    split at hp
    · rename_i hall
      rw [if_pos hall]
      exact hp
    · rename_i hall
      rw [if_neg hall]
      obtain ⟨s, hs, hp⟩ := bind_eq_ok.mp hp
      exact bind_eq_ok.mpr ⟨s, hsrc hs, hp⟩

theorem pushPredicates_kept {S : Scalars V} {D : Database V} : ∀ {p : PlanNode V},
    pushSafe D.schema p = true → Kept S D p (pushPredicates D.schema p) := by
  intro p
  induction p with
  | scan t c a => exact fun _ => ⟨id, id⟩
  | derived input a ih => exact fun h => .of_not_project rfl rfl (ih h).returns
  | filter input e ih =>
    intro hsafe
    rw [pushSafe, Bool.and_eq_true] at hsafe
    refine .of_not_project rfl (pushFilter_not_project _ _ _) fun {f} h => ?_
    obtain ⟨df, hdf, h⟩ := bind_eq_ok.mp h
    exact exec_pushFilter hsafe.2 ((ih hsafe.1).returns hdf) h
  | project input items ih =>
    intro hsafe
    refine ⟨fun {f} h => ?_, (ih hsafe).returns⟩
    obtain ⟨df, hdf, h⟩ := bind_eq_ok.mp h
    exact bind_eq_ok.mpr ⟨df, (ih hsafe).returns hdf, h⟩
  | join l r on ihl ihr =>
    intro hsafe
    rw [pushSafe, Bool.and_eq_true] at hsafe
    refine .of_not_project rfl rfl fun {f} h => ?_
    obtain ⟨left, hl, h⟩ := bind_eq_ok.mp h
    obtain ⟨right, hr, h⟩ := bind_eq_ok.mp h
    refine bind_eq_ok.mpr ⟨left, (ihl hsafe.1).returns hl, bind_eq_ok.mpr ⟨right,
      (ihr hsafe.2).returns hr, ?_⟩⟩
    rw [sideAlias_pushPredicates, sideAlias_pushPredicates]
    exact h
  | aggregate input keys aggs ih =>
    intro hsafe
    refine .of_not_project rfl rfl fun {f} h => ?_
    obtain ⟨df, hdf, h⟩ := bind_eq_ok.mp h
    exact bind_eq_ok.mpr ⟨df, (ih hsafe).returns hdf, h⟩
  | window input funcs ih =>
    intro hsafe
    refine .of_not_project rfl rfl fun {f} h => ?_
    obtain ⟨df, hdf, h⟩ := bind_eq_ok.mp h
    exact bind_eq_ok.mpr ⟨df, (ih hsafe).returns hdf, h⟩
  | sort input keys ih =>
    intro hsafe
    refine .of_not_project rfl rfl fun {f} h => ?_
    rw [exec_sort] at h
    obtain ⟨df, hdf, h⟩ := bind_eq_ok.mp h
    rw [pushPredicates, exec_sort]
    exact bind_eq_ok.mpr ⟨df, (ih hsafe).returns hdf, sortFrame_mono (ih hsafe).source h⟩
  | limit input n o ih =>
    intro hsafe
    refine .of_not_project rfl rfl fun {f} h => ?_
    obtain ⟨df, hdf, h⟩ := bind_eq_ok.mp h
    exact bind_eq_ok.mpr ⟨df, (ih hsafe).returns hdf, h⟩
  | distinct input ih =>
    intro hsafe
    refine .of_not_project rfl rfl fun {f} h => ?_
    obtain ⟨df, hdf, h⟩ := bind_eq_ok.mp h
    exact bind_eq_ok.mpr ⟨df, (ih hsafe).returns hdf, h⟩
  | setOp l r op d ihl ihr =>
    intro hsafe
    rw [pushSafe, Bool.and_eq_true] at hsafe
    refine .of_not_project rfl rfl fun {f} h => ?_
    obtain ⟨left, hl, h⟩ := bind_eq_ok.mp h
    obtain ⟨right, hr, h⟩ := bind_eq_ok.mp h
    exact bind_eq_ok.mpr ⟨left, (ihl hsafe.1).returns hl, bind_eq_ok.mpr ⟨right,
      (ihr hsafe.2).returns hr, h⟩⟩

/-- On the cuDF path, whenever every conjunct that is moved lands on its own table. -/
theorem returns_pushPredicates {S : Scalars V} {D : Database V} {p : PlanNode V} {f : Frame V}
    (hsafe : pushSafe D.schema p = true) (h : exec S D p = .ok f) :
    exec S D (pushPredicates D.schema p) = .ok f := (pushPredicates_kept hsafe).returns h

/-- Three tables with one row each: `a(k)`, `b(k2, x)` and `c(k3)`. -/
def threeTables : Database Nat where
  tables := ((∅ : Dict String (Frame Nat)).set "a" (numbers ["k"] [[some 1]])).set "b"
    (numbers ["k2", "x"] [[some 1, some 5]]) |>.set "c" (numbers ["k3"] [[some 1]])
  nodup := by
    intro t f hf
    simp only [Dict.get?_set] at hf
    split at hf
    · cases hf
      decide
    · split at hf
      · cases hf
        decide
      · split at hf
        · cases hf
          decide
        · cases hf

/-- `a LEFT JOIN b ON k = k2 JOIN c ON k = k3 WHERE <e>`. -/
def leftThenInner (e : Expr Nat) : PlanNode Nat :=
  .filter (.join (.join (.scan "a" none (some "a")) (.scan "b" none (some "b"))
    (joinOn "k" "k2" .left)) (.scan "c" none (some "c")) (joinOn "k" "k3" .inner)) e

end RyuDB.Sql
