/-
# GROUP BY and HAVING

For a plain GROUP BY `_build_select` takes the group keys from the select list: every item that is no
aggregate is a key, and the GROUP BY list is only asked whether there is one.  `_having_predicate`
replaces the aggregates of HAVING by the columns of the same aggregates of the list, matched by their
SQL text, and adds the others as `_hv1`, `_hv2`, ...; what is left may name output columns only.

Wanted (`Honoured`): the items are determined by the GROUP BY expressions, and the rows are one for
each distinct tuple of their values on which HAVING is true.  `group_by_honoured` says where that is
so, and that without HAVING it is so exactly where the non-aggregate items of the list are determined
by the GROUP BY expressions and tell the groups apart.

In GROUP BY a name is an input column or else an output name, and a number is the place of an item; in
HAVING a bare name is an output name or else an input column, and a qualified one an input column.
Subqueries, and aggregates with FILTER, are refused in HAVING and have no form here.
-/
import RyuDB.GroupingSets

namespace RyuDB.Sql

variable {V : Type}

/-! ## 1. HAVING and GROUP BY as they are written -/

/-- A HAVING predicate; an aggregate is given by its place among those `find_all` returns. -/
inductive HavingExpr (V : Type) (n : Nat) where
  | col (name : String) (table : Option String)
  | lit (value : Cell V)
  | and (left right : HavingExpr V n)
  | or (left right : HavingExpr V n)
  | not (expr : HavingExpr V n)
  | app (op : Operation V) (args : Fin op.arity → HavingExpr V n)
  | agg (i : Fin n)

namespace HavingExpr

variable {n : Nat}

/-- The predicate with a column for each aggregate. -/
def lower (names : Fin n → String) : HavingExpr V n → Expr V
  | .col name table => .col name table
  | .lit v => .lit v
  | .and l r => .and (lower names l) (lower names r)
  | .or l r => .or (lower names l) (lower names r)
  | .not e => .not (lower names e)
  | .app op args => .app op fun i => lower names (args i)
  | .agg i => .col (names i) none

/-- The column references. -/
def refs : HavingExpr V n → List ColRef
  | .col name table => [⟨name, table⟩]
  | .lit _ => []
  | .and l r => l.refs ++ r.refs
  | .or l r => l.refs ++ r.refs
  | .not e => e.refs
  | .app _ args => (List.ofFn fun i => (args i).refs).flatten
  | .agg _ => []

/-- The value of the predicate, given those of the references and the aggregates. -/
def value (S : Scalars V) (col : ColRef → Cell V) (agg : Fin n → Cell V) : HavingExpr V n → Cell V
  | .col name table => col ⟨name, table⟩
  | .lit v => v
  | .and l r => S.conj (value S col agg l) (value S col agg r)
  | .or l r => S.disj (value S col agg l) (value S col agg r)
  | .not e => S.neg (value S col agg e)
  | .app op args => op.apply fun i => value S col agg (args i)
  | .agg i => agg i

/-- **The lowered predicate** has the value of the predicate, where its columns have the values of
the references and the aggregates. -/
theorem value_lower {S : Scalars V} {cols : List String} {r : Row V} {names : Fin n → String}
    {col : ColRef → Cell V} {agg : Fin n → Cell V} {e : HavingExpr V n}
    (hcol : ∀ c ∈ e.refs, (c.meant cols).bind r = col c)
    (hagg : ∀ i, (resolve cols (names i) none).bind r = agg i) :
    (e.lower names).value S cols r = e.value S col agg := by
  induction e with
  | col name table => exact hcol _ (List.mem_singleton.mpr rfl)
  | lit v => rfl
  | and l r' hl hr =>
    rw [lower, Expr.value, value, hl fun c hc => hcol c (List.mem_append_left _ hc),
      hr fun c hc => hcol c (List.mem_append_right _ hc)]
  | or l r' hl hr =>
    rw [lower, Expr.value, value, hl fun c hc => hcol c (List.mem_append_left _ hc),
      hr fun c hc => hcol c (List.mem_append_right _ hc)]
  | not e ih => rw [lower, Expr.value, value, ih hcol]
  | app op args ih =>
    rw [lower, Expr.value, value]
    refine congrArg op.apply (funext fun i => ih i fun c hc => hcol c ?_)
    exact List.mem_flatten.mpr ⟨_, (List.mem_ofFn' _ _).mpr ⟨i, rfl⟩, hc⟩
  | agg i => exact hagg i

end HavingExpr

/-- A HAVING clause: its aggregates with their SQL texts, and the predicate. -/
structure Having (V : Type) where
  found : List (String × AggFunc V)
  expr : HavingExpr V found.length

/-- An item, with the SQL text of its aggregate. -/
structure AggItem (V : Type) where
  item : SelectItem V
  sql : Option String

/-- A term of GROUP BY. -/
inductive GroupTerm (V : Type) where
  | expr (e : Expr V)
  | ordinal (n : Nat)

/-- A SELECT with a plain GROUP BY list, above its FROM and WHERE clauses.  An SQL text determines the
aggregate. -/
structure GroupSelect (V : Type) where
  items : List (AggItem V)
  groupBy : List (GroupTerm V)
  having : Option (Having V)
  nonempty : items ≠ []
  grouped : groupBy ≠ []
  texts : ∀ i ∈ items, ∀ t, i.sql = some t → ∃ a, i.item.value = .agg a ∧
    ∀ h ∈ having, ∀ x ∈ h.found, x.1 = t → x.2 = a

/-- `agg_map`; the first item of a text counts. -/
def aggMap (items : List (AggItem V)) : List (String × String) :=
  items.filterMap fun i => i.sql.map fun t => (t, i.item.name)

/-- The column each aggregate of HAVING is replaced by; `k` are those that are new so far. -/
def havingNames (known : List (String × String)) : Nat → List (String × AggFunc V) → List String
  | _, [] => []
  | k, (sql, _) :: found =>
    match known.lookup sql with
    | some aliasName => aliasName :: havingNames known k found
    | none => ("_hv" ++ toString (k + 1)) :: havingNames known (k + 1) found

/-- `extra_aggs`: the aggregates of HAVING that the list does not have. -/
def havingExtra (known : List (String × String)) (found : List (String × AggFunc V)) :
    List (AggFunc V) :=
  (found.filter fun a => (known.lookup a.1).isNone).map Prod.snd

/-- `_having_predicate`, without the check of the columns. -/
def havingPredicate (items : List (AggItem V)) (h : Having V) : Expr V × List (AggFunc V) :=
  (h.expr.lower fun i => (havingNames (aggMap items) 0 h.found).getD i "",
    havingExtra (aggMap items) h.found)

/-- A term as an expression. -/
def GroupTerm.toExpr (num : Nat → V) : GroupTerm V → Expr V
  | .expr e => e
  | .ordinal n => .lit (some (num n))

namespace GroupSelect

/-- The SELECT whose top is built. -/
def lowered (num : Nat → V) (s : GroupSelect V) : Select V where
  items := s.items.map AggItem.item
  groupBy := s.groupBy.map (GroupTerm.toExpr num)
  groupingSets := none
  having := s.having.map (havingPredicate s.items)
  distinct := false
  order := []
  limit := none
  nonempty := fun h => s.nonempty (List.map_eq_nil_iff.mp h)

/-- The names of the items. -/
def names (s : GroupSelect V) : List String := s.items.map fun i => i.item.name

/-- The items that are no aggregates, as expressions. -/
def keys (s : GroupSelect V) : List (Expr V × String) := keysOf (s.items.map AggItem.item)

/-- The aggregates of the list and those HAVING adds. -/
def aggs (s : GroupSelect V) : List (AggFunc V × String) :=
  aggsOf (s.items.map AggItem.item) ++ hvAggs (((s.having.map (havingPredicate s.items)).map
    Prod.snd).getD [])

/-! ## 2. What is wanted -/

/-- The expression of an item, when it is no aggregate. -/
def exprOf (i : AggItem V) : Option (Expr V) :=
  match i.item.value with
  | .expr e => some e
  | _ => none

/-- What a term of GROUP BY means. -/
def meaning (cols : List String) (s : GroupSelect V) : GroupTerm V → Option (Expr V)
  | .ordinal 0 => none
  | .ordinal (n + 1) => s.items[n]?.bind exprOf
  | .expr (.col n none) =>
    if n ∈ cols then some (.col n none)
    else (s.items.find? fun i => i.item.name = n).bind exprOf
  | .expr e => some e

/-- The GROUP BY expressions. -/
def groupExprs (cols : List String) (s : GroupSelect V) : Option (List (Expr V)) :=
  s.groupBy.mapM (s.meaning cols)

end GroupSelect

/-- The expression is built from the expressions of a list: it has one value on rows that agree on
them. -/
def Determined (cols : List String) (es : List (Expr V)) : Expr V → Prop
  | .col n t => ∃ n' t', .col n' t' ∈ es ∧ resolve cols n' t' = resolve cols n t
  | .lit _ => True
  | .and l r => .and l r ∈ es ∨ Determined cols es l ∧ Determined cols es r
  | .or l r => .or l r ∈ es ∨ Determined cols es l ∧ Determined cols es r
  | .not e => .not e ∈ es ∨ Determined cols es e
  | .app op args => .app op args ∈ es ∨ ∀ i, Determined cols es (args i)

/-- Two rows agree on some expressions. -/
def Agree (S : Scalars V) (cols : List String) (es : List (Expr V)) (r r' : Row V) : Prop :=
  ∀ e ∈ es, e.value S cols r = e.value S cols r'

section Wanted

variable [DecidableEq V]

/-- The value of a reference of HAVING on a group. -/
def havingCol (S : Scalars V) (num : Nat → V) (cols : List String) (s : GroupSelect V)
    (rows : List (Row V)) (c : ColRef) : Cell V :=
  match c.table, s.items.find? fun i => i.item.name = c.name with
  | none, some i => itemAt S num cols (.group none rows) i.item
  | _, _ => rows.head?.bind fun r => (c.meant cols).bind r

/-- HAVING is true on a group. -/
def GroupSelect.keeps (S : Scalars V) (num : Nat → V) (cols : List String) (s : GroupSelect V)
    (rows : List (Row V)) : Bool :=
  match s.having with
  | none => true
  | some h => S.holds (h.expr.value S (havingCol S num cols s rows) fun i =>
      aggCell S cols rows ((h.found.get i).2, ""))

/-- **The rows wanted** for the GROUP BY expressions `es`. -/
def GroupSelect.wantedRows (S : Scalars V) (num : Nat → V) (df : Frame V) (s : GroupSelect V)
    (es : List (Expr V)) : List (List (Cell V)) :=
  ((partitionBy S df es).filter (s.keeps S num df.columns)).map fun rows =>
    s.items.map fun i => itemAt S num df.columns (.group none rows) i.item

/-- **GROUP BY is honoured**: its terms mean expressions that determine the items, and the rows are
those wanted, in any order. -/
def Honoured (S : Scalars V) (num : Nat → V) (df : Frame V) (s : GroupSelect V) (f : Frame V) :
    Prop :=
  ∃ es, s.groupExprs df.columns = some es ∧ (∀ k ∈ s.keys, Determined df.columns es k.1) ∧
    (f.rows.map (keyOf s.names)).Perm (s.wantedRows S num df es)

/-- The keys tell the groups of the rows apart. -/
def Tells (S : Scalars V) (df : Frame V) (es : List (Expr V)) (ks : List (Expr V)) : Prop :=
  (∀ r ∈ df.rows, ∀ r' ∈ df.rows, Agree S df.columns ks r r' → Agree S df.columns es r r') ∧
    (ks = [] → df.rows ≠ [])

omit [DecidableEq V] in
/-- The names of the items and of the aggregates of HAVING are different and do not get in the
way. -/
structure GroupSelect.Clear (cols : List String) (s : GroupSelect V) : Prop where
  names : (aggNames s.keys s.aggs).Nodup
  captureless : Captureless cols s.keys s.aggs

omit [DecidableEq V] in
/-- Every reference of HAVING has the name of an item, and a qualified one means the column that this
item is. -/
def GroupSelect.HavingTold (cols : List String) (s : GroupSelect V) : Prop :=
  ∀ h ∈ s.having, ∀ c ∈ h.expr.refs, c.meant (aggNames s.keys s.aggs) = some c.name ∧
    ∃ i ∈ s.items, i.item.name = c.name ∧
      (c.table = none ∨ ∃ d : ColRef, i.item.value = .expr d.expr ∧ d.meant cols = c.meant cols)

/-- The items are determined by the GROUP BY expressions and tell the groups apart. -/
def GroupSelect.GroupsTold (S : Scalars V) (df : Frame V) (s : GroupSelect V) : Prop :=
  ∃ es, s.groupExprs df.columns = some es ∧ (∀ k ∈ s.keys, Determined df.columns es k.1) ∧
    Tells S df es (s.keys.map Prod.fst)

/-- The condition on a SELECT over an input. -/
structure GroupSelect.Told (S : Scalars V) (df : Frame V) (s : GroupSelect V) : Prop where
  clear : s.Clear df.columns
  having : s.HavingTold df.columns
  groups : s.GroupsTold S df

end Wanted

/-! ## 3. Expressions and groups -/

section Groups

variable {S : Scalars V} {cols : List String} {es ks : List (Expr V)} {r r' : Row V}

/-- What is determined has one value on rows that agree. -/
theorem Determined.value : ∀ {e : Expr V}, Determined cols es e → Agree S cols es r r' →
    e.value S cols r = e.value S cols r'
  | .col n t, ⟨n', t', hmem, hres⟩, h => by
    have hval := h _ hmem
    rw [Expr.value, Expr.value, hres] at hval
    exact hval
  | .lit _, _, _ => rfl
  | .and l r'', h, ha => by
    rcases h with hmem | ⟨hl, hr⟩
    · exact ha _ hmem
    · rw [Expr.value, Expr.value, hl.value ha, hr.value ha]
  | .or l r'', h, ha => by
    rcases h with hmem | ⟨hl, hr⟩
    · exact ha _ hmem
    · rw [Expr.value, Expr.value, hl.value ha, hr.value ha]
  | .not e, h, ha => by
    rcases h with hmem | he
    · exact ha _ hmem
    · rw [Expr.value, Expr.value, he.value ha]
  | .app op args, h, ha => by
    rcases h with hmem | hargs
    · exact ha _ hmem
    · rw [Expr.value, Expr.value]
      exact congrArg op.apply (funext fun i => (hargs i).value ha)

/-- When every GROUP BY expression is determined by the keys, they tell the groups apart on every
input. -/
theorem tells_of_determined {df : Frame V} (hne : ks ≠ [])
    (h : ∀ e ∈ es, Determined df.columns ks e) : Tells S df es ks :=
  ⟨fun _ _ _ _ ha e he => (h e he).value ha, fun hnil => absurd hnil hne⟩

variable [DecidableEq V] {df : Frame V}

/-- The groups by a key that may have no part. -/
theorem partitionBy_eq_groups (h : es = [] → df.rows ≠ []) : partitionBy S df es =
    (df.rows.map fun r => es.map fun e => e.value S df.columns r).dedup.map fun k =>
      df.rows.filter fun r => (es.map fun e => e.value S df.columns r) = k := by
  by_cases hes : es = []
  · subst hes
    have hone : partitionBy S df ([] : List (Expr V)) = [df.rows] := rfl
    rw [hone]
    have hall : ∀ l : List (Row V), l ≠ [] →
        (l.map fun _ => ([] : Key V)).dedup = [[]] := by
      intro l hl
      induction l with
      | nil => exact absurd rfl hl
      | cons r l ih =>
        cases l with
        | nil => rfl
        | cons r' l => rw [List.map_cons, List.dedup_cons_of_mem (by simp), ih (by simp)]
    simp only [List.map_nil]
    rw [hall df.rows (h rfl)]
    simp
  · unfold partitionBy
    rw [if_neg (by simpa using hes)]

/-- Keys that tell the groups apart make them. -/
theorem partitionBy_of_tells (hne : es ≠ []) (hd : ∀ k ∈ ks, Determined df.columns es k)
    (ht : Tells S df es ks) : partitionBy S df ks = partitionBy S df es := by
  rw [partitionBy_eq_groups ht.2, partitionBy_eq_groups fun hnil => absurd hnil hne]
  refine Grouping.groups_congr fun r hr r' hr' => ?_
  rw [List.map_inj_left, List.map_inj_left]
  exact ⟨ht.1 r hr r' hr', fun ha k hk => (hd k hk).value ha⟩

/-- Keys that make as many groups tell them apart. -/
theorem tells_of_length (hne : es ≠ []) (hd : ∀ k ∈ ks, Determined df.columns es k)
    (hlen : (partitionBy S df ks).length = (partitionBy S df es).length) : Tells S df es ks := by
  have hrows : ks = [] → df.rows ≠ [] := by
    rintro rfl hnil
    rw [partitionBy_eq_groups fun h => absurd h hne, hnil] at hlen
    cases hlen
  refine ⟨fun r hr r' hr' ha => ?_, hrows⟩
  rw [partitionBy_eq_groups hrows, partitionBy_eq_groups fun h => absurd h hne, List.length_map,
    List.length_map] at hlen
  have hsame := Grouping.agree_of_length (fun i _ j _ hij => ?_) hlen.symm r hr r' hr'
    (List.map_inj_left.mpr ha)
  · exact List.map_inj_left.mp hsame
  · exact List.map_inj_left.mpr fun k hk => (hd k hk).value (List.map_inj_left.mp hij)

end Groups

/-! ## 4. The names of HAVING -/

section Names

/-- The HAVING-only aggregates, numbered from `k`. -/
def hvFrom (k : Nat) (extra : List (AggFunc V)) : List (AggFunc V × String) :=
  (extra.zipIdx k).map fun a => (a.1, "_hv" ++ toString (a.2 + 1))

theorem mem_of_lookup {t : String} {a : String} : ∀ {known : List (String × String)},
    known.lookup t = some a → (t, a) ∈ known
  | (t', a') :: known, h => by
    rw [List.lookup_cons] at h
    split at h
    · rename_i heq
      cases h
      rw [eq_of_beq heq]
      exact List.mem_cons_self
    · exact List.mem_cons_of_mem _ (mem_of_lookup h)

/-- **The name of an aggregate of HAVING** is that of an item of its text, or that of the aggregate
added for it. -/
theorem havingNames_get {known : List (String × String)} : ∀ {found : List (String × AggFunc V)}
    {k i : Nat} (hi : i < found.length),
      (found[i].1, (havingNames known k found).getD i "") ∈ known ∨
      (found[i].2, (havingNames known k found).getD i "") ∈ hvFrom k (havingExtra known found)
  | (sql, a) :: found, k, i, hi => by
    unfold havingNames
    cases hl : known.lookup sql with
    | some aliasName =>
      have hextra : havingExtra known ((sql, a) :: found) = havingExtra known found := by
        simp [havingExtra, hl]
      cases i with
      | zero => exact .inl (mem_of_lookup hl)
      | succ i =>
        rw [hextra]
        exact havingNames_get (Nat.lt_of_succ_lt_succ hi)
    | none =>
      have hextra : havingExtra known ((sql, a) :: found) = a :: havingExtra known found := by
        simp [havingExtra, hl]
      rw [hextra]
      cases i with
      | zero => exact .inr (List.mem_cons_self)
      | succ i =>
        rcases havingNames_get (k := k + 1) (Nat.lt_of_succ_lt_succ hi) with h | h
        · exact .inl h
        · exact .inr (List.mem_cons_of_mem _ h)

end Names

/-! ## 5. The rows -/

section Rows

variable [DecidableEq V] {S : Scalars V} {num : Nat → V} {D : Database V} {plan p : PlanNode V}
  {df f g : Frame V} {s : GroupSelect V}

omit [DecidableEq V] in
/-- An accepted SELECT: its plan, and the columns of the lowered HAVING. -/
theorem build_ok (h : buildOutput num plan (s.lowered num) = .ok p) :
    (∀ i ∈ s.items, i.item.value.isGrouping = false) ∧
      match s.having with
      | none => p = .aggregate plan s.keys s.aggs
      | some h => (if (havingExtra (aggMap s.items) h.found).isEmpty
          then p = .filter (.aggregate plan s.keys s.aggs) (havingPredicate s.items h).1
          else p = .project (.filter (.aggregate plan s.keys s.aggs) (havingPredicate s.items h).1)
            (dedupOutputNames (colItems (aggNames s.keys
              (aggsOf (s.items.map AggItem.item)))))) := by
  have hagg : (s.lowered num).aggregated = true := by
    have hne : (s.groupBy.map (GroupTerm.toExpr num)).isEmpty = false := by
      simpa using s.grouped
    simp [Select.aggregated, GroupSelect.lowered, hne]
  unfold buildOutput at h
  rw [show (s.lowered num).groupingSets = none from rfl] at h
  simp only [hagg, if_true] at h
  unfold buildAggregate at h
  split at h
  · cases h
  · rename_i hng
    refine ⟨fun i hi => Bool.eq_false_iff.mpr fun hgr => hng (List.any_eq_true.mpr
      ⟨i.item, List.mem_map.mpr ⟨i, hi, rfl⟩, hgr⟩), ?_⟩
    cases hh : s.having with
    | none =>
      have hlow : (s.lowered num).having = none := by rw [GroupSelect.lowered, hh]; rfl
      have haggs : s.aggs = aggsOf (s.items.map AggItem.item) := by
        rw [GroupSelect.aggs, hh]
        exact List.append_nil _
      rw [hlow] at h
      cases h
      rw [haggs]
      rfl
    | some hv =>
      have hlow : (s.lowered num).having = some (havingPredicate s.items hv) := by
        rw [GroupSelect.lowered, hh]
        rfl
      have haggs : s.aggs = aggsOf (s.items.map AggItem.item) ++
          hvAggs (havingExtra (aggMap s.items) hv.found) := by
        rw [GroupSelect.aggs, hh]
        rfl
      rw [hlow] at h
      dsimp only [havingPredicate] at h ⊢
      split at h
      · cases h
      · unfold buildHaving at h
        split at h
        · cases h
        · cases h
          rw [haggs]
          split <;> rfl

omit [DecidableEq V] in
/-- The aggregates of HAVING are among those of the plan, under the names that replace them. -/
theorem mem_aggs_of_having {h : Having V} (hh : s.having = some h) (i : Fin h.found.length) :
    ((h.found.get i).2, (havingNames (aggMap s.items) 0 h.found).getD i "") ∈ s.aggs := by
  rw [GroupSelect.aggs, hh]
  rcases havingNames_get (k := 0) i.isLt with hmem | hmem
  · refine List.mem_append_left _ ?_
    obtain ⟨x, hx, hpair⟩ := List.mem_filterMap.mp hmem
    obtain ⟨t, ht, heq⟩ := Option.map_eq_some_iff.mp hpair
    obtain ⟨a, ha, htext⟩ := s.texts x hx t ht
    obtain ⟨htext', hname⟩ := Prod.mk.inj heq
    have hfunc := htext h hh (h.found.get i) (List.get_mem _ _) htext'.symm
    refine mem_aggsOf.mpr ⟨x.item, List.mem_map.mpr ⟨x, hx, rfl⟩, ?_, hname⟩
    rw [ha, hfunc]
  · exact List.mem_append_right _ hmem

omit [DecidableEq V] in
/-- The names of the items are among those of the keys and aggregates. -/
theorem names_perm (hg : ∀ i ∈ s.items, i.item.value.isGrouping = false) :
    (aggNames s.keys (aggsOf (s.items.map AggItem.item))).Perm s.names := by
  have hall : ∀ i ∈ s.items.map AggItem.item, i.value.isGrouping = false := by
    intro i hi
    obtain ⟨x, hx, rfl⟩ := List.mem_map.mp hi
    exact hg x hx
  have hnames : s.names = (s.items.map AggItem.item).map SelectItem.name := by
    rw [List.map_map]
    rfl
  rw [GroupSelect.keys, aggNames_keysThenAggs hall, hnames]
  exact (keysThenAggs_perm _).map _

/-- **The rows of the aggregate**: one for each group by the keys, with the items and the aggregates
of HAVING under their names. -/
theorem aggregate_groups (hg : ∀ i ∈ s.items, i.item.value.isGrouping = false)
    (hc : s.Clear df.columns) (h : aggregateFrame S df s.keys s.aggs = .ok g) :
    g.columns = aggNames s.keys s.aggs ∧ ∃ row : List (Row V) → Row V,
      g.rows = (partitionBy S df (s.keys.map Prod.fst)).map row ∧ ∀ rows,
        (∀ i ∈ s.items, row rows i.item.name =
          itemAt S num df.columns (.group none rows) i.item) ∧
        ∀ a ∈ s.aggs, row rows a.2 = aggCell S df.columns rows a := by
  obtain ⟨hcols, row, hrows, hcells⟩ := aggregate_list hc.names hc.captureless h
  obtain ⟨x, l, hx⟩ := List.exists_cons_of_ne_nil s.nonempty
  have hitem : ∀ i ∈ s.items, (∃ e, i.item.value = .expr e ∧ (e, i.item.name) ∈ s.keys) ∨
      ∃ a, i.item.value = .agg a ∧ (a, i.item.name) ∈ s.aggs := by
    intro i hi
    have hmem : i.item ∈ s.items.map AggItem.item := List.mem_map.mpr ⟨i, hi, rfl⟩
    cases hv : i.item.value with
    | expr e => exact .inl ⟨e, rfl, mem_keysOf.mpr ⟨i.item, hmem, hv, rfl⟩⟩
    | agg a =>
      exact .inr ⟨a, rfl, List.mem_append_left _ (mem_aggsOf.mpr ⟨i.item, hmem, hv, rfl⟩)⟩
    | grouping cs =>
      have hno := hg i hi
      rw [hv] at hno
      cases hno
  have hsome : s.keys ≠ [] ∨ s.aggs ≠ [] := by
    have hxmem : x ∈ s.items := by rw [hx]; exact List.mem_cons_self
    rcases hitem x hxmem with ⟨e, -, hk⟩ | ⟨a, -, ha⟩
    · exact .inl (List.ne_nil_of_mem hk)
    · exact .inr (List.ne_nil_of_mem ha)
  refine ⟨hcols hsome, row, hrows, fun rows => ?_⟩
  obtain ⟨hkeys, haggs⟩ := cells_of_keyOf (hcells rows)
  refine ⟨fun i hi => ?_, haggs⟩
  rcases hitem i hi with ⟨e, hv, hk⟩ | ⟨a, hv, ha⟩
  · rw [hkeys _ hk]
    simp only [itemAt, hv, isPresent, if_true]
  · rw [haggs _ ha]
    simp only [itemAt, hv]

/-- **HAVING** is true on the row of a group where it is true on the group. -/
theorem having_keeps (hc : s.Clear df.columns) (hh : s.HavingTold df.columns) {h : Having V}
    (hs : s.having = some h) (hg : ∀ i ∈ s.items, i.item.value.isGrouping = false)
    {row : Row V} {rows : List (Row V)}
    (hitems : ∀ i ∈ s.items, row i.item.name = itemAt S num df.columns (.group none rows) i.item)
    (haggs : ∀ a ∈ s.aggs, row a.2 = aggCell S df.columns rows a) :
    S.holds ((havingPredicate s.items h).1.value S (aggNames s.keys s.aggs) row) =
      s.keeps S num df.columns rows := by
  have hnames : s.names.Nodup := by
    rw [← (names_perm hg).nodup_iff]
    refine hc.names.sublist ?_
    rw [GroupSelect.aggs, aggNames, aggNames, List.map_append, ← List.append_assoc]
    exact List.sublist_append_left _ _
  rw [GroupSelect.keeps, hs, havingPredicate]
  refine congrArg S.holds (HavingExpr.value_lower (fun c hmem => ?_) fun i => ?_)
  · obtain ⟨hres, i, hi, hname, hmeans⟩ := hh h hs c hmem
    rw [hres, Option.bind_some, ← hname, hitems i hi]
    have hfind : (s.items.find? fun j => j.item.name = c.name) = some i := by
      cases hf : s.items.find? fun j => j.item.name = c.name with
      | none =>
        have hno := List.find?_eq_none.mp hf i hi
        simp [hname] at hno
      | some j =>
        have hj := List.find?_some hf
        have hjname : j.item.name = c.name := by simpa using hj
        rw [List.inj_on_of_nodup_map hnames (List.mem_of_find?_eq_some hf) hi
          (hjname.trans hname.symm)]
    rw [havingCol, hfind]
    cases ht : c.table with
    | none => rfl
    | some t =>
      rw [ht] at hmeans
      obtain ⟨d, hd, hmeant⟩ := hmeans.resolve_left (by simp)
      simp only [itemAt, hd, isPresent, if_true, ← hmeant]
      rfl
  · have hagg := mem_aggs_of_having hs i
    have hcol : (havingNames (aggMap s.items) 0 h.found).getD i "" ∈ aggNames s.keys s.aggs :=
      List.mem_append_right _ (List.mem_map.mpr ⟨_, hagg, rfl⟩)
    rw [resolve, if_pos hcol, Option.bind_some, haggs _ hagg]
    rfl

omit [DecidableEq V] in
/-- Columns that show the same cells show the same cells under some of their names. -/
theorem map_keyOf_sub {L M : List String} (hsub : ∀ n ∈ M, n ∈ L) {l l' : List (Row V)}
    (h : l.map (keyOf L) = l'.map (keyOf L)) : l.map (keyOf M) = l'.map (keyOf M) := by
  have hcell : ∀ r : Row V, keyOf M r = M.map (cellOf L (keyOf L r)) := fun r =>
    List.map_congr_left fun n hn => (cellOf_map r n L (hsub n hn)).symm
  have hfun : (keyOf M : Row V → Key V) = (fun cells => M.map (cellOf L cells)) ∘ keyOf L :=
    funext hcell
  rw [hfun, ← List.map_map, h, List.map_map]

omit [DecidableEq V] in
/-- Columns projected under their own names keep their rows. -/
theorem list_colItems {names M : List String} (hn : names.Nodup) (hsub : ∀ n ∈ names, n ∈ g.columns)
    (hM : ∀ n ∈ M, n ∈ names)
    (h : projectFrame S g (dedupOutputNames (colItems names)) = .ok f) :
    f.rows.map (keyOf M) = g.rows.map (keyOf M) := by
  have hsnd : ((colItems names : List (Expr V × String)).map Prod.snd).Nodup := by
    rw [map_snd_colItems]
    exact hn
  rw [dedupOutputNames_nodup hsnd] at h
  obtain ⟨hcols, hrows⟩ := project_list hsnd h
  rw [map_snd_colItems] at hcols
  refine map_keyOf_sub hM ?_
  rw [← hcols, hrows, hcols]
  refine List.map_congr_left fun r _ => ?_
  rw [colItems, List.map_map]
  refine List.map_congr_left fun n hmem => ?_
  change Expr.value S g.columns r (.col n none) = r n
  rw [Expr.value, resolve, if_pos (hsub n hmem), Option.bind_some]

/-- **The rows of the result**: one for each group by the keys on which HAVING is true. -/
theorem grouped_list (hp : buildOutput num plan (s.lowered num) = .ok p)
    (hdf : exec S D plan = .ok df) (hf : exec S D p = .ok f) (hc : s.Clear df.columns)
    (hh : s.HavingTold df.columns) :
    f.rows.map (keyOf s.names) = s.wantedRows S num df (s.keys.map Prod.fst) := by
  obtain ⟨hg, hplan⟩ := build_ok hp
  have hshow : ∀ (row : List (Row V) → Row V) (l : List (List (Row V))),
      (∀ rows, ∀ i ∈ s.items, row rows i.item.name =
        itemAt S num df.columns (.group none rows) i.item) →
      (l.map row).map (keyOf s.names) = l.map fun rows => s.items.map fun i =>
        itemAt S num df.columns (.group none rows) i.item := by
    intro row l hitems
    rw [List.map_map]
    refine List.map_congr_left fun rows _ => ?_
    rw [Function.comp_apply, GroupSelect.names, keyOf, List.map_map]
    exact List.map_congr_left fun i hi => hitems rows i hi
  rw [GroupSelect.wantedRows]
  cases hs : s.having with
  | none =>
    rw [hs] at hplan
    subst hplan
    obtain ⟨df', hdf', hf⟩ := bind_eq_ok.mp hf
    cases hdf'.symm.trans hdf
    obtain ⟨-, row, hrows, hcells⟩ := aggregate_groups hg hc hf
    have hall : ∀ rows, s.keeps S num df.columns rows = true := fun rows => by
      rw [GroupSelect.keeps, hs]
    rw [hrows, hshow row _ fun rows => (hcells rows).1, List.filter_eq_self.mpr fun rows _ =>
      hall rows]
  | some h =>
    rw [hs] at hplan
    -- the frame under HAVING, before the columns it adds are dropped
    have hbelow : ∀ {k}, exec S D (.filter (.aggregate plan s.keys s.aggs)
        (havingPredicate s.items h).1) = .ok k → k.columns = aggNames s.keys s.aggs ∧
          k.rows.map (keyOf s.names) = ((partitionBy S df (s.keys.map Prod.fst)).filter
            (s.keeps S num df.columns)).map fun rows => s.items.map fun i =>
              itemAt S num df.columns (.group none rows) i.item := by
      intro k hk
      obtain ⟨a, ha, hk⟩ := bind_eq_ok.mp hk
      obtain ⟨df', hdf', ha⟩ := bind_eq_ok.mp ha
      cases hdf'.symm.trans hdf
      obtain ⟨hcols, row, hrows, hcells⟩ := aggregate_groups hg hc ha
      obtain ⟨-, rfl⟩ := filterFrame_ok.mp hk
      refine ⟨hcols, ?_⟩
      change (a.rows.filter _).map _ = _
      rw [hrows, List.filter_map, hcols, ← hshow row _ fun rows => (hcells rows).1]
      refine congrArg (fun l => (List.map row l).map _) (List.filter_congr fun rows _ => ?_)
      exact having_keeps hc hh hs hg (hcells rows).1 (hcells rows).2
    dsimp only at hplan
    split at hplan
    · subst hplan
      exact (hbelow hf).2
    · subst hplan
      obtain ⟨k, hk, hf⟩ := bind_eq_ok.mp hf
      obtain ⟨hcols, hrows⟩ := hbelow hk
      have hsub : (aggNames s.keys (aggsOf (s.items.map AggItem.item))).Sublist
          (aggNames s.keys s.aggs) := by
        rw [GroupSelect.aggs, aggNames, aggNames, List.map_append, ← List.append_assoc]
        exact List.sublist_append_left _ _
      rw [list_colItems (hc.names.sublist hsub) (fun n hn => hcols ▸ hsub.subset hn)
        (fun n hn => (names_perm hg).mem_iff.mpr hn) hf, hrows]

end Rows

/-! ## 6. GROUP BY and HAVING -/

section Main

variable [DecidableEq V] {S : Scalars V} {num : Nat → V} {D : Database V} {dev : Device V}
  {c : Cached V} {plan p : PlanNode V} {df f : Frame V} {s : GroupSelect V}

omit [DecidableEq V] in
theorem groupExprs_ne_nil {cols : List String} {es : List (Expr V)}
    (h : s.groupExprs cols = some es) : es ≠ [] := by
  rintro rfl
  obtain ⟨t, l, ht⟩ := List.exists_cons_of_ne_nil s.grouped
  rw [GroupSelect.groupExprs, ht, List.mapM_cons] at h
  simp only [Option.bind_eq_bind, Option.bind_eq_some_iff, Option.pure_def] at h
  obtain ⟨e, -, es, -, h⟩ := h
  cases h

/-- GROUP BY is honoured where the condition holds. -/
theorem honoured_of_told (hp : buildOutput num plan (s.lowered num) = .ok p)
    (hdf : exec S D plan = .ok df) (hf : exec S D p = .ok f) (ht : s.Told S df) :
    Honoured S num df s f := by
  obtain ⟨es, hes, hd, htells⟩ := ht.groups
  have hparts : partitionBy S df (s.keys.map Prod.fst) = partitionBy S df es :=
    partitionBy_of_tells (groupExprs_ne_nil hes) (List.forall_mem_map.mpr hd) htells
  refine ⟨es, hes, hd, .of_eq ?_⟩
  rw [grouped_list hp hdf hf ht.clear ht.having, GroupSelect.wantedRows, hparts]
  rfl

/-- Without HAVING the keys of an honoured GROUP BY tell the groups apart. -/
theorem told_of_honoured (hp : buildOutput num plan (s.lowered num) = .ok p)
    (hdf : exec S D plan = .ok df) (hf : exec S D p = .ok f) (hc : s.Clear df.columns)
    (hnone : s.having = none) (h : Honoured S num df s f) : s.GroupsTold S df := by
  obtain ⟨es, hes, hd, hperm⟩ := h
  have hh : s.HavingTold df.columns := fun h hh => by rw [hnone] at hh; cases hh
  refine ⟨es, hes, hd, tells_of_length (groupExprs_ne_nil hes) (List.forall_mem_map.mpr hd) ?_⟩
  have hlen := hperm.length_eq
  have hall : ∀ l : List (List (Row V)), l.filter (s.keeps S num df.columns) = l := fun l =>
    List.filter_eq_self.mpr fun rows _ => by rw [GroupSelect.keeps, hnone]
  rw [grouped_list hp hdf hf hc hh, GroupSelect.wantedRows, GroupSelect.wantedRows, hall, hall,
    List.length_map, List.length_map] at hlen
  exact hlen

end Main

/-- `k`. -/
def itemK : AggItem Nat := ⟨⟨.column "k" none, none⟩, none⟩

/-- `COUNT(*)`. -/
def itemCountStar : AggItem Nat := ⟨itemCount, some "COUNT(*)"⟩

/-- `HAVING COUNT(*) = 1`. -/
def countIsOne : Having Nat where
  found := [("COUNT(*)", countStar)]
  expr := .app ⟨2, fun a => (a 0).bind fun x => (a 1).map fun y => if x = y then 1 else 0, false,
    fun _ => false, ""⟩ fun i => if i = 0 then .agg ⟨0, Nat.one_pos⟩ else .lit (some 1)

/-- `SELECT k, COUNT(*) FROM a GROUP BY k HAVING COUNT(*) = 1`. -/
def groupedCount : GroupSelect Nat where
  items := [itemK, itemCountStar]
  groupBy := [.expr (.col "k" none)]
  having := some countIsOne
  nonempty := nofun
  grouped := nofun
  texts := by
    intro i hi t ht
    rcases List.mem_cons.mp hi with rfl | hi
    · cases ht
    · cases List.mem_singleton.mp hi
      refine ⟨countStar, rfl, fun h hh x hx _ => ?_⟩
      cases hh
      cases List.mem_singleton.mp hx
      rfl

/-- `SELECT COUNT(*) FROM a GROUP BY k`. -/
def countOnly : GroupSelect Nat where
  items := [itemCountStar]
  groupBy := [.expr (.col "k" none)]
  having := none
  nonempty := nofun
  grouped := nofun
  texts := by
    intro i hi t ht
    cases List.mem_singleton.mp hi
    exact ⟨countStar, rfl, nofun⟩

/-- The rows of `a`. -/
def rowsA : Frame Nat := numbers ["k"] [[some 1], [some 2]]

theorem scan_rowsA : exec natScalars unevenTables (.scan "a" none (some "a")) = .ok rowsA :=
  Frame.select_self rowsA

theorem groupedCount_told : groupedCount.Told natScalars rowsA := by
  refine ⟨⟨by decide, fun k hk _ => ?_, fun k hk hout => ?_, fun a ha e he => ?_⟩, ?_, ?_⟩
  · cases List.mem_singleton.mp hk
    exact ⟨none, rfl, rfl⟩
  · cases List.mem_singleton.mp hk
    exact absurd List.mem_cons_self hout
  · cases List.mem_singleton.mp ha
    cases he
  · intro h hh c hc
    cases hh
    cases hc
  · refine ⟨[.col "k" none], rfl, fun k hk => ?_, tells_of_determined nofun fun e he => ?_⟩
    · cases List.mem_singleton.mp hk
      exact ⟨"k", none, List.mem_cons_self, rfl⟩
    · cases List.mem_singleton.mp he
      exact ⟨"k", none, List.mem_cons_self, rfl⟩

end RyuDB.Sql
