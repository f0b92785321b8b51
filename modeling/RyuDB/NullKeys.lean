/-
# Keys that are NULL

SQL pairs two rows on `k = k'` only when both cells are there.  `merge` pairs NULL with NULL, and
`_join` calls it on the raw keys for inner, left, right and full joins, with a residual or
without one, and so does `_merge` for its target and its source.  Only `_semi_anti_join` drops
the NULL keys first.

    SELECT .. FROM a JOIN b ON a.k = b.k      -- a row with k NULL on each side: one row

`NullMatch` names the pairs of rows on which the executor and SQL disagree, on the rows before
the join.  Where there are none, a row with a NULL key is alone: an inner join drops it and an
outer join that keeps its side pads it.

The semi join by several keys and the outer join with a residual number the rows of their sides in
columns of their own (`__lid`, `__lrid`, `__rrid`) and give the keys names of their own
(`__ryu_l0`, ..).  A side that has such a column already loses it, and then the keys say nothing about
the rows: `NamesFree` leaves these inputs out.
-/
import RyuDB.BuiltExec
import RyuDB.Reorder
import RyuDB.Dml

namespace RyuDB.Sql

variable {V : Type} [DecidableEq V]

/-! ## 1. What SQL pairs -/

/-- The cells of a key pair are there and equal. -/
def equiKey (k : String × String) (l r : Row V) : Bool := (l k.1).isSome && decide (l k.1 = r k.2)

/-- All keys of a left row are there. -/
def leftKeyed (on : JoinOn V) (l : Row V) : Bool := (keyPairs on).all fun k => (l k.1).isSome

/-- All keys of a right row are there. -/
def rightKeyed (on : JoinOn V) (r : Row V) : Bool := (keyPairs on).all fun k => (r k.2).isSome

/-- The ON residual of a join is true on a pair of rows. -/
def residualTrue (S : Scalars V) (on : JoinOn V) (la ra : Option String) (L R : List String)
    (l r : Row V) : Bool :=
  passes S (predLayout on la ra L R).columns on.onPredicate ((predLayout on la ra L R).row l r)

/-- SQL's ON condition: every equality of keys and the residual are true. -/
def onTrue (S : Scalars V) (on : JoinOn V) (la ra : Option String) (L R : List String)
    (l r : Row V) : Bool :=
  (keyPairs on).all (fun k => equiKey k l r) && residualTrue S on la ra L R l r

/-- The executor pairs two rows that SQL does not: the join is no semi or anti join, the keys it
compares agree, the residual is true, and a compared key is NULL or a key of the ON clause that
is not compared is NULL or different.  An outer join with a residual leaves keys out when the
clause names a column twice; every other join compares them all. -/
def NullMatch (S : Scalars V) (on : JoinOn V) (la ra : Option String) (L R : List String)
    (l r : Row V) : Prop :=
  on.how.isSemi = false ∧ sameKeys (testKeys on) l r = true ∧
    residualTrue S on la ra L R l r = true ∧
      ((∃ k ∈ testKeys on, l k.1 = none) ∨
        ∃ k ∈ keyPairs on, k ∉ testKeys on ∧ equiKey k l r = false)

/-- No two rows of the inputs are paired against SQL. -/
def NoNullMatch (S : Scalars V) (on : JoinOn V) (la ra : Option String) (left right : Frame V) :
    Prop :=
  ∀ l ∈ left.rows, ∀ r ∈ right.rows, ¬ NullMatch S on la ra left.columns right.columns l r

/-- No column of a side has a name that the join uses for itself. -/
def NamesFree (on : JoinOn V) (left right : Frame V) : Prop :=
  ∀ c ∈ left.columns ++ right.columns, on.ownName c = false

omit [DecidableEq V] in
theorem join_noClash {l r : PlanNode V} {on : JoinOn V} {left right : Frame V}
    (h : NamesFree on left right) : (PlanNode.join l r on).clash [left, right] = false := by
  refine List.any_eq_false.mpr fun c hc => ?_
  have hmem : c ∈ left.columns ++ right.columns := by
    simpa only [PlanNode.namesMet, List.flatMap_cons, List.flatMap_nil, List.append_nil] using hc
  rw [PlanNode.ownName, h c hmem]
  exact Bool.false_ne_true

/-- **Whatever rows the executor pairs, their keys are non-null and equal.** -/
def PairsKeyed (S : Scalars V) (on : JoinOn V) (la ra : Option String) (left right : Frame V) :
    Prop :=
  ∀ l ∈ left.rows, ∀ r ∈ right.rows, joinTest S on la ra left.columns right.columns l r = true →
    ∀ k ∈ keyPairs on, (l k.1).isSome = true ∧ (r k.2).isSome = true ∧ l k.1 = r k.2

theorem equiKey_iff {k : String × String} {l r : Row V} : equiKey k l r = true ↔
    (l k.1).isSome = true ∧ (r k.2).isSome = true ∧ l k.1 = r k.2 := by
  rw [equiKey, Bool.and_eq_true, decide_eq_true_eq]
  constructor
  · rintro ⟨hs, he⟩
    exact ⟨hs, he ▸ hs, he⟩
  · rintro ⟨hs, -, he⟩
    exact ⟨hs, he⟩

/-- The keys of a semi or anti join are all compared, and none of them is NULL. -/
theorem equiKey_of_semi {S : Scalars V} {on : JoinOn V} {la ra : Option String}
    {L R : List String} {l r : Row V} (hs : on.how.isSemi = true)
    (h : joinTest S on la ra L R l r = true) {k : String × String} (hk : k ∈ keyPairs on) :
    equiKey k l r = true := by
  rw [joinTest, hs, Bool.and_eq_true, Bool.and_eq_true] at h
  obtain ⟨⟨hn, he⟩, -⟩ := h
  have hpad : on.padded = false := by
    rw [JoinOn.padded, JoinHow.not_outer_of_semi hs, Bool.false_and]
  rw [testKeys, if_neg (by rw [hpad]; decide)] at he
  have hr : (r k.2).isSome = true := List.all_eq_true.mp hn k hk
  have hlr : l k.1 = r k.2 := sameKeys_mem he hk
  exact equiKey_iff.mpr ⟨hlr ▸ hr, hr, hlr⟩

omit [DecidableEq V] in
theorem nonNullKeys_zip {r : Row V} : ∀ {ks ns : List String}, ks.length = ns.length →
    nonNullKeys (ks.zip ns) r = (keyOf ns r).nonNull
  | [], [], _ => rfl
  | k :: ks, n :: ns, h => by
    have ih := nonNullKeys_zip (r := r) (Nat.succ.inj h)
    rw [nonNullKeys, Key.nonNull] at ih
    rw [nonNullKeys, Key.nonNull, List.zip_cons_cons, keyOf, List.map_cons, List.all_cons,
      List.all_cons, ih]
    rfl

theorem sameKeys_zip {l r : Row V} : ∀ {ks ns : List String}, ks.length = ns.length →
    sameKeys (ks.zip ns) l r = decide (keyOf ks l = keyOf ns r)
  | [], [], _ => rfl
  | k :: ks, n :: ns, h => by
    have ih := sameKeys_zip (l := l) (r := r) (Nat.succ.inj h)
    rw [sameKeys] at ih
    rw [sameKeys, List.zip_cons_cons, List.all_cons, ih, ← Bool.decide_and]
    exact decide_eq_decide.mpr List.cons_eq_cons.symm

omit [DecidableEq V] in
/-- A compared key of the left side is a key of the ON clause. -/
theorem key_of_testKeys {on : JoinOn V} {k : String × String} (h : k ∈ testKeys on) :
    ∃ k' ∈ keyPairs on, k'.1 = k.1 := by
  unfold testKeys at h
  split at h
  · have hl : k.1 ∈ keepFirst id ((keyPairs on).map Prod.fst) := (List.of_mem_zip h).1
    exact List.mem_map.mp (mem_keepFirst hl)
  · exact ⟨k, h, rfl⟩

theorem joinTest_eq {S : Scalars V} {on : JoinOn V} {la ra : Option String} {L R : List String}
    {l r : Row V} (hs : on.how.isSemi = false) : joinTest S on la ra L R l r = true ↔
      sameKeys (testKeys on) l r = true ∧ residualTrue S on la ra L R l r = true := by
  rw [joinTest, hs, Bool.not_false, Bool.true_or, Bool.true_and, Bool.and_eq_true]
  rfl

/-- **The executor pairs by non-null, equal keys just when no pair of its inputs is a NULL
match.** -/
theorem pairsKeyed_iff (S : Scalars V) (on : JoinOn V) (la ra : Option String)
    (left right : Frame V) :
    PairsKeyed S on la ra left right ↔ NoNullMatch S on la ra left right := by
  constructor
  · rintro h l hl r hr ⟨hs, hkeys, hres, hbad⟩
    have hpaired := h l hl r hr ((joinTest_eq hs).mpr ⟨hkeys, hres⟩)
    rcases hbad with ⟨k, hk, hnull⟩ | ⟨k, hk, -, hne⟩
    · obtain ⟨k', hk', hkk⟩ := key_of_testKeys hk
      have hthere := (hpaired k' hk').1
      rw [hkk, hnull] at hthere
      cases hthere
    · have heq := equiKey_iff.mpr (hpaired k hk)
      rw [hne] at heq
      cases heq
  · intro h l hl r hr ht k hk
    by_contra hbad
    have hne : equiKey k l r = false := by
      rw [← Bool.not_eq_true, equiKey_iff]
      exact hbad
    cases hs : on.how.isSemi with
    | true =>
      have := equiKey_of_semi hs ht hk
      rw [hne] at this
      cases this
    | false =>
      obtain ⟨hkeys, hres⟩ := (joinTest_eq hs).mp ht
      refine h l hl r hr ⟨hs, hkeys, hres, ?_⟩
      by_cases hcomp : k ∈ testKeys on
      · -- a compared key that is not NULL would be equal on both sides
        refine .inl ⟨k, hcomp, ?_⟩
        cases hl : l k.1 with
        | none => rfl
        | some v => exact absurd (equiKey_iff.mp (by rw [equiKey, hl,
            ← (sameKeys_mem hkeys hcomp : l k.1 = r k.2), hl]; simp)) hbad
      · exact .inr ⟨k, hk, hcomp, hne⟩

/-! ## 2. Rows with a NULL key -/

/-- The rows of a join in which rows with a NULL key have no partner: a semi join drops them and
an anti join keeps them; any other join returns what it makes of the rows whose keys are all
there, and each row with a NULL key alone, padded, if its side is kept. -/
def keyedRows (S : Scalars V) (on : JoinOn V) (la ra : Option String) (left right : Frame V) :
    List (Row V) :=
  let J := joinSpec S on la ra left.columns right.columns
  if on.how.isSemi then
    left.rows.filter fun l =>
      let hit := right.rows.any (onTrue S on la ra left.columns right.columns l)
      if on.how = .anti then !hit else hit
  else
    J.run on.how.keepsLeft on.how.keepsRight (left.rows.filter (leftKeyed on))
        (right.rows.filter (rightKeyed on)) ++
      ((if on.how.keepsLeft then (left.rows.filter fun l => !leftKeyed on l).map J.left else []) ++
        if on.how.keepsRight then (right.rows.filter fun r => !rightKeyed on r).map J.right
        else [])

/-- A semi or anti join tests SQL's condition. -/
theorem joinTest_semi_eq {S : Scalars V} {on : JoinOn V} {la ra : Option String}
    {L R : List String} (hs : on.how.isSemi = true) (l r : Row V) :
    joinTest S on la ra L R l r = onTrue S on la ra L R l r := by
  rw [Bool.eq_iff_iff]
  constructor
  · intro h
    rw [onTrue, Bool.and_eq_true, List.all_eq_true]
    refine ⟨fun k hk => equiKey_of_semi hs h hk, ?_⟩
    rw [joinTest, Bool.and_eq_true] at h
    exact h.2
  · intro h
    rw [onTrue, Bool.and_eq_true, List.all_eq_true] at h
    have hpad : on.padded = false := by
      rw [JoinOn.padded, JoinHow.not_outer_of_semi hs, Bool.false_and]
    rw [joinTest, Bool.and_eq_true, Bool.and_eq_true]
    refine ⟨⟨?_, ?_⟩, h.2⟩
    · rw [hs, Bool.not_true, Bool.false_or, nonNullKeys, List.all_eq_true]
      exact fun k hk => (equiKey_iff.mp (h.1 k hk)).2.1
    · rw [testKeys, if_neg (by rw [hpad]; decide), sameKeys, List.all_eq_true]
      exact fun k hk => decide_eq_true (equiKey_iff.mp (h.1 k hk)).2.2

/-- **Without a NULL match, a row with a NULL key is dropped by an inner join and padded by an
outer join that keeps its side.** -/
theorem joined_keyedRows {S : Scalars V} {on : JoinOn V} {la ra : Option String}
    {left right : Frame V} (h : PairsKeyed S on la ra left right) :
    (joined S on la ra left right).rows.Perm (keyedRows S on la ra left right) := by
  cases hs : on.how.isSemi with
  | true =>
    refine .of_eq ?_
    rw [joined, keyedRows, if_pos hs, if_pos hs, Frame.filter]
    refine List.filter_congr fun l _ => ?_
    have hany : right.rows.any (joinTest S on la ra left.columns right.columns l) =
        right.rows.any (onTrue S on la ra left.columns right.columns l) :=
      congrArg _ (funext fun r => joinTest_semi_eq hs l r)
    rw [semiHit, hany]
  | false =>
    rw [joined_rows hs, keyedRows, if_neg (by rw [hs]; decide)]
    refine JoinSpec.run_strict (fun l hl r hr ht => ?_) _ _
    have hpaired := h l hl r hr ht
    exact ⟨List.all_eq_true.mpr fun k hk => (hpaired k hk).1,
      List.all_eq_true.mpr fun k hk => (hpaired k hk).2.1⟩

end RyuDB.Sql

namespace RyuDB.Engine

variable {V : Type} [DecidableEq V]

/-! ## 3. The match of MERGE -/

/-- The pairs of `_merge`: the equi-join of target and source, and the residual of ON. -/
def matchedRows (n : MergeNode V) (tgt src : Frame V) : Except DbError (Joined V) := do
  let m ← joinRows n tgt src
  maskedPairs n.onResidual m

/-- The residual of MERGE's ON is true on a pair. -/
def mergeResidual (n : MergeNode V) (r q : Row V) : Bool :=
  match n.onResidual with
  | none => true
  | some p => p.value (r, q)

/-- Target and source row have the same keys with a NULL among them, and the residual is true. -/
def MergeNullMatch (n : MergeNode V) (r q : Row V) : Prop :=
  keyOf n.onSource q = keyOf n.onTarget r ∧ (keyOf n.onTarget r).nonNull = false ∧
    mergeResidual n r q = true

/-- The pairs of target and source rows on which ON is true. -/
def onPairs (n : MergeNode V) (tgt src : Frame V) : List (Row V × Row V) :=
  tgt.rows.flatMap fun r => (src.rows.filter fun q =>
    decide (keyOf n.onSource q = keyOf n.onTarget r) && (keyOf n.onTarget r).nonNull &&
      mergeResidual n r q).map fun q => (r, q)

theorem matchedRows_pairs {n : MergeNode V} {tgt src : Frame V} {m : Joined V}
    (h : matchedRows n tgt src = .ok m) :
    m.pairs = tgt.rows.flatMap fun r => (src.rows.filter fun q =>
      decide (keyOf n.onSource q = keyOf n.onTarget r) && mergeResidual n r q).map
        fun q => (r, q) := by
  obtain ⟨j, hj, hm⟩ := bind_eq_ok.mp h
  have hpairs : j.pairs = tgt.rows.flatMap fun r => (src.rows.filter fun q =>
      decide (keyOf n.onSource q = keyOf n.onTarget r)).map fun q => (r, q) := by
    unfold joinRows at hj
    split at hj
    · cases hj
      rfl
    · cases hj
  cases hr : n.onResidual with
  | none =>
    rw [hr] at hm
    cases hm
    simp only [hpairs, mergeResidual, hr, Bool.and_true]
  | some p =>
    rw [hr] at hm
    obtain ⟨mask, hmask, hm⟩ := bind_eq_ok.mp hm
    cases hm
    have hval : mask = p.value := by
      unfold JExpr.eval at hmask
      split at hmask <;> cases hmask
      rfl
    simp only [hpairs, hval, mergeResidual, hr, List.filter_flatMap, List.filter_map,
      List.filter_filter, Function.comp_def, Bool.and_comm]

theorem mem_matchedRows {n : MergeNode V} {tgt src : Frame V} {m : Joined V}
    (h : matchedRows n tgt src = .ok m) {r q : Row V} : (r, q) ∈ m.pairs ↔
      r ∈ tgt.rows ∧ q ∈ src.rows ∧ keyOf n.onSource q = keyOf n.onTarget r ∧
        mergeResidual n r q = true := by
  rw [matchedRows_pairs h, List.mem_flatMap]
  simp only [List.mem_map, List.mem_filter, Bool.and_eq_true, decide_eq_true_eq, Prod.mk.injEq]
  constructor
  · rintro ⟨r', hr', q', ⟨hq', hk, hres⟩, rfl, rfl⟩
    exact ⟨hr', hq', hk, hres⟩
  · rintro ⟨hr, hq, hk, hres⟩
    exact ⟨r, hr, q, ⟨hq, hk, hres⟩, rfl, rfl⟩

/-- MERGE acts on these pairs. -/
theorem mergeFlush_matchedRows (H : Host V) (i : TableInfo V) (n : MergeNode V)
    (tgt src : Frame V) : mergeFlush H i n tgt src = (do
      let m ← matchedRows n tgt src
      let a ← matchedPart H i n tgt m
      let b ← notMatchedPart H i n src m
      let new ← combinedNew i a.2.new b.2
      return (a.1 + b.1, { a.2 with new := new })) := by
  unfold mergeFlush matchedRows
  cases joinRows n tgt src with
  | error e => rfl
  | ok j => rfl

/-- **MERGE pairs target and source by non-null keys just when no pair of them is a NULL match,
and its pairs are then those on which ON is true.** -/
theorem matchedRows_keyed {n : MergeNode V} {tgt src : Frame V} {m : Joined V}
    (h : matchedRows n tgt src = .ok m) :
    ((∀ p ∈ m.pairs, keyOf n.onSource p.2 = keyOf n.onTarget p.1 ∧
        (keyOf n.onTarget p.1).nonNull = true) ↔
      ∀ r ∈ tgt.rows, ∀ q ∈ src.rows, ¬ MergeNullMatch n r q) ∧
    ((∀ r ∈ tgt.rows, ∀ q ∈ src.rows, ¬ MergeNullMatch n r q) →
      m.pairs = onPairs n tgt src) := by
  refine ⟨⟨?_, ?_⟩, ?_⟩
  · rintro hp r hr q hq ⟨hk, hnull, hres⟩
    have hthere := (hp (r, q) ((mem_matchedRows h).mpr ⟨hr, hq, hk, hres⟩)).2
    rw [hnull] at hthere
    cases hthere
  · rintro hno ⟨r, q⟩ hp
    obtain ⟨hr, hq, hk, hres⟩ := (mem_matchedRows h).mp hp
    refine ⟨hk, ?_⟩
    by_contra hnull
    exact hno r hr q hq ⟨hk, Bool.eq_false_iff.mpr hnull, hres⟩
  · intro hno
    rw [matchedRows_pairs h, onPairs]
    refine List.flatMap_congr fun r hr => congrArg _ (List.filter_congr fun q hq => ?_)
    by_cases hk : keyOf n.onSource q = keyOf n.onTarget r
    · cases hnull : (keyOf n.onTarget r).nonNull with
      | true => rw [Bool.and_true]
      | false =>
        have hres : mergeResidual n r q = false :=
          Bool.eq_false_iff.mpr fun hres => hno r hr q hq ⟨hk, hnull, hres⟩
        rw [hres, Bool.and_false, Bool.and_false]
    · rw [decide_eq_false hk, Bool.false_and, Bool.false_and, Bool.false_and]

end RyuDB.Engine

namespace RyuDB.Sql

open RyuDB.Engine (matchedRows MergeNullMatch onPairs)

variable {V : Type} [DecidableEq V]

/-! ## 4. Every path -/

/-- **The executor pairs rows by non-null, equal keys exactly where its inputs hold no NULL
match.**  For a join it accepts, of whatever kind, over sides that have no column of a name it uses
for itself, and for the match of a MERGE; and there a row with a NULL key has no partner: it is
dropped, or padded on a side that is kept. -/
theorem null_keys_alone (S : Scalars V) (dev : Device V) :
    (∀ (l r : PlanNode V) (on : JoinOn V) (la ra : Option String) (left right f : Frame V),
      NamesFree on left right →
      dev.apply (.join l r on) [left, right] (joinFrames S on la ra left right) = .ok f →
        (PairsKeyed S on la ra left right ↔ NoNullMatch S on la ra left right) ∧
        (NoNullMatch S on la ra left right →
          f.rows.Perm (keyedRows S on la ra left right))) ∧
    (∀ (n : MergeNode V) (tgt src : Frame V) (m : Joined V), matchedRows n tgt src = .ok m →
      ((∀ p ∈ m.pairs, keyOf n.onSource p.2 = keyOf n.onTarget p.1 ∧
          (keyOf n.onTarget p.1).nonNull = true) ↔
        ∀ r ∈ tgt.rows, ∀ q ∈ src.rows, ¬ MergeNullMatch n r q) ∧
      ((∀ r ∈ tgt.rows, ∀ q ∈ src.rows, ¬ MergeNullMatch n r q) →
        m.pairs = onPairs n tgt src)) := by
  refine ⟨fun l r on la ra left right f hfree hf => ?_,
    fun n tgt src m hm => Engine.matchedRows_keyed hm⟩
  rw [apply_of_noClash (join_noClash hfree)] at hf
  obtain ⟨-, rfl⟩ := joinFrames_ok.mp hf
  refine ⟨pairsKeyed_iff S on la ra left right, fun h => ?_⟩
  exact joined_keyedRows ((pairsKeyed_iff S on la ra left right).mpr h)

/-- A table with one row, whose first key is NULL. -/
def nullLeft : Frame Nat := numbers ["k", "j", "x"] [[none, some 7, some 1]]

/-- The same keys on the other side. -/
def nullRight : Frame Nat := numbers ["m", "i", "y"] [[none, some 7, some 2]]

/-- `ON k = m AND j = i`, with `x IS NOT NULL` as the residual of an outer join. -/
def nullOn (how : JoinHow) : JoinOn Nat :=
  ⟨["k", "j"], ["m", "i"], how,
    if how.isOuter then some (.app ⟨1, fun a => some (if (a 0).isSome then 1 else 0), false,
      fun _ => false, ""⟩ fun _ => .col "x" none) else none, false⟩

/-- `MERGE INTO nullLeft USING nullRight ON k = m AND j = i`. -/
def nullMerge : MergeNode Nat :=
  ⟨"a", "a", ⟨[], fun _ => .ok nullRight, id⟩, "b", ["k", "j"], ["m", "i"], none, none, none⟩

/-- **A row whose key is NULL finds a partner whose key is NULL**, in an inner join, in an outer
join with a residual and in a MERGE. -/
theorem null_key_paired :
    (∀ how ∈ [JoinHow.inner, .left],
      shown (joinFrames natScalars (nullOn how) none none nullLeft nullRight) =
        some (["k", "j", "x", "m", "i", "y"],
          [[none, some 7, some 1, none, some 7, some 2]]) ∧
      ¬ PairsKeyed natScalars (nullOn how) none none nullLeft nullRight) ∧
    ∃ m, matchedRows nullMerge nullLeft nullRight = .ok m ∧
      m.pairs.map (fun p => (keyOf ["k", "j"] p.1, keyOf ["m", "i"] p.2)) =
        [([none, some 7], [none, some 7])] := by
  have hpaired : ∀ how ∈ [JoinHow.inner, .left],
      ¬ PairsKeyed natScalars (nullOn how) none none nullLeft nullRight := by
    intro how hhow h
    rw [pairsKeyed_iff] at h
    refine h _ List.mem_cons_self _ List.mem_cons_self ?_
    rw [List.mem_cons, List.mem_singleton] at hhow
    rcases hhow with rfl | rfl
    · exact ⟨rfl, by decide, by decide, .inl ⟨("k", "m"), by decide, rfl⟩⟩
    · exact ⟨rfl, by decide, by decide, .inl ⟨("k", "m"), by decide, rfl⟩⟩
  refine ⟨fun how hhow => ⟨?_, hpaired how hhow⟩, ⟨_, rfl, by decide⟩⟩
  rw [List.mem_cons, List.mem_singleton] at hhow
  rcases hhow with rfl | rfl
  · decide
  · decide

/-- Two tables on which no NULL meets a NULL: a full join pads the row with the NULL key. -/
theorem null_keys_alone_padded :
    (∃ f, plainDevice.apply (.join (.scan "a" none none) (.scan "b" none none) (joinOn "k" "m" .full))
        [nullLeft, numbers ["m", "y"] [[some 3, some 2]]]
        (joinFrames natScalars (joinOn "k" "m" .full) none none nullLeft
          (numbers ["m", "y"] [[some 3, some 2]])) = .ok f ∧
      f.rows.Perm (keyedRows natScalars (joinOn "k" "m" .full) none none nullLeft
        (numbers ["m", "y"] [[some 3, some 2]]))) ∧
    ∃ m, matchedRows nullMerge nullLeft (numbers ["m", "i"] [[some 3, some 7]]) = .ok m ∧
      m.pairs = onPairs nullMerge nullLeft (numbers ["m", "i"] [[some 3, some 7]]) := by
  have hshown : shown (joinFrames natScalars (joinOn "k" "m" .full) none none nullLeft
      (numbers ["m", "y"] [[some 3, some 2]])) = some (["k", "j", "x", "m", "y"],
        [[none, some 7, some 1, none, none], [none, none, none, some 3, some 2]]) := by
    decide
  obtain ⟨f, hf, -, -⟩ := returned_of_shown hshown
  have hfree : NamesFree (joinOn "k" "m" .full) nullLeft
      (numbers ["m", "y"] [[some 3, some 2]]) := fun c _ => rfl
  rw [apply_of_noClash (join_noClash hfree)]
  refine ⟨⟨f, hf, (((null_keys_alone natScalars plainDevice).1 (.scan "a" none none)
      (.scan "b" none none) _ _ _ _ _ f hfree ?_).2 ?_)⟩,
    _, rfl, ((null_keys_alone natScalars plainDevice).2 _ _ _ _ rfl).2 ?_⟩
  · rwa [apply_of_noClash (join_noClash hfree)]
  · rintro l hl r hr ⟨-, hk, -⟩
    rw [List.mem_singleton.mp hl, List.mem_singleton.mp hr] at hk
    revert hk
    decide
  · rintro r hr q hq ⟨hk, -⟩
    rw [List.mem_singleton.mp hr, List.mem_singleton.mp hq] at hk
    revert hk
    decide

end RyuDB.Sql
