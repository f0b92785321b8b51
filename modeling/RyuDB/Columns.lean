/-
# The columns of a plan

Which columns a plan returns depends on the plan and on the columns of the tables, not on their
rows.  `outColumns` computes them from the schema; `exec_columns` says that this is what the
executor returns.

A join is brought to one form on the way.  Every path of `_join` picks a layout, a test on pairs
of rows and the sides to pad (`joinLayout`, `joinTest`), raises unless the inputs are `Joinable`,
and then returns `joined`.

An operator of the executor raises or returns, and its lemma here says exactly when it returns and
what (`filterFrame_ok`, `projectFrame_ok`, `joinFrames_ok` and the others, all as equivalences).  The
modules about rewriting plans use nothing else of the executor: a rewritten plan returns because the
right side of an equivalence holds, and what it returns is on that side too.

That no frame has two columns of one name is proved last (`exec_nodup`), since it needs what each
operator does with the columns it is given.
-/
import RyuDB.Relational

namespace RyuDB.Sql

variable {V : Type}

/-! ## 1. What an expression reads

`eval_expr` raises for a column that is not there, and for a connective whose operands have the wrong
shapes: a Python scalar has no `&`, and the truth of a whole column is ambiguous.  `check` is that
test, made once for the whole expression; the value of an expression that passed it depends on the
cells it names and on nothing else (`value_congr`). -/

namespace Expr

/-- No connective has a Series on the left and a scalar on the right, and no operation a Series
where it needs a scalar. -/
def wellShaped : Expr V → Bool
  | .col _ _ => true
  | .lit _ => true
  | .and l r => l.wellShaped && r.wellShaped && (!l.isSeries || r.isSeries)
  | .or l r => l.wellShaped && r.wellShaped && (!l.isSeries || r.isSeries)
  | .not e => e.wellShaped
  | .app op args => (List.ofFn fun i => (args i).wellShaped).all id &&
      !(List.ofFn fun i => op.literal i && (args i).isSeries).any id

/-- Every reference of the expression names a column. -/
def Known (cols : List String) (e : Expr V) : Prop :=
  ∀ x ∈ e.refs, (resolve cols x.1 x.2).isSome = true

theorem check_connective {cols : List String} {l r : Expr V} {u : Except DbError Unit}
    (hu : u = do
      check cols l
      check cols r
      if l.isSeries && !r.isSeries then .error ambiguousTruth else .ok ())
    (hl : l.check cols = .ok () ↔ l.Known cols ∧ l.wellShaped = true)
    (hr : r.check cols = .ok () ↔ r.Known cols ∧ r.wellShaped = true) :
    u = .ok () ↔ (l.Known cols ∧ r.Known cols) ∧
      (l.wellShaped && r.wellShaped && (!l.isSeries || r.isSeries)) = true := by
  have hif : (if l.isSeries && !r.isSeries then .error ambiguousTruth else .ok () :
      Except DbError Unit) = .ok () ↔ (!l.isSeries || r.isSeries) = true := by
    cases l.isSeries <;> cases r.isSeries <;> simp [ambiguousTruth]
  rw [hu, bind_eq_ok]
  simp only [bind_eq_ok, hl, hr, hif]
  rw [Bool.and_eq_true, Bool.and_eq_true]
  constructor
  · rintro ⟨_, ⟨hl1, hl2⟩, _, ⟨hr1, hr2⟩, hs⟩
    exact ⟨⟨hl1, hr1⟩, ⟨hl2, hr2⟩, hs⟩
  · rintro ⟨⟨hl1, hr1⟩, ⟨hl2, hr2⟩, hs⟩
    exact ⟨(), ⟨hl1, hl2⟩, (), ⟨hr1, hr2⟩, hs⟩

/-- A loop that only checks returned: every check passed. -/
theorem forM_ok {α : Type} {g : α → Except DbError Unit} : ∀ {l : List α},
    l.forM g = .ok () ↔ ∀ a ∈ l, g a = .ok ()
  | [] => by simp [List.forM_eq_forM, pure, Except.pure]
  | a :: l => by
    rw [List.forM_eq_forM, List.forM_cons, bind_eq_ok]
    constructor
    · rintro ⟨_, ha, hl⟩ b hb
      rcases List.mem_cons.mp hb with rfl | hb
      · exact ha
      · exact forM_ok.mp hl b hb
    · intro h
      exact ⟨(), h a List.mem_cons_self, forM_ok.mpr fun b hb => h b (List.mem_cons_of_mem _ hb)⟩

/-- **An expression can be evaluated exactly when its references are known and it is well
shaped.** -/
theorem check_ok {cols : List String} {e : Expr V} :
    e.check cols = .ok () ↔ e.Known cols ∧ e.wellShaped = true := by
  induction e with
  | col name table =>
    simp only [check, Known, refs, wellShaped, and_true, List.mem_singleton, forall_eq]
    cases h : resolve cols name table <;> simp
  | lit v => simp [check, Known, refs, wellShaped]
  | and l r hl hr =>
    rw [check, check_connective rfl hl hr]
    simp only [Known, refs, List.mem_append, wellShaped, or_imp, forall_and]
  | or l r hl hr =>
    rw [check, check_connective rfl hl hr]
    simp only [Known, refs, List.mem_append, wellShaped, or_imp, forall_and]
  | not e ih => exact ih
  | app op args ih =>
    have hargs : (List.ofFn fun i => check cols (args i)).forM id = .ok () ↔
        ∀ i, (args i).Known cols ∧ (args i).wellShaped = true := by
      rw [forM_ok, List.forall_mem_ofFn_iff]
      exact forall_congr' fun i => ih i
    have hif : (if (List.ofFn fun i => op.literal i && (args i).isSeries).any id then
        .error (.notImplemented op.refusal) else .ok () : Except DbError Unit) = .ok () ↔
        (!(List.ofFn fun i => op.literal i && (args i).isSeries).any id) = true := by
      cases (List.ofFn fun i => op.literal i && (args i).isSeries).any id <;> simp
    rw [check, bind_eq_ok]
    simp only [hargs, hif, wellShaped, Bool.and_eq_true, List.all_eq_true,
      List.forall_mem_ofFn_iff, id_eq]
    constructor
    · rintro ⟨_, hall, hs⟩
      refine ⟨fun x hx => ?_, fun i => (hall i).2, hs⟩
      obtain ⟨l, hl, hx⟩ := List.mem_flatten.mp hx
      obtain ⟨i, rfl⟩ := (List.mem_ofFn' _ _).mp hl
      exact (hall i).1 x hx
    · rintro ⟨hk, hw, hs⟩
      refine ⟨(), fun i => ⟨fun x hx => hk x ?_, hw i⟩, hs⟩
      exact List.mem_flatten.mpr ⟨_, (List.mem_ofFn' _ _).mpr ⟨i, rfl⟩, hx⟩

/-- **The value of an expression depends on the cells its references read.** -/
theorem value_congr {S : Scalars V} {cols cols' : List String} {r r' : Row V} {e : Expr V}
    (h : ∀ x ∈ e.refs, (resolve cols x.1 x.2).bind r = (resolve cols' x.1 x.2).bind r') :
    e.value S cols r = e.value S cols' r' := by
  induction e with
  | col name table => exact h (name, table) List.mem_cons_self
  | lit v => rfl
  | and a b ha hb =>
    rw [value, value, ha fun x hx => h x (List.mem_append_left _ hx),
      hb fun x hx => h x (List.mem_append_right _ hx)]
  | or a b ha hb =>
    rw [value, value, ha fun x hx => h x (List.mem_append_left _ hx),
      hb fun x hx => h x (List.mem_append_right _ hx)]
  | not e ih => rw [value, value, ih h]
  | app op args ih =>
    rw [value, value]
    refine congrArg _ (funext fun i => ih i fun x hx => h x ?_)
    exact List.mem_flatten.mpr ⟨_, (List.mem_ofFn' _ _).mpr ⟨i, rfl⟩, hx⟩

end Expr

/-! ## 2. One form for all joins

`_join` has four paths: an inner, left, right or full `merge`, an outer join with a residual, a semi
or anti join, and a cross join.  They differ in which columns are suffixed and which keys are
coalesced, in what is tested on a pair, and in which sides are padded.  `joined` is one definition
with these as parameters, and `joinFrames_ok` says that it is what every path computes. -/

/-- The join takes the path of `_outer_join_with_predicate`. -/
def JoinOn.padded (on : JoinOn V) : Bool := on.how.isOuter && on.onPredicate.isSome

/-- The new names of the two sides' columns. -/
def joinNames (on : JoinOn V) (la ra : Option String) (L R : List String) :
    (String → String) × (String → String) :=
  if collisions L R = [] ∨ on.usingKeys ∨ on.how.isSemi then (id, id)
  else
    match la, ra with
    | some a, some b => (renamed (collisions L R) a, renamed (collisions L R) b)
    | _, _ => (id, id)

/-- The columns of the merged frame. -/
def joinLayout (on : JoinOn V) (la ra : Option String) (L R : List String) : Layout :=
  if on.padded then layout id id (keyPairs on) (residualOverlap (keyPairs on) L R) L R
  else
    let names := joinNames on la ra L R
    layout names.1 names.2 (keyPairs on)
      (mergeOverlap names.1 names.2 (keyPairs on) L R) L R

/-- The columns the ON residual is evaluated on. -/
def predLayout (on : JoinOn V) (la ra : Option String) (L R : List String) : Layout :=
  if on.padded then residualLayout (keyPairs on) L R else joinLayout on la ra L R

/-- The keys that are compared. -/
def testKeys (on : JoinOn V) : List (String × String) :=
  if on.padded then residualKeys (keyPairs on) else keyPairs on

variable [DecidableEq V]

/-- The test of a join on a pair of rows. -/
def joinTest (S : Scalars V) (on : JoinOn V) (la ra : Option String) (L R : List String)
    (l r : Row V) : Bool :=
  (!on.how.isSemi || nonNullKeys (keyPairs on) r) && sameKeys (testKeys on) l r &&
    passes S (predLayout on la ra L R).columns on.onPredicate ((predLayout on la ra L R).row l r)

/-- The join as a join of lists of rows. -/
def joinSpec (S : Scalars V) (on : JoinOn V) (la ra : Option String) (L R : List String) :
    JoinSpec (Row V) (Row V) (Row V) :=
  (joinLayout on la ra L R).spec (joinTest S on la ra L R)

/-- A left row is in the result of a semi or anti join. -/
def semiHit (S : Scalars V) (on : JoinOn V) (la ra : Option String) (L R : List String)
    (rows : List (Row V)) (l : Row V) : Bool :=
  if on.how = .anti then !rows.any (joinTest S on la ra L R l)
  else rows.any (joinTest S on la ra L R l)

/-- What a join returns. -/
def joined (S : Scalars V) (on : JoinOn V) (la ra : Option String) (left right : Frame V) :
    Frame V :=
  if on.how.isSemi then
    left.filter (semiHit S on la ra left.columns right.columns right.rows)
  else
    .ofRows (joinLayout on la ra left.columns right.columns).columns
      ((joinSpec S on la ra left.columns right.columns).run on.how.keepsLeft on.how.keepsRight
        left.rows right.rows)

/-- The columns of two inputs a join accepts. -/
structure Fits (on : JoinOn V) (la ra : Option String) (L R : List String) : Prop where
  names : (collisions L R = [] ∨ on.usingKeys = true ∨ on.how.isSemi = true) ∨
    on.padded = false ∧ la.isSome = true ∧ ra.isSome = true
  keys : checkKeys on L R = .ok ()
  restore : on.padded = true → checkRestore (keyPairs on) = .ok ()
  nodup : on.how.isSemi = false ∨ on.onPredicate.isSome = true →
    (joinLayout on la ra L R).columns.Nodup
  pred : on.padded = false → checkOption (joinLayout on la ra L R).columns on.onPredicate = .ok ()

/-- The inputs a join accepts: a residual of an outer join is evaluated only when some pair of
rows has equal keys. -/
structure Joinable (on : JoinOn V) (la ra : Option String) (left right : Frame V) : Prop where
  fits : Fits on la ra left.columns right.columns
  residual : on.padded = true →
    (∃ l ∈ left.rows, ∃ r ∈ right.rows, sameKeys (testKeys on) l r = true) →
    checkOption (predLayout on la ra left.columns right.columns).columns on.onPredicate = .ok ()

omit [DecidableEq V] in
/-- Names are given to the sides whenever no column is on both, and otherwise only to a plain join
of two relations with aliases. -/
theorem sideNames_ok {on : JoinOn V} {la ra : Option String} {L R : List String}
    {names : (String → String) × (String → String)} :
    sideNames on la ra L R = .ok names ↔
      ((collisions L R = [] ∨ on.usingKeys = true ∨ on.how.isSemi = true) ∨
        on.padded = false ∧ la.isSome = true ∧ ra.isSome = true) ∧
      names = joinNames on la ra L R := by
  unfold sideNames joinNames
  by_cases hc : collisions L R = [] ∨ on.usingKeys = true ∨ on.how.isSemi = true
  · rw [if_pos hc, if_pos hc]
    constructor
    · intro h
      cases h
      exact ⟨.inl hc, rfl⟩
    · rintro ⟨-, rfl⟩
      rfl
  · rw [if_neg hc, if_neg hc]
    by_cases hp : on.how.isOuter = true ∧ on.onPredicate.isSome = true
    · have hpad : on.padded = true := by rw [JoinOn.padded, hp.1, hp.2]; rfl
      rw [if_pos hp]
      constructor
      · intro h
        cases h
      · rintro ⟨h | h, -⟩
        · exact absurd h hc
        · rw [hpad] at h
          cases h.1
    · have hpad : on.padded = false := by
        rw [JoinOn.padded, ← Bool.not_eq_true, Bool.and_eq_true]
        exact hp
      rw [if_neg hp]
      have hok : ∀ x : (String → String) × (String → String),
          (Except.ok x : Except DbError _) = .ok names ↔ names = x := fun x =>
        ⟨fun h => by cases h; rfl, fun h => by rw [h]⟩
      cases la <;> cases ra <;> simp [hc, hpad, hok]

omit [DecidableEq V] in
/-- The keys of a join that passed its check are as many on both sides, at least one, and columns.
-/
theorem checkKeys_spec {on : JoinOn V} {L R : List String} (hc : on.how ≠ .cross)
    (h : checkKeys on L R = .ok ()) : on.onLeft.length = on.onRight.length ∧ on.onLeft ≠ [] ∧
      (∀ c ∈ on.onLeft, c ∈ L) ∧ ∀ c ∈ on.onRight, c ∈ R := by
  rw [checkKeys, if_neg hc] at h
  split at h
  · cases h
  · rename_i hlen
    split at h
    · cases h
    · rename_i hne
      split at h
      · rename_i hl hr
        rw [List.filter_eq_nil_iff] at hl hr
        exact ⟨not_not.mp hlen, hne, fun c hc => by simpa using hl c hc,
          fun c hc => by simpa using hr c hc⟩
      · cases h
      · cases h

omit [DecidableEq V] in
theorem checkKeys_of_subset {on : JoinOn V} {L R : List String}
    (hlen : on.onLeft.length = on.onRight.length) (hne : on.onLeft ≠ [])
    (hl : ∀ c ∈ on.onLeft, c ∈ L) (hr : ∀ c ∈ on.onRight, c ∈ R) : checkKeys on L R = .ok () := by
  have hl' : on.onLeft.filter (· ∉ L) = [] :=
    List.filter_eq_nil_iff.mpr fun c hc => by simpa using hl c hc
  have hr' : on.onRight.filter (· ∉ R) = [] :=
    List.filter_eq_nil_iff.mpr fun c hc => by simpa using hr c hc
  unfold checkKeys
  split
  · rfl
  · simp only [hlen, hl', hr', ne_eq, not_true_eq_false, if_false]

omit [DecidableEq V] in
theorem checkLayout_ok {lay : Layout} : checkLayout lay = .ok () ↔ lay.columns.Nodup := by
  unfold checkLayout
  split <;> simp_all [duplicateColumns]

theorem mergeFrames_ok {S : Scalars V} {on : JoinOn V} {nl nr : String → String}
    {left right f : Frame V} {lay : Layout}
    (hlay : layout nl nr (keyPairs on) (mergeOverlap nl nr (keyPairs on) left.columns
      right.columns) left.columns right.columns = lay) :
    mergeFrames S on nl nr left right = .ok f ↔
      (lay.columns.Nodup ∧ checkOption lay.columns on.onPredicate = .ok ()) ∧
      f = .ofRows lay.columns ((lay.spec fun l r => sameKeys (keyPairs on) l r &&
        passes S lay.columns on.onPredicate (lay.row l r)).run on.how.keepsLeft on.how.keepsRight
          left.rows right.rows) := by
  subst hlay
  constructor
  · intro h
    obtain ⟨_, hl, h⟩ := bind_eq_ok.mp h
    obtain ⟨_, hp, h⟩ := bind_eq_ok.mp h
    cases h
    exact ⟨⟨checkLayout_ok.mp hl, hp⟩, rfl⟩
  · rintro ⟨⟨hl, hp⟩, rfl⟩
    exact bind_eq_ok.mpr ⟨(), checkLayout_ok.mpr hl, bind_eq_ok.mpr ⟨(), hp, rfl⟩⟩

theorem outerJoinWithPredicate_ok {S : Scalars V} {on : JoinOn V} {p : Expr V}
    {left right f : Frame V} {res lay : Layout}
    (hres : residualLayout (keyPairs on) left.columns right.columns = res)
    (hlay : layout id id (keyPairs on) (residualOverlap (keyPairs on) left.columns right.columns)
      left.columns right.columns = lay) :
    outerJoinWithPredicate S on p left right = .ok f ↔
      (checkRestore (keyPairs on) = .ok () ∧ lay.columns.Nodup ∧
        ((∃ l ∈ left.rows, ∃ r ∈ right.rows, sameKeys (residualKeys (keyPairs on)) l r = true) →
          p.check res.columns = .ok ())) ∧
      f = .ofRows lay.columns ((lay.spec fun l r => sameKeys (residualKeys (keyPairs on)) l r &&
        S.holds (p.value S res.columns (res.row l r))).run on.how.keepsLeft on.how.keepsRight
          left.rows right.rows) := by
  subst hres hlay
  have hany : (left.rows.any fun l => right.rows.any fun r =>
      sameKeys (residualKeys (keyPairs on)) l r) = true ↔
      ∃ l ∈ left.rows, ∃ r ∈ right.rows, sameKeys (residualKeys (keyPairs on)) l r = true := by
    simp only [List.any_eq_true]
  constructor
  · intro h
    obtain ⟨_, hr, h⟩ := bind_eq_ok.mp h
    obtain ⟨_, hl, h⟩ := bind_eq_ok.mp h
    obtain ⟨_, hp, h⟩ := bind_eq_ok.mp h
    cases h
    refine ⟨⟨hr, checkLayout_ok.mp hl, fun hex => ?_⟩, rfl⟩
    rw [if_pos (hany.mpr hex)] at hp
    exact hp
  · rintro ⟨⟨hr, hl, hp⟩, rfl⟩
    refine bind_eq_ok.mpr ⟨(), hr, bind_eq_ok.mpr ⟨(), checkLayout_ok.mpr hl,
      bind_eq_ok.mpr ⟨(), ?_, rfl⟩⟩⟩
    split
    · rename_i hex
      exact hp (hany.mp hex)
    · rfl

theorem semiAntiJoin_ok {S : Scalars V} {on : JoinOn V} {left right f : Frame V} {lay : Layout}
    (hlay : layout id id (keyPairs on) (mergeOverlap id id (keyPairs on) left.columns
      right.columns) left.columns right.columns = lay) :
    semiAntiJoin S on left right = .ok f ↔
      ((on.onPredicate.isSome = true → lay.columns.Nodup) ∧
        checkOption lay.columns on.onPredicate = .ok ()) ∧
      f = left.filter fun l =>
        let hit := right.rows.any fun r => nonNullKeys (keyPairs on) r &&
          sameKeys (keyPairs on) l r && passes S lay.columns on.onPredicate (lay.row l r)
        if on.how = .anti then !hit else hit := by
  subst hlay
  constructor
  · intro h
    obtain ⟨_, hl, h⟩ := bind_eq_ok.mp h
    obtain ⟨_, hp, h⟩ := bind_eq_ok.mp h
    cases h
    refine ⟨⟨fun hs => ?_, hp⟩, rfl⟩
    rw [if_pos hs] at hl
    exact checkLayout_ok.mp hl
  · rintro ⟨⟨hl, hp⟩, rfl⟩
    refine bind_eq_ok.mpr ⟨(), ?_, bind_eq_ok.mpr ⟨(), hp, rfl⟩⟩
    split
    · rename_i hs
      exact checkLayout_ok.mpr (hl hs)
    · rfl

omit [DecidableEq V] in
theorem JoinHow.not_outer_of_semi {h : JoinHow} (hs : h.isSemi = true) : h.isOuter = false := by
  cases h <;> first | rfl | cases hs

omit [DecidableEq V] in
theorem joinNames_id {on : JoinOn V} {L R : List String} (la ra : Option String)
    (h : collisions L R = [] ∨ on.usingKeys = true ∨ on.how.isSemi = true) :
    joinNames on la ra L R = (id, id) := if_pos h

omit [DecidableEq V] in
theorem joinLayout_padded {on : JoinOn V} (la ra : Option String) (L R : List String)
    (h : on.padded = true) : joinLayout on la ra L R =
      layout id id (keyPairs on) (residualOverlap (keyPairs on) L R) L R := if_pos h

omit [DecidableEq V] in
theorem joinLayout_merge {on : JoinOn V} (la ra : Option String) (L R : List String)
    (h : on.padded = false) : joinLayout on la ra L R =
      layout (joinNames on la ra L R).1 (joinNames on la ra L R).2 (keyPairs on)
        (mergeOverlap (joinNames on la ra L R).1 (joinNames on la ra L R).2 (keyPairs on) L R)
        L R := if_neg (by rw [h]; decide)

theorem joinTest_merge {S : Scalars V} {on : JoinOn V} {la ra : Option String}
    {L R : List String} (hs : on.how.isSemi = false) (h : on.padded = false) :
    joinTest S on la ra L R = fun l r => (sameKeys (keyPairs on) l r &&
      passes S (joinLayout on la ra L R).columns on.onPredicate
        ((joinLayout on la ra L R).row l r)) := by
  funext l r
  simp [joinTest, testKeys, predLayout, hs, h]

theorem joinTest_padded {S : Scalars V} {on : JoinOn V} {p : Expr V} {la ra : Option String}
    {L R : List String} (hp : on.onPredicate = some p) (h : on.padded = true) :
    joinTest S on la ra L R = fun l r => (sameKeys (residualKeys (keyPairs on)) l r &&
      S.holds (p.value S (residualLayout (keyPairs on) L R).columns
        ((residualLayout (keyPairs on) L R).row l r))) := by
  have hs : on.how.isSemi = false := by
    rw [Bool.eq_false_iff]
    intro hs
    rw [JoinOn.padded, JoinHow.not_outer_of_semi hs] at h
    cases h
  funext l r
  simp [joinTest, testKeys, predLayout, passes, hs, h, hp]

theorem joinTest_semi {S : Scalars V} {on : JoinOn V} {la ra : Option String}
    {L R : List String} (hs : on.how.isSemi = true) (h : on.padded = false) :
    joinTest S on la ra L R = fun l r => (nonNullKeys (keyPairs on) r && sameKeys (keyPairs on) l r &&
      passes S (joinLayout on la ra L R).columns on.onPredicate
        ((joinLayout on la ra L R).row l r)) := by
  funext l r
  simp [joinTest, testKeys, predLayout, hs, h]

/-- What a merge path of `_join` returns. -/
theorem mergePath_ok {S : Scalars V} {on : JoinOn V} {la ra : Option String}
    {left right f : Frame V} (hs : on.how.isSemi = false) (hpad : on.padded = false) :
    mergeFrames S on (joinNames on la ra left.columns right.columns).1
      (joinNames on la ra left.columns right.columns).2 left right = .ok f ↔
      ((joinLayout on la ra left.columns right.columns).columns.Nodup ∧
        checkOption (joinLayout on la ra left.columns right.columns).columns on.onPredicate =
          .ok ()) ∧ f = joined S on la ra left right := by
  rw [mergeFrames_ok (joinLayout_merge la ra left.columns right.columns hpad).symm, joined,
    if_neg (by rw [hs]; decide), joinSpec, joinTest_merge hs hpad]

/-- What the path of a join returns, once its sides have their names. -/
theorem joinPath_ok {S : Scalars V} {on : JoinOn V} {la ra : Option String}
    {left right f : Frame V} :
    joinPath S on (joinNames on la ra left.columns right.columns) left right = .ok f ↔
      ((on.padded = true → checkRestore (keyPairs on) = .ok ()) ∧
        (on.how.isSemi = false ∨ on.onPredicate.isSome = true →
          (joinLayout on la ra left.columns right.columns).columns.Nodup) ∧
        (on.padded = false → checkOption (joinLayout on la ra left.columns
          right.columns).columns on.onPredicate = .ok ()) ∧
        (on.padded = true →
          (∃ l ∈ left.rows, ∃ r ∈ right.rows, sameKeys (testKeys on) l r = true) →
          checkOption (predLayout on la ra left.columns right.columns).columns
            on.onPredicate = .ok ())) ∧ f = joined S on la ra left right := by
  unfold joinPath
  by_cases hs : on.how.isSemi = true
  · have hpad : on.padded = false := by rw [JoinOn.padded, JoinHow.not_outer_of_semi hs]; rfl
    have hlay : layout id id (keyPairs on) (mergeOverlap id id (keyPairs on) left.columns
        right.columns) left.columns right.columns =
        joinLayout on la ra left.columns right.columns := by
      rw [joinLayout_merge la ra _ _ hpad, joinNames_id la ra (.inr (.inr hs))]
    rw [if_pos hs, semiAntiJoin_ok hlay, joined, if_pos hs]
    have hhit : semiHit S on la ra left.columns right.columns right.rows = fun l =>
        let hit := right.rows.any fun r => nonNullKeys (keyPairs on) r &&
          sameKeys (keyPairs on) l r && passes S (joinLayout on la ra left.columns
            right.columns).columns on.onPredicate
              ((joinLayout on la ra left.columns right.columns).row l r)
        if on.how = .anti then !hit else hit := by
      funext l
      rw [semiHit, joinTest_semi hs hpad]
    rw [hhit]
    simp [hs, hpad]
  · have hs' : on.how.isSemi = false := Bool.eq_false_iff.mpr hs
    rw [if_neg hs]
    cases hp : on.onPredicate with
    | none =>
      have hpad : on.padded = false := by
        rw [JoinOn.padded, hp, Bool.and_eq_false_iff]
        exact .inr rfl
      simp only
      rw [mergePath_ok hs' hpad, hp]
      simp [hpad, hs']
    | some p =>
      by_cases ho : on.how.isOuter = true
      · have hpad : on.padded = true := by rw [JoinOn.padded, hp, ho]; rfl
        have hres : residualLayout (keyPairs on) left.columns right.columns =
            predLayout on la ra left.columns right.columns := by
          rw [predLayout, if_pos hpad]
        have hkeys : testKeys on = residualKeys (keyPairs on) := if_pos hpad
        simp only [if_pos ho]
        rw [outerJoinWithPredicate_ok hres (joinLayout_padded la ra _ _ hpad).symm, joined,
          if_neg hs, joinSpec, joinTest_padded hp hpad, hres, hkeys]
        simp [hpad, hs', checkOption, and_assoc]
      · have hpad : on.padded = false := by
          rw [JoinOn.padded, Bool.and_eq_false_iff]
          exact .inl (Bool.eq_false_iff.mpr ho)
        simp only [if_neg ho]
        rw [mergePath_ok hs' hpad, hp]
        simp [hpad, hs']

/-- **What `_join` computes**, on every path: it raises unless the inputs are joinable. -/
theorem joinFrames_ok {S : Scalars V} {on : JoinOn V} {la ra : Option String}
    {left right f : Frame V} : joinFrames S on la ra left right = .ok f ↔
      Joinable on la ra left right ∧ f = joined S on la ra left right := by
  constructor
  · intro h
    obtain ⟨names, hn, h⟩ := bind_eq_ok.mp h
    obtain ⟨_, hk, h⟩ := bind_eq_ok.mp h
    obtain ⟨hnames, rfl⟩ := sideNames_ok.mp hn
    obtain ⟨⟨h1, h2, h3, h4⟩, rfl⟩ := joinPath_ok.mp h
    exact ⟨⟨⟨hnames, hk, h1, h2, h3⟩, h4⟩, rfl⟩
  · rintro ⟨⟨⟨hn, hk, h1, h2, h3⟩, h4⟩, rfl⟩
    exact bind_eq_ok.mpr ⟨_, sideNames_ok.mpr ⟨hn, rfl⟩, bind_eq_ok.mpr ⟨(), hk,
      joinPath_ok.mpr ⟨⟨h1, h2, h3, h4⟩, rfl⟩⟩⟩

theorem sameKeys_mem {keys : List (String × String)} {l r : Row V}
    (h : sameKeys keys l r = true) {c d : String} (hm : (c, d) ∈ keys) : l c = r d := by
  rw [sameKeys, List.all_eq_true] at h
  exact of_decide_eq_true (h (c, d) hm)

/-- A pair that matches has equal keys. -/
theorem sameKeys_of_joinTest {S : Scalars V} {on : JoinOn V} {la ra : Option String}
    {L R : List String} {l r : Row V} (h : joinTest S on la ra L R l r = true) :
    sameKeys (testKeys on) l r = true := by
  rw [joinTest, Bool.and_eq_true, Bool.and_eq_true] at h
  exact h.1.2

/-! ## 3. What each operator returns -/

omit [DecidableEq V] in
/-- **A filter returns** when its predicate can be evaluated, the rows on which it is true. -/
theorem filterFrame_ok {S : Scalars V} {df f : Frame V} {p : Expr V} :
    filterFrame S df p = .ok f ↔ p.check df.columns = .ok () ∧
      f = df.filter fun r => S.holds (p.value S df.columns r) := by
  constructor
  · intro h
    obtain ⟨_, hp, h⟩ := bind_eq_ok.mp h
    cases h
    exact ⟨hp, rfl⟩
  · rintro ⟨hp, rfl⟩
    exact bind_eq_ok.mpr ⟨(), hp, rfl⟩

omit [DecidableEq V] in
/-- **A projection returns** when its items can be evaluated, a row of their values for each row. -/
theorem projectFrame_ok {S : Scalars V} {df f : Frame V} {items : List (Expr V × String)} :
    projectFrame S df items = .ok f ↔ (∀ i ∈ items, i.1.check df.columns = .ok ()) ∧
      f = .ofRows (itemColumns items) (df.rows.map (itemCell S df.columns items)) := by
  constructor
  · intro h
    obtain ⟨_, hp, h⟩ := bind_eq_ok.mp h
    cases h
    exact ⟨Expr.forM_ok.mp hp, rfl⟩
  · rintro ⟨hp, rfl⟩
    exact bind_eq_ok.mpr ⟨(), Expr.forM_ok.mpr hp, rfl⟩

/-- **An aggregate returns** when its keys and, over the frame with the keys, its arguments can be
evaluated. -/
theorem aggregateFrame_ok {S : Scalars V} {df f : Frame V} {keys : List (Expr V × String)}
    {aggs : List (AggFunc V × String)} : aggregateFrame S df keys aggs = .ok f ↔
      ∃ work, withKeys S df keys = .ok work ∧
        (∀ a ∈ aggs, ∀ e ∈ a.1.exprs, e.check work.columns = .ok ()) ∧
        f = if keys.isEmpty then scalarGlobalAgg S df aggs else fusedAgg S work keys aggs := by
  constructor
  · intro h
    obtain ⟨work, hw, h⟩ := bind_eq_ok.mp h
    obtain ⟨_, hc, h⟩ := bind_eq_ok.mp h
    refine ⟨work, hw, fun a ha e he => Expr.forM_ok.mp hc e (List.mem_flatMap.mpr ⟨a, ha, he⟩), ?_⟩
    by_cases hk : keys.isEmpty = true
    · rw [if_pos hk] at h ⊢
      cases h
      rfl
    · rw [if_neg hk] at h ⊢
      cases h
      rfl
  · rintro ⟨work, hw, hc, rfl⟩
    refine bind_eq_ok.mpr ⟨work, hw, bind_eq_ok.mpr ⟨(), Expr.forM_ok.mpr ?_, ?_⟩⟩
    · intro e he
      obtain ⟨a, ha, he⟩ := List.mem_flatMap.mp he
      exact hc a ha e he
    · split <;> rfl

omit [DecidableEq V] in
/-- **A window function returns** when its arguments can be evaluated; its column is set on every
row. -/
theorem windowColumn_ok {S : Scalars V} {df f : Frame V} {w : WindowFunc V × String} :
    windowColumn S df w = .ok f ↔ (∀ e ∈ w.1.args, e.check df.columns = .ok ()) ∧
      f = .ofRows (addColumn df.columns w.2) (List.zipWith
        (fun (r : Row V) c n => if n = w.2 then c else r n) df.rows
        (w.1.compute (df.rows.map fun r => w.1.args.map (Expr.value S df.columns r)))) := by
  constructor
  · intro h
    obtain ⟨_, hp, h⟩ := bind_eq_ok.mp h
    cases h
    exact ⟨Expr.forM_ok.mp hp, rfl⟩
  · rintro ⟨hp, rfl⟩
    exact bind_eq_ok.mpr ⟨(), Expr.forM_ok.mpr hp, rfl⟩

omit [DecidableEq V] in
theorem windowFrame_cons {S : Scalars V} {df f : Frame V} {w : WindowFunc V × String}
    {ws : List (WindowFunc V × String)} : windowFrame S df (w :: ws) = .ok f ↔
      ∃ g, windowColumn S df w = .ok g ∧ windowFrame S g ws = .ok f := by
  rw [windowFrame, List.foldlM_cons, bind_eq_ok]
  rfl

omit [DecidableEq V] in
theorem windowFrame_columns {S : Scalars V} : ∀ {ws : List (WindowFunc V × String)}
    {df f : Frame V}, windowFrame S df ws = .ok f →
      f.columns = (ws.map Prod.snd).foldl addColumn df.columns
  | [], _, _, h => by cases h; rfl
  | w :: ws, df, f, h => by
    obtain ⟨g, hg, h⟩ := windowFrame_cons.mp h
    rw [windowFrame_columns h, (windowColumn_ok.mp hg).2]
    rfl

omit [DecidableEq V] in
theorem sortFrame_columns {S : Scalars V} {df f : Frame V} {keys : List (Expr V × Bool)}
    {src : Except DbError (Frame V)} (h : sortFrame S df keys src = .ok f) :
    f.columns = df.columns := by
  unfold sortFrame at h
  split at h
  · cases h
    rfl
  · obtain ⟨pairs, -, h⟩ := bind_eq_ok.mp h
    cases h
    rfl

theorem setopFrames_columns {op : SetKind} {d : Bool} {left right f : Frame V}
    (h : setopFrames op d left right = .ok f) : f.columns = left.columns := by
  unfold setopFrames at h
  split at h
  · cases h
  · cases op with
    | union =>
      cases h
      split <;> rfl
    | intersect =>
      dsimp only at h
      split at h
      · cases h
      · cases h
        rfl
    | except =>
      dsimp only at h
      split at h
      · cases h
      · cases h
        rfl

theorem joined_columns (S : Scalars V) (on : JoinOn V) (la ra : Option String)
    (left right : Frame V) : (joined S on la ra left right).columns =
      if on.how.isSemi then left.columns
      else (joinLayout on la ra left.columns right.columns).columns := by
  unfold joined
  split <;> rfl

omit [DecidableEq V] in
theorem Layout.row_source {lay : Layout} {n : String} {s : Source} (h : lay.source n = some s)
    (l r : Row V) : lay.row l r n = s.cell l r := by
  rw [Layout.row, h]

omit [DecidableEq V] in
/-- A row of a layout says nothing outside its columns. -/
theorem Layout.row_notMem {lay : Layout} {n : String} (h : n ∉ lay.columns) (l r : Row V) :
    lay.row l r n = none := by
  have hs : lay.source n = none := by
    rw [Layout.source, List.lookup_eq_none_iff]
    intro p hp
    rw [bne_iff_ne]
    rintro rfl
    exact h (List.mem_map_of_mem hp)
  rw [Layout.row, hs]

omit [DecidableEq V] in
/-- Rows that say nothing outside the columns are the rows of the frame. -/
theorem ofRows_rows_of_supported {cols : List String} {rows : List (Row V)}
    (h : ∀ r ∈ rows, ∀ c, c ∉ cols → r c = none) : (Frame.ofRows cols rows).rows = rows := by
  rw [Frame.ofRows_rows]
  refine (List.map_congr_left fun r hr => ?_).trans (List.map_id _)
  funext c
  by_cases hc : c ∈ cols
  · exact restrict_mem hc
  · rw [restrict_notMem hc, id_eq, h r hr c hc]

/-- The rows of a join that is no semi or anti join. -/
theorem joined_rows {S : Scalars V} {on : JoinOn V} {la ra : Option String}
    {left right : Frame V} (hs : on.how.isSemi = false) :
    (joined S on la ra left right).rows =
      (joinSpec S on la ra left.columns right.columns).run on.how.keepsLeft on.how.keepsRight
        left.rows right.rows := by
  rw [joined, if_neg (by rw [hs]; decide)]
  refine ofRows_rows_of_supported (JoinSpec.forall_mem_run _ ?_ ?_ ?_ _ _ _ _)
  · exact fun a b c hc => Layout.row_notMem hc a b
  · exact fun a c hc => Layout.row_notMem hc a nullRow
  · exact fun b c hc => Layout.row_notMem hc nullRow b

omit [DecidableEq V] in
/-- **A scan returns** when the table is there and has the columns asked for. -/
theorem Database.scan_ok {D : Database V} {t : String} {c : Option (List String)} {f : Frame V} :
    D.scan t c = .ok f ↔ ∃ g, D.tables.get? t = some g ∧
      (∀ n ∈ scanColumns g.columns c, n ∈ g.columns) ∧
      f = .ofRows (scanColumns g.columns c) g.rows := by
  unfold Database.scan
  cases hg : D.tables.get? t with
  | none => simp
  | some g => simp [Frame.select_ok]

/-! ## 4. The columns of a plan -/

omit [DecidableEq V] in
/-- The columns an aggregate returns. -/
def aggregateColumns (keys : List (Expr V × String)) (aggs : List (AggFunc V × String)) :
    List String :=
  if keys.isEmpty then (if aggs.isEmpty then ["_g_"] else aggColumns [] aggs)
  else aggColumns keys aggs

omit [DecidableEq V] in
/-- The columns a plan returns over tables of the given schema. -/
def outColumns (sch : Dict String (List String)) : PlanNode V → List String
  | .scan t c _ => scanColumns ((sch.get? t).getD []) c
  | .derived input _ => outColumns sch input
  | .filter input _ => outColumns sch input
  | .project _ items => itemColumns items
  | .join l r on =>
    if on.how.isSemi then outColumns sch l
    else (joinLayout on l.sideAlias r.sideAlias (outColumns sch l) (outColumns sch r)).columns
  | .aggregate _ keys aggs => aggregateColumns keys aggs
  | .window input funcs => (funcs.map Prod.snd).foldl addColumn (outColumns sch input)
  | .sort input _ => outColumns sch input
  | .limit input _ _ => outColumns sch input
  | .distinct input => outColumns sch input
  | .setOp l _ _ _ => outColumns sch l

/-- **The columns a plan returns are those `outColumns` computes from the schema.** -/
theorem exec_columns {S : Scalars V} {D : Database V} : ∀ {p : PlanNode V} {f : Frame V},
    exec S D p = .ok f → f.columns = outColumns D.schema p := by
  intro p
  induction p with
  | scan t c a =>
    intro f h
    obtain ⟨g, hg, -, rfl⟩ := Database.scan_ok.mp h
    simp [outColumns, Database.schema, hg]
  | derived input a ih => exact ih
  | filter input p ih =>
    intro f h
    obtain ⟨df, hdf, h⟩ := bind_eq_ok.mp h
    rw [(filterFrame_ok.mp h).2, Frame.filter_columns, ih hdf]
    rfl
  | project input items ih =>
    intro f h
    obtain ⟨df, hdf, h⟩ := bind_eq_ok.mp h
    obtain ⟨-, rfl⟩ := projectFrame_ok.mp h
    rfl
  | join l r on ihl ihr =>
    intro f h
    obtain ⟨left, hl, h⟩ := bind_eq_ok.mp h
    obtain ⟨right, hr, h⟩ := bind_eq_ok.mp h
    obtain ⟨-, rfl⟩ := joinFrames_ok.mp h
    rw [joined_columns, ihl hl, ihr hr]
    rfl
  | aggregate input keys aggs ih =>
    intro f h
    obtain ⟨df, hdf, h⟩ := bind_eq_ok.mp h
    obtain ⟨work, -, -, rfl⟩ := aggregateFrame_ok.mp h
    simp only [outColumns, aggregateColumns, scalarGlobalAgg, fusedAgg]
    split
    · split <;> rfl
    · rfl
  | window input funcs ih =>
    intro f h
    obtain ⟨df, hdf, h⟩ := bind_eq_ok.mp h
    rw [windowFrame_columns h, ih hdf]
    rfl
  | sort input keys ih =>
    intro f h
    rw [exec_sort] at h
    obtain ⟨df, hdf, h⟩ := bind_eq_ok.mp h
    rw [sortFrame_columns h, ih hdf]
    rfl
  | limit input n o ih =>
    intro f h
    obtain ⟨df, hdf, h⟩ := bind_eq_ok.mp h
    cases h
    exact (ih hdf :)
  | distinct input ih =>
    intro f h
    obtain ⟨df, hdf, h⟩ := bind_eq_ok.mp h
    cases h
    exact (ih hdf :)
  | setOp l r op d ihl ihr =>
    intro f h
    obtain ⟨left, hl, h⟩ := bind_eq_ok.mp h
    obtain ⟨right, hr, h⟩ := bind_eq_ok.mp h
    rw [setopFrames_columns h, ihl hl]
    rfl

/-! ## 5. A frame has one column of a name -/

omit [DecidableEq V] in
theorem nodup_addColumn {cols : List String} (h : cols.Nodup) (n : String) :
    (addColumn cols n).Nodup := by
  unfold addColumn
  split
  · exact h
  · rename_i hn
    rw [List.nodup_append]
    refine ⟨h, List.nodup_singleton n, fun a ha b hb => ?_⟩
    rw [List.mem_singleton.mp hb]
    rintro rfl
    exact hn ha

omit [DecidableEq V] in
theorem nodup_foldl_addColumn : ∀ {ns cols : List String}, cols.Nodup →
    (ns.foldl addColumn cols).Nodup
  | [], _, h => h
  | n :: ns, cols, h => by
    rw [List.foldl_cons]
    exact nodup_foldl_addColumn (nodup_addColumn h n)

omit [DecidableEq V] in
theorem mem_foldl_addColumn {c : String} : ∀ {ns cols : List String},
    c ∈ ns.foldl addColumn cols ↔ c ∈ cols ∨ c ∈ ns
  | [], _ => by simp
  | n :: ns, cols => by
    rw [List.foldl_cons, mem_foldl_addColumn, addColumn]
    split
    · rename_i hn
      rw [List.mem_cons]
      constructor
      · rintro (h | h)
        · exact .inl h
        · exact .inr (.inr h)
      · rintro (h | rfl | h)
        · exact .inl h
        · exact .inl hn
        · exact .inr h
    · simp [or_assoc]

/-- **No plan returns two columns of one name.** -/
theorem exec_nodup {S : Scalars V} {D : Database V} : ∀ {p : PlanNode V} {f : Frame V},
    exec S D p = .ok f → f.columns.Nodup := by
  intro p
  induction p with
  | scan t c a =>
    intro f h
    obtain ⟨g, hg, -, rfl⟩ := Database.scan_ok.mp h
    have hnd := D.nodup t g hg
    rw [Frame.ofRows_columns]
    unfold scanColumns
    split
    · exact hnd
    · exact hnd
    · exact nodup_sortedSet _
  | derived input a ih => exact ih
  | filter input p ih =>
    intro f h
    obtain ⟨df, hdf, h⟩ := bind_eq_ok.mp h
    rw [(filterFrame_ok.mp h).2]
    exact (ih hdf :)
  | project input items ih =>
    intro f h
    obtain ⟨df, hdf, h⟩ := bind_eq_ok.mp h
    rw [(projectFrame_ok.mp h).2]
    exact nodup_foldl_addColumn List.nodup_nil
  | join l r on ihl ihr =>
    intro f h
    obtain ⟨left, hl, h⟩ := bind_eq_ok.mp h
    obtain ⟨right, hr, h⟩ := bind_eq_ok.mp h
    obtain ⟨hj, rfl⟩ := joinFrames_ok.mp h
    rw [joined_columns]
    split
    · exact ihl hl
    · rename_i hs
      exact hj.fits.nodup (.inl (Bool.eq_false_iff.mpr hs))
  | aggregate input keys aggs ih =>
    intro f h
    rw [exec_columns h, outColumns, aggregateColumns]
    split
    · split
      · exact List.nodup_singleton _
      · exact nodup_foldl_addColumn List.nodup_nil
    · exact nodup_foldl_addColumn List.nodup_nil
  | window input funcs ih =>
    intro f h
    obtain ⟨df, hdf, h⟩ := bind_eq_ok.mp h
    rw [windowFrame_columns h]
    exact nodup_foldl_addColumn (ih hdf)
  | sort input keys ih =>
    intro f h
    rw [exec_sort] at h
    obtain ⟨df, hdf, h⟩ := bind_eq_ok.mp h
    rw [sortFrame_columns h]
    exact ih hdf
  | limit input n o ih =>
    intro f h
    obtain ⟨df, hdf, h⟩ := bind_eq_ok.mp h
    cases h
    exact (ih hdf :)
  | distinct input ih =>
    intro f h
    obtain ⟨df, hdf, h⟩ := bind_eq_ok.mp h
    cases h
    exact (ih hdf :)
  | setOp l r op d ihl ihr =>
    intro f h
    obtain ⟨left, hl, h⟩ := bind_eq_ok.mp h
    obtain ⟨right, hr, h⟩ := bind_eq_ok.mp h
    rw [setopFrames_columns h]
    exact ihl hl

end RyuDB.Sql
