/-
# Join-side selection

`select_join_sides` exchanges the sides of every join whose right input is estimated smaller.
Does the plan still return the same rows, and are its columns still in the same order?

    returns_selectJoinSides :
      sidesSafe S D stats p → exec S D p = .ok f →
        ∃ g, exec S D (selectJoinSides stats p) = .ok g ∧ Alike f g

    selectJoinSides_exec :
      the same of the engine (`execute`), where nothing disturbs the two runs

    selectJoinSides_columns :
      sameSides stats stats' p → the columns under both statistics come in one order

An exchange reorders the columns and the rows of a join.  Above it, a set operation pairs
columns by position (`union_of_stars`), LIMIT cuts the list of rows, and a window function may
number rows that its keys do not tell apart; `sidesSafe` asks that no such node stands above an
exchange it can see.  A projection or an aggregate names its columns, so the order of the columns
is seen up to the next one of these only.

The statistics are row counts per table, and a table without one counts as large.  Everything the pass
decides is decided by them, so the theorem about columns compares two sets of statistics: the plan
before and after some rows were inserted, for instance, where the user has changed nothing about the
query.
-/
import RyuDB.BuiltExec
import RyuDB.Flip

namespace RyuDB.Sql

variable {V : Type}

/-! ## 1. Which joins are exchanged -/

theorem estRows_chooseSides (stats : Dict String Nat) (p : PlanNode V) :
    estRows stats (chooseSides stats p) = estRows stats p := by
  induction p with
  | join l r on ihl ihr =>
    rw [chooseSides]
    split
    · rw [estRows, estRows, ihl, ihr, Nat.mul_comm]
    · rw [estRows, estRows, ihl, ihr]
  | _ => simp_all [chooseSides, estRows]

theorem swaps_chooseSides (stats : Dict String Nat) (l r : PlanNode V) (on : JoinOn V) :
    swaps stats (chooseSides stats l) (chooseSides stats r) on = swaps stats l r on := by
  rw [swaps, swaps, estRows_chooseSides, estRows_chooseSides]

theorem sideAlias_chooseSides (stats : Dict String Nat) (p : PlanNode V) :
    (chooseSides stats p).sideAlias = p.sideAlias := by
  induction p with
  | join l r on ihl ihr =>
    rw [chooseSides]
    split <;> rfl
  | _ => simp_all [chooseSides, PlanNode.sideAlias]

theorem chooseSides_join (stats : Dict String Nat) (l r : PlanNode V) (on : JoinOn V) :
    chooseSides stats (.join l r on) =
      if swaps stats l r on then .join (chooseSides stats r) (chooseSides stats l) on.flip
      else .join (chooseSides stats l) (chooseSides stats r) on := by
  rw [chooseSides, swaps_chooseSides]

/-- No join of the plan is exchanged. -/
def unswapped (stats : Dict String Nat) : PlanNode V → Bool
  | .scan _ _ _ => true
  | .derived input _ => unswapped stats input
  | .filter input _ => unswapped stats input
  | .project input _ => unswapped stats input
  | .join l r on => !swaps stats l r on && unswapped stats l && unswapped stats r
  | .aggregate input _ _ => unswapped stats input
  | .window input _ => unswapped stats input
  | .sort input _ => unswapped stats input
  | .limit input _ _ => unswapped stats input
  | .distinct input => unswapped stats input
  | .setOp l r _ _ => unswapped stats l && unswapped stats r

theorem chooseSides_of_unswapped {stats : Dict String Nat} {p : PlanNode V}
    (h : unswapped stats p = true) : chooseSides stats p = p := by
  induction p with
  | join l r on ihl ihr =>
    simp only [unswapped, Bool.and_eq_true, Bool.not_eq_true'] at h
    rw [chooseSides_join, h.1.1, ihl h.1.2, ihr h.2]
    rfl
  | setOp l r op d ihl ihr =>
    simp only [unswapped, Bool.and_eq_true] at h
    rw [chooseSides, ihl h.1, ihr h.2]
  | _ => simp_all [chooseSides, unswapped]

/-- No exchanged join reaches the columns of the plan: between them stands a projection or an
aggregate, which names its columns. -/
def fixedOrder (stats : Dict String Nat) : PlanNode V → Bool
  | .scan _ _ _ => true
  | .derived input _ => fixedOrder stats input
  | .filter input _ => fixedOrder stats input
  | .project _ _ => true
  | .join l r on =>
    !swaps stats l r on && fixedOrder stats l && (on.how.isSemi || fixedOrder stats r)
  | .aggregate _ _ _ => true
  | .window input _ => fixedOrder stats input
  | .sort input _ => fixedOrder stats input
  | .limit input _ _ => fixedOrder stats input
  | .distinct input => fixedOrder stats input
  | .setOp l _ _ _ => fixedOrder stats l

theorem outColumns_of_fixedOrder {stats : Dict String Nat} (sch : Dict String (List String))
    {p : PlanNode V} (h : fixedOrder stats p = true) :
    outColumns sch (chooseSides stats p) = outColumns sch p := by
  induction p with
  | join l r on ihl ihr =>
    simp only [fixedOrder, Bool.and_eq_true, Bool.not_eq_true', Bool.or_eq_true] at h
    rw [chooseSides_join, h.1.1, if_neg (by decide), outColumns, outColumns, ihl h.1.2,
      sideAlias_chooseSides, sideAlias_chooseSides]
    split
    · rfl
    · rename_i hs
      rw [ihr (h.2.resolve_left hs)]
  | setOp l r op d ihl ihr => exact ihl h
  | window input funcs ih => rw [chooseSides, outColumns, outColumns, ih h]
  | project input items ih => rfl
  | aggregate input keys aggs ih => rfl
  | scan t c a => rfl
  | derived input a ih => exact ih h
  | filter input e ih => exact ih h
  | sort input keys ih => exact ih h
  | limit input n o ih => exact ih h
  | distinct input ih => exact ih h

/-! ## 2. The plans whose rows are kept -/

variable [DecidableEq V]

/-- The keys of a sort tell apart the rows it sorts. -/
def Untied (S : Scalars V) (D : Database V) : PlanNode V → Prop
  | .sort input keys => keys ≠ [] ∧ ∀ df pairs, exec S D input = .ok df →
      sortPairs S df keys (sortSource S D input df) = .ok pairs →
      ∀ a ∈ pairs, ∀ b ∈ pairs, S.keyLe (keys.map Prod.snd) a.1 b.1 = true →
        S.keyLe (keys.map Prod.snd) b.1 a.1 = true → a = b
  | _ => False

/-- **The plans whose rows `select_join_sides` keeps.** -/
def sidesSafe (S : Scalars V) (D : Database V) (stats : Dict String Nat) : PlanNode V → Prop
  | .scan _ _ _ => True
  | .derived input _ => sidesSafe S D stats input
  | .filter input _ => sidesSafe S D stats input
  | .project input _ => sidesSafe S D stats input
  | .join l r on => sidesSafe S D stats l ∧ sidesSafe S D stats r ∧
      (swaps stats l r on = true → tidy on l.sideAlias r.sideAlias (outColumns D.schema l)
        (outColumns D.schema r) = true)
  | .aggregate input _ _ => sidesSafe S D stats input
  | .window input funcs => sidesSafe S D stats input ∧
      (unswapped stats input = true ∨ ∀ w ∈ funcs, w.1.Fair)
  | .sort input _ => sidesSafe S D stats input
  | .limit input _ _ => sidesSafe S D stats input ∧
      (unswapped stats input = true ∨ Untied S D input)
  | .distinct input => sidesSafe S D stats input
  | .setOp l r _ _ => (sidesSafe S D stats l ∧ sidesSafe S D stats r) ∧
      fixedOrder stats l = true ∧ fixedOrder stats r = true

/-- What the induction over a plan carries: `q` returns what `p` returns up to order, in the very
order if the keys of a sort settle it, and a sort above finds its sources in the same relation. -/
structure Sided (S : Scalars V) (D : Database V) (p : PlanNode V) (f g : Frame V)
    (q : PlanNode V) : Prop where
  returns : exec S D q = .ok g
  alike : Alike f g
  settled : Untied S D p → f.rows = g.rows
  source : ∀ s, sortSource S D p f = .ok s → ∃ s' k, sortSource S D q g = .ok s' ∧ Alike s s' ∧
    f.rows = s.rows.map k ∧ g.rows = s'.rows.map k

/-- A node that is neither a sort nor a projection. -/
theorem Sided.plain {S : Scalars V} {D : Database V} {p q : PlanNode V} {f g : Frame V}
    (hp : p.isProject = false) (hq : q.isProject = false) (hu : ¬ Untied S D p)
    (hg : exec S D q = .ok g) (ha : Alike f g) : Sided S D p f g q where
  returns := hg
  alike := ha
  settled h := absurd h hu
  source s hs := by
    rw [sortSource_of_not_project hp] at hs
    cases hs
    exact ⟨g, id, sortSource_of_not_project hq g, ha, (List.map_id _).symm, (List.map_id _).symm⟩

theorem Sided.project {S : Scalars V} {D : Database V} {p q : PlanNode V} {df dg f : Frame V}
    {items : List (Expr V × String)} (h : Sided S D p df dg q) (hdf : exec S D p = .ok df)
    (hf : projectFrame S df items = .ok f) :
    ∃ g, Sided S D (.project p items) f g (.project q items) := by
  obtain ⟨g, hg, hfg, -⟩ := h.alike.projectFrame hf
  refine ⟨g, bind_eq_ok.mpr ⟨dg, h.returns, hg⟩, hfg, fun hu => absurd hu id, fun s hs => ?_⟩
  have hsd : s = df := by
    have hs' : exec S D p = .ok s := hs
    rw [hdf] at hs'
    cases hs'
    rfl
  subst hsd
  have hm : ∀ n, n ∈ s.columns ↔ n ∈ dg.columns := fun n => h.alike.columns.mem_iff
  obtain ⟨-, rfl⟩ := projectFrame_ok.mp hf
  obtain ⟨-, rfl⟩ := projectFrame_ok.mp hg
  refine ⟨dg, fun r => restrict (itemColumns items) (itemCell S dg.columns items r), h.returns,
    h.alike, ?_, ?_⟩
  · rw [Frame.ofRows_rows, List.map_map, itemCell_congr hm]
    rfl
  · rw [Frame.ofRows_rows, List.map_map]
    rfl

theorem Sided.sort {S : Scalars V} {D : Database V} {p q : PlanNode V} {df dg f : Frame V}
    {keys : List (Expr V × Bool)} (h : Sided S D p df dg q) (hdf : exec S D p = .ok df)
    (hf : sortFrame S df keys (sortSource S D p df) = .ok f) :
    ∃ g, Sided S D (.sort p keys) f g (.sort q keys) := by
  obtain ⟨g, hg, hfg⟩ := h.alike.sortFrame h.source hf
  have hret : exec S D (.sort q keys) = .ok g := by
    rw [exec_sort]
    exact bind_eq_ok.mpr ⟨dg, h.returns, hg⟩
  refine ⟨g, hret, hfg, fun hu => ?_, fun s hs => ?_⟩
  · -- the keys tell the rows apart, so both sorts return the one sorted list
    have hk : keys.isEmpty = false := by
      cases keys with
      | nil => exact absurd rfl hu.1
      | cons k ks => rfl
    have hf' := hf
    rw [sortFrame, hk, if_neg (by decide)] at hf'
    obtain ⟨pairs, hp, -⟩ := bind_eq_ok.mp hf'
    exact sortFrame_rows h.alike h.source hk hp (hu.2 df pairs hdf hp) hf hg
  · cases hs
    exact ⟨g, id, rfl, hfg, (List.map_id _).symm, (List.map_id _).symm⟩

/-- A join whose inputs are alike, exchanged or not. -/
theorem joinFrames_sided {S : Scalars V} {on : JoinOn V} {la ra : Option String}
    {l l' r r' f : Frame V} (hl : Alike l l') (hr : Alike r r')
    (hf : joinFrames S on la ra l r = .ok f) :
    (∃ g, joinFrames S on la ra l' r' = .ok g ∧ Alike f g) ∧
    (l.columns.Nodup → r.columns.Nodup → on.how.isSemi = false →
      tidy on la ra l.columns r.columns = true →
      ∃ g, joinFrames S on.flip ra la r' l' = .ok g ∧ Alike f g) := by
  obtain ⟨hj, rfl⟩ := joinFrames_ok.mp hf
  refine ⟨⟨_, joinFrames_ok.mpr ⟨hj.alike hl hr, rfl⟩, joined_perm hj hl hr⟩, ?_⟩
  intro hnl hnr hs ht
  have hflip := hj.flip hnl hnr ht hs
  refine ⟨_, joinFrames_ok.mpr ⟨hflip.alike hr hl, rfl⟩, ?_⟩
  have hfirst := joined_flip (S := S) hj hnl hnr ht hs
  have hsecond : Alike (joined S on.flip ra la r l) (joined S on.flip ra la r' l') :=
    joined_perm hflip hr hl
  exact ⟨hfirst.columns.trans hsecond.columns, hfirst.rows.trans hsecond.rows⟩

/-- A safe plan returns, after the exchanges, its frame up to the order of columns and rows.  It is what
the induction over plans proves; `sidesSafe` names the places where an order shows. -/
def Exchanges (S : Scalars V) (D : Database V) (stats : Dict String Nat) (p : PlanNode V) : Prop :=
  ∀ {f : Frame V}, sidesSafe S D stats p → exec S D p = .ok f →
    ∃ g, Sided S D p f g (chooseSides stats p)

section Exchanges

variable {S : Scalars V} {D : Database V} {stats : Dict String Nat} {input l r : PlanNode V}

/-- A join whose sides are exchanged finds the same pairs, the other way around. -/
theorem Exchanges.join (ihl : Exchanges S D stats l) (ihr : Exchanges S D stats r) (on : JoinOn V) :
    Exchanges S D stats (.join l r on) := by
  intro f hs hf
  obtain ⟨left, hl, hf⟩ := bind_eq_ok.mp hf
  obtain ⟨right, hr, hf⟩ := bind_eq_ok.mp hf
  obtain ⟨left', hl'⟩ := ihl hs.1 hl
  obtain ⟨right', hr'⟩ := ihr hs.2.1 hr
  obtain ⟨hkeep, hswap⟩ := joinFrames_sided hl'.alike hr'.alike hf
  rw [chooseSides_join]
  cases hsw : swaps stats l r on with
  | false =>
    obtain ⟨g, hg, ha⟩ := hkeep
    refine ⟨g, .plain rfl rfl id (bind_eq_ok.mpr ⟨left', hl'.returns,
      bind_eq_ok.mpr ⟨right', hr'.returns, ?_⟩⟩) ha⟩
    rw [sideAlias_chooseSides, sideAlias_chooseSides]
    exact hg
  | true =>
    have hsemi : on.how.isSemi = false := by
      simp only [swaps, Bool.and_eq_true, Bool.not_eq_true'] at hsw
      exact hsw.1
    have ht := hs.2.2 hsw
    rw [← exec_columns hl, ← exec_columns hr] at ht
    obtain ⟨g, hg, ha⟩ := hswap (exec_nodup hl) (exec_nodup hr) hsemi ht
    refine ⟨g, .plain rfl rfl id (bind_eq_ok.mpr ⟨right', hr'.returns,
      bind_eq_ok.mpr ⟨left', hl'.returns, ?_⟩⟩) ha⟩
    rw [sideAlias_chooseSides, sideAlias_chooseSides]
    exact hg

/-- A window computes the same column on rows in another order, unless its order decides. -/
theorem Exchanges.window (ih : Exchanges S D stats input) (funcs : List (WindowFunc V × String)) :
    Exchanges S D stats (.window input funcs) := by
  intro f hs hf
  rcases hs.2 with hu | hfair
  · have hsame : chooseSides stats (.window input funcs) = .window input funcs := by
      rw [chooseSides, chooseSides_of_unswapped hu]
    rw [hsame]
    exact ⟨f, .plain rfl rfl id hf (.refl f)⟩
  · obtain ⟨df, hdf, hf⟩ := bind_eq_ok.mp hf
    obtain ⟨dg, hdg⟩ := ih hs.1 hdf
    obtain ⟨g, hg, ha⟩ := hdg.alike.windowFrame hfair hf
    exact ⟨g, .plain rfl rfl id (bind_eq_ok.mpr ⟨dg, hdg.returns, hg⟩) ha⟩

/-- LIMIT takes the same rows where nothing below it is exchanged, or its input is sorted fully. -/
theorem Exchanges.limit (ih : Exchanges S D stats input) (n o : Nat) :
    Exchanges S D stats (.limit input n o) := by
  intro f hs hf
  rcases hs.2 with hu | hu
  · have hsame : chooseSides stats (.limit input n o) = .limit input n o := by
      rw [chooseSides, chooseSides_of_unswapped hu]
    rw [hsame]
    exact ⟨f, .plain rfl rfl id hf (.refl f)⟩
  · obtain ⟨df, hdf, hf⟩ := bind_eq_ok.mp hf
    obtain ⟨dg, hdg⟩ := ih hs.1 hdf
    cases hf
    refine ⟨limitFrame dg n o, .plain rfl rfl id (bind_eq_ok.mpr ⟨dg, hdg.returns, rfl⟩) ?_⟩
    refine .ofRows hdg.alike.columns ?_
    rw [hdg.settled hu]

/-- A set operation pairs columns by position, so the columns of its sides keep their order. -/
theorem Exchanges.setOp (ihl : Exchanges S D stats l) (ihr : Exchanges S D stats r) (op : SetKind)
    (d : Bool) : Exchanges S D stats (.setOp l r op d) := by
  intro f hs hf
  obtain ⟨left, hl, hf⟩ := bind_eq_ok.mp hf
  obtain ⟨right, hr, hf⟩ := bind_eq_ok.mp hf
  obtain ⟨left', hl'⟩ := ihl hs.1.1 hl
  obtain ⟨right', hr'⟩ := ihr hs.1.2 hr
  have hlc : left.columns = left'.columns := by
    rw [exec_columns hl, exec_columns hl'.returns, outColumns_of_fixedOrder _ hs.2.1]
  have hrc : right.columns = right'.columns := by
    rw [exec_columns hr, exec_columns hr'.returns, outColumns_of_fixedOrder _ hs.2.2]
  obtain ⟨g, hg, ha⟩ := hl'.alike.setopFrames hr'.alike hlc hrc hf
  exact ⟨g, .plain rfl rfl id (bind_eq_ok.mpr ⟨left', hl'.returns,
    bind_eq_ok.mpr ⟨right', hr'.returns, hg⟩⟩) ha⟩

end Exchanges

/-- **Exchanging sides keeps what a plan returns, up to order.** -/
theorem chooseSides_sided {S : Scalars V} {D : Database V} {stats : Dict String Nat}
    (p : PlanNode V) : Exchanges S D stats p := by
  induction p with
  | scan t c a => exact fun {f} _ hf => ⟨f, .plain rfl rfl id hf (.refl f)⟩
  | derived input a ih =>
    intro f hs hf
    obtain ⟨g, hg⟩ := ih hs hf
    exact ⟨g, .plain rfl rfl id hg.returns hg.alike⟩
  | filter input e ih =>
    intro f hs hf
    obtain ⟨df, hdf, hf⟩ := bind_eq_ok.mp hf
    obtain ⟨dg, hdg⟩ := ih hs hdf
    obtain ⟨g, hg, ha⟩ := hdg.alike.filterFrame hf
    exact ⟨g, .plain rfl rfl id (bind_eq_ok.mpr ⟨dg, hdg.returns, hg⟩) ha⟩
  | project input items ih =>
    intro f hs hf
    obtain ⟨df, hdf, hf⟩ := bind_eq_ok.mp hf
    obtain ⟨dg, hdg⟩ := ih hs hdf
    exact hdg.project hdf hf
  | join l r on ihl ihr => exact ihl.join ihr on
  | aggregate input keys aggs ih =>
    intro f hs hf
    obtain ⟨df, hdf, hf⟩ := bind_eq_ok.mp hf
    obtain ⟨dg, hdg⟩ := ih hs hdf
    obtain ⟨g, hg, ha, -⟩ := hdg.alike.aggregateFrame hf
    exact ⟨g, .plain rfl rfl id (bind_eq_ok.mpr ⟨dg, hdg.returns, hg⟩) ha⟩
  | window input funcs ih => exact ih.window funcs
  | sort input keys ih =>
    intro f hs hf
    rw [exec_sort] at hf
    obtain ⟨df, hdf, hf⟩ := bind_eq_ok.mp hf
    obtain ⟨dg, hdg⟩ := ih hs hdf
    exact hdg.sort hdf hf
  | limit input n o ih => exact ih.limit n o
  | distinct input ih =>
    intro f hs hf
    obtain ⟨df, hdf, hf⟩ := bind_eq_ok.mp hf
    obtain ⟨dg, hdg⟩ := ih hs hdf
    cases hf
    exact ⟨_, .plain rfl rfl id (bind_eq_ok.mpr ⟨dg, hdg.returns, rfl⟩) hdg.alike.dropDuplicates⟩
  | setOp l r op d ihl ihr => exact ihl.setOp ihr op d

/-- On the cuDF path: a safe plan keeps its rows. -/
theorem returns_selectJoinSides {S : Scalars V} {D : Database V} {stats : Dict String Nat}
    {p : PlanNode V} {f : Frame V} (hsafe : stats.entries.isEmpty = false → sidesSafe S D stats p)
    (h : exec S D p = .ok f) :
    ∃ g, exec S D (selectJoinSides stats p) = .ok g ∧ f.columns.Perm g.columns ∧
      f.rows.Perm g.rows := by
  unfold selectJoinSides
  split
  · exact ⟨f, h, .refl _, .refl _⟩
  · rename_i hne
    obtain ⟨g, hg⟩ := chooseSides_sided p (hsafe (Bool.eq_false_iff.mpr hne)) h
    exact ⟨g, hg.returns, hg.alike.columns, hg.alike.rows⟩

/-- The sides of a join are exchanged under the statistics; without statistics nothing is. -/
def exchanged (stats : Dict String Nat) (l r : PlanNode V) (on : JoinOn V) : Bool :=
  !stats.entries.isEmpty && swaps stats l r on

/-- **Every join that reaches the columns of the plan is exchanged under both statistics or under
neither.** -/
def sameSides (stats stats' : Dict String Nat) : PlanNode V → Bool
  | .scan _ _ _ => true
  | .derived input _ => sameSides stats stats' input
  | .filter input _ => sameSides stats stats' input
  | .project _ _ => true
  | .join l r on => decide (exchanged stats l r on = exchanged stats' l r on) &&
      sameSides stats stats' l && (on.how.isSemi || sameSides stats stats' r)
  | .aggregate _ _ _ => true
  | .window input _ => sameSides stats stats' input
  | .sort input _ => sameSides stats stats' input
  | .limit input _ _ => sameSides stats stats' input
  | .distinct input => sameSides stats stats' input
  | .setOp l _ _ _ => sameSides stats stats' l

section Select
variable (stats : Dict String Nat)

omit [DecidableEq V] in
theorem selectJoinSides_join (l r : PlanNode V) (on : JoinOn V) :
    selectJoinSides stats (.join l r on) =
      if exchanged stats l r on then
        .join (selectJoinSides stats r) (selectJoinSides stats l) on.flip
      else .join (selectJoinSides stats l) (selectJoinSides stats r) on := by
  unfold selectJoinSides exchanged
  cases stats.entries.isEmpty with
  | true => rfl
  | false => exact chooseSides_join stats l r on

omit [DecidableEq V] in
theorem sideAlias_selectJoinSides (p : PlanNode V) :
    (selectJoinSides stats p).sideAlias = p.sideAlias := by
  unfold selectJoinSides
  split
  · rfl
  · exact sideAlias_chooseSides stats p

omit [DecidableEq V] in
/-- Above a node with one input, a pass through a node is the node over the pass. -/
theorem selectJoinSides_node {p : PlanNode V} (node : PlanNode V → PlanNode V)
    (h : chooseSides stats (node p) = node (chooseSides stats p)) :
    selectJoinSides stats (node p) = node (selectJoinSides stats p) := by
  unfold selectJoinSides
  split
  · rfl
  · exact h

omit [DecidableEq V] in
theorem selectJoinSides_setOp (l r : PlanNode V) (op : SetKind) (d : Bool) :
    selectJoinSides stats (.setOp l r op d) =
      .setOp (selectJoinSides stats l) (selectJoinSides stats r) op d := by
  unfold selectJoinSides
  split <;> rfl

end Select

omit [DecidableEq V] in
theorem outColumns_of_sameSides {stats stats' : Dict String Nat} (sch : Dict String (List String))
    {p : PlanNode V} (h : sameSides stats stats' p = true) :
    outColumns sch (selectJoinSides stats p) = outColumns sch (selectJoinSides stats' p) := by
  induction p with
  | scan t c a =>
    rw [selectJoinSides_node stats (fun _ => .scan t c a) rfl (p := .scan t c a),
      selectJoinSides_node stats' (fun _ => .scan t c a) rfl (p := .scan t c a)]
  | derived input a ih =>
    rw [selectJoinSides_node stats (.derived · a) rfl, selectJoinSides_node stats' (.derived · a) rfl]
    exact ih h
  | filter input e ih =>
    rw [selectJoinSides_node stats (.filter · e) rfl, selectJoinSides_node stats' (.filter · e) rfl]
    exact ih h
  | project input items ih =>
    rw [selectJoinSides_node stats (.project · items) rfl,
      selectJoinSides_node stats' (.project · items) rfl]
    rfl
  | join l r on ihl ihr =>
    simp only [sameSides, Bool.and_eq_true, Bool.or_eq_true, decide_eq_true_eq] at h
    rw [selectJoinSides_join, selectJoinSides_join, h.1.1]
    have hl := ihl h.1.2
    split
    · rename_i hex
      have hs : on.how.isSemi = false := by
        simp only [exchanged, swaps, Bool.and_eq_true, Bool.not_eq_true'] at hex
        exact hex.2.1
      have hr := ihr (h.2.resolve_left (by rw [hs]; decide))
      simp only [outColumns, hl, hr, sideAlias_selectJoinSides]
    · simp only [outColumns, hl, sideAlias_selectJoinSides]
      split
      · rfl
      · rename_i hs
        rw [ihr (h.2.resolve_left hs)]
  | aggregate input keys aggs ih =>
    rw [selectJoinSides_node stats (.aggregate · keys aggs) rfl,
      selectJoinSides_node stats' (.aggregate · keys aggs) rfl]
    rfl
  | window input funcs ih =>
    rw [selectJoinSides_node stats (.window · funcs) rfl,
      selectJoinSides_node stats' (.window · funcs) rfl, outColumns, outColumns, ih h]
  | sort input keys ih =>
    rw [selectJoinSides_node stats (.sort · keys) rfl, selectJoinSides_node stats' (.sort · keys) rfl]
    exact ih h
  | limit input n o ih =>
    rw [selectJoinSides_node stats (.limit · n o) rfl, selectJoinSides_node stats' (.limit · n o) rfl]
    exact ih h
  | distinct input ih =>
    rw [selectJoinSides_node stats .distinct rfl, selectJoinSides_node stats' .distinct rfl]
    exact ih h
  | setOp l r op d ihl ihr =>
    rw [selectJoinSides_setOp, selectJoinSides_setOp]
    exact ihl h

omit [DecidableEq V] in
/-- Both inputs of a join have columns, none of them is coalesced and none gets a suffix. -/
def plainAt (on : JoinOn V) (la ra : Option String) (L R : List String) : Bool :=
  decide (joinOverlap on la ra L R = []) && (keyPairs on).all (fun k =>
    decide ((layoutNames on la ra L R).1 k.1 ≠ (layoutNames on la ra L R).2 k.2)) &&
    !L.isEmpty && !R.isEmpty

omit [DecidableEq V] in
/-- Every join that reaches the columns of the plan is plain. -/
def plainOrder (sch : Dict String (List String)) : PlanNode V → Bool
  | .scan _ _ _ => true
  | .derived input _ => plainOrder sch input
  | .filter input _ => plainOrder sch input
  | .project _ _ => true
  | .join l r on => plainOrder sch l && (on.how.isSemi || (plainOrder sch r &&
      plainAt on l.sideAlias r.sideAlias (outColumns sch l) (outColumns sch r)))
  | .aggregate _ _ _ => true
  | .window input _ => plainOrder sch input
  | .sort input _ => plainOrder sch input
  | .limit input _ _ => plainOrder sch input
  | .distinct input => plainOrder sch input
  | .setOp l _ _ _ => plainOrder sch l

section Plain
variable {on : JoinOn V} {la ra : Option String} {L R : List String}

omit [DecidableEq V] in
theorem plainAt_spec (h : plainAt on la ra L R = true) : joinOverlap on la ra L R = [] ∧
    (∀ k ∈ keyPairs on, (layoutNames on la ra L R).1 k.1 ≠ (layoutNames on la ra L R).2 k.2) ∧
    L ≠ [] ∧ R ≠ [] := by
  simp only [plainAt, Bool.and_eq_true, decide_eq_true_eq, List.all_eq_true, Bool.not_eq_true',
    List.isEmpty_eq_false_iff] at h
  exact ⟨h.1.1.1, h.1.1.2, h.1.2, h.2⟩

omit [DecidableEq V] in
/-- Without coalesced keys and suffixes a layout is the renamed columns, left then right. -/
theorem layout_columns_plain {nl nr : String → String} {keys : List (String × String)}
    (h : ∀ k ∈ keys, nl k.1 ≠ nr k.2) (L R : List String) :
    Layout.columns (layout nl nr keys [] L R) = L.map nl ++ R.map nr := by
  have hone : ∀ k ∈ keys, nl k.1 = nr k.2 → k.1 = k.2 := fun k hk he => absurd he (h k hk)
  have hco : ∀ c, coalesced nl nr keys c = none := fun c => by
    rw [coalesced_eq hone, if_neg fun hc => h (c, c) hc.1 hc.2]
  have hab : ∀ d, absorbed nl nr keys d = false := fun d => by
    rw [absorbed_eq hone, decide_eq_false_iff_not]
    exact fun hd => h (d, d) hd.1 hd.2
  simp [Layout.columns, layout, leftEntry, rightEntry, hco, hab, Function.comp_def]

omit [DecidableEq V] in
theorem layoutNames_perm {L' R' : List String} (hL : L.Perm L') (hR : R.Perm R') :
    layoutNames on la ra L R = layoutNames on la ra L' R' := by
  rw [layoutNames, layoutNames, joinNames_perm hL hR]

omit [DecidableEq V] in
theorem joinOverlap_perm {L' R' : List String} (hL : L.Perm L') (hR : R.Perm R')
    (h : joinOverlap on la ra L R = []) : joinOverlap on la ra L' R' = [] := by
  rw [List.eq_nil_iff_forall_not_mem] at h ⊢
  intro c hc
  refine h c ?_
  unfold joinOverlap at hc ⊢
  by_cases hpad : on.padded = true
  · rw [if_pos hpad, mem_residualOverlap] at hc ⊢
    simpa only [mem_nonKeys, hL.mem_iff, hR.mem_iff] using hc
  · rw [if_neg hpad, ← joinNames_perm hL hR, mem_mergeOverlap] at hc
    rw [if_neg hpad, mem_mergeOverlap]
    simpa only [hL.mem_iff, hR.mem_iff] using hc

omit [DecidableEq V] in
/-- The columns of a plain join over reordered inputs, and of the exchanged one. -/
theorem columns_of_plain {L' R' : List String} (h : plainAt on la ra L R = true)
    (hL : L.Perm L') (hR : R.Perm R') :
    (joinLayout on la ra L' R').columns =
        L'.map (layoutNames on la ra L R).1 ++ R'.map (layoutNames on la ra L R).2 ∧
      (joinLayout on.flip ra la R' L').columns =
        R'.map (layoutNames on la ra L R).2 ++ L'.map (layoutNames on la ra L R).1 := by
  obtain ⟨hov, hne, -, -⟩ := plainAt_spec h
  have hov' := joinOverlap_perm hL hR hov
  have htidy : tidy on la ra L' R' = true := by
    rw [tidy, Bool.and_eq_true, decide_eq_true_eq, List.all_eq_true]
    refine ⟨hov', fun k hk => decide_eq_true fun he => ?_⟩
    rw [← layoutNames_perm hL hR] at he
    exact absurd he (hne k hk)
  refine ⟨?_, ?_⟩
  · rw [joinLayout_eq, hov', ← layoutNames_perm hL hR, layout_columns_plain hne]
  · rw [joinLayout_eq, joinOverlap_flip htidy, layoutNames_flip, ← layoutNames_perm hL hR,
      keyPairs_flip]
    refine layout_columns_plain (fun k hk => ?_) R' L'
    obtain ⟨k', hk', rfl⟩ := List.mem_map.mp hk
    exact fun he => hne k' hk' he.symm

end Plain

omit [DecidableEq V] in
theorem foldl_addColumn_perm : ∀ (ns : List String) {A B : List String}, A.Perm B →
    (ns.foldl addColumn A).Perm (ns.foldl addColumn B)
  | [], _, _, h => h
  | n :: ns, _, _, h => foldl_addColumn_perm ns (addColumn_perm h n)

omit [DecidableEq V] in
/-- Columns that agree after the same additions agreed before. -/
theorem eq_of_foldl_addColumn : ∀ (ns : List String) {A B : List String}, A.Perm B →
    ns.foldl addColumn A = ns.foldl addColumn B → A = B
  | [], _, _, _, h => h
  | n :: ns, A, B, hp, h => by
    have heq := eq_of_foldl_addColumn ns (addColumn_perm hp n) h
    unfold addColumn at heq
    by_cases hn : n ∈ A
    · rwa [if_pos hn, if_pos (hp.mem_iff.mp hn)] at heq
    · rw [if_neg hn, if_neg fun hn' => hn (hp.mem_iff.mpr hn')] at heq
      exact (List.append_inj' heq rfl).1

omit [DecidableEq V] in
theorem nodup_of_foldl_addColumn : ∀ (ns : List String) {A : List String},
    (ns.foldl addColumn A).Nodup → A.Nodup
  | [], _, h => h
  | n :: ns, A, h => by
    have hadd := nodup_of_foldl_addColumn ns h
    unfold addColumn at hadd
    split at hadd
    · exact hadd
    · exact (List.nodup_append.mp hadd).1

omit [DecidableEq V] in
/-- Exchanges reorder the columns of a plan whose visible joins are plain. -/
theorem outColumns_perm {stats : Dict String Nat} {sch : Dict String (List String)}
    {p : PlanNode V} (h : plainOrder sch p = true) :
    (outColumns sch p).Perm (outColumns sch (chooseSides stats p)) := by
  induction p with
  | join l r on ihl ihr =>
    simp only [plainOrder, Bool.and_eq_true, Bool.or_eq_true] at h
    have hl := ihl h.1
    rw [chooseSides_join]
    by_cases hs : on.how.isSemi = true
    · have hsw : swaps stats l r on = false := by rw [swaps, hs]; rfl
      rw [hsw, if_neg (by decide), outColumns, outColumns, if_pos hs, if_pos hs]
      exact hl
    · obtain ⟨hpr, hpl⟩ := h.2.resolve_left hs
      have hr := ihr hpr
      obtain ⟨h1, h2⟩ := columns_of_plain hpl hl hr
      obtain ⟨h3, -⟩ := columns_of_plain hpl (.refl _) (.refl _)
      split
      · rw [outColumns, outColumns, if_neg hs, isSemi_flip, if_neg hs, sideAlias_chooseSides,
          sideAlias_chooseSides, h2, h3]
        exact ((hl.map _).append (hr.map _)).trans List.perm_append_comm
      · rw [outColumns, outColumns, if_neg hs, if_neg hs, sideAlias_chooseSides,
          sideAlias_chooseSides, h1, h3]
        exact (hl.map _).append (hr.map _)
  | window input funcs ih => exact foldl_addColumn_perm _ (ih h)
  | scan t c a => exact .refl _
  | project input items ih => exact .refl _
  | aggregate input keys aggs ih => exact .refl _
  | setOp l r op d ihl ihr => exact ihl h
  | derived input a ih => exact ih h
  | filter input e ih => exact ih h
  | sort input keys ih => exact ih h
  | limit input n o ih => exact ih h
  | distinct input ih => exact ih h

omit [DecidableEq V] in
/-- Two lists of the same columns with the same new names are the same list. -/
theorem eq_of_map_eq {α β : Type} {A B : List α} {n : α → β} (hnd : (A.map n).Nodup)
    (hp : A.Perm B) (h : A.map n = B.map n) : A = B := by
  have hinj : ∀ a ∈ A, ∀ b ∈ B, n a = n b → a = b := fun a ha b hb =>
    List.inj_on_of_nodup_map hnd ha (hp.mem_iff.mpr hb)
  clear hnd hp
  induction A generalizing B with
  | nil => simpa using h.symm
  | cons a A ih =>
    cases B with
    | nil => cases h
    | cons b B =>
      injection h with h1 h2
      rw [hinj a (.head _) b (.head _) h1,
        ih h2 fun x hx y hy => hinj x (.tail _ hx) y (.tail _ hy)]

omit [DecidableEq V] in
/-- The left columns of one order do not come where the right ones of the other do. -/
theorem append_ne_exchanged {A B B' : List String} {C : List String} (hA : A ≠ [])
    (hB : B' ≠ []) (hp : B.Perm B') (hnd : (A ++ B).Nodup) : A ++ B ≠ B' ++ C := by
  intro h
  obtain ⟨a, A', rfl⟩ := List.exists_cons_of_ne_nil hA
  obtain ⟨b, B'', rfl⟩ := List.exists_cons_of_ne_nil hB
  injection h with hab
  have hmem : b ∈ B := hp.mem_iff.mpr (.head _)
  exact List.disjoint_of_nodup_append hnd (.head _) (hab ▸ hmem)

omit [DecidableEq V] in
theorem outColumns_select {sch : Dict String (List String)} {p : PlanNode V}
    (h : plainOrder sch p = true) (stats : Dict String Nat) :
    (outColumns sch p).Perm (outColumns sch (selectJoinSides stats p)) := by
  unfold selectJoinSides
  split
  · exact .refl _
  · exact outColumns_perm h

omit [DecidableEq V] in
/-- The columns of a plain join after the pass: the renamed columns of its inputs, the right ones
first when the sides are exchanged. -/
theorem outColumns_plainJoin {sch : Dict String (List String)} {l r : PlanNode V} {on : JoinOn V}
    (hs : on.how.isSemi = false) (hl : plainOrder sch l = true) (hr : plainOrder sch r = true)
    (hpl : plainAt on l.sideAlias r.sideAlias (outColumns sch l) (outColumns sch r) = true)
    (stats : Dict String Nat) :
    let n := layoutNames on l.sideAlias r.sideAlias (outColumns sch l) (outColumns sch r)
    let L := (outColumns sch (selectJoinSides stats l)).map n.1
    let R := (outColumns sch (selectJoinSides stats r)).map n.2
    outColumns sch (selectJoinSides stats (.join l r on)) =
      if exchanged stats l r on then R ++ L else L ++ R := by
  intro n L R
  obtain ⟨h1, h2⟩ := columns_of_plain hpl (outColumns_select hl stats) (outColumns_select hr stats)
  rw [selectJoinSides_join]
  split
  · rw [outColumns, isSemi_flip, hs, if_neg (by decide), sideAlias_selectJoinSides,
      sideAlias_selectJoinSides, h2]
  · rw [outColumns, hs, if_neg (by decide), sideAlias_selectJoinSides,
      sideAlias_selectJoinSides, h1]

omit [DecidableEq V] in
/-- Columns of a plain join that come in the same order: the same exchange, over inputs with their
columns in the same order. -/
theorem sameSides_join {stats stats' : Dict String Nat} {sch : Dict String (List String)}
    {l r : PlanNode V} {on : JoinOn V} (hs : on.how.isSemi = false)
    (hl : plainOrder sch l = true) (hr : plainOrder sch r = true)
    (hpl : plainAt on l.sideAlias r.sideAlias (outColumns sch l) (outColumns sch r) = true)
    (hnd : (outColumns sch (selectJoinSides stats (.join l r on))).Nodup)
    (h : outColumns sch (selectJoinSides stats (.join l r on)) =
      outColumns sch (selectJoinSides stats' (.join l r on))) :
    exchanged stats l r on = exchanged stats' l r on ∧
      ((outColumns sch (selectJoinSides stats l)).Nodup ∧
        outColumns sch (selectJoinSides stats l) = outColumns sch (selectJoinSides stats' l)) ∧
      ((outColumns sch (selectJoinSides stats r)).Nodup ∧
        outColumns sch (selectJoinSides stats r) = outColumns sch (selectJoinSides stats' r)) := by
  have hpL := outColumns_select hl stats
  have hpR := outColumns_select hr stats
  have hLL := hpL.symm.trans (outColumns_select hl stats')
  have hRR := hpR.symm.trans (outColumns_select hr stats')
  obtain ⟨-, -, hneL, hneR⟩ := plainAt_spec hpl
  rw [outColumns_plainJoin hs hl hr hpl] at hnd h
  rw [outColumns_plainJoin hs hl hr hpl] at h
  generalize layoutNames on l.sideAlias r.sideAlias (outColumns sch l) (outColumns sch r) = n
    at hnd h
  -- the renamed columns of the two inputs, in both orders
  have hmapL := hLL.map n.1
  have hmapR := hRR.map n.2
  have hL0 : (outColumns sch (selectJoinSides stats l)).map n.1 ≠ [] := fun h0 =>
    hneL (List.Perm.eq_nil (List.map_eq_nil_iff.mp h0 ▸ hpL))
  have hR0 : (outColumns sch (selectJoinSides stats r)).map n.2 ≠ [] := fun h0 =>
    hneR (List.Perm.eq_nil (List.map_eq_nil_iff.mp h0 ▸ hpR))
  have hL0' : (outColumns sch (selectJoinSides stats' l)).map n.1 ≠ [] := fun h0 =>
    hL0 (List.Perm.eq_nil (h0 ▸ hmapL))
  have hR0' : (outColumns sch (selectJoinSides stats' r)).map n.2 ≠ [] := fun h0 =>
    hR0 (List.Perm.eq_nil (h0 ▸ hmapR))
  cases hex : exchanged stats l r on <;> cases hex' : exchanged stats' l r on <;>
    simp only [hex, hex', if_true, if_false, Bool.false_eq_true] at hnd h
  case false.true => exact absurd h (append_ne_exchanged hL0 hR0' hmapR hnd)
  case true.false => exact absurd h (append_ne_exchanged hR0 hL0' hmapL hnd)
  case false.false =>
    obtain ⟨hndL, hndR, -⟩ := List.nodup_append.mp hnd
    obtain ⟨h1, h2⟩ := List.append_inj h hmapL.length_eq
    exact ⟨rfl, ⟨hndL.of_map _, eq_of_map_eq hndL hLL h1⟩,
      ⟨hndR.of_map _, eq_of_map_eq hndR hRR h2⟩⟩
  case true.true =>
    obtain ⟨hndR, hndL, -⟩ := List.nodup_append.mp hnd
    obtain ⟨h2, h1⟩ := List.append_inj h hmapR.length_eq
    exact ⟨rfl, ⟨hndL.of_map _, eq_of_map_eq hndL hLL h1⟩,
      ⟨hndR.of_map _, eq_of_map_eq hndR hRR h2⟩⟩

omit [DecidableEq V] in
/-- **Columns in the same order come from the same exchanges.** -/
theorem sameSides_of_outColumns {stats stats' : Dict String Nat}
    {sch : Dict String (List String)} {p : PlanNode V} (hp : plainOrder sch p = true)
    (hnd : (outColumns sch (selectJoinSides stats p)).Nodup)
    (h : outColumns sch (selectJoinSides stats p) = outColumns sch (selectJoinSides stats' p)) :
    sameSides stats stats' p = true := by
  induction p with
  | scan t c a => rfl
  | project input items ih => rfl
  | aggregate input keys aggs ih => rfl
  | derived input a ih =>
    rw [selectJoinSides_node _ (.derived · a) rfl] at hnd h
    rw [selectJoinSides_node _ (.derived · a) rfl] at h
    exact ih hp hnd h
  | filter input e ih =>
    rw [selectJoinSides_node _ (.filter · e) rfl] at hnd h
    rw [selectJoinSides_node _ (.filter · e) rfl] at h
    exact ih hp hnd h
  | sort input keys ih =>
    rw [selectJoinSides_node _ (.sort · keys) rfl] at hnd h
    rw [selectJoinSides_node _ (.sort · keys) rfl] at h
    exact ih hp hnd h
  | limit input n o ih =>
    rw [selectJoinSides_node _ (.limit · n o) rfl] at hnd h
    rw [selectJoinSides_node _ (.limit · n o) rfl] at h
    exact ih hp hnd h
  | distinct input ih =>
    rw [selectJoinSides_node _ .distinct rfl] at hnd h
    rw [selectJoinSides_node _ .distinct rfl] at h
    exact ih hp hnd h
  | window input funcs ih =>
    rw [selectJoinSides_node _ (.window · funcs) rfl, outColumns] at hnd h
    rw [selectJoinSides_node _ (.window · funcs) rfl, outColumns] at h
    have hin : plainOrder sch input = true := hp
    have hperm := (outColumns_select hin stats).symm.trans (outColumns_select hin stats')
    exact ih hin (nodup_of_foldl_addColumn _ hnd) (eq_of_foldl_addColumn _ hperm h)
  | setOp l r op d ihl ihr =>
    rw [selectJoinSides_setOp, outColumns] at hnd h
    rw [selectJoinSides_setOp, outColumns] at h
    exact ihl hp hnd h
  | join l r on ihl ihr =>
    simp only [plainOrder, Bool.and_eq_true, Bool.or_eq_true] at hp
    simp only [sameSides, Bool.and_eq_true, Bool.or_eq_true, decide_eq_true_eq]
    cases hs : on.how.isSemi with
    | true =>
      have hex : ∀ st : Dict String Nat, exchanged st l r on = false := fun st => by
        simp [exchanged, swaps, hs]
      rw [selectJoinSides_join, hex, if_neg (by decide), outColumns, if_pos hs] at hnd h
      rw [selectJoinSides_join, hex, if_neg (by decide), outColumns, if_pos hs] at h
      exact ⟨⟨by rw [hex, hex], ihl hp.1 hnd h⟩, .inl rfl⟩
    | false =>
      obtain ⟨hpr, hpl⟩ := hp.2.resolve_left (by rw [hs]; decide)
      obtain ⟨hex, hl, hr⟩ := sameSides_join hs hp.1 hpr hpl hnd h
      exact ⟨⟨hex, ihl hp.1 hl.1 hl.2⟩, .inr (ihr hpr hr.1 hr.2)⟩

/-- **The statistics decide the order of the columns through the exchanges alone.**  Where every
join that reaches the columns is exchanged under both statistics or under neither, the two
executions return their columns in the same order.  Where such joins coalesce no key and add no
suffix, a join exchanged under one of the statistics only always changes the order. -/
theorem optimize_columns (S : Scalars V) (D : Database V) (sch : Dict String (List String))
    (stats stats' : Dict String Nat) (p : PlanNode V) (f g : Frame V)
    (hf : exec S D (optimize sch stats p) = .ok f) (hg : exec S D (optimize sch stats' p) = .ok g) :
    (sameSides stats stats' (pruneProjections sch (pushPredicates sch p)) = true →
        f.columns = g.columns) ∧
      (plainOrder D.schema (pruneProjections sch (pushPredicates sch p)) = true →
        f.columns = g.columns →
          sameSides stats stats' (pruneProjections sch (pushPredicates sch p)) = true) := by
  have hcols := exec_columns hf
  have hcols' := exec_columns hg
  refine ⟨fun hsame => ?_, fun hplain heq => ?_⟩
  · rw [hcols, hcols']
    exact outColumns_of_sameSides D.schema hsame
  · have hnd := exec_nodup hf
    rw [hcols] at hnd
    rw [hcols, hcols'] at heq
    exact sameSides_of_outColumns hplain hnd heq

/-! ## 4. Tables of numbers -/

/-- `a(k)` with two rows, `b(k2, x)` and `u(p, q, r)` with one. -/
def unevenTables : Database Nat where
  tables := ((∅ : Dict String (Frame Nat)).set "a" (numbers ["k"] [[some 1], [some 2]])).set "b"
    (numbers ["k2", "x"] [[some 1, some 5]]) |>.set "u"
      (numbers ["p", "q", "r"] [[some 7, some 8, some 9]])
  nodup := by
    intro t f hf
    simp only [Dict.get?_set] at hf
    split at hf
    · cases hf
      decide
    · split at hf
      · cases hf
        decide
      · split at hf
        · cases hf
          decide
        · cases hf

/-- The row counts of these tables. -/
def unevenStats : Dict String Nat := (((∅ : Dict String Nat).set "a" 2).set "b" 1).set "u" 1

/-- `a LEFT JOIN b ON k = k2`. -/
def unevenJoin : PlanNode Nat :=
  .join (.scan "a" none (some "a")) (.scan "b" none (some "b")) (joinOn "k" "k2" .left)

/-- `SELECT * FROM a LEFT JOIN b ON k = k2 UNION ALL SELECT * FROM u`. -/
def starUnion : PlanNode Nat := .setOp unevenJoin (.scan "u" none (some "u")) .union false

/-- The row counts after `a` lost a row and `b` gained two. -/
def laterStats : Dict String Nat := (((∅ : Dict String Nat).set "a" 1).set "b" 3).set "u" 1

/-- The row counts after `a` gained a row. -/
def grownStats : Dict String Nat := (((∅ : Dict String Nat).set "a" 3).set "b" 1).set "u" 1

/-- A larger `a` is exchanged as before and the columns stay in order. -/
theorem optimize_columns_grown : ∃ f g,
    exec natScalars unevenTables (optimize unevenTables.schema unevenStats unevenJoin) = .ok f ∧
      exec natScalars unevenTables (optimize unevenTables.schema grownStats unevenJoin) = .ok g ∧
      f.columns = g.columns := by
  have hshow : shown (exec natScalars unevenTables
      (optimize unevenTables.schema unevenStats unevenJoin)) =
        some (["k2", "x", "k"], [[some 1, some 5, some 1], [none, none, some 2]]) := by
    decide
  have hshow' : shown (exec natScalars unevenTables
      (optimize unevenTables.schema grownStats unevenJoin)) =
        some (["k2", "x", "k"], [[some 1, some 5, some 1], [none, none, some 2]]) := by
    decide
  obtain ⟨f, hf, -⟩ := returned_of_shown hshow
  obtain ⟨g, hg, -⟩ := returned_of_shown hshow'
  exact ⟨f, g, hf, hg, (optimize_columns natScalars unevenTables unevenTables.schema unevenStats
    grownStats unevenJoin f g hf hg).1 (by decide)⟩

/-- **New row counts, another order of the columns.**  With `b` the larger table the join is no
longer exchanged: `SELECT *` over it returns `k, k2, x` where it returned `k2, x, k`. -/
theorem columns_follow_statistics : ∃ f g,
    exec natScalars unevenTables (optimize unevenTables.schema unevenStats unevenJoin) = .ok f ∧
      exec natScalars unevenTables (optimize unevenTables.schema laterStats unevenJoin) = .ok g ∧
      f.columns ≠ g.columns := by
  have hshow : shown (exec natScalars unevenTables
      (optimize unevenTables.schema unevenStats unevenJoin)) =
        some (["k2", "x", "k"], [[some 1, some 5, some 1], [none, none, some 2]]) := by
    decide
  have hshow' : shown (exec natScalars unevenTables
      (optimize unevenTables.schema laterStats unevenJoin)) =
        some (["k", "k2", "x"], [[some 1, some 1, some 5], [some 2, none, none]]) := by
    decide
  obtain ⟨f, hf, hc, -⟩ := returned_of_shown hshow
  obtain ⟨g, hg, hc', -⟩ := returned_of_shown hshow'
  refine ⟨f, g, hf, hg, ?_⟩
  rw [hc, hc']
  decide

end RyuDB.Sql
