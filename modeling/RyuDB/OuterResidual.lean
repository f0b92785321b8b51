/-
# Outer joins with a residual

What `Engine._outer_join_with_predicate` returns.  `outerJoinById_eq` says that its steps do what
`outerJoinWithPredicate` says at once, where no column has a name the steps use for themselves.

The temporary names of the keys are kept in a dictionary by key.  A key named twice on a side has
one of them, and the merge then compares other keys than the ones that were written:

    ON t.k = u.a AND t.k = u.b AND t.j = u.b      -- merges on  t.k = u.a  and  t.j = u.b

`outer_residual_exact` compares the result with the join that is wanted (`wantedOuter`): the two
agree if the keys of the merge decide about the pairs whose residual is true as the written keys
do.

The result is compared in two steps.  First the steps of the source are one join of numbered rows, and
the numbers drop out, also for rows that are equal; this holds of every outer join with a residual.
Then that join is compared with the wanted one, and the difference is in the keys only.
-/
import RyuDB.OuterMerge

namespace RyuDB.Sql

variable {V : Type}

/-! ## 1. What is wanted -/

/-- The columns of the join: a key of one name on both sides is one column. -/
def wantedLayout (on : JoinOn V) (L R : List String) : Layout := layout id id (keyPairs on) [] L R

/-- The residual is true of a pair of rows. -/
def residualHolds (S : Scalars V) (on : JoinOn V) (p : Expr V) (L R : List String) (l r : Row V) :
    Bool :=
  S.holds (p.value S (wantedLayout on L R).columns ((wantedLayout on L R).row l r))

/-- **The join that is wanted**: the pairs with equal keys on which the residual is true, and the
rows of a preserved side that are in no such pair. -/
def wantedOuter [DecidableEq V] (S : Scalars V) (on : JoinOn V) (p : Expr V)
    (left right : Frame V) : Frame V :=
  .ofRows (wantedLayout on left.columns right.columns).columns
    (((wantedLayout on left.columns right.columns).spec fun l r => sameKeys (keyPairs on) l r &&
      residualHolds S on p left.columns right.columns l r).run on.how.keepsLeft on.how.keepsRight
        left.rows right.rows)

/-- **The names do not get in the way**: no column and no reference of the residual has a name the
steps use, the sides share no column but keys that are compared with each other, and no reference
reads another column while the keys are under their temporary names. -/
structure PlainNames (on : JoinOn V) (p : Expr V) (L R : List String) : Prop where
  left : L.Nodup
  right : R.Nodup
  leftFree : ∀ c ∈ L, ¬Reserved c
  rightFree : ∀ c ∈ R, ¬Reserved c
  shared : ∀ c ∈ L, c ∈ R → (c, c) ∈ keyPairs on
  refs : PlainRefs p
  read : ∀ x ∈ p.refs, ∀ c, resolve (residualLayout (keyPairs on) L R).columns x.1 x.2 = some c →
    resolve (wantedLayout on L R).columns x.1 x.2 = some c

/-- **The keys of the merge decide as the written keys do** about the pairs whose residual is
true. -/
def KeysAgree [DecidableEq V] (S : Scalars V) (on : JoinOn V) (p : Expr V)
    (left right : Frame V) : Prop :=
  ∀ l ∈ left.rows, ∀ r ∈ right.rows,
    residualHolds S on p left.columns right.columns l r = true →
      sameKeys (residualKeys (keyPairs on)) l r = sameKeys (keyPairs on) l r

/-! ## 2. The steps as one join -/

section Steps
variable {keys : List (String × String)} {L R : List String}

theorem coalesced_same (keys : List (String × String)) (c : String) :
    coalesced id id keys c = if (c, c) ∈ keys then some c else none := by
  rw [coalesced]
  cases hf : keys.find? fun k => decide (k.1 = c) && decide (id k.1 = id k.2) with
  | none =>
    rw [if_neg fun hmem => ?_]
    · rfl
    · have hno := List.find?_eq_none.mp hf (c, c) hmem
      simp at hno
  | some k =>
    have hk := List.find?_some hf
    simp only [id_eq, Bool.and_eq_true, decide_eq_true_eq] at hk
    have hpair : k = (c, c) := Prod.ext hk.1 (hk.2.symm.trans hk.1)
    rw [if_pos (hpair ▸ List.mem_of_find?_eq_some hf), hpair]
    rfl

theorem absorbed_same (keys : List (String × String)) (d : String) :
    absorbed id id keys d = decide ((d, d) ∈ keys) := by
  rw [absorbed, Bool.eq_iff_iff, List.any_eq_true, decide_eq_true_eq]
  constructor
  · rintro ⟨k, hk, he⟩
    simp only [id_eq, Bool.and_eq_true, decide_eq_true_eq] at he
    have hpair : k = (d, d) := Prod.ext (he.2.trans he.1) he.1
    exact hpair ▸ hk
  · exact fun hmem => ⟨_, hmem, by simp⟩

/-- When all keys are restored, the columns are those of the join. -/
theorem stage_end (keys : List (String × String)) (L R : List String) :
    stage keys keys [] L R = layout id id keys [] L R := by
  rw [stage, layout]
  refine congrArg₂ _ (List.map_congr_left fun c _ => ?_) ?_
  · rw [leftEntry, coalesced_same]
    split
    · rfl
    · rfl
  · have hfil : R.filter (fun d => !absorbed id id keys d) =
        R.filter fun d => decide ((d, d) ∉ keys) :=
      List.filter_congr fun d _ => by rw [absorbed_same, decide_not]
    rw [hfil]
    exact List.map_congr_left fun d _ => rfl

theorem restored_nodup (h : PlainSides keys L R) : (layout id id keys [] L R).columns.Nodup := by
  rw [← stage_end]
  exact stage_nodup h (List.append_nil keys)

/-- The row numbers are in no column of the join. -/
theorem frame_unnumbered (h : PlainSides keys L R) (num : Nat → V)
    (os : List (Option (Row V × Nat) × Option (Row V × Nat))) :
    (layout id id keys [] L R).frame (os.map (numberedPair num)) =
      (layout id id keys [] L R).frame (os.map plainPair) := by
  have hleft : ∀ c ∈ L, ∀ o : Option (Row V × Nat),
      o.elim nullRow (numbered num "__lrid") c = o.elim nullRow Prod.fst c := by
    intro c hc o
    cases o with
    | none => rfl
    | some a => exact if_neg fun he => h.leftFree c hc (.inl he)
  have hright : ∀ d ∈ R, ∀ o : Option (Row V × Nat),
      o.elim nullRow (numbered num "__rrid") d = o.elim nullRow Prod.fst d := by
    intro d hd o
    cases o with
    | none => rfl
    | some b => exact if_neg fun he => h.rightFree d hd (.inr (.inl he))
  have hnd := restored_nodup h
  rw [Layout.frame, List.map_map]
  refine frame_of_images hnd plainPair fun e he o _ => ?_
  rw [Function.comp_apply, Layout.row_of_mem hnd he]
  rw [← stage_end] at he
  rcases List.mem_append.mp he with he | he
  · obtain ⟨c, hc, rfl⟩ := List.mem_map.mp he
    dsimp only
    split
    · rename_i hpair
      exact congrArg₂ Option.or (hleft c hc o.1) (hright c (h.keys _ hpair).2 o.2)
    · exact hleft c hc o.1
  · obtain ⟨d, hd, rfl⟩ := List.mem_map.mp he
    exact hright d (List.mem_filter.mp hd).1 o.2

/-- The pairs of numbered rows are the pairs of rows. -/
theorem frame_run (lay : Layout) (test : Row V → Row V → Bool) (kl kr : Bool)
    (ls rs : List (Row V)) :
    lay.frame (((idSpec test).run kl kr ls.zipIdx rs.zipIdx).map plainPair) =
      .ofRows lay.columns ((lay.spec test).run kl kr ls rs) := by
  have hrun : (lay.spec test).run kl kr (ls.zipIdx.map Prod.fst) (rs.zipIdx.map Prod.fst) =
      ((idSpec test).run kl kr ls.zipIdx rs.zipIdx).map fun o =>
        lay.row (plainPair o).1 (plainPair o).2 := by
    refine JoinSpec.run_map _ ?_ ?_ ?_ ?_ kl kr _ _
    · exact fun a b => rfl
    · exact fun a b => rfl
    · exact fun a => rfl
    · exact fun b => rfl
  rw [List.zipIdx_map_fst, List.zipIdx_map_fst] at hrun
  rw [hrun, Layout.frame, List.map_map]
  rfl

variable {on : JoinOn V}

theorem keyPairs_sides (hc : on.how ≠ .cross) (hlen : on.onLeft.length = on.onRight.length) :
    on.onLeft.zip on.onRight = keyPairs on ∧ on.onLeft = (keyPairs on).map Prod.fst ∧
      on.onRight = (keyPairs on).map Prod.snd := by
  rw [keyPairs, if_neg hc]
  exact ⟨rfl, (List.map_fst_zip hlen.le).symm, (List.map_snd_zip hlen.ge).symm⟩

theorem PlainNames.sides {p : Expr V} (h : PlainNames on p L R) (hc : on.how ≠ .cross)
    (hkeys : checkKeys on L R = .ok ()) : PlainSides (keyPairs on) L R := by
  obtain ⟨hlen, -, hl, hr⟩ := checkKeys_spec hc hkeys
  refine ⟨h.left, h.right, h.leftFree, h.rightFree, h.shared, fun k hk => ?_⟩
  rw [← (keyPairs_sides hc hlen).1] at hk
  exact ⟨hl _ (List.of_mem_zip hk).1, hr _ (List.of_mem_zip hk).2⟩

theorem checkRestore_ok (keys : List (String × String)) : checkRestore keys = .ok () ↔
    (keepFirst id (keys.map Prod.fst)).length = (keepFirst id (keys.map Prod.snd)).length ∧
      keys.tails.any overwritten = false := by
  unfold checkRestore
  split
  · rename_i hne
    exact ⟨fun h => (by cases h), fun h => absurd h.1 hne⟩
  · rename_i hlen
    have hlen := not_not.mp hlen
    split
    · rename_i hbad
      exact ⟨fun h => (by cases h), fun h => absurd (hbad.symm.trans h.2) Bool.true_eq_false.mp⟩
    · rename_i hgood
      exact ⟨fun _ => ⟨hlen, Bool.not_eq_true _ ▸ hgood⟩, fun _ => rfl⟩

/-- The keys of a join that returned are columns of their sides. -/
theorem key_mem {temp : Nat → String} (htemp : ∀ i j, temp i = temp j → i = j)
    {ks cols : List String} {name c : String} (hc : c ∈ ks) (hfree : ∀ c ∈ cols, ∀ i, c ≠ temp i)
    (hname : ∀ i, temp i ≠ name)
    (h : newName (tempNames temp ks) c ∈ addColumn (cols.map (newName (tempNames temp ks))) name) :
    c ∈ cols := by
  rcases newName_cases temp ks c with ⟨hout, -⟩ | ⟨-, i, hi, he⟩
  · exact absurd hc hout
  · rw [he] at h
    rcases mem_addColumn.mp h with h | h
    · obtain ⟨c', hc', he'⟩ := List.mem_map.mp h
      rcases newName_cases temp ks c' with ⟨-, hn⟩ | ⟨-, j, hj, hn⟩
      · exact absurd (hn.symm.trans he') (hfree c' hc' i)
      · obtain rfl := htemp j i (hn.symm.trans he')
        have hsame := (getElem?_lastIdx hj).symm.trans (getElem?_lastIdx hi)
        exact Option.some.inj hsame ▸ hc'
    · exact absurd h (hname i)

theorem JoinHow.inner_ne_cross : JoinHow.inner ≠ .cross := by
  intro h
  cases h

theorem tempJoin_sides (V : Type) (keys : List (String × String)) :
    (tempJoin V keys).onLeft = (keepFirst id (keys.map Prod.fst)).map
      (newName (tempNames tempLeft (keys.map Prod.fst))) ∧
    (tempJoin V keys).onRight = (keepFirst id (keys.map Prod.snd)).map
      (newName (tempNames tempRight (keys.map Prod.snd))) :=
  ⟨tempNames_values _ _, tempNames_values _ _⟩

variable [DecidableEq V] {S : Scalars V} {p : Expr V} {left right f : Frame V} {num : Nat → V}

theorem outerJoinById_keys (hlen : on.onLeft.length = on.onRight.length)
    (h : PlainNames on p left.columns right.columns)
    (hf : outerJoinById S num on p left right = .ok f) :
    checkKeys on left.columns right.columns = .ok () := by
  obtain ⟨_, hchecked, -⟩ := bind_eq_ok.mp hf
  obtain ⟨-, hne, hl, hr⟩ := checkKeys_spec JoinHow.inner_ne_cross hchecked
  have hkeep : ∀ (ks : List String) (c : String), c ∈ ks → c ∈ keepFirst id ks :=
    fun ks c => (mem_keepFirst_iff fun _ _ _ _ h => h).mpr
  have hnonempty : on.onLeft ≠ [] := fun hnil => hne (by
    rw [hnil]
    rfl)
  have hl : ∀ c ∈ (tempNames tempLeft on.onLeft).entries.map Prod.snd,
      c ∈ addColumn (left.columns.map (newName (tempNames tempLeft on.onLeft))) "__lrid" := hl
  have hr : ∀ d ∈ (tempNames tempRight on.onRight).entries.map Prod.snd,
      d ∈ addColumn (right.columns.map (newName (tempNames tempRight on.onRight))) "__rrid" := hr
  rw [tempNames_values] at hl hr
  refine checkKeys_of_subset hlen hnonempty (fun c hmem => ?_) fun d hmem => ?_
  · refine key_mem (fun i j => tempLeft_inj.mp) hmem
      (fun c hc => (not_temp (h.leftFree c hc)).1) (fun i => (tempLeft_ne_id i).1) (hl _ ?_)
    exact List.mem_map_of_mem (hkeep _ c hmem)
  · refine key_mem (fun i j => tempRight_inj.mp) hmem
      (fun d hd => (not_temp (h.rightFree d hd)).2) (fun i => (tempRight_ne_id i).2) (hr _ ?_)
    exact List.mem_map_of_mem (hkeep _ d hmem)

omit [DecidableEq V] in
/-- The check of the keys of the merge. -/
theorem checkKeys_tempJoin (h : PlainSides keys L R) (hne : keys ≠ []) :
    checkKeys (tempJoin V keys) (leftSide keys L).columns (rightSide keys R).columns = .ok () ↔
      (keepFirst id (keys.map Prod.fst)).length = (keepFirst id (keys.map Prod.snd)).length := by
  have hl : (tempJoin V keys).onLeft.length = (keepFirst id (keys.map Prod.fst)).length := by
    rw [(tempJoin_sides V keys).1, List.length_map]
  have hr : (tempJoin V keys).onRight.length = (keepFirst id (keys.map Prod.snd)).length := by
    rw [(tempJoin_sides V keys).2, List.length_map]
  have hkeep : ∀ (ks : List String) (c : String), c ∈ keepFirst id ks → c ∈ ks :=
    fun ks c => (mem_keepFirst_iff fun _ _ _ _ h => h).mp
  constructor
  · intro hok
    rw [← hl, ← hr]
    exact (checkKeys_spec JoinHow.inner_ne_cross hok).1
  · intro hlen
    refine checkKeys_of_subset (hl.trans (hlen.trans hr.symm)) ?_ (fun c hc => ?_) fun d hd => ?_
    · obtain ⟨k, rest, rfl⟩ := List.exists_cons_of_ne_nil hne
      intro hnil
      have hzero : (keepFirst id ((k :: rest).map Prod.fst)).length = 0 := by
        rw [← hl, hnil]
        rfl
      rw [List.map_cons, keepFirst, List.length_cons] at hzero
      cases hzero
    · rw [(tempJoin_sides V keys).1] at hc
      obtain ⟨c', hc', rfl⟩ := List.mem_map.mp hc
      obtain ⟨k, hk, rfl⟩ := List.mem_map.mp (hkeep _ _ hc')
      rw [leftSide, sideLayout_columns]
      exact List.mem_append_left _ (List.mem_map_of_mem (h.keys k hk).1)
    · rw [(tempJoin_sides V keys).2] at hd
      obtain ⟨d', hd', rfl⟩ := List.mem_map.mp hd
      obtain ⟨k, hk, rfl⟩ := List.mem_map.mp (hkeep _ _ hd')
      rw [rightSide, sideLayout_columns]
      exact List.mem_append_left _ (List.mem_map_of_mem (h.keys k hk).2)

/-- **The steps do what `outerJoinWithPredicate` says at once**, where the names do not get in the
way. -/
theorem outerJoinById_eq (hnum : Function.Injective num) (hc : on.how ≠ .cross)
    (hkeys : checkKeys on left.columns right.columns = .ok ())
    (h : PlainNames on p left.columns right.columns) :
    outerJoinById S num on p left right = .ok f ↔
      outerJoinWithPredicate S on p left right = .ok f := by
  obtain ⟨hlen, hne, -, -⟩ := checkKeys_spec hc hkeys
  obtain ⟨hzip, hfst, hsnd⟩ := keyPairs_sides hc hlen
  have hsides := h.sides hc hkeys
  have hnonempty : keyPairs on ≠ [] := fun hnil => hne (by rw [hfst, hnil]; rfl)
  obtain ⟨hover, -⟩ := residualLayout_plain hsides
  have hlayout : layout id id (keyPairs on) (residualOverlap (keyPairs on) left.columns
      right.columns) left.columns right.columns =
      layout id id (keyPairs on) [] left.columns right.columns := by rw [hover]
  have hnd := restored_nodup hsides
  have hpairs : (∃ l ∈ left.rows, ∃ r ∈ right.rows,
      sameKeys (residualKeys (keyPairs on)) l r = true) ↔
      ∃ a ∈ left.rows.zipIdx, ∃ b ∈ right.rows.zipIdx,
        sameKeys (residualKeys (keyPairs on)) a.1 b.1 = true := by
    have hmem : ∀ (rows : List (Row V)) (q : Row V → Prop),
        (∃ l ∈ rows, q l) ↔ ∃ a ∈ rows.zipIdx, q a.1 := by
      intro rows q
      have hfst : rows.zipIdx.map Prod.fst = rows := List.zipIdx_map_fst 0 rows
      nth_rewrite 1 [← hfst]
      simp only [List.mem_map, exists_exists_and_eq_and]
    rw [hmem]
    exact exists_congr fun a => and_congr_right fun _ => hmem _ _
  rw [outerJoinWithPredicate_ok rfl hlayout, checkRestore_ok, hpairs, outerJoinById, hzip]
  simp only [hfst, hsnd, bind_eq_ok]
  rw [left_side_frame hsides num rfl, right_side_frame hsides num rfl]
  have hend : ∀ sat : Frame V, sat = (mergedSides (keyPairs on) left.columns right.columns).frame
      (((idSpec (satisfied S (keyPairs on) p left.columns right.columns)).inner left.rows.zipIdx
        right.rows.zipIdx).map (numberedPair num)) →
      (restoreJoinKeys (dropColumns ["__lrid", "__rrid"] (concatPieces on.how
        ((leftSide (keyPairs on) left.columns).frame
          (left.rows.zipIdx.map fun x => (numbered num "__lrid" x, nullRow)))
        ((rightSide (keyPairs on) right.columns).frame
          (right.rows.zipIdx.map fun x => (nullRow, numbered num "__rrid" x))) sat))
        (keyPairs on).zipIdx = .ok f ↔ (keyPairs on).tails.any overwritten = false ∧
          f = .ofRows (layout id id (keyPairs on) [] left.columns right.columns).columns
            (((layout id id (keyPairs on) [] left.columns right.columns).spec
              (satisfied S (keyPairs on) p left.columns right.columns)).run on.how.keepsLeft
                on.how.keepsRight left.rows right.rows)) := by
    intro sat hsat
    rw [padded_frame hsides hnum _ on.how left.rows right.rows hsat rfl rfl,
      dropColumns_frame _ (mergedSides_nodup hsides), drop_ids hsides]
    refine (restoreJoinKeys_ok hsides (List.nil_append _) fun c hc => ?_).trans ?_
    · cases hc
    · rw [stage_end, frame_unnumbered hsides, frame_run]
  constructor
  · rintro ⟨_, hck, m, hm, sat, hsat, hf⟩
    have hm := (merge_sides S hsides num _ _).mp hm
    obtain ⟨hcheck, hsat⟩ := (satisfied_frame hsides h.refs num _ _ hm).mp hsat
    obtain ⟨htails, hf⟩ := (hend sat hsat).mp hf
    exact ⟨⟨⟨(checkKeys_tempJoin hsides hnonempty).mp hck, htails⟩, hnd, hcheck⟩, hf⟩
  · rintro ⟨⟨⟨hlens, htails⟩, -, hcheck⟩, hf⟩
    exact ⟨(), (checkKeys_tempJoin hsides hnonempty).mpr hlens, _,
      (merge_sides S hsides num _ _).mpr rfl, _,
      (satisfied_frame hsides h.refs num _ _ rfl).mpr ⟨hcheck, rfl⟩,
      (hend _ rfl).mpr ⟨htails, hf⟩⟩

end Steps

/-! ## 3. The steps and the join that is wanted

Both joins have the same columns and pad the same sides, so they agree as soon as their tests do on
the rows of the two sides.  A NULL key matches nothing in either, and rows that agree on all
dictionary keys can still differ in a key that was listed before one of them. -/

section Wanted
variable {on : JoinOn V} {p : Expr V} {L R : List String}

/-- What the residual sees is what the join returns, in the columns that are no keys. -/
theorem residual_cell (h : PlainSides (keyPairs on) L R) {n : String}
    (hn : n ∈ (residualLayout (keyPairs on) L R).columns) (l r : Row V) :
    (residualLayout (keyPairs on) L R).row l r n = (wantedLayout on L R).row l r n := by
  have hsub := residualLayout_sublist (keyPairs on) L R
  rw [(residualLayout_plain h).1] at hsub
  have hnd : (wantedLayout on L R).columns.Nodup := restored_nodup h
  obtain ⟨e, he, rfl⟩ := List.mem_map.mp hn
  rw [Layout.row_of_mem (residualLayout_nodup h) he, Layout.row_of_mem hnd (hsub.subset he)]

/-- Where it is evaluated, the residual is what it is on the whole pair. -/
theorem residual_value (S : Scalars V) (hsides : PlainSides (keyPairs on) L R)
    (h : PlainNames on p L R) (hp : p.check (residualLayout (keyPairs on) L R).columns = .ok ())
    (l r : Row V) : S.holds (p.value S (residualLayout (keyPairs on) L R).columns
      ((residualLayout (keyPairs on) L R).row l r)) = residualHolds S on p L R l r := by
  refine congrArg S.holds (Expr.value_congr fun x hx => ?_)
  obtain ⟨n, hn⟩ := Option.isSome_iff_exists.mp ((Expr.check_ok.mp hp).1 x hx)
  rw [hn, h.read x hx n hn]
  refine residual_cell hsides ?_ l r
  obtain ⟨m, t⟩ := x
  cases t with
  | none =>
    simp only [resolve] at hn
    split at hn
    · rename_i hm
      cases hn
      exact hm
    · cases hn
  | some t =>
    simp only [resolve] at hn
    split at hn
    · rename_i hm
      cases hn
      exact hm
    · split at hn
      · rename_i hm
        cases hn
        exact hm
      · cases hn

/-- Tests that agree on the rows give the same join. -/
theorem spec_run_congr (lay : Layout) {t t' : Row V → Row V → Bool} {ls rs : List (Row V)}
    (h : ∀ l ∈ ls, ∀ r ∈ rs, t l r = t' l r) (k k' : Bool) :
    (lay.spec t).run k k' ls rs = (lay.spec t').run k k' ls rs := by
  refine JoinSpec.run_congr _ ?_ ?_ ?_ ?_ k k'
  · exact h
  · exact fun _ _ _ _ _ => rfl
  · exact fun _ _ => rfl
  · exact fun _ _ => rfl

/-- Without a key of one name the columns of the join are those of both sides. -/
theorem wantedLayout_beside (hkeys : ∀ k ∈ keyPairs on, k.1 ≠ k.2) :
    wantedLayout on L R = beside L R := by
  have hno : ∀ c, (c, c) ∉ keyPairs on := fun c hc => hkeys _ hc rfl
  rw [wantedLayout, ← stage_end, stage,
    List.filter_eq_self.mpr fun d _ => decide_eq_true (hno d)]
  simp only [hno, if_false]
  rfl

/-- A pair of rows can be read back from its row in the join. -/
theorem beside_inj (hnd : (beside L R).columns.Nodup) {l l' r r' : Row V}
    (hl : ∀ c, c ∉ L → l c = none) (hl' : ∀ c, c ∉ L → l' c = none)
    (hr : ∀ d, d ∉ R → r d = none) (hr' : ∀ d, d ∉ R → r' d = none)
    (h : (beside L R).row l' r' = (beside L R).row l r) : l' = l ∧ r' = r := by
  have hleft : ∀ c ∈ L, ∀ l r : Row V, (beside L R).row l r c = l c := fun c hc l r =>
    Layout.row_of_mem (e := (c, .left c)) hnd
      (List.mem_append_left _ (List.mem_map.mpr ⟨c, hc, rfl⟩)) l r
  have hright : ∀ d ∈ R, ∀ l r : Row V, (beside L R).row l r d = r d := fun d hd l r =>
    Layout.row_of_mem (e := (d, .right d)) hnd
      (List.mem_append_right _ (List.mem_map.mpr ⟨d, hd, rfl⟩)) l r
  constructor
  · funext c
    by_cases hc : c ∈ L
    · rw [← hleft c hc l' r', h, hleft c hc]
    · rw [hl c hc, hl' c hc]
  · funext d
    by_cases hd : d ∈ R
    · rw [← hright d hd l' r', h, hright d hd]
    · rw [hr d hd, hr' d hd]

variable [DecidableEq V] {S : Scalars V} {left right f : Frame V} {num : Nat → V}

/-- **What the steps return**: the join whose pairs agree on the dictionary keys. -/
theorem outerJoinById_rows (hnum : Function.Injective num) (hc : on.how ≠ .cross)
    (hlen : on.onLeft.length = on.onRight.length)
    (h : PlainNames on p left.columns right.columns)
    (hf : outerJoinById S num on p left right = .ok f) :
    checkKeys on left.columns right.columns = .ok () ∧
      f = .ofRows (wantedLayout on left.columns right.columns).columns
        (((wantedLayout on left.columns right.columns).spec fun l r =>
          sameKeys (residualKeys (keyPairs on)) l r &&
            residualHolds S on p left.columns right.columns l r).run on.how.keepsLeft
              on.how.keepsRight left.rows right.rows) := by
  have hkeys := outerJoinById_keys hlen h hf
  refine ⟨hkeys, ?_⟩
  have hsides := h.sides hc hkeys
  have hlayout : layout id id (keyPairs on) (residualOverlap (keyPairs on) left.columns
      right.columns) left.columns right.columns =
      wantedLayout on left.columns right.columns := by
    rw [(residualLayout_plain hsides).1]
    rfl
  obtain ⟨⟨-, -, hcheck⟩, rfl⟩ := (outerJoinWithPredicate_ok rfl hlayout).mp
    ((outerJoinById_eq hnum hc hkeys h).mp hf)
  refine congrArg _ (spec_run_congr _ (fun l hl r hr => ?_) _ _)
  -- the residual has been checked when a pair has equal keys
  cases hsame : sameKeys (residualKeys (keyPairs on)) l r with
  | false => rfl
  | true => exact residual_value S hsides h (hcheck ⟨l, hl, r, hr, hsame⟩) l r

omit [DecidableEq V] in
/-- Rows whose keys are not NULL tell whether their pair passes the test of a join. -/
theorem test_of_row {test : Row V → Row V → Bool} {k : String × String}
    (hkeys : ∀ k ∈ keyPairs on, k.1 ≠ k.2)
    (hnd : (wantedLayout on left.columns right.columns).columns.Nodup) (kl kr : Bool)
    {l r : Row V} (hl : l ∈ left.rows) (hr : r ∈ right.rows) (hlk : (l k.1).isSome = true)
    (hrk : (r k.2).isSome = true) :
    (wantedLayout on left.columns right.columns).row l r ∈
      ((wantedLayout on left.columns right.columns).spec test).run kl kr left.rows right.rows ↔
        test l r = true := by
  rw [wantedLayout_beside hkeys] at hnd ⊢
  have hnull : ∀ {r r' : Row V} {c : String}, (r c).isSome = true → nullRow = r' → r' ≠ r := by
    rintro r _ c hc rfl rfl
    cases hc
  refine JoinSpec.pair_mem_run _ hl hr (fun l' hl' r' hr' he => ?_) (fun l' hl' he => ?_)
    (fun r' hr' he => ?_) kl kr
  · exact beside_inj hnd (left.supported l hl) (left.supported l' hl') (right.supported r hr)
      (right.supported r' hr') he
  · exact hnull hrk rfl (beside_inj hnd (left.supported l hl) (left.supported l' hl')
      (right.supported r hr) (fun _ _ => rfl) he).2
  · exact hnull hlk rfl (beside_inj hnd (left.supported l hl) (fun _ _ => rfl)
      (right.supported r hr) (right.supported r' hr') he).1

omit [DecidableEq V] in
/-- Keys that are all named once are all compared. -/
theorem residualKeys_of_nodup {keys : List (String × String)} (hl : (keys.map Prod.fst).Nodup)
    (hr : (keys.map Prod.snd).Nodup) : residualKeys keys = keys := by
  have hkeep : ∀ ks : List String, ks.Nodup → keepFirst id ks = ks := by
    intro ks hnd
    induction ks with
    | nil => rfl
    | cons k ks ih =>
      obtain ⟨hk, hks⟩ := List.nodup_cons.mp hnd
      rw [keepFirst, ih hks, List.filter_eq_self.mpr]
      intro c hc
      refine decide_eq_true ?_
      rintro rfl
      exact hk hc
  rw [residualKeys, hkeep _ hl, hkeep _ hr]
  exact (List.zip_of_prod rfl rfl).symm

/-- Such a join returns what is wanted on all rows. -/
theorem keysAgree_of_nodup (S : Scalars V) (p : Expr V) (left right : Frame V)
    (hl : ((keyPairs on).map Prod.fst).Nodup)
    (hr : ((keyPairs on).map Prod.snd).Nodup) : KeysAgree S on p left right := by
  intro l _ r _ _
  rw [residualKeys_of_nodup hl hr]

/-- **An outer join with a residual returns what is wanted**, when the dictionary keys decide about
the pairs whose residual is true as the written keys do; and only then, when no key has one name on
both sides. -/
theorem outer_residual_exact (S : Scalars V) (hnum : Function.Injective num)
    (hout : on.how.isOuter = true) (hlen : on.onLeft.length = on.onRight.length)
    (h : PlainNames on p left.columns right.columns)
    (hleft : ∀ l ∈ left.rows, ∀ c ∈ on.onLeft, (l c).isSome = true)
    (hright : ∀ r ∈ right.rows, ∀ d ∈ on.onRight, (r d).isSome = true)
    (hf : outerJoinById S num on p left right = .ok f) :
    (KeysAgree S on p left right → f.columns = (wantedOuter S on p left right).columns ∧
      f.rows.Perm (wantedOuter S on p left right).rows) ∧
    ((∀ k ∈ keyPairs on, k.1 ≠ k.2) → f.rows.Perm (wantedOuter S on p left right).rows →
      KeysAgree S on p left right) := by
  have hc : on.how ≠ .cross := by
    intro he
    rw [he] at hout
    cases hout
  obtain ⟨hkeys, rfl⟩ := outerJoinById_rows hnum hc hlen h hf
  obtain ⟨-, hne, -, -⟩ := checkKeys_spec hc hkeys
  obtain ⟨hzip, hfst, -⟩ := keyPairs_sides hc hlen
  have hsides := h.sides hc hkeys
  constructor
  · intro hagree
    refine ⟨rfl, ?_⟩
    refine .of_eq (congrArg Frame.rows (congrArg (Frame.ofRows _)
      (spec_run_congr _ (fun l hl r hr => ?_) _ _)))
    cases hholds : residualHolds S on p left.columns right.columns l r with
    | false => rw [Bool.and_false, Bool.and_false]
    | true => rw [hagree l hl r hr hholds]
  · intro hdiff hperm l hl r hr hholds
    have hnd : (wantedLayout on left.columns right.columns).columns.Nodup :=
      restored_nodup hsides
    -- some key of the pair is not NULL
    have hnonempty : keyPairs on ≠ [] := fun hnil => hne (by rw [hfst, hnil]; rfl)
    obtain ⟨k, hk⟩ := List.exists_mem_of_ne_nil _ hnonempty
    rw [← hzip] at hk
    have hlk := hleft l hl k.1 (List.of_mem_zip hk).1
    have hrk := hright r hr k.2 (List.of_mem_zip hk).2
    have hrows : ∀ test : Row V → Row V → Bool,
        (Frame.ofRows (wantedLayout on left.columns right.columns).columns
          (((wantedLayout on left.columns right.columns).spec test).run on.how.keepsLeft
            on.how.keepsRight left.rows right.rows)).rows =
          ((wantedLayout on left.columns right.columns).spec test).run on.how.keepsLeft
            on.how.keepsRight left.rows right.rows := by
      intro test
      refine ofRows_rows_of_supported (JoinSpec.forall_mem_run _ ?_ ?_ ?_ _ _ _ _)
      · exact fun l r c hc => Layout.row_notMem hc l r
      · exact fun l c hc => Layout.row_notMem hc l nullRow
      · exact fun r c hc => Layout.row_notMem hc nullRow r
    rw [wantedOuter, hrows, hrows] at hperm
    have hiff := hperm.mem_iff (a := (wantedLayout on left.columns right.columns).row l r)
    rw [test_of_row hdiff hnd _ _ hl hr hlk hrk, test_of_row hdiff hnd _ _ hl hr hlk hrk,
      hholds, Bool.and_true, Bool.and_true] at hiff
    exact Bool.eq_iff_iff.mpr hiff

end Wanted

/-- `t(k, x)` and `u(a, v)`. -/
def residualSides : Frame Nat × Frame Nat :=
  (numbers ["k", "x"] [[some 1, some 7], [some 2, some 8], [some 1, none]],
    numbers ["a", "v"] [[some 1, some 0], [some 1, some 5], [some 3, some 6]])

/-- `ON t.k = u.a AND u.v`. -/
def residualOn (how : JoinHow) : JoinOn Nat := ⟨["k"], ["a"], how, some (.col "v" none), false⟩

theorem not_reserved {c : String} (h : c.toList.head? ≠ some '_') : ¬Reserved c :=
  fun hc => h hc.head

/-- A full join: the second row of `t` and the first and third of `u` have no partner. -/
theorem outer_residual_exact_full : ∃ f,
    outerJoinById natScalars id (residualOn .full) (.col "v" none) residualSides.1
      residualSides.2 = .ok f ∧ f.rows.Perm (wantedOuter natScalars (residualOn .full)
        (.col "v" none) residualSides.1 residualSides.2).rows := by
  have hshown : shown (outerJoinById natScalars id (residualOn .full) (.col "v" none)
      residualSides.1 residualSides.2) = some (["k", "x", "a", "v"],
        [[some 1, some 7, some 1, some 5], [some 1, none, some 1, some 5],
          [some 2, some 8, none, none], [none, none, some 1, some 0],
          [none, none, some 3, some 6]]) := by decide
  obtain ⟨f, hf, -, -⟩ := returned_of_shown hshown
  have hplain : PlainNames (residualOn .full) (.col "v" none) residualSides.1.columns
      residualSides.2.columns :=
    { left := by decide
      right := by decide
      leftFree := fun c hc => not_reserved (by revert c; decide)
      rightFree := fun c hc => not_reserved (by revert c; decide)
      shared := by decide
      refs := by
        intro x hx
        obtain rfl := List.mem_singleton.mp hx
        exact ⟨not_reserved (by decide), fun t ht => nomatch ht⟩
      read := by
        intro x hx c hc
        obtain rfl := List.mem_singleton.mp hx
        have hv : resolve (residualLayout (keyPairs (residualOn .full)) residualSides.1.columns
            residualSides.2.columns).columns "v" none = some "v" := by decide
        cases hv.symm.trans hc
        decide }
  have hleft : ∀ l ∈ residualSides.1.rows, ∀ c ∈ (residualOn .full).onLeft,
      (l c).isSome = true := by decide
  have hright : ∀ r ∈ residualSides.2.rows, ∀ d ∈ (residualOn .full).onRight,
      (r d).isSome = true := by decide
  exact ⟨f, hf, ((outer_residual_exact natScalars Function.injective_id rfl rfl hplain hleft hright
    hf).1 (keysAgree_of_nodup _ _ _ _ (by decide) (by decide))).2⟩

/-- `t(k, j, x)` and `u(a, b)`, one row each: `t.k` is not `u.b`. -/
def repeatedSides : Frame Nat × Frame Nat :=
  (numbers ["k", "j", "x"] [[some 1, some 2, some 7]], numbers ["a", "b"] [[some 1, some 2]])

/-- `ON t.k = u.a AND t.k = u.b AND t.j = u.b AND t.x`. -/
def repeatedOn : JoinOn Nat :=
  ⟨["k", "k", "j"], ["a", "b", "b"], .left, some (.col "x" none), false⟩

/-- **A key comparison is lost**: the second key of `t.k` has overwritten the temporary name of the
first, and the rows are joined although `t.k = u.b` is false. -/
theorem repeated_key_matches :
    shown (outerJoinById natScalars id repeatedOn (.col "x" none) repeatedSides.1
      repeatedSides.2) = some (["k", "j", "x", "a", "b"],
        [[some 1, some 2, some 7, some 1, some 2]]) ∧
    shown (.ok (wantedOuter natScalars repeatedOn (.col "x" none) repeatedSides.1
      repeatedSides.2)) = some (["k", "j", "x", "a", "b"],
        [[some 1, some 2, some 7, none, none]]) := by
  constructor
  · decide
  · decide

end RyuDB.Sql
