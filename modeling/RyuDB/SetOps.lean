/-
# Set operations

`Engine._setop` renames the columns of the right side to those of the left side and computes UNION by
`concat`, INTERSECT by an inner `merge` on all columns, and EXCEPT by a left `merge` on all columns
with a right side that has one more column `_x`, set to 1: the left rows whose `_x` is NULL have no
partner.

Wanted (`Meets`): the rows are those SQL gives, as a multiset for UNION ALL and as a set without
repetitions otherwise, under the left side's names.  `setop_meets` says that this is so except for
EXCEPT on a left side that has a column `_x` itself: then the marker is one of the keys, and is dropped
with the others.

`setopFrames` is what the other modules use for the operation; `setop_eq` says that it is the same
where there is no such column.
-/
import RyuDB.Flip
import RyuDB.NullKeys
import RyuDB.Prune

namespace RyuDB.Sql

variable {V : Type} [DecidableEq V]

/-! ## 1. The operation -/

/-- `left.merge(right, on=cols, how=how)`. -/
def mergeOn (S : Scalars V) (cols : List String) (how : JoinHow) (left right : Frame V) :
    Except DbError (Frame V) :=
  mergeFrames S ⟨cols, cols, how, none, true⟩ id id left right

omit [DecidableEq V] in
/-- `m.drop(columns=[name])`. -/
def dropColumn (df : Frame V) (name : String) : Frame V :=
  .ofRows (df.columns.filter (· ≠ name)) df.rows

/-- `Engine._setop`. -/
def setop (S : Scalars V) (op : SetKind) (distinct : Bool) (left right : Frame V) :
    Except DbError (Frame V) :=
  if left.columns.length ≠ right.columns.length then
    .error (.parse (op.upper ++ " column count mismatch: " ++ toString left.columns.length ++
      " vs " ++ toString right.columns.length))
  else
    let right := relabel left.columns right
    let cols := left.columns
    match op with
    | .union =>
      let out := Frame.ofRows cols (left.rows ++ right.rows)
      .ok (if distinct then dropDuplicates out else out)
    | .intersect =>
      if !distinct then .error (.notImplemented "INTERSECT ALL is not supported")
      else mergeOn S cols .inner (dropDuplicates left) (dropDuplicates right)
    | .except =>
      if !distinct then .error (.notImplemented "EXCEPT ALL is not supported")
      else do
        let marked := withColumn (dropDuplicates right) "_x" fun _ => some S.one
        let m ← mergeOn S cols .left (dropDuplicates left) marked
        .ok (dropColumn (m.filter fun r => (r "_x").isNone) "_x")

/-! ## 2. What is wanted -/

omit [DecidableEq V] in
/-- The rows of a frame by position. -/
def tuples (f : Frame V) : List (List (Cell V)) := f.rows.map (keyOf f.columns)

omit [DecidableEq V] in
/-- **What a set operation returns**: under the left side's names, for UNION ALL the rows of both sides,
and otherwise each row of the set once; the other ALL forms are refused. -/
def Meets (op : SetKind) (distinct : Bool) (left right : Frame V) (x : Except DbError (Frame V)) :
    Prop :=
  match op, distinct with
  | .union, false => ∃ f, x = .ok f ∧ f.columns = left.columns ∧
      (tuples f).Perm (tuples left ++ tuples right)
  | .union, true => ∃ f, x = .ok f ∧ f.columns = left.columns ∧ (tuples f).Nodup ∧
      ∀ t, t ∈ tuples f ↔ t ∈ tuples left ∨ t ∈ tuples right
  | .intersect, true => ∃ f, x = .ok f ∧ f.columns = left.columns ∧ (tuples f).Nodup ∧
      ∀ t, t ∈ tuples f ↔ t ∈ tuples left ∧ t ∈ tuples right
  | .except, true => ∃ f, x = .ok f ∧ f.columns = left.columns ∧ (tuples f).Nodup ∧
      ∀ t, t ∈ tuples f ↔ t ∈ tuples left ∧ t ∉ tuples right
  | _, false => ∃ e, x = .error e

/-! ## 3. Rows by position -/

omit [DecidableEq V] in
theorem tuples_ofRows {cols : List String} {rows : List (Row V)} :
    tuples (.ofRows cols rows) = rows.map (keyOf cols) := by
  rw [tuples, Frame.ofRows_rows, Frame.ofRows_columns, List.map_map]
  exact List.map_congr_left fun r _ => keyOf_restrict (fun _ h => h) r

omit [DecidableEq V] in
/-- Renaming the columns leaves the cells in their places. -/
theorem tuples_relabel {cols : List String} {f : Frame V} (hn : cols.Nodup)
    (hlen : cols.length = f.columns.length) : tuples (relabel cols f) = tuples f := by
  rw [relabel, tuples_ofRows, List.map_map]
  refine List.map_congr_left fun r _ => ?_
  exact keyOf_cellOf hn (by rw [keyOf, List.length_map, hlen])

theorem map_keepFirst {α κ : Type} [DecidableEq κ] (key : α → κ) (l : List α) :
    (keepFirst key l).map key = keepFirst id (l.map key) := (keepFirst_map id key l).symm

/-- The keys that are kept are those there are. -/
theorem mem_map_keepFirst {α κ : Type} [DecidableEq κ] {key : α → κ} {l : List α} {k : κ} :
    k ∈ (keepFirst key l).map key ↔ k ∈ l.map key := by
  rw [map_keepFirst]
  exact mem_keepFirst_iff fun _ _ _ _ h => h

theorem nodup_map_keepFirst {α κ : Type} [DecidableEq κ] (key : α → κ) (l : List α) :
    ((keepFirst key l).map key).Nodup := by
  rw [map_keepFirst]
  exact nodup_keepFirst id _

theorem mem_tuples_dropDuplicates {f : Frame V} {t : List (Cell V)} :
    t ∈ tuples (dropDuplicates f) ↔ t ∈ tuples f := by
  rw [dropDuplicates, tuples_ofRows]
  exact mem_map_keepFirst

theorem nodup_tuples_dropDuplicates (f : Frame V) : (tuples (dropDuplicates f)).Nodup := by
  rw [dropDuplicates, tuples_ofRows]
  exact nodup_map_keepFirst _ _

/-! ## 4. A merge on all columns -/

section Layout
variable {L R : List String}

theorem mem_zip_self {k : String × String} : k ∈ L.zip L ↔ k.1 ∈ L ∧ k.1 = k.2 := by
  have hzip : L.zip L = L.map fun c => (c, c) := by
    rw [List.zip, List.zipWith_self]
  rw [hzip, List.mem_map]
  constructor
  · rintro ⟨c, hc, rfl⟩
    exact ⟨hc, rfl⟩
  · rintro ⟨hc, he⟩
    exact ⟨k.1, hc, Prod.ext rfl he⟩

theorem coalesced_self {c : String} (h : c ∈ L) : coalesced id id (L.zip L) c = some c := by
  rw [coalesced_eq fun k hk _ => (mem_zip_self.mp hk).2,
    if_pos ⟨mem_zip_self.mpr ⟨h, rfl⟩, rfl⟩]

theorem absorbed_self (d : String) : absorbed id id (L.zip L) d = decide (d ∈ L) := by
  rw [absorbed_eq fun k hk _ => (mem_zip_self.mp hk).2]
  exact decide_eq_decide.mpr ⟨fun h => (mem_zip_self.mp h.1).1,
    fun h => ⟨mem_zip_self.mpr ⟨h, rfl⟩, rfl⟩⟩

/-- The columns of a merge on all columns `L` of the left side, where the right side has the columns
`R` besides. -/
def onAll (L R : List String) : Layout :=
  L.map (fun c => (c, .both c c)) ++ R.map fun d => (d, .right d)

theorem onAll_columns : (onAll L R).columns = L ++ R := by
  simp [onAll, Layout.columns, Function.comp_def]

/-- Every left column is a coalesced key, so that no name gets a suffix. -/
theorem layout_onAll (hR : ∀ d ∈ R, d ∉ L) :
    layout id id (L.zip L) (mergeOverlap id id (L.zip L) L (L ++ R)) L (L ++ R) = onAll L R := by
  have hkeys : L.filter (fun c => (coalesced id id (L.zip L) c).isNone) = [] :=
    List.filter_eq_nil_iff.mpr fun c hc => by simp [coalesced_self hc]
  have hover : mergeOverlap id id (L.zip L) L (L ++ R) = [] := by
    rw [mergeOverlap, hkeys, List.map_nil, List.filter_nil]
  have hrest : (L ++ R).filter (fun d => !absorbed id id (L.zip L) d) = R := by
    rw [List.filter_append]
    have hleft : L.filter (fun d => !absorbed id id (L.zip L) d) = [] :=
      List.filter_eq_nil_iff.mpr fun c hc => by simp [absorbed_self, hc]
    have hright : R.filter (fun d => !absorbed id id (L.zip L) d) = R :=
      List.filter_eq_self.mpr fun d hd => by simp [absorbed_self, hR d hd]
    rw [hleft, hright, List.nil_append]
  rw [layout, hover, hrest, onAll]
  refine congrArg₂ _ (List.map_congr_left fun c hc => ?_) (List.map_congr_left fun d _ => ?_)
  · rw [leftEntry, coalesced_self hc]
    rfl
  · rw [rightEntry, if_neg List.not_mem_nil]
    rfl

omit [DecidableEq V] in
/-- A pair that has the cells of its left row on the keys and nothing besides is its left row. -/
theorem onAll_row {l r : Row V} (hnd : (L ++ R).Nodup) (hkeys : ∀ c ∈ L, (l c).or (r c) = l c)
    (hrest : ∀ d ∈ R, r d = none) (hl : ∀ c, c ∉ L → l c = none) : (onAll L R).row l r = l := by
  have hcols : (onAll L R).columns.Nodup := onAll_columns ▸ hnd
  funext n
  by_cases hn : n ∈ L
  · have hsrc : (onAll L R).source n = some (.both n n) :=
      (source_eq_some_iff hcols).mpr (List.mem_append_left _ (List.mem_map_of_mem hn))
    rw [Layout.row_source hsrc]
    exact hkeys n hn
  · rw [hl n hn]
    by_cases hd : n ∈ R
    · have hsrc : (onAll L R).source n = some (.right n) :=
        (source_eq_some_iff hcols).mpr (List.mem_append_right _ (List.mem_map_of_mem hd))
      rw [Layout.row_source hsrc]
      exact hrest n hd
    · refine Layout.row_notMem ?_ l r
      rw [onAll_columns, List.mem_append]
      exact not_or.mpr ⟨hn, hd⟩

omit [DecidableEq V] in
theorem onAll_row_right {l r : Row V} {d : String} (hnd : (L ++ R).Nodup) (hd : d ∈ R) :
    (onAll L R).row l r d = r d :=
  have hcols : (onAll L R).columns.Nodup := onAll_columns ▸ hnd
  have hsrc : (onAll L R).source d = some (.right d) :=
    (source_eq_some_iff hcols).mpr (List.mem_append_right _ (List.mem_map_of_mem hd))
  Layout.row_source hsrc l r

/-- The pairs of a merge on all columns: those with equal cells. -/
def onAllSpec (V : Type) [DecidableEq V] (L R : List String) : JoinSpec (Row V) (Row V) (Row V) :=
  (onAll L R).spec fun l r => decide (keyOf L l = keyOf L r)

theorem mergeOn_eq {S : Scalars V} {how : JoinHow} {left right : Frame V} (hhow : how ≠ .cross)
    (hl : left.columns = L) (hr : right.columns = L ++ R) (hnd : (L ++ R).Nodup) :
    mergeOn S L how left right = .ok (.ofRows (L ++ R)
      ((onAllSpec V L R).run how.keepsLeft how.keepsRight left.rows right.rows)) := by
  have hpairs : keyPairs (V := V) ⟨L, L, how, none, true⟩ = L.zip L := if_neg hhow
  have hlay : layout id id (L.zip L) (mergeOverlap id id (L.zip L) left.columns right.columns)
      left.columns right.columns = onAll L R := by
    rw [hl, hr]
    exact layout_onAll fun d hd hdl => (List.nodup_append.mp hnd).2.2 d hdl d hd rfl
  have htest : (fun l r : Row V => sameKeys (L.zip L) l r &&
      passes S (onAll L R).columns none ((onAll L R).row l r)) =
      fun l r => decide (keyOf L l = keyOf L r) := by
    funext l r
    rw [sameKeys_zip rfl]
    exact Bool.and_true _
  rw [← hpairs] at hlay
  refine (mergeFrames_ok hlay).mpr ⟨⟨?_, rfl⟩, ?_⟩
  · rw [onAll_columns]
    exact hnd
  · rw [hpairs, htest, onAll_columns]
    rfl

end Layout

/-! ## 5. INTERSECT and EXCEPT -/

section Merged
variable {S : Scalars V} {L R : List String}

/-- Of elements with different keys at most one has a given key. -/
theorem length_filter_key_le {α κ : Type} [DecidableEq κ] {key : α → κ} {l : List α}
    (h : (l.map key).Nodup) (k : κ) : (l.filter fun a => decide (k = key a)).length ≤ 1 := by
  have hcount := List.nodup_iff_count_le_one.mp h k
  rw [List.count_eq_countP, List.countP_map, List.countP_eq_length_filter] at hcount
  refine le_of_eq_of_le (congrArg _ (List.filter_congr fun a _ => ?_)) hcount
  rw [Function.comp_apply, Bool.eq_iff_iff, decide_eq_true_eq, beq_iff_eq]
  exact eq_comm

/-- A row has a partner exactly when its cells are among those of the other side. -/
theorem any_onAll (l : Row V) (rs : List (Row V)) :
    rs.any ((onAllSpec V L R).test l) = decide (keyOf L l ∈ rs.map (keyOf L)) := by
  rw [Bool.eq_iff_iff, List.any_eq_true, decide_eq_true_eq, List.mem_map]
  exact exists_congr fun r => and_congr_right fun _ => decide_eq_true_iff.trans eq_comm

/-- The left rows without a partner. -/
theorem loneLeft_onAll {ls rs : List (Row V)} (hnd : (L ++ R).Nodup)
    (hl : ∀ l ∈ ls, ∀ c, c ∉ L → l c = none) :
    (onAllSpec V L R).loneLeft ls rs = ls.filter fun l => keyOf L l ∉ rs.map (keyOf L) := by
  have hself : ∀ l ∈ ls, (onAllSpec V L R).left l = l := fun l h =>
    onAll_row hnd (fun _ _ => Option.or_none) (fun _ _ => rfl) (hl l h)
  rw [JoinSpec.loneLeft, List.map_congr_left fun l h => hself l (List.mem_filter.mp h).1]
  rw [List.map_id']
  refine List.filter_congr fun l _ => ?_
  rw [any_onAll, decide_not]

/-- The pairs, where the cells of the right rows are all different and are all there is to them. -/
theorem inner_onAll {ls rs : List (Row V)} (hnd : L.Nodup)
    (hl : ∀ l ∈ ls, ∀ c, c ∉ L → l c = none) (hrs : (rs.map (keyOf L)).Nodup) :
    (onAllSpec V L []).inner ls rs = ls.filter fun l => keyOf L l ∈ rs.map (keyOf L) := by
  have hpair : ∀ l ∈ ls, ∀ r ∈ rs, (onAllSpec V L []).test l r = true →
      (onAllSpec V L []).pair l r = l := by
    intro l h r _ htest
    have hkeys : ∀ c ∈ L, l c = r c := List.map_inj_left.mp (of_decide_eq_true htest)
    refine onAll_row (by rwa [List.append_nil]) (fun c hc => ?_) (fun _ h => nomatch h) (hl l h)
    rw [← hkeys c hc]
    exact Option.or_self
  rw [JoinSpec.inner_eq_filter hpair fun l _ => length_filter_key_le hrs _]
  exact List.filter_congr fun l _ => any_onAll l rs

/-- Without repeated rows the cells of the rows are those there were, each once. -/
theorem distinct_keys {f : Frame V} (hf : f.columns = L) :
    ((dropDuplicates f).rows.map (keyOf L)).Nodup ∧
      ∀ k, k ∈ (dropDuplicates f).rows.map (keyOf L) ↔ k ∈ f.rows.map (keyOf L) := by
  subst hf
  exact ⟨nodup_tuples_dropDuplicates f, fun k => mem_tuples_dropDuplicates⟩

/-- **An INTERSECT is a filter of the left side.** -/
theorem intersect_eq {left right : Frame V} (hnd : L.Nodup) (hl : left.columns = L)
    (hr : right.columns = L) :
    mergeOn S L .inner (dropDuplicates left) (dropDuplicates right) =
      .ok ((dropDuplicates left).filter fun r => keyOf L r ∈ right.rows.map (keyOf L)) := by
  have hnd' : (L ++ []).Nodup := by rwa [List.append_nil]
  have hdl : (dropDuplicates left).columns = L := hl
  have hdr : (dropDuplicates right).columns = L ++ [] := hr.trans (List.append_nil L).symm
  have hsup : ∀ l ∈ (dropDuplicates left).rows, ∀ c, c ∉ L → l c = none := fun l h c hc =>
    (dropDuplicates left).supported l h c (hdl ▸ hc)
  obtain ⟨hdist, hkeys⟩ := distinct_keys hr
  have hrows : (onAllSpec V L []).run false false (dropDuplicates left).rows
      (dropDuplicates right).rows = ((dropDuplicates left).filter fun r =>
        keyOf L r ∈ right.rows.map (keyOf L)).rows := by
    rw [JoinSpec.run, if_neg Bool.false_ne_true, if_neg Bool.false_ne_true, List.append_nil,
      List.append_nil, inner_onAll hnd hsup hdist, Frame.filter_rows]
    exact List.filter_congr fun l _ => decide_eq_decide.mpr (hkeys _)
  rw [mergeOn_eq (by decide) hdl hdr hnd', List.append_nil]
  refine congrArg Except.ok (Frame.ext hl.symm ?_)
  refine (ofRows_rows_of_supported fun r h c hc => ?_).trans hrows
  rw [show JoinHow.inner.keepsLeft = false from rfl, show JoinHow.inner.keepsRight = false from rfl,
    hrows] at h
  exact hsup r (List.mem_filter.mp h).1 c hc

omit [DecidableEq V] in
/-- The marker is set in every row, and leaves the keys as they are. -/
theorem marked_rows {right : Frame V} (hx : "_x" ∉ L) (hr : right.columns = L) :
    let marked := withColumn right "_x" fun _ => some S.one
    marked.columns = L ++ ["_x"] ∧ (∀ r ∈ marked.rows, r "_x" = some S.one) ∧
      marked.rows.map (keyOf L) = right.rows.map (keyOf L) := by
  intro marked
  have hcols : marked.columns = L ++ ["_x"] := by
    rw [← hr] at hx ⊢
    exact if_neg hx
  have hrows : marked.rows = (right.rows.map fun r n => if n = "_x" then some S.one else r n).map
      (restrict (L ++ ["_x"])) := by
    rw [← hcols]
    rfl
  refine ⟨hcols, fun r hmem => ?_, ?_⟩
  · rw [hrows, List.map_map] at hmem
    obtain ⟨r, -, rfl⟩ := List.mem_map.mp hmem
    rw [Function.comp_apply, restrict_mem (by simp), if_pos rfl]
  · rw [hrows, List.map_map, List.map_map]
    refine List.map_congr_left fun r _ => ?_
    rw [Function.comp_apply, Function.comp_apply,
      keyOf_restrict fun c hc => List.mem_append_left _ hc]
    exact List.map_congr_left fun c hc => if_neg fun (h : c = "_x") => hx (h ▸ hc)

/-- **An EXCEPT is a filter of the left side** when the left side has no column `_x`. -/
theorem except_eq {left right : Frame V} (hnd : L.Nodup) (hx : "_x" ∉ L) (hl : left.columns = L)
    (hr : right.columns = L) :
    ((mergeOn S L .left (dropDuplicates left)
        (withColumn (dropDuplicates right) "_x" fun _ => some S.one)).bind fun m =>
      .ok (dropColumn (m.filter fun r => (r "_x").isNone) "_x")) =
      .ok ((dropDuplicates left).filter fun r => keyOf L r ∉ right.rows.map (keyOf L)) := by
  have hnd' : (L ++ ["_x"]).Nodup := List.nodup_append.mpr ⟨hnd, List.nodup_singleton _,
    fun c hc d hd he => hx (List.mem_singleton.mp hd ▸ he ▸ hc)⟩
  have hdl : (dropDuplicates left).columns = L := hl
  have hdr : (dropDuplicates right).columns = L := hr
  have hsup : ∀ l ∈ (dropDuplicates left).rows, ∀ c, c ∉ L → l c = none := fun l h c hc =>
    (dropDuplicates left).supported l h c (hdl ▸ hc)
  obtain ⟨hcols, hset, hkeys⟩ := marked_rows (S := S) hx hdr
  generalize withColumn (dropDuplicates right) "_x" (fun _ => some S.one) = marked at *
  -- a pair shows the marker, and a row alone does not
  have hinner : ((onAllSpec V L ["_x"]).inner (dropDuplicates left).rows marked.rows).filter
      (fun r => (r "_x").isNone) = [] := by
    refine List.filter_eq_nil_iff.mpr fun t ht => ?_
    obtain ⟨l, -, ht⟩ := List.mem_flatMap.mp ht
    obtain ⟨r, hr, rfl⟩ := List.mem_map.mp ht
    have hone : (onAllSpec V L ["_x"]).pair l r "_x" = some S.one :=
      (onAll_row_right hnd' (List.mem_singleton_self _)).trans (hset r (List.mem_filter.mp hr).1)
    rw [hone]
    exact Bool.false_ne_true
  have hlone : ((onAllSpec V L ["_x"]).loneLeft (dropDuplicates left).rows marked.rows).filter
      (fun r => (r "_x").isNone) = ((dropDuplicates left).filter fun r =>
        keyOf L r ∉ right.rows.map (keyOf L)).rows := by
    rw [loneLeft_onAll hnd' hsup, List.filter_filter, Frame.filter_rows]
    refine List.filter_congr fun l h => ?_
    rw [hsup l h "_x" hx, Option.isNone_none, Bool.true_and, hkeys]
    exact decide_eq_decide.mpr (not_congr ((distinct_keys hr).2 _))
  rw [mergeOn_eq (by decide) hdl hcols hnd']
  have hkept : (L ++ ["_x"]).filter (· ≠ "_x") = L := by
    have hleft : L.filter (· ≠ "_x") = L :=
      List.filter_eq_self.mpr fun c hc => decide_eq_true fun h => hx (h ▸ hc)
    rw [List.filter_append, hleft]
    exact List.append_nil L
  have hmark : ((fun r : Row V => (r "_x").isNone) ∘ restrict (L ++ ["_x"])) =
      fun r => (r "_x").isNone := by
    funext r
    rw [Function.comp_apply, restrict_mem (by simp)]
  have hrun : ((onAllSpec V L ["_x"]).run true false (dropDuplicates left).rows marked.rows).filter
      (fun r => (r "_x").isNone) = ((dropDuplicates left).filter fun r =>
        keyOf L r ∉ right.rows.map (keyOf L)).rows := by
    rw [JoinSpec.run, if_pos rfl, if_neg Bool.false_ne_true, List.append_nil, List.filter_append,
      hinner, hlone, List.nil_append]
  refine congrArg Except.ok (Frame.ext (hkept.trans hl.symm) ?_)
  rw [dropColumn, Frame.ofRows_rows, Frame.filter_columns, Frame.ofRows_columns, hkept,
    Frame.filter_rows, Frame.ofRows_rows, List.filter_map, hmark, List.map_map]
  refine (congrArg _ hrun).trans ((List.map_congr_left fun r h => ?_).trans (List.map_id _))
  have hr : ∀ c, c ∉ L → r c = none := hsup r (List.mem_filter.mp h).1
  funext c
  by_cases hc : c ∈ L
  · rw [Function.comp_apply, restrict_mem hc, restrict_mem (List.mem_append_left _ hc), id_eq]
  · rw [Function.comp_apply, restrict_notMem hc, id_eq, hr c hc]

end Merged

/-! ## 6. What the operation returns -/

/-- **The operation is the one the plans use** unless the marker of EXCEPT meets a column of its
name. -/
theorem setop_eq (S : Scalars V) {op : SetKind} {distinct : Bool} {left right : Frame V}
    (hnd : left.columns.Nodup) (hx : op = .except → distinct = true → "_x" ∉ left.columns) :
    setop S op distinct left right = setopFrames op distinct left right := by
  unfold setop setopFrames
  split
  · rfl
  · cases op with
    | union => rfl
    | intersect =>
      cases distinct with
      | false => rfl
      | true => exact intersect_eq hnd rfl rfl
    | except =>
      cases distinct with
      | false => rfl
      | true => exact except_eq hnd (hx rfl rfl) rfl rfl

/-- INTERSECT and EXCEPT keep the left rows whose cells pass a test, each once. -/
theorem tuples_filter (left : Frame V) (p : List (Cell V) → Bool) :
    (tuples ((dropDuplicates left).filter fun r => p (keyOf left.columns r))).Nodup ∧
      ∀ t, t ∈ tuples ((dropDuplicates left).filter fun r => p (keyOf left.columns r)) ↔
        t ∈ tuples left ∧ p t = true := by
  have hrows : tuples ((dropDuplicates left).filter fun r => p (keyOf left.columns r)) =
      (tuples (dropDuplicates left)).filter p := by
    rw [tuples, tuples, List.filter_map]
    rfl
  rw [hrows]
  refine ⟨(nodup_tuples_dropDuplicates left).filter _, fun t => ?_⟩
  rw [List.mem_filter, mem_tuples_dropDuplicates]

/-- **The operation of the plans returns what SQL says.** -/
theorem setopFrames_meets {op : SetKind} {distinct : Bool} {left right : Frame V}
    (hnd : left.columns.Nodup) (hlen : left.columns.length = right.columns.length) :
    Meets op distinct left right (setopFrames op distinct left right) := by
  have hright : (relabel left.columns right).rows.map (keyOf left.columns) = tuples right :=
    tuples_relabel hnd hlen
  unfold setopFrames
  rw [if_neg (not_not.mpr hlen)]
  have hboth : tuples (Frame.ofRows left.columns (left.rows ++ (relabel left.columns right).rows)) =
      tuples left ++ tuples right := by
    rw [tuples_ofRows, List.map_append, hright]
    rfl
  cases op with
  | union =>
    cases distinct with
    | false => exact ⟨_, rfl, rfl, .of_eq hboth⟩
    | true =>
      refine ⟨_, rfl, rfl, nodup_tuples_dropDuplicates _, fun t => ?_⟩
      rw [if_pos rfl, mem_tuples_dropDuplicates, hboth, List.mem_append]
  | intersect =>
    cases distinct with
    | false => exact ⟨_, rfl⟩
    | true =>
      let p : List (Cell V) → Bool := fun k =>
        k ∈ (relabel left.columns right).rows.map (keyOf left.columns)
      have hp : ∀ t, p t = true ↔ t ∈ tuples right := fun t => hright ▸ decide_eq_true_iff
      obtain ⟨hnodup, hmem⟩ := tuples_filter left p
      exact ⟨_, rfl, rfl, hnodup, fun t => (hmem t).trans (and_congr_right fun _ => hp t)⟩
  | except =>
    cases distinct with
    | false => exact ⟨_, rfl⟩
    | true =>
      let p : List (Cell V) → Bool := fun k =>
        k ∉ (relabel left.columns right).rows.map (keyOf left.columns)
      have hp : ∀ t, p t = true ↔ t ∉ tuples right := fun t => hright ▸ decide_eq_true_iff
      obtain ⟨hnodup, hmem⟩ := tuples_filter left p
      exact ⟨_, rfl, rfl, hnodup, fun t => (hmem t).trans (and_congr_right fun _ => hp t)⟩

omit [DecidableEq V] in
theorem dropColumn_columns (df : Frame V) (name : String) :
    name ∉ (dropColumn df name).columns := fun h => by
  simpa using (List.mem_filter.mp h).2

/-- **A set operation returns what SQL says except for an EXCEPT whose left side has a column `_x`**:
the marker takes the place of that column, and is dropped with it.  No two columns of the left side
have one name, as cuDF demands, and both sides have as many columns; otherwise the operation raises.
-/
theorem setop_meets (S : Scalars V) (op : SetKind) (distinct : Bool) {left right : Frame V}
    (hnd : left.columns.Nodup) (hlen : left.columns.length = right.columns.length) :
    Meets op distinct left right (setop S op distinct left right) ↔
      ¬ (op = .except ∧ distinct = true ∧ "_x" ∈ left.columns) := by
  constructor
  · rintro h ⟨rfl, rfl, hx⟩
    obtain ⟨f, hf, hcols, -⟩ := h
    unfold setop at hf
    rw [if_neg (not_not.mpr hlen)] at hf
    obtain ⟨m, -, hm⟩ := bind_eq_ok.mp hf
    cases hm
    exact dropColumn_columns _ _ (hcols ▸ hx)
  · intro h
    rw [setop_eq S hnd fun ho hd hx => h ⟨ho, hd, hx⟩]
    exact setopFrames_meets hnd hlen

/-- The two sides of `VALUES (1, 5) EXCEPT VALUES (1, 7)`, the left one under the names `k` and
`name`. -/
def exceptSides (name : String) : Frame Nat × Frame Nat :=
  (numbers ["k", name] [[some 1, some 5]], numbers ["a", "b"] [[some 1, some 7]])

/-- The left row is kept where its columns are `k` and `j`. -/
theorem setop_meets_kept :
    Meets .except true (exceptSides "j").1 (exceptSides "j").2
      (setop natScalars .except true (exceptSides "j").1 (exceptSides "j").2) := by
  have hnd : (exceptSides "j").1.columns.Nodup := by decide
  have hx : "_x" ∉ (exceptSides "j").1.columns := by decide
  have hlen : (exceptSides "j").1.columns.length = (exceptSides "j").2.columns.length := rfl
  exact (setop_meets natScalars .except true hnd hlen).mpr fun h => hx h.2.2

/-- **The row is lost where its second column is `_x`**, and so is that column. -/
theorem marker_column :
    shown (setop natScalars .except true (exceptSides "_x").1 (exceptSides "_x").2) =
        some (["k"], []) ∧
      ¬ Meets .except true (exceptSides "_x").1 (exceptSides "_x").2
        (setop natScalars .except true (exceptSides "_x").1 (exceptSides "_x").2) := by
  have hshown : shown (setop natScalars .except true (exceptSides "_x").1 (exceptSides "_x").2) =
      some (["k"], []) := by decide
  refine ⟨hshown, ?_⟩
  rintro ⟨f, hf, hcols, -⟩
  obtain ⟨g, hg, hgcols, -⟩ := returned_of_shown hshown
  cases hg.symm.trans hf
  exact absurd (hgcols.symm.trans hcols) (by decide)

end RyuDB.Sql
