/-
# The rows of an outer join with a residual

The middle of `Engine._outer_join_with_predicate`: the two sides as they go into the merge, the
pairs of numbered rows the merge returns (`merge_sides`), the pairs the residual leaves
(`satisfied_frame`), and the rows of the preserved sides whose number is in no pair
(`padded_frame`).  `idSpec` is the join of numbered rows that the steps compute; the row numbers
keep two equal rows apart.

Three facts carry the module.

* A key gets a temporary name on either side, so the two sides have no column in common, and a merge
  of such sides puts them side by side (`row_side_by_side`): nothing is suffixed and nothing
  coalesced.
* The residual is evaluated on the merged frame, where the keys have temporary names.  It may name
  them only by columns that are no keys, so what it sees there is what it sees on the rows themselves
  (`residual_merged`); the names of the row numbers and the temporary names are excluded by
  `PlainSides` and `PlainRefs`.
* A row is preserved when its number is in no pair.  Numbers are unique, so this is the same as having
  no partner (`left_ids`, `right_ids`), also for rows that are equal in every column. -/
import RyuDB.OuterSteps

namespace RyuDB.Sql

variable {V : Type}

/-! ## 1. The sides of the merge -/

/-- A row number belongs to one row. -/
theorem zipIdx_ext {α : Type} {l : List α} {x y : α × Nat} (hx : x ∈ l.zipIdx) (hy : y ∈ l.zipIdx)
    (h : x.2 = y.2) : x = y := by
  have hx := List.mem_zipIdx_iff_getElem?.mp hx
  have hy := List.mem_zipIdx_iff_getElem?.mp hy
  rw [h] at hx
  exact Prod.ext (Option.some.inj (hx.symm.trans hy)) h

/-- The columns of a side that goes into the merge; `mk` is the source of a column. -/
def sideLayout (mk : String → Source) (names : Dict String String) (name : String)
    (cols : List String) : Layout :=
  (cols.map fun c => (newName names c, mk c)) ++ [(name, mk name)]

theorem sideLayout_columns (mk : String → Source) (names : Dict String String) (name : String)
    (cols : List String) :
    (sideLayout mk names name cols).columns = cols.map (newName names) ++ [name] := by
  rw [sideLayout, Layout.columns, List.map_append, List.map_map]
  rfl

/-- **A side that goes into the merge**: its columns under their new names, and the row numbers. -/
theorem side_frame {mk : String → Source} (pr : Row V → Row V × Row V)
    (hcell : ∀ c r, (mk c).cell (pr r).1 (pr r).2 = r c) (num : Nat → V)
    {names : Dict String String} {name : String} {f : Frame V}
    (hnd : (sideLayout mk names name f.columns).columns.Nodup) (hname : name ∉ f.columns) :
    withRowIds num name (renameColumns names f) = (sideLayout mk names name f.columns).frame
      (f.rows.zipIdx.map fun x => pr (numbered num name x)) := by
  have hapart := List.nodup_append.mp (sideLayout_columns mk names name f.columns ▸ hnd)
  have hnew : ∀ c ∈ f.columns, newName names c ≠ name := fun c hc he =>
    hapart.2.2 _ (List.mem_map_of_mem hc) name (List.mem_singleton_self _) he
  have hadd : addColumn (renameColumns names f).columns name =
      (sideLayout mk names name f.columns).columns := by
    rw [sideLayout_columns]
    refine if_neg fun h => ?_
    obtain ⟨c, hc, he⟩ := List.mem_map.mp h
    exact hnew c hc he
  have hrename : ∀ r : Row V, ∀ c ∈ f.columns,
      restrict (f.columns.map (newName names)) (cellOf (f.columns.map (newName names))
        (keyOf f.columns r)) (newName names c) = r c := by
    intro r c hc
    rw [restrict_mem (List.mem_map_of_mem hc)]
    refine cellOf_of_mem_zip hapart.1 ?_
    rw [keyOf, List.zip_map']
    exact List.mem_map.mpr ⟨c, hc, rfl⟩
  rw [withRowIds, hadd, renameColumns, relabel, Frame.ofRows_rows, List.map_map, List.zipIdx_map,
    List.map_map]
  refine frame_of_images hnd _ fun e he x _ => ?_
  rcases List.mem_append.mp he with he | he
  · obtain ⟨c, hc, rfl⟩ := List.mem_map.mp he
    have hne : c ≠ name := fun h => hname (h ▸ hc)
    rw [hcell, Function.comp_apply, numbered, numbered, if_neg (hnew c hc), if_neg hne]
    exact hrename x.1 c hc
  · obtain rfl := List.mem_singleton.mp he
    rw [hcell, Function.comp_apply, numbered, numbered, if_pos rfl, if_pos rfl]
    rfl

theorem row_nullRow (lay : Layout) : lay.row (nullRow : Row V) nullRow = nullRow := by
  funext n
  rw [Layout.row]
  split
  · rename_i s _
    cases s <;> rfl
  · rfl

/-- Two sides side by side. -/
def beside (L R : List String) : Layout :=
  (L.map fun c => (c, Source.left c)) ++ R.map fun d => (d, Source.right d)

theorem columns_beside (L R : List String) : (beside L R).columns = L ++ R := by
  refine List.map_append.trans (congrArg₂ _ ?_ ?_)
  · rw [List.map_map]
    exact List.map_id _
  · rw [List.map_map]
    exact List.map_id _

/-- The rows of two sides put side by side. -/
theorem row_side_by_side {A B : Layout} (hnd : (A ++ B : Layout).columns.Nodup)
    (hA : ∀ e ∈ A, ∃ c, e.2 = .left c) (hB : ∀ e ∈ B, ∃ c, e.2 = .right c) (l r : Row V) :
    (beside A.columns B.columns).row (A.row l nullRow) (B.row nullRow r) =
      Layout.row (A ++ B) l r := by
  have hAB : Layout.columns (A ++ B) = A.columns ++ B.columns := List.map_append
  have hcols : (beside A.columns B.columns).columns = Layout.columns (A ++ B) :=
    (columns_beside _ _).trans hAB.symm
  have hparts := List.nodup_append.mp (hAB ▸ hnd)
  funext n
  by_cases hn : n ∈ Layout.columns (A ++ B)
  · obtain ⟨e, he, rfl⟩ := List.mem_map.mp hn
    rw [Layout.row_of_mem hnd he]
    rcases List.mem_append.mp he with he | he
    · obtain ⟨c, hc⟩ := hA e he
      have hentry : (e.1, Source.left e.1) ∈ beside A.columns B.columns :=
        List.mem_append_left _ (List.mem_map.mpr ⟨e.1, List.mem_map_of_mem he, rfl⟩)
      refine (Layout.row_of_mem (hcols ▸ hnd) hentry _ _).trans ?_
      refine (Layout.row_of_mem hparts.1 he _ _).trans ?_
      rw [hc]
      rfl
    · obtain ⟨c, hc⟩ := hB e he
      have hentry : (e.1, Source.right e.1) ∈ beside A.columns B.columns :=
        List.mem_append_right _ (List.mem_map.mpr ⟨e.1, List.mem_map_of_mem he, rfl⟩)
      refine (Layout.row_of_mem (hcols ▸ hnd) hentry _ _).trans ?_
      refine (Layout.row_of_mem hparts.2.1 he _ _).trans ?_
      rw [hc]
      rfl
  · rw [Layout.row_notMem hn, Layout.row_notMem (hcols ▸ hn)]

/-! ## 2. The pairs

The merge is over the temporary keys.  Its rows are pairs of numbered rows with equal keys, in the
order of a nested loop, and its columns are those of the left side followed by those of the right one.
-/

section Pairs
variable {keys : List (String × String)} {L R : List String}

/-- The columns of the left side of the merge. -/
def leftSide (keys : List (String × String)) (L : List String) : Layout :=
  sideLayout .left (tempNames tempLeft (keys.map Prod.fst)) "__lrid" L

/-- The columns of the right side of the merge. -/
def rightSide (keys : List (String × String)) (R : List String) : Layout :=
  sideLayout .right (tempNames tempRight (keys.map Prod.snd)) "__rrid" R

/-- The columns of the merge. -/
def mergedSides (keys : List (String × String)) (L R : List String) : Layout :=
  leftSide keys L ++ rightSide keys R

theorem newName_eq_stageName (temp : Nat → String) (ks : List String) (c : String) :
    newName (tempNames temp ks) c = stageName temp ks ks c := by
  rw [stageName]
  split
  · rfl
  · rename_i hc
    rw [newName_temp, lastIdx_eq_none.mpr hc]
    rfl

/-- The new name of a column: its own, unless it is a key. -/
theorem newName_cases (temp : Nat → String) (ks : List String) (c : String) :
    c ∉ ks ∧ newName (tempNames temp ks) c = c ∨
      c ∈ ks ∧ ∃ i, lastIdx ks c = some i ∧ newName (tempNames temp ks) c = temp i := by
  rw [newName_eq_stageName]
  exact stageName_cases temp (fun _ h => h) c

theorem stage_start (keys : List (String × String)) (L R : List String) :
    stage keys [] keys L R =
      (L.map fun c => (newName (tempNames tempLeft (keys.map Prod.fst)) c, Source.left c)) ++
      R.map fun d => (newName (tempNames tempRight (keys.map Prod.snd)) d, Source.right d) := by
  rw [stage, List.filter_eq_self.mpr fun d _ => decide_eq_true (List.not_mem_nil (a := (d, d)))]
  simp only [newName_eq_stageName, List.not_mem_nil, if_false]

/-- No column is called as the row numbers are. -/
theorem newName_ne_id {c : String} (hc : ¬Reserved c) (ks : List String) :
    (newName (tempNames tempLeft ks) c ≠ "__lrid" ∧ newName (tempNames tempLeft ks) c ≠ "__rrid") ∧
      newName (tempNames tempRight ks) c ≠ "__lrid" ∧
        newName (tempNames tempRight ks) c ≠ "__rrid" := by
  have hl : c ≠ "__lrid" := fun h => hc (.inl h)
  have hr : c ≠ "__rrid" := fun h => hc (.inr (.inl h))
  constructor
  · rcases newName_cases tempLeft ks c with ⟨-, hn⟩ | ⟨-, i, -, hn⟩
    · rw [hn]
      exact ⟨hl, hr⟩
    · rw [hn]
      exact tempLeft_ne_id i
  · rcases newName_cases tempRight ks c with ⟨-, hn⟩ | ⟨-, i, -, hn⟩
    · rw [hn]
      exact ⟨hl, hr⟩
    · rw [hn]
      exact tempRight_ne_id i

/-- Dropping the row numbers leaves the columns that are to be restored. -/
theorem drop_ids (h : PlainSides keys L R) : (mergedSides keys L R).filter
    (fun e => decide (e.1 ∉ ["__lrid", "__rrid"])) = stage keys [] keys L R := by
  have hside : ∀ (mk : String → Source) (names : Dict String String) (name : String)
      (cols : List String), name ∈ ["__lrid", "__rrid"] →
      (∀ c ∈ cols, newName names c ≠ "__lrid" ∧ newName names c ≠ "__rrid") →
      (sideLayout mk names name cols).filter (fun e => decide (e.1 ∉ ["__lrid", "__rrid"])) =
        cols.map fun c => (newName names c, mk c) := by
    intro mk names name cols hname hcols
    have hkeep : ∀ e ∈ cols.map (fun c => (newName names c, mk c)),
        decide (e.1 ∉ ["__lrid", "__rrid"]) = true := by
      intro e he
      obtain ⟨c, hc, rfl⟩ := List.mem_map.mp he
      simpa using hcols c hc
    rw [sideLayout, List.filter_append, List.filter_eq_self.mpr hkeep,
      List.filter_cons_of_neg (by simpa [or_iff_not_imp_left] using hname), List.filter_nil,
      List.append_nil]
  rw [stage_start, mergedSides, List.filter_append, leftSide, rightSide,
    hside _ _ _ _ (by simp) fun c hc => (newName_ne_id (h.leftFree c hc) _).1,
    hside _ _ _ _ (by simp) fun d hd => (newName_ne_id (h.rightFree d hd) _).2]

/-- The columns of the merge have different names. -/
theorem mergedSides_nodup (h : PlainSides keys L R) : (mergedSides keys L R).columns.Nodup := by
  have hstart := stage_nodup h (List.nil_append keys)
  have hcols : (mergedSides keys L R).columns.Perm
      ("__lrid" :: "__rrid" :: (stage keys [] keys L R).columns) := by
    have hmerged : (mergedSides keys L R).columns =
        (leftSide keys L).columns ++ (rightSide keys R).columns := List.map_append
    rw [hmerged, stage_start, leftSide, rightSide, sideLayout_columns, sideLayout_columns,
      Layout.columns, List.map_append, List.map_map, List.map_map, List.append_assoc,
      List.singleton_append]
    refine List.perm_middle.trans (.cons _ ?_)
    rw [← List.append_assoc]
    exact List.perm_append_singleton _ _
  rw [hcols.nodup_iff, List.nodup_cons, List.nodup_cons, List.mem_cons, not_or]
  have hids : ∀ n ∈ (stage keys [] keys L R).columns, n ≠ "__lrid" ∧ n ≠ "__rrid" := by
    intro n hn
    rw [← drop_ids h] at hn
    obtain ⟨e, he, rfl⟩ := List.mem_map.mp hn
    have hnot := of_decide_eq_true (List.mem_filter.mp he).2
    simpa using hnot
  exact ⟨⟨by decide, fun hn => (hids _ hn).1 rfl⟩, fun hn => (hids _ hn).2 rfl, hstart⟩

theorem numbered_self (num : Nat → V) (name : String) (x : Row V × Nat) :
    numbered num name x name = some (num x.2) := if_pos rfl

/-- The pairs of numbered rows, and the rows alone. -/
def idSpec (test : Row V → Row V → Bool) : JoinSpec (Row V × Nat) (Row V × Nat)
    (Option (Row V × Nat) × Option (Row V × Nat)) where
  test a b := test a.1 b.1
  pair a b := (some a, some b)
  left a := (some a, none)
  right b := (none, some b)

/-- A pair with the row numbers in their columns. -/
def numberedPair (num : Nat → V) (o : Option (Row V × Nat) × Option (Row V × Nat)) :
    Row V × Row V :=
  (o.1.elim nullRow (numbered num "__lrid"), o.2.elim nullRow (numbered num "__rrid"))

/-- A pair without the row numbers. -/
def plainPair (o : Option (Row V × Nat) × Option (Row V × Nat)) : Row V × Row V :=
  (o.1.elim nullRow Prod.fst, o.2.elim nullRow Prod.fst)

theorem leftSide_sources : ∀ e ∈ leftSide keys L, ∃ c, e.2 = .left c := by
  intro e he
  rcases List.mem_append.mp he with he | he
  · obtain ⟨c, -, rfl⟩ := List.mem_map.mp he
    exact ⟨c, rfl⟩
  · exact ⟨_, congrArg Prod.snd (List.mem_singleton.mp he)⟩

theorem rightSide_sources : ∀ e ∈ rightSide keys R, ∃ d, e.2 = .right d := by
  intro e he
  rcases List.mem_append.mp he with he | he
  · obtain ⟨d, -, rfl⟩ := List.mem_map.mp he
    exact ⟨d, rfl⟩
  · exact ⟨_, congrArg Prod.snd (List.mem_singleton.mp he)⟩

/-- The two sides of the merge have different columns, on either side and between them. -/
theorem sides_nodup (h : PlainSides keys L R) :
    (leftSide keys L).columns.Nodup ∧ (rightSide keys R).columns.Nodup ∧
      ∀ n ∈ (leftSide keys L).columns, n ∉ (rightSide keys R).columns := by
  have hmerged : (mergedSides keys L R).columns =
      (leftSide keys L).columns ++ (rightSide keys R).columns := List.map_append
  obtain ⟨hl, hr, hapart⟩ := List.nodup_append.mp (hmerged ▸ mergedSides_nodup h)
  exact ⟨hl, hr, fun n hn hn' => hapart n hn n hn' rfl⟩

/-- The left side as it goes into the merge. -/
theorem left_side_frame (h : PlainSides keys L R) (num : Nat → V) {left : Frame V}
    (hL : left.columns = L) :
    withRowIds num "__lrid" (renameColumns (tempNames tempLeft (keys.map Prod.fst)) left) =
      (leftSide keys L).frame
        (left.rows.zipIdx.map fun x => (numbered num "__lrid" x, nullRow)) := by
  subst hL
  refine side_frame (fun r => (r, nullRow)) (fun c r => rfl) num (sides_nodup h).1 fun hm => ?_
  exact h.leftFree _ hm (.inl rfl)

theorem right_side_frame (h : PlainSides keys L R) (num : Nat → V) {right : Frame V}
    (hR : right.columns = R) :
    withRowIds num "__rrid" (renameColumns (tempNames tempRight (keys.map Prod.snd)) right) =
      (rightSide keys R).frame
        (right.rows.zipIdx.map fun x => (nullRow, numbered num "__rrid" x)) := by
  subst hR
  refine side_frame (fun r => (nullRow, r)) (fun c r => rfl) num (sides_nodup h).2.1
    fun hm => ?_
  exact h.rightFree _ hm (.inr (.inl rfl))

theorem mem_residualKeys {k : String × String} (hk : k ∈ residualKeys keys) :
    k.1 ∈ keys.map Prod.fst ∧ k.2 ∈ keys.map Prod.snd := by
  have hkeep : ∀ (ks : List String) (c : String), c ∈ keepFirst id ks ↔ c ∈ ks :=
    fun ks c => mem_keepFirst_iff fun _ _ _ _ h => h
  have hmem := List.of_mem_zip hk
  exact ⟨(hkeep _ _).mp hmem.1, (hkeep _ _).mp hmem.2⟩

/-- A key under its temporary name. -/
theorem leftSide_cell (h : PlainSides keys L R) (num : Nat → V) {c : String} (hc : c ∈ L)
    (a : Row V × Nat) (r : Row V) :
    (leftSide keys L).row (numbered num "__lrid" a) r
      (newName (tempNames tempLeft (keys.map Prod.fst)) c) = a.1 c := by
  have hentry : (newName (tempNames tempLeft (keys.map Prod.fst)) c, Source.left c) ∈
      leftSide keys L := List.mem_append_left _ (List.mem_map.mpr ⟨c, hc, rfl⟩)
  refine (Layout.row_of_mem (sides_nodup h).1 hentry _ _).trans (if_neg ?_)
  rintro rfl
  exact h.leftFree _ hc (.inl rfl)

theorem rightSide_cell (h : PlainSides keys L R) (num : Nat → V) {d : String} (hd : d ∈ R)
    (l : Row V) (b : Row V × Nat) :
    (rightSide keys R).row l (numbered num "__rrid" b)
      (newName (tempNames tempRight (keys.map Prod.snd)) d) = b.1 d := by
  have hentry : (newName (tempNames tempRight (keys.map Prod.snd)) d, Source.right d) ∈
      rightSide keys R := List.mem_append_left _ (List.mem_map.mpr ⟨d, hd, rfl⟩)
  refine (Layout.row_of_mem (sides_nodup h).2.1 hentry _ _).trans (if_neg ?_)
  rintro rfl
  exact h.rightFree _ hd (.inr (.inl rfl))

/-- The keys of the merge. -/
def tempJoin (V : Type) (keys : List (String × String)) : JoinOn V :=
  ⟨(tempNames tempLeft (keys.map Prod.fst)).entries.map Prod.snd,
    (tempNames tempRight (keys.map Prod.snd)).entries.map Prod.snd, .inner, none, false⟩

/-- The temporary keys are the keys of the dictionaries under their new names. -/
theorem keyPairs_tempJoin : keyPairs (tempJoin V keys) = (residualKeys keys).map
    (Prod.map (newName (tempNames tempLeft (keys.map Prod.fst)))
      (newName (tempNames tempRight (keys.map Prod.snd)))) := by
  refine (if_neg fun h => nomatch h).trans ?_
  rw [tempJoin, tempNames_values, tempNames_values, List.zip_map]
  rfl

theorem residualKeys_columns (h : PlainSides keys L R) {k : String × String}
    (hk : k ∈ residualKeys keys) : k.1 ∈ L ∧ k.2 ∈ R := by
  obtain ⟨hl, hr⟩ := mem_residualKeys hk
  obtain ⟨k₁, hk₁, he₁⟩ := List.mem_map.mp hl
  obtain ⟨k₂, hk₂, he₂⟩ := List.mem_map.mp hr
  exact ⟨he₁ ▸ (h.keys k₁ hk₁).1, he₂ ▸ (h.keys k₂ hk₂).2⟩

/-- The keys of the merge are columns of its sides, and nothing else is on both. -/
theorem tempJoin_layout (h : PlainSides keys L R) :
    layout id id (keyPairs (tempJoin V keys)) (mergeOverlap id id (keyPairs (tempJoin V keys))
      (leftSide keys L).columns (rightSide keys R).columns) (leftSide keys L).columns
        (rightSide keys R).columns =
          beside (leftSide keys L).columns (rightSide keys R).columns := by
  refine layout_apart (sides_nodup h).2.2 fun k hk => ?_
  rw [keyPairs_tempJoin] at hk
  obtain ⟨k', hk', rfl⟩ := List.mem_map.mp hk
  obtain ⟨hl, hr⟩ := residualKeys_columns h hk'
  rw [leftSide, rightSide, sideLayout_columns, sideLayout_columns]
  exact ⟨List.mem_append_left _ (List.mem_map_of_mem hl),
    List.mem_append_left _ (List.mem_map_of_mem hr)⟩

theorem merged_row (h : PlainSides keys L R) (l r : Row V) :
    (beside (leftSide keys L).columns (rightSide keys R).columns).row
      ((leftSide keys L).row l nullRow) ((rightSide keys R).row nullRow r) =
        (mergedSides keys L R).row l r :=
  row_side_by_side (mergedSides_nodup h) leftSide_sources rightSide_sources l r

theorem merged_left (h : PlainSides keys L R) (l : Row V) :
    (beside (leftSide keys L).columns (rightSide keys R).columns).row
      ((leftSide keys L).row l nullRow) nullRow = (mergedSides keys L R).row l nullRow := by
  have hrow := merged_row h l nullRow
  rw [row_nullRow (rightSide keys R)] at hrow
  exact hrow

theorem merged_right (h : PlainSides keys L R) (r : Row V) :
    (beside (leftSide keys L).columns (rightSide keys R).columns).row nullRow
      ((rightSide keys R).row nullRow r) = (mergedSides keys L R).row nullRow r := by
  have hrow := merged_row h nullRow r
  rw [row_nullRow (leftSide keys L)] at hrow
  exact hrow

variable [DecidableEq V]

/-- The temporary keys compare what the keys of the dictionaries compare. -/
theorem sameKeys_temp (h : PlainSides keys L R) (num : Nat → V) (a b : Row V × Nat) :
    sameKeys (keyPairs (tempJoin V keys))
      ((leftSide keys L).row (numbered num "__lrid" a) nullRow)
      ((rightSide keys R).row nullRow (numbered num "__rrid" b)) =
        sameKeys (residualKeys keys) a.1 b.1 := by
  rw [keyPairs_tempJoin, sameKeys, sameKeys, List.all_map, Bool.eq_iff_iff, List.all_eq_true,
    List.all_eq_true]
  refine forall₂_congr fun k hk => ?_
  obtain ⟨hl, hr⟩ := residualKeys_columns h hk
  rw [Function.comp_apply, Prod.map_fst, Prod.map_snd, leftSide_cell h num hl,
    rightSide_cell h num hr]

/-- **The merge of the two sides**: the pairs of numbered rows whose dictionary keys are equal. -/
theorem merge_sides (S : Scalars V) (h : PlainSides keys L R) (num : Nat → V)
    (as bs : List (Row V × Nat)) {m : Frame V} :
    mergeFrames S (tempJoin V keys) id id
      ((leftSide keys L).frame (as.map fun x => (numbered num "__lrid" x, nullRow)))
      ((rightSide keys R).frame (bs.map fun x => (nullRow, numbered num "__rrid" x))) = .ok m ↔
      m = (mergedSides keys L R).frame
        (((idSpec (sameKeys (residualKeys keys))).inner as bs).map (numberedPair num)) := by
  have hcols : (beside (leftSide keys L).columns (rightSide keys R).columns).columns =
      (mergedSides keys L R).columns := (columns_beside _ _).trans List.map_append.symm
  have hchecked : (mergedSides keys L R).columns.Nodup ∧
      checkOption (mergedSides keys L R).columns (tempJoin V keys).onPredicate = .ok () :=
    ⟨mergedSides_nodup h, rfl⟩
  have hlay : layout id id (keyPairs (tempJoin V keys)) (mergeOverlap id id
      (keyPairs (tempJoin V keys))
      ((leftSide keys L).frame (as.map fun x => (numbered num "__lrid" x, nullRow))).columns
      ((rightSide keys R).frame (bs.map fun x => (nullRow, numbered num "__rrid" x))).columns)
      ((leftSide keys L).frame (as.map fun x => (numbered num "__lrid" x, nullRow))).columns
      ((rightSide keys R).frame (bs.map fun x => (nullRow, numbered num "__rrid" x))).columns =
        beside (leftSide keys L).columns (rightSide keys R).columns := tempJoin_layout h
  rw [mergeFrames_ok hlay, hcols, and_iff_right hchecked, Layout.frame_rows, Layout.frame_rows,
    List.map_map, List.map_map, Layout.frame, List.map_map]
  -- both sides pair the numbered rows by their keys
  have hrun : ((beside (leftSide keys L).columns (rightSide keys R).columns).spec fun l r =>
      sameKeys (keyPairs (tempJoin V keys)) l r && true).run false false
        (as.map fun x => (leftSide keys L).row (numbered num "__lrid" x) nullRow)
        (bs.map fun x => (rightSide keys R).row nullRow (numbered num "__rrid" x)) =
      ((idSpec (sameKeys (residualKeys keys))).run false false as bs).map fun o =>
        (mergedSides keys L R).row (numberedPair num o).1 (numberedPair num o).2 :=
    JoinSpec.run_map _ (fun a b => (Bool.and_true _).trans (sameKeys_temp h num a b))
      (fun a b => merged_row h _ _) (fun a => merged_left h _) (fun b => merged_right h _)
      false false as bs
  have hplain : (idSpec (sameKeys (residualKeys keys))).run false false as bs =
      (idSpec (sameKeys (residualKeys keys))).inner as bs := by
    rw [JoinSpec.run, if_neg Bool.false_ne_true, if_neg Bool.false_ne_true, List.append_nil,
      List.append_nil]
  rw [hplain] at hrun
  exact Eq.congr_right (congrArg (Frame.ofRows (mergedSides keys L R).columns) hrun)

end Pairs

/-! ## 3. The residual and the rows without a partner -/

section Rows
variable {keys : List (String × String)} {L R : List String}

/-- What a residual sees: the columns that are no keys. -/
theorem residualLayout_plain (h : PlainSides keys L R) :
    residualOverlap keys L R = [] ∧ residualLayout keys L R =
      beside (nonKeys keys Prod.fst L) (nonKeys keys Prod.snd R) := by
  have hover : residualOverlap keys L R = [] := by
    rw [List.eq_nil_iff_forall_not_mem]
    intro c hc
    obtain ⟨hl, hr⟩ := mem_residualOverlap.mp hc
    obtain ⟨hcl, hnot⟩ := mem_nonKeys.mp hl
    exact hnot _ (h.shared c hcl (mem_nonKeys.mp hr).1) rfl
  refine ⟨hover, ?_⟩
  have hall : (nonKeys keys Prod.snd R).filter (fun d => !absorbed id id [] d) =
      nonKeys keys Prod.snd R := List.filter_eq_self.mpr fun d _ => rfl
  rw [residualLayout, hover, layout, hall]
  rfl

theorem residualLayout_nodup (h : PlainSides keys L R) :
    (residualLayout keys L R).columns.Nodup := by
  rw [(residualLayout_plain h).2, columns_beside, List.nodup_append]
  refine ⟨h.left.filter _, h.right.filter _, ?_⟩
  rintro c hc _ hd rfl
  obtain ⟨hcl, hnot⟩ := mem_nonKeys.mp hc
  exact hnot _ (h.shared c hcl (mem_nonKeys.mp hd).1) rfl

/-- A column keeps a name that is not reserved when it is no key. -/
theorem newName_eq_free {temp : Nat → String} {side : String × String → String} {n c : String}
    (hn : ∀ i, n ≠ temp i) :
    newName (tempNames temp (keys.map side)) c = n ↔ c = n ∧ ∀ k ∈ keys, side k ≠ c := by
  have hkey : c ∉ keys.map side ↔ ∀ k ∈ keys, side k ≠ c := by simp
  rcases newName_cases temp (keys.map side) c with ⟨hc, he⟩ | ⟨hc, i, -, he⟩
  · rw [he]
    exact (and_iff_left (hkey.mp hc)).symm
  · rw [he]
    exact ⟨fun h => absurd h.symm (hn i), fun h => absurd hc (hkey.mpr h.2)⟩

/-- The merge has a name that is not reserved where the residual sees it. -/
theorem mem_mergedSides {n : String} {s : Source} (hn : ¬Reserved n) :
    (n, s) ∈ mergedSides keys L R ↔
      (n, s) ∈ beside (nonKeys keys Prod.fst L) (nonKeys keys Prod.snd R) := by
  have hl : n ≠ "__lrid" := fun h => hn (.inl h)
  have hr : n ≠ "__rrid" := fun h => hn (.inr (.inl h))
  have hleft : ∀ c, newName (tempNames tempLeft (keys.map Prod.fst)) c = n ↔
      c = n ∧ ∀ k ∈ keys, k.1 ≠ c := fun c => newName_eq_free (not_temp hn).1
  have hright : ∀ d, newName (tempNames tempRight (keys.map Prod.snd)) d = n ↔
      d = n ∧ ∀ k ∈ keys, k.2 ≠ d := fun d => newName_eq_free (not_temp hn).2
  simp only [mergedSides, leftSide, rightSide, sideLayout, beside, List.mem_append, List.mem_map,
    List.mem_singleton, Prod.mk.injEq, hl, hr, false_and, or_false, hleft, hright, mem_nonKeys]
  constructor
  · rintro (⟨c, hc, ⟨rfl, hk⟩, rfl⟩ | ⟨d, hd, ⟨rfl, hk⟩, rfl⟩)
    · exact .inl ⟨c, ⟨hc, hk⟩, rfl, rfl⟩
    · exact .inr ⟨d, ⟨hd, hk⟩, rfl, rfl⟩
  · rintro (⟨c, ⟨hc, hk⟩, rfl, rfl⟩ | ⟨d, ⟨hd, hk⟩, rfl, rfl⟩)
    · exact .inl ⟨c, hc, ⟨rfl, hk⟩, rfl⟩
    · exact .inr ⟨d, hd, ⟨rfl, hk⟩, rfl⟩

/-- A name that is not reserved has the same cell in the merge and in what the residual sees. -/
theorem merged_cell (h : PlainSides keys L R) {n : String} (hn : ¬Reserved n) :
    (n ∈ (mergedSides keys L R).columns ↔ n ∈ (residualLayout keys L R).columns) ∧
      ∀ (num : Nat → V) (a b : Row V × Nat), (mergedSides keys L R).row (numbered num "__lrid" a)
        (numbered num "__rrid" b) n = (residualLayout keys L R).row a.1 b.1 n := by
  have hres := residualLayout_nodup h
  rw [(residualLayout_plain h).2] at hres ⊢
  have hmem : n ∈ (mergedSides keys L R).columns ↔
      n ∈ (beside (nonKeys keys Prod.fst L) (nonKeys keys Prod.snd R)).columns := by
    constructor
    · intro hm
      obtain ⟨⟨_, s⟩, he, rfl⟩ := List.mem_map.mp hm
      exact List.mem_map_of_mem ((mem_mergedSides hn).mp he)
    · intro hm
      obtain ⟨⟨_, s⟩, he, rfl⟩ := List.mem_map.mp hm
      exact List.mem_map_of_mem ((mem_mergedSides hn).mpr he)
  refine ⟨hmem, fun num a b => ?_⟩
  by_cases hm : n ∈ (beside (nonKeys keys Prod.fst L) (nonKeys keys Prod.snd R)).columns
  · obtain ⟨⟨_, s⟩, he, rfl⟩ := List.mem_map.mp hm
    refine (Layout.row_of_mem (mergedSides_nodup h) ((mem_mergedSides hn).mpr he) _ _).trans ?_
    refine Eq.trans ?_ (Layout.row_of_mem hres he _ _).symm
    rcases List.mem_append.mp he with he | he
    · obtain ⟨c, -, he⟩ := List.mem_map.mp he
      cases he
      exact if_neg fun h => hn (.inl h)
    · obtain ⟨d, -, he⟩ := List.mem_map.mp he
      cases he
      exact if_neg fun h => hn (.inr (.inl h))
  · rw [Layout.row_notMem hm, Layout.row_notMem fun h => hm (hmem.mp h)]

theorem resolve_free {cols cols' : List String} (hcols : ∀ n, ¬Reserved n → (n ∈ cols ↔ n ∈ cols'))
    {x : String × Option String}
    (hx : ¬Reserved x.1 ∧ ∀ t, x.2 = some t → ¬Reserved (qualified t x.1)) :
    resolve cols x.1 x.2 = resolve cols' x.1 x.2 ∧
      ∀ n, resolve cols x.1 x.2 = some n → ¬Reserved n := by
  obtain ⟨n, t⟩ := x
  have hbare : ∀ m, (if n ∈ cols then some n else none) = some m → ¬Reserved m := by
    intro m hm
    split at hm
    · cases hm
      exact hx.1
    · cases hm
  cases t with
  | none =>
    simp only [resolve, hcols n hx.1]
    exact ⟨trivial, by simpa only [hcols n hx.1] using hbare⟩
  | some t =>
    have hq := hx.2 t rfl
    simp only [resolve, hcols n hx.1, hcols _ hq]
    refine ⟨trivial, fun m hm => ?_⟩
    split at hm
    · cases hm
      exact hq
    · simp only [← hcols n hx.1] at hm
      exact hbare m hm

/-- **The residual on the merge is the residual on the columns that are no keys.** -/
theorem residual_merged (S : Scalars V) (h : PlainSides keys L R) {p : Expr V} (hp : PlainRefs p) :
    (p.check (mergedSides keys L R).columns = .ok () ↔
      p.check (residualLayout keys L R).columns = .ok ()) ∧
    ∀ (num : Nat → V) (a b : Row V × Nat), p.value S (mergedSides keys L R).columns
      ((mergedSides keys L R).row (numbered num "__lrid" a) (numbered num "__rrid" b)) =
      p.value S (residualLayout keys L R).columns ((residualLayout keys L R).row a.1 b.1) := by
  have hres : ∀ x ∈ p.refs, resolve (mergedSides keys L R).columns x.1 x.2 =
      resolve (residualLayout keys L R).columns x.1 x.2 ∧
        ∀ n, resolve (mergedSides keys L R).columns x.1 x.2 = some n → ¬Reserved n :=
    fun x hx => resolve_free (fun n hn => (merged_cell (V := V) h hn).1) (hp x hx)
  constructor
  · rw [Expr.check_ok, Expr.check_ok, Expr.Known, Expr.Known]
    refine and_congr_left' (forall₂_congr fun x hx => ?_)
    rw [(hres x hx).1]
  · intro num a b
    refine Expr.value_congr fun x hx => ?_
    rw [← (hres x hx).1]
    cases hx' : resolve (mergedSides keys L R).columns x.1 x.2 with
    | none => rfl
    | some n => exact (merged_cell h ((hres x hx).2 n hx')).2 num a b

/-- The rows of a side whose number is in no pair, padded with NULLs. -/
theorem lone_rows {num : Nat → V} {name : String} {keep target : List String} {side : Frame V}
    {xs : List (Row V × Nat)} (view : Row V × Nat → Row V) {padded : Row V × Nat → Row V}
    {ids : List (Cell V)} {hit : Row V × Nat → Bool} [DecidableEq V]
    (hside : side.rows = xs.map view) (hid : ∀ x, view x name = some (num x.2))
    (hhit : ∀ x ∈ xs, some (num x.2) ∈ ids ↔ hit x = true)
    (hpad : ∀ x, restrict target (restrict keep (view x)) = padded x) :
    (nullPadRows (side.filter fun r => decide (r name ∉ ids)) keep target).rows =
      (xs.filter fun x => !hit x).map padded := by
  rw [nullPadRows, Frame.ofRows_rows, Frame.filter_rows, hside, List.filter_map, List.map_map,
    List.map_map]
  have hfilter : xs.filter ((fun r => decide (r name ∉ ids)) ∘ view) = xs.filter fun x => !hit x :=
    List.filter_congr fun x hx => by
      rw [Function.comp_apply, hid, Bool.eq_iff_iff, decide_eq_true_eq, hhit x hx,
        Bool.not_eq_true', Bool.not_eq_true]
  rw [hfilter]
  exact List.map_congr_left fun x _ => hpad x

variable [DecidableEq V] {S : Scalars V} {p : Expr V}

/-- A pair of rows that `_outer_join_with_predicate` keeps. -/
def satisfied (S : Scalars V) (keys : List (String × String)) (p : Expr V) (L R : List String)
    (l r : Row V) : Bool :=
  sameKeys (residualKeys keys) l r &&
    S.holds (p.value S (residualLayout keys L R).columns ((residualLayout keys L R).row l r))

/-- **The satisfied rows**: the residual is evaluated when there are pairs, and filters them. -/
theorem satisfied_frame (h : PlainSides keys L R) (hp : PlainRefs p) (num : Nat → V)
    (as bs : List (Row V × Nat)) {m sat : Frame V}
    (hm : m = (mergedSides keys L R).frame
      (((idSpec (sameKeys (residualKeys keys))).inner as bs).map (numberedPair num))) :
    satisfiedRows S p m = .ok sat ↔
      ((∃ a ∈ as, ∃ b ∈ bs, sameKeys (residualKeys keys) a.1 b.1 = true) →
        p.check (residualLayout keys L R).columns = .ok ()) ∧
      sat = (mergedSides keys L R).frame
        (((idSpec (satisfied S keys p L R)).inner as bs).map (numberedPair num)) := by
  rw [satisfiedRows]
  obtain ⟨hcheck, hvalue⟩ := residual_merged S h hp
  have hpairs : m.rows.isEmpty = true ↔
      ¬∃ a ∈ as, ∃ b ∈ bs, sameKeys (residualKeys keys) a.1 b.1 = true := by
    rw [hm, Layout.frame_rows, List.isEmpty_iff, List.map_eq_nil_iff, List.map_eq_nil_iff,
      JoinSpec.inner, List.flatMap_eq_nil_iff]
    simp only [List.map_eq_nil_iff, List.filter_eq_nil_iff, not_exists, not_and]
    rfl
  have hfilter : m.filter (fun r => S.holds (p.value S m.columns r)) =
      (mergedSides keys L R).frame
        (((idSpec (satisfied S keys p L R)).inner as bs).map (numberedPair num)) := by
    subst hm
    refine Frame.ext rfl ?_
    rw [Frame.filter_rows, Layout.frame_rows, Layout.frame_rows, List.filter_map, List.filter_map]
    refine congrArg _ (congrArg _ (JoinSpec.inner_filter_pair (fun a b => ?_) ?_ as bs))
    · exact congrArg (sameKeys (residualKeys keys) a.1 b.1 && ·)
        (congrArg S.holds (hvalue num a b).symm)
    · rfl
  by_cases hempty : m.rows.isEmpty = true
  · -- there is no pair, and the filter of no rows is no rows
    have hself : m.filter (fun r => S.holds (p.value S m.columns r)) = m := by
      refine Frame.ext rfl ?_
      rw [Frame.filter_rows, List.isEmpty_iff.mp hempty, List.filter_nil]
    rw [if_pos hempty, ← hfilter, hself]
    constructor
    · intro he
      cases he
      exact ⟨fun hex => absurd hex (hpairs.mp hempty), rfl⟩
    · rintro ⟨-, rfl⟩
      rfl
  · have hex := not_not.mp fun hno => hempty (hpairs.mpr hno)
    have hcols : m.columns = (mergedSides keys L R).columns := by rw [hm]; rfl
    rw [if_neg hempty, ← hfilter, filterFrame, bind_eq_ok]
    constructor
    · rintro ⟨_, hc, he⟩
      cases he
      rw [hcols] at hc
      exact ⟨fun _ => hcheck.mp hc, rfl⟩
    · rintro ⟨hc, rfl⟩
      refine ⟨(), ?_, rfl⟩
      rw [hcols]
      exact hcheck.mpr (hc hex)

omit [DecidableEq V] in
/-- The numbers of the left rows among the pairs are those of the rows with a partner. -/
theorem left_ids (h : PlainSides keys L R) {num : Nat → V} (hnum : Function.Injective num)
    (test : Row V → Row V → Bool) {rows : List (Row V)} (bs : List (Row V × Nat)) {x : Row V × Nat}
    (hx : x ∈ rows.zipIdx) :
    some (num x.2) ∈ rowIds "__lrid" ((mergedSides keys L R).frame
      (((idSpec test).inner rows.zipIdx bs).map (numberedPair num))) ↔
        bs.any ((idSpec test).test x) = true := by
  have hentry : ("__lrid", Source.left "__lrid") ∈ mergedSides keys L R :=
    List.mem_append_left _ (List.mem_append_right _ (List.mem_singleton_self _))
  have hcell : ∀ (a : Row V × Nat) (r : Row V), (mergedSides keys L R).row
      (numbered num "__lrid" a) r "__lrid" = some (num a.2) := fun a r =>
    (Layout.row_of_mem (mergedSides_nodup h) hentry _ _).trans (numbered_self ..)
  have hmem : "__lrid" ∈ ((mergedSides keys L R).frame
      (((idSpec test).inner rows.zipIdx bs).map (numberedPair num))).columns :=
    List.mem_map_of_mem hentry
  rw [rowIds, if_pos hmem, Layout.frame_rows, List.map_map, List.map_map, List.any_eq_true,
    List.mem_map]
  constructor
  · rintro ⟨o, ho, he⟩
    obtain ⟨a, ha, ho⟩ := List.mem_flatMap.mp ho
    obtain ⟨b, hb, rfl⟩ := List.mem_map.mp ho
    have hnumber : a.2 = x.2 := hnum (Option.some.inj ((hcell a _).symm.trans he))
    obtain rfl := zipIdx_ext ha hx hnumber
    exact ⟨b, List.mem_filter.mp hb⟩
  · rintro ⟨b, hb, ht⟩
    exact ⟨_, List.mem_flatMap.mpr ⟨x, hx, List.mem_map_of_mem (List.mem_filter.mpr ⟨hb, ht⟩)⟩,
      hcell x _⟩

omit [DecidableEq V] in
theorem right_ids (h : PlainSides keys L R) {num : Nat → V} (hnum : Function.Injective num)
    (test : Row V → Row V → Bool) (as : List (Row V × Nat)) {rows : List (Row V)} {x : Row V × Nat}
    (hx : x ∈ rows.zipIdx) :
    some (num x.2) ∈ rowIds "__rrid" ((mergedSides keys L R).frame
      (((idSpec test).inner as rows.zipIdx).map (numberedPair num))) ↔
        as.any (fun a => (idSpec test).test a x) = true := by
  have hentry : ("__rrid", Source.right "__rrid") ∈ mergedSides keys L R :=
    List.mem_append_right _ (List.mem_append_right _ (List.mem_singleton_self _))
  have hcell : ∀ (l : Row V) (b : Row V × Nat), (mergedSides keys L R).row l
      (numbered num "__rrid" b) "__rrid" = some (num b.2) := fun l b =>
    (Layout.row_of_mem (mergedSides_nodup h) hentry _ _).trans (numbered_self ..)
  have hmem : "__rrid" ∈ ((mergedSides keys L R).frame
      (((idSpec test).inner as rows.zipIdx).map (numberedPair num))).columns :=
    List.mem_map_of_mem hentry
  rw [rowIds, if_pos hmem, Layout.frame_rows, List.map_map, List.map_map, List.any_eq_true,
    List.mem_map]
  constructor
  · rintro ⟨o, ho, he⟩
    obtain ⟨a, ha, ho⟩ := List.mem_flatMap.mp ho
    obtain ⟨b, hb, rfl⟩ := List.mem_map.mp ho
    have hnumber : b.2 = x.2 := hnum (Option.some.inj ((hcell _ b).symm.trans he))
    obtain rfl := zipIdx_ext (List.mem_filter.mp hb).1 hx hnumber
    exact ⟨a, ha, (List.mem_filter.mp hb).2⟩
  · rintro ⟨a, ha, ht⟩
    exact ⟨_, List.mem_flatMap.mpr ⟨a, ha, List.mem_map_of_mem (List.mem_filter.mpr ⟨hx, ht⟩)⟩,
      hcell _ x⟩

omit [DecidableEq V] in
/-- A row of a side, padded to the columns of the merge. -/
theorem padded_left (h : PlainSides keys L R) (l : Row V) :
    restrict (mergedSides keys L R).columns (restrict (leftSide keys L).columns
      ((leftSide keys L).row l nullRow)) = (mergedSides keys L R).row l nullRow := by
  funext n
  by_cases hn : n ∈ (mergedSides keys L R).columns
  · rw [restrict_mem hn]
    obtain ⟨e, he, rfl⟩ := List.mem_map.mp hn
    rw [Layout.row_of_mem (mergedSides_nodup h) he]
    rcases List.mem_append.mp he with he | he
    · have hin : e.1 ∈ (leftSide keys L).columns := List.mem_map_of_mem he
      rw [restrict_mem hin, Layout.row_of_mem (sides_nodup h).1 he]
    · obtain ⟨d, hd⟩ := rightSide_sources e he
      have hout : e.1 ∉ (leftSide keys L).columns := fun hin =>
        (sides_nodup h).2.2 e.1 hin (List.mem_map_of_mem he)
      rw [restrict_notMem hout, hd]
      rfl
  · rw [restrict_notMem hn, Layout.row_notMem hn]

omit [DecidableEq V] in
theorem padded_right (h : PlainSides keys L R) (r : Row V) :
    restrict (mergedSides keys L R).columns (restrict (rightSide keys R).columns
      ((rightSide keys R).row nullRow r)) = (mergedSides keys L R).row nullRow r := by
  funext n
  by_cases hn : n ∈ (mergedSides keys L R).columns
  · rw [restrict_mem hn]
    obtain ⟨e, he, rfl⟩ := List.mem_map.mp hn
    rw [Layout.row_of_mem (mergedSides_nodup h) he]
    rcases List.mem_append.mp he with he | he
    · obtain ⟨c, hc⟩ := leftSide_sources e he
      have hout : e.1 ∉ (rightSide keys R).columns :=
        (sides_nodup h).2.2 e.1 (List.mem_map_of_mem he)
      rw [restrict_notMem hout, hc]
      rfl
    · have hin : e.1 ∈ (rightSide keys R).columns := List.mem_map_of_mem he
      rw [restrict_mem hin, Layout.row_of_mem (sides_nodup h).2.1 he]
  · rw [restrict_notMem hn, Layout.row_notMem hn]

/-- **The rows after the concatenation**: the pairs, and the rows of the preserved sides without a
partner. -/
theorem padded_frame (h : PlainSides keys L R) {num : Nat → V} (hnum : Function.Injective num)
    (test : Row V → Row V → Bool) (how : JoinHow) (ls rs : List (Row V)) {sat lr rr : Frame V}
    (hsat : sat = (mergedSides keys L R).frame
      (((idSpec test).inner ls.zipIdx rs.zipIdx).map (numberedPair num)))
    (hlr : lr = (leftSide keys L).frame
      (ls.zipIdx.map fun x => (numbered num "__lrid" x, nullRow)))
    (hrr : rr = (rightSide keys R).frame
      (rs.zipIdx.map fun x => (nullRow, numbered num "__rrid" x))) :
    concatPieces how lr rr sat = (mergedSides keys L R).frame
      (((idSpec test).run how.keepsLeft how.keepsRight ls.zipIdx rs.zipIdx).map
        (numberedPair num)) := by
  rw [concatPieces]
  have hleft : (nullPadRows (lr.filter fun r => decide (r "__lrid" ∉ rowIds "__lrid" sat))
      lr.columns sat.columns).rows = ((idSpec test).loneLeft ls.zipIdx rs.zipIdx).map fun o =>
        (mergedSides keys L R).row (numberedPair num o).1 (numberedPair num o).2 := by
    rw [JoinSpec.loneLeft, List.map_map, hlr, hsat]
    refine lone_rows (fun x => (leftSide keys L).row (numbered num "__lrid" x) nullRow) ?_
      (fun x => ?_) (fun x hx => left_ids h hnum test _ hx) fun x => padded_left h _
    · rw [Layout.frame_rows, List.map_map]
      rfl
    · have hentry : ("__lrid", Source.left "__lrid") ∈ leftSide keys L :=
        List.mem_append_right _ (List.mem_singleton_self _)
      exact (Layout.row_of_mem (sides_nodup h).1 hentry _ _).trans (numbered_self ..)
  have hright : (nullPadRows (rr.filter fun r => decide (r "__rrid" ∉ rowIds "__rrid" sat))
      rr.columns sat.columns).rows = ((idSpec test).loneRight ls.zipIdx rs.zipIdx).map fun o =>
        (mergedSides keys L R).row (numberedPair num o).1 (numberedPair num o).2 := by
    rw [JoinSpec.loneRight, List.map_map, hrr, hsat]
    refine lone_rows (fun x => (rightSide keys R).row nullRow (numbered num "__rrid" x)) ?_
      (fun x => ?_) (fun x hx => right_ids h hnum test _ hx) fun x => padded_right h _
    · rw [Layout.frame_rows, List.map_map]
      rfl
    · have hentry : ("__rrid", Source.right "__rrid") ∈ rightSide keys R :=
        List.mem_append_right _ (List.mem_singleton_self _)
      exact (Layout.row_of_mem (sides_nodup h).2.1 hentry _ _).trans (numbered_self ..)
  have hcols : sat.columns = (mergedSides keys L R).columns := by rw [hsat]; rfl
  have hrows : sat.rows = ((idSpec test).inner ls.zipIdx rs.zipIdx).map fun o =>
      (mergedSides keys L R).row (numberedPair num o).1 (numberedPair num o).2 := by
    rw [hsat, Layout.frame_rows, List.map_map]
    rfl
  rw [hleft, hright, hrows, hcols, Layout.frame, List.map_map, JoinSpec.run, List.map_append,
    List.map_append]
  cases how.keepsLeft <;> cases how.keepsRight <;> rfl

end Rows

end RyuDB.Sql
