/-
# The steps of an outer join with a residual

`Engine._outer_join_with_predicate`, step by step.  The keys of both sides get temporary names, the
rows of both sides get numbers, the sides are merged, the residual filters the pairs, the rows whose
number is in no pair are padded with NULLs and appended, the numbers are dropped, and
`_restore_join_keys` gives the keys their names back, one pair of keys after the other.

Each step turns the frame of a layout into the frame of another layout over the same pairs of rows
(`Layout.frame`).  `restoreJoinKeys_ok` is the loop that restores the keys: after each turn the
columns are those of the next `stage`, and at the end no key has a temporary name.

The columns of the two sides and the references of the residual are asked not to be `Reserved`.  That
excludes the two numbers, and the temporary names of a key for every place, `__ryu_l0`, `__ryu_l1` and
so on, although a join of two keys uses only the first two.  A column called `__ryu_l7` would do no harm
there, and the condition could name the number of keys; it does not, so that it says the same for every
join and survives a join that gets one more key.
-/
import RyuDB.SemiAnti

namespace RyuDB.Sql

variable {V : Type}

/-! ## 1. The steps -/

/-- `f"__ryu_l{i}"`. -/
def tempLeft (i : Nat) : String := "__ryu_l" ++ toString i

/-- `f"__ryu_r{i}"`. -/
def tempRight (i : Nat) : String := "__ryu_r" ++ toString i

/-- `{k: f"...{i}" for i, k in enumerate(keys)}`. -/
def tempNames (temp : Nat → String) (keys : List String) : Dict String String :=
  keys.zipIdx.foldl (fun d k => d.set k.1 (temp k.2)) ∅

/-- The new name of a column. -/
def newName (names : Dict String String) (c : String) : String := (names.get? c).getD c

/-- `f.rename(columns=names)`. -/
def renameColumns (names : Dict String String) (f : Frame V) : Frame V :=
  relabel (f.columns.map (newName names)) f

/-- A row with its number, as the value `num i`, in a column. -/
def numbered (num : Nat → V) (name : String) (x : Row V × Nat) : Row V :=
  fun c => if c = name then some (num x.2) else x.1 c

/-- `f[name] = range(len(f))`. -/
def withRowIds (num : Nat → V) (name : String) (f : Frame V) : Frame V :=
  .ofRows (addColumn f.columns name) (f.rows.zipIdx.map (numbered num name))

/-- `f[name] if name in f.columns else []`. -/
def rowIds (name : String) (f : Frame V) : List (Cell V) :=
  if name ∈ f.columns then f.rows.map fun r => r name else []

/-- `_null_pad_rows`. -/
def nullPadRows (sub : Frame V) (keep target : List String) : Frame V :=
  .ofRows target (sub.rows.map (restrict keep))

/-- `f.drop(columns=names)`. -/
def dropColumns (names : List String) (f : Frame V) : Frame V :=
  .ofRows (f.columns.filter (· ∉ names)) f.rows

/-- One turn of the loop in `_restore_join_keys`. -/
def restoreKey (m : Frame V) (k : (String × String) × Nat) : Except DbError (Frame V) :=
  let lc := tempLeft k.2
  let rc := tempRight k.2
  if k.1.1 = k.1.2 then
    if lc ∉ m.columns then .error (.key (pyRepr lc))
    else if rc ∉ m.columns then .error (.key (pyRepr rc))
    else
      let filled := withColumn m lc fun r => (r lc).or (r rc)
      .ok (renameColumns ((∅ : Dict _ _).set lc k.1.1) (dropColumns [rc] filled))
  else .ok (renameColumns (((∅ : Dict _ _).set lc k.1.1).set rc k.1.2) m)

/-- `_restore_join_keys`. -/
def restoreJoinKeys (m : Frame V) (keys : List ((String × String) × Nat)) :
    Except DbError (Frame V) := keys.foldlM restoreKey m

/-- The satisfied rows: the residual is evaluated when the merge has rows, and filters them. -/
def satisfiedRows (S : Scalars V) (p : Expr V) (m : Frame V) : Except DbError (Frame V) :=
  if m.rows.isEmpty then .ok m else filterFrame S m p

/-- The concatenation of the satisfied rows and the padded rows of the preserved sides whose number
is in none of them. -/
def concatPieces [DecidableEq V] (how : JoinHow) (lr rr sat : Frame V) : Frame V :=
  let loneLeft := lr.filter fun r => decide (r "__lrid" ∉ rowIds "__lrid" sat)
  let loneRight := rr.filter fun r => decide (r "__rrid" ∉ rowIds "__rrid" sat)
  .ofRows sat.columns (sat.rows ++
    (if how.keepsLeft then (nullPadRows loneLeft lr.columns sat.columns).rows else []) ++
    (if how.keepsRight then (nullPadRows loneRight rr.columns sat.columns).rows else []))

/-- `Engine._outer_join_with_predicate`; `num` is the value of a row number. -/
def outerJoinById [DecidableEq V] (S : Scalars V) (num : Nat → V) (on : JoinOn V) (p : Expr V)
    (left right : Frame V) : Except DbError (Frame V) := do
  let lnames := tempNames tempLeft on.onLeft
  let rnames := tempNames tempRight on.onRight
  let lr := withRowIds num "__lrid" (renameColumns lnames left)
  let rr := withRowIds num "__rrid" (renameColumns rnames right)
  let inner : JoinOn V :=
    ⟨lnames.entries.map Prod.snd, rnames.entries.map Prod.snd, .inner, none, false⟩
  checkKeys inner lr.columns rr.columns
  let m ← mergeFrames S inner id id lr rr
  let sat ← satisfiedRows S p m
  let out := concatPieces on.how lr rr sat
  restoreJoinKeys (dropColumns ["__lrid", "__rrid"] out) (on.onLeft.zip on.onRight).zipIdx

/-- A name the steps use for themselves, whatever the number of keys. -/
def Reserved (c : String) : Prop :=
  c = "__lrid" ∨ c = "__rrid" ∨ (∃ i, c = tempLeft i) ∨ ∃ i, c = tempRight i

/-- No reference of a residual has a reserved name. -/
def PlainRefs (p : Expr V) : Prop :=
  ∀ x ∈ p.refs, ¬Reserved x.1 ∧ ∀ t, x.2 = some t → ¬Reserved (qualified t x.1)

/-! ## 2. The temporary names

`{k: f"__ryu_l{i}" for i, k in enumerate(keys)}` has one entry for each key, and a key that is listed
twice keeps the later name.  That is where the loss of a comparison comes from that `OuterResidual`
shows. -/

/-- The last place of a key. -/
def lastIdx : List String → String → Option Nat
  | [], _ => none
  | k :: ks, c =>
    match lastIdx ks c with
    | some i => some (i + 1)
    | none => if k = c then some 0 else none

theorem lastIdx_append (xs ys : List String) (c : String) : lastIdx (xs ++ ys) c =
    match lastIdx ys c with
    | some i => some (i + xs.length)
    | none => lastIdx xs c := by
  induction xs with
  | nil => cases h : lastIdx ys c <;> simp [h, lastIdx]
  | cons x xs ih =>
    rw [List.cons_append, lastIdx, ih]
    cases h : lastIdx ys c with
    | some i => simp [Nat.add_assoc]
    | none => rfl

theorem lastIdx_eq_none {c : String} : ∀ {xs : List String}, lastIdx xs c = none ↔ c ∉ xs
  | [] => by simp [lastIdx]
  | x :: xs => by
    have ih : lastIdx xs c = none ↔ c ∉ xs := lastIdx_eq_none
    rw [lastIdx, List.mem_cons, not_or]
    cases h : lastIdx xs c with
    | some i =>
      have hmem : ¬c ∉ xs := fun hc => by
        rw [ih.mpr hc] at h
        cases h
      simp [hmem]
    | none =>
      by_cases hx : x = c
      · simp [hx]
      · simp [hx, Ne.symm hx, ih.mp h]

/-- The key at its last place. -/
theorem getElem?_lastIdx {c : String} : ∀ {xs : List String} {i : Nat}, lastIdx xs c = some i →
    xs[i]? = some c
  | x :: xs, i, h => by
    rw [lastIdx] at h
    split at h
    · rename_i j hj
      cases h
      rw [List.getElem?_cons_succ]
      exact getElem?_lastIdx hj
    · split at h
      · rename_i hx
        cases h
        rw [List.getElem?_cons_zero, hx]
      · cases h

/-- A key that does not come again. -/
theorem lastIdx_here {xs ys : List String} {c : String} (h : c ∉ ys) :
    lastIdx (xs ++ c :: ys) c = some xs.length := by
  rw [lastIdx_append, lastIdx, lastIdx_eq_none.mpr h, if_pos rfl]
  simp

/-- A key that comes again. -/
theorem lastIdx_later (xs : List String) (x : String) {ys : List String} {c : String} (h : c ∈ ys) :
    ∃ i, lastIdx (xs ++ x :: ys) c = some i ∧ xs.length < i := by
  rw [lastIdx_append, lastIdx]
  cases hl : lastIdx ys c with
  | none => exact absurd h (lastIdx_eq_none.mp hl)
  | some j => exact ⟨j + 1 + xs.length, rfl, by omega⟩

/-- **The dictionary of the temporary names keeps the last place of a key.** -/
theorem tempNames_get? (temp : Nat → String) (keys : List String) (c : String) :
    (tempNames temp keys).get? c = (lastIdx keys c).map temp := by
  induction keys using List.reverseRecOn with
  | nil => rfl
  | append_singleton ks k ih =>
    rw [tempNames, List.zipIdx_append, List.foldl_append]
    change ((tempNames temp ks).set k (temp (0 + ks.length))).get? c = _
    rw [Dict.get?_set, ih, lastIdx_append, lastIdx, lastIdx, Nat.zero_add]
    by_cases hk : k = c
    · simp [hk]
    · simp [hk, Ne.symm hk]

theorem keepFirst_snoc (xs : List String) (x : String) : keepFirst id (xs ++ [x]) =
    if x ∈ xs then keepFirst id xs else keepFirst id xs ++ [x] := by
  induction xs with
  | nil => rfl
  | cons a xs ih =>
    rw [List.cons_append, keepFirst, keepFirst, ih]
    by_cases hx : x ∈ xs
    · rw [if_pos hx, if_pos (List.mem_cons_of_mem a hx)]
    · rw [if_neg hx, List.filter_append]
      by_cases ha : x = a
      · subst ha
        simp
      · rw [if_neg (by simp [ha, hx])]
        simp [ha]

/-- The dictionary lists the keys in the order they come first. -/
theorem tempNames_keys (temp : Nat → String) (keys : List String) :
    (tempNames temp keys).keys = keepFirst id keys := by
  induction keys using List.reverseRecOn with
  | nil => rfl
  | append_singleton ks k ih =>
    rw [tempNames, List.zipIdx_append, List.foldl_append]
    change ((tempNames temp ks).set k (temp (0 + ks.length))).keys = _
    have hkeys : ((tempNames temp ks).set k (temp (0 + ks.length))).keys =
        if k ∈ (tempNames temp ks).keys then (tempNames temp ks).keys
        else (tempNames temp ks).keys ++ [k] := Dict.fst_put _ _ _
    have hmem : k ∈ keepFirst id ks ↔ k ∈ ks := mem_keepFirst_iff fun _ _ _ _ h => h
    rw [hkeys, ih, keepFirst_snoc]
    simp only [hmem]

/-- The names in the order of the dictionary. -/
theorem tempNames_values (temp : Nat → String) (keys : List String) :
    (tempNames temp keys).entries.map Prod.snd =
      (keepFirst id keys).map (newName (tempNames temp keys)) := by
  rw [← tempNames_keys temp keys, Dict.keys, List.map_map]
  refine List.map_congr_left fun e he => ?_
  rw [Function.comp_apply, newName, (Dict.mem_entries _ e.1 e.2).mp he]
  rfl

theorem newName_temp (temp : Nat → String) (keys : List String) (c : String) :
    newName (tempNames temp keys) c = ((lastIdx keys c).map temp).getD c := by
  rw [newName, tempNames_get?]

theorem tempLeft_inj {i j : Nat} : tempLeft i = tempLeft j ↔ i = j := by
  rw [tempLeft, tempLeft, String.append_right_inj]
  exact toString_number_inj

theorem tempRight_inj {i j : Nat} : tempRight i = tempRight j ↔ i = j := by
  rw [tempRight, tempRight, String.append_right_inj]
  exact toString_number_inj

theorem tempLeft_ne_tempRight (i j : Nat) : tempLeft i ≠ tempRight j := by
  intro h
  have hchar := congrArg (fun s : String => s.toList[6]?) h
  simp [tempLeft, tempRight, String.toList_append] at hchar

/-- A name the steps use starts with an underscore. -/
theorem Reserved.head {c : String} (h : Reserved c) : c.toList.head? = some '_' := by
  rcases h with rfl | rfl | ⟨i, rfl⟩ | ⟨i, rfl⟩
  · rfl
  · rfl
  · simp [tempLeft, String.toList_append]
  · simp [tempRight, String.toList_append]

theorem tempLeft_ne_id (i : Nat) : tempLeft i ≠ "__lrid" ∧ tempLeft i ≠ "__rrid" := by
  constructor
  · intro h
    have hchar := congrArg (fun s : String => s.toList[2]?) h
    simp [tempLeft, String.toList_append] at hchar
  · intro h
    have hchar := congrArg (fun s : String => s.toList[3]?) h
    simp [tempLeft, String.toList_append] at hchar

theorem tempRight_ne_id (i : Nat) : tempRight i ≠ "__lrid" ∧ tempRight i ≠ "__rrid" := by
  constructor
  · intro h
    have hchar := congrArg (fun s : String => s.toList[2]?) h
    simp [tempRight, String.toList_append] at hchar
  · intro h
    have hchar := congrArg (fun s : String => s.toList[3]?) h
    simp [tempRight, String.toList_append] at hchar

/-! ## 3. Frames of a layout

Each step after the merge turns the frame of a layout into the frame of another layout over the same
pairs of rows. -/

/-- The frame of a layout over pairs of rows. -/
def Layout.frame (lay : Layout) (ps : List (Row V × Row V)) : Frame V :=
  .ofRows lay.columns (ps.map fun p => lay.row p.1 p.2)

theorem Layout.frame_rows (lay : Layout) (ps : List (Row V × Row V)) :
    (lay.frame ps).rows = ps.map fun p => lay.row p.1 p.2 := by
  refine ofRows_rows_of_supported fun r hr c hc => ?_
  obtain ⟨p, -, rfl⟩ := List.mem_map.mp hr
  exact Layout.row_notMem hc p.1 p.2

theorem Layout.row_of_mem {lay : Layout} (hnd : lay.columns.Nodup) {e : String × Source}
    (he : e ∈ lay) (l r : Row V) : lay.row l r e.1 = e.2.cell l r :=
  Layout.row_source ((source_eq_some_iff hnd).mpr he) l r

/-- Rows with the cells of a layout make its frame. -/
theorem frame_of_images {ι : Type} {lay : Layout} (hnd : lay.columns.Nodup) {xs : List ι}
    (pair : ι → Row V × Row V) {row : ι → Row V}
    (h : ∀ e ∈ lay, ∀ x ∈ xs, row x e.1 = e.2.cell (pair x).1 (pair x).2) :
    Frame.ofRows lay.columns (xs.map row) = lay.frame (xs.map pair) := by
  refine Frame.ext rfl ?_
  rw [Layout.frame_rows, Frame.ofRows_rows, List.map_map, List.map_map]
  refine List.map_congr_left fun x hx => funext fun n => ?_
  rw [Function.comp_apply, Function.comp_apply]
  by_cases hn : n ∈ lay.columns
  · obtain ⟨e, he, rfl⟩ := List.mem_map.mp hn
    rw [restrict_mem hn, h e he x hx, Layout.row_of_mem hnd he]
  · rw [restrict_notMem hn, Layout.row_notMem hn]

theorem frame_of_cells {lay : Layout} (hnd : lay.columns.Nodup) {ps : List (Row V × Row V)}
    {row : Row V × Row V → Row V} (h : ∀ e ∈ lay, ∀ p ∈ ps, row p e.1 = e.2.cell p.1 p.2) :
    Frame.ofRows lay.columns (ps.map row) = lay.frame ps := by
  have himage := frame_of_images hnd id h
  rwa [List.map_id] at himage

theorem renameColumns_frame {names : Dict String String} {lay lay' : Layout}
    (hnd : lay.columns.Nodup) (hlay : lay.map (fun e => (newName names e.1, e.2)) = lay')
    (hnd' : lay'.columns.Nodup) (ps : List (Row V × Row V)) :
    renameColumns names (lay.frame ps) = lay'.frame ps := by
  have hcols : (lay.frame ps).columns.map (newName names) = lay'.columns := by
    rw [← hlay, Layout.columns, List.map_map]
    exact List.map_map
  rw [renameColumns, hcols, relabel, Layout.frame_rows, List.map_map]
  refine frame_of_cells hnd' fun e' he' p _ => ?_
  -- the cells of the old row stand under the new names
  have hcells : keyOf lay.columns (lay.row p.1 p.2) = lay.map fun e => e.2.cell p.1 p.2 := by
    rw [keyOf, Layout.columns, List.map_map]
    exact List.map_congr_left fun e he => Layout.row_of_mem hnd he p.1 p.2
  have hzip : lay'.columns.zip (lay.map fun e => e.2.cell p.1 p.2) =
      lay.map fun e => (newName names e.1, e.2.cell p.1 p.2) := by
    rw [← hlay, Layout.columns, List.map_map, List.zip_map', List.map_congr_left fun _ _ => rfl]
    rfl
  rw [Function.comp_apply]
  refine cellOf_of_mem_zip hnd' ?_
  change (e'.1, _) ∈ lay'.columns.zip (keyOf lay.columns (lay.row p.1 p.2))
  rw [hcells, hzip]
  rw [← hlay] at he'
  obtain ⟨e, he, rfl⟩ := List.mem_map.mp he'
  exact List.mem_map_of_mem he

theorem dropColumns_frame (names : List String) {lay : Layout} (hnd : lay.columns.Nodup)
    (ps : List (Row V × Row V)) : dropColumns names (lay.frame ps) =
      Layout.frame (lay.filter fun e => decide (e.1 ∉ names)) ps := by
  have hcols : (lay.frame ps).columns.filter (fun c => decide (c ∉ names)) =
      Layout.columns (lay.filter fun e => decide (e.1 ∉ names)) := by
    exact List.filter_map
  have hsub : (Layout.columns (lay.filter fun e => decide (e.1 ∉ names))).Nodup :=
    hnd.sublist (List.filter_sublist.map _)
  rw [dropColumns, hcols, Layout.frame_rows]
  exact frame_of_cells hsub fun e he p _ =>
    Layout.row_of_mem hnd (List.mem_filter.mp he).1 p.1 p.2

theorem fill_columns (lay : Layout) (a : String) (s : Source) :
    Layout.columns (lay.map fun e => if e.1 = a then (a, s) else e) = lay.columns := by
  rw [Layout.columns, Layout.columns, List.map_map]
  refine List.map_congr_left fun e _ => ?_
  rw [Function.comp_apply]
  split
  · rename_i he
    exact he.symm
  · rfl

theorem withColumn_frame {lay : Layout} (hnd : lay.columns.Nodup) {a : String} {s : Source}
    {v : Row V → Cell V} (ha : a ∈ lay.columns)
    {ps : List (Row V × Row V)} (hv : ∀ p ∈ ps, v (lay.row p.1 p.2) = s.cell p.1 p.2) :
    withColumn (lay.frame ps) a v =
      Layout.frame (lay.map fun e => if e.1 = a then (a, s) else e) ps := by
  have hcols := fill_columns lay a s
  have hadd : addColumn (lay.frame ps).columns a = lay.columns := if_pos ha
  rw [withColumn, hadd, Layout.frame_rows, List.map_map, ← hcols]
  refine frame_of_cells (hcols ▸ hnd) fun e' he' p hp => ?_
  obtain ⟨e, he, rfl⟩ := List.mem_map.mp he'
  by_cases hname : e.1 = a
  · rw [if_pos hname, Function.comp_apply, if_pos rfl, hv p hp]
  · rw [if_neg hname, Function.comp_apply, if_neg hname, Layout.row_of_mem hnd he]

/-! ## 4. Restoring the keys

While the pairs `rest` are still to be restored, the columns that are keys of `rest` have their
temporary names, and the same-named keys of the pairs `done` are one column. -/

/-- The name of a column of a side: the key columns that are still to be restored have temporary
names. -/
def stageName (temp : Nat → String) (keys rest : List String) (c : String) : String :=
  if c ∈ rest then newName (tempNames temp keys) c else c

theorem stageName_temp {temp : Nat → String} {keys rest : List String} {c : String} {i : Nat}
    (hc : c ∈ rest) (hi : lastIdx keys c = some i) : stageName temp keys rest c = temp i := by
  rw [stageName, if_pos hc, newName_temp, hi]
  rfl

/-- A column has its own name or the temporary name of a place it is the key of. -/
theorem stageName_cases (temp : Nat → String) {keys rest : List String}
    (hsub : ∀ c ∈ rest, c ∈ keys) (c : String) :
    c ∉ rest ∧ stageName temp keys rest c = c ∨
      c ∈ rest ∧ ∃ i, lastIdx keys c = some i ∧ stageName temp keys rest c = temp i := by
  by_cases hc : c ∈ rest
  · refine .inr ⟨hc, ?_⟩
    cases hi : lastIdx keys c with
    | none => exact absurd (hsub c hc) (lastIdx_eq_none.mp hi)
    | some i => exact ⟨i, rfl, stageName_temp hc hi⟩
  · exact .inl ⟨hc, if_neg hc⟩

/-- Different columns of a side have different names. -/
theorem stageName_inj {temp : Nat → String} (htemp : ∀ i j, temp i = temp j → i = j)
    {keys rest : List String} (hsub : ∀ c ∈ rest, c ∈ keys) {c c' : String}
    (hc : ∀ i, c ≠ temp i) (hc' : ∀ i, c' ≠ temp i)
    (h : stageName temp keys rest c = stageName temp keys rest c') : c = c' := by
  rcases stageName_cases temp hsub c with ⟨-, hn⟩ | ⟨-, i, hi, hn⟩ <;>
    rcases stageName_cases temp hsub c' with ⟨-, hn'⟩ | ⟨-, i', hi', hn'⟩ <;>
    rw [hn, hn'] at h
  · exact h
  · exact absurd h (hc i')
  · exact absurd h.symm (hc' i)
  · obtain rfl := htemp i i' h
    exact Option.some.inj ((getElem?_lastIdx hi).symm.trans (getElem?_lastIdx hi'))

/-- **One turn of the loop restores one name**: a map that gives the key `k` its name back, and
leaves the columns and the later temporary names as they are. -/
theorem stageName_step (temp : Nat → String) (ρ : String → String) {xs ks : List String}
    {k c : String} (hk : ρ (temp xs.length) = k) (hc : ρ c = c)
    (hlater : ∀ i, xs.length < i → ρ (temp i) = temp i) :
    ρ (stageName temp (xs ++ k :: ks) (k :: ks) c) = stageName temp (xs ++ k :: ks) ks c := by
  by_cases hmem : c ∈ ks
  · obtain ⟨i, hi, hlt⟩ := lastIdx_later xs k hmem
    rw [stageName_temp (List.mem_cons_of_mem k hmem) hi, stageName_temp hmem hi, hlater i hlt]
  · rw [stageName.eq_def temp _ ks, if_neg hmem]
    by_cases hck : c = k
    · subst hck
      rw [stageName_temp List.mem_cons_self (lastIdx_here hmem), hk]
    · rw [stageName, if_neg (by simp [hck, hmem]), hc]

/-- The temporary name of the place is there exactly when the key does not come again. -/
theorem stageName_eq_temp {temp : Nat → String} (htemp : ∀ i j, temp i = temp j → i = j)
    {xs ks : List String} {k c : String} (hc : ∀ i, c ≠ temp i) :
    stageName temp (xs ++ k :: ks) (k :: ks) c = temp xs.length ↔ c = k ∧ k ∉ ks := by
  have hsub : ∀ c ∈ k :: ks, c ∈ xs ++ k :: ks := fun c h => List.mem_append_right xs h
  constructor
  · intro h
    rcases stageName_cases temp hsub c with ⟨-, hn⟩ | ⟨-, i, hi, hn⟩
    · exact absurd (hn.symm.trans h) (hc _)
    · obtain rfl := htemp i _ (hn.symm.trans h)
      have hck : c = k := by
        have hget := getElem?_lastIdx hi
        rw [List.getElem?_append_right (le_refl _), Nat.sub_self, List.getElem?_cons_zero] at hget
        exact (Option.some.inj hget).symm
      refine ⟨hck, fun hmem => ?_⟩
      obtain ⟨j, hj, hlt⟩ := lastIdx_later xs k hmem
      rw [hck] at hi
      rw [hi] at hj
      cases hj
      exact absurd hlt (lt_irrefl _)
  · rintro ⟨rfl, hmem⟩
    exact stageName_temp List.mem_cons_self (lastIdx_here hmem)

/-- The names of two sides and their keys do not get in the way of the steps. -/
structure PlainSides (keys : List (String × String)) (L R : List String) : Prop where
  left : L.Nodup
  right : R.Nodup
  leftFree : ∀ c ∈ L, ¬Reserved c
  rightFree : ∀ c ∈ R, ¬Reserved c
  shared : ∀ c ∈ L, c ∈ R → (c, c) ∈ keys
  keys : ∀ k ∈ keys, k.1 ∈ L ∧ k.2 ∈ R

/-- The columns while the pairs `rest` of `keys` are still to be restored. -/
def stage (keys done rest : List (String × String)) (L R : List String) : Layout :=
  (L.map fun c => (stageName tempLeft (keys.map Prod.fst) (rest.map Prod.fst) c,
    if (c, c) ∈ done then Source.both c c else Source.left c)) ++
  (R.filter fun d => decide ((d, d) ∉ done)).map fun d =>
    (stageName tempRight (keys.map Prod.snd) (rest.map Prod.snd) d, Source.right d)

section Restore
variable {keys : List (String × String)} {L R : List String}

/-- A name that is not reserved is no temporary name, of either side and whatever the place. -/
theorem not_temp {c : String} (h : ¬Reserved c) :
    (∀ i, c ≠ tempLeft i) ∧ ∀ i, c ≠ tempRight i :=
  ⟨fun i he => h (.inr (.inr (.inl ⟨i, he⟩))), fun i he => h (.inr (.inr (.inr ⟨i, he⟩)))⟩

/-- The columns have different names at every stage. -/
theorem stage_nodup (h : PlainSides keys L R) {done rest : List (String × String)}
    (hkeys : done ++ rest = keys) : (stage keys done rest L R).columns.Nodup := by
  have hsub : ∀ side : String × String → String, ∀ c ∈ rest.map side, c ∈ keys.map side := by
    intro side c hc
    rw [← hkeys, List.map_append]
    exact List.mem_append_right _ hc
  rw [stage, Layout.columns, List.map_append, List.map_map, List.map_map, List.nodup_append]
  refine ⟨?_, ?_, ?_⟩
  · refine h.left.map_on fun c hc c' hc' he => ?_
    exact stageName_inj (fun i j => tempLeft_inj.mp) (hsub _) (not_temp (h.leftFree c hc)).1
      (not_temp (h.leftFree c' hc')).1 he
  · refine (h.right.filter _).map_on fun d hd d' hd' he => ?_
    exact stageName_inj (fun i j => tempRight_inj.mp) (hsub _)
      (not_temp (h.rightFree d (List.mem_filter.mp hd).1)).2
      (not_temp (h.rightFree d' (List.mem_filter.mp hd').1)).2 he
  · intro n hn n' hn' he
    obtain ⟨c, hc, rfl⟩ := List.mem_map.mp hn
    obtain ⟨d, hd, rfl⟩ := List.mem_map.mp hn'
    obtain ⟨hd, hfil⟩ := List.mem_filter.mp hd
    have hcfree := not_temp (h.leftFree c hc)
    have hdfree := not_temp (h.rightFree d hd)
    rw [Function.comp_apply, Function.comp_apply] at he
    rcases stageName_cases tempLeft (hsub Prod.fst) c with ⟨hout, hl⟩ | ⟨-, i, -, hl⟩ <;>
      rcases stageName_cases tempRight (hsub Prod.snd) d with ⟨-, hr⟩ | ⟨-, j, -, hr⟩ <;>
      rw [hl, hr] at he
    · -- a shared column is compared with itself, by a pair that is restored or still to come
      subst he
      have hpair := h.shared c hc hd
      rw [← hkeys] at hpair
      rcases List.mem_append.mp hpair with hp | hp
      · exact absurd hp (of_decide_eq_true hfil)
      · exact hout (List.mem_map_of_mem hp)
    · exact hcfree.2 j he
    · exact hdfree.1 i he.symm
    · exact tempLeft_ne_tempRight i j he

/-- The name a column has after the turn for the pair `k` at the place `j`. -/
def restoredName (j : Nat) (k : String × String) (n : String) : String :=
  if n = tempRight j then k.2 else if n = tempLeft j then k.1 else n

theorem newName_pair (j : Nat) (k : String × String) (n : String) :
    newName (((∅ : Dict String String).set (tempLeft j) k.1).set (tempRight j) k.2) n =
      restoredName j k n := by
  unfold newName restoredName
  rw [Dict.get?_set, Dict.get?_set, Dict.get?_empty]
  split
  · rfl
  · split <;> rfl

theorem newName_single {j : Nat} (k : String × String) {n : String} (hn : n ≠ tempRight j) :
    newName ((∅ : Dict String String).set (tempLeft j) k.1) n = restoredName j k n := by
  unfold newName restoredName
  rw [Dict.get?_set, Dict.get?_empty, if_neg hn]
  split <;> rfl

theorem restoredName_free {j : Nat} {k : String × String} {c : String} (hc : ¬Reserved c) :
    restoredName j k c = c := by
  rw [restoredName, if_neg ((not_temp hc).2 j), if_neg ((not_temp hc).1 j)]

theorem restoredName_left {i j : Nat} {k : String × String} :
    restoredName j k (tempLeft i) = if i = j then k.1 else tempLeft i := by
  rw [restoredName, if_neg (tempLeft_ne_tempRight _ _)]
  simp only [tempLeft_inj]

theorem restoredName_right {i j : Nat} {k : String × String} :
    restoredName j k (tempRight i) = if i = j then k.2 else tempRight i := by
  rw [restoredName]
  simp only [tempRight_inj, if_neg (tempLeft_ne_tempRight _ _).symm]

section Turn
variable {done rest : List (String × String)} {k : String × String}

theorem leftName_step (hkeys : done ++ k :: rest = keys) {c : String} (hc : ¬Reserved c) :
    restoredName done.length k (stageName tempLeft (keys.map Prod.fst)
      ((k :: rest).map Prod.fst) c) =
      stageName tempLeft (keys.map Prod.fst) (rest.map Prod.fst) c := by
  have hlen : (done.map Prod.fst).length = done.length := List.length_map ..
  rw [← hkeys, List.map_append, List.map_cons]
  refine stageName_step tempLeft _ ?_ (restoredName_free hc) fun i hi => ?_
  · rw [hlen, restoredName_left, if_pos rfl]
  · rw [restoredName_left, if_neg (hlen ▸ hi.ne')]

theorem rightName_step (hkeys : done ++ k :: rest = keys) {d : String} (hd : ¬Reserved d) :
    restoredName done.length k (stageName tempRight (keys.map Prod.snd)
      ((k :: rest).map Prod.snd) d) =
      stageName tempRight (keys.map Prod.snd) (rest.map Prod.snd) d := by
  have hlen : (done.map Prod.snd).length = done.length := List.length_map ..
  rw [← hkeys, List.map_append, List.map_cons]
  refine stageName_step tempRight _ ?_ (restoredName_free hd) fun i hi => ?_
  · rw [hlen, restoredName_right, if_pos rfl]
  · rw [restoredName_right, if_neg (hlen ▸ hi.ne')]

/-- The temporary name of the place is the left key's, when that key does not come again. -/
theorem leftName_here (hkeys : done ++ k :: rest = keys) {c : String} (hc : ¬Reserved c) :
    stageName tempLeft (keys.map Prod.fst) ((k :: rest).map Prod.fst) c = tempLeft done.length ↔
      c = k.1 ∧ k.1 ∉ rest.map Prod.fst := by
  have hlen : (done.map Prod.fst).length = done.length := List.length_map ..
  rw [← hkeys, List.map_append, List.map_cons, ← hlen]
  exact stageName_eq_temp (fun i j => tempLeft_inj.mp) (not_temp hc).1

theorem rightName_here (hkeys : done ++ k :: rest = keys) {d : String} (hd : ¬Reserved d) :
    stageName tempRight (keys.map Prod.snd) ((k :: rest).map Prod.snd) d = tempRight done.length ↔
      d = k.2 ∧ k.2 ∉ rest.map Prod.snd := by
  have hlen : (done.map Prod.snd).length = done.length := List.length_map ..
  rw [← hkeys, List.map_append, List.map_cons, ← hlen]
  exact stageName_eq_temp (fun i j => tempRight_inj.mp) (not_temp hd).2

/-- A column of a side has no temporary name of the other side. -/
theorem leftName_ne (hkeys : done ++ rest = keys) {c : String} (hc : ¬Reserved c) (i : Nat) :
    stageName tempLeft (keys.map Prod.fst) (rest.map Prod.fst) c ≠ tempRight i := by
  have hsub : ∀ c ∈ rest.map Prod.fst, c ∈ keys.map Prod.fst := fun c h => by
    rw [← hkeys, List.map_append]
    exact List.mem_append_right _ h
  rcases stageName_cases tempLeft hsub c with ⟨-, hn⟩ | ⟨-, j, -, hn⟩
  · rw [hn]
    exact (not_temp hc).2 i
  · rw [hn]
    exact tempLeft_ne_tempRight j i

theorem rightName_ne (hkeys : done ++ rest = keys) {d : String} (hd : ¬Reserved d) (i : Nat) :
    stageName tempRight (keys.map Prod.snd) (rest.map Prod.snd) d ≠ tempLeft i := by
  have hsub : ∀ d ∈ rest.map Prod.snd, d ∈ keys.map Prod.snd := fun d h => by
    rw [← hkeys, List.map_append]
    exact List.mem_append_right _ h
  rcases stageName_cases tempRight hsub d with ⟨-, hn⟩ | ⟨-, j, -, hn⟩
  · rw [hn]
    exact (not_temp hd).1 i
  · rw [hn]
    exact (tempLeft_ne_tempRight i j).symm

/-- The turn for keys of two names. -/
theorem stage_rename (h : PlainSides keys L R) (hkeys : done ++ k :: rest = keys)
    (hk : k.1 ≠ k.2) : (stage keys done (k :: rest) L R).map (fun e =>
      (restoredName done.length k e.1, e.2)) = stage keys (done ++ [k]) rest L R := by
  have hmem : ∀ c, (c, c) ∈ done ++ [k] ↔ (c, c) ∈ done := by
    intro c
    rw [List.mem_append, List.mem_singleton]
    refine or_iff_left ?_
    rintro rfl
    exact hk rfl
  rw [stage, stage, List.map_append, List.map_map, List.map_map]
  simp only [hmem]
  refine congrArg₂ _ (List.map_congr_left fun c hc => ?_) (List.map_congr_left fun d hd => ?_)
  · exact Prod.ext (leftName_step hkeys (h.leftFree c hc)) rfl
  · exact Prod.ext (rightName_step hkeys (h.rightFree d (List.mem_filter.mp hd).1)) rfl

/-- The turn for keys of one name: the left one is filled from the right one, which is dropped. -/
theorem stage_fill (h : PlainSides keys L R) (hkeys : done ++ k :: rest = keys) (hk : k.1 = k.2)
    (hl : k.1 ∉ rest.map Prod.fst) (hr : k.2 ∉ rest.map Prod.snd) :
    (((stage keys done (k :: rest) L R).map fun e =>
      if e.1 = tempLeft done.length then (tempLeft done.length, Source.both k.1 k.1) else e).filter
        fun e => decide (e.1 ∉ [tempRight done.length])).map (fun e =>
          (restoredName done.length k e.1, e.2)) = stage keys (done ++ [k]) rest L R := by
  have hmem : ∀ c, (c, c) ∈ done ++ [k] ↔ (c, c) ∈ done ∨ c = k.1 := by
    intro c
    rw [List.mem_append, List.mem_singleton, Prod.ext_iff, ← hk, and_self]
  rw [stage, stage, List.map_append, List.filter_append, List.map_append, List.map_map,
    List.map_map]
  refine congrArg₂ _ ?_ ?_
  · rw [List.filter_eq_self.mpr, List.map_map]
    · refine List.map_congr_left fun c hc => ?_
      have hfree := h.leftFree c hc
      have hname := leftName_step hkeys hfree
      rw [Function.comp_apply, Function.comp_apply]
      by_cases hck : c = k.1
      · have hhere := (leftName_here hkeys hfree).mpr ⟨hck, hl⟩
        rw [hhere] at hname
        rw [if_pos hhere, if_pos ((hmem c).mpr (.inr hck)), hck]
        exact Prod.ext (hck ▸ hname) rfl
      · rw [if_neg fun he => hck ((leftName_here hkeys hfree).mp he).1]
        refine Prod.ext hname ?_
        simp only [hmem, hck, or_false]
    · intro e he
      obtain ⟨c, hc, rfl⟩ := List.mem_map.mp he
      have hfree := h.leftFree c hc
      rw [decide_eq_true_eq, List.mem_singleton, Function.comp_apply]
      by_cases hname : stageName tempLeft (keys.map Prod.fst) ((k :: rest).map Prod.fst) c =
          tempLeft done.length
      · rw [if_pos hname]
        exact tempLeft_ne_tempRight _ _
      · rw [if_neg hname]
        exact leftName_ne hkeys hfree _
  · have hfill : ∀ d ∈ R.filter (fun d => decide ((d, d) ∉ done)),
        ((fun e : String × Source => if e.1 = tempLeft done.length then
          (tempLeft done.length, Source.both k.1 k.1) else e) ∘ fun d =>
            (stageName tempRight (keys.map Prod.snd) ((k :: rest).map Prod.snd) d,
              Source.right d)) d =
          (stageName tempRight (keys.map Prod.snd) ((k :: rest).map Prod.snd) d, Source.right d) :=
      fun d hd => if_neg (rightName_ne hkeys (h.rightFree d (List.mem_filter.mp hd).1) _)
    rw [List.map_congr_left hfill, List.filter_map, List.map_map, List.filter_filter]
    have hfil : R.filter (fun d => ((fun e : String × Source =>
          decide (e.1 ∉ [tempRight done.length])) ∘ fun d =>
            (stageName tempRight (keys.map Prod.snd) ((k :: rest).map Prod.snd) d,
              Source.right d)) d && decide ((d, d) ∉ done)) =
        R.filter fun d => decide ((d, d) ∉ done ++ [k]) := by
      refine List.filter_congr fun d hd => ?_
      have hhere := rightName_here hkeys (h.rightFree d hd)
      rw [Function.comp_apply, Bool.eq_iff_iff, Bool.and_eq_true, decide_eq_true_eq,
        decide_eq_true_eq, decide_eq_true_eq, List.mem_singleton, hhere, hmem, not_or, and_comm,
        and_iff_left hr, hk]
    rw [hfil]
    refine List.map_congr_left fun d hd => ?_
    exact Prod.ext (rightName_step hkeys (h.rightFree d (List.mem_filter.mp hd).1)) rfl

theorem left_entry (h : PlainSides keys L R) (hkeys : done ++ k :: rest = keys)
    (hdone : (k.1, k.1) ∉ done) (hl : k.1 ∉ rest.map Prod.fst) :
    (tempLeft done.length, Source.left k.1) ∈ stage keys done (k :: rest) L R := by
  have hk := (h.keys k (hkeys ▸ List.mem_append_right _ List.mem_cons_self)).1
  refine List.mem_append_left _ (List.mem_map.mpr ⟨k.1, hk, ?_⟩)
  rw [(leftName_here hkeys (h.leftFree _ hk)).mpr ⟨rfl, hl⟩, if_neg hdone]

theorem right_entry (h : PlainSides keys L R) (hkeys : done ++ k :: rest = keys)
    (hdone : (k.2, k.2) ∉ done) (hr : k.2 ∉ rest.map Prod.snd) :
    (tempRight done.length, Source.right k.2) ∈ stage keys done (k :: rest) L R := by
  have hk := (h.keys k (hkeys ▸ List.mem_append_right _ List.mem_cons_self)).2
  refine List.mem_append_right _ (List.mem_map.mpr ⟨k.2, ?_, ?_⟩)
  · exact List.mem_filter.mpr ⟨hk, decide_eq_true hdone⟩
  · rw [(rightName_here hkeys (h.rightFree _ hk)).mpr ⟨rfl, hr⟩]

/-- The temporary names of a place are columns when the keys do not come again. -/
theorem tempLeft_mem (h : PlainSides keys L R) (hkeys : done ++ k :: rest = keys)
    (hmem : tempLeft done.length ∈ (stage keys done (k :: rest) L R).columns) :
    k.1 ∉ rest.map Prod.fst := by
  obtain ⟨e, he, hname⟩ := List.mem_map.mp hmem
  rcases List.mem_append.mp he with he | he
  · obtain ⟨c, hc, rfl⟩ := List.mem_map.mp he
    exact ((leftName_here hkeys (h.leftFree c hc)).mp hname).2
  · obtain ⟨d, hd, rfl⟩ := List.mem_map.mp he
    exact absurd hname (rightName_ne hkeys (h.rightFree d (List.mem_filter.mp hd).1) _)

theorem tempRight_mem (h : PlainSides keys L R) (hkeys : done ++ k :: rest = keys)
    (hmem : tempRight done.length ∈ (stage keys done (k :: rest) L R).columns) :
    k.2 ∉ rest.map Prod.snd := by
  obtain ⟨e, he, hname⟩ := List.mem_map.mp hmem
  rcases List.mem_append.mp he with he | he
  · obtain ⟨c, hc, rfl⟩ := List.mem_map.mp he
    exact absurd hname (leftName_ne hkeys (h.leftFree c hc) _)
  · obtain ⟨d, hd, rfl⟩ := List.mem_map.mp he
    exact ((rightName_here hkeys (h.rightFree d (List.mem_filter.mp hd).1)).mp hname).2

theorem restoreKey_eq (m : Frame V) (k : String × String) (j : Nat) : restoreKey m (k, j) =
    if k.1 = k.2 then
      if tempLeft j ∉ m.columns then .error (.key (pyRepr (tempLeft j)))
      else if tempRight j ∉ m.columns then .error (.key (pyRepr (tempRight j)))
      else .ok (renameColumns ((∅ : Dict _ _).set (tempLeft j) k.1) (dropColumns [tempRight j]
        (withColumn m (tempLeft j) fun r => (r (tempLeft j)).or (r (tempRight j)))))
    else .ok (renameColumns (((∅ : Dict _ _).set (tempLeft j) k.1).set (tempRight j) k.2) m) := rfl

/-- **One turn of the loop**: it returns unless the keys have one name and one of them comes again,
and goes to the next stage. -/
theorem restoreKey_ok (h : PlainSides keys L R) (hkeys : done ++ k :: rest = keys)
    (hdone : ∀ c, (c, c) ∈ done → c ≠ k.1 ∧ c ≠ k.2) {ps : List (Row V × Row V)} {g : Frame V} :
    restoreKey ((stage keys done (k :: rest) L R).frame ps) (k, done.length) = .ok g ↔
      (k.1 = k.2 → k.1 ∉ rest.map Prod.fst ∧ k.2 ∉ rest.map Prod.snd) ∧
        g = (stage keys (done ++ [k]) rest L R).frame ps := by
  have hnd := stage_nodup h hkeys
  have hnd' : (stage keys (done ++ [k]) rest L R).columns.Nodup :=
    stage_nodup h (by rw [List.append_assoc, List.singleton_append, hkeys])
  have hok : ∀ x : Frame V, (Except.ok x : Except DbError _) = .ok g ↔ g = x := fun x =>
    ⟨fun h => by cases h; rfl, fun h => by rw [h]⟩
  rw [restoreKey_eq]
  by_cases hk : k.1 = k.2
  · rw [if_pos hk]
    by_cases hl : k.1 ∈ rest.map Prod.fst
    · have hno : tempLeft done.length ∉ ((stage keys done (k :: rest) L R).frame ps).columns :=
        fun hmem => tempLeft_mem h hkeys hmem hl
      rw [if_pos hno]
      exact ⟨fun he => (nomatch he), fun he => absurd hl (he.1 hk).1⟩
    by_cases hr : k.2 ∈ rest.map Prod.snd
    · have hno : tempRight done.length ∉ ((stage keys done (k :: rest) L R).frame ps).columns :=
        fun hmem => tempRight_mem h hkeys hmem hr
      rw [if_pos hno]
      constructor
      · intro he
        split at he
        · cases he
        · cases he
      · exact fun he => absurd hr (he.1 hk).2
    have hleft := left_entry h hkeys (fun hd => (hdone _ hd).1 rfl) hl
    have hright := right_entry h hkeys (fun hd => (hdone _ hd).2 rfl) hr
    have hlc : tempLeft done.length ∈ ((stage keys done (k :: rest) L R).frame ps).columns :=
      List.mem_map_of_mem hleft
    have hrc : tempRight done.length ∈ ((stage keys done (k :: rest) L R).frame ps).columns :=
      List.mem_map_of_mem hright
    rw [if_neg (not_not.mpr hlc), if_neg (not_not.mpr hrc), hok]
    have hfilled : withColumn ((stage keys done (k :: rest) L R).frame ps) (tempLeft done.length)
        (fun r => (r (tempLeft done.length)).or (r (tempRight done.length))) =
        Layout.frame ((stage keys done (k :: rest) L R).map fun e =>
          if e.1 = tempLeft done.length then (tempLeft done.length, Source.both k.1 k.1) else e)
          ps := by
      refine withColumn_frame hnd (List.mem_map_of_mem hleft) fun p _ => ?_
      rw [Layout.row_of_mem hnd hleft, Layout.row_of_mem hnd hright, ← hk]
      rfl
    have hcols := fill_columns (stage keys done (k :: rest) L R) (tempLeft done.length)
      (Source.both k.1 k.1)
    have hnew := stage_fill h hkeys hk hl hr
    rw [hfilled, dropColumns_frame _ (hcols ▸ hnd), renameColumns_frame _ _ hnd']
    · exact (and_iff_right fun _ => ⟨hl, hr⟩).symm
    · exact (hcols ▸ hnd : (Layout.columns _).Nodup).sublist (List.filter_sublist.map _)
    · rw [← hnew]
      refine List.map_congr_left fun e he => ?_
      have hne : e.1 ∉ [tempRight done.length] := of_decide_eq_true (List.mem_filter.mp he).2
      rw [newName_single k fun hname => hne (List.mem_singleton.mpr hname)]
  · rw [if_neg hk, hok, renameColumns_frame hnd ?_ hnd']
    · exact (and_iff_right fun hk' => absurd hk' hk).symm
    · simp only [newName_pair]
      exact stage_rename h hkeys hk

end Turn

/-- A pair of one name that is followed by a pair with the name. -/
def overwritten (ks : List (String × String)) : Bool :=
  ks.head?.any fun k => k.1 = k.2 && ks.tail.any fun k' => k'.1 = k.1 || k'.2 = k.2

theorem overwritten_cons {k : String × String} {rest : List (String × String)} :
    overwritten (k :: rest) = false ↔
      (k.1 = k.2 → k.1 ∉ rest.map Prod.fst ∧ k.2 ∉ rest.map Prod.snd) := by
  rw [overwritten, List.head?_cons, Option.any_some, List.tail_cons, ← Bool.not_eq_true,
    Bool.and_eq_true, decide_eq_true_eq, List.any_eq_true, not_and]
  refine imp_congr_right fun _ => ?_
  constructor
  · intro hno
    constructor
    · intro hmem
      obtain ⟨k', hk', he⟩ := List.mem_map.mp hmem
      exact hno ⟨k', hk', by simp [he]⟩
    · intro hmem
      obtain ⟨k', hk', he⟩ := List.mem_map.mp hmem
      exact hno ⟨k', hk', by simp [he]⟩
  · rintro ⟨hl, hr⟩ ⟨k', hk', he⟩
    rw [Bool.or_eq_true, decide_eq_true_eq, decide_eq_true_eq] at he
    rcases he with he | he
    · exact hl (he ▸ List.mem_map_of_mem hk')
    · exact hr (he ▸ List.mem_map_of_mem hk')

/-- **The loop restores all keys**, unless a pair of one name is overwritten. -/
theorem restoreJoinKeys_ok (h : PlainSides keys L R) {ps : List (Row V × Row V)} {g : Frame V} :
    ∀ {rest done : List (String × String)}, done ++ rest = keys →
      (∀ c, (c, c) ∈ done → c ∉ rest.map Prod.fst ∧ c ∉ rest.map Prod.snd) →
      (restoreJoinKeys ((stage keys done rest L R).frame ps) (rest.zipIdx done.length) = .ok g ↔
        rest.tails.any overwritten = false ∧ g = (stage keys keys [] L R).frame ps)
  | [], done, hkeys, _ => by
    rw [List.append_nil] at hkeys
    subst hkeys
    constructor
    · intro hg
      cases hg
      exact ⟨rfl, rfl⟩
    · rintro ⟨-, rfl⟩
      rfl
  | k :: rest, done, hkeys, hdone => by
    have hkeys' : (done ++ [k]) ++ rest = keys := by
      rw [List.append_assoc, List.singleton_append, hkeys]
    have hturn : ∀ m : Frame V,
        restoreKey ((stage keys done (k :: rest) L R).frame ps) (k, done.length) = .ok m ↔ _ :=
      fun m => restoreKey_ok h hkeys fun c hc =>
        ⟨fun he => (hdone c hc).1 (he ▸ List.mem_cons_self),
          fun he => (hdone c hc).2 (he ▸ List.mem_cons_self)⟩
    have ih (hkeep : k.1 = k.2 → k.1 ∉ rest.map Prod.fst ∧ k.2 ∉ rest.map Prod.snd) :
        restoreJoinKeys ((stage keys (done ++ [k]) rest L R).frame ps)
          (rest.zipIdx (done.length + 1)) = .ok g ↔
        rest.tails.any overwritten = false ∧ g = (stage keys keys [] L R).frame ps := by
      have hlen : (done ++ [k]).length = done.length + 1 := by simp
      rw [← hlen]
      refine restoreJoinKeys_ok h hkeys' fun c hc => ?_
      rcases List.mem_append.mp hc with hc | hc
      · exact ⟨fun hm => (hdone c hc).1 (List.mem_cons_of_mem _ hm),
          fun hm => (hdone c hc).2 (List.mem_cons_of_mem _ hm)⟩
      · obtain rfl := List.mem_singleton.mp hc
        exact hkeep rfl
    rw [List.zipIdx_cons, restoreJoinKeys, List.foldlM_cons, bind_eq_ok, List.tails_cons,
      List.any_cons, Bool.or_eq_false_iff, overwritten_cons]
    simp only [hturn]
    constructor
    · rintro ⟨m, ⟨hkeep, rfl⟩, hrest⟩
      obtain ⟨htails, hg⟩ := (ih hkeep).mp hrest
      exact ⟨⟨hkeep, htails⟩, hg⟩
    · rintro ⟨⟨hkeep, htails⟩, hg⟩
      exact ⟨_, ⟨hkeep, rfl⟩, (ih hkeep).mpr ⟨htails, hg⟩⟩

end Restore

end RyuDB.Sql
