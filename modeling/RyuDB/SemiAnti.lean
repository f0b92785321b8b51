/-
# Semi and anti joins

`Engine._semi_anti_join` has two algorithms.  A single key without a residual is looked up in the set
of the right side's keys (`isinPath`).  Otherwise the left rows are tagged with their numbers, in a
column `__lid`, and merged with the right side; the rows whose number is among the pairs are the ones
with a partner (`tagAndMerge`).

Wanted (`partnered`) is EXISTS: a left row is kept, in its place and once, when some right row equals
it on all keys, none of them NULL; an anti join keeps the others.  `semi_anti_agree` says when both
algorithms do that: the first always, the second unless the name of the tag gets in its way
(`Taggable`).  A left key `__lid` is overwritten by the row numbers, and a right column `__lid` takes
the name of the tag in the merge.

`semiAnti_eq` connects the function to `semiAntiJoin`, which the plans use.
-/
import RyuDB.NullKeys
import RyuDB.Prune

namespace RyuDB.Sql

variable {V : Type} [DecidableEq V]

/-! ## 1. The two algorithms

A mask is a column of booleans beside the frame, computed row by row.  The keys of the right side are
a set without NULL in the first algorithm; in the second they are compared by the merge, which takes
NULL for equal to NULL, so the source drops rows with a NULL key before. -/

omit [DecidableEq V] in
/-- `f[mask]`. -/
def boolIndex (f : Frame V) (mask : List Bool) : Frame V :=
  .ofRows f.columns (((f.rows.zip mask).filter Prod.snd).map Prod.fst)

/-- `~mask` for an anti join. -/
def JoinHow.flipMask (how : JoinHow) (mask : List Bool) : List Bool :=
  if how = .anti then mask.map (!·) else mask

/-- The single-key path of `_semi_anti_join`. -/
def isinPath (how : JoinHow) (k k' : String) (left right : Frame V) : Except DbError (Frame V) :=
  if k' ∉ right.columns then .error (.key (pyRepr k'))
  else if k ∉ left.columns then .error (.key (pyRepr k))
  else
    let keys := (right.rows.map fun r => r k').filter Option.isSome
    let mask := left.rows.map fun l => decide (l k ∈ keys)
    .ok (boolIndex left (how.flipMask mask))

omit [DecidableEq V] in
/-- A left row with its number, as the value `num i`, in the column `__lid`. -/
def tagged (num : Nat → V) (l : Row V) (i : Nat) : Row V :=
  fun c => if c = "__lid" then some (num i) else l c

omit [DecidableEq V] in
/-- `Lm["__lid"] = range(len(Lm))`. -/
def tagRows (num : Nat → V) (left : Frame V) : Frame V :=
  .ofRows (addColumn left.columns "__lid") (left.rows.zipIdx.map fun p => tagged num p.1 p.2)

/-- The other path of `_semi_anti_join`; `num` is the value of a row number. -/
def tagAndMerge (S : Scalars V) (num : Nat → V) (on : JoinOn V) (left right : Frame V) :
    Except DbError (Frame V) := do
  let Lm := tagRows num left
  let R := right.dropna on.onRight
  let inner := { on with how := JoinHow.inner }
  checkKeys inner Lm.columns R.columns
  let merged ← mergeFrames S inner id id Lm R
  if "__lid" ∉ merged.columns then .error (.key (pyRepr "__lid"))
  else
    let matched := keepFirst id (merged.rows.map fun r => r "__lid")
    let hit := (List.range left.rows.length).map fun i => decide (some (num i) ∈ matched)
    .ok (boolIndex left (on.how.flipMask hit))

/-- `Engine._semi_anti_join`. -/
def semiAnti (S : Scalars V) (num : Nat → V) (on : JoinOn V) (left right : Frame V) :
    Except DbError (Frame V) :=
  match on.onLeft, on.onRight, on.onPredicate with
  | [k], k' :: _, none => isinPath on.how k k' left right
  | _, _, _ => tagAndMerge S num on left right

/-! ## 2. What is wanted -/

/-- Some right row equals the row on all keys, none of them NULL. -/
def partnered (on : JoinOn V) (right : Frame V) (l : Row V) : Bool :=
  right.rows.any fun r => (keyPairs on).all fun k => equiKey k l r

/-- **What a semi or anti join keeps.** -/
def kept (on : JoinOn V) (left right : Frame V) : Frame V :=
  left.filter fun l => if on.how = .anti then !partnered on right l else partnered on right l

/-- The columns of the merge. -/
def tagLayout (on : JoinOn V) (L R : List String) : Layout :=
  layout id id (keyPairs on) (mergeOverlap id id (keyPairs on) (addColumn L "__lid") R)
    (addColumn L "__lid") R

/-- **The tag does its work**: the columns of the merge are all different; a right column `__lid` is a
key that is compared with the tag, and then, or where another right column is, the rows have the same
partners by their numbers as by the key. -/
structure Taggable (num : Nat → V) (on : JoinOn V) (left right : Frame V) : Prop where
  columns : (tagLayout on left.columns right.columns).columns.Nodup
  name : "__lid" ∈ right.columns → ("__lid", "__lid") ∈ keyPairs on
  keys : "__lid" ∈ on.onLeft → ∀ p ∈ left.rows.zipIdx,
    partnered on right (tagged num p.1 p.2) = partnered on right p.1

/-! ## 3. Masks -/

/-- A mask computed row by row selects as a filter does. -/
theorem zip_map_filter {α : Type} (p : α → Bool) : ∀ l : List α,
    ((l.zip (l.map p)).filter Prod.snd).map Prod.fst = l.filter p
  | [] => rfl
  | a :: l => by
    have ih := zip_map_filter p l
    rw [List.map_cons, List.zip_cons_cons]
    cases hp : p a with
    | false => rw [List.filter_cons_of_neg (by simp), List.filter_cons_of_neg (by simp [hp]), ih]
    | true => rw [List.filter_cons_of_pos rfl, List.filter_cons_of_pos hp, List.map_cons, ih]

omit [DecidableEq V] in
theorem boolIndex_map (f : Frame V) (p : Row V → Bool) : boolIndex f (f.rows.map p) = f.filter p := by
  refine Frame.ext rfl ?_
  rw [boolIndex, zip_map_filter, Frame.filter_rows]
  exact ofRows_rows_of_supported fun r hr => f.supported r (List.mem_filter.mp hr).1

/-- A mask that selects what a filter does is the filter's. -/
theorem mask_unique {α : Type} (p : α → Bool) : ∀ {l : List α} {mask : List Bool},
    mask.length = l.length → ((l.zip mask).filter Prod.snd).map Prod.fst = l.filter p →
      mask = l.map p
  | [], [], _, _ => rfl
  | a :: l, b :: mask, hlen, h => by
    have hlen' : mask.length = l.length := Nat.succ.inj hlen
    have hrest := mask_unique p hlen'
    rw [List.zip_cons_cons] at h
    cases hp : p a <;> cases b
    · rw [List.filter_cons_of_neg (by simp), List.filter_cons_of_neg (by simp [hp])] at h
      rw [List.map_cons, hp, hrest h]
    · rw [List.filter_cons_of_pos rfl, List.filter_cons_of_neg (by simp [hp])] at h
      have hmem : a ∈ l.filter p := h ▸ List.mem_cons_self
      exact absurd (List.mem_filter.mp hmem).2 (by simp [hp])
    · -- what is left of the list does not hold one element more than the filter of it
      rw [List.filter_cons_of_neg (by simp), List.filter_cons_of_pos hp] at h
      have hsub : (a :: l.filter p).Sublist l := by
        rw [← h]
        have hfst : (l.zip mask).map Prod.fst = l := List.map_fst_zip hlen'.ge
        have hsel : (((l.zip mask).filter Prod.snd).map Prod.fst).Sublist
            ((l.zip mask).map Prod.fst) := List.filter_sublist.map Prod.fst
        rwa [hfst] at hsel
      have hlong := (hsub.filter p).length_le
      rw [List.filter_cons_of_pos hp, List.filter_filter] at hlong
      simp at hlong
    · rw [List.filter_cons_of_pos rfl, List.filter_cons_of_pos hp, List.map_cons] at h
      rw [List.map_cons, hp, hrest (List.cons.inj h).2]

theorem flipMask_map {α : Type} (how : JoinHow) (p : α → Bool) (l : List α) :
    how.flipMask (l.map p) = l.map fun a => if how = .anti then !p a else p a := by
  unfold JoinHow.flipMask
  split
  · rw [List.map_map]
    rfl
  · rfl

omit [DecidableEq V] in
theorem boolIndex_flip (how : JoinHow) (p : Row V → Bool) (f : Frame V) :
    boolIndex f (how.flipMask (f.rows.map p)) =
      f.filter fun l => if how = .anti then !p l else p l := by
  rw [flipMask_map, boolIndex_map]

omit [DecidableEq V] in
/-- The rows a mask selects tell the mask. -/
theorem eq_of_boolIndex {how : JoinHow} {f : Frame V} {mask : List Bool} {p : Row V → Bool}
    (hlen : mask.length = f.rows.length) (h : boolIndex f (how.flipMask mask) =
      f.filter fun l => if how = .anti then !p l else p l) : mask = f.rows.map p := by
  have hrows : ((f.rows.zip (how.flipMask mask)).filter Prod.snd).map Prod.fst =
      f.rows.filter fun l => if how = .anti then !p l else p l := by
    rw [← Frame.filter_rows, ← h, boolIndex]
    refine (ofRows_rows_of_supported fun r hr => ?_).symm
    obtain ⟨x, hx, rfl⟩ := List.mem_map.mp hr
    exact f.supported _ (List.of_mem_zip (List.mem_filter.mp hx).1).1
  have hflip : (how.flipMask mask).length = f.rows.length := by
    unfold JoinHow.flipMask
    split
    · rw [List.length_map, hlen]
    · exact hlen
  have heq := (mask_unique _ hflip hrows).trans (flipMask_map how p f.rows).symm
  unfold JoinHow.flipMask at heq
  split at heq
  · exact List.map_injective_iff.mpr (Function.Involutive.injective Bool.not_not) heq
  · exact heq

/-! ## 4. The tag in the merge -/

/-- No suffix of a merge makes the name of the tag. -/
theorem suffixed_ne_tag {c suffix : String} (h : suffix = "_x" ∨ suffix = "_y") :
    c ++ suffix ≠ "__lid" := by
  intro he
  have hlast := congrArg (fun s : String => s.toList.getLast?) he
  rcases h with rfl | rfl
  · simp [String.toList_append] at hlast
  · simp [String.toList_append] at hlast

section Tag
variable {on : JoinOn V} {L R : List String}

omit [DecidableEq V] in
theorem coalesced_tag {nl : String} : coalesced id id (keyPairs on) "__lid" = some nl →
    ("__lid", "__lid") ∈ keyPairs on := by
  intro h
  rw [coalesced, Option.map_eq_some_iff] at h
  obtain ⟨k, hk, -⟩ := h
  have hp := List.find?_some hk
  simp only [Bool.and_eq_true, decide_eq_true_eq, id_eq] at hp
  have hkey : k = ("__lid", "__lid") := Prod.ext hp.1 (hp.2.symm.trans hp.1)
  exact hkey ▸ List.mem_of_find?_eq_some hk

omit [DecidableEq V] in
theorem absorbed_tag : absorbed id id (keyPairs on) "__lid" = true ↔
    ("__lid", "__lid") ∈ keyPairs on := by
  rw [absorbed, List.any_eq_true]
  constructor
  · rintro ⟨k, hk, hp⟩
    simp only [Bool.and_eq_true, decide_eq_true_eq, id_eq] at hp
    have hkey : k = ("__lid", "__lid") := Prod.ext (hp.2.trans hp.1) hp.1
    exact hkey ▸ hk
  · exact fun h => ⟨_, h, rfl⟩

omit [DecidableEq V] in
theorem tag_mem_columns : "__lid" ∈ addColumn L "__lid" := by
  unfold addColumn
  split
  · assumption
  · exact List.mem_append_right _ (List.mem_singleton_self _)

omit [DecidableEq V] in
/-- The name of the tag is on both sides, and gets a suffix, when a right column has it and is not
compared with the tag. -/
theorem tag_mem_overlap : "__lid" ∈ mergeOverlap id id (keyPairs on) (addColumn L "__lid") R ↔
    "__lid" ∈ R ∧ ("__lid", "__lid") ∉ keyPairs on := by
  rw [mem_mergeOverlap]
  constructor
  · rintro ⟨-, d, hd, habs, rfl⟩
    refine ⟨hd, fun hk => ?_⟩
    rw [absorbed_tag.mpr hk] at habs
    cases habs
  · rintro ⟨hR, hk⟩
    refine ⟨⟨"__lid", tag_mem_columns, ?_, rfl⟩, "__lid", hR, ?_, rfl⟩
    · exact Option.eq_none_iff_forall_ne_some.mpr fun d h => hk (coalesced_tag h)
    · exact Bool.eq_false_iff.mpr fun h => hk (absorbed_tag.mp h)

omit [DecidableEq V] in
/-- The entry of the tag, where it keeps its name. -/
theorem tag_entry (hname : "__lid" ∈ R → ("__lid", "__lid") ∈ keyPairs on) :
    ∃ s, ("__lid", s) ∈ tagLayout on L R ∧ ∀ (num : Nat → V) (l r : Row V) (i : Nat),
      s.cell (tagged num l i) r = some (num i) := by
  have hover : "__lid" ∉ mergeOverlap id id (keyPairs on) (addColumn L "__lid") R := fun h =>
    (tag_mem_overlap.mp h).2 (hname (tag_mem_overlap.mp h).1)
  have hmem := List.mem_map_of_mem (f := leftEntry id id (keyPairs on)
    (mergeOverlap id id (keyPairs on) (addColumn L "__lid") R)) (tag_mem_columns (L := L))
  rw [leftEntry] at hmem
  cases hc : coalesced id id (keyPairs on) "__lid" with
  | some d =>
    rw [hc] at hmem
    exact ⟨.both "__lid" d, List.mem_append_left _ hmem, fun _ _ _ _ => rfl⟩
  | none =>
    rw [hc] at hmem
    simp only [id_eq, if_neg hover] at hmem
    exact ⟨.left "__lid", List.mem_append_left _ hmem, fun _ _ _ _ => rfl⟩

omit [DecidableEq V] in
/-- The tag is a column of the merge unless a right column has its name and is not compared with
it. -/
theorem tag_mem : "__lid" ∈ (tagLayout on L R).columns ↔
    ("__lid" ∈ R → ("__lid", "__lid") ∈ keyPairs on) := by
  constructor
  · intro h hR
    by_contra hk
    have hover := tag_mem_overlap (L := L).mpr ⟨hR, hk⟩
    obtain ⟨e, he, hname⟩ := List.mem_map.mp h
    rcases List.mem_append.mp he with he | he
    · obtain ⟨c, -, rfl⟩ := List.mem_map.mp he
      rw [leftEntry] at hname
      split at hname
      · rename_i hc
        have hcl : c = "__lid" := hname
        exact hk (coalesced_tag (hcl ▸ hc))
      · dsimp only [id_eq] at hname
        split at hname
        · exact suffixed_ne_tag (.inl rfl) hname
        · rename_i hc
          exact hc (hname ▸ hover)
    · obtain ⟨d, -, rfl⟩ := List.mem_map.mp he
      rw [rightEntry] at hname
      dsimp only [id_eq] at hname
      split at hname
      · exact suffixed_ne_tag (.inr rfl) hname
      · rename_i hd
        exact hd (hname ▸ hover)
  · intro hname
    obtain ⟨s, hs, -⟩ := tag_entry (L := L) hname
    exact List.mem_map_of_mem hs

omit [DecidableEq V] in
/-- Where the tag is a column, it holds the number of the left row. -/
theorem tag_cell (hnd : (tagLayout on L R).columns.Nodup)
    (hname : "__lid" ∈ R → ("__lid", "__lid") ∈ keyPairs on) (num : Nat → V) (l r : Row V) (i : Nat) :
    (tagLayout on L R).row (tagged num l i) r "__lid" = some (num i) := by
  obtain ⟨s, hs, hcell⟩ := tag_entry (L := L) hname
  rw [Layout.row_source ((source_eq_some_iff hnd).mpr hs), hcell]

end Tag

/-! ## 5. What the two paths keep -/

section Paths
variable {S : Scalars V} {num : Nat → V} {on : JoinOn V} {left right : Frame V}

/-- The single-key path is right on all inputs. -/
theorem isinPath_eq {k k' : String} (how : JoinHow) (hl : k ∈ left.columns) (hr : k' ∈ right.columns) :
    isinPath how k k' left right = .ok (left.filter fun l =>
      if how = .anti then !right.rows.any (equiKey (k, k') l)
      else right.rows.any (equiKey (k, k') l)) := by
  have hin : (fun l : Row V => decide (l k ∈ (right.rows.map fun r => r k').filter Option.isSome)) =
      fun l => right.rows.any (equiKey (k, k') l) := by
    funext l
    rw [Bool.eq_iff_iff, decide_eq_true_eq, List.mem_filter, List.mem_map, List.any_eq_true]
    constructor
    · rintro ⟨⟨r, hr, he⟩, hs⟩
      exact ⟨r, hr, Bool.and_eq_true_iff.mpr ⟨hs, decide_eq_true he.symm⟩⟩
    · rintro ⟨r, hr, he⟩
      obtain ⟨hs, he⟩ := Bool.and_eq_true_iff.mp he
      exact ⟨⟨r, hr, (of_decide_eq_true he).symm⟩, hs⟩
  rw [isinPath, if_neg (not_not.mpr hr), if_neg (not_not.mpr hl)]
  simp only [hin]
  rw [boolIndex_flip]

/-- No key of the right row is NULL and all are equal: the pairs that are in the merge. -/
theorem partnered_eq (hlen : on.onLeft.length = on.onRight.length) (hc : on.how ≠ .cross)
    (l : Row V) : partnered on right l = (right.dropna on.onRight).rows.any fun r =>
      sameKeys (keyPairs on) l r := by
  have hkeys : keyPairs on = on.onLeft.zip on.onRight := if_neg hc
  have hpair : ∀ r : Row V, ((keyPairs on).all fun k => equiKey k l r) =
      ((keyOf on.onRight r).nonNull && sameKeys (keyPairs on) l r) := by
    intro r
    rw [← nonNullKeys_zip hlen, ← hkeys, nonNullKeys, sameKeys, Bool.eq_iff_iff,
      Bool.and_eq_true, List.all_eq_true, List.all_eq_true, List.all_eq_true]
    constructor
    · intro h
      refine ⟨fun k hk => (equiKey_iff.mp (h k hk)).2.1, fun k hk => ?_⟩
      exact decide_eq_true (equiKey_iff.mp (h k hk)).2.2
    · rintro ⟨hs, he⟩ k hk
      have heq := of_decide_eq_true (he k hk)
      exact equiKey_iff.mpr ⟨heq ▸ hs k hk, hs k hk, heq⟩
  rw [partnered, Frame.dropna, Frame.filter_rows, List.any_filter]
  exact congrArg right.rows.any (funext hpair)

omit [DecidableEq V] in
/-- The tagged rows. -/
theorem tagRows_rows : (tagRows num left).rows = left.rows.zipIdx.map fun p => tagged num p.1 p.2 := by
  refine ofRows_rows_of_supported fun r hr c hc => ?_
  obtain ⟨p, hp, rfl⟩ := List.mem_map.mp hr
  have hne : c ≠ "__lid" := by
    rintro rfl
    exact hc tag_mem_columns
  have hnot : c ∉ left.columns := fun h => hc (by
    unfold addColumn
    split
    · exact h
    · exact List.mem_append_left _ h)
  rw [tagged, if_neg hne]
  exact left.supported _ (List.fst_mem_of_mem_zipIdx hp) c hnot

/-- The pairs of the merge, where there is no residual. -/
def tagSpec (V : Type) [DecidableEq V] (on : JoinOn V) (L R : List String) :
    JoinSpec (Row V) (Row V) (Row V) :=
  (tagLayout on L R).spec fun l r => sameKeys (keyPairs on) l r

/-- The numbers among the pairs are those of the rows whose tagged row has a partner. -/
theorem hits_eq (hnum : Function.Injective num) (hc : on.how ≠ .cross)
    (hlen : on.onLeft.length = on.onRight.length)
    (hnd : (tagLayout on left.columns right.columns).columns.Nodup)
    (hname : "__lid" ∈ right.columns → ("__lid", "__lid") ∈ keyPairs on) :
    ((List.range left.rows.length).map fun i => decide (some (num i) ∈ keepFirst id
      ((Frame.ofRows (tagLayout on left.columns right.columns).columns
        ((tagSpec V on left.columns right.columns).inner (tagRows num left).rows
          (right.dropna on.onRight).rows)).rows.map fun r => r "__lid"))) =
      left.rows.zipIdx.map fun p => partnered on right (tagged num p.1 p.2) := by
  have hrange : List.range left.rows.length = left.rows.zipIdx.map Prod.snd := by
    rw [List.zipIdx_map_snd, List.range_eq_range']
  rw [hrange, List.map_map]
  refine List.map_congr_left fun p hp => ?_
  have hkeep : ∀ (cells : List (Cell V)) (x : Cell V), x ∈ keepFirst id cells ↔ x ∈ cells :=
    fun cells x => mem_keepFirst_iff fun _ _ _ _ h => h
  rw [Function.comp_apply, partnered_eq hlen hc, Bool.eq_iff_iff, decide_eq_true_eq, hkeep,
    List.any_eq_true, Frame.ofRows_rows, List.map_map, List.mem_map]
  have hcell : ∀ (q : Row V × Nat) (r : Row V),
      restrict (tagLayout on left.columns right.columns).columns
        ((tagLayout on left.columns right.columns).row (tagged num q.1 q.2) r) "__lid" =
          some (num q.2) := fun q r => by
    rw [restrict_mem (tag_mem.mpr hname), tag_cell hnd hname]
  constructor
  · rintro ⟨t, ht, he⟩
    obtain ⟨l, hl, ht⟩ := List.mem_flatMap.mp ht
    obtain ⟨r, hr, rfl⟩ := List.mem_map.mp ht
    rw [tagRows_rows] at hl
    obtain ⟨q, hq, rfl⟩ := List.mem_map.mp hl
    have hnumber : q.2 = p.2 := hnum (Option.some.inj ((hcell q r).symm.trans he))
    have hrow : q.1 = p.1 := by
      have h₁ := List.mem_zipIdx_iff_getElem?.mp hq
      have h₂ := List.mem_zipIdx_iff_getElem?.mp hp
      rw [hnumber] at h₁
      exact Option.some.inj (h₁.symm.trans h₂)
    have hr := List.mem_filter.mp hr
    rw [← hrow, ← hnumber]
    exact ⟨r, hr.1, hr.2⟩
  · rintro ⟨r, hr, he⟩
    refine ⟨_, List.mem_flatMap.mpr ⟨tagged num p.1 p.2, ?_,
      List.mem_map_of_mem (List.mem_filter.mpr ⟨hr, he⟩)⟩, hcell p r⟩
    rw [tagRows_rows]
    exact List.mem_map.mpr ⟨p, hp, rfl⟩

/-- **What the tag-and-merge path returns**: the rows whose tagged row has a partner, where the tag
keeps its name. -/
theorem tagAndMerge_ok (hnum : Function.Injective num) (hc : on.how ≠ .cross)
    (hp : on.onPredicate = none) (hkeys : checkKeys on left.columns right.columns = .ok ())
    {f : Frame V} : tagAndMerge S num on left right = .ok f ↔
      ((tagLayout on left.columns right.columns).columns.Nodup ∧
        ("__lid" ∈ right.columns → ("__lid", "__lid") ∈ keyPairs on)) ∧
      f = boolIndex left (on.how.flipMask
        (left.rows.zipIdx.map fun p => partnered on right (tagged num p.1 p.2))) := by
  obtain ⟨hlen, hne, hl, hr⟩ := checkKeys_spec hc hkeys
  have hpairs : keyPairs { on with how := JoinHow.inner } = keyPairs on :=
    (if_neg fun h => nomatch h).trans (if_neg hc).symm
  have hchecked : checkKeys { on with how := JoinHow.inner } (tagRows num left).columns
      (right.dropna on.onRight).columns = .ok () :=
    checkKeys_of_subset hlen hne (fun c h => mem_addColumn.mpr (.inl (hl c h))) hr
  have hmerged : ∀ merged, mergeFrames S { on with how := JoinHow.inner } id id (tagRows num left)
      (right.dropna on.onRight) = .ok merged ↔
        (tagLayout on left.columns right.columns).columns.Nodup ∧
        merged = .ofRows (tagLayout on left.columns right.columns).columns
          ((tagSpec V on left.columns right.columns).inner (tagRows num left).rows
            (right.dropna on.onRight).rows) := by
    intro merged
    have hlay : layout id id (keyPairs { on with how := JoinHow.inner })
        (mergeOverlap id id (keyPairs { on with how := JoinHow.inner })
          (tagRows num left).columns (right.dropna on.onRight).columns) (tagRows num left).columns
          (right.dropna on.onRight).columns = tagLayout on left.columns right.columns := by
      rw [hpairs]
      rfl
    rw [mergeFrames_ok hlay]
    have htest : (fun l r => sameKeys (keyPairs { on with how := JoinHow.inner }) l r &&
        passes S (tagLayout on left.columns right.columns).columns on.onPredicate
          ((tagLayout on left.columns right.columns).row l r)) =
        fun l r => sameKeys (keyPairs on) l r := by
      funext l r
      rw [hpairs, hp]
      exact Bool.and_true _
    have hrun : ∀ ls rs, (tagSpec V on left.columns right.columns).run false false ls rs =
        (tagSpec V on left.columns right.columns).inner ls rs := fun ls rs => by
      rw [JoinSpec.run, if_neg Bool.false_ne_true, if_neg Bool.false_ne_true, List.append_nil,
        List.append_nil]
    have hcheck : checkOption (tagLayout on left.columns right.columns).columns on.onPredicate =
        .ok () := by
      rw [hp]
      rfl
    rw [htest]
    exact ⟨fun h => ⟨h.1.1, h.2.trans (congrArg _ (hrun _ _))⟩,
      fun h => ⟨⟨h.1, hcheck⟩, h.2.trans (congrArg _ (hrun _ _).symm)⟩⟩
  constructor
  · intro h
    obtain ⟨_, -, h⟩ := bind_eq_ok.mp h
    obtain ⟨merged, hm, h⟩ := bind_eq_ok.mp h
    obtain ⟨hnd, rfl⟩ := (hmerged merged).mp hm
    split at h
    · cases h
    · rename_i hmem
      have hname := tag_mem.mp (not_not.mp hmem)
      cases h
      exact ⟨⟨hnd, hname⟩, by rw [hits_eq hnum hc hlen hnd hname]⟩
  · rintro ⟨⟨hnd, hname⟩, rfl⟩
    refine bind_eq_ok.mpr ⟨(), hchecked, bind_eq_ok.mpr ⟨_, (hmerged _).mpr ⟨hnd, rfl⟩, ?_⟩⟩
    refine (if_neg (not_not.mpr (tag_mem.mpr hname))).trans ?_
    exact congrArg (fun hit => Except.ok (boolIndex left (on.how.flipMask hit)))
      (hits_eq hnum hc hlen hnd hname)

/-- A row whose key `__lid` is not overwritten has the partners it had. -/
theorem partnered_tagged (hc : on.how ≠ .cross) (h : "__lid" ∉ on.onLeft) (l : Row V) (i : Nat) :
    partnered on right (tagged num l i) = partnered on right l := by
  have hkeys : keyPairs on = on.onLeft.zip on.onRight := if_neg hc
  have hkey : ∀ r : Row V, ((keyPairs on).all fun k => equiKey k (tagged num l i) r) =
      (keyPairs on).all fun k => equiKey k l r := by
    intro r
    rw [Bool.eq_iff_iff, List.all_eq_true, List.all_eq_true]
    refine forall₂_congr fun k hk => ?_
    rw [hkeys] at hk
    have hne : k.1 ≠ "__lid" := fun he => h (he ▸ (List.of_mem_zip hk).1)
    rw [equiKey, equiKey, tagged, if_neg hne]
  rw [partnered, partnered]
  exact congrArg right.rows.any (funext hkey)

/-- **The single-key path keeps what is wanted.** -/
theorem isinPath_kept (hc : on.how ≠ .cross) (hkeys : checkKeys on left.columns right.columns = .ok ())
    {k k' : String} (hk : on.onLeft = [k]) (hk' : on.onRight = [k']) :
    isinPath on.how k k' left right = .ok (kept on left right) := by
  obtain ⟨-, -, hl, hr⟩ := checkKeys_spec hc hkeys
  have hpairs : keyPairs on = [(k, k')] := by
    rw [keyPairs, if_neg hc, hk, hk']
    rfl
  have hone : ∀ l : Row V, right.rows.any (equiKey (k, k') l) = partnered on right l := by
    intro l
    rw [partnered, hpairs]
    exact congrArg right.rows.any (funext fun r => (Bool.and_true _).symm)
  rw [isinPath_eq on.how (hl k (by rw [hk]; exact List.mem_cons_self))
    (hr k' (by rw [hk']; exact List.mem_cons_self))]
  simp only [hone]
  rfl

/-- **The tag-and-merge path keeps what is wanted exactly when the tag does its work.** -/
theorem tagAndMerge_kept_iff (hnum : Function.Injective num) (hc : on.how ≠ .cross)
    (hp : on.onPredicate = none) (hkeys : checkKeys on left.columns right.columns = .ok ()) :
    tagAndMerge S num on left right = .ok (kept on left right) ↔ Taggable num on left right := by
  have hplain : left.rows.map (partnered on right) =
      left.rows.zipIdx.map fun p => partnered on right p.1 := by
    have hfst : left.rows.zipIdx.map Prod.fst = left.rows := List.zipIdx_map_fst 0 left.rows
    nth_rewrite 1 [← hfst]
    rw [List.map_map]
    rfl
  rw [tagAndMerge_ok hnum hc hp hkeys]
  constructor
  · rintro ⟨⟨hnd, hname⟩, hmask⟩
    refine ⟨hnd, hname, fun _ p hmem => ?_⟩
    have hrows := eq_of_boolIndex (by rw [List.length_map, List.length_zipIdx]) hmask.symm
    rw [hplain] at hrows
    exact List.map_inj_left.mp hrows p hmem
  · intro h
    refine ⟨⟨h.columns, h.name⟩, ?_⟩
    have hmask : (left.rows.zipIdx.map fun p => partnered on right (tagged num p.1 p.2)) =
        left.rows.map (partnered on right) := by
      rw [hplain]
      refine List.map_congr_left fun p hmem => ?_
      by_cases htag : "__lid" ∈ on.onLeft
      · exact h.keys htag p hmem
      · exact partnered_tagged hc htag p.1 p.2
    rw [hmask, boolIndex_flip]
    rfl

end Paths

/-! ## 6. Agreement -/

theorem JoinHow.ne_cross_of_semi {how : JoinHow} (h : how.isSemi = true) : how ≠ .cross := by
  rintro rfl
  cases h

/-- The model of the plans keeps what is wanted. -/
theorem semiAntiJoin_kept (S : Scalars V) {on : JoinOn V} {left right : Frame V}
    (hc : on.how ≠ .cross) (hlen : on.onLeft.length = on.onRight.length)
    (hp : on.onPredicate = none) : semiAntiJoin S on left right = .ok (kept on left right) := by
  have hkeys : keyPairs on = on.onLeft.zip on.onRight := if_neg hc
  have hhit : ∀ l : Row V, (right.rows.any fun r => nonNullKeys (keyPairs on) r &&
      sameKeys (keyPairs on) l r && true) = partnered on right l := by
    intro l
    rw [partnered_eq hlen hc, Frame.dropna, Frame.filter_rows, List.any_filter]
    refine congrArg right.rows.any (funext fun r => ?_)
    rw [Bool.and_true, hkeys, nonNullKeys_zip hlen]
  rw [semiAntiJoin, hp]
  simp only [passes, hhit]
  rfl

/-- **The function is the one the plans use**, where the tag does its work. -/
theorem semiAnti_eq (S : Scalars V) {num : Nat → V} (hnum : Function.Injective num)
    {on : JoinOn V} {left right : Frame V} (hs : on.how.isSemi = true) (hp : on.onPredicate = none)
    (hkeys : checkKeys on left.columns right.columns = .ok ()) (ht : Taggable num on left right) :
    semiAnti S num on left right = semiAntiJoin S on left right := by
  have hc := JoinHow.ne_cross_of_semi hs
  obtain ⟨hlen, -, -, -⟩ := checkKeys_spec hc hkeys
  rw [semiAntiJoin_kept S hc hlen hp, semiAnti]
  split
  · rename_i k k' rest hk hk' _
    rw [hk, hk', List.length_singleton, List.length_cons] at hlen
    have hrest : rest = [] := List.length_eq_zero_iff.mp (Nat.succ.inj hlen).symm
    exact isinPath_kept hc hkeys hk (hrest ▸ hk')
  · exact (tagAndMerge_kept_iff hnum hc hp hkeys).mpr ht

/-- **Both algorithms of a semi or anti join keep the left rows that EXISTS or NOT EXISTS keeps**, in
their order and each once, if and only if the tag of the second does its work.  The numbers of rows
are values that tell the rows apart (`num`), there is no residual, which only the second algorithm
could evaluate, and the keys are columns of their sides, as many on the left as on the right. -/
theorem semi_anti_agree (S : Scalars V) {num : Nat → V} (hnum : Function.Injective num)
    {on : JoinOn V} {left right : Frame V} (hs : on.how.isSemi = true) (hp : on.onPredicate = none)
    (hkeys : checkKeys on left.columns right.columns = .ok ()) :
    (tagAndMerge S num on left right = .ok (kept on left right) ∧
      ∀ k k', on.onLeft = [k] → on.onRight = [k'] →
        isinPath on.how k k' left right = .ok (kept on left right)) ↔
      Taggable num on left right := by
  have hc := JoinHow.ne_cross_of_semi hs
  rw [tagAndMerge_kept_iff hnum hc hp hkeys]
  exact and_iff_left fun k k' => isinPath_kept hc hkeys

/-- `t(<first>, k)` with the row `(5, 1)`, and `u(a, b)` with the row `(0, 1)`. -/
def tagSides (first : String) : Frame Nat × Frame Nat :=
  (numbers [first, "k"] [[some 5, some 1]], numbers ["a", "b"] [[some 0, some 1]])

/-- `EXISTS (SELECT 1 FROM u WHERE u.a = t.<first> AND u.b = t.k)`. -/
def tagOn (first : String) : JoinOn Nat := ⟨[first, "k"], ["a", "b"], .semi, none, false⟩

/-- The row has no partner, and is dropped when its columns are `j` and `k`. -/
theorem semi_anti_agree_dropped :
    tagAndMerge natScalars id (tagOn "j") (tagSides "j").1 (tagSides "j").2 =
      .ok (kept (tagOn "j") (tagSides "j").1 (tagSides "j").2) := by
  have htag : Taggable (id : Nat → Nat) (tagOn "j") (tagSides "j").1 (tagSides "j").2 :=
    ⟨by decide, fun h => absurd h (by decide), fun h => absurd h (by decide)⟩
  exact ((semi_anti_agree natScalars Function.injective_id rfl rfl (by decide)).mpr htag).1

/-- **A row without a partner is kept for its number** when the first key is called `__lid`. -/
theorem row_number_matched :
    shown (semiAnti natScalars id (tagOn "__lid") (tagSides "__lid").1 (tagSides "__lid").2) =
        some (["__lid", "k"], [[some 5, some 1]]) ∧
      shown (.ok (kept (tagOn "__lid") (tagSides "__lid").1 (tagSides "__lid").2)) =
        some (["__lid", "k"], []) := by
  constructor
  · decide
  · decide

end RyuDB.Sql
