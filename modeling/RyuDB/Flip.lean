/-
# A join with its sides exchanged

`joined on la ra left right` against `joined on.flip ra la right left`: the same columns and the
same rows, up to order, when no column got a suffix and every coalesced key has one name on both
sides and is compared (`tidy`).  A suffix says which side a column is from, so it does not
survive the exchange.

The columns of the exchanged join are those of the join with every source flipped
(`joinLayout_flip`).  Reading a flipped source from the flipped pair gives the same cell on
every pair the join builds: a coalesced key is equal on both sides of a match, and beside a
missing side there is nothing to prefer.

A layout is a list of columns, each with the place its cells come from, and everything about an
exchange is first said about layouts and only then about rows.  That keeps the rows out of the case
analysis of the four paths of `_join`, each of which has a layout of its own.

Section 1 says that a layout without repetition may be read in any order; with it a join of reordered
inputs is the join, reordered (`joined_perm`), which is what the reordering of a whole tree of joins
needs besides the exchange itself.  Sections 3 and 4 are the exchange: first the columns, then the
rows (`joined_flip`).  Semi and anti joins are excluded, since they return the columns of their left
side only.
-/
import Mathlib.Data.List.Zip
import RyuDB.Reorder

namespace RyuDB.Sql

variable {V : Type}

/-! ## 1. Layouts up to order -/

/-- The source of a column of a layout without repetition is the one it is listed with. -/
theorem source_eq_some_iff {lay : Layout} (h : lay.columns.Nodup) {n : String} {s : Source} :
    lay.source n = some s ↔ (n, s) ∈ lay := by
  induction lay with
  | nil => simp [Layout.source]
  | cons e l ih =>
    obtain ⟨he, hl⟩ := List.nodup_cons.mp h
    rw [Layout.source, List.lookup_cons, List.mem_cons]
    by_cases hn : n = e.1
    · subst hn
      rw [beq_self_eq_true]
      simp only [Option.some.injEq]
      constructor
      · exact fun h => .inl (by rw [← h])
      · rintro (h | h)
        · rw [← h]
        · exact absurd (List.mem_map_of_mem h) he
    · rw [beq_false_of_ne hn]
      refine (ih hl).trans ⟨.inr, fun h => h.resolve_left ?_⟩
      exact fun h => hn (by rw [← h])

/-- A layout without repetition is read the same in any order. -/
theorem source_perm {lay lay' : Layout} (h : lay.Perm lay') (hnd : lay.columns.Nodup)
    (n : String) : lay.source n = lay'.source n := by
  have hnd' : lay'.columns.Nodup := (h.map Prod.fst).nodup_iff.mp hnd
  cases hs : lay.source n with
  | some s =>
    exact ((source_eq_some_iff hnd').mpr (h.mem_iff.mp ((source_eq_some_iff hnd).mp hs))).symm
  | none =>
    cases hs' : lay'.source n with
    | none => rfl
    | some s =>
      rw [(source_eq_some_iff hnd).mpr (h.mem_iff.mpr ((source_eq_some_iff hnd').mp hs'))] at hs
      cases hs

theorem row_perm {lay lay' : Layout} (h : lay.Perm lay') (hnd : lay.columns.Nodup)
    (l r : Row V) : lay.row l r = lay'.row l r := by
  funext n
  rw [Layout.row, Layout.row, source_perm h hnd]

theorem entry_congr {ov ov' : List String} (h : ∀ n, n ∈ ov ↔ n ∈ ov') (nl nr : String → String)
    (keys : List (String × String)) :
    leftEntry nl nr keys ov = leftEntry nl nr keys ov' ∧ rightEntry nr ov = rightEntry nr ov' := by
  constructor
  · funext c
    simp only [leftEntry, h]
  · funext d
    simp only [rightEntry, h]

theorem layout_perm {nl nr : String → String} {keys : List (String × String)}
    {ov ov' L L' R R' : List String} (hov : ∀ n, n ∈ ov ↔ n ∈ ov') (hL : L.Perm L')
    (hR : R.Perm R') : (layout nl nr keys ov L R).Perm (layout nl nr keys ov' L' R') := by
  rw [layout, layout, (entry_congr hov nl nr keys).1, (entry_congr hov nl nr keys).2]
  exact (hL.map _).append ((hR.filter _).map _)

theorem mem_mergeOverlap {nl nr : String → String} {keys : List (String × String)}
    {L R : List String} {n : String} : n ∈ mergeOverlap nl nr keys L R ↔
      (∃ c ∈ L, coalesced nl nr keys c = none ∧ nl c = n) ∧
        ∃ d ∈ R, absorbed nl nr keys d = false ∧ nr d = n := by
  simp [mergeOverlap, and_assoc]

theorem mem_nonKeys {keys : List (String × String)} {side : String × String → String}
    {cols : List String} {c : String} :
    c ∈ nonKeys keys side cols ↔ c ∈ cols ∧ ∀ k ∈ keys, side k ≠ c := by
  simp [nonKeys]

theorem mem_residualOverlap {keys : List (String × String)} {L R : List String} {c : String} :
    c ∈ residualOverlap keys L R ↔
      c ∈ nonKeys keys Prod.fst L ∧ c ∈ nonKeys keys Prod.snd R := by
  simp [residualOverlap]

theorem mem_collisions {L R : List String} {c : String} :
    c ∈ collisions L R ↔ c ∈ L ∧ c ∈ R := by
  simp [collisions]

theorem collisions_nil {L L' R R' : List String} (h : ∀ c, c ∈ collisions L R ↔ c ∈ collisions L' R') :
    collisions L R = [] ↔ collisions L' R' = [] := by
  rw [List.eq_nil_iff_forall_not_mem, List.eq_nil_iff_forall_not_mem]
  exact forall_congr' fun c => not_congr (h c)

theorem renamed_congr {C C' : List String} (h : ∀ c, c ∈ C ↔ c ∈ C') (a : String) :
    renamed C a = renamed C' a := by
  funext c
  simp only [renamed, h]

theorem joinNames_perm {on : JoinOn V} {la ra : Option String} {L L' R R' : List String}
    (hL : L.Perm L') (hR : R.Perm R') : joinNames on la ra L R = joinNames on la ra L' R' := by
  have hc : ∀ c, c ∈ collisions L R ↔ c ∈ collisions L' R' := fun c => by
    rw [mem_collisions, mem_collisions, hL.mem_iff, hR.mem_iff]
  simp only [joinNames, collisions_nil hc, renamed_congr hc]

theorem residualLayout_perm {keys : List (String × String)} {L L' R R' : List String}
    (hL : L.Perm L') (hR : R.Perm R') :
    (residualLayout keys L R).Perm (residualLayout keys L' R') := by
  refine layout_perm (fun c => ?_) (hL.filter _) (hR.filter _)
  rw [mem_residualOverlap, mem_residualOverlap]
  simp only [mem_nonKeys, hL.mem_iff, hR.mem_iff]

/-- The columns of a join of reordered inputs are those of the join, reordered. -/
theorem joinLayout_perm {on : JoinOn V} {la ra : Option String} {L L' R R' : List String}
    (hL : L.Perm L') (hR : R.Perm R') :
    (joinLayout on la ra L R).Perm (joinLayout on la ra L' R') := by
  cases hpad : on.padded with
  | true =>
    rw [joinLayout_padded _ _ _ _ hpad, joinLayout_padded _ _ _ _ hpad]
    refine layout_perm (fun c => ?_) hL hR
    rw [mem_residualOverlap, mem_residualOverlap]
    simp only [mem_nonKeys, hL.mem_iff, hR.mem_iff]
  | false =>
    rw [joinLayout_merge _ _ _ _ hpad, joinLayout_merge _ _ _ _ hpad, joinNames_perm hL hR]
    refine layout_perm (fun c => ?_) hL hR
    simp only [mem_mergeOverlap, hL.mem_iff, hR.mem_iff]

theorem predLayout_perm {on : JoinOn V} {la ra : Option String} {L L' R R' : List String}
    (hL : L.Perm L') (hR : R.Perm R') :
    (predLayout on la ra L R).Perm (predLayout on la ra L' R') := by
  unfold predLayout
  split
  · exact residualLayout_perm hL hR
  · exact joinLayout_perm hL hR

theorem coalesced_none {nl nr : String → String} {keys : List (String × String)} {c : String}
    (h : ∀ k ∈ keys, k.1 ≠ c) : coalesced nl nr keys c = none := by
  rw [coalesced, Option.map_eq_none_iff, List.find?_eq_none]
  intro k hk
  simp [h k hk]

theorem absorbed_false {nl nr : String → String} {keys : List (String × String)} {d : String}
    (h : ∀ k ∈ keys, k.2 ≠ d) : absorbed nl nr keys d = false := by
  rw [absorbed, List.any_eq_false]
  intro k hk
  simp [h k hk]

/-- Two sides without a common column are put side by side. -/
theorem layout_apart {keys : List (String × String)} {L R : List String} (h : ∀ c ∈ L, c ∉ R)
    (hkeys : ∀ k ∈ keys, k.1 ∈ L ∧ k.2 ∈ R) :
    layout id id keys (mergeOverlap id id keys L R) L R =
      (L.map fun c => (c, Source.left c)) ++ R.map fun d => (d, Source.right d) := by
  have hne : ∀ k ∈ keys, k.1 ≠ k.2 := fun k hk he => h k.1 (hkeys k hk).1 (he ▸ (hkeys k hk).2)
  have hco : ∀ c, coalesced id id keys c = none := by
    intro c
    rw [coalesced, Option.map_eq_none_iff, List.find?_eq_none]
    intro k hk
    simp [hne k hk]
  have hab : ∀ d, absorbed id id keys d = false := by
    intro d
    rw [absorbed, List.any_eq_false]
    intro k hk
    simp [hne k hk]
  have hover : mergeOverlap id id keys L R = [] := by
    rw [mergeOverlap, List.filter_eq_nil_iff]
    intro n hn
    obtain ⟨c, hc, rfl⟩ := List.mem_map.mp hn
    simpa [hab] using h c (List.mem_filter.mp hc).1
  have hall : R.filter (fun d => !absorbed id id keys d) = R :=
    List.filter_eq_self.mpr fun d _ => by rw [hab]; rfl
  rw [layout, hover, hall]
  refine congrArg₂ _ (List.map_congr_left fun c _ => ?_) (List.map_congr_left fun d _ => ?_)
  · rw [leftEntry, hco]
    rfl
  · rfl

/-- What a residual sees is part of what the join returns. -/
theorem residualLayout_sublist (keys : List (String × String)) (L R : List String) :
    (residualLayout keys L R).Sublist
      (layout id id keys (residualOverlap keys L R) L R) := by
  have hleft : (nonKeys keys Prod.fst L).map (leftEntry id id [] (residualOverlap keys L R)) =
      (nonKeys keys Prod.fst L).map (leftEntry id id keys (residualOverlap keys L R)) := by
    refine List.map_congr_left fun c hc => ?_
    rw [leftEntry, leftEntry, coalesced_none (mem_nonKeys.mp hc).2, coalesced_none (by simp)]
  have hright : (nonKeys keys Prod.snd R).filter (fun d => !absorbed id id [] d) =
      (nonKeys keys Prod.snd R).filter fun d => !absorbed id id keys d := by
    refine List.filter_congr fun d hd => ?_
    rw [absorbed_false (mem_nonKeys.mp hd).2, absorbed_false (by simp)]
  rw [residualLayout, layout, layout, hleft, hright]
  exact (List.filter_sublist.map _).append ((List.filter_sublist.filter _).map _)

/-- The columns a residual sees have different names when those of the join have. -/
theorem predLayout_nodup {on : JoinOn V} {la ra : Option String} {L R : List String}
    (h : (joinLayout on la ra L R).columns.Nodup) : (predLayout on la ra L R).columns.Nodup := by
  unfold predLayout
  split
  · rename_i hpad
    rw [joinLayout_padded _ _ _ _ hpad] at h
    exact h.sublist ((residualLayout_sublist _ L R).map _)
  · exact h

/-! ## 2. A join of reordered inputs -/

variable [DecidableEq V]

/-- The test of a join reads its columns by name, so their order does not matter. -/
theorem joinTest_perm {S : Scalars V} {on : JoinOn V} {la ra : Option String}
    {L L' R R' : List String} (hL : L.Perm L') (hR : R.Perm R')
    (hnd : on.onPredicate.isSome = true → (joinLayout on la ra L R).columns.Nodup) :
    joinTest S on la ra L R = joinTest S on la ra L' R' := by
  funext l r
  have hperm : (predLayout on la ra L R).Perm (predLayout on la ra L' R') :=
    predLayout_perm hL hR
  have hcols : ∀ n, n ∈ (predLayout on la ra L R).columns ↔
      n ∈ (predLayout on la ra L' R').columns := fun n => (hperm.map Prod.fst).mem_iff
  have hpass : passes S (predLayout on la ra L R).columns on.onPredicate
      ((predLayout on la ra L R).row l r) = passes S (predLayout on la ra L' R').columns
      on.onPredicate ((predLayout on la ra L' R').row l r) := by
    cases hp : on.onPredicate with
    | none => rfl
    | some p =>
      rw [row_perm hperm (predLayout_nodup (hnd (by rw [hp]; rfl)))]
      exact passes_congr hcols _ _
  rw [joinTest, joinTest, hpass]

omit [DecidableEq V] in
theorem checkKeys_perm {on : JoinOn V} {L L' R R' : List String} (hL : L.Perm L')
    (hR : R.Perm R') (h : checkKeys on L R = .ok ()) : checkKeys on L' R' = .ok () := by
  have hl : on.onLeft.filter (· ∉ L') = on.onLeft.filter (· ∉ L) :=
    List.filter_congr fun c _ => by simp only [hL.mem_iff]
  have hr : on.onRight.filter (· ∉ R') = on.onRight.filter (· ∉ R) :=
    List.filter_congr fun c _ => by simp only [hR.mem_iff]
  unfold checkKeys at h ⊢
  rw [hl, hr]
  exact h

omit [DecidableEq V] in
theorem Fits.perm {on : JoinOn V} {la ra : Option String} {L L' R R' : List String}
    (h : Fits on la ra L R) (hL : L.Perm L') (hR : R.Perm R') : Fits on la ra L' R' where
  names := by
    have hc : ∀ c, c ∈ collisions L R ↔ c ∈ collisions L' R' := fun c => by
      rw [mem_collisions, mem_collisions, hL.mem_iff, hR.mem_iff]
    rw [← collisions_nil hc]
    exact h.names
  keys := checkKeys_perm hL hR h.keys
  restore := h.restore
  nodup := fun hs => ((joinLayout_perm hL hR).map Prod.fst).nodup_iff.mp (h.nodup hs)
  pred := fun hp => (checkOption_congr fun n =>
    ((joinLayout_perm hL hR).map Prod.fst).mem_iff).mp (h.pred hp)

theorem Joinable.alike {on : JoinOn V} {la ra : Option String} {l l' r r' : Frame V}
    (h : Joinable on la ra l r) (hl : Alike l l') (hr : Alike r r') :
    Joinable on la ra l' r' where
  fits := h.fits.perm hl.columns hr.columns
  residual hp hex := by
    obtain ⟨x, hx, y, hy, hk⟩ := hex
    have hres := h.residual hp ⟨x, hl.rows.mem_iff.mpr hx, y, hr.rows.mem_iff.mpr hy, hk⟩
    exact (checkOption_congr fun n =>
      ((predLayout_perm hl.columns hr.columns).map Prod.fst).mem_iff).mp hres

/-- The join of reordered inputs is the join, reordered. -/
theorem joined_perm {S : Scalars V} {on : JoinOn V} {la ra : Option String} {l l' r r' : Frame V}
    (hj : Joinable on la ra l r) (hl : Alike l l') (hr : Alike r r') :
    Alike (joined S on la ra l r) (joined S on la ra l' r') := by
  have htest : joinTest S on la ra l.columns r.columns = joinTest S on la ra l'.columns r'.columns :=
    joinTest_perm hl.columns hr.columns fun hp => hj.fits.nodup (.inr hp)
  by_cases hs : on.how.isSemi = true
  · rw [joined, joined, if_pos hs, if_pos hs]
    refine ⟨hl.columns, ?_⟩
    have hhit : semiHit S on la ra l.columns r.columns r.rows =
        semiHit S on la ra l'.columns r'.columns r'.rows := by
      funext x
      rw [semiHit, semiHit, htest, hr.rows.any_eq]
    rw [Frame.filter_rows, Frame.filter_rows, hhit]
    exact hl.rows.filter _
  · have hs' : on.how.isSemi = false := Bool.eq_false_iff.mpr hs
    have hlay : (joinLayout on la ra l.columns r.columns).Perm
        (joinLayout on la ra l'.columns r'.columns) := joinLayout_perm hl.columns hr.columns
    have hspec : joinSpec S on la ra l.columns r.columns =
        joinSpec S on la ra l'.columns r'.columns := by
      have hrow : (joinLayout on la ra l.columns r.columns).row =
          (joinLayout on la ra l'.columns r'.columns).row (V := V) :=
        funext fun x => funext fun y => row_perm hlay (hj.fits.nodup (.inl hs')) x y
      rw [joinSpec, joinSpec, Layout.spec, Layout.spec, htest, hrow]
    refine ⟨?_, ?_⟩
    · rw [joined_columns, joined_columns, if_neg hs, if_neg hs]
      exact hlay.map Prod.fst
    · rw [joined_rows hs', joined_rows hs', hspec]
      exact JoinSpec.run_perm _ hl.rows hr.rows _ _

/-! ## 3. The layout of an exchanged join

The exchanged join lists its columns with the other side first.  Its entries are those of the join
with `left` and `right` exchanged.  This is where `tidy` is needed: a suffix `_x` or `_y` says which
side a column is from, and a coalesced key shows the cell of the side that comes first, unless the
join compares it. -/

/-- The source on the other side. -/
def Source.flip : Source → Source
  | .left c => .right c
  | .right c => .left c
  | .both c d => .both d c

/-- The columns of the join that are suffixed. -/
def joinOverlap (on : JoinOn V) (la ra : Option String) (L R : List String) : List String :=
  if on.padded then residualOverlap (keyPairs on) L R
  else mergeOverlap (joinNames on la ra L R).1 (joinNames on la ra L R).2 (keyPairs on) L R

/-- The names the columns of the two sides go by in the result. -/
def layoutNames (on : JoinOn V) (la ra : Option String) (L R : List String) :
    (String → String) × (String → String) :=
  if on.padded then (id, id) else joinNames on la ra L R

/-- **A join whose sides leave no trace in its columns**: no column has a suffix, and every
coalesced key has one name on both sides and is compared. -/
def tidy (on : JoinOn V) (la ra : Option String) (L R : List String) : Bool :=
  decide (joinOverlap on la ra L R = []) && (keyPairs on).all fun k =>
    decide ((layoutNames on la ra L R).1 k.1 = (layoutNames on la ra L R).2 k.2 →
      k.1 = k.2 ∧ k ∈ testKeys on)

omit [DecidableEq V] in
theorem tidy_spec {on : JoinOn V} {la ra : Option String} {L R : List String}
    (h : tidy on la ra L R = true) : joinOverlap on la ra L R = [] ∧
      ∀ k ∈ keyPairs on, (layoutNames on la ra L R).1 k.1 = (layoutNames on la ra L R).2 k.2 →
        k.1 = k.2 ∧ k ∈ testKeys on := by
  rw [tidy, Bool.and_eq_true, decide_eq_true_eq, List.all_eq_true] at h
  exact ⟨h.1, fun k hk => of_decide_eq_true (h.2 k hk)⟩

omit [DecidableEq V] in
theorem joinLayout_eq (on : JoinOn V) (la ra : Option String) (L R : List String) :
    joinLayout on la ra L R = layout (layoutNames on la ra L R).1 (layoutNames on la ra L R).2
      (keyPairs on) (joinOverlap on la ra L R) L R := by
  unfold joinLayout layoutNames joinOverlap
  split <;> rfl

omit [DecidableEq V] in
theorem keyPairs_flip (on : JoinOn V) : keyPairs on.flip = (keyPairs on).map Prod.swap := by
  unfold keyPairs
  have hcross : on.flip.how = .cross ↔ on.how = .cross := by
    cases h : on.how <;> simp [JoinOn.flip, JoinHow.flip, h]
  by_cases hc : on.how = .cross
  · rw [if_pos hc, if_pos (hcross.mpr hc)]
    rfl
  · rw [if_neg hc, if_neg fun h => hc (hcross.mp h)]
    exact (List.zip_swap on.onLeft on.onRight).symm

omit [DecidableEq V] in
theorem padded_flip (on : JoinOn V) : on.flip.padded = on.padded := by
  unfold JoinOn.padded
  cases h : on.how <;> simp [JoinOn.flip, JoinHow.flip, JoinHow.isOuter, h]

omit [DecidableEq V] in
theorem isSemi_flip (on : JoinOn V) : on.flip.how.isSemi = on.how.isSemi := by
  cases h : on.how <;> simp [JoinOn.flip, JoinHow.flip, JoinHow.isSemi, h]

omit [DecidableEq V] in
theorem keepsLeft_flip (on : JoinOn V) : on.flip.how.keepsLeft = on.how.keepsRight := by
  cases h : on.how <;> simp [JoinOn.flip, JoinHow.flip, JoinHow.keepsLeft, JoinHow.keepsRight, h]

omit [DecidableEq V] in
theorem keepsRight_flip (on : JoinOn V) : on.flip.how.keepsRight = on.how.keepsLeft := by
  cases h : on.how <;> simp [JoinOn.flip, JoinHow.flip, JoinHow.keepsLeft, JoinHow.keepsRight, h]

omit [DecidableEq V] in
theorem testKeys_flip (on : JoinOn V) : testKeys on.flip = (testKeys on).map Prod.swap := by
  unfold testKeys
  rw [padded_flip, keyPairs_flip]
  split
  · rw [residualKeys, residualKeys, ← List.zip_swap, List.map_map, List.map_map]
    rfl
  · rfl

omit [DecidableEq V] in
theorem joinNames_flip {on : JoinOn V} {la ra : Option String} {L R : List String} :
    joinNames on.flip ra la R L = (joinNames on la ra L R).swap := by
  have hc : ∀ c, c ∈ collisions R L ↔ c ∈ collisions L R := fun c => by
    rw [mem_collisions, mem_collisions, and_comm]
  have hu : on.flip.usingKeys = on.usingKeys := rfl
  unfold joinNames
  rw [hu, isSemi_flip]
  simp only [collisions_nil hc]
  split
  · rfl
  · cases la <;> cases ra <;> simp [renamed_congr hc]

omit [DecidableEq V] in
/-- When coalesced keys have one name, the columns of a layout without suffixes. -/
theorem coalesced_eq {nl nr : String → String} {keys : List (String × String)}
    (h : ∀ k ∈ keys, nl k.1 = nr k.2 → k.1 = k.2) (c : String) :
    coalesced nl nr keys c = if (c, c) ∈ keys ∧ nl c = nr c then some c else none := by
  split
  · rename_i hc
    rw [coalesced, Option.map_eq_some_iff]
    have hsome : (keys.find? fun k => decide (k.1 = c) && decide (nl k.1 = nr k.2)).isSome = true := by
      rw [List.find?_isSome]
      exact ⟨(c, c), hc.1, by simp [hc.2]⟩
    obtain ⟨k, hk⟩ := Option.isSome_iff_exists.mp hsome
    have hp := List.find?_some hk
    simp only [Bool.and_eq_true, decide_eq_true_eq] at hp
    exact ⟨k, hk, (h k (List.mem_of_find?_eq_some hk) hp.2).symm.trans hp.1⟩
  · rename_i hc
    rw [coalesced, Option.map_eq_none_iff, List.find?_eq_none]
    intro k hk hp
    simp only [Bool.and_eq_true, decide_eq_true_eq] at hp
    have heq := h k hk hp.2
    have hkc : k = (c, c) := Prod.ext hp.1 (heq ▸ hp.1)
    exact hc ⟨hkc ▸ hk, by rw [hkc] at hp; exact hp.2⟩

omit [DecidableEq V] in
theorem absorbed_eq {nl nr : String → String} {keys : List (String × String)}
    (h : ∀ k ∈ keys, nl k.1 = nr k.2 → k.1 = k.2) (d : String) :
    absorbed nl nr keys d = decide ((d, d) ∈ keys ∧ nl d = nr d) := by
  rw [Bool.eq_iff_iff, absorbed, List.any_eq_true, decide_eq_true_eq]
  constructor
  · rintro ⟨k, hk, hp⟩
    simp only [Bool.and_eq_true, decide_eq_true_eq] at hp
    have heq := h k hk hp.2
    have hkd : k = (d, d) := Prod.ext (heq.trans hp.1) hp.1
    exact ⟨hkd ▸ hk, by rw [hkd] at hp; exact hp.2⟩
  · rintro ⟨hk, hn⟩
    exact ⟨(d, d), hk, by simp [hn]⟩

omit [DecidableEq V] in
/-- **The columns of a layout with the sides exchanged**, sources flipped. -/
theorem layout_flip {nl nr : String → String} {keys : List (String × String)} {L R : List String}
    (hL : L.Nodup) (hR : R.Nodup) (hkeys : ∀ k ∈ keys, k.1 ∈ L ∧ k.2 ∈ R)
    (h : ∀ k ∈ keys, nl k.1 = nr k.2 → k.1 = k.2) :
    ((layout nl nr keys [] L R).map fun e => (e.1, e.2.flip)).Perm
      (layout nr nl (keys.map Prod.swap) [] R L) := by
  -- the coalesced keys are the same list of names on both sides
  let shared : String → Bool := fun c => decide ((c, c) ∈ keys ∧ nl c = nr c)
  have hswap : ∀ k ∈ keys.map Prod.swap, nr k.1 = nl k.2 → k.1 = k.2 := by
    intro k hk hn
    obtain ⟨k', hk', rfl⟩ := List.mem_map.mp hk
    exact (h k' hk' hn.symm).symm
  have hmem : ∀ c, (c, c) ∈ keys.map Prod.swap ↔ (c, c) ∈ keys := by
    intro c
    constructor
    · intro hc
      obtain ⟨⟨a, b⟩, hk, he⟩ := List.mem_map.mp hc
      cases he
      exact hk
    · exact fun hc => List.mem_map.mpr ⟨(c, c), hc, rfl⟩
  have hsplit : ∀ {β : Type} (l : List String) (a b : String → β),
      (l.map fun c => if shared c then a c else b c).Perm
        ((l.filter shared).map a ++ (l.filter fun c => !shared c).map b) := by
    intro β l a b
    induction l with
    | nil => exact .nil
    | cons c l ih =>
      cases hc : shared c with
      | true => simpa [hc] using ih.cons (a c)
      | false => simpa [hc] using (ih.cons (b c)).trans List.perm_middle.symm
  have hshared : (L.filter shared).Perm (R.filter shared) := by
    rw [List.perm_ext_iff_of_nodup (hL.filter _) (hR.filter _)]
    intro c
    simp only [List.mem_filter, shared, decide_eq_true_eq]
    constructor
    · exact fun hc => ⟨(hkeys _ hc.2.1).2, hc.2⟩
    · exact fun hc => ⟨(hkeys _ hc.2.1).1, hc.2⟩
  have hleft : (fun c => ((leftEntry nl nr keys [] c).1, (leftEntry nl nr keys [] c).2.flip)) =
      fun c => if shared c then (nl c, Source.both c c) else (nl c, Source.right c) := by
    funext c
    rw [leftEntry, coalesced_eq h]
    by_cases hc : (c, c) ∈ keys ∧ nl c = nr c <;> simp [shared, hc, Source.flip]
  have hleft' : leftEntry nr nl (keys.map Prod.swap) [] =
      fun d => if shared d then (nr d, Source.both d d) else (nr d, Source.left d) := by
    funext d
    rw [leftEntry, coalesced_eq hswap]
    simp only [hmem]
    by_cases hd : (d, d) ∈ keys ∧ nl d = nr d
    · simp [shared, hd]
    · have hd' : ¬((d, d) ∈ keys ∧ nr d = nl d) := fun hd' => hd ⟨hd'.1, hd'.2.symm⟩
      simp [shared, hd, hd']
  have habs : absorbed nl nr keys = shared := funext fun d => absorbed_eq h d
  have habs' : absorbed nr nl (keys.map Prod.swap) = shared := by
    funext d
    rw [absorbed_eq hswap, decide_eq_decide, hmem]
    exact and_congr_right fun _ => eq_comm
  rw [layout, layout, List.map_append, List.map_map, List.map_map, habs, habs', hleft']
  have hcomp : ((fun e : String × Source => (e.1, e.2.flip)) ∘ leftEntry nl nr keys []) =
      fun c => if shared c then (nl c, Source.both c c) else (nl c, Source.right c) := hleft
  rw [hcomp]
  have hboth : ((L.filter shared).map fun c => (nl c, Source.both c c)).Perm
      ((R.filter shared).map fun d => (nr d, Source.both d d)) := by
    refine (hshared.map _).trans (List.Perm.of_eq (List.map_congr_left fun c hc => ?_))
    have hn := of_decide_eq_true (List.mem_filter.mp hc).2
    rw [hn.2]
  refine ((hsplit L _ _).append_right _).trans ?_
  refine .trans ?_ ((hsplit R _ _).append_right _).symm
  rw [List.append_assoc, List.append_assoc]
  exact hboth.append List.perm_append_comm

omit [DecidableEq V] in
theorem layoutNames_flip {on : JoinOn V} {la ra : Option String} {L R : List String} :
    layoutNames on.flip ra la R L = (layoutNames on la ra L R).swap := by
  unfold layoutNames
  rw [padded_flip, joinNames_flip]
  split <;> rfl

omit [DecidableEq V] in
theorem nonKeys_flip (keys : List (String × String)) (cols : List String) :
    nonKeys (keys.map Prod.swap) Prod.fst cols = nonKeys keys Prod.snd cols ∧
      nonKeys (keys.map Prod.swap) Prod.snd cols = nonKeys keys Prod.fst cols := by
  simp [nonKeys, List.any_map, Function.comp_def]

omit [DecidableEq V] in
theorem residualOverlap_flip {keys : List (String × String)} {L R : List String}
    (h : residualOverlap keys L R = []) : residualOverlap (keys.map Prod.swap) R L = [] := by
  rw [List.eq_nil_iff_forall_not_mem] at h ⊢
  intro c hc
  rw [mem_residualOverlap, (nonKeys_flip keys R).1, (nonKeys_flip keys L).2] at hc
  exact h c (mem_residualOverlap.mpr hc.symm)

omit [DecidableEq V] in
theorem mergeOverlap_flip {nl nr : String → String} {keys : List (String × String)}
    {L R : List String} (hone : ∀ k ∈ keys, nl k.1 = nr k.2 → k.1 = k.2)
    (h : mergeOverlap nl nr keys L R = []) : mergeOverlap nr nl (keys.map Prod.swap) R L = [] := by
  have hswap : ∀ k ∈ keys.map Prod.swap, nr k.1 = nl k.2 → k.1 = k.2 := by
    intro k hk hn
    obtain ⟨k', hk', rfl⟩ := List.mem_map.mp hk
    exact (hone k' hk' hn.symm).symm
  have hmem : ∀ c, ((c, c) ∈ keys.map Prod.swap ∧ nr c = nl c) ↔ ((c, c) ∈ keys ∧ nl c = nr c) := by
    intro c
    constructor
    · rintro ⟨hc, hn⟩
      obtain ⟨⟨a, b⟩, hk, he⟩ := List.mem_map.mp hc
      cases he
      exact ⟨hk, hn.symm⟩
    · exact fun hc => ⟨List.mem_map.mpr ⟨(c, c), hc.1, rfl⟩, hc.2.symm⟩
  rw [List.eq_nil_iff_forall_not_mem] at h ⊢
  intro n hn
  obtain ⟨⟨d, hd, hcd, hnd⟩, c, hc, hac, hnc⟩ := mem_mergeOverlap.mp hn
  refine h n (mem_mergeOverlap.mpr ⟨⟨c, hc, ?_, hnc⟩, d, hd, ?_, hnd⟩)
  · rw [absorbed_eq hswap, decide_eq_false_iff_not, hmem] at hac
    rw [coalesced_eq hone, if_neg hac]
  · rw [coalesced_eq hswap] at hcd
    rw [absorbed_eq hone, decide_eq_false_iff_not, ← hmem]
    intro hd'
    rw [if_pos hd'] at hcd
    cases hcd

omit [DecidableEq V] in
theorem joinOverlap_flip {on : JoinOn V} {la ra : Option String} {L R : List String}
    (h : tidy on la ra L R = true) : joinOverlap on.flip ra la R L = [] := by
  obtain ⟨hov, hone⟩ := tidy_spec h
  unfold joinOverlap layoutNames at *
  rw [padded_flip, keyPairs_flip, joinNames_flip]
  split
  · rename_i hpad
    rw [if_pos hpad] at hov
    exact residualOverlap_flip hov
  · rename_i hpad
    rw [if_neg hpad] at hov
    simp only [if_neg hpad] at hone
    exact mergeOverlap_flip (fun k hk hn => (hone k hk hn).1) hov

omit [DecidableEq V] in
/-- The keys of a join that passed its check are columns of their sides. -/
theorem mem_of_checkKeys {on : JoinOn V} {L R : List String} (h : checkKeys on L R = .ok ())
    {k : String × String} (hk : k ∈ keyPairs on) : k.1 ∈ L ∧ k.2 ∈ R := by
  unfold checkKeys at h
  unfold keyPairs at hk
  split at h
  · rename_i hc
    rw [if_pos hc] at hk
    cases hk
  · rename_i hc
    rw [if_neg hc] at hk
    split at h
    · cases h
    · split at h
      · cases h
      · split at h
        · rename_i hl hr
          constructor
          · have := List.filter_eq_nil_iff.mp hl k.1 (List.of_mem_zip hk).1
            simpa using this
          · have := List.filter_eq_nil_iff.mp hr k.2 (List.of_mem_zip hk).2
            simpa using this
        · cases h
        · cases h

omit [DecidableEq V] in
/-- **The columns of an exchanged join are those of the join, sources flipped.** -/
theorem joinLayout_flip {on : JoinOn V} {la ra : Option String} {L R : List String}
    (hL : L.Nodup) (hR : R.Nodup) (hk : checkKeys on L R = .ok ())
    (h : tidy on la ra L R = true) :
    ((joinLayout on la ra L R).map fun e => (e.1, e.2.flip)).Perm
      (joinLayout on.flip ra la R L) := by
  obtain ⟨hov, hone⟩ := tidy_spec h
  rw [joinLayout_eq, joinLayout_eq, hov, joinOverlap_flip h, layoutNames_flip, keyPairs_flip]
  exact layout_flip hL hR (fun k hk' => mem_of_checkKeys hk hk') fun k hk' hn => (hone k hk' hn).1

omit [DecidableEq V] in
theorem residualLayout_flip {keys : List (String × String)} {L R : List String}
    (h : residualOverlap keys L R = []) :
    ((residualLayout keys L R).map fun e => (e.1, e.2.flip)).Perm
      (residualLayout (keys.map Prod.swap) R L) := by
  rw [residualLayout, residualLayout, h, residualOverlap_flip h, (nonKeys_flip keys R).1,
    (nonKeys_flip keys L).2]
  have hnone : ∀ d, absorbed id id [] d = false := fun d => rfl
  simp only [layout, hnone, Bool.not_false, List.filter_true, List.map_append, List.map_map]
  exact List.perm_append_comm

omit [DecidableEq V] in
theorem predLayout_flip {on : JoinOn V} {la ra : Option String} {L R : List String}
    (hL : L.Nodup) (hR : R.Nodup) (hk : checkKeys on L R = .ok ())
    (h : tidy on la ra L R = true) :
    ((predLayout on la ra L R).map fun e => (e.1, e.2.flip)).Perm
      (predLayout on.flip ra la R L) := by
  have hov := (tidy_spec h).1
  unfold predLayout
  rw [padded_flip, keyPairs_flip]
  split
  · rename_i hpad
    rw [joinOverlap, if_pos hpad] at hov
    exact residualLayout_flip hov
  · exact joinLayout_flip hL hR hk h

/-! ## 4. The rows of an exchanged join

A cell of a coalesced key is the left cell, or the right one where the left side is missing.  Read
from the other side it is the same when both are equal, which they are on a pair that matched, and
when one of them is missing, which is the case of a row without a partner. -/

omit [DecidableEq V] in
/-- A flipped source of a flipped pair, where a coalesced key is equal or alone. -/
theorem cell_flip {l r : Row V} {s : Source}
    (h : ∀ c d, s = .both c d → l c = r d ∨ l c = none ∨ r d = none) :
    s.flip.cell r l = s.cell l r := by
  cases s with
  | left c => rfl
  | right c => rfl
  | both c d =>
    rw [Source.flip, Source.cell, Source.cell]
    rcases h c d rfl with h | h | h
    · rw [h]
    · rw [h, Option.or_none, Option.none_or]
    · rw [h, Option.or_none, Option.none_or]

omit [DecidableEq V] in
theorem lookup_flip (n : String) : ∀ lay : Layout,
    Layout.source (lay.map fun e => (e.1, e.2.flip)) n = (lay.source n).map Source.flip
  | [] => rfl
  | e :: lay => by
    rw [Layout.source, Layout.source, List.map_cons, List.lookup_cons, List.lookup_cons]
    cases n == e.1 with
    | true => rfl
    | false => exact lookup_flip n lay

omit [DecidableEq V] in
/-- The row of a flipped layout on the flipped pair. -/
theorem row_flip {lay lay' : Layout}
    (hperm : (lay.map fun e => (e.1, e.2.flip)).Perm lay') (hnd : lay.columns.Nodup) {l r : Row V}
    (h : ∀ n c d, lay.source n = some (.both c d) → l c = r d ∨ l c = none ∨ r d = none) :
    lay'.row r l = lay.row l r := by
  have hnd' : Layout.columns (lay.map fun e => (e.1, e.2.flip)) = lay.columns := by
    rw [Layout.columns, List.map_map]
    rfl
  funext n
  rw [← row_perm hperm (hnd' ▸ hnd), Layout.row, Layout.row, lookup_flip]
  cases hs : lay.source n with
  | none => rfl
  | some s => exact cell_flip fun c d hcd => h n c d (by rw [hs, hcd])

omit [DecidableEq V] in
theorem columns_flip {lay lay' : Layout}
    (hperm : (lay.map fun e => (e.1, e.2.flip)).Perm lay') : lay.columns.Perm lay'.columns := by
  have h := hperm.map Prod.fst
  rw [List.map_map] at h
  exact h

omit [DecidableEq V] in
theorem mem_of_source {lay : Layout} {n : String} {s : Source} (h : lay.source n = some s) :
    (n, s) ∈ lay := by
  rw [Layout.source, List.lookup_eq_some_iff] at h
  obtain ⟨l₁, l₂, rfl, -⟩ := h
  simp

omit [DecidableEq V] in
/-- A coalesced column of a tidy join is a key that is compared. -/
theorem both_of_tidy {on : JoinOn V} {la ra : Option String} {L R : List String}
    (h : tidy on la ra L R = true) {n c d : String}
    (hs : (joinLayout on la ra L R).source n = some (.both c d)) : (c, d) ∈ testKeys on := by
  obtain ⟨hov, hone⟩ := tidy_spec h
  have hmem := mem_of_source hs
  rw [joinLayout_eq, layout, List.mem_append] at hmem
  rcases hmem with hmem | hmem
  · obtain ⟨c', -, he⟩ := List.mem_map.mp hmem
    unfold leftEntry at he
    split at he
    · rename_i d' hd'
      cases he
      obtain ⟨k, hk, rfl⟩ := Option.map_eq_some_iff.mp hd'
      have hp := List.find?_some hk
      simp only [Bool.and_eq_true, decide_eq_true_eq] at hp
      have := (hone k (List.mem_of_find?_eq_some hk) hp.2).2
      rwa [← hp.1]
    · cases he
  · obtain ⟨d', -, he⟩ := List.mem_map.mp hmem
    cases he

omit [DecidableEq V] in
theorem both_pred_of_tidy {on : JoinOn V} {la ra : Option String} {L R : List String}
    (h : tidy on la ra L R = true) {n c d : String}
    (hs : (predLayout on la ra L R).source n = some (.both c d)) : (c, d) ∈ testKeys on := by
  unfold predLayout at hs
  split at hs
  · -- a residual sees no coalesced key
    have hmem := mem_of_source hs
    rw [residualLayout, layout, List.mem_append] at hmem
    rcases hmem with hmem | hmem
    · obtain ⟨c', -, he⟩ := List.mem_map.mp hmem
      rw [leftEntry, coalesced_none (by simp)] at he
      cases he
    · obtain ⟨d', -, he⟩ := List.mem_map.mp hmem
      cases he
  · exact both_of_tidy h hs

theorem sameKeys_flip (keys : List (String × String)) (l r : Row V) :
    sameKeys (keys.map Prod.swap) r l = sameKeys keys l r := by
  rw [sameKeys, sameKeys, List.all_map]
  refine congrArg (fun p => keys.all p) (funext fun k => ?_)
  simp only [Function.comp_apply, Prod.fst_swap, Prod.snd_swap, decide_eq_decide]
  exact eq_comm

section Exchange
variable {S : Scalars V} {on : JoinOn V} {la ra : Option String} {L R : List String}

theorem joinTest_flip (hL : L.Nodup) (hR : R.Nodup) (hk : checkKeys on L R = .ok ())
    (h : tidy on la ra L R = true) (hsemi : on.how.isSemi = false)
    (hnd : (joinLayout on la ra L R).columns.Nodup) (l r : Row V) :
    joinTest S on.flip ra la R L r l = joinTest S on la ra L R l r := by
  have hperm := predLayout_flip hL hR hk h
  have hcols : ∀ n, n ∈ (predLayout on.flip ra la R L).columns ↔
      n ∈ (predLayout on la ra L R).columns := fun n => (columns_flip hperm).mem_iff.symm
  rw [joinTest, joinTest, testKeys_flip, sameKeys_flip, isSemi_flip, hsemi]
  cases hsame : sameKeys (testKeys on) l r with
  | false => rfl
  | true =>
    rw [row_flip hperm (predLayout_nodup hnd) fun n c d hs =>
      .inl (sameKeys_mem hsame (both_pred_of_tidy h hs))]
    rw [show on.flip.onPredicate = on.onPredicate from rfl, passes_congr hcols]
    rfl

omit [DecidableEq V] in
theorem checkKeys_flip (h : checkKeys on L R = .ok ()) : checkKeys on.flip R L = .ok () := by
  have hcross : on.flip.how = .cross ↔ on.how = .cross := by
    cases h : on.how <;> simp [JoinOn.flip, JoinHow.flip, h]
  unfold checkKeys at h ⊢
  split at h
  · rename_i hc
    rw [if_pos (hcross.mpr hc)]
  · rename_i hc
    rw [if_neg fun hc' => hc (hcross.mp hc')]
    split at h
    · cases h
    · rename_i hlen
      rw [ne_eq, not_not] at hlen
      rw [if_neg (by rw [ne_eq, not_not]; exact hlen.symm)]
      split at h
      · cases h
      · rename_i hne
        have hne' : on.flip.onLeft ≠ [] := by
          intro hn
          rw [show on.onRight = [] from hn] at hlen
          exact hne (List.eq_nil_of_length_eq_zero hlen)
        rw [if_neg hne']
        split at h
        · rename_i hl hr
          simp only [JoinOn.flip, hl, hr]
        · cases h
        · cases h

omit [DecidableEq V] in
theorem checkRestore_flip {keys : List (String × String)} (h : checkRestore keys = .ok ()) :
    checkRestore (keys.map Prod.swap) = .ok () := by
  have hfst : (keys.map Prod.swap).map Prod.fst = keys.map Prod.snd := by
    rw [List.map_map]
    rfl
  have hsnd : (keys.map Prod.swap).map Prod.snd = keys.map Prod.fst := by
    rw [List.map_map]
    rfl
  have hany : ((keys.map Prod.swap).tails.any fun ks => ks.head?.any fun k =>
      decide (k.1 = k.2) && ks.tail.any fun k' => decide (k'.1 = k.1) || decide (k'.2 = k.2)) =
      keys.tails.any fun ks => ks.head?.any fun k =>
      decide (k.1 = k.2) && ks.tail.any fun k' => decide (k'.1 = k.1) || decide (k'.2 = k.2) := by
    rw [List.map_tails, List.any_map]
    refine congrArg (fun p => keys.tails.any p) (funext fun ks => ?_)
    cases ks with
    | nil => rfl
    | cons k ks =>
      have hk : decide (k.2 = k.1) = decide (k.1 = k.2) := by simp only [eq_comm]
      simp only [Function.comp_apply, List.map_cons, List.head?_cons, Option.any_some,
        List.tail_cons, List.any_map, Prod.fst_swap, Prod.snd_swap, Function.comp_def, hk,
        Bool.or_comm]
  unfold checkRestore at h ⊢
  rw [hfst, hsnd, hany]
  split at h
  · cases h
  · rename_i hlen
    rw [ne_eq, not_not] at hlen
    rw [if_neg (by rw [ne_eq, not_not]; exact hlen.symm)]
    exact h

omit [DecidableEq V] in
/-- The exchanged join accepts the columns that the join accepts. -/
theorem Fits.flip (h : Fits on la ra L R) (hL : L.Nodup) (hR : R.Nodup)
    (ht : tidy on la ra L R = true) (hsemi : on.how.isSemi = false) :
    Fits on.flip ra la R L where
  names := by
    have hc : ∀ c, c ∈ collisions R L ↔ c ∈ collisions L R := fun c => by
      rw [mem_collisions, mem_collisions, and_comm]
    rw [collisions_nil hc, isSemi_flip, padded_flip]
    exact h.names.imp_right fun hn => ⟨hn.1, hn.2.2, hn.2.1⟩
  keys := checkKeys_flip h.keys
  restore hp := by
    rw [padded_flip] at hp
    rw [keyPairs_flip]
    exact checkRestore_flip (h.restore hp)
  nodup _ := (columns_flip (joinLayout_flip hL hR h.keys ht)).nodup_iff.mp (h.nodup (.inl hsemi))
  pred hp := by
    rw [padded_flip] at hp
    exact (checkOption_congr fun n =>
      (columns_flip (joinLayout_flip hL hR h.keys ht)).mem_iff).mp (h.pred hp)

end Exchange

/-- An exchanged join accepts what the join accepts. -/
theorem Joinable.flip {on : JoinOn V} {la ra : Option String} {l r : Frame V}
    (h : Joinable on la ra l r) (hl : l.columns.Nodup) (hr : r.columns.Nodup)
    (ht : tidy on la ra l.columns r.columns = true) (hsemi : on.how.isSemi = false) :
    Joinable on.flip ra la r l where
  fits := h.fits.flip hl hr ht hsemi
  residual hp hex := by
    rw [padded_flip] at hp
    obtain ⟨y, hy, x, hx, hk⟩ := hex
    rw [testKeys_flip, sameKeys_flip] at hk
    exact (checkOption_congr fun n =>
      (columns_flip (predLayout_flip hl hr h.fits.keys ht)).mem_iff).mp
        (h.residual hp ⟨x, hx, y, hy, hk⟩)

/-- **A join with its sides exchanged returns the same rows.** -/
theorem joined_flip {S : Scalars V} {on : JoinOn V} {la ra : Option String} {l r : Frame V}
    (h : Joinable on la ra l r) (hl : l.columns.Nodup) (hr : r.columns.Nodup)
    (ht : tidy on la ra l.columns r.columns = true) (hsemi : on.how.isSemi = false) :
    Alike (joined S on la ra l r) (joined S on.flip ra la r l) := by
  have hperm := joinLayout_flip hl hr h.fits.keys ht
  have hnd := h.fits.nodup (.inl hsemi)
  have hsemi' : on.flip.how.isSemi = false := (isSemi_flip on).trans hsemi
  have htest := joinTest_flip (S := S) hl hr h.fits.keys ht hsemi hnd
  refine ⟨?_, ?_⟩
  · rw [joined_columns, joined_columns, hsemi, hsemi']
    exact columns_flip hperm
  · rw [joined_rows hsemi, joined_rows hsemi', keepsLeft_flip, keepsRight_flip]
    refine (JoinSpec.run_swap _ (.refl _) (.refl _) _ _).trans (List.Perm.of_eq ?_)
    refine JoinSpec.run_congr _ ?_ ?_ ?_ ?_ _ _
    · exact fun y _ x _ => (htest x y).symm
    · intro y _ x _ hxy
      refine (row_flip hperm hnd fun n c d hs => .inl ?_).symm
      exact sameKeys_mem (sameKeys_of_joinTest hxy) (both_of_tidy ht hs)
    · exact fun y _ => (row_flip hperm hnd fun n c d hs => .inr (.inl rfl)).symm
    · exact fun x _ => (row_flip hperm hnd fun n c d hs => .inr (.inr rfl)).symm

end RyuDB.Sql
