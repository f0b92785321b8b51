/-
# Operators on reordered frames

What an operator returns when the columns and the rows of its input come in another order.  Two
frames are `Alike` when each is a reordering of the other: the same column names, the same
multiset of rows, every row a map from names to cells.

Most operators take alike frames to alike frames.  Three look at an order.  LIMIT cuts the list
of rows, so its input must be the same list; a set operation pairs columns by position, so its
arms must have the same list of columns; and a window function may number rows that its keys do
not tell apart, so it must be `Fair`.

cuDF promises no order of rows where it groups, merges or removes duplicates, and an exchange of the
sides of a join changes the order of the columns as well.  So a rewritten plan is compared up to
`Alike`, and every operator above the rewritten place has to be carried over it.  The lemma for an
operator has always the same form: if it returned on `f`, it returns on any `g` alike to `f`, and what
it returns is alike.  The three operators that look at an order have one more hypothesis, and the pass
that exchanges sides checks it for the operators above a join.
-/
import RyuDB.Optimize

namespace RyuDB.Sql

variable {V : Type}

/-! ## 1. Frames up to order -/

/-- Two frames with the same column names and the same rows, in any order. -/
structure Alike (f g : Frame V) : Prop where
  columns : f.columns.Perm g.columns
  rows : f.rows.Perm g.rows

theorem Alike.refl (f : Frame V) : Alike f f := ⟨.refl _, .refl _⟩

/-- A reference reads the same column whatever the order of the columns. -/
theorem resolve_congr {L L' : List String} (h : ∀ n, n ∈ L ↔ n ∈ L') (n : String)
    (t : Option String) : resolve L n t = resolve L' n t := by
  cases t <;> simp only [resolve, h]

theorem known_congr {L L' : List String} (h : ∀ n, n ∈ L ↔ n ∈ L') {e : Expr V} :
    e.Known L ↔ e.Known L' := by
  simp only [Expr.Known, resolve_congr h]

theorem check_congr {L L' : List String} (h : ∀ n, n ∈ L ↔ n ∈ L') {e : Expr V} :
    e.check L = .ok () ↔ e.check L' = .ok () := by
  rw [Expr.check_ok, Expr.check_ok, known_congr h]

/-- The value of an expression does not depend on the order of the columns. -/
theorem value_order {S : Scalars V} {L L' : List String} (h : ∀ n, n ∈ L ↔ n ∈ L') (r : Row V)
    (e : Expr V) : e.value S L r = e.value S L' r :=
  Expr.value_congr fun x _ => by rw [resolve_congr h]

theorem passes_congr {S : Scalars V} {L L' : List String} (h : ∀ n, n ∈ L ↔ n ∈ L')
    (p : Option (Expr V)) (r : Row V) : passes S L p r = passes S L' p r := by
  cases p with
  | none => rfl
  | some e => simp only [passes, value_order h]

theorem checkOption_congr {L L' : List String} (h : ∀ n, n ∈ L ↔ n ∈ L')
    {p : Option (Expr V)} : checkOption L p = .ok () ↔ checkOption L' p = .ok () := by
  cases p with
  | none => exact Iff.rfl
  | some e => exact check_congr h

/-- Reordered rows cut down to the same names are reordered. -/
theorem restrict_congr {L L' : List String} (h : ∀ n, n ∈ L ↔ n ∈ L') (r : Row V) :
    restrict L r = restrict L' r := by
  funext n
  simp only [restrict, h]

theorem Alike.ofRows {L L' : List String} (hL : L.Perm L') {rows rows' : List (Row V)}
    (h : rows.Perm rows') : Alike (.ofRows L rows) (.ofRows L' rows') where
  columns := hL
  rows := by
    rw [Frame.ofRows_rows, Frame.ofRows_rows]
    rw [funext (restrict_congr fun n => hL.mem_iff)]
    exact h.map _

/-! ## 2. Filter, project, distinct -/

variable {S : Scalars V} {f f' g : Frame V}

theorem Alike.filterFrame {p : Expr V} (h : Alike f g) (hf : filterFrame S f p = .ok f') :
    ∃ g', filterFrame S g p = .ok g' ∧ Alike f' g' := by
  obtain ⟨hc, rfl⟩ := filterFrame_ok.mp hf
  have hm : ∀ n, n ∈ f.columns ↔ n ∈ g.columns := fun n => h.columns.mem_iff
  refine ⟨_, filterFrame_ok.mpr ⟨(check_congr hm).mp hc, rfl⟩, h.columns, ?_⟩
  simp only [Frame.filter_rows, value_order hm]
  exact h.rows.filter _

theorem itemCell_congr {L L' : List String} (h : ∀ n, n ∈ L ↔ n ∈ L')
    (items : List (Expr V × String)) : itemCell S L items = itemCell S L' items := by
  funext r n
  simp only [itemCell, value_order h]

theorem Alike.projectFrame {items : List (Expr V × String)} (h : Alike f g)
    (hf : projectFrame S f items = .ok f') :
    ∃ g', projectFrame S g items = .ok g' ∧ Alike f' g' ∧ f'.columns = g'.columns := by
  obtain ⟨hc, rfl⟩ := projectFrame_ok.mp hf
  have hm : ∀ n, n ∈ f.columns ↔ n ∈ g.columns := fun n => h.columns.mem_iff
  refine ⟨_, projectFrame_ok.mpr ⟨fun i hi => (check_congr hm).mp (hc i hi), rfl⟩, ?_, rfl⟩
  rw [itemCell_congr hm]
  exact .ofRows (.refl _) (h.rows.map _)

theorem mem_keepFirst {α κ : Type} [DecidableEq κ] {key : α → κ} : ∀ {l : List α} {a : α},
    a ∈ keepFirst key l → a ∈ l
  | [], _, h => h
  | b :: l, a, h => by
    rcases List.mem_cons.mp h with rfl | h
    · exact List.mem_cons_self
    · exact List.mem_cons_of_mem _ (mem_keepFirst (List.mem_filter.mp h).1)

theorem keepFirst_sublist {α κ : Type} [DecidableEq κ] (key : α → κ) :
    ∀ l : List α, (keepFirst key l).Sublist l
  | [] => .slnil
  | a :: l => (List.filter_sublist.trans (keepFirst_sublist key l)).cons_cons a

/-- When keys tell the elements apart, keeping the first of each key keeps every element. -/
theorem mem_keepFirst_iff {α κ : Type} [DecidableEq κ] {key : α → κ} : ∀ {l : List α},
    (∀ a ∈ l, ∀ b ∈ l, key a = key b → a = b) → ∀ {a : α}, a ∈ keepFirst key l ↔ a ∈ l
  | [], _, _ => Iff.rfl
  | b :: l, hinj, a => by
    refine ⟨mem_keepFirst, fun h => ?_⟩
    rw [keepFirst, List.mem_cons, List.mem_filter]
    by_cases hk : key a = key b
    · exact .inl (hinj a h b List.mem_cons_self hk)
    · refine .inr ⟨?_, by simpa using hk⟩
      have ha : a ∈ l := (List.mem_cons.mp h).resolve_left fun e => hk (by rw [e])
      exact (mem_keepFirst_iff fun x hx y hy => hinj x (List.mem_cons_of_mem _ hx) y
        (List.mem_cons_of_mem _ hy)).mpr ha

theorem nodup_keepFirst {α κ : Type} [DecidableEq κ] (key : α → κ) : ∀ l : List α,
    (keepFirst key l).Nodup
  | [] => List.nodup_nil
  | b :: l => by
    rw [keepFirst, List.nodup_cons]
    refine ⟨fun h => ?_, (nodup_keepFirst key l).filter _⟩
    simpa using (List.mem_filter.mp h).2

/-- Of reordered lists the same elements are kept, where equal keys mean equal elements. -/
theorem keepFirst_perm {α κ : Type} [DecidableEq κ] {key : α → κ} {l l' : List α}
    (hinj : ∀ a ∈ l, ∀ b ∈ l, key a = key b → a = b) (h : l.Perm l') :
    (keepFirst key l).Perm (keepFirst key l') := by
  have hinj' : ∀ a ∈ l', ∀ b ∈ l', key a = key b → a = b := fun a ha b hb =>
    hinj a (h.mem_iff.mpr ha) b (h.mem_iff.mpr hb)
  rw [List.perm_ext_iff_of_nodup (nodup_keepFirst key l) (nodup_keepFirst key l')]
  intro a
  rw [mem_keepFirst_iff hinj, mem_keepFirst_iff hinj', h.mem_iff]

/-- The cells of a row in the columns of its frame tell it apart. -/
theorem Frame.row_ext {f : Frame V} {r r' : Row V} (hr : r ∈ f.rows) (hr' : r' ∈ f.rows)
    (h : keyOf f.columns r = keyOf f.columns r') : r = r' := by
  funext n
  by_cases hn : n ∈ f.columns
  · exact List.map_inj_left.mp h n hn
  · rw [f.supported r hr n hn, f.supported r' hr' n hn]

variable [DecidableEq V]

/-- A different order of the key columns tells the same rows apart. -/
theorem keepFirst_columns {L L' : List String} (h : ∀ n, n ∈ L ↔ n ∈ L') :
    ∀ rows : List (Row V), keepFirst (keyOf L) rows = keepFirst (keyOf L') rows
  | [] => rfl
  | r :: rows => by
    have hkey : ∀ a b : Row V, keyOf L a = keyOf L b ↔ keyOf L' a = keyOf L' b := by
      intro a b
      simp only [keyOf, List.map_inj_left, h]
    rw [keepFirst, keepFirst, keepFirst_columns h rows]
    exact congrArg _ (List.filter_congr fun b _ => by simp only [ne_eq, hkey])

theorem Alike.dropDuplicates (h : Alike f g) :
    Alike (Sql.dropDuplicates f) (Sql.dropDuplicates g) := by
  refine .ofRows h.columns ?_
  rw [← keepFirst_columns fun n => h.columns.mem_iff (a := n)]
  exact keepFirst_perm (fun a ha b hb => Frame.row_ext ha hb) h.rows

/-! ## 3. Aggregates -/

omit [DecidableEq V] in
theorem addColumn_perm {L L' : List String} (h : L.Perm L') (n : String) :
    (addColumn L n).Perm (addColumn L' n) := by
  unfold addColumn
  by_cases hn : n ∈ L
  · rw [if_pos hn, if_pos (h.mem_iff.mp hn)]
    exact h
  · rw [if_neg hn, if_neg fun hn' => hn (h.mem_iff.mpr hn')]
    exact h.append_right _

omit [DecidableEq V] in
theorem Alike.withKeys : ∀ {keys : List (Expr V × String)} {f f' g : Frame V}, Alike f g →
    withKeys S f keys = .ok f' → ∃ g', withKeys S g keys = .ok g' ∧ Alike f' g'
  | [], _, _, _, h, hf => by
    cases hf
    exact ⟨_, rfl, h⟩
  | (e, n) :: keys, f, f', g, h, hf => by
    have hm : ∀ n, n ∈ f.columns ↔ n ∈ g.columns := fun n => h.columns.mem_iff
    unfold Sql.withKeys at hf ⊢
    by_cases hn : n ∈ f.columns
    · rw [if_pos hn] at hf
      rw [if_pos ((hm n).mp hn)]
      exact h.withKeys hf
    · rw [if_neg hn] at hf
      rw [if_neg fun hn' => hn ((hm n).mpr hn')]
      obtain ⟨_, hc, hf⟩ := bind_eq_ok.mp hf
      have hcol : Alike (withColumn f n (e.value S f.columns))
          (withColumn g n (e.value S g.columns)) := by
        refine .ofRows (addColumn_perm h.columns n) ?_
        simp only [value_order hm]
        exact h.rows.map _
      obtain ⟨g', hg', ha⟩ := hcol.withKeys hf
      exact ⟨g', bind_eq_ok.mpr ⟨(), (check_congr hm).mp hc, hg'⟩, ha⟩

/-- An aggregate does not look at the order of the columns or of the rows. -/
theorem aggCell_perm {L L' : List String} (hL : ∀ n, n ∈ L ↔ n ∈ L') {rows rows' : List (Row V)}
    (h : rows.Perm rows') (a : AggFunc V × String) :
    aggCell S L rows a = aggCell S L' rows' a := by
  refine a.1.reduce_perm _ _ ?_
  simp only [aggCells, passes_congr hL, funext (value_order hL _)]
  have hcells := h.map fun r => if passes S L' a.1.filter r then
    (a.1.arg.map (Expr.value S L' r)).getD (some S.one) else none
  split
  · exact hcells.dedup
  · exact hcells

theorem Alike.aggregateFrame {keys : List (Expr V × String)} {aggs : List (AggFunc V × String)}
    (h : Alike f g) (hf : aggregateFrame S f keys aggs = .ok f') :
    ∃ g', aggregateFrame S g keys aggs = .ok g' ∧ Alike f' g' ∧ f'.columns = g'.columns := by
  obtain ⟨work, hw, hc, rfl⟩ := aggregateFrame_ok.mp hf
  obtain ⟨work', hw', ha⟩ := h.withKeys hw
  have hm : ∀ n, n ∈ f.columns ↔ n ∈ g.columns := fun n => h.columns.mem_iff
  have hm' : ∀ n, n ∈ work.columns ↔ n ∈ work'.columns := fun n => ha.columns.mem_iff
  refine ⟨_, aggregateFrame_ok.mpr ⟨work', hw', fun a haa e he =>
    (check_congr hm').mp (hc a haa e he), rfl⟩, ?_⟩
  split
  · unfold scalarGlobalAgg
    split
    · exact ⟨.refl _, rfl⟩
    · rw [List.map_congr_left fun a _ => aggCell_perm hm h.rows a]
      exact ⟨.refl _, rfl⟩
  · refine ⟨.ofRows (.refl _) ?_, rfl⟩
    have hrow : ∀ k : Key V, aggs.map (aggCell S work.columns
        (work.rows.filter fun r => keyOf (keys.map Prod.snd) r = k)) =
        aggs.map (aggCell S work'.columns
          (work'.rows.filter fun r => keyOf (keys.map Prod.snd) r = k)) := fun k =>
      List.map_congr_left fun a _ => aggCell_perm hm' (ha.rows.filter _) a
    simp only [hrow]
    exact ((ha.rows.map _).dedup).map _

/-! ## 4. Windows -/

/-- A window function that gives equal arguments equal cells, whatever the order of the rows. -/
def WindowFunc.Fair (w : WindowFunc V) : Prop :=
  ∀ l l', l.Perm l' → ∃ h : List (Cell V) → Cell V, w.compute l = l.map h ∧ w.compute l' = l'.map h

omit [DecidableEq V] in
theorem Alike.windowColumn {w : WindowFunc V × String} (hw : w.1.Fair) (h : Alike f g)
    (hf : windowColumn S f w = .ok f') : ∃ g', windowColumn S g w = .ok g' ∧ Alike f' g' := by
  obtain ⟨hc, rfl⟩ := windowColumn_ok.mp hf
  have hm : ∀ n, n ∈ f.columns ↔ n ∈ g.columns := fun n => h.columns.mem_iff
  refine ⟨_, windowColumn_ok.mpr ⟨fun e he => (check_congr hm).mp (hc e he), rfl⟩, ?_⟩
  refine .ofRows (addColumn_perm h.columns _) ?_
  have hargs : ∀ r, w.1.args.map (Expr.value S f.columns r) =
      w.1.args.map (Expr.value S g.columns r) := fun r =>
    List.map_congr_left fun e _ => value_order hm r e
  simp only [hargs]
  obtain ⟨c, hl, hr⟩ := hw _ _ (h.rows.map fun r => w.1.args.map (Expr.value S g.columns r))
  rw [hl, hr, List.map_map, List.map_map]
  simp only [List.zipWith_map_right, List.zipWith_self]
  exact h.rows.map _

omit [DecidableEq V] in
theorem Alike.windowFrame : ∀ {ws : List (WindowFunc V × String)} {f f' g : Frame V},
    (∀ w ∈ ws, w.1.Fair) → Alike f g → windowFrame S f ws = .ok f' →
    ∃ g', windowFrame S g ws = .ok g' ∧ Alike f' g'
  | [], _, _, _, _, h, hf => by
    cases hf
    exact ⟨_, rfl, h⟩
  | w :: ws, f, f', g, hw, h, hf => by
    obtain ⟨f₁, hf₁, hf⟩ := windowFrame_cons.mp hf
    obtain ⟨g₁, hg₁, h₁⟩ := h.windowColumn (hw w List.mem_cons_self) hf₁
    obtain ⟨g', hg', h'⟩ := h₁.windowFrame (fun w' hw' => hw w' (List.mem_cons_of_mem _ hw')) hf
    exact ⟨g', windowFrame_cons.mpr ⟨g₁, hg₁, hg'⟩, h'⟩

/-! ## 5. Sort -/

omit [DecidableEq V] in
theorem bareSafe_congr {L L' : List String} (h : ∀ n, n ∈ L ↔ n ∈ L') (e : Expr V) :
    bareSafe L e = bareSafe L' e := by
  cases e with
  | col name table => cases table <;> simp only [bareSafe, h]
  | _ => rfl

omit [DecidableEq V] in
theorem sortCell_congr {L L' K K' : List String} (h : ∀ n, n ∈ L ↔ n ∈ L')
    (hK : ∀ n, n ∈ K ↔ n ∈ K') (r s : Row V) (e : Expr V) :
    sortCell S L K r s e = sortCell S L' K' r s e := by
  rw [sortCell, sortCell, bareSafe_congr h, value_order hK]

omit [DecidableEq V] in
/-- The rows paired with their sort keys are reordered with the rows.  Both frames come from their
sources by the same map of rows. -/
theorem sortPairs_perm {keys : List (Expr V × Bool)} {src src' : Except DbError (Frame V)}
    {pairs : List (Key V × Row V)} (h : Alike f g)
    (hsrc : ∀ s, src = .ok s → ∃ s' k, src' = .ok s' ∧ Alike s s' ∧
      f.rows = s.rows.map k ∧ g.rows = s'.rows.map k)
    (hf : sortPairs S f keys src = .ok pairs) :
    ∃ pairs', sortPairs S g keys src' = .ok pairs' ∧ pairs.Perm pairs' := by
  have hm : ∀ n, n ∈ f.columns ↔ n ∈ g.columns := fun n => h.columns.mem_iff
  unfold sortPairs at hf ⊢
  simp only [bareSafe_congr hm] at hf
  split at hf
  · rename_i hall
    cases hf
    rw [if_pos hall]
    refine ⟨_, rfl, ?_⟩
    simp only [sortCell_congr hm hm]
    exact h.rows.map _
  · rename_i hall
    rw [if_neg hall]
    obtain ⟨s, hs, hf⟩ := bind_eq_ok.mp hf
    obtain ⟨_, hc, hf⟩ := bind_eq_ok.mp hf
    cases hf
    obtain ⟨s', k, hs', hss, hfk, hgk⟩ := hsrc s hs
    have hm' : ∀ n, n ∈ s.columns ↔ n ∈ s'.columns := fun n => hss.columns.mem_iff
    refine ⟨_, bind_eq_ok.mpr ⟨s', hs', bind_eq_ok.mpr ⟨(), ?_, rfl⟩⟩, ?_⟩
    · rw [Expr.forM_ok] at hc ⊢
      exact fun i hi => (check_congr hm').mp (hc i hi)
    · simp only [sortCell_congr hm hm', hfk, hgk, List.zipWith_map_left, List.zipWith_self]
      exact hss.rows.map _

omit [DecidableEq V] in
theorem sortRows_perm {asc : List Bool} {l l' : List (Key V × Row V)} (h : l.Perm l') :
    (sortRows S asc l).Perm (sortRows S asc l') :=
  ((List.perm_insertionSort _ l).trans (h.trans (List.perm_insertionSort _ l').symm)).map _

omit [DecidableEq V] in
theorem cellLe_total (asc : Bool) (a b : Cell V) :
    S.cellLe asc a b = true ∨ S.cellLe asc b a = true := by
  cases a with
  | none => cases b <;> simp [Scalars.cellLe]
  | some x =>
    cases b with
    | none => simp [Scalars.cellLe]
    | some y =>
      cases asc with
      | true => exact S.le_total x y
      | false => exact S.le_total y x

omit [DecidableEq V] in
theorem cellLe_trans {asc : Bool} {a b c : Cell V} (hab : S.cellLe asc a b = true)
    (hbc : S.cellLe asc b c = true) : S.cellLe asc a c = true := by
  cases c with
  | none => cases a <;> rfl
  | some z =>
    cases b with
    | none => cases hbc
    | some y =>
      cases a with
      | none => cases hab
      | some x =>
        cases asc with
        | true => exact S.le_trans x y z hab hbc
        | false => exact S.le_trans z y x hbc hab

omit [DecidableEq V] in
theorem keyLe_total : ∀ (asc : List Bool) (a b : Key V),
    S.keyLe asc a b = true ∨ S.keyLe asc b a = true
  | [], _, _ => .inl rfl
  | d :: asc, a, b => by
    have hcell := cellLe_total (S := S) d (a.headD none) (b.headD none)
    have htail := keyLe_total asc a.tail b.tail
    simp only [Scalars.keyLe, Bool.and_eq_true, Bool.or_eq_true, Bool.not_eq_true']
    cases hab : S.cellLe d (a.headD none) (b.headD none) <;>
      cases hba : S.cellLe d (b.headD none) (a.headD none) <;> simp_all

omit [DecidableEq V] in
theorem keyLe_trans : ∀ {asc : List Bool} {a b c : Key V}, S.keyLe asc a b = true →
    S.keyLe asc b c = true → S.keyLe asc a c = true
  | [], _, _, _, _, _ => rfl
  | d :: asc, a, b, c, hab, hbc => by
    simp only [Scalars.keyLe, Bool.and_eq_true, Bool.or_eq_true, Bool.not_eq_true'] at hab hbc ⊢
    refine ⟨cellLe_trans hab.1 hbc.1, ?_⟩
    by_cases hca : S.cellLe d (c.headD none) (a.headD none) = true
    · -- the three heads tie, so the rest decides in both comparisons
      have hba := cellLe_trans hbc.1 hca
      have hcb := cellLe_trans hca hab.1
      rw [hba] at hab
      rw [hcb] at hbc
      exact .inr (keyLe_trans (hab.2.resolve_left (by decide)) (hbc.2.resolve_left (by decide)))
    · exact .inl (Bool.eq_false_iff.mpr hca)

omit [DecidableEq V] in
/-- **Rows that no two keys tie are sorted into one list, whatever order they come in.** -/
theorem sortRows_eq {asc : List Bool} {l l' : List (Key V × Row V)} (h : l.Perm l')
    (htie : ∀ a ∈ l, ∀ b ∈ l, S.keyLe asc a.1 b.1 = true → S.keyLe asc b.1 a.1 = true → a = b) :
    sortRows S asc l = sortRows S asc l' := by
  let le : Key V × Row V → Key V × Row V → Prop := fun a b => S.keyLe asc a.1 b.1 = true
  have : Std.Total le := ⟨fun a b => keyLe_total asc a.1 b.1⟩
  have : IsTrans (Key V × Row V) le := ⟨fun _ _ _ => keyLe_trans⟩
  have hperm : (l.insertionSort le).Perm (l'.insertionSort le) :=
    (List.perm_insertionSort _ l).trans (h.trans (List.perm_insertionSort _ l').symm)
  have heq : l.insertionSort le = l'.insertionSort le := by
    refine hperm.eq_of_pairwise ?_ (List.pairwise_insertionSort le l)
      (List.pairwise_insertionSort le l')
    intro a b ha hb
    exact htie a ((List.mem_insertionSort le).mp ha) b
      (h.mem_iff.mpr ((List.mem_insertionSort le).mp hb))
  exact congrArg (List.map Prod.snd) heq

omit [DecidableEq V] in
theorem Alike.sortFrame {keys : List (Expr V × Bool)} {src src' : Except DbError (Frame V)}
    (h : Alike f g) (hsrc : ∀ s, src = .ok s → ∃ s' k, src' = .ok s' ∧ Alike s s' ∧
      f.rows = s.rows.map k ∧ g.rows = s'.rows.map k)
    (hf : sortFrame S f keys src = .ok f') :
    ∃ g', sortFrame S g keys src' = .ok g' ∧ Alike f' g' := by
  unfold Sql.sortFrame at hf ⊢
  split at hf
  · rename_i hk
    cases hf
    rw [if_pos hk]
    exact ⟨g, rfl, h⟩
  · rename_i hk
    rw [if_neg hk]
    obtain ⟨pairs, hp, hf⟩ := bind_eq_ok.mp hf
    cases hf
    obtain ⟨pairs', hp', hperm⟩ := sortPairs_perm h hsrc hp
    exact ⟨_, bind_eq_ok.mpr ⟨pairs', hp', rfl⟩, .ofRows h.columns (sortRows_perm hperm)⟩

omit [DecidableEq V] in
/-- A sort whose keys tell the rows apart returns one list of rows. -/
theorem sortFrame_rows {keys : List (Expr V × Bool)} {src src' : Except DbError (Frame V)}
    {pairs : List (Key V × Row V)} {g' : Frame V} (h : Alike f g)
    (hsrc : ∀ s, src = .ok s → ∃ s' k, src' = .ok s' ∧ Alike s s' ∧
      f.rows = s.rows.map k ∧ g.rows = s'.rows.map k)
    (hkeys : keys.isEmpty = false) (hp : sortPairs S f keys src = .ok pairs)
    (htie : ∀ a ∈ pairs, ∀ b ∈ pairs, S.keyLe (keys.map Prod.snd) a.1 b.1 = true →
      S.keyLe (keys.map Prod.snd) b.1 a.1 = true → a = b)
    (hf : sortFrame S f keys src = .ok f') (hg : sortFrame S g keys src' = .ok g') :
    f'.rows = g'.rows := by
  obtain ⟨pairs', hp', hperm⟩ := sortPairs_perm h hsrc hp
  rw [Sql.sortFrame, hkeys, if_neg (by decide), hp] at hf
  rw [Sql.sortFrame, hkeys, if_neg (by decide), hp'] at hg
  cases hf
  cases hg
  rw [Frame.ofRows_rows, Frame.ofRows_rows, sortRows_eq hperm htie,
    funext (restrict_congr fun n => h.columns.mem_iff)]

/-! ## 6. Set operations -/

omit [DecidableEq V] in
theorem relabel_rows (cols : List String) (f : Frame V) :
    (relabel cols f).rows = f.rows.map fun r => restrict cols (cellOf cols (keyOf f.columns r)) := by
  rw [relabel, Frame.ofRows_rows, List.map_map]
  rfl

/-- A set operation on arms with the same lists of columns. -/
theorem Alike.setopFrames {op : SetKind} {d : Bool} {l l' r r' : Frame V} (hl : Alike l l')
    (hr : Alike r r') (hlc : l.columns = l'.columns) (hrc : r.columns = r'.columns)
    (hf : setopFrames op d l r = .ok f) :
    ∃ g, setopFrames op d l' r' = .ok g ∧ Alike f g := by
  have hrel : (relabel l.columns r).rows.Perm (relabel l'.columns r').rows := by
    rw [relabel_rows, relabel_rows, hlc, hrc]
    exact hr.rows.map _
  have hmem : ∀ k : Key V, k ∈ (relabel l.columns r).rows.map (keyOf l.columns) ↔
      k ∈ (relabel l'.columns r').rows.map (keyOf l'.columns) := by
    intro k
    rw [hlc] at hrel ⊢
    exact (hrel.map _).mem_iff
  unfold Sql.setopFrames at hf ⊢
  rw [← hlc, ← hrc]
  split at hf
  · cases hf
  · rename_i hlen
    rw [if_neg hlen]
    cases op with
    | union =>
      cases hf
      refine ⟨_, rfl, ?_⟩
      have hout : Alike (Frame.ofRows l.columns (l.rows ++ (relabel l.columns r).rows))
          (Frame.ofRows l.columns (l'.rows ++ (relabel l.columns r').rows)) := by
        refine .ofRows (.refl _) (hl.rows.append ?_)
        rw [← hlc] at hrel
        exact hrel
      split
      · exact hout.dropDuplicates
      · exact hout
    | intersect =>
      dsimp only at hf ⊢
      split at hf
      · cases hf
      · rename_i hd
        cases hf
        rw [if_neg hd]
        refine ⟨_, rfl, hl.columns, ?_⟩
        rw [hlc] at hmem
        simp only [Frame.filter_rows, hlc, hmem]
        exact hl.dropDuplicates.rows.filter _
    | except =>
      dsimp only at hf ⊢
      split at hf
      · cases hf
      · rename_i hd
        cases hf
        rw [if_neg hd]
        refine ⟨_, rfl, hl.columns, ?_⟩
        rw [hlc] at hmem
        simp only [Frame.filter_rows, hlc, hmem]
        exact hl.dropDuplicates.rows.filter _

end RyuDB.Sql
