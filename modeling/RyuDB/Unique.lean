/-
# Declared keys stay unique

`_enforce_unique` checks a batch against what its statement sees: the committed rows, or the rows of
the transaction's snapshot with its own buffer.  COMMIT checks nothing, so a row committed by
somebody else since the snapshot is never compared with the buffered ones.  `unique_run` proves that
this is all that can go wrong: in every run in which no COMMIT meets such a row (`Clash`), the
committed rows satisfy the declared PRIMARY KEY and UNIQUE constraints after every step, provided
that NOT NULL does what it says (`Guarded`, `Host.Exact`).

The invariant speaks about every open transaction too: the rows it sees satisfy the constraints
(`Isolated`).  A committed row that is not younger than the snapshot is one the transaction sees, so
at COMMIT only the younger ones are left to compare.
-/
import RyuDB.Isolation
import RyuDB.MergeColumns

namespace RyuDB

open Engine

variable {V : Type}

/-! ## 1. Rows that obey the constraints -/

/-- No two rows agree in a key without NULL. -/
def Distinct (key : List String) (rows : List (Row V)) : Prop :=
  ((rows.map (keyOf key)).filter Key.nonNull).Nodup

/-- The rows obey the declared PRIMARY KEY and UNIQUE constraints: a primary key holds no NULL, and
no two rows agree in a declared key without NULL. -/
structure Obeys (i : TableInfo V) (rows : List (Row V)) : Prop where
  primary : ∀ p, i.constraints.primaryKey = some p → ∀ r ∈ rows, Key.nonNull (keyOf p r) = true
  distinct : ∀ key ∈ declaredKeys i.constraints, key ≠ [] → Distinct key rows

section Obeys

variable {i : TableInfo V} {l l' : List (Row V)}

theorem Distinct.sublist {key : List String} (h : Distinct key l) (hs : List.Sublist l' l) :
    Distinct key l' := List.Nodup.sublist ((hs.map _).filter _) h

theorem Distinct.append {key : List String} (h : Distinct key l) (h' : Distinct key l')
    (hd : ∀ y ∈ l, ∀ r ∈ l', Key.nonNull (keyOf key r) = true → keyOf key y ≠ keyOf key r) :
    Distinct key (l ++ l') := by
  unfold Distinct at h h' ⊢
  rw [List.map_append, List.filter_append]
  refine List.Nodup.append h h' fun k hk hk' => ?_
  obtain ⟨hk, -⟩ := List.mem_filter.mp hk
  obtain ⟨hk', hnn⟩ := List.mem_filter.mp hk'
  obtain ⟨y, hy, rfl⟩ := List.mem_map.mp hk
  obtain ⟨r, hr, heq⟩ := List.mem_map.mp hk'
  exact hd y hy r hr (by rw [heq]; exact hnn) heq.symm

/-- Two rows at different places of a list with distinct keys have different keys. -/
theorem Distinct.apart {key : List String} (h : Distinct key (l ++ l')) {y r : Row V} (hy : y ∈ l)
    (hr : r ∈ l') (hnn : Key.nonNull (keyOf key r) = true) : keyOf key y ≠ keyOf key r := by
  unfold Distinct at h
  rw [List.map_append, List.filter_append] at h
  intro heq
  refine (List.disjoint_of_nodup_append h) (a := keyOf key r) ?_ ?_
  · exact List.mem_filter.mpr ⟨List.mem_map.mpr ⟨y, hy, heq⟩, hnn⟩
  · exact List.mem_filter.mpr ⟨List.mem_map.mpr ⟨r, hr, rfl⟩, hnn⟩

theorem Obeys.sublist (h : Obeys i l) (hs : List.Sublist l' l) : Obeys i l' :=
  ⟨fun p hp r hr => h.primary p hp r (hs.subset hr),
    fun key hkey hne => (h.distinct key hkey hne).sublist hs⟩

theorem Obeys.append (h : Obeys i l) (h' : Obeys i l')
    (hd : ∀ key ∈ declaredKeys i.constraints, key ≠ [] → ∀ y ∈ l, ∀ r ∈ l',
      Key.nonNull (keyOf key r) = true → keyOf key y ≠ keyOf key r) : Obeys i (l ++ l') where
  primary := by
    intro p hp r hr
    rcases List.mem_append.mp hr with hr | hr
    · exact h.primary p hp r hr
    · exact h'.primary p hp r hr
  distinct := fun key hkey hne =>
    (h.distinct key hkey hne).append (h'.distinct key hkey hne) (hd key hkey hne)

/-- A checked batch obeys, if its primary key columns are declared NOT NULL. -/
theorem Admits.obeys {rows : List (Int × Row V)} {f : Frame V} (h : Admits i rows f)
    (hreq : Required i f)
    (hg : ∀ p, i.constraints.primaryKey = some p → ∀ c ∈ p, c ∈ i.columns ∧
      c ∈ i.constraints.notNull) : Obeys i f.rows where
  primary := by
    intro p hp r hr
    refine List.all_eq_true.mpr fun v hv => ?_
    obtain ⟨c, hc, rfl⟩ := List.mem_map.mp hv
    obtain ⟨hcol, hnn⟩ := hg p hp c hc
    exact hreq r hr c hcol hnn
  distinct := fun key hkey hne => (h key hkey hne).1

end Obeys

/-- The committed rows of every table obey its constraints. -/
def Satisfies [DecidableEq V] (e : Engine V) : Prop := ∀ t i rows,
  e.catalog.tables.get? t = some i → visible e t = .ok rows → Obeys i rows

/-- Every primary key column is a column of its table and declared NOT NULL, as `set_primary_key`
leaves it. -/
def Guarded (c : Catalog V) : Prop := ∀ t i p, c.tables.get? t = some i →
  i.constraints.primaryKey = some p → ∀ col ∈ p, col ∈ i.columns ∧ col ∈ i.constraints.notNull

/-! ## 2. Steps -/

section Steps

variable [DecidableEq V] {H : Host V}

/-- The transaction is about to commit a row with the declared key of a row that was committed after
its snapshot, and its tombstones spare both. -/
def Clash (e : Engine V) (x : Transaction V) : Prop :=
  ∃ t i key y r, e.catalog.tables.get? t = some i ∧ key ∈ declaredKeys i.constraints ∧ key ≠ [] ∧
    (y ∈ seen e none t ∧ x.snapshotTs < y.1 ∧
      keyOf (keyCols i) y.2 ∉ keysOf (keyCols i) false (x.tombstoneBatchesWithFlag t)) ∧
    (r ∈ ownRows x t ∧
      keyOf (keyCols i) r ∉ keysOf (keyCols i) false (x.tombstoneBatchesWithFlag t)) ∧
    Key.nonNull (keyOf key r) = true ∧ keyOf key y.2 = keyOf key r

/-- A request that is not a RESTORE and, if it is a COMMIT, does not clash; timestamps are still below
the sentinel, and no aggregate writes into a cached frame. -/
def Careful (w : World V) : Step V → Prop
  | .sql c st faults => NoRestore st ∧ w.eng.commitTs < insInf ∧ faults.writesBack = false ∧
      (st = .commit → ∀ x, w.txns.get? c = some x → ¬ Clash w.eng x)
  | .disconnect _ => True
  | .restart => False

/-- A transaction that nobody overtook does not clash. -/
theorem not_clash {e : Engine V} {x : Transaction V} (hs : Sound e)
    (hx : e.commitTs ≤ x.snapshotTs) : ¬ Clash e x := by
  rintro ⟨t, i, key, y, r, -, -, -, ⟨hy, hlt, -⟩, -⟩
  have := (seen_bounds hs.ok.delta hs.counter hy).2
  omega

/-- What an open transaction shows obeys the constraints. -/
structure ViewOk (e : Engine V) (x : Transaction V) : Prop where
  lower : 0 ≤ x.snapshotTs
  upper : x.snapshotTs ≤ e.commitTs
  early : x.snapshotTs < insInf
  rows : ∀ t i, e.catalog.tables.get? t = some i → Obeys i ((seen e (some x) t).map Prod.snd)

/-- The committed rows and the rows of every open transaction obey the constraints. -/
structure Isolated (w : World V) : Prop where
  settled : World.Settled w
  guarded : Guarded w.eng.catalog
  rows : ∀ t i, w.eng.catalog.tables.get? t = some i →
    Obeys i ((seen w.eng none t).map Prod.snd)
  txns : ∀ c x, w.txns.get? c = some x → ViewOk w.eng x

variable {e : Engine V} {x : Transaction V} {t : String} {i : TableInfo V}

/-- **COMMIT without a clash keeps the constraints.** -/
theorem obeys_commit (hs : Sound e) (hx : ViewOk e x) (hi : e.catalog.tables.get? t = some i)
    (hrows : Obeys i ((seen e none t).map Prod.snd)) (hclash : ¬ Clash e x) (ts : Int) :
    Obeys i ((overlay (keyCols i) x t ts (seen e none t)).map Prod.snd) := by
  have hview := hx.rows t i hi
  rw [seen_txn hs.ok.delta x hx.early hi, overlay_map] at hview
  rw [overlay_map]
  refine Obeys.append (hrows.sublist (List.filter_sublist.map _))
    (hview.sublist (List.sublist_append_right _ _)) fun key hkey hne r hr r' hr' hnn heq => ?_
  obtain ⟨y, hy, rfl⟩ := List.mem_map.mp hr
  obtain ⟨hy, hspared⟩ := List.mem_filter.mp hy
  obtain ⟨hown, hspared'⟩ := List.mem_filter.mp hr'
  by_cases hold : y.1 ≤ x.snapshotTs
  · -- the transaction sees the committed row
    have hsnap : y ∈ seen e (some { snapshotTs := x.snapshotTs }) t :=
      (seen_old_sublist hs.ok.delta x.snapshotTs hx.lower t).subset
        (List.mem_filter.mpr ⟨hy, by simpa using hold⟩)
    exact (hview.distinct key hkey hne).apart
      (List.mem_map.mpr ⟨y, List.mem_filter.mpr ⟨hsnap, hspared⟩, rfl⟩) hr' hnn heq
  · refine hclash ⟨t, i, key, y, r', hi, hkey, hne, ⟨hy, by omega, ?_⟩, ⟨hown, ?_⟩, hnn, heq⟩
    · have := of_decide_eq_true hspared
      exact this.1
    · exact of_decide_eq_true hspared'

/-- **An autocommit write keeps the constraints.** -/
theorem obeys_write (hs : Sound e) (hnow : e.commitTs < insInf) (hg : Guarded e.catalog)
    (hex : H.Exact) {u : String} {w : Flush V} (hw : w.Ok H e { snapshotTs := e.commitTs } u)
    (hi : e.catalog.tables.get? t = some i) (hrows : Obeys i ((seen e none t).map Prod.snd))
    (ts : Int) : Obeys i ((overlay (keyCols i) (w.buffered u { snapshotTs := e.commitTs }) t ts
      (seen e none t)).map Prod.snd) := by
  rw [overlay_map]
  by_cases htu : t = u
  · subst htu
    obtain ⟨i', hi', hnew, -⟩ := hw
    rw [hi] at hi'
    cases hi'
    have hleft : seen e (some (w.tombed t { snapshotTs := e.commitTs })) t =
        (seen e none t).filter fun y => decide
          (keyOf (keyCols i) y.2 ∉ keysOf (keyCols i) false ((w.buffered t
            { snapshotTs := e.commitTs }).tombstoneBatchesWithFlag t) ∧
          keyOf (keyCols i) y.2 ∉ keysOf (keyCols i) true ((w.buffered t
            { snapshotTs := e.commitTs }).tombstoneBatchesWithFlag t)) := by
      rw [seen_txn hs.ok.delta _ (by simpa using hnow) hi, Flush.snapshotTs_tombed,
        seen_now hs.ok.delta, Flush.tombstones_buffered]
      unfold overlay Versioned.layer
      simp [ownRows]
    rw [← hleft]
    have hkept : Obeys i ((seen e (some (w.tombed t { snapshotTs := e.commitTs })) t).map
        Prod.snd) := by
      rw [hleft]
      exact hrows.sublist (List.filter_sublist.map _)
    cases hn : w.new with
    | none =>
      have hown : ownRows (w.buffered t { snapshotTs := e.commitTs }) t = [] := by
        simp [ownRows, hn]
      rw [hown, List.filter_nil, List.append_nil]
      exact hkept
    | some f =>
      obtain ⟨hcols, hadm, hreq⟩ := hnew f hn
      have hown : ownRows (w.buffered t { snapshotTs := e.commitTs }) t = f.rows := by
        simp [ownRows, hn]
      rw [hown]
      refine hkept.append ((Admits.obeys hadm (hreq hex) fun p hp => hg t i p hi hp).sublist
        List.filter_sublist) fun key hkey hne r hr r' hr' hnn heq => ?_
      obtain ⟨y, hy, rfl⟩ := List.mem_map.mp hr
      exact (hadm key hkey hne).2 y hy r' (List.mem_of_mem_filter hr') hnn heq
  · have hown : ownRows (w.buffered u { snapshotTs := e.commitTs }) t = [] := by
      simp [ownRows, htu]
    rw [hown, List.filter_nil, List.append_nil]
    exact hrows.sublist (List.filter_sublist.map _)

/-- **A buffered write keeps the constraints of the transaction's view.** -/
theorem viewOk_buffered (hs : Sound e) (hg : Guarded e.catalog) (hex : H.Exact) {u : String}
    {w : Flush V} (hw : w.Ok H e x u) (hu : w.update = none) (hx : ViewOk e x) :
    ViewOk e (w.buffered u x) := by
  refine ⟨by simpa using hx.lower, by simpa using hx.upper, by simpa using hx.early, ?_⟩
  intro t i hi
  by_cases htu : t = u
  · subst htu
    obtain ⟨i', hi', hnew, -⟩ := hw
    rw [hi] at hi'
    cases hi'
    have hkept := (hx.rows t i hi).sublist
      ((seen_tombed_sublist hs.ok.delta hx.early hi hu).map Prod.snd)
    obtain ⟨rows, hsub, hseen⟩ := seen_buffered (w := w) hs.ok.delta hx.early hi
    rw [hseen, List.map_append]
    cases hn : w.new with
    | none =>
      rw [hn] at hsub
      have hnil : rows = [] := List.sublist_nil.mp hsub
      rw [hnil, List.map_nil, List.append_nil]
      exact hkept
    | some f =>
      obtain ⟨hcols, hadm, hreq⟩ := hnew f hn
      rw [hn] at hsub
      have hsub' : List.Sublist (rows.map Prod.snd) f.rows := by
        have := hsub.map Prod.snd
        simpa [Function.comp_def] using this
      refine hkept.append ((Admits.obeys hadm (hreq hex) fun p hp => hg t i p hi hp).sublist hsub')
        fun key hkey hne r hr r' hr' hnn heq => ?_
      obtain ⟨y, hy, rfl⟩ := List.mem_map.mp hr
      exact (hadm key hkey hne).2 y hy r' (hsub'.subset hr') hnn heq
  · rw [seen_buffered_other htu]
    exact hx.rows t i hi

/-- A transaction whose view did not move. -/
theorem ViewOk.congr {e' : Engine V} (h : ViewOk e x) (hcat : e'.catalog = e.catalog)
    (hts : e.commitTs ≤ e'.commitTs) (hview : ∀ t, seen e' (some x) t = seen e (some x) t) :
    ViewOk e' x :=
  ⟨h.lower, le_trans h.upper hts, h.early, fun t i hi => by
    rw [hview]
    exact h.rows t i (by rw [← hcat]; exact hi)⟩

/-- **One careful step keeps the invariant.** -/
theorem isolated_step (hex : H.Exact) (w : World V) (a : Step V) (h : Isolated w)
    (ha : Careful w a) : Isolated (w.step H a) := by
  cases a with
  | restart => exact ha.elim
  | disconnect c =>
    refine ⟨World.settled_step w _ h.settled trivial, h.guarded, h.rows, fun d x hx => ?_⟩
    rw [World.step, Dict.get?_erase] at hx
    split at hx
    · cases hx
    · exact h.txns d x hx
  | sql c st faults =>
    obtain ⟨hnr, hnow, halone, hclash⟩ := ha
    have hsettled := World.settled_step (H := H) w (.sql c st faults) h.settled halone
    have hsound := h.settled.eng
    obtain ⟨s', he, hs'⟩ := World.sql_effect H hsound.ok.coherent c st halone
    have hchange := effect_change he hsound halone (h.settled.txns c) (fun t _ => h.settled.keyed t) hnr
    obtain ⟨hts, hothers⟩ := effect_others he hnr
    have hcat : s'.eng.catalog = w.eng.catalog := World.effect_catalog he
    change Isolated (w.sql H c st faults).2
    change World.Settled (w.sql H c st faults).2 at hsettled
    rw [hs'] at hsettled ⊢
    have hkeep : ∀ x, ViewOk w.eng x → ViewOk s'.eng x := fun x hx =>
      hx.congr hcat hts fun t => hothers x t hx.upper
    -- it is enough to know the committed rows and the own transaction afterwards
    have hdone : (∀ t i, w.eng.catalog.tables.get? t = some i →
        Obeys i ((seen s'.eng none t).map Prod.snd)) →
        (∀ x, s'.txn = some x → ViewOk s'.eng x) → Isolated (w.store c s') := by
      intro hrows hown
      refine ⟨hsettled, by rw [World.store_eng, hcat]; exact h.guarded, fun t i hi => ?_,
        fun d x hx => ?_⟩
      · rw [World.store_eng, hcat] at hi
        exact hrows t i hi
      · rw [World.store_txns] at hx
        split at hx
        · exact hown x hx
        · exact hkeep x (h.txns d x hx)
    cases hchange with
    | idle hview hx =>
      refine hdone (fun t i hi => by rw [hview]; exact h.rows t i hi) fun x hx' => ?_
      rcases hx with hx | hx
      · rw [hx] at hx'
        exact hkeep x (h.txns c x hx')
      · rw [hx] at hx'
        cases hx'
    | begin _ _ hview hx =>
      refine hdone (fun t i hi => by rw [hview]; exact h.rows t i hi) fun x hx' => ?_
      rw [hx] at hx'
      cases hx'
      refine hkeep _ ⟨hsound.counter, le_refl _, hnow, fun t i hi => ?_⟩
      change Obeys i ((seen w.eng (some { snapshotTs := w.eng.commitTs }) t).map Prod.snd)
      rw [seen_now hsound.ok.delta]
      exact h.rows t i hi
    | buffer hview hx hx' hu hd hw =>
      refine hdone (fun t i hi => by rw [hview]; exact h.rows t i hi) fun x hxx => ?_
      rw [hx'] at hxx
      cases hxx
      exact hkeep _ (viewOk_buffered hsound h.guarded hex hw hu (h.txns c _ hx))
    | write hx' hlay hw =>
      refine hdone (fun t i hi => ?_) fun x hxx => ?_
      · rw [hlay t i hi]
        exact obeys_write hsound hnow h.guarded hex hw hi (h.rows t i hi) _
      · rw [hx'] at hxx
        cases hxx
    | commit hst hx hx' hlay =>
      refine hdone (fun t i hi => ?_) fun x hxx => ?_
      · rw [hlay t i hi]
        exact obeys_commit hsound (h.txns c _ hx) hi (h.rows t i hi) (hclash hst _ hx) _
      · rw [hx'] at hxx
        cases hxx

/-- **Declared keys stay unique in every run without a clash.**  From a world without open
transactions whose committed rows obey their constraints, after every step of a careful run of any
number of connections the committed rows obey them.  The run stays plain: two keys that differ in a
batch are then two keys behind the cast to the base, and no column of a key is one that
`_merge_delta` writes itself. -/
theorem unique_run (hex : H.Exact) (M : Merger V) {w : World V} (hw : World.Settled w)
    (hidle : ∀ c, w.txns.get? c = none) (hg : Guarded w.eng.catalog) (hsat : Satisfies w.eng)
    {l : List (Step V)}
    (hl : Run.Along (World.step H) (fun w a => Careful w a ∧ World.StaysPlain M w (w.step H a)) w l) :
    ∀ l', l' <+: l → Satisfies (Run.run (World.step H) w l').eng := by
  have hcareful : Run.Along (World.step H) Careful w l := hl.mono fun _ _ h => h.1
  have hinit : Isolated w := by
    refine ⟨hw, hg, fun t i hi => hsat t i _ hi (visible_seen hw.eng.ok hi), fun c x hx => ?_⟩
    rw [hidle c] at hx
    cases hx
  rintro l' ⟨l'', rfl⟩
  have hiso := (Run.Along.append.mp hcareful).1.invariant (isolated_step hex) hinit
  intro t i rows hi hrows
  rw [visible_seen hiso.settled.eng.ok hi] at hrows
  cases hrows
  exact hiso.rows t i hi

end Steps

/-! ## 3. Two transactions insert one key -/

theorem started_guarded : Guarded started.eng.catalog := by
  intro t i p hi hp c hc
  have ht := started_table hi
  subst ht
  have hent : (started.eng.catalog.tables.get? "t").map (fun i =>
      (i.constraints.primaryKey, i.columns, i.constraints.notNull)) =
        some (some ["k"], ["k"], ["k"]) := by with_unfolding_all decide
  rw [hi] at hent
  simp only [Option.map_some, Option.some.injEq, Prod.mk.injEq] at hent
  obtain ⟨hpk, hcols, hnn⟩ := hent
  rw [hp] at hpk
  cases hpk
  rw [hcols, hnn]
  exact ⟨hc, hc⟩

theorem started_satisfies : Satisfies started.eng := by
  intro t i rows hi hrows
  have ht := started_table hi
  subst ht
  have hempty : (visible started.eng "t").map List.length = .ok 0 := by with_unfolding_all decide
  rw [hrows] at hempty
  have hnil : rows = [] := List.length_eq_zero_iff.mp (Except.ok.inj hempty)
  subst hnil
  exact ⟨fun _ _ r hr => (by cases hr), fun _ _ _ => List.nodup_nil⟩

/-- Both connections begin, both insert the key 1, both commit. -/
def twoInserts : List (Step Nat) :=
  [.sql 0 .begin {}, .sql 1 .begin {}, .sql 0 (insertKey "t" 1) {}, .sql 1 (insertKey "t" 1) {},
    .sql 0 .commit {}, .sql 1 .commit {}]

set_option maxRecDepth 10000 in
/-- Afterwards the key is there twice. -/
theorem two_inserts_clash : Satisfies started.eng ∧
    ¬ Satisfies (Run.run (World.step natHost) started twoInserts).eng := by
  refine ⟨started_satisfies, fun h => ?_⟩
  have hkey : ((Run.run (World.step natHost) started twoInserts).eng.catalog.tables.get?
      "t").map (fun i => i.constraints.primaryKey) = some (some ["k"]) := by with_unfolding_all decide
  have hrows : (visible (Run.run (World.step natHost) started twoInserts).eng "t").map
      (List.map (keyOf ["k"])) = .ok [[some 1], [some 1]] := by with_unfolding_all decide
  obtain ⟨i, hi, hp⟩ := Option.map_eq_some_iff.mp hkey
  cases hv : visible (Run.run (World.step natHost) started twoInserts).eng "t" with
  | error y => rw [hv] at hrows; cases hrows
  | ok rows =>
    rw [hv] at hrows
    have hd := (h "t" i rows hi hv).distinct ["k"] (by simp [declaredKeys, hp]) (by simp)
    have hlist : rows.map (keyOf ["k"]) = [[some 1], [some 1]] := Except.ok.inj hrows
    rw [Distinct, hlist] at hd
    exact absurd hd (by decide)

/-- One transaction on its own. -/
def oneInsert : List (Step Nat) :=
  [.sql 0 .begin {}, .sql 0 (insertKey "t" 1) {}, .sql 0 .commit {}]

/-- A run with a COMMIT that meets the conditions. -/
theorem unique_run_commit : Satisfies started.eng ∧
    ∀ l', l' <+: oneInsert → Satisfies (Run.run (World.step natHost) started l').eng := by
  refine ⟨started_satisfies, ?_⟩
  have hplain : ∀ n, (Run.run (World.step natHost) started (oneInsert.take n)).Plain natMerger := by
    intro n
    refine started_plain fun a ha => ?_
    have hall : ∀ a ∈ oneInsert, World.Live a := by simp [oneInsert, World.Live, Step.LeavesCache]
    exact hall a (List.mem_of_mem_take ha)
  refine unique_run (fun ty col v c h => ?_) natMerger started_settled started_idle started_guarded
    started_satisfies ?_
  · cases h
    rfl
  · have hmid : World.Settled (Run.run (World.step natHost) started
        [.sql 0 .begin {}, .sql 0 (insertKey "t" 1) {}]) :=
      World.settled_run started_settled (by simp [World.Live, Step.LeavesCache])
    have hts : (Run.run (World.step natHost) started
        [.sql 0 .begin {}, .sql 0 (insertKey "t" 1) {}]).eng.commitTs = 0 := by with_unfolding_all decide
    have hsnap : ((Run.run (World.step natHost) started
        [.sql 0 .begin {}, .sql 0 (insertKey "t" 1) {}]).txns.get? 0).map
          (fun x => x.snapshotTs) = some 0 := by with_unfolding_all decide
    refine ⟨⟨⟨trivial, by with_unfolding_all decide, rfl, fun h => (by cases h)⟩, hplain 0, hplain 1⟩,
      ⟨⟨trivial, by with_unfolding_all decide, rfl, fun h => (by cases h)⟩, hplain 1, hplain 2⟩,
      ⟨⟨trivial, by with_unfolding_all decide, rfl, fun _ x hx => not_clash hmid.eng ?_⟩, hplain 2,
        hplain 3⟩, trivial⟩
    have hx' : (Run.run (World.step natHost) started
        [.sql 0 .begin {}, .sql 0 (insertKey "t" 1) {}]).txns.get? 0 = some x := hx
    rw [hx'] at hsnap
    have hle : (Run.run (World.step natHost) started
        [.sql 0 .begin {}, .sql 0 (insertKey "t" 1) {}]).eng.commitTs ≤ x.snapshotTs := by
      have h0 : x.snapshotTs = 0 := Option.some.inj hsnap
      rw [hts, h0]
    exact hle

end RyuDB
