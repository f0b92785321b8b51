/-
# UPDATE and its reference

`_update` removes the matched rows by their primary keys and inserts the rows after SET, both under
one timestamp.  A new row may have the key another matched row had: its own tombstone spares it.

    UPDATE t SET k = k + 1          -- keys 1, 2, 3 become 2, 3, 4

`update_reference` says that an autocommit UPDATE that succeeds leaves the rows WHERE does not match
and, for every matched row, the row with the SET expressions evaluated on it, in one commit, and
returns their number; and that a statement that comes to the uniqueness check raises a uniqueness
error exactly when two of those rows agree in a declared key without NULL.  NULL in a key column is
found earlier, as NULL in a column declared NOT NULL.

The reference is a function of the rows, without timestamps, tombstones and frames.  It is compared
with the state behind the commit, so nothing about the way there is part of the statement.

That values survive the way to the host and back is a hypothesis (`Host.Keeps`).  The engine is asked
to be plain before and after (`Engine.Plain`): no table has a column of a name that `_merge_delta`
uses itself, and no value is changed by the cast to its column in the base (`MergeColumns`).
-/
import RyuDB.Implicit

namespace RyuDB

variable {V : Type}

/-! ## 1. The reference -/

/-- Moving a value between device and host keeps it. -/
def Host.Keeps (H : Host V) : Prop := ∀ ty col v c, H.coerce ty col v = .ok c → c = some v

namespace UpdateNode

/-- WHERE is true on a row. -/
def holds (n : UpdateNode V) (r : Row V) : Bool :=
  match n.predicate with
  | none => true
  | some p => p.value r

/-- A row with the SET expressions evaluated on it. -/
def setRow (n : UpdateNode V) (r : Row V) : Row V := fun c =>
  match n.assignments.find? fun a => decide (a.1 = c) with
  | some a => a.2.value r
  | none => r c

/-- The rows after the UPDATE. -/
def reference (n : UpdateNode V) (rows : List (Row V)) : List (Row V) :=
  (rows.filter fun r => !n.holds r) ++ (rows.filter n.holds).map n.setRow

end UpdateNode

/-- No two rows agree in a declared key without NULL. -/
def KeysDistinct (i : TableInfo V) (rows : List (Row V)) : Prop :=
  ∀ key ∈ Engine.declaredKeys i.constraints, key ≠ [] → Distinct key rows

namespace Engine

/-! ## 2. The rows after SET -/

section Rows

variable {H : Host V} {i : TableInfo V}

theorem masked_value {p : Option (Pred V)} {f g : Frame V} (h : masked p f = .ok g) :
    g.columns = f.columns ∧ g.rows = f.rows.filter fun r =>
      match p with
      | none => true
      | some p => p.value r := by
  cases p with
  | none =>
    cases h
    exact ⟨rfl, (List.filter_true _).symm⟩
  | some p =>
    obtain ⟨mask, hm, h⟩ := bind_eq_ok.mp h
    cases h
    unfold Expr.eval at hm
    split at hm
    · cases hm
    · cases hm
      exact ⟨rfl, rfl⟩

/-- `setColumns` gives every assigned column its value and keeps the others. -/
theorem setColumns_keeps {α : Type} (hk : H.Keeps) {items : List α} :
    ∀ {as : List (String × Except DbError (α → Cell V))} {new f : α → Row V},
      setColumns H i items as new = .ok f → (as.map Prod.fst).Nodup → ∀ a ∈ items, ∀ c,
        (∀ e v, e ∈ as → e.1 = c → e.2 = .ok v → f a c = v a) ∧
          (c ∉ as.map Prod.fst → f a c = new a c)
  | [], new, f, h, _, a, _, c => by
    cases h
    exact ⟨fun e v he => (by cases he), fun _ => rfl⟩
  | (col, e) :: as, new, f, h, hnd, a, ha, c => by
    obtain ⟨v, rfl, hrest⟩ := bind_eq_ok.mp h
    obtain ⟨_, hco, hlast⟩ := bind_eq_ok.mp hrest
    rw [List.map_cons, List.nodup_cons] at hnd
    have ih := setColumns_keeps hk hlast hnd.2 a ha c
    have hval : coerced H (i.typeOf col) (items.map v) (v a) = v a := by
      obtain ⟨w, hw, -⟩ := bind_eq_ok.mp (forM_ok hco a ha)
      rw [coerced, hw]
      cases hva : v a with
      | none =>
        rw [hva] at hw
        exact (Except.ok.inj hw).symm
      | some x =>
        rw [hva] at hw
        exact hk _ _ _ _ hw
    refine ⟨fun e' v' he' hcol hv' => ?_, fun hc => ?_⟩
    · rcases List.mem_cons.mp he' with rfl | he'
      · cases hv'
        subst hcol
        rw [ih.2 hnd.1, if_pos rfl, hval]
      · exact ih.1 e' v' he' hcol hv'
    · rw [List.map_cons, List.mem_cons, not_or] at hc
      rw [ih.2 hc.2, if_neg hc.1]

/-- Every expression of a SET list that went through was evaluated. -/
theorem setColumns_evaluated {α : Type} {items : List α} :
    ∀ {as : List (String × Except DbError (α → Cell V))} {new f : α → Row V},
      setColumns H i items as new = .ok f → ∀ e ∈ as, ∃ v, e.2 = .ok v
  | [], _, _, _, e, he => by cases he
  | (col, x) :: as, new, f, h, e, he => by
    obtain ⟨v, hv, hrest⟩ := bind_eq_ok.mp h
    obtain ⟨_, -, hlast⟩ := bind_eq_ok.mp hrest
    rcases List.mem_cons.mp he with rfl | he
    · exact ⟨v, hv⟩
    · exact setColumns_evaluated hlast e he

theorem eval_value {α : Type} {e : Expr V α} {g : Frame V} {v : Row V → α}
    (h : e.eval g = .ok v) : v = e.value := by
  unfold Expr.eval at h
  split at h <;> cases h
  rfl

theorem checkAssignments_ok {n : UpdateNode V} (h : checkAssignments i n = .ok ()) :
    (∀ a ∈ n.assignments, a.1 ∈ i.columns) ∧ (n.assignments.map Prod.fst).Nodup := by
  obtain ⟨_, hcols, h⟩ := bind_eq_ok.mp h
  constructor
  · intro a ha
    have := forM_ok hcols a ha
    by_contra hc
    rw [if_pos hc] at this
    cases this
  · split at h
    · cases h
    · rename_i hlen
      rw [not_not] at hlen
      rw [← List.dedup_eq_self]
      refine (List.dedup_sublist _).eq_of_length ?_
      rw [hlen, List.length_map]

/-- **The batch of an UPDATE is its matched rows after SET.** -/
theorem updatedFrame_rows (hk : H.Keeps) {n : UpdateNode V} {targets f : Frame V}
    (hc : checkAssignments i n = .ok ()) (ht : targets.columns = i.columns)
    (h : updatedFrame H i n targets = .ok f) : f.rows = targets.rows.map n.setRow := by
  obtain ⟨hcols, hnd⟩ := checkAssignments_ok hc
  obtain ⟨new, hnew, h⟩ := bind_eq_ok.mp h
  obtain ⟨_, -, h⟩ := bind_eq_ok.mp h
  cases h
  have hnames : (n.assignments.map fun a => (a.1, a.2.eval targets)).map Prod.fst =
      n.assignments.map Prod.fst := by
    rw [List.map_map]
    rfl
  have hset := setColumns_keeps hk hnew (by rw [hnames]; exact hnd)
  rw [Frame.ofRows_rows, List.map_map]
  refine List.map_congr_left fun r hr => ?_
  funext c
  have hcol := hset r hr c
  have hset' : new r c = n.setRow r c := by
    unfold UpdateNode.setRow
    cases hfind : n.assignments.find? fun a => decide (a.1 = c) with
    | none =>
      refine hcol.2 fun hmem => ?_
      rw [hnames] at hmem
      obtain ⟨a, ha, rfl⟩ := List.mem_map.mp hmem
      simpa using List.find?_eq_none.mp hfind a ha
    | some a =>
      have hname : a.1 = c := by simpa using List.find?_some hfind
      have hmem := List.mem_map_of_mem (List.mem_of_find?_eq_some hfind)
        (f := fun a => (a.1, a.2.eval targets))
      obtain ⟨v, hv⟩ := setColumns_evaluated hnew _ hmem
      rw [hcol.1 _ v hmem hname hv]
      exact congrFun (eval_value hv) r
  rw [Function.comp_apply, restrict]
  split
  · exact hset'
  · rename_i hout
    rw [← hset', hcol.2 fun hmem => ?_]
    · exact (targets.supported r hr c (by rw [ht]; rw [ht] at hout; exact hout)).symm
    · rw [hnames] at hmem
      obtain ⟨a, ha, rfl⟩ := List.mem_map.mp hmem
      rw [ht] at hout
      exact hout (hcols a ha)

end Rows

/-! ## 3. The statement -/

section Statement

variable [DecidableEq V] {H : Host V} {s s' : Session V} {i : TableInfo V} {n : UpdateNode V}
  {p : List String}

/-- The statement comes to the uniqueness check with the batch `f`: its columns are known, WHERE
and SET are evaluated, some row matches, and no NOT NULL column became NULL. -/
def Accepted (H : Host V) (s : Session V) (i : TableInfo V) (n : UpdateNode V) (f : Frame V) :
    Prop :=
  checkAssignments i n = .ok () ∧ ∃ targets, targetsPure s.eng none n.table n.predicate = .ok targets ∧
    targets.rows.isEmpty = false ∧ updatedFrame H i n targets = .ok f

/-- The rows WHERE matches. -/
theorem targets_rows (he : EngineOk s.eng) (hi : s.eng.catalog.tables.get? n.table = some i)
    {targets : Frame V} (h : targetsPure s.eng none n.table n.predicate = .ok targets) :
    targets.columns = i.columns ∧
      targets.rows = (rowsOf s.eng n.table).filter n.holds := by
  obtain ⟨g, hg, hgc, hgr⟩ := look_seen he (x := none) (by intro y hy; cases hy) hi
  rw [targetsPure, hg] at h
  obtain ⟨hc, hr⟩ := masked_value h
  refine ⟨hc.trans hgc, ?_⟩
  rw [hr, hgr]
  rfl

/-- The write set of an UPDATE. -/
def updateFlush (p : List String) (targets f : Frame V) : Flush V :=
  ⟨some (Frame.ofRows p targets.rows), none, some f⟩

/-- The tombstones of an UPDATE spare the rows WHERE does not match. -/
theorem spared_update (hp : i.constraints.primaryKey = some p) (hne : p ≠ [])
    (hrows : Obeys i (rowsOf s.eng n.table)) {targets f : Frame V}
    (ht : targets.rows = (rowsOf s.eng n.table).filter n.holds) {r : Row V}
    (hr : r ∈ rowsOf s.eng n.table) :
    spared i (((updateFlush p targets f).tombed n.table
      { snapshotTs := s.eng.commitTs }).tombstoneBatchesWithFlag n.table) r = !n.holds r := by
  have hkey : keyCols i = p := by rw [keyCols, hp, Option.getD_some]
  have hkeys : keysOf p true [(Frame.ofRows p targets.rows, true)] =
      (targets.rows.map (keyOf p)).filter Key.nonNull := by
    simp only [keysOf, List.filter_cons_of_pos, decide_true, List.filter_nil,
      List.flatMap_singleton, Frame.ofRows_rows, List.map_map, Function.comp_def,
      keyOf_restrict fun _ hc => hc]
  have hnone : keysOf p false [(Frame.ofRows p targets.rows, true)] = [] := rfl
  rw [ht] at hkeys hnone
  have hmem := (mem_keys_iff hrows hp hne (l := (rowsOf s.eng n.table).filter n.holds)
    (fun r hr => List.mem_of_mem_filter hr) hr).trans List.mem_filter
  have htombs : ((updateFlush p targets f).tombed n.table
      { snapshotTs := s.eng.commitTs }).tombstoneBatchesWithFlag n.table =
        [(Frame.ofRows p targets.rows, true)] := by
    simp [updateFlush]
  rw [htombs, spared, Bool.eq_iff_iff, decide_eq_true_eq, hkey, ht, hnone, hkeys, hmem]
  cases n.holds r <;> simp [hr]

/-- What the flush of an UPDATE leaves. -/
theorem rows_updated (hs : Sound s.eng) (hi : s.eng.catalog.tables.get? n.table = some i)
    (hp : i.constraints.primaryKey = some p) (hne : p ≠ [])
    (hrows : Obeys i (rowsOf s.eng n.table)) {targets f : Frame V}
    (ht : targets.rows = (rowsOf s.eng n.table).filter n.holds)
    (hf : f.rows = targets.rows.map n.setRow) {e' : Engine V} {bs : List (Batch V)}
    (hcom : Committed bs s.eng e')
    (hbs : Carries bs ((updateFlush p targets f).buffered n.table
      { snapshotTs := s.eng.commitTs })) :
    rowsOf e' n.table = n.reference (rowsOf s.eng n.table) := by
  rw [rows_committed hs hcom hbs hi, Flush.tombstones_buffered, UpdateNode.reference,
    List.filter_congr fun r hr => spared_update hp hne hrows ht hr]
  congr 1
  have hnone : ∀ r, keyOf (keyCols i) r ∉ keysOf (keyCols i) false
      (((updateFlush p targets f).tombed n.table
        { snapshotTs := s.eng.commitTs }).tombstoneBatchesWithFlag n.table) := by
    intro r hr
    simp [updateFlush, keysOf] at hr
  rw [List.filter_eq_self.mpr fun r _ => decide_eq_true (hnone r), ← ht, ← hf]
  simp [ownRows, updateFlush]

/-- **The uniqueness check of an UPDATE admits its batch just when the reference has no two rows
with one declared key.** -/
theorem admits_update (hs : Sound s.eng) (hnow : s.eng.commitTs < insInf)
    (hi : s.eng.catalog.tables.get? n.table = some i) (hp : i.constraints.primaryKey = some p)
    (hne : p ≠ []) (hrows : Obeys i (rowsOf s.eng n.table)) {targets f : Frame V}
    (ht : targets.rows = (rowsOf s.eng n.table).filter n.holds)
    (hf : f.rows = targets.rows.map n.setRow) :
    Admits i (seen s.eng (some ((updateFlush p targets f).tombed n.table
      { snapshotTs := s.eng.commitTs })) n.table) f ↔
        KeysDistinct i (n.reference (rowsOf s.eng n.table)) := by
  have hleft : (seen s.eng (some ((updateFlush p targets f).tombed n.table
      { snapshotTs := s.eng.commitTs })) n.table).map Prod.snd =
        (rowsOf s.eng n.table).filter fun r => !n.holds r := by
    rw [rows_tombed hs hnow hi]
    exact List.filter_congr fun r hr => spared_update hp hne hrows ht hr
  have hkept : Obeys i ((rowsOf s.eng n.table).filter fun r => !n.holds r) :=
    hrows.sublist List.filter_sublist
  have href : n.reference (rowsOf s.eng n.table) =
      ((rowsOf s.eng n.table).filter fun r => !n.holds r) ++ f.rows := by
    rw [UpdateNode.reference, hf, ht]
  rw [href]
  constructor
  · intro h key hkey hnil
    refine (hkept.distinct key hkey hnil).append (h key hkey hnil).1 fun y hy r hr hnn heq => ?_
    rw [← hleft] at hy
    obtain ⟨z, hz, rfl⟩ := List.mem_map.mp hy
    exact (h key hkey hnil).2 z hz r hr hnn heq
  · intro h key hkey hnil
    have hd := h key hkey hnil
    refine ⟨hd.sublist (List.sublist_append_right _ _), fun y hy r hr hnn heq => ?_⟩
    exact hd.apart (by rw [← hleft]; exact List.mem_map_of_mem hy) hr hnn heq

/-- **An UPDATE that succeeds leaves its reference.** -/
theorem update_ok (hk : H.Keeps) (hs : Sound s.eng) (ha : s.faults.writesBack = false)
    (hnow : s.eng.commitTs < insInf) (hi : s.eng.catalog.tables.get? n.table = some i)
    (hp : i.constraints.primaryKey = some p)
    (hne : p ≠ []) (hrows : Obeys i (rowsOf s.eng n.table)) {k : Nat}
    (h : update H n s = (.ok k, s')) :
    k = ((rowsOf s.eng n.table).filter n.holds).length ∧ s'.txn = none ∧
      rowsOf s'.eng n.table = n.reference (rowsOf s.eng n.table) ∧
      (k = 0 → Quiet s s') ∧ (k ≠ 0 → ∃ bs, Committed bs s.eng s'.eng) ∧
      KeysDistinct i (n.reference (rowsOf s.eng n.table)) := by
  have hc : Pristine s := ⟨hs.ok.coherent, ha⟩
  obtain ⟨i', s₁, h₁, h⟩ := Proc.bind_ok.mp h
  obtain ⟨hi', rfl⟩ := catalogGet_ok h₁
  rw [hi] at hi'
  cases hi'
  obtain ⟨p', s₂, h₂, h⟩ := Proc.bind_ok.mp h
  obtain ⟨hp', rfl⟩ := Prod.mk.inj h₂
  have hp' := requirePk_ok hp'
  rw [hp] at hp'
  cases hp'
  obtain ⟨_, s₃, h₃, h⟩ := Proc.bind_ok.mp h
  obtain ⟨v, hv, hnone⟩ := refuseInTxn_reads (Quiet.refl s) "UPDATE"
  obtain ⟨hvok, hq₃⟩ := hv.ok h₃
  have hx := hnone hvok
  obtain ⟨_, s₄, h₄, h⟩ := Proc.bind_ok.mp h
  obtain ⟨hcheck, rfl⟩ := Prod.mk.inj h₄
  obtain ⟨targets, s₅, h₅, h⟩ := Proc.bind_ok.mp h
  obtain ⟨ht, hq₅⟩ := (targetsOf_reads hc hq₃ n.table n.predicate).ok h₅
  have hq := Quiet.trans _ _ _ hq₃ hq₅
  rw [hx] at ht
  obtain ⟨hcols, htr⟩ := targets_rows hs.ok hi ht
  split at h
  · rename_i hempty
    cases h
    rw [List.isEmpty_iff] at hempty
    rw [hempty] at htr
    have href : n.reference (rowsOf s.eng n.table) = rowsOf s.eng n.table := by
      rw [UpdateNode.reference, ← htr, List.map_nil, List.append_nil, List.filter_eq_self]
      intro r hr
      have := List.filter_eq_nil_iff.mp htr.symm r hr
      simpa using this
    refine ⟨by rw [← htr]; rfl, hq.txn.trans hx, ?_, fun _ => hq, fun h0 => absurd rfl h0, ?_⟩
    · rw [href, rowsOf, rowsOf, hq.kept.seen]
    · rw [href]
      exact hrows.distinct
  · rename_i hfull
    obtain ⟨f, s₆, h₆, h⟩ := Proc.bind_ok.mp h
    obtain ⟨hf, rfl⟩ := Prod.mk.inj h₆
    obtain ⟨g, s₇, h₇, h⟩ := Proc.bind_ok.mp h
    obtain ⟨hg, rfl⟩ := Prod.mk.inj h₇
    obtain ⟨_, s₈, h₈, h⟩ := Proc.bind_ok.mp h
    cases h
    obtain ⟨hsub, rfl⟩ := Frame.select_ok.mp hg
    have hfr := updatedFrame_rows hk hcheck hcols hf
    have hfc : f.columns = i.columns := (updatedFrame_ok H hf).1.trans hcols
    obtain ⟨⟨bs, hcom, hbs⟩, hdone, hadm⟩ := flush_committed (hq.pristine hc) h₈
    have hcom' := hcom.after hq
    rw [hq.commitTs] at hbs hadm
    have hlen : targets.len = ((rowsOf s.eng n.table).filter n.holds).length := by
      rw [Frame.len, htr]
    refine ⟨hlen, hdone, rows_updated hs hi hp hne hrows htr hfr hcom' hbs, ?_, fun _ => ⟨bs, hcom'⟩,
      ?_⟩
    · intro h0
      refine absurd ?_ hfull
      rw [List.isEmpty_iff, ← List.length_eq_zero_iff]
      exact h0
    · refine (admits_update hs hnow hi hp hne hrows htr hfr).mp ?_
      have htxn : TxnOk s₅.eng.catalog ((updateFlush p targets f).tombed n.table
          { snapshotTs := s.eng.commitTs }) := by
        rw [hq.catalog]
        refine txnOk_tombed hi hp hne (fun col hcol => by rw [← hcols]; exact hsub col hcol)
          (fun g hg => ?_) _
        rw [List.mem_singleton.mp hg]
        rfl
      have hseen := enforcePure_ok (hs.quiet ha hq).ok (x := some ((updateFlush p targets f).tombed
        n.table { snapshotTs := s.eng.commitTs })) (by intro y hy; cases hy; exact htxn)
        (by rw [hq.catalog]; exact hi) hfc (hadm f rfl)
      rw [hq.kept.seen] at hseen
      exact hseen

/-- **A statement that comes to the uniqueness check raises a uniqueness error just when two rows
of its reference agree in a declared key without NULL.** -/
theorem update_violation (hk : H.Keeps) (hs : Sound s.eng) (ha : s.faults.writesBack = false)
    (hnow : s.eng.commitTs < insInf) (hx : s.txn = none) (hcalm : s.faults.cancelAfter = none)
    (hi : s.eng.catalog.tables.get? n.table = some i) (hp : i.constraints.primaryKey = some p)
    (hknown : KeysKnown i) (hrows : Obeys i (rowsOf s.eng n.table)) {f : Frame V}
    (hacc : Accepted H s i n f) :
    (∃ y, (update H n s).1 = .error y ∧ IsUniqueViolation y) ↔
      ¬ KeysDistinct i (n.reference (rowsOf s.eng n.table)) := by
  have hc : Pristine s := ⟨hs.ok.coherent, ha⟩
  have hpk := hknown p (List.mem_append_left _ (by rw [hp]; exact List.mem_singleton_self p))
  obtain ⟨hcheck, targets, ht, hfull, hf⟩ := hacc
  obtain ⟨hcols, htr⟩ := targets_rows hs.ok hi ht
  have hfr := updatedFrame_rows hk hcheck hcols hf
  have hfc : f.columns = i.columns := (updatedFrame_ok H hf).1.trans hcols
  -- the statement reads quietly up to the flush
  have hreads := targetsOf_reads hc (Quiet.refl s) n.table n.predicate
  have hval := hreads.value.calm hcalm
  have hq := hreads.quiet
  rcases hrun : targetsOf n.table n.predicate s with ⟨v, s₁⟩
  rw [hrun] at hval hq
  rw [hx, ht] at hval
  dsimp only at hval hq
  subst hval
  have hsel : targets.select p = .ok (Frame.ofRows p targets.rows) :=
    Frame.select_of_subset fun c hcol => by rw [hcols]; exact hpk.2 c hcol
  have hgoes : update H n s = (flush H n.table (updateFlush p targets f) >>= fun _ =>
      (return targets.len : Op V Nat)) s₁ := by
    have hget : catalogGet n.table s = (.ok i, s) := by
      rw [catalogGet_apply, get_eq_ok.mpr hi]
    have hkey : requirePk i ("UPDATE requires a declared PRIMARY KEY on " ++ n.table) = .ok p := by
      rw [requirePk, hp]
    have hopen : refuseInTxn "UPDATE" s = (.ok (), s) := by
      rw [refuseInTxn, Proc.get_bind, hx]
      rfl
    unfold update
    rw [Proc.bind_of_ok hget, hkey, Proc.lift_bind_ok, Proc.bind_of_ok hopen, hcheck,
      Proc.lift_bind_ok, Proc.bind_of_ok hrun, if_neg (by rw [hfull]; decide), hf,
      Proc.lift_bind_ok, hsel, Proc.lift_bind_ok]
    rfl
  have hseen : ∀ t x, seen s₁.eng x t = seen s.eng x t := fun t x => hq.kept.seen x t
  have htxn : TxnOk? s₁.eng.catalog (some ((updateFlush p targets f).tombed n.table
      { snapshotTs := s₁.eng.commitTs })) := by
    intro y hy
    cases hy
    rw [hq.catalog]
    refine txnOk_tombed hi hp hpk.1 hpk.2 (fun g hg => ?_) _
    rw [List.mem_singleton.mp hg]
    rfl
  have hcases := enforcePure_cases (hs.quiet ha hq).ok htxn (by rw [hq.catalog]; exact hi) hknown hfc
  rw [hseen, hq.commitTs, admits_update hs hnow hi hp hpk.1 hrows htr hfr] at hcases
  have hcalm₁ := hq.calm hcalm
  rw [hgoes]
  rcases hcases with ⟨hok, hdist⟩ | ⟨⟨y, hy, hviol⟩, hdup⟩
  · constructor
    · rintro ⟨y, hy, hviol⟩
      have hno : NoViolation (flush H n.table (updateFlush p targets f) s₁).1 := by
        refine flush_admitted (hq.pristine hc) hcalm₁ fun g hg => ?_
        cases hg
        rw [hq.commitTs]
        exact hok
      rcases hflush : flush H n.table (updateFlush p targets f) s₁ with ⟨r, s₂⟩
      rw [hflush] at hno
      cases r with
      | error z =>
        rw [Proc.bind_of_error hflush] at hy
        cases hy
        exact absurd hviol (hno _ rfl)
      | ok u =>
        rw [Proc.bind_of_ok hflush] at hy
        cases hy
    · exact fun h => absurd hdist h
  · refine ⟨fun _ => hdup, fun _ => ⟨y, ?_, hviol⟩⟩
    have herr : (flush H n.table (updateFlush p targets f) s₁).1 = .error y := by
      refine flush_refused (hq.pristine hc) hcalm₁ rfl ?_
      rw [hq.commitTs]
      exact hy
    rcases hflush : flush H n.table (updateFlush p targets f) s₁ with ⟨r, s₂⟩
    rw [hflush] at herr
    cases herr
    rw [Proc.bind_of_error hflush]

/-- **UPDATE equals its reference.**  On a table with a primary key whose committed rows satisfy
the declared constraints, an autocommit UPDATE that returns counts the matched rows and leaves the
unmatched rows and the matched ones after SET, in one commit when there are any; and once WHERE and
SET are evaluated and no NOT NULL column became NULL, it raises a uniqueness error exactly when two
of those rows agree in a declared key without NULL.  The rows are those that `_scan` shows, before and
after; the engine is plain, and so is what the statement writes or checks. -/
theorem update_reference (hk : H.Keeps) (M : Merger V) (hs : Sound s.eng)
    (ha : s.faults.writesBack = false) (hnow : s.eng.commitTs < insInf) (hkeyed : ∀ t, Keyed s.eng t)
    (hx : s.txn = none) (hplain : s.eng.Plain M)
    (hi : s.eng.catalog.tables.get? n.table = some i) (hp : i.constraints.primaryKey = some p)
    {rows : List (Row V)} (hrows : s.eng.shows M n.table = .ok rows) (hobeys : Obeys i rows) :
    (∀ k s', update H n s = (.ok k, s') → s'.eng.Plain M →
      k = (rows.filter n.holds).length ∧ s'.txn = none ∧
        s'.eng.shows M n.table = .ok (n.reference rows) ∧
        (k = 0 → Quiet s s') ∧ (k ≠ 0 → ∃ bs, Committed bs s.eng s'.eng) ∧
        KeysDistinct i (n.reference rows)) ∧
    (∀ f, s.faults.cancelAfter = none → KeysKnown i → Accepted H s i n f → M.Keeps n.table f →
      ((∃ y, (update H n s).1 = .error y ∧ IsUniqueViolation y) ↔
        ¬ KeysDistinct i (n.reference rows))) := by
  have hne : p ≠ [] := by
    rintro rfl
    exact hkeyed n.table i hi hp
  rw [shows_eq hs.ok hplain, visible_seen hs.ok hi] at hrows
  cases hrows
  refine ⟨fun k s' h hplain' => ?_, fun f hcalm hknown hacc _ =>
    update_violation hk hs ha hnow hx hcalm hi hp hknown hobeys hacc⟩
  obtain ⟨hlen, hdone, href, hzero, hone, hdist⟩ := update_ok hk hs ha hnow hi hp hne hobeys h
  have heff := update_effect H ⟨hs.ok.coherent, ha⟩ n rfl
  rw [h] at heff
  have hs' := effect_sound heff hs ha (by rw [hx]; intro y hy; cases hy) fun t _ => hkeyed t
  have hi' : s'.eng.catalog.tables.get? n.table = some i := by
    rw [World.effect_catalog heff]
    exact hi
  refine ⟨hlen, hdone, ?_, hzero, hone, hdist⟩
  rw [shows_eq hs'.1.ok hplain', visible_seen hs'.1.ok hi']
  exact congrArg Except.ok href

end Statement

/-! ## 4. Keys that move -/

/-- The table `t` with the keys 1 and 2. -/
@[irreducible] def twoKeys : World Nat := Run.run (World.step natHost) started
  [.sql 0 (insertKey "t" 1) {}, .sql 0 (insertKey "t" 2) {}]

/-- `UPDATE t SET k = value`. -/
def setKey (value : Cell Nat → Cell Nat) : UpdateNode Nat :=
  ⟨"t", [("k", ⟨fun _ => .ok (), fun r => value (r "k")⟩)], none⟩

/-- `UPDATE t SET k = 3 - k` exchanges the keys. -/
def swapKeys : UpdateNode Nat := setKey (Option.map (3 - ·))

/-- `UPDATE t SET k = NULL`. -/
def nullKeys : UpdateNode Nat := setKey fun _ => none

theorem twoKeys_settled : World.Settled twoKeys := by
  unfold twoKeys
  exact World.settled_run started_settled (by simp [World.Live, Step.LeavesCache])

theorem twoKeys_plain : twoKeys.eng.Plain natMerger := by
  unfold twoKeys
  refine (started_plain ?_).eng
  simp [World.Live, Step.LeavesCache]

set_option maxRecDepth 10000 in
theorem twoKeys_table {i : TableInfo Nat} (hi : twoKeys.eng.catalog.tables.get? "t" = some i) :
    i.constraints.primaryKey = some ["k"] ∧ i.constraints.unique = [] ∧ i.columns = ["k"] := by
  have hent : (twoKeys.eng.catalog.tables.get? "t").map (fun i =>
      (i.constraints.primaryKey, i.constraints.unique, i.columns)) =
        some (some ["k"], [], ["k"]) := by with_unfolding_all decide
  rw [hi] at hent
  obtain ⟨hp, hrest⟩ := Prod.mk.inj (Option.some.inj hent)
  exact ⟨hp, Prod.mk.inj hrest⟩

set_option maxRecDepth 10000 in
/-- The table, its rows, and that they obey the constraints. -/
theorem twoKeys_rows : ∃ i rows, twoKeys.eng.catalog.tables.get? "t" = some i ∧
    visible twoKeys.eng "t" = .ok rows ∧ rows.map (keyOf ["k"]) = [[some 1], [some 2]] ∧
      Obeys i rows := by
  have hsome : (twoKeys.eng.catalog.tables.get? "t").isSome = true := by with_unfolding_all decide
  obtain ⟨i, hi⟩ := Option.isSome_iff_exists.mp hsome
  have hkeys : (visible twoKeys.eng "t").map (List.map (keyOf ["k"])) =
      .ok [[some 1], [some 2]] := by with_unfolding_all decide
  obtain ⟨hp, hu, -⟩ := twoKeys_table hi
  cases hv : visible twoKeys.eng "t" with
  | error y =>
    rw [hv] at hkeys
    cases hkeys
  | ok rows =>
    rw [hv] at hkeys
    have hlist : rows.map (keyOf ["k"]) = [[some 1], [some 2]] := Except.ok.inj hkeys
    refine ⟨i, rows, hi, rfl, hlist, ?_, ?_⟩
    · intro q hq r hr
      rw [hp] at hq
      cases hq
      have hmem := List.mem_map_of_mem (f := keyOf ["k"]) hr
      rw [hlist] at hmem
      have hall : ∀ k ∈ ([[some 1], [some 2]] : List (Key Nat)), Key.nonNull k = true := by decide
      exact hall _ hmem
    · intro key hkey _
      rw [declaredKeys, hp, hu, Option.toList_some, List.append_nil, List.mem_singleton] at hkey
      rw [hkey, Distinct, hlist]
      decide

/-- The reference of `UPDATE t SET k = value` has the values of the keys. -/
theorem setKey_reference (value : Cell Nat → Cell Nat) (rows : List (Row Nat)) :
    ((setKey value).reference rows).map (keyOf ["k"]) =
      rows.map fun r => [value (r "k")] := by
  have hall : ∀ r : Row Nat, (setKey value).holds r = true := fun _ => rfl
  rw [UpdateNode.reference, List.filter_eq_nil_iff.mpr (fun r _ => by simp [hall]),
    List.filter_eq_self.mpr (fun r _ => hall r), List.nil_append, List.map_map]
  rfl

set_option maxRecDepth 10000 in
/-- `UPDATE t SET k = 7` comes to the uniqueness check. -/
theorem sameKeys_accepted {i : TableInfo Nat} (hi : twoKeys.eng.catalog.tables.get? "t" = some i) :
    ∃ f, Accepted natHost (twoKeys.session 0 {}) i (setKey fun _ => some 7) f := by
  have hrun : ((do
      let i ← twoKeys.eng.catalog.get "t"
      checkAssignments i (setKey fun _ => some 7)
      let targets ← targetsPure twoKeys.eng none "t" none
      let f ← updatedFrame natHost i (setKey fun _ => some 7) targets
      if targets.rows.isEmpty then .error .cancelledByUser else .ok f :
        Except DbError (Frame Nat))).toBool = true := by with_unfolding_all decide
  obtain ⟨f, hf⟩ := exists_of_toBool hrun
  obtain ⟨j, hj, hrest⟩ := bind_eq_ok.mp hf
  rw [get_eq_ok.mpr hi] at hj
  cases hj
  obtain ⟨_, hcheck, hrest⟩ := bind_eq_ok.mp hrest
  obtain ⟨targets, ht, hrest⟩ := bind_eq_ok.mp hrest
  obtain ⟨g, hg, hrest⟩ := bind_eq_ok.mp hrest
  split at hrest
  · cases hrest
  · rename_i hfull
    exact ⟨g, hcheck, targets, ht, Bool.eq_false_iff.mpr hfull, hg⟩

set_option maxRecDepth 10000 in
/-- **A key that becomes NULL violates the primary key, and the error is no uniqueness error.** -/
theorem null_key_not_unique_error :
    (update natHost nullKeys (twoKeys.session 0 {})).1 =
        .error (.runtime "NOT NULL violation: t.k") ∧
      ¬ IsUniqueViolation (.runtime "NOT NULL violation: t.k") ∧
      ∃ i rows, twoKeys.eng.catalog.tables.get? "t" = some i ∧
        visible twoKeys.eng "t" = .ok rows ∧ Obeys i rows ∧ ¬ Obeys i (nullKeys.reference rows) := by
  refine ⟨by with_unfolding_all decide, ?_, ?_⟩
  · rintro ⟨msg, hmsg⟩
    have hchar := congrArg (fun x => x.toList.head?) (DbError.runtime.inj hmsg)
    rw [String.toList_append] at hchar
    exact absurd hchar (by simp)
  · obtain ⟨i, rows, hi, hv, hkeys, hobeys⟩ := twoKeys_rows
    refine ⟨i, rows, hi, hv, hobeys, fun h => ?_⟩
    have href : (nullKeys.reference rows).map (keyOf ["k"]) = [[none], [none]] := by
      have hlen : rows.length = 2 := by
        have := congrArg List.length hkeys
        simpa using this
      rw [nullKeys, setKey_reference]
      match rows, hlen with
      | [_, _], _ => rfl
    have hmem : ([none] : Key Nat) ∈ (nullKeys.reference rows).map (keyOf ["k"]) := by
      rw [href]
      exact List.mem_cons_self
    obtain ⟨r, hr, hrk⟩ := List.mem_map.mp hmem
    have hnn := h.primary ["k"] (twoKeys_table hi).1 r hr
    rw [hrk] at hnn
    cases hnn

set_option maxRecDepth 10000 in
/-- Exchanging the keys of two rows is an UPDATE that succeeds; giving both one key is one that
raises a uniqueness error. -/
theorem update_reference_twoKeys :
    (∃ rows s', twoKeys.eng.shows natMerger "t" = .ok rows ∧
      update natHost swapKeys (twoKeys.session 0 {}) = (.ok 2, s') ∧
        s'.eng.shows natMerger "t" = .ok (swapKeys.reference rows)) ∧
    ∃ y, (update natHost (setKey fun _ => some 7) (twoKeys.session 0 {})).1 = .error y ∧
      IsUniqueViolation y := by
  obtain ⟨i, rows, hi, hv, hkeys, hobeys⟩ := twoKeys_rows
  have hkeep : natHost.Keeps := fun ty col v c h => (Except.ok.inj h).symm
  have hsettled := twoKeys_settled
  have hnow : twoKeys.eng.commitTs < insInf := by with_unfolding_all decide
  have hidle : (twoKeys.session 0 {}).txn = none := by with_unfolding_all decide
  obtain ⟨hp, hu, hcols⟩ := twoKeys_table hi
  have hshows : twoKeys.eng.shows natMerger "t" = .ok rows := by
    rw [shows_eq hsettled.eng.ok twoKeys_plain]
    exact hv
  have href := fun n : UpdateNode Nat => fun hn : n.table = "t" =>
    update_reference (H := natHost) (s := twoKeys.session 0 {}) (n := n) hkeep natMerger hsettled.eng rfl
      hnow hsettled.keyed hidle twoKeys_plain (by rw [hn]; exact hi) hp (by rw [hn]; exact hshows) hobeys
  refine ⟨⟨rows, ?_⟩, ?_⟩
  · have hok : (update natHost swapKeys (twoKeys.session 0 {})).1 = .ok 2 := by with_unfolding_all decide
    rcases hrun : update natHost swapKeys (twoKeys.session 0 {}) with ⟨r, s'⟩
    rw [hrun] at hok
    cases hok
    have hplain' : s'.eng.Plain natMerger := by
      refine plain_natMerger ?_
      have hs' : s' = (update natHost swapKeys (twoKeys.session 0 {})).2 := by rw [hrun]
      rw [hs']
      with_unfolding_all decide
    exact ⟨s', hshows, rfl, ((href swapKeys rfl).1 2 s' hrun hplain').2.2.1⟩
  · obtain ⟨f, hacc⟩ := sameKeys_accepted hi
    refine ((href (setKey fun _ => some 7) rfl).2 f rfl ?_ hacc (natMerger_keeps _ f)).mpr
      fun hdist => ?_
    · intro key hkey
      rw [declaredKeys, hp, hu, Option.toList_some, List.append_nil, List.mem_singleton] at hkey
      rw [hkey, hcols]
      decide
    · have hkey : ["k"] ∈ declaredKeys i.constraints := by
        rw [declaredKeys, hp]
        exact List.mem_append_left _ (List.mem_singleton_self _)
      have hd := hdist ["k"] hkey (by decide)
      have hlen : rows.length = 2 := by
        have := congrArg List.length hkeys
        simpa using this
      rw [Distinct, setKey_reference] at hd
      obtain ⟨r, r', rfl⟩ := List.length_eq_two.mp hlen
      exact absurd hd (by simp [Key.nonNull])

end Engine

end RyuDB
