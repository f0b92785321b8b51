/-
# The saved catalog and the catalog in memory

`_save` writes the constraints of every table and `_load` reads them back.  Two things are lost on
the way: the order of the NOT NULL set, which no one may rely on, and an empty primary key, which
is written as null.  The engine asks `primary_key is None`, so the second matters.

* `CatalogAlike` is what the first allows: the same tables with the same names, paths, schemas and
  constraints, NOT NULL read as a set.  Statements and checkpoints run in lockstep on two engines
  that differ in this only (`sql_alike`, `checkpoint_alike`); they return the same and leave the
  same behind, and the one thing that may differ is which NOT NULL column an exception names first.
* `catalog_faithful` is about every catalog that registering, dropping, renaming and altering can
  lead to: reloading it gives an alike catalog, on which everything runs in lockstep, if and only
  if no table has an empty primary key.

The lockstep is proved function by function, in the order of the source: what a statement computes
from a catalog entry is the same for alike entries (section 3), then each procedure, then `sql` and
`checkpoint`.  One relation serves for all of them, `Alike`: from alike sessions both sides return, or
both raise, and the sessions are alike afterwards.
-/
import RyuDB.Lib.Lockstep
import RyuDB.Checkpoint
import RyuDB.Admin
import RyuDB.Reload
import RyuDB.NatHost

namespace RyuDB

variable {V : Type}

/-! ## 1. Alike catalogs -/

/-- The same constraints, NOT NULL read as a set. -/
structure TableConstraints.Alike (k k' : TableConstraints V) : Prop where
  notNull : ∀ c, c ∈ k'.notNull ↔ c ∈ k.notNull
  primaryKey : k'.primaryKey = k.primaryKey
  unique : k'.unique = k.unique
  defaults : k'.defaults = k.defaults

/-- The same entry but for the order of NOT NULL. -/
def TableInfo.Alike (i i' : TableInfo V) : Prop :=
  ∃ k, i.constraints.Alike k ∧ i' = { i with constraints := k }

/-- The same tables in the same order, with alike entries. -/
structure CatalogAlike (c c' : Catalog V) : Prop where
  dataDir : c'.dataDir = c.dataDir
  tables : List.Forall₂ (fun e e' => e.1 = e'.1 ∧ TableInfo.Alike e.2 e'.2)
    c.tables.entries c'.tables.entries

theorem TableConstraints.Alike.refl (k : TableConstraints V) : k.Alike k :=
  ⟨fun _ => Iff.rfl, rfl, rfl, rfl⟩

theorem TableInfo.Alike.refl (i : TableInfo V) : TableInfo.Alike i i := ⟨_, .refl _, rfl⟩

theorem CatalogAlike.refl (c : Catalog V) : CatalogAlike c c :=
  ⟨rfl, List.forall₂_same.mpr fun e _ => ⟨rfl, .refl e.2⟩⟩

/-- The entries of alike catalogs. -/
theorem CatalogAlike.find {l l' : List (String × TableInfo V)}
    (h : List.Forall₂ (fun e e' => e.1 = e'.1 ∧ TableInfo.Alike e.2 e'.2) l l') (t : String) :
    Option.Rel TableInfo.Alike (Dict.find t l) (Dict.find t l') := by
  induction h with
  | nil => exact .none
  | @cons e e' l l' he hl ih =>
    obtain ⟨t₁, i⟩ := e
    obtain ⟨t₂, i'⟩ := e'
    obtain ⟨rfl, hi⟩ := he
    simp only [Dict.find]
    split
    · exact .some hi
    · exact ih

theorem CatalogAlike.keys {c c' : Catalog V} (h : CatalogAlike c c') :
    c'.tables.keys = c.tables.keys := by
  have hfst := h.tables
  rw [Dict.keys, Dict.keys]
  generalize c.tables.entries = l, c'.tables.entries = l' at hfst
  induction hfst with
  | nil => rfl
  | cons he _ ih => rw [List.map_cons, List.map_cons, ih, he.1]

/-- What `get` gives on alike catalogs. -/
theorem CatalogAlike.get {c c' : Catalog V} (h : CatalogAlike c c') (t : String) :
    Proc.Agree Eq TableInfo.Alike (c.get t) (c'.get t) := by
  have hfind := CatalogAlike.find h.tables t
  unfold Catalog.get Dict.get?
  generalize Dict.find t c.tables.entries = o, Dict.find t c'.tables.entries = o' at hfind
  cases hfind with
  | none =>
    have hkeys := h.keys
    simp only [Proc.Agree, hkeys]
  | some hi => exact hi

/-- Lists with the same members are sorted into one list. -/
theorem sortedSet_congr {l l' : List String} (h : ∀ c, c ∈ l' ↔ c ∈ l) :
    sortedSet l' = sortedSet l := by
  have hperm : (sortedSet l').Perm (sortedSet l) :=
    (List.perm_ext_iff_of_nodup (nodup_sortedSet l') (nodup_sortedSet l)).mpr fun c => by
      rw [mem_sortedSet, mem_sortedSet, h c]
  exact hperm.eq_of_pairwise' (List.pairwise_insertionSort _ _) (List.pairwise_insertionSort _ _)

/-- Alike catalogs are saved as one file. -/
theorem CatalogAlike.saved {c c' : Catalog V} (h : CatalogAlike c c') : c'.saved = c.saved := by
  have htables := h.tables
  rw [Catalog.saved, Catalog.saved]
  generalize c.tables.entries = l, c'.tables.entries = l' at htables
  induction htables with
  | nil => rfl
  | @cons e e' _ _ he _ ih =>
    obtain ⟨t, i⟩ := e
    obtain ⟨t', i'⟩ := e'
    obtain ⟨rfl, k, hk, rfl⟩ := he
    have hdict : k.toDict = i.constraints.toDict := by
      rw [TableConstraints.toDict, TableConstraints.toDict, sortedSet_congr hk.notNull,
        hk.primaryKey, hk.unique, hk.defaults]
    simp only [List.map_cons, ih, hdict]

theorem CatalogAlike.save {c c' : Catalog V} (h : CatalogAlike c c') (d : Disk V) :
    c'.save d = c.save d := by
  rw [Catalog.save, Catalog.save, h.dataDir, h.saved]

/-! ## 2. Exceptions that may differ -/

/-- The exception of a NOT NULL check on table `t` of rows that have all columns or not. -/
def NotNullError (t : String) (e : DbError) : Prop :=
  ∃ c, e = .key (pyRepr c) ∨ e = .runtime ("NOT NULL violation: " ++ t ++ "." ++ c)

/-- The same exception, or two of one NOT NULL check that name different columns. -/
def ErrAlike (e e' : DbError) : Prop := e = e' ∨ ∃ t, NotNullError t e ∧ NotNullError t e'

theorem ErrAlike.refl (e : DbError) : ErrAlike e e := .inl rfl

/-- Equal computations agree. -/
theorem agree_of_eq {α : Type} {x y : Except DbError α} (h : x = y) : Proc.Agree ErrAlike Eq x y :=
  .of_eq ErrAlike.refl h

/-- The session on another catalog. -/
def Session.recat (s : Session V) (c : Catalog V) : Session V :=
  { s with eng := { s.eng with catalog := c } }

section Recat

variable (s : Session V) (c : Catalog V)

@[simp] theorem Session.recat_txn : (s.recat c).txn = s.txn := rfl
@[simp] theorem Session.recat_catalog : (s.recat c).eng.catalog = c := rfl
@[simp] theorem Session.recat_scanCache : (s.recat c).eng.scanCache = s.eng.scanCache := rfl
@[simp] theorem Session.recat_delta : (s.recat c).eng.delta = s.eng.delta := rfl
@[simp] theorem Session.recat_commitTs : (s.recat c).eng.commitTs = s.eng.commitTs := rfl
@[simp] theorem Session.recat_snapshots : (s.recat c).eng.snapshots = s.eng.snapshots := rfl
@[simp] theorem Session.recat_disk : (s.recat c).eng.disk = s.eng.disk := rfl

end Recat

namespace Engine

open Proc (Agree Lockstep)

variable (H : Host V)

/-- One turn of the loop of `checkNotNull`. -/
def checkColumn (t : String) (f : Frame V) (c : String) : Except DbError Unit :=
  if c ∉ f.columns then .error (.key (pyRepr c))
  else if f.rows.any fun r => (r c).isNone then
    .error (.runtime ("NOT NULL violation: " ++ t ++ "." ++ c))
  else .ok ()

/-- The loop passes when every column does, and raises a NOT NULL exception otherwise. -/
theorem checkColumns_cases (t : String) (f : Frame V) : ∀ l : List String,
    (l.forM (checkColumn t f) = .ok () ∧ ∀ c ∈ l, checkColumn t f c = .ok ()) ∨
      ∃ e, l.forM (checkColumn t f) = .error e ∧ NotNullError t e ∧
        ∃ c ∈ l, checkColumn t f c ≠ .ok ()
  | [] => .inl ⟨rfl, nofun⟩
  | c :: l => by
    rw [List.forM_eq_forM, List.forM_cons]
    cases hc : checkColumn t f c with
    | error e =>
      refine .inr ⟨e, rfl, ⟨c, ?_⟩, c, List.mem_cons_self, by rw [hc]; exact nofun⟩
      unfold checkColumn at hc
      split at hc
      · cases hc
        exact .inl rfl
      · split at hc
        · cases hc
          exact .inr rfl
        · cases hc
    | ok u =>
      rcases checkColumns_cases t f l with ⟨hl, hall⟩ | ⟨e, hl, he, d, hd, hbad⟩
      · refine .inl ⟨hl, fun d hd => ?_⟩
        rcases List.mem_cons.mp hd with rfl | hd
        · exact hc
        · exact hall d hd
      · exact .inr ⟨e, hl, he, d, List.mem_cons_of_mem c hd, hbad⟩

variable {i i' : TableInfo V} (hi : TableInfo.Alike i i')

include hi

theorem checkNotNull_alike (t : String) (f : Frame V) :
    Agree ErrAlike Eq (checkNotNull H i t f) (checkNotNull H i' t f) := by
  obtain ⟨k, hk, rfl⟩ := hi
  have hmem : ∀ c, c ∈ H.setOrder k.notNull ↔ c ∈ H.setOrder i.constraints.notNull := fun c => by
    rw [H.mem_setOrder, H.mem_setOrder, hk.notNull]
  have hl : checkNotNull H i t f = (H.setOrder i.constraints.notNull).forM (checkColumn t f) := rfl
  have hr : checkNotNull H { i with constraints := k } t f =
    (H.setOrder k.notNull).forM (checkColumn t f) := rfl
  rw [hl, hr]
  rcases checkColumns_cases t f (H.setOrder i.constraints.notNull) with
    ⟨hrun, hall⟩ | ⟨e, hrun, he, c, hc, hbad⟩ <;>
  rcases checkColumns_cases t f (H.setOrder k.notNull) with
    ⟨hrun', hall'⟩ | ⟨e', hrun', he', c', hc', hbad'⟩
  · rw [hrun, hrun']
    rfl
  · exact absurd (hall c' ((hmem c').mp hc')) hbad'
  · exact absurd (hall' c ((hmem c).mpr hc)) hbad
  · rw [hrun, hrun']
    exact .inr ⟨t, he, he'⟩

/-! ## 3. What a statement computes from an entry -/

theorem defaultCell_alike (c : String) : defaultCell i' c = defaultCell i c := by
  obtain ⟨k, hk, rfl⟩ := hi
  rw [defaultCell, defaultCell, hk.defaults]

theorem notNull_alike (c : String) :
    decide (c ∈ i'.constraints.notNull) = decide (c ∈ i.constraints.notNull) := by
  obtain ⟨k, hk, rfl⟩ := hi
  exact decide_eq_decide.mpr (hk.notNull c)

theorem primaryKey_alike : i'.constraints.primaryKey = i.constraints.primaryKey := by
  obtain ⟨k, hk, rfl⟩ := hi
  exact hk.primaryKey

theorem declaredKeys_alike : declaredKeys i'.constraints = declaredKeys i.constraints := by
  obtain ⟨k, hk, rfl⟩ := hi
  rw [declaredKeys, declaredKeys, hk.primaryKey, hk.unique]

theorem resolveCells_alike (t : String) (n : Nat)
    (provided : String → Option (Except DbError (Cell V))) : ∀ cs : List String,
    resolveCells i' t n provided cs = resolveCells i t n provided cs
  | [] => rfl
  | c :: cs => by
    simp only [resolveCells, resolveCells_alike t n provided cs, defaultCell_alike hi c,
      notNull_alike hi c]

theorem columns_alike : i'.columns = i.columns := by
  obtain ⟨k, -, rfl⟩ := hi
  rfl

theorem typeOf_alike : i'.typeOf = i.typeOf := by
  obtain ⟨k, -, rfl⟩ := hi
  rfl

theorem paths_alike : i'.paths = i.paths := by
  obtain ⟨k, -, rfl⟩ := hi
  rfl

theorem resolveRows_alike {α : Type} (t : String)
    (provided : α → String → Option (Except DbError (Cell V))) : ∀ (n : Nat) (l : List α),
    resolveRows i' t provided n l = resolveRows i t provided n l
  | _, [] => rfl
  | n, a :: l => by
    simp only [resolveRows, resolveCells_alike hi, resolveRows_alike t provided (n + 1) l,
      columns_alike hi]

theorem targetColumns_alike (t statement : String) (columns : Option (List String)) :
    targetColumns i' t statement columns = targetColumns i t statement columns := by
  simp only [targetColumns, columns_alike hi]

theorem coerceColumn_alike (c : String) (rows : List (Row V)) :
    coerceColumn H i' c rows = coerceColumn H i c rows := by
  simp only [coerceColumn, typeOf_alike hi]

theorem typedRows_alike (rows : List (Row V)) : typedRows H i' rows = typedRows H i rows := by
  simp only [typedRows, typeOf_alike hi, columns_alike hi]

theorem valuesFrame_alike (n : InsertNode V) : valuesFrame H i' n = valuesFrame H i n := by
  simp only [valuesFrame, targetColumns_alike hi, resolveRows_alike hi, columns_alike hi,
    coerceColumn_alike H hi, typedRows_alike H hi]

theorem selectFrame_alike (t : String) (cols : List String) (src : Frame V) :
    selectFrame H i' t cols src = selectFrame H i t cols src := by
  simp only [selectFrame, defaultCell_alike hi, columns_alike hi, coerceColumn_alike H hi,
    typedRows_alike H hi, notNull_alike hi, typeOf_alike hi]

theorem setColumns_alike {α : Type} (items : List α) :
    ∀ (as : List (String × Except DbError (α → Cell V))) (new : α → Row V),
      setColumns H i' items as new = setColumns H i items as new
  | [], _ => rfl
  | (col, e) :: as, new => by
    simp only [setColumns, typeOf_alike hi, setColumns_alike items as]

theorem requirePk_alike (message : String) : requirePk i' message = requirePk i message := by
  rw [requirePk, requirePk, primaryKey_alike hi]

theorem checkAssignments_alike (n : UpdateNode V) :
    checkAssignments i' n = checkAssignments i n := by
  simp only [checkAssignments, columns_alike hi]

theorem updatedFrame_alike (n : UpdateNode V) (targets : Frame V) :
    Agree ErrAlike Eq (updatedFrame H i n targets) (updatedFrame H i' n targets) := by
  unfold updatedFrame
  refine (agree_of_eq (setColumns_alike H hi _ _ _).symm).bind ?_
  rintro new _ rfl
  refine (checkNotNull_alike H hi _ _).bind ?_
  rintro _ _ -
  rfl

theorem mergedFrame_alike (t : String) (as : List (String × JExpr V (Cell V))) (m : Joined V) :
    Agree ErrAlike Eq (mergedFrame H i t as m) (mergedFrame H i' t as m) := by
  unfold mergedFrame
  simp only [columns_alike hi]
  refine (agree_of_eq (setColumns_alike H hi _ _ _).symm).bind ?_
  rintro new _ rfl
  refine (checkNotNull_alike H hi _ _).bind ?_
  rintro _ _ -
  rfl

section Merges
variable [DecidableEq V]

omit [DecidableEq V] in
theorem matchedFlush_alike (n : MergeNode V) (pk : List String) (tgt : Frame V)
    (arm : MatchedArm V) (m : Joined V) :
    Agree ErrAlike Eq (matchedFlush H i n pk tgt arm m) (matchedFlush H i' n pk tgt arm m) := by
  unfold matchedFlush
  refine (agree_of_eq rfl).bind ?_
  rintro m' _ rfl
  split
  · rfl
  · refine (agree_of_eq rfl).bind ?_
    rintro targets _ rfl
    cases arm.action with
    | delete => rfl
    | update as =>
      simp only [columns_alike hi]
      refine (agree_of_eq rfl).bind ?_
      rintro _ _ -
      refine (mergedFrame_alike H hi _ _ _).bind ?_
      rintro new _ rfl
      rfl

theorem matchedPart_alike (n : MergeNode V) (tgt : Frame V) (m : Joined V) :
    Agree ErrAlike Eq (matchedPart H i n tgt m) (matchedPart H i' n tgt m) := by
  unfold matchedPart
  simp only [primaryKey_alike hi]
  cases n.matchedArm with
  | none => rfl
  | some arm =>
    dsimp only
    split_ifs
    · rfl
    · exact ErrAlike.refl _
    · exact matchedFlush_alike H hi n _ tgt arm m

theorem notMatchedPart_alike (n : MergeNode V) (src : Frame V) (m : Joined V) :
    notMatchedPart H i' n src m = notMatchedPart H i n src m := by
  simp only [notMatchedPart, notMatchedNew, targetColumns_alike hi, resolveRows_alike hi,
    columns_alike hi, coerceColumn_alike H hi, typedRows_alike H hi]

theorem mergeFlush_alike (n : MergeNode V) (tgt src : Frame V) :
    Agree ErrAlike Eq (mergeFlush H i n tgt src) (mergeFlush H i' n tgt src) := by
  unfold mergeFlush
  simp only [notMatchedPart_alike H hi, combinedNew, columns_alike hi]
  refine (agree_of_eq rfl).bind ?_
  rintro m _ rfl
  refine (agree_of_eq rfl).bind ?_
  rintro m _ rfl
  refine (matchedPart_alike H hi n tgt m).bind ?_
  rintro a _ rfl
  exact agree_of_eq rfl

end Merges

theorem mergeKey_alike (n : MergeNode V) : mergeKey i' n = mergeKey i n := by
  simp only [mergeKey, requirePk_alike hi]

omit hi

/-! ## 4. Statements in lockstep -/

/-- Two sessions that differ in the order of NOT NULL sets only. -/
def SessionAlike (s s' : Session V) : Prop :=
  ∃ c, CatalogAlike s.eng.catalog c ∧ s' = s.recat c

/-- Two procedures that run in lockstep on alike sessions. -/
abbrev Alike {α β : Type} (P : α → β → Prop) (x : Op V α) (y : Op V β) : Prop :=
  Lockstep SessionAlike ErrAlike P x y

/-- A procedure that never looks at the catalog. -/
theorem alike_of_blind {α : Type} {x : Op V α}
    (h : ∀ s c, x (s.recat c) = ((x s).1, (x s).2.recat c))
    (hcat : ∀ s, (x s).2.eng.catalog = s.eng.catalog) : Alike Eq x x := by
  rintro s _ ⟨c, hc, rfl⟩
  rw [h]
  exact ⟨.refl ErrAlike.refl (fun _ => rfl) _, c, by rw [hcat]; exact hc, rfl⟩

/-- Reading the session: the rest sees two alike sessions. -/
theorem get_alike {α β : Type} {P : α → β → Prop} {f : Session V → Op V α} {g : Session V → Op V β}
    (h : ∀ s c, CatalogAlike s.eng.catalog c → Alike P (f s) (g (s.recat c))) :
    Alike P (Proc.get >>= f) (Proc.get >>= g) := by
  refine Lockstep.get.bind ?_
  rintro s _ ⟨c, hc, rfl⟩
  exact h s c hc

/-- A change of the session that leaves the catalog alone. -/
theorem modify_alike {f : Session V → Session V} (h : ∀ s c, f (s.recat c) = (f s).recat c)
    (hcat : ∀ s, (f s).eng.catalog = s.eng.catalog) :
    Alike Eq (Proc.modify f : Op V Unit) (Proc.modify f) := by
  refine Lockstep.modify ?_
  rintro s _ ⟨c, hc, rfl⟩
  exact ⟨c, by rw [hcat]; exact hc, h s c⟩

theorem lift_alike {α : Type} {x y : Except DbError α} (h : Agree ErrAlike Eq x y) :
    Alike Eq (Proc.lift x : Op V α) (Proc.lift y) := Lockstep.lift h

/-- The same pure computation on both sides. -/
theorem lift_same {α : Type} (x : Except DbError α) :
    Alike Eq (Proc.lift x : Op V α) (Proc.lift x) := lift_alike (agree_of_eq rfl)

theorem raise_alike {α β : Type} {P : α → β → Prop} (e : DbError) :
    Alike P (Proc.raise e : Op V α) (Proc.raise e : Op V β) := Lockstep.raise (.refl e)

theorem catalogGet_alike (t : String) : Alike TableInfo.Alike (catalogGet t : Op V _)
    (catalogGet t) := by
  exact get_alike fun s c hc => Lockstep.lift ((hc.get t).weaken fun _ _ => .inl)

theorem checkCancel_alike : Alike Eq (checkCancel : Op V Unit) checkCancel := by
  refine alike_of_blind (fun s c => ?_) fun s => ?_
  all_goals
    rcases s with ⟨e, x, ⟨a, b, d, g⟩⟩
    rcases a with _ | _ | n <;> rfl

theorem tagStep_alike (cols : List String) (e : Int × Frame V) :
    Alike Eq (tagStep cols e) (tagStep cols e) :=
  checkCancel_alike.bind fun _ _ _ => lift_same _

theorem scanBase_alike (t : String) (cols : Option (List String)) :
    Alike Eq (scanBase t cols : Op V (Frame V)) (scanBase t cols) := by
  refine get_alike fun s c _ => ?_
  simp only [Session.recat_scanCache, Session.recat_disk]
  cases s.eng.scanCache.get? (t, cols) with
  | some base => exact Lockstep.pure rfl
  | none =>
    refine (catalogGet_alike t).bind fun i i' hi => ?_
    rw [paths_alike hi]
    refine (lift_same _).bind ?_
    rintro base _ rfl
    refine Lockstep.bind (modify_alike ?_ ?_) fun _ _ _ => Lockstep.pure rfl
    · exact fun _ _ => rfl
    · exact fun _ => rfl

theorem onTxn_alike (f : Transaction V → Transaction V) : Alike Eq (onTxn f) (onTxn f) :=
  modify_alike (fun _ _ => rfl) fun _ => rfl

/-- The log is enabled on both sides or on none. -/
theorem writeCommit_alike (bs : List (Batch V)) :
    Alike Eq (writeCommit H bs) (writeCommit H bs) := by
  rintro s _ ⟨c, hc, rfl⟩
  have hwal : (s.recat c).eng.walEnabled = s.eng.walEnabled := by
    change c.dataDir.isSome = s.eng.catalog.dataDir.isSome
    rw [hc.dataDir]
  have hrun : writeCommit H bs (s.recat c) =
      ((writeCommit H bs s).1, (writeCommit H bs s).2.recat c) := by
    simp only [writeCommit, hwal]
    simp only [Session.recat]
    generalize Wal.writeCommit H s.eng.walEnabled s.eng.disk.wal s.faults.append
      (s.eng.commitTs + 1) bs = w
    rcases w with ⟨r | r, file⟩ <;> rfl
  have hcat : (writeCommit H bs s).2.eng.catalog = s.eng.catalog := by
    simp only [writeCommit]
    generalize Wal.writeCommit H s.eng.walEnabled s.eng.disk.wal s.faults.append
      (s.eng.commitTs + 1) bs = w
    rcases w with ⟨r | r, file⟩ <;> rfl
  rw [hrun]
  exact ⟨.refl ErrAlike.refl (fun _ => rfl) _, c, by rw [hcat]; exact hc, rfl⟩

variable [DecidableEq V]

theorem mergeDelta_alike (base : Frame V) (t : String) :
    Alike Eq (mergeDelta base t) (mergeDelta base t) := by
  refine get_alike fun s c hc => ?_
  have hpk : Agree Eq Eq (primaryKeyOf s.eng.catalog t) (primaryKeyOf c t) := by
    have hget := hc.get t
    unfold primaryKeyOf
    revert hget
    cases s.eng.catalog.get t <;> cases c.get t
    · exact id
    · exact id
    · exact id
    · exact fun hi => (primaryKey_alike hi).symm
  have hsame : primaryKeyOf c t = primaryKeyOf s.eng.catalog t := by
    revert hpk
    cases primaryKeyOf s.eng.catalog t <;> cases primaryKeyOf c t
    · exact fun h => congrArg _ h.symm
    · exact False.elim
    · exact False.elim
    · exact fun h => congrArg _ h.symm
  change Alike Eq (if (insertEntries s t).isEmpty && (tombEntries s t).isEmpty then _ else _)
    (if (insertEntries s t).isEmpty && (tombEntries s t).isEmpty then _ else _)
  split
  · exact Lockstep.pure rfl
  · refine (Lockstep.collect fun e _ => tagStep_alike base.columns e).bind ?_
    rintro parts _ rfl
    change Alike Eq (Proc.lift (applyTombs (primaryKeyOf s.eng.catalog t) base.columns
      (tombEntries s t) _) >>= _) (Proc.lift (applyTombs (primaryKeyOf c t) base.columns
      (tombEntries s t) _) >>= _)
    rw [hsame]
    refine (lift_same _).bind ?_
    rintro kept _ rfl
    exact Lockstep.pure rfl

theorem scan_alike (t : String) (columns : Option (List String)) :
    Alike Eq (scan t columns : Op V (Frame V)) (scan t columns) := by
  refine (scanBase_alike t _).bind ?_
  rintro base _ rfl
  refine get_alike fun s c _ => ?_
  change Alike Eq (if hasPending s t then (if hasTomb s t then _ else _) else _)
    (if hasPending s t then (if hasTomb s t then _ else _) else _)
  split
  · split
    · refine (catalogGet_alike t).bind fun i i' hi => ?_
      change Alike Eq (Proc.lift (s.eng.disk.parquet.scan i.paths none) >>= _)
        (Proc.lift (s.eng.disk.parquet.scan i'.paths none) >>= _)
      rw [paths_alike hi]
      refine (lift_same _).bind ?_
      rintro full _ rfl
      refine (mergeDelta_alike full t).bind ?_
      rintro merged _ rfl
      cases columns with
      | none => exact Lockstep.pure rfl
      | some cs => exact lift_same _
    · exact mergeDelta_alike base t
  · exact Lockstep.pure rfl

omit [DecidableEq V] in
theorem writeBack_alike (q : Query V) : Alike Eq (writeBack q) (writeBack q) := by
  refine modify_alike (fun s c => ?_) fun s => ?_
  all_goals
    rcases s with ⟨e, x, ⟨a, b, d, g⟩⟩
    cases g <;> rfl

theorem exec_alike (q : Query V) : Alike Eq (exec q) (exec q) := by
  refine checkCancel_alike.bind fun _ _ _ => ?_
  refine (Lockstep.collect fun r _ => scan_alike r.1 r.2).bind ?_
  rintro frames _ rfl
  exact (writeBack_alike q).bind fun _ _ _ => lift_same _

theorem enforceKey_alike (t : String) (f : Frame V) (key : List String) :
    Alike Eq (enforceKey t f key) (enforceKey t f key) := by
  refine (lift_same _).bind ?_
  rintro new _ rfl
  split
  · exact raise_alike _
  · refine (scan_alike t _).bind ?_
    rintro shown _ rfl
    refine (lift_same _).bind ?_
    rintro existing _ rfl
    split
    · exact Lockstep.pure rfl
    · split
      · exact raise_alike _
      · dsimp only
        split
        · exact raise_alike _
        · exact Lockstep.pure rfl

theorem enforceUnique_alike (t : String) (f : Frame V) :
    Alike Eq (enforceUnique t f) (enforceUnique t f) := by
  refine (catalogGet_alike t).bind fun i i' hi => ?_
  rw [declaredKeys_alike hi]
  exact Lockstep.each fun key _ => enforceKey_alike t f key

omit [DecidableEq V] in
theorem appendFrame_alike (t : String) (f : Frame V) :
    Alike Eq (appendFrame H t f) (appendFrame H t f) := by
  refine get_alike fun s c _ => ?_
  simp only [Session.recat_txn]
  cases s.txn with
  | some x => exact onTxn_alike _
  | none => exact (writeCommit_alike H _).bind fun _ _ _ => Lockstep.pure rfl

omit [DecidableEq V] in
theorem appendTombstone_alike (t : String) (g : Frame V) :
    Alike Eq (appendTombstone H t g) (appendTombstone H t g) := by
  refine get_alike fun s c _ => ?_
  simp only [Session.recat_txn]
  cases s.txn with
  | some x => exact onTxn_alike _
  | none => exact (writeCommit_alike H _).bind fun _ _ _ => Lockstep.pure rfl

theorem insert_alike (n : InsertNode V) : Alike Eq (insert H n) (insert H n) := by
  have hbatch : Alike Eq (insertBatch H n) (insertBatch H n) := by
    refine (catalogGet_alike n.table).bind fun i i' hi => ?_
    rw [valuesFrame_alike H hi]
    exact lift_same _
  refine hbatch.bind ?_
  rintro f _ rfl
  exact (enforceUnique_alike _ f).bind fun _ _ _ =>
    (appendFrame_alike H _ f).bind fun _ _ _ => Lockstep.pure rfl

theorem insertSource_alike (n : InsertSelectNode V) :
    Alike Eq (insertSource H n) (insertSource H n) := by
  refine (catalogGet_alike n.table).bind fun i i' hi => ?_
  rw [targetColumns_alike hi]
  refine (lift_same _).bind ?_
  rintro cols _ rfl
  refine (exec_alike n.source).bind ?_
  rintro src _ rfl
  rw [selectFrame_alike H hi]
  split
  · exact Lockstep.pure rfl
  · split
    · exact raise_alike _
    · refine (lift_same _).bind ?_
      rintro f _ rfl
      exact Lockstep.pure rfl

theorem insertSelect_alike (n : InsertSelectNode V) :
    Alike Eq (insertSelect H n) (insertSelect H n) := by
  refine (insertSource_alike H n).bind ?_
  rintro source _ rfl
  cases source with
  | none => exact Lockstep.pure rfl
  | some f =>
    exact (enforceUnique_alike _ f).bind fun _ _ _ =>
      (appendFrame_alike H _ f).bind fun _ _ _ => Lockstep.pure rfl

theorem targetsOf_alike (t : String) (p : Option (Pred V)) :
    Alike Eq (targetsOf t p) (targetsOf t p) := by
  refine (scan_alike t none).bind ?_
  rintro f _ rfl
  exact lift_same _

theorem delete_alike (n : DeleteNode V) : Alike Eq (delete H n) (delete H n) := by
  refine (catalogGet_alike n.table).bind fun i i' hi => ?_
  rw [requirePk_alike hi]
  refine (lift_same _).bind ?_
  rintro pk _ rfl
  refine (targetsOf_alike _ _).bind ?_
  rintro targets _ rfl
  split
  · exact Lockstep.pure rfl
  · refine (lift_same _).bind ?_
    rintro g _ rfl
    exact (appendTombstone_alike H _ g).bind fun _ _ _ => Lockstep.pure rfl

omit [DecidableEq V] in
theorem commit_alike : Alike Eq (commit H) (commit H) := by
  refine get_alike fun s c _ => ?_
  simp only [Session.recat_txn]
  cases s.txn with
  | none => exact raise_alike _
  | some x =>
    exact (writeCommit_alike H _).bind fun _ _ _ => modify_alike (fun _ _ => rfl) fun _ => rfl

/-- The implicit transaction, whose handler forgets it. -/
theorem flush_alike (t : String) (w : Flush V) : Alike Eq (flush H t w) (flush H t w) := by
  have htomb : ∀ (g : Option (Frame V)) (b : Bool),
      Alike Eq (bufferTombstone t g b) (bufferTombstone t g b) := by
    intro g b
    cases g with
    | none => exact Lockstep.pure rfl
    | some g => exact onTxn_alike _
  have hnew : Alike Eq (bufferNew t w.new) (bufferNew t w.new) := by
    cases w.new with
    | none => exact Lockstep.pure rfl
    | some f => exact (enforceUnique_alike t f).bind fun _ _ _ => onTxn_alike _
  refine Lockstep.bind (modify_alike ?_ ?_) fun _ _ _ => Lockstep.onError ?_ ?_
  · exact fun _ _ => rfl
  · exact fun _ => rfl
  · exact (htomb _ _).bind fun _ _ _ => (htomb _ _).bind fun _ _ _ =>
      hnew.bind fun _ _ _ => commit_alike H
  · rintro s _ ⟨c, hc, rfl⟩
    exact ⟨c, hc, rfl⟩

omit [DecidableEq V] in
theorem refuseInTxn_alike (statement : String) :
    Alike Eq (refuseInTxn statement : Op V Unit) (refuseInTxn statement) := by
  refine get_alike fun s c _ => ?_
  simp only [Session.recat_txn]
  cases s.txn with
  | none => exact Lockstep.pure rfl
  | some x => exact raise_alike _

theorem update_alike (n : UpdateNode V) : Alike Eq (update H n) (update H n) := by
  refine (catalogGet_alike n.table).bind fun i i' hi => ?_
  rw [requirePk_alike hi, checkAssignments_alike hi]
  refine (lift_same _).bind ?_
  rintro pk _ rfl
  refine (refuseInTxn_alike _).bind fun _ _ _ => (lift_same _).bind fun _ _ _ => ?_
  refine (targetsOf_alike _ _).bind ?_
  rintro targets _ rfl
  split
  · exact Lockstep.pure rfl
  · refine (lift_alike (updatedFrame_alike H hi n targets)).bind ?_
    rintro f _ rfl
    refine (lift_same _).bind ?_
    rintro g _ rfl
    exact (flush_alike H _ _).bind fun _ _ _ => Lockstep.pure rfl

theorem merge_alike (n : MergeNode V) : Alike Eq (merge H n) (merge H n) := by
  refine (catalogGet_alike n.table).bind fun i i' hi => ?_
  rw [mergeKey_alike hi]
  refine (lift_same _).bind fun _ _ _ => (refuseInTxn_alike _).bind fun _ _ _ => ?_
  refine (scan_alike _ _).bind ?_
  rintro tgt _ rfl
  refine (exec_alike _).bind ?_
  rintro src _ rfl
  refine (lift_alike (mergeFlush_alike H hi n tgt src)).bind ?_
  rintro w _ rfl
  split
  · exact Lockstep.pure rfl
  · exact (flush_alike H _ _).bind fun _ _ _ => Lockstep.pure rfl

omit [DecidableEq V] in
theorem walTruncate_alike (ts : Int) : Alike Eq (walTruncate ts : Op V Unit) (walTruncate ts) := by
  rintro ⟨e, x, n, p, b, g⟩ _ ⟨c, hc, rfl⟩
  have hwal : (Session.recat ⟨e, x, n, p, b, g⟩ c).eng.walEnabled = e.walEnabled := by
    change c.dataDir.isSome = e.catalog.dataDir.isSome
    rw [hc.dataDir]
  simp only [walTruncate, hwal]
  split
  · simp only [Session.recat]
    cases e.disk.wal with
    | none => exact ⟨rfl, c, hc, rfl⟩
    | some file =>
      cases b with
      | true => exact ⟨ErrAlike.refl _, c, hc, rfl⟩
      | false => exact ⟨rfl, c, hc, rfl⟩
  · exact ⟨rfl, c, hc, rfl⟩

omit [DecidableEq V] in
theorem restoreTo_alike (target : Int) :
    Alike Eq (restoreTo target : Op V Unit) (restoreTo target) := by
  refine get_alike fun s c _ => ?_
  simp only [Session.recat_txn]
  cases s.txn with
  | some x => exact raise_alike _
  | none =>
    dsimp only
    by_cases htarget : target > s.eng.commitTs
    · have hcommit : target > (s.recat c).eng.commitTs := htarget
      rw [if_pos htarget, if_pos hcommit]
      exact raise_alike _
    · have hcommit : ¬ target > (s.recat c).eng.commitTs := htarget
      rw [if_neg htarget, if_neg hcommit]
      refine Lockstep.bind (modify_alike ?_ ?_) fun _ _ _ =>
        (walTruncate_alike target).bind fun _ _ _ => modify_alike ?_ ?_
      · exact fun _ _ => rfl
      · exact fun _ => rfl
      · exact fun _ _ => rfl
      · exact fun _ => rfl

omit [DecidableEq V] in
theorem restore_alike (name : String) : Alike Eq (restore name : Op V Unit) (restore name) := by
  refine get_alike fun s c _ => ?_
  simp only [Session.recat_snapshots]
  cases s.eng.snapshots.get? name with
  | none => exact raise_alike _
  | some ts => exact restoreTo_alike ts

omit [DecidableEq V] in
theorem begin_alike : Alike Eq (begin_ : Op V Unit) begin_ := by
  refine alike_of_blind (fun s c => ?_) fun s => ?_
  all_goals
    rcases s with ⟨e, _ | x, q⟩ <;> rfl

omit [DecidableEq V] in
theorem rollback_alike : Alike Eq (rollback : Op V Unit) rollback := by
  refine alike_of_blind (fun s c => ?_) fun s => ?_
  all_goals
    rcases s with ⟨e, _ | x, q⟩ <;> rfl

/-- **A statement on two alike sessions** returns the same, or raises the same up to the column a
NOT NULL exception names, and leaves alike sessions. -/
theorem sql_alike (st : Stmt V) : Alike Eq (sql H st) (sql H st) := by
  cases st with
  | select q =>
    refine (exec_alike q).bind ?_
    rintro f _ rfl
    exact Lockstep.pure rfl
  | insert n =>
    refine (insert_alike H n).bind ?_
    rintro k _ rfl
    exact Lockstep.pure rfl
  | insertSelect n =>
    refine (insertSelect_alike H n).bind ?_
    rintro k _ rfl
    exact Lockstep.pure rfl
  | delete n =>
    refine (delete_alike H n).bind ?_
    rintro k _ rfl
    exact Lockstep.pure rfl
  | update n =>
    refine (update_alike H n).bind ?_
    rintro k _ rfl
    exact Lockstep.pure rfl
  | merge n =>
    refine (merge_alike H n).bind ?_
    rintro k _ rfl
    exact Lockstep.pure rfl
  | begin => exact begin_alike.bind fun _ _ _ => Lockstep.pure rfl
  | commit => exact (commit_alike H).bind fun _ _ _ => Lockstep.pure rfl
  | rollback => exact rollback_alike.bind fun _ _ _ => Lockstep.pure rfl
  | createSnapshot name =>
    refine Lockstep.bind (modify_alike ?_ ?_) fun _ _ _ => Lockstep.pure rfl
    · exact fun _ _ => rfl
    · exact fun _ => rfl
  | restoreToSnapshot name => exact (restore_alike name).bind fun _ _ _ => Lockstep.pure rfl
  | rejected e => exact raise_alike e

/-! ## 5. Checkpoints in lockstep -/

end Engine

/-- An entry set in alike catalogs. -/
theorem CatalogAlike.set {c c' : Catalog V} (h : CatalogAlike c c') (t : String)
    {i i' : TableInfo V} (hi : TableInfo.Alike i i') :
    CatalogAlike { c with tables := c.tables.set t i } { c' with tables := c'.tables.set t i' } := by
  refine ⟨h.dataDir, ?_⟩
  have htables := h.tables
  change List.Forall₂ _ (Dict.put t i c.tables.entries) (Dict.put t i' c'.tables.entries)
  generalize c.tables.entries = l, c'.tables.entries = l' at htables
  induction htables with
  | nil => exact .cons ⟨rfl, hi⟩ .nil
  | @cons e e' l l' he hl ih =>
    obtain ⟨u, j⟩ := e
    obtain ⟨u', j'⟩ := e'
    obtain ⟨rfl, hj⟩ := he
    simp only [Dict.put]
    split
    · exact .cons ⟨rfl, hi⟩ hl
    · exact .cons ⟨rfl, hj⟩ ih

/-- The constraints a table inherits from alike entries. -/
theorem inherited_alike {o o' : Option (TableInfo V)} (h : Option.Rel TableInfo.Alike o o')
    (required : List String) :
    (Catalog.inherited o required).Alike (Catalog.inherited o' required) := by
  cases h with
  | none => exact .refl _
  | some hi =>
    obtain ⟨k, hk, rfl⟩ := hi
    refine ⟨fun c => ?_, hk.primaryKey, hk.unique, hk.defaults⟩
    simp only [Catalog.inherited, List.mem_append, List.mem_filter, hk.notNull]

/-- `register` on alike catalogs over one disk. -/
theorem register_alike {c c' : Catalog V} (h : CatalogAlike c c') (d : Disk V) (t : String)
    (path : PathArg) : Proc.Agree Eq (fun p p' => CatalogAlike p.1 p'.1 ∧ p'.2 = p.2)
      (c.register d t path) (c'.register d t path) := by
  unfold Catalog.register
  cases resolveParquetPaths d.parquet path with
  | nil => rfl
  | cons p ps =>
    dsimp only
    cases Catalog.infoOf d.parquet t (p :: ps) {} with
    | error e => rfl
    | ok i =>
      have hinfo : TableInfo.Alike
          { i with constraints := Catalog.inherited (c.tables.get? t) i.schema.required }
          { i with constraints := Catalog.inherited (c'.tables.get? t) i.schema.required } :=
        ⟨_, inherited_alike (CatalogAlike.find h.tables t) _, rfl⟩
      have hset := h.set t hinfo
      exact ⟨hset, hset.save d⟩

namespace Engine

open Proc (Agree Lockstep)

/-- Alike folds make the same writes. -/
def FoldAlike (f f' : Fold V) : Prop :=
  ∃ i, TableInfo.Alike f.info i ∧ f' = { f with info := i }

theorem FoldAlike.writes {f f' : Fold V} (h : FoldAlike f f') : f'.writes = f.writes := by
  obtain ⟨i, ⟨k, -, rfl⟩, rfl⟩ := h
  rfl

theorem write_alike (w : Write V) : Alike Eq (write w) (write w) := by
  rintro s _ ⟨c, hc, rfl⟩
  cases w with
  | register t p =>
    have hreg := register_alike hc s.eng.disk t (.file p)
    simp only [write, Write.apply, Session.recat]
    revert hreg
    cases s.eng.catalog.register s.eng.disk t (.file p) <;>
      cases c.register s.eng.disk t (.file p)
    · exact fun h => ⟨.inl h, c, hc, rfl⟩
    · exact False.elim
    · exact False.elim
    · rintro ⟨hcat, hdisk⟩
      dsimp only at hdisk ⊢
      rw [hdisk]
      exact ⟨rfl, _, hcat, rfl⟩
  | replace src dst =>
    simp only [write, Write.apply, Session.recat]
    cases s.eng.disk.parquet.get? src with
    | none => exact ⟨ErrAlike.refl _, c, hc, rfl⟩
    | some data => exact ⟨rfl, c, hc, rfl⟩
  | writeTable p data => exact ⟨rfl, c, hc, rfl⟩
  | clear t => exact ⟨rfl, c, hc, rfl⟩
  | remove p => exact ⟨rfl, c, hc, rfl⟩
  | dropCache t => exact ⟨rfl, c, hc, rfl⟩

variable [DecidableEq V] (H : Host V)

theorem foldOf_alike (t : String) : Alike FoldAlike (foldOf t : Op V _) (foldOf t) := by
  refine (catalogGet_alike t).bind fun i i' hi => ?_
  refine (scan_alike t none).bind ?_
  rintro merged _ rfl
  have hschema : i'.schema = i.schema := by
    obtain ⟨k, -, rfl⟩ := hi
    rfl
  rw [hschema]
  refine (lift_same _).bind ?_
  rintro data _ rfl
  exact Lockstep.pure ⟨i', hi, rfl⟩

theorem foldTable_alike (t : String) : Alike Eq (foldTable t : Op V _) (foldTable t) := by
  refine checkCancel_alike.bind fun _ _ _ => get_alike fun s c _ => ?_
  change Alike Eq (if s.eng.delta.hasUnflushed t then _ else _)
    (if s.eng.delta.hasUnflushed t then _ else _)
  split
  · refine (foldOf_alike t).bind fun f f' hf => ?_
    rw [hf.writes]
    refine (Lockstep.each fun w _ => write_alike w).bind fun _ _ _ => ?_
    refine (catalogGet_alike t).bind fun i i' hi => ?_
    obtain ⟨k, -, rfl⟩ := hi
    exact Lockstep.pure rfl
  · exact Lockstep.pure rfl

/-- **A checkpoint on two alike sessions.** -/
theorem checkpoint_alike : Alike Eq (checkpoint H) (checkpoint H) := by
  refine get_alike fun s c hc => ?_
  have hdir : c.dataDir = s.eng.catalog.dataDir := hc.dataDir
  simp only [Session.recat_txn, Session.recat_catalog, Session.recat_delta,
    Session.recat_commitTs]
  rw [hdir]
  cases s.txn with
  | some x => exact raise_alike _
  | none =>
    cases s.eng.catalog.dataDir with
    | none => exact raise_alike _
    | some dir =>
      change Alike Eq (if (H.setOrder s.eng.delta.tableNames).isEmpty then _ else _)
        (if (H.setOrder s.eng.delta.tableNames).isEmpty then _ else _)
      split
      · exact Lockstep.pure rfl
      · refine (Lockstep.collect fun t _ => foldTable_alike t).bind ?_
        rintro written _ rfl
        refine (walTruncate_alike 0).bind fun _ _ _ => ?_
        refine Lockstep.bind (modify_alike ?_ ?_) fun _ _ _ => Lockstep.pure rfl
        · exact fun _ _ => rfl
        · exact fun _ => rfl

end Engine

/-! ## 6. The catalogs that admin actions lead to -/

/-- The admin actions that change the catalog and nothing else. -/
inductive CatalogAct (V : Type) where
  | register (t : String) (path : PathArg)
  | drop (t : String)
  | rename (old new : String)
  | alter (t : String) (a : Alter V)

namespace CatalogAct

/-- What `_run_admin` does to the catalog and to the disk. -/
def change (c : Catalog V) (d : Disk V) : CatalogAct V → Except DbError (Catalog V × Disk V)
  | .register t path => c.register d t path
  | .drop t => c.dropTable d t
  | .rename old new => c.renameTable d old new
  | .alter t a => runAlter c d t a

/-- One action; a refused one leaves everything as it was. -/
def step (p : Catalog V × Disk V) (a : CatalogAct V) : Catalog V × Disk V :=
  match a.change p.1 p.2 with
  | .error _ => p
  | .ok q => q

/-- The catalog of a data directory and its disk after some actions. -/
def reach (dir : String) (d : Disk V) (acts : List (CatalogAct V)) : Catalog V × Disk V :=
  Run.run step (Catalog.load (some dir) d, d) acts

end CatalogAct

namespace Catalog

/-- An entry read again under another name and with other constraints. -/
theorem infoOf_again {d : Files V} {t : String} {paths : List Path} {k : TableConstraints V}
    {i : TableInfo V} (h : infoOf d t paths k = .ok i) (t' : String) (k' : TableConstraints V) :
    infoOf d t' paths k' = .ok { i with name := t', constraints := k' } := by
  unfold infoOf at h ⊢
  split at h
  · cases h
  · split at h
    · cases h
    · split at h
      · cases h
      · cases h
        rfl

theorem infoOf_name {d : Files V} {t : String} {paths : List Path} {k : TableConstraints V}
    {i : TableInfo V} (h : infoOf d t paths k = .ok i) : i.name = t := by
  have hsame := infoOf_again h t k
  rw [h] at hsame
  exact congrArg TableInfo.name (Except.ok.inj hsame)

/-- Every entry is what reading its files gives. -/
def Fresh (c : Catalog V) (d : Files V) : Prop := ∀ t i, c.tables.get? t = some i →
  infoOf d t i.paths i.constraints = .ok i

/-- The catalog in memory is the one saved or the one just loaded. -/
structure Held (dir : String) (p : Catalog V × Disk V) : Prop where
  dataDir : p.1.dataDir = some dir
  fresh : p.1.Fresh p.2.parquet
  saved : p.2.catalog.getD [] = p.1.saved ∨ p.1 = load (some dir) p.2

variable {dir : String} {c : Catalog V} {d : Disk V}

theorem load_dataDir : (load (some dir) d).dataDir = some dir := by
  have hfold : ∀ (l : List (SavedTable V)) (c₀ : Catalog V),
      (l.foldl (loadEntry d.parquet) c₀).dataDir = c₀.dataDir := by
    intro l
    induction l with
    | nil => exact fun _ => rfl
    | cons e l ih =>
      intro c₀
      rw [List.foldl_cons, ih]
      unfold loadEntry
      split <;> rfl
  rw [load_eq_foldl, hfold]

theorem held_load : Held dir (load (some dir) d, d) where
  dataDir := load_dataDir
  fresh t i hi := by
    obtain ⟨saved, e, -, -, -, hinfo⟩ := load_get hi
    obtain ⟨-, -, -, hpaths, -, hcons⟩ := infoOf_ok hinfo
    rw [hpaths, hcons]
    exact hinfo
  saved := .inr rfl

/-- A catalog with an entry more or replaced, saved. -/
theorem Held.put (h : Held dir (c, d)) {tables : Dict String (TableInfo V)}
    (hnew : ∀ t i, tables.get? t = some i → infoOf d.parquet t i.paths i.constraints = .ok i) :
    Held dir ({ c with tables := tables }, { c with tables := tables }.save d) where
  dataDir := h.dataDir
  fresh t i hi := by
    rw [save_parquet]
    exact hnew t i hi
  saved := by
    have hdir : ({ c with tables := tables } : Catalog V).dataDir.isSome = true := by
      rw [h.dataDir]
      rfl
    rw [save_catalog hdir]
    exact .inl rfl

/-- **An action keeps the invariant.** -/
theorem Held.step {p : Catalog V × Disk V} (h : Held dir p) (a : CatalogAct V) :
    Held dir (a.step p) := by
  obtain ⟨c, d⟩ := p
  unfold CatalogAct.step
  cases hrun : a.change c d with
  | error e => exact h
  | ok q =>
    obtain ⟨c', d'⟩ := q
    cases a with
    | register t path =>
      rw [CatalogAct.change, register] at hrun
      split at hrun
      · cases hrun
      · rename_i p ps hres
        split at hrun
        · cases hrun
        · rename_i i hi
          cases hrun
          refine h.put fun u j hj => ?_
          rw [Dict.get?_set] at hj
          split at hj
          · rename_i hu
            cases hj
            obtain ⟨-, -, -, hpaths, -, -⟩ := infoOf_ok hi
            have hagain := infoOf_again hi t (inherited (c.tables.get? t) i.schema.required)
            rw [hu]
            dsimp only
            rw [hpaths, hagain, ← infoOf_name hi, hpaths]
          · exact h.fresh u j hj
    | drop t =>
      obtain ⟨rfl, rfl⟩ := dropTable_ok hrun
      refine h.put fun u j hj => ?_
      rw [Dict.get?_erase] at hj
      split at hj
      · cases hj
      · exact h.fresh u j hj
    | rename old new =>
      obtain ⟨i, hi, -, rfl, rfl⟩ := renameTable_ok hrun
      refine h.put fun u j hj => ?_
      rw [Dict.get?_set] at hj
      split at hj
      · rename_i hu
        cases hj
        rw [hu]
        exact infoOf_again (h.fresh old i hi) new i.constraints
      · rw [Dict.get?_erase] at hj
        split at hj
        · cases hj
        · exact h.fresh u j hj
    | alter t a =>
      obtain ⟨i, hi, rfl, rfl⟩ := runAlter_ok hrun
      refine h.put fun u j hj => ?_
      rw [Dict.get?_set] at hj
      split at hj
      · rename_i hu
        cases hj
        have hfresh := h.fresh t i hi
        have hagain := infoOf_again hfresh t (a.change i.constraints)
        rw [hu]
        dsimp only
        rw [hagain, ← infoOf_name hfresh]
      · exact h.fresh u j hj

theorem held_reach (dir : String) (d : Disk V) (acts : List (CatalogAct V)) :
    Held dir (CatalogAct.reach dir d acts) := by
  have hall : Run.Along CatalogAct.step (fun _ _ => True)
      (load (some dir) d, d) acts := Run.Along.of_forall (p := fun _ => True) fun _ _ => trivial
  exact hall.invariant (fun _ a h _ => h.step a) held_load

/-! ## 7. Reloading them

Reloading is saving and reading back.  An empty primary key is saved as null, so that a DELETE which
ran under the empty key in memory is refused after a restart: the converse half of `catalog_faithful`
runs such a statement on both. -/

/-- No table has an empty primary key. -/
def Keyed (c : Catalog V) : Prop :=
  ∀ t i, c.tables.get? t = some i → i.constraints.primaryKey ≠ some []

/-- Entries with the same keys and related values. -/
theorem forall₂_of_keys {R : TableInfo V → TableInfo V → Prop} :
    ∀ {l l' : List (String × TableInfo V)}, l'.map Prod.fst = l.map Prod.fst →
      (∀ t i i', (t, i) ∈ l → (t, i') ∈ l' → R i i') → (l.map Prod.fst).Nodup →
      List.Forall₂ (fun e e' => e.1 = e'.1 ∧ R e.2 e'.2) l l'
  | [], [], _, _, _ => .nil
  | [], _ :: _, h, _, _ => by cases h
  | _ :: _, [], h, _, _ => by cases h
  | (t, i) :: l, (t', i') :: l', h, hR, hnd => by
    rw [List.map_cons, List.map_cons] at h
    obtain ⟨ht, hl⟩ := List.cons.inj h
    dsimp only at ht
    subst ht
    refine .cons ⟨rfl, hR t' i i' List.mem_cons_self List.mem_cons_self⟩
      (forall₂_of_keys hl (fun u j j' hj hj' => ?_) (List.nodup_cons.mp hnd).2)
    exact hR u j j' (List.mem_cons_of_mem _ hj) (List.mem_cons_of_mem _ hj')

/-- **Without empty keys the reloaded catalog is alike.** -/
theorem Held.load_alike {p : Catalog V × Disk V} (h : Held dir p) (hk : p.1.Keyed) :
    CatalogAlike p.1 (load (some dir) p.2) := by
  rcases h.saved with hsaved | hload
  · have hread : ∀ t i, p.1.tables.get? t = some i →
        ∃ f fs, p.2.parquet.readAll i.paths = .ok (f :: fs) := fun t i hi => by
      obtain ⟨f, fs, hf, -⟩ := infoOf_ok (h.fresh t i hi)
      exact ⟨f, fs, hf⟩
    have hagain : (load (some dir) p.2).saved = p.1.saved := saved_load hsaved hread
    have hkeys := congrArg (List.map SavedTable.name) hagain
    simp only [Catalog.saved, List.map_map] at hkeys
    refine ⟨load_dataDir.trans h.dataDir.symm, forall₂_of_keys hkeys ?_ p.1.tables.nodup⟩
    intro t i i' hi hi'
    have hget := (p.1.tables.mem_entries t i).mp hi
    have hget' := ((load (some dir) p.2).tables.mem_entries t i').mp hi'
    have hre := infoOf_again (h.fresh t i hget) t i.constraints.reload
    have hname := infoOf_name (h.fresh t i hget)
    rw [load_save hsaved, hget] at hget'
    dsimp only at hget'
    rw [hre] at hget'
    cases hget'
    refine ⟨i.constraints.reload, ⟨i.constraints.mem_reload_notNull, ?_, rfl, rfl⟩, by rw [← hname]⟩
    rw [TableConstraints.reload_primaryKey]
    have hne := hk t i hget
    revert hne
    cases i.constraints.primaryKey with
    | none => exact fun _ => rfl
    | some l =>
      cases l with
      | nil => exact fun hne => absurd rfl hne
      | cons _ _ => exact fun _ => rfl
  · rw [← hload]
    exact .refl _

end Catalog

/-- The catalog `c` in memory and the catalog `c'` from the file say the same: the names, the paths
and the constraints, and whatever runs on one of them runs alike on the other. -/
structure Faithful [DecidableEq V] (H : Host V) (c c' : Catalog V) : Prop where
  names : c'.tables.keys = c.tables.keys
  paths : ∀ t i i', c.tables.get? t = some i → c'.tables.get? t = some i' → i'.paths = i.paths
  constraints : ∀ t i i', c.tables.get? t = some i → c'.tables.get? t = some i' →
    i.constraints.Alike i'.constraints
  statements : ∀ s : Session V, s.eng.catalog = c → ∀ st,
    Proc.Agree ErrAlike Eq (Engine.sql H st s).1 (Engine.sql H st (s.recat c')).1 ∧
      Engine.SessionAlike (Engine.sql H st s).2 (Engine.sql H st (s.recat c')).2
  checkpoint : ∀ s : Session V, s.eng.catalog = c →
    Proc.Agree ErrAlike Eq (Engine.checkpoint H s).1 (Engine.checkpoint H (s.recat c')).1 ∧
      Engine.SessionAlike (Engine.checkpoint H s).2 (Engine.checkpoint H (s.recat c')).2

variable [DecidableEq V] (H : Host V)

/-- Alike catalogs say the same. -/
theorem CatalogAlike.faithful {c c' : Catalog V} (h : CatalogAlike c c') : Faithful H c c' where
  names := h.keys
  paths t i i' hi hi' := by
    have hfind := CatalogAlike.find h.tables t
    change Option.Rel _ (c.tables.get? t) (c'.tables.get? t) at hfind
    rw [hi, hi'] at hfind
    cases hfind with
    | some hii => exact Engine.paths_alike hii
  constraints t i i' hi hi' := by
    have hfind := CatalogAlike.find h.tables t
    change Option.Rel _ (c.tables.get? t) (c'.tables.get? t) at hfind
    rw [hi, hi'] at hfind
    cases hfind with
    | some hii =>
      obtain ⟨k, hk, rfl⟩ := hii
      exact hk
  statements s hs st := Engine.sql_alike H st s _ ⟨c', hs ▸ h, rfl⟩
  checkpoint s hs := Engine.checkpoint_alike H s _ ⟨c', hs ▸ h, rfl⟩

/-- **Persistence is faithful exactly without empty primary keys.**  After any actions on the catalog
of a data directory, the saved file reloads to a catalog that says the same if and only if no table
has an empty primary key. -/
theorem catalog_faithful (dir : String) (d : Disk V) (acts : List (CatalogAct V)) :
    Faithful H (CatalogAct.reach dir d acts).1
        (Catalog.load (some dir) (CatalogAct.reach dir d acts).2) ↔
      (CatalogAct.reach dir d acts).1.Keyed := by
  have hheld := Catalog.held_reach dir d acts
  constructor
  · intro h t i hi hempty
    have hmem : t ∈ (Catalog.load (some dir) (CatalogAct.reach dir d acts).2).tables.keys := by
      rw [h.names]
      exact (Dict.mem_keys _ t).mpr ⟨i, hi⟩
    obtain ⟨i', hi'⟩ := (Dict.mem_keys _ t).mp hmem
    have hsame := (h.constraints t i i' hi hi').primaryKey
    obtain ⟨saved, e, -, -, -, hinfo⟩ := Catalog.load_get hi'
    obtain ⟨-, -, -, -, -, hcons⟩ := Catalog.infoOf_ok hinfo
    rw [hempty, hcons] at hsame
    -- what is loaded is never an empty key
    change truthy e.constraints.primaryKey = some [] at hsame
    revert hsame
    cases e.constraints.primaryKey with
    | none => exact nofun
    | some l => cases l <;> exact nofun
  · exact fun hk => (hheld.load_alike hk).faithful H

/-! ### A cleared primary key -/

/-- `t` with its primary key cleared. -/
def clearedKey : Catalog Nat × Disk Nat := CatalogAct.reach "d" oneTable [.alter "t" .pkClear]

/-- A session on a catalog and its disk, with nothing committed. -/
def quietSession (p : Catalog Nat × Disk Nat) : Session Nat :=
  ⟨⟨p.1, ∅, DeltaStore.empty, 0, ∅, p.2⟩, none, {}⟩

/-- **A cleared key is no key after a restart.**  In memory it is an empty key, under which DELETE
runs; the reloaded catalog has none, and DELETE is refused. -/
theorem cleared_key_reloaded :
    (Engine.sql natHost (deleteAll "t") (quietSession clearedKey)).1.toBool = true ∧
      (Engine.sql natHost (deleteAll "t") ((quietSession clearedKey).recat
        (Catalog.load (some "d") clearedKey.2))).1.toBool = false ∧
      ¬ Faithful natHost clearedKey.1 (Catalog.load (some "d") clearedKey.2) := by
  have hok : (Engine.sql natHost (deleteAll "t") (quietSession clearedKey)).1.toBool = true := by
    decide
  have hno : (Engine.sql natHost (deleteAll "t") ((quietSession clearedKey).recat
      (Catalog.load (some "d") clearedKey.2))).1.toBool = false := by decide
  refine ⟨hok, hno, fun h => ?_⟩
  have hagree := (h.statements (quietSession clearedKey) rfl (deleteAll "t")).1
  revert hagree hok hno
  generalize (Engine.sql natHost (deleteAll "t") (quietSession clearedKey)).1 = r
  generalize (Engine.sql natHost (deleteAll "t") ((quietSession clearedKey).recat
    (Catalog.load (some "d") clearedKey.2))).1 = r'
  cases r <;> cases r'
  · exact nofun
  · exact nofun
  · exact fun _ _ => False.elim
  · exact nofun

end RyuDB
