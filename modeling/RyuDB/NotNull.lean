/-
# NOT NULL on the four write paths

INSERT .. SELECT, UPDATE and the MATCHED arm of MERGE coerce first and look for NULL afterwards.
INSERT .. VALUES and the NOT MATCHED arm of MERGE test `v is None` on the Python value and coerce
it afterwards, so a value that is not None and that the coercion turns into NULL gets through: an
unreadable date (NaT), or the NaN as which a NULL of a numeric source column comes back.

    -- t has one column k, a DATE and its primary key
    INSERT INTO t VALUES ('not a date')                       -- the key is NULL
    INSERT INTO t VALUES ('2020-01-31'), ('01/02/2020')       -- the second key is NULL

The coercion is one of whole columns.  `pd.to_datetime` takes its format from the first value, and a date
in another format is unreadable there although it can be read by itself; so `Legible` speaks about the
column of all the values that a statement supplies (`suppliedColumn`) and not about one value.

`newBatches` lists the batches a statement brought to the delta or to the transaction's buffer.  The
result is exact: a statement that succeeds adds no NULL to a NOT NULL column if and only if the
values it supplies or defaults for such columns are `Legible`.
-/
import RyuDB.Atomic

namespace RyuDB

variable {V : Type}

namespace Engine

/-! ## 1. What a statement adds -/

/-- The insert batches in the transaction of a session. -/
def bufferedIn (s : Session V) (t : String) : List (Frame V) :=
  match s.txn with
  | none => []
  | some x => x.bufferBatches t

/-- The insert batches of `t` that came to the delta or to the transaction's buffer. -/
def newBatches (s s' : Session V) (t : String) : List (Frame V) :=
  ((s'.eng.delta.batchesWithTs t).drop (s.eng.delta.batchesWithTs t).length).map Prod.snd ++
    (bufferedIn s' t).drop (bufferedIn s t).length

section Added

variable {H : Host V} {s s₁ s' : Session V} {t : String}

/-- The statement added the batches `fs` to `t` and nothing elsewhere. -/
def Adds (s s' : Session V) (t : String) (fs : List (Frame V)) : Prop :=
  ∀ u, newBatches s s' u = if u = t then fs else []

theorem adds_of_same (hd : s'.eng.delta = s.eng.delta) (hx : bufferedIn s' = bufferedIn s) :
    Adds s s' t [] := by
  intro u
  rw [newBatches, hd, hx, List.drop_length, List.drop_length, ite_self]
  rfl

theorem Quiet.bufferedIn_eq (hq : Quiet s s₁) : bufferedIn s₁ = bufferedIn s := by
  funext u
  rw [bufferedIn, bufferedIn, hq.txn]

theorem Quiet.adds (hq : Quiet s s₁) : Adds s s₁ t [] := adds_of_same hq.delta hq.bufferedIn_eq

/-- Reading before the write does not matter. -/
theorem Adds.after {fs : List (Frame V)} (h : Adds s₁ s' t fs) (hq : Quiet s s₁) :
    Adds s s' t fs := by
  intro u
  rw [← h u, newBatches, newBatches, hq.delta, hq.bufferedIn_eq]

theorem writeCommit_returned {bs : List (Batch V)} {ts : Int}
    (h : writeCommit H bs s = (.ok ts, s')) :
    s'.eng.delta = s.eng.delta.addAll (s.eng.commitTs + 1) bs ∧ s'.txn = s.txn := by
  rcases hw : Wal.writeCommit H s.eng.walEnabled s.eng.disk.wal s.faults.append
    (s.eng.commitTs + 1) bs with ⟨r, wal⟩
  cases r with
  | ok u =>
    rw [writeCommit_ok H hw] at h
    cases h
    exact ⟨rfl, rfl⟩
  | error y =>
    rw [writeCommit_error H hw] at h
    cases h

/-- A commit outside a transaction adds its insert batches. -/
theorem writeCommit_newBatches (hx : s.txn = none) {bs : List (Batch V)} {ts : Int}
    (h : writeCommit H bs s = (.ok ts, s')) (u : String) : newBatches s s' u = insertsOf u bs := by
  obtain ⟨hd, hx'⟩ := writeCommit_returned h
  have hb : bufferedIn s' u = [] := by
    rw [bufferedIn, hx', hx]
  rw [newBatches, hd, DeltaStore.batchesWithTs_addAll, List.drop_left, hb, List.drop_nil,
    List.append_nil, List.map_map]
  exact List.map_id _

theorem appendFrame_adds {f : Frame V} {r : Unit} (h : appendFrame H t f s = (.ok r, s')) :
    Adds s s' t [f] := by
  intro u
  cases hx : s.txn with
  | some x =>
    rw [appendFrame_txn H hx] at h
    cases h
    rw [newBatches, List.drop_length, bufferedIn, bufferedIn, hx]
    simp only [List.map_nil, List.nil_append, Transaction.bufferBatches_bufferAppend]
    split
    · rename_i hu
      rw [hu, List.drop_left]
    · exact List.drop_length
  | none =>
    rw [appendFrame, Proc.get_bind, hx] at h
    obtain ⟨ts, s₁, hw, h⟩ := Proc.bind_ok.mp h
    cases h
    rw [writeCommit_newBatches hx hw, insertsOf]
    by_cases hu : u = t
    · simp [hu]
    · have hu' : ¬ t = u := fun h => hu h.symm
      simp [hu, hu']

theorem appendTombstone_adds {g : Frame V} {r : Unit} (h : appendTombstone H t g s = (.ok r, s')) :
    Adds s s' t [] := by
  cases hx : s.txn with
  | some x =>
    rw [appendTombstone_txn H hx] at h
    cases h
    refine adds_of_same rfl (funext fun u => ?_)
    rw [bufferedIn, bufferedIn, hx]
    rfl
  | none =>
    rw [appendTombstone, Proc.get_bind, hx] at h
    obtain ⟨ts, s₁, hw, h⟩ := Proc.bind_ok.mp h
    cases h
    intro u
    rw [writeCommit_newBatches hx hw, insertsOf, ite_self]
    simp

/-- The transaction with the new rows buffered. -/
def withNew (t : String) (f : Option (Frame V)) (x : Transaction V) : Transaction V :=
  match f with
  | none => x
  | some f => x.bufferAppend t f

theorem withNew_tombed (t : String) (w : Flush V) (x : Transaction V) :
    withNew t w.new (w.tombed t x) = w.buffered t x := by
  unfold withNew Flush.buffered
  cases w.new <;> rfl

variable [DecidableEq V]

/-- What `bufferNew` leaves in the slot. -/
theorem bufferNew_slot {x : Transaction V} (hx : s.txn = some x) {f : Option (Frame V)} {r : Unit}
    (h : bufferNew t f s = (.ok r, s')) :
    ∃ s₁, Quiet s s₁ ∧ s' = { s₁ with txn := some (withNew t f x) } := by
  cases f with
  | none =>
    cases h
    refine ⟨s, Quiet.refl s, ?_⟩
    obtain ⟨e, y, q⟩ := s
    simp only at hx
    rw [hx]
    rfl
  | some f =>
    obtain ⟨a, s₁, h₁, h⟩ := Proc.bind_ok.mp h
    have hq : Quiet s s₁ := (keeps_enforceUnique t f).apply h₁
    cases h
    have htxn : s₁.txn.map (fun x => x.bufferAppend t f) = some (withNew t (some f) x) := by
      rw [hq.txn, hx]
      rfl
    exact ⟨s₁, hq, congrArg (fun o => { s₁ with txn := o }) htxn⟩

/-- The implicit transaction adds its new rows. -/
theorem flush_adds {w : Flush V} {r : Unit}
    (h : flush H t w s = (.ok r, s')) : Adds s s' t w.new.toList := by
  intro u
  rw [flush_eq] at h
  replace h := Proc.onError_ok h
  obtain ⟨a, s₁, h₁, h⟩ := Proc.bind_ok.mp h
  obtain ⟨s₂, hq, rfl⟩ := bufferNew_slot rfl h₁
  rw [withNew_tombed, commit_of_txn H rfl] at h
  rcases hw : writeCommit H (commitBatches H (w.buffered t { snapshotTs := s.eng.commitTs }))
    { s₂ with txn := some (w.buffered t { snapshotTs := s.eng.commitTs }) } with ⟨v, s₃⟩
  rw [hw] at h
  cases v with
  | error y => cases h
  | ok ts =>
    cases h
    obtain ⟨hd₃, -⟩ := writeCommit_returned hw
    have hins : insertsOf u (commitBatches H (w.buffered t { snapshotTs := s.eng.commitTs })) =
        if u = t then w.new.toList else [] := by
      rw [(commitBatches_carries H _ u).1, Flush.bufferBatches_buffered,
        Transaction.bufferBatches_new, List.nil_append]
    have hb : bufferedIn { s₃ with txn := none } u = [] := rfl
    have hd : s₂.eng.delta = s.eng.delta := hq.delta
    rw [newBatches, hd₃, DeltaStore.batchesWithTs_addAll, hd, List.drop_left, hins, hb, List.drop_nil,
      List.append_nil, List.map_map]
    exact List.map_id _

end Added

/-! ## 2. Supplied values -/

/-- The value of a column before coercion: the provided one, else the DEFAULT, else NULL. -/
def Supplied (i : TableInfo V) (provided : String → Option (Except DbError (Cell V))) (c : String)
    (v : Cell V) : Prop :=
  provided c = some (.ok v) ∨ provided c = none ∧ defaultCell i c = v

/-- The cell of a column before coercion, NULL where the provided expression raises. -/
def suppliedCell (i : TableInfo V) (provided : String → Option (Except DbError (Cell V)))
    (c : String) : Cell V :=
  match provided c with
  | some (.ok v) => v
  | some (.error _) => none
  | none => defaultCell i c

/-- A column before coercion, a cell for each item. -/
def suppliedColumn {α : Type} (i : TableInfo V)
    (provided : α → String → Option (Except DbError (Cell V))) (l : List α) (c : String) :
    List (Cell V) := l.map fun a => suppliedCell i (provided a) c

/-- No value supplied for a NOT NULL column is one that the coercion of the whole column turns into NULL.
A date may be readable by itself and not be read in a column that starts with another format. -/
def Legible {α : Type} (H : Host V) (i : TableInfo V)
    (provided : α → String → Option (Except DbError (Cell V))) (l : List α) : Prop :=
  ∀ a ∈ l, ∀ c ∈ i.columns, c ∈ i.constraints.notNull → ∀ v, Supplied i (provided a) c (some v) →
    H.coerce (i.typeOf c) (suppliedColumn i provided l c) v ≠ .ok none

section Supplied

variable {H : Host V} {i : TableInfo V} {t : String}

theorem Supplied.unique {provided : String → Option (Except DbError (Cell V))} {c : String}
    {v v' : Cell V} (h : Supplied i provided c v) (h' : Supplied i provided c v') : v = v' := by
  rcases h with h | ⟨h, hv⟩ <;> rcases h' with h' | ⟨h', hv'⟩ <;> rw [h] at h'
  · cases h'
    rfl
  · cases h'
  · cases h'
  · rw [← hv, ← hv']

theorem Supplied.cell {provided : String → Option (Except DbError (Cell V))} {c : String} {v : Cell V}
    (h : Supplied i provided c v) : suppliedCell i provided c = v := by
  unfold suppliedCell
  rcases h with h | ⟨h, hv⟩ <;> rw [h]
  exact hv

theorem map_of_forall₂ {α β γ : Type} {R : α → β → Prop} {f : α → γ} {g : β → γ} {l : List α}
    {l' : List β} (h : List.Forall₂ R l l') (hfg : ∀ a ∈ l, ∀ b, R a b → g b = f a) :
    l'.map g = l.map f := by
  induction h with
  | nil => rfl
  | @cons a b l l' hab _ ih =>
    rw [List.map_cons, List.map_cons, hfg a List.mem_cons_self b hab,
      ih fun x hx => hfg x (List.mem_cons_of_mem a hx)]

theorem resolveCells_supplied {n : Nat} {provided : String → Option (Except DbError (Cell V))} :
    ∀ {cs : List String} {vs : List (Cell V)}, resolveCells i t n provided cs = .ok vs →
      ∀ c ∈ cs, Supplied i provided c (cellOf cs vs c)
  | d :: cs, vs, h, c, hc => by
    obtain ⟨v, vs', rfl, hv, -, hrest⟩ := resolveCells_cons h
    rw [cellOf]
    split
    · rename_i hd
      rw [← hd]
      exact hv
    · rename_i hd
      exact resolveCells_supplied hrest c ((List.mem_cons.mp hc).resolve_left fun h => hd h.symm)

/-- The rows of an insert, one for each item, hold what was supplied. -/
theorem resolveRows_supplied {α : Type}
    {provided : α → String → Option (Except DbError (Cell V))} :
    ∀ {l : List α} {n : Nat} {rows : List (Row V)}, resolveRows i t provided n l = .ok rows →
      List.Forall₂ (fun a r => ∀ c ∈ i.columns, Supplied i (provided a) c (r c)) l rows
  | [], n, rows, h => by
    cases h
    exact List.Forall₂.nil
  | a :: l, n, rows, h => by
    rw [resolveRows] at h
    simp only [bind, Except.bind] at h
    split at h
    · cases h
    · rename_i cells hcells
      split at h
      · cases h
      · rename_i rows' hrows
        cases h
        exact List.Forall₂.cons (resolveCells_supplied hcells) (resolveRows_supplied hrows)

/-- A row is complete after the coercion if and only if no value supplied for it becomes NULL. -/
theorem legible_iff {provided : String → Option (Except DbError (Cell V))} {r : Row V}
    {column : String → List (Cell V)}
    (hcol : ∀ c ∈ i.columns, ∃ v, coerceCell H (i.typeOf c) (column c) (r c) = .ok v)
    (hsup : ∀ c ∈ i.columns, Supplied i provided c (r c))
    (hnn : ∀ c ∈ i.columns, c ∈ i.constraints.notNull → (r c).isSome = true) :
    (∀ c ∈ i.columns, c ∈ i.constraints.notNull →
      (coerced H (i.typeOf c) (column c) (r c)).isSome = true) ↔
      ∀ c ∈ i.columns, c ∈ i.constraints.notNull → ∀ v, Supplied i provided c (some v) →
        H.coerce (i.typeOf c) (column c) v ≠ .ok none := by
  constructor
  · intro h c hc hcn v hv hnull
    have hrc : r c = some v := (hsup c hc).unique hv
    have hsome := h c hc hcn
    rw [hrc, coerced, coerceCell, hnull] at hsome
    cases hsome
  · intro h c hc hcn
    obtain ⟨v, hv⟩ := Option.isSome_iff_exists.mp (hnn c hc hcn)
    obtain ⟨w, hw⟩ := hcol c hc
    rw [coerced, hw]
    cases w with
    | some w => rfl
    | none =>
      rw [hv, coerceCell] at hw
      exact absurd hw (h c hc hcn v (by rw [← hv]; exact hsup c hc))

/-- The same for rows, one for each item, in columns that are given. -/
theorem legible_all {α : Type} {provided : α → String → Option (Except DbError (Cell V))}
    (column : String → List (Cell V)) {l : List α} {rows : List (Row V)}
    (hsup : List.Forall₂ (fun a r => ∀ c ∈ i.columns, Supplied i (provided a) c (r c)) l rows)
    (hcells : ∀ r ∈ rows, ∀ c ∈ i.columns, ∃ v,
      coerceCell H (i.typeOf c) (column c) (r c) = .ok v)
    (hnn : ∀ r ∈ rows, ∀ c ∈ i.columns, c ∈ i.constraints.notNull → (r c).isSome = true) :
    (∀ r ∈ rows, ∀ c ∈ i.columns, c ∈ i.constraints.notNull →
      (coerced H (i.typeOf c) (column c) (r c)).isSome = true) ↔
      ∀ a ∈ l, ∀ c ∈ i.columns, c ∈ i.constraints.notNull → ∀ v, Supplied i (provided a) c (some v) →
        H.coerce (i.typeOf c) (column c) v ≠ .ok none := by
  induction hsup with
  | nil => simp
  | @cons a r l rows har _ ih =>
    rw [List.forall_mem_cons, List.forall_mem_cons]
    rw [List.forall_mem_cons] at hcells hnn
    exact and_congr (legible_iff hcells.1 har hnn.1) (ih hcells.2 hnn.2)

/-- **A batch resolved before the coercion is complete if and only if its values are legible.** -/
theorem typedRows_iff {α : Type} {provided : α → String → Option (Except DbError (Cell V))}
    {l : List α} {n : Nat} {rows : List (Row V)} (h : resolveRows i t provided n l = .ok rows)
    (hcol : i.columns.forM (fun c => coerceColumn H i c rows) = .ok ()) :
    Required i (typedRows H i rows) ↔ Legible H i provided l := by
  have hsup := resolveRows_supplied h
  have hcells : ∀ r ∈ rows, ∀ c ∈ i.columns, ∃ v,
      coerceCell H (i.typeOf c) (rows.map fun r => r c) (r c) = .ok v := by
    intro r hr c hc
    have hcell := forM_ok (forM_ok hcol c hc) r hr
    cases hv : coerceCell H (i.typeOf c) (rows.map fun r => r c) (r c) with
    | error y => simp only [hv, bind, Except.bind] at hcell; cases hcell
    | ok v => exact ⟨v, rfl⟩
  have hreq : Required i (typedRows H i rows) ↔ ∀ r ∈ rows, ∀ c ∈ i.columns,
      c ∈ i.constraints.notNull →
        (coerced H (i.typeOf c) (rows.map fun r => r c) (r c)).isSome = true := by
    unfold Required typedRows
    simp only [Frame.ofRows_rows, List.map_map, List.forall_mem_map, Function.comp_apply]
    refine forall₂_congr fun r _ => forall₂_congr fun c hc => ?_
    rw [restrict_mem hc]
  have hcolumn : ∀ c ∈ i.columns, (rows.map fun r => r c) = suppliedColumn i provided l c :=
    fun c hc => map_of_forall₂ hsup fun a _ r har => ((har c hc).cell).symm
  rw [hreq, legible_all (fun c => rows.map fun r => r c) hsup hcells (resolveRows_ok h)]
  refine forall₂_congr fun a _ => forall₂_congr fun c hc => ?_
  rw [hcolumn c hc]

end Supplied

/-! ## 3. INSERT and UPDATE -/

/-- What a VALUES row provides. -/
def valuesProvided (cols : List String) (row : List (Cell V)) (c : String) :
    Option (Except DbError (Cell V)) :=
  if c ∈ cols then some (.ok (cellOf cols row c)) else none

section Statements

variable {H : Host V} {s s' : Session V} {i : TableInfo V}

theorem catalogGet_ok {t : String} {s₁ : Session V} (h : catalogGet t s = (.ok i, s₁)) :
    s.eng.catalog.tables.get? t = some i ∧ s = s₁ := by
  obtain ⟨h₁, h₂⟩ := Prod.mk.inj h
  exact ⟨get_eq_ok.mp h₁, h₂⟩

theorem targetColumns_ok {t statement : String} {columns : Option (List String)}
    {cols : List String} (h : targetColumns i t statement columns = .ok cols) :
    cols = columns.getD i.columns := by
  unfold targetColumns at h
  simp only at h
  split at h
  · split at h
    · cases h
    · cases h
      rfl
  · cases h

theorem valuesFrame_iff {n : InsertNode V} {f : Frame V} (h : valuesFrame H i n = .ok f) :
    Required i f ↔ Legible H i (valuesProvided (n.columns.getD i.columns)) n.rows := by
  unfold valuesFrame at h
  simp only [bind, Except.bind] at h
  split at h
  · cases h
  · rename_i cols hcols
    split at h
    · cases h
    · split at h
      · cases h
      · rename_i rows hrows
        split at h
        · cases h
        · rename_i hcol
          cases h
          rw [← targetColumns_ok hcols]
          exact typedRows_iff hrows hcol

variable [DecidableEq V]

theorem insert_adds {n : InsertNode V} {k : Nat} (h : insert H n s = (.ok k, s')) :
    ∃ i f, s.eng.catalog.tables.get? n.table = some i ∧ valuesFrame H i n = .ok f ∧
      Adds s s' n.table [f] := by
  obtain ⟨f, s₁, h₁, h⟩ := Proc.bind_ok.mp h
  obtain ⟨i, s₂, h₂, h₁⟩ := Proc.bind_ok.mp h₁
  obtain ⟨hi, rfl⟩ := catalogGet_ok h₂
  obtain ⟨hf, rfl⟩ := Prod.mk.inj h₁
  obtain ⟨_, s₃, h₃, h⟩ := Proc.bind_ok.mp h
  have hq := (keeps_enforceUnique n.table f).apply h₃
  obtain ⟨_, s₄, h₄, h⟩ := Proc.bind_ok.mp h
  cases h
  exact ⟨i, f, hi, hf, (appendFrame_adds h₄).after hq⟩

/-- The batch of an INSERT .. SELECT is complete. -/
theorem insertSelect_adds {n : InsertSelectNode V} {k : Nat}
    (h : insertSelect H n s = (.ok k, s')) : ∃ i fs, s.eng.catalog.tables.get? n.table = some i ∧
      Adds s s' n.table fs ∧ ∀ f ∈ fs, Required i f := by
  obtain ⟨src, s₁, h₁, h⟩ := Proc.bind_ok.mp h
  have hq₁ := (keeps_insertSource H n).apply h₁
  obtain ⟨i, s₂, h₂, h₁⟩ := Proc.bind_ok.mp h₁
  obtain ⟨hi, rfl⟩ := catalogGet_ok h₂
  refine ⟨i, ?_⟩
  cases src with
  | none =>
    cases h
    exact ⟨[], hi, hq₁.adds, by simp⟩
  | some f =>
    obtain ⟨_, s₃, h₃, h⟩ := Proc.bind_ok.mp h
    have hq₃ := (keeps_enforceUnique n.table f).apply h₃
    obtain ⟨_, s₄, h₄, h⟩ := Proc.bind_ok.mp h
    cases h
    refine ⟨[f], hi, (appendFrame_adds h₄).after (Quiet.trans _ _ _ hq₁ hq₃), ?_⟩
    obtain ⟨cols, s₅, hcols, h₁⟩ := Proc.bind_ok.mp h₁
    obtain ⟨src, s₆, -, h₁⟩ := Proc.bind_ok.mp h₁
    split at h₁
    · cases h₁
    · split at h₁
      · cases h₁
      · obtain ⟨f', s₇, hsel, h₁⟩ := Proc.bind_ok.mp h₁
        cases h₁
        intro g hg
        rw [List.mem_singleton.mp hg]
        exact (selectFrame_ok H (Prod.mk.inj hsel).1).2

theorem delete_adds {n : DeleteNode V} {k : Nat} (h : delete H n s = (.ok k, s')) :
    Adds s s' n.table [] := by
  obtain ⟨i, s₁, h₁, h⟩ := Proc.bind_ok.mp h
  obtain ⟨-, rfl⟩ := catalogGet_ok h₁
  obtain ⟨pk, s₂, h₂, h⟩ := Proc.bind_ok.mp h
  obtain ⟨-, rfl⟩ := Prod.mk.inj h₂
  obtain ⟨targets, s₃, h₃, h⟩ := Proc.bind_ok.mp h
  have hq := (keeps_targetsOf n.table n.predicate).apply h₃
  split at h
  · cases h
    exact hq.adds
  · obtain ⟨g, s₄, h₄, h⟩ := Proc.bind_ok.mp h
    obtain ⟨-, rfl⟩ := Prod.mk.inj h₄
    obtain ⟨_, s₅, h₅, h⟩ := Proc.bind_ok.mp h
    cases h
    exact (appendTombstone_adds h₅).after hq

/-- The rows of an UPDATE are complete. -/
theorem update_adds {n : UpdateNode V} {k : Nat} (h : update H n s = (.ok k, s')) :
    ∃ i fs, s.eng.catalog.tables.get? n.table = some i ∧ Adds s s' n.table fs ∧
      ∀ f ∈ fs, Required i f := by
  obtain ⟨i, s₁, h₁, h⟩ := Proc.bind_ok.mp h
  obtain ⟨hi, rfl⟩ := catalogGet_ok h₁
  refine ⟨i, ?_⟩
  obtain ⟨pk, s₂, h₂, h⟩ := Proc.bind_ok.mp h
  obtain ⟨-, rfl⟩ := Prod.mk.inj h₂
  obtain ⟨_, s₃, h₃, h⟩ := Proc.bind_ok.mp h
  have hq₃ := (keeps_refuseInTxn "UPDATE").apply h₃
  obtain ⟨_, s₄, h₄, h⟩ := Proc.bind_ok.mp h
  obtain ⟨-, rfl⟩ := Prod.mk.inj h₄
  obtain ⟨targets, s₅, h₅, h⟩ := Proc.bind_ok.mp h
  have hq := Quiet.trans _ _ _ hq₃ ((keeps_targetsOf n.table n.predicate).apply h₅)
  split at h
  · cases h
    exact ⟨[], hi, hq.adds, by simp⟩
  · obtain ⟨f, s₆, h₆, h⟩ := Proc.bind_ok.mp h
    obtain ⟨hf, rfl⟩ := Prod.mk.inj h₆
    obtain ⟨g, s₇, h₇, h⟩ := Proc.bind_ok.mp h
    obtain ⟨-, rfl⟩ := Prod.mk.inj h₇
    obtain ⟨_, s₈, h₈, h⟩ := Proc.bind_ok.mp h
    cases h
    refine ⟨[f], hi, (flush_adds h₈).after hq, fun g hg => ?_⟩
    rw [List.mem_singleton.mp hg]
    exact (updatedFrame_ok H hf).2

end Statements

/-! ## 4. MERGE -/

/-- What the INSERT of a NOT MATCHED arm provides for a source row. -/
def mergeProvided (cols : List String) (arm : NotMatchedArm V) (rest : Frame V) (r : Row V)
    (c : String) : Option (Except DbError (Cell V)) :=
  match (cols.zip arm.insertValues).find? fun e => decide (e.1 = c) with
  | some e => some (do
      let v ← e.2.eval (Frame.ofRows rest.columns [r])
      return v (restrict rest.columns r))
  | none => none

section Merge

variable [DecidableEq V] {H : Host V} {s s' : Session V} {i : TableInfo V}

/-- The source rows that reach the INSERT of a NOT MATCHED arm. -/
def arriving (n : MergeNode V) (arm : NotMatchedArm V) (src : Frame V) (m : Joined V) :
    Except DbError (Frame V) :=
  if (unmatchedRows n src m).rows.isEmpty then .ok (unmatchedRows n src m)
  else masked arm.condition (unmatchedRows n src m)

/-- The rows `rest` reach the INSERT of the arm when the statement runs in the session. -/
def Arrives (s : Session V) (n : MergeNode V) (arm : NotMatchedArm V) (rest : Frame V) : Prop :=
  ∃ tgt s₁ src s₂ m m', scan n.table none s = (.ok tgt, s₁) ∧ exec n.source s₁ = (.ok src, s₂) ∧
    joinRows n tgt src = .ok m ∧ maskedPairs n.onResidual m = .ok m' ∧
    arriving n arm src m' = .ok rest

/-- The NOT MATCHED arm finds the rows it inserts, and then builds the batch. -/
theorem notMatchedNew_eq {n : MergeNode V} {arm : NotMatchedArm V} {src : Frame V}
    {m : Joined V} : notMatchedNew H i n arm src m = arriving n arm src m >>= fun rest => do
      if rest.rows.isEmpty then return (0, none)
      else
        let cols ← targetColumns i n.table "MERGE INSERT" arm.insertColumns
        if arm.insertValues.length ≠ cols.length then
          .error (.parse ("MERGE INSERT has " ++ toString arm.insertValues.length ++
            " values for " ++ toString cols.length ++ " columns"))
        else
          let rows ← resolveRows i n.table (mergeProvided cols arm rest) 0 rest.rows
          i.columns.forM fun c => coerceColumn H i c rows
          return (rest.rows.length, some (typedRows H i rows)) := by
  unfold notMatchedNew arriving
  simp only
  split <;> rfl

theorem notMatchedNew_iff {n : MergeNode V} {arm : NotMatchedArm V} {src : Frame V} {m : Joined V}
    {a : Nat × Option (Frame V)} (h : notMatchedNew H i n arm src m = .ok a) :
    ∃ rest, arriving n arm src m = .ok rest ∧ ((∀ f ∈ a.2.toList, Required i f) ↔
      Legible H i (mergeProvided (arm.insertColumns.getD i.columns) arm rest) rest.rows) := by
  rw [notMatchedNew_eq] at h
  cases hrest : arriving n arm src m with
  | error y => rw [hrest] at h; cases h
  | ok rest =>
    rw [hrest] at h
    refine ⟨rest, rfl, ?_⟩
    simp only [bind, Except.bind] at h
    split at h
    · rename_i hempty
      cases h
      rw [List.isEmpty_iff] at hempty
      simp [hempty, Legible]
    · split at h
      · cases h
      · rename_i cols hcols
        rw [← targetColumns_ok hcols]
        split at h
        · cases h
        · split at h
          · cases h
          · rename_i rows hrows
            split at h
            · cases h
            · rename_i hcol
              cases h
              rw [← typedRows_iff hrows hcol]
              simp

omit [DecidableEq V] in
theorem combinedNew_iff {u n f : Option (Frame V)} (h : combinedNew i u n = .ok f) :
    (∀ g ∈ f.toList, Required i g) ↔
      (∀ g ∈ u.toList, Required i g) ∧ ∀ g ∈ n.toList, Required i g := by
  have hall : (∀ g ∈ f.toList, Required i g) ↔
      ∀ g ∈ (u.toList ++ n.toList).filter (fun f => !f.rows.isEmpty), Required i g := by
    unfold combinedNew at h
    split at h
    · rename_i hnil
      cases h
      rw [hnil]
      simp
    · split at h
      · cases h
      · rename_i hcat
        cases h
        obtain ⟨-, -, hrows⟩ := Frame.concat_ok hcat
        simp only [Option.toList_some, List.mem_singleton, forall_eq, Required, hrows,
          List.mem_flatMap]
        exact ⟨fun h g hg r hr => h r ⟨g, hg, hr⟩, fun h r ⟨g, hg, hr⟩ => h g hg r hr⟩
  rw [hall, ← List.forall_mem_append]
  constructor
  · intro h g hg r hr
    refine h g (List.mem_filter.mpr ⟨hg, ?_⟩) r hr
    cases hrows : g.rows with
    | nil => rw [hrows] at hr; cases hr
    | cons a l => rfl
  · exact fun h g hg => h g (List.mem_of_mem_filter hg)

/-- The new rows of a MERGE are complete if and only if the INSERT values are legible. -/
theorem mergeFlush_iff {n : MergeNode V} {tgt src : Frame V} {a : Nat × Flush V}
    (h : mergeFlush H i n tgt src = .ok a) : (∀ f ∈ a.2.new.toList, Required i f) ↔
      ∀ arm, n.notMatchedArm = some arm → ∀ m m' rest, joinRows n tgt src = .ok m →
        maskedPairs n.onResidual m = .ok m' → arriving n arm src m' = .ok rest →
        Legible H i (mergeProvided (arm.insertColumns.getD i.columns) arm rest) rest.rows := by
  unfold mergeFlush at h
  cases hm : joinRows n tgt src with
  | error y => rw [hm] at h; cases h
  | ok m =>
    cases hm' : maskedPairs n.onResidual m with
    | error y => simp only [hm, hm', bind, Except.bind] at h; cases h
    | ok m' =>
      simp only [hm, hm', bind, Except.bind] at h
      split at h
      · cases h
      · rename_i b hb
        split at h
        · cases h
        · rename_i b' hb'
          split at h
          · cases h
          · rename_i new hnew
            cases h
            have hmatched : ∀ g ∈ b.2.new.toList, Required i g := by
              intro g hg
              exact (matchedPart_ok H (fun q hq => joinRows_ok hm q (maskedPairs_ok hm' q hq)) hb).1
                g (Option.mem_toList.mp hg)
            have hrest := combinedNew_iff hnew
            rw [and_iff_right hmatched] at hrest
            refine hrest.trans ?_
            unfold notMatchedPart at hb'
            cases harm : n.notMatchedArm with
            | none =>
              rw [harm] at hb'
              cases hb'
              simp
            | some arm =>
              rw [harm] at hb'
              simp only at hb'
              split at hb'
              · rename_i hsrc
                cases hb'
                rw [List.isEmpty_iff] at hsrc
                refine ⟨?_, by simp⟩
                rintro - arm' harm' m₁ m₂ rest h₁ h₂ h₃ r hr
                cases h₁
                rw [hm'] at h₂
                cases h₂
                have hnil : (unmatchedRows n src m').rows = [] := by
                  simp [unmatchedRows, hsrc]
                rw [arriving, hnil] at h₃
                cases h₃
                rw [hnil] at hr
                cases hr
              · obtain ⟨rest, hrest', hiff⟩ := notMatchedNew_iff hb'
                rw [hiff]
                constructor
                · rintro h arm' harm' m₁ m₂ rest' h₁ h₂ h₃
                  cases h₁
                  rw [hm'] at h₂
                  cases h₂
                  cases harm'
                  rw [hrest'] at h₃
                  cases h₃
                  exact h
                · exact fun h => h arm rfl m m' rest rfl hm' hrest'

theorem merge_adds {n : MergeNode V} {k : Nat} (h : merge H n s = (.ok k, s')) :
    ∃ i tgt s₁ src s₂ w, s.eng.catalog.tables.get? n.table = some i ∧
      scan n.table none s = (.ok tgt, s₁) ∧ exec n.source s₁ = (.ok src, s₂) ∧
      mergeFlush H i n tgt src = .ok w ∧ Adds s s' n.table w.2.new.toList := by
  obtain ⟨i, s₁, h₁, h⟩ := Proc.bind_ok.mp h
  obtain ⟨hi, rfl⟩ := catalogGet_ok h₁
  obtain ⟨_, s₂, h₂, h⟩ := Proc.bind_ok.mp h
  obtain ⟨-, rfl⟩ := Prod.mk.inj h₂
  obtain ⟨_, s₃, h₃, h⟩ := Proc.bind_ok.mp h
  have hs₃ : s = s₃ := by
    rw [refuseInTxn, Proc.get_bind] at h₃
    cases hx : s.txn with
    | none =>
      rw [hx] at h₃
      exact (Prod.mk.inj h₃).2
    | some x =>
      rw [hx] at h₃
      cases h₃
  subst hs₃
  obtain ⟨tgt, s₄, h₄, h⟩ := Proc.bind_ok.mp h
  obtain ⟨src, s₅, h₅, h⟩ := Proc.bind_ok.mp h
  have hq := Quiet.trans _ _ _ ((keeps_scan n.table none).apply h₄) ((keeps_exec n.source).apply h₅)
  obtain ⟨w, s₆, h₆, h⟩ := Proc.bind_ok.mp h
  obtain ⟨hw, rfl⟩ := Prod.mk.inj h₆
  refine ⟨i, tgt, s₄, src, s₅, w, hi, h₄, h₅, hw, ?_⟩
  split at h
  · rename_i hnone
    cases h
    simp only [Bool.and_eq_true, Option.isNone_iff_eq_none] at hnone
    rw [hnone.2]
    exact hq.adds
  · obtain ⟨_, s₇, h₇, h⟩ := Proc.bind_ok.mp h
    cases h
    exact (flush_adds h₇).after hq

end Merge

/-! ## 5. Statements -/

section Whole

variable [DecidableEq V] {H : Host V} {s s' : Session V} {st : Stmt V}

/-- No value that the statement supplies, by VALUES, by the INSERT of a NOT MATCHED arm or by a
DEFAULT, for a NOT NULL column is one that the coercion turns into NULL. -/
def SuppliesLegible (H : Host V) (s : Session V) : Stmt V → Prop
  | .insert n => ∀ i, s.eng.catalog.tables.get? n.table = some i →
      Legible H i (valuesProvided (n.columns.getD i.columns)) n.rows
  | .merge n => ∀ i arm rest, s.eng.catalog.tables.get? n.table = some i →
      n.notMatchedArm = some arm → Arrives s n arm rest →
      Legible H i (mergeProvided (arm.insertColumns.getD i.columns) arm rest) rest.rows
  | _ => True

omit [DecidableEq V] in
theorem Adds.forall_required {t : String} {i : TableInfo V} {fs : List (Frame V)}
    (h : Adds s s' t fs) (hi : s.eng.catalog.tables.get? t = some i) :
    (∀ u j, s.eng.catalog.tables.get? u = some j → ∀ f ∈ newBatches s s' u, Required j f) ↔
      ∀ f ∈ fs, Required i f := by
  constructor
  · intro hall f hf
    refine hall t i hi f ?_
    rw [h t, if_pos rfl]
    exact hf
  · intro hfs u j hj f hf
    rw [h u] at hf
    split at hf
    · rename_i hu
      subst hu
      rw [hi] at hj
      cases hj
      exact hfs f hf
    · cases hf

theorem required_iff_legible (hst : st.writes = true) {v : Result V}
    (h : sql H st s = (.ok v, s')) :
    (∀ t i, s.eng.catalog.tables.get? t = some i → ∀ f ∈ newBatches s s' t, Required i f) ↔
      SuppliesLegible H s st := by
  cases st with
  | insert n =>
    obtain ⟨k, s₁, h, hr⟩ := Proc.bind_ok.mp h
    cases hr
    obtain ⟨i, f, hi, hf, hadds⟩ := insert_adds h
    rw [hadds.forall_required hi, List.forall_mem_singleton, valuesFrame_iff hf]
    refine ⟨fun hall j hj => ?_, fun hall => hall i hi⟩
    rw [hi] at hj
    cases hj
    exact hall
  | insertSelect n =>
    obtain ⟨k, s₁, h, hr⟩ := Proc.bind_ok.mp h
    cases hr
    obtain ⟨i, fs, hi, hadds, hreq⟩ := insertSelect_adds h
    rw [hadds.forall_required hi]
    exact ⟨fun _ => trivial, fun _ => hreq⟩
  | delete n =>
    obtain ⟨k, s₁, h, hr⟩ := Proc.bind_ok.mp h
    cases hr
    refine ⟨fun _ => trivial, fun _ u j hj f hf => ?_⟩
    rw [delete_adds h u, ite_self] at hf
    cases hf
  | update n =>
    obtain ⟨k, s₁, h, hr⟩ := Proc.bind_ok.mp h
    cases hr
    obtain ⟨i, fs, hi, hadds, hreq⟩ := update_adds h
    rw [hadds.forall_required hi]
    exact ⟨fun _ => trivial, fun _ => hreq⟩
  | merge n =>
    obtain ⟨k, s₁, h, hr⟩ := Proc.bind_ok.mp h
    cases hr
    obtain ⟨i, tgt, s₂, src, s₃, w, hi, htgt, hsrc, hw, hadds⟩ := merge_adds h
    rw [hadds.forall_required hi, mergeFlush_iff hw]
    constructor
    · rintro hall j arm rest hj harm ⟨tgt', s₂', src', s₃', m, m', h₁, h₂, h₃, h₄, h₅⟩
      rw [hi] at hj
      cases hj
      rw [htgt] at h₁
      cases h₁
      rw [hsrc] at h₂
      cases h₂
      exact hall arm harm m m' rest h₃ h₄ h₅
    · intro hall arm harm m m' rest h₃ h₄ h₅
      exact hall i arm rest hi harm ⟨tgt, s₂, src, s₃, m, m', htgt, hsrc, h₃, h₄, h₅⟩
  | select q => cases hst
  | begin => cases hst
  | commit => cases hst
  | rollback => cases hst
  | createSnapshot name => cases hst
  | restoreToSnapshot name => cases hst
  | rejected e => cases hst

/-- **NOT NULL is enforced exactly when the supplied values are readable.**  For every session and
every write statement that succeeds, the rows it adds hold no NULL in a column declared NOT NULL if
and only if no value it supplies for such a column is turned into NULL by the coercion; the columns
of a declared key are covered as long as they are declared NOT NULL, as declaring the key does. -/
theorem notNull_enforced (hst : st.writes = true) {v : Result V}
    (h : sql H st s = (.ok v, s')) :
    ((∀ t i, s.eng.catalog.tables.get? t = some i → ∀ f ∈ newBatches s s' t, ∀ r ∈ f.rows,
        ∀ c ∈ i.columns, c ∈ i.constraints.notNull → (r c).isSome = true) ↔ SuppliesLegible H s st) ∧
      (SuppliesLegible H s st → ∀ t i p, s.eng.catalog.tables.get? t = some i →
        i.constraints.primaryKey = some p →
        (∀ c ∈ p, c ∈ i.columns ∧ c ∈ i.constraints.notNull) →
        ∀ f ∈ newBatches s s' t, ∀ r ∈ f.rows, ∀ c ∈ p, (r c).isSome = true) := by
  have hiff := required_iff_legible hst h
  refine ⟨hiff, fun hread t i p hi _ hkey f hf r hr c hc => ?_⟩
  obtain ⟨hcol, hnn⟩ := hkey c hc
  exact hiff.mpr hread t i hi f hf r hr c hcol hnn

end Whole

/-! ## 6. An unreadable date -/

/-- A host of two date formats: an even number stands for a date in one and an odd number for a date in
the other, 0 for a text that is no date.  A column has the format of its first value. -/
def dateHost : Host Nat := { natHost with
  coerce := fun ty col v =>
    if ty = .date ∧ (v = 0 ∨ ∃ w ∈ (col.filterMap id).head?, w % 2 ≠ v % 2) then .ok none
    else .ok (some v) }

/-- A data directory with one table `t` whose only column is a date, its primary key. -/
def dateTable : Disk Nat where
  parquet := (∅ : Dict _ _).set ⟨"d", "t.parquet"⟩
    { schema := [⟨"k", .date, true⟩]
      frame := keyFrame []
      names := rfl
      required := by
        intro r _ c hc
        cases hc }
  catalog := some [⟨"t", [⟨"d", "t.parquet"⟩], ⟨["k"], some ["k"], [], ∅⟩⟩]
  wal := none

/-- A connection to a process just started on it. -/
@[irreducible] def dateSession : Session Nat :=
  (World.init dateHost (some "d") dateTable).session 0 {}

theorem dateSession_table {i : TableInfo Nat}
    (hi : dateSession.eng.catalog.tables.get? "t" = some i) :
    i.constraints.primaryKey = some ["k"] ∧ i.columns = ["k"] ∧
      i.constraints.notNull = ["k"] := by
  have hent : (dateSession.eng.catalog.tables.get? "t").map (fun i =>
      (i.constraints.primaryKey, i.columns, i.constraints.notNull)) =
        some (some ["k"], ["k"], ["k"]) := by with_unfolding_all decide
  rw [hi] at hent
  obtain ⟨hp, hrest⟩ := Prod.mk.inj (Option.some.inj hent)
  exact ⟨hp, Prod.mk.inj hrest⟩

set_option maxRecDepth 10000 in
/-- The INSERT succeeds, and the primary key of the row it added is NULL. -/
theorem unreadable_date_inserted :
    (sql dateHost (insertKey "t" 0) dateSession).1.toBool = true ∧
      ∃ i, dateSession.eng.catalog.tables.get? "t" = some i ∧
        i.constraints.primaryKey = some ["k"] ∧ "k" ∈ i.columns ∧ "k" ∈ i.constraints.notNull ∧
        ∃ f ∈ newBatches dateSession (sql dateHost (insertKey "t" 0) dateSession).2 "t",
          ∃ r ∈ f.rows, r "k" = none := by
  have hrow : (newBatches dateSession (sql dateHost (insertKey "t" 0) dateSession).2 "t").any
      (fun f => f.rows.any fun r => (r "k").isNone) = true := by with_unfolding_all decide
  have hsome : (dateSession.eng.catalog.tables.get? "t").isSome = true := by with_unfolding_all decide
  obtain ⟨i, hi⟩ := Option.isSome_iff_exists.mp hsome
  obtain ⟨hp, hcols, hnn⟩ := dateSession_table hi
  obtain ⟨f, hf, hrow⟩ := List.any_eq_true.mp hrow
  obtain ⟨r, hr, hnone⟩ := List.any_eq_true.mp hrow
  exact ⟨by with_unfolding_all decide, i, hi, hp, by rw [hcols]; decide, by rw [hnn]; decide, f, hf, r, hr,
    Option.isNone_iff_eq_none.mp hnone⟩

/-- Two dates in different formats, each of which can be read by itself. -/
def twoDates : Stmt Nat := .insert ⟨"t", none, [[some 2], [some 3]]⟩

set_option maxRecDepth 10000 in
/-- **The second format is not read.**  The INSERT of both dates succeeds, and the second key is NULL. -/
theorem second_format_inserted :
    dateHost.coerce .date [some 2] 2 = .ok (some 2) ∧ dateHost.coerce .date [some 3] 3 = .ok (some 3) ∧
      (sql dateHost twoDates dateSession).1.toBool = true ∧
      (newBatches dateSession (sql dateHost twoDates dateSession).2 "t").flatMap
        (fun f => f.rows.map (· "k")) = [some 2, none] := by
  with_unfolding_all decide

set_option maxRecDepth 10000 in
/-- A date that can be read. -/
theorem notNull_enforced_insert :
    (sql dateHost (insertKey "t" 1) dateSession).1.toBool = true ∧
      ∀ t i, dateSession.eng.catalog.tables.get? t = some i →
        ∀ f ∈ newBatches dateSession (sql dateHost (insertKey "t" 1) dateSession).2 t,
          ∀ r ∈ f.rows, ∀ c ∈ i.columns, c ∈ i.constraints.notNull → (r c).isSome = true := by
  have hok : (sql dateHost (insertKey "t" 1) dateSession).1.toBool = true := by with_unfolding_all decide
  refine ⟨hok, ?_⟩
  rcases hrun : sql dateHost (insertKey "t" 1) dateSession with ⟨v, s'⟩
  rw [hrun] at hok
  cases v with
  | error y => cases hok
  | ok v =>
    refine (notNull_enforced rfl hrun).1.mpr ?_
    intro i hi row hrow c hc hnn v hv hnull
    have hcols : i.columns = ["k"] := (dateSession_table hi).2.1
    rw [List.mem_singleton.mp hrow] at hv
    rw [hcols, List.mem_singleton] at hc
    subst hc
    have hone : v = 1 := by
      rcases hv with hv | ⟨hv, -⟩
      · simp [valuesProvided, hcols, cellOf] at hv
        exact hv.symm
      · simp [valuesProvided, hcols] at hv
    have hcol : suppliedColumn i (valuesProvided ((none : Option (List String)).getD i.columns))
        [[some 1]] "k" = [some 1] := by
      simp [suppliedColumn, suppliedCell, valuesProvided, hcols, cellOf]
    subst hone
    change dateHost.coerce (i.typeOf "k") (suppliedColumn i _ [[some 1]] "k") 1 = .ok none at hnull
    rw [hcol] at hnull
    have hread : dateHost.coerce (i.typeOf "k") [some 1] 1 = .ok (some 1) := if_neg (by simp)
    rw [hread] at hnull
    cases hnull

end Engine

end RyuDB
