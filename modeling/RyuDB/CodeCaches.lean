/-
# The code and key caches

`get_codes` keeps what `factorize` made of a group-key column, `is_unique_key` whether a join key
repeats no value, both under the table and the column alone, while the series that is passed in
depends on what the reader sees and on the filters over its frame.  `Caches` is a world with the two
tables beside it: an act of the world drops the entries that the source drops, and a lookup of any
reader is a move of its own, with the series it passes.

An entry stands for the column of the committed rows (`Caches.means`).  Moves that are `Aligned` keep
it so (`aligned_move`), and then every lookup of the committed column is answered right
(`lookups_right`).

Two things can go wrong with a cache that is keyed by less than it depends on: an entry can outlive
the column it was made from, and a lookup can find an entry that was made from another series.  The
first is a matter of what is dropped, and the acts that drop too little are excluded by `Aligned`.
The second is a matter of who looks up what, and the theorem is about lookups of the committed column.
-/
import RyuDB.CatalogActs
import RyuDB.Lib.Dict

namespace RyuDB

variable {V : Type}

/-! ## 1. What an act drops -/

/-- The statement opens its implicit transaction itself. -/
def Stmt.implicit : Stmt V → Bool
  | .update _ => true
  | .merge _ => true
  | _ => false

/-- The tables that `rewind` returns: those that lose a batch or a tombstone. -/
def DeltaStore.touched (d : DeltaStore V) (ts : Int) : List String :=
  d.tableNames.filter fun t =>
    decide ((d.batchesAtWithTs t ts).length ≠ (d.batchesWithTs t).length) ||
      decide ((d.tombstonesAtWithTs t ts).length ≠ (d.tombstonesWithTs t).length)

namespace Engine

variable (H : Host V)

/-- The calls of `_invalidate_table_caches` for the table `t` of a write statement.  Inside a
transaction the table is dropped where the write is buffered, outside one by `_write_commit` when it
returns, and nothing else moves the counter.  UPDATE and MERGE also drop it when they raise inside
their implicit transaction (`inside`). -/
def writeDrops (t : String) (implicit inside : Bool) (s s' : Session V) :
    Except DbError (Result V) → List String
  | .error _ => if implicit && inside then [t] else []
  | .ok r =>
    match s.txn with
    | none => if s'.eng.commitTs = s.eng.commitTs then [] else [t]
    | some _ =>
      match r with
      | .count n => if n = 0 then [] else [t]
      | _ => []

/-- The calls of `_invalidate_table_caches` of a statement. -/
def sqlDrops (inside : Bool) (st : Stmt V) (s s' : Session V) (r : Except DbError (Result V)) :
    List String :=
  match st.written with
  | some t => writeDrops t st.implicit inside s s' r
  | none =>
    match st, r, s.txn with
    | .commit, .ok _, some x => (commitBatches H x).map Batch.table
    | .rollback, .ok _, some x => x.tableNames
    | .restoreToSnapshot _, .ok _, _ => s.eng.delta.touched s'.eng.commitTs
    | _, _, _ => []

/-- The calls of `_invalidate_table_caches` of an admin action.  A checkpoint makes one for every table
whose delta it cleared, also when it raises later. -/
def adminDrops {α : Type} (a : Admin V) (s s' : Session V) (r : Except DbError α) : List String :=
  match a, r with
  | .drop t, .ok _ => [t]
  | .rename old _, .ok _ => [old]
  | .checkpoint, _ => s.eng.delta.tableNames.filter fun t => !s'.eng.delta.hasUnflushed t
  | .restore _, .ok _ => s.eng.delta.touched s'.eng.commitTs
  | .restoreTo _, .ok _ => s.eng.delta.touched s'.eng.commitTs
  | _, _ => []

end Engine

namespace World

open Engine

variable [DecidableEq V] (H : Host V)

/-- The tables whose entries an act drops. -/
def drops (w : World V) (inside : Bool) : Act V → List String
  | .conn (.sql c st q) =>
    let p := Engine.sql H st (w.session c q)
    sqlDrops H inside st (w.session c q) p.2 p.1
  | .admin a q =>
    let p := runAdmin H w.hasOpenTxn a ⟨w.eng, none, q⟩
    adminDrops a ⟨w.eng, none, q⟩ p.2 p.1
  | _ => []

end World

/-- The act leaves both caches empty: `clear_code_cache`, or a new process. -/
def Act.empties : Act V → Bool
  | .conn .restart => true
  | .admin (.clearCache .code) _ => true
  | .admin (.clearCache .both) _ => true
  | _ => false

/-! ## 2. The caches -/

/-- The world with `_code_cache` and `_pk_cache`.  `C` is what `factorize` returns. -/
structure Caches (V C : Type) where
  world : World V
  codes : Dict (String × String) C
  pks : Dict (String × String) Bool

/-- What happens: an act (with the flag of `writeDrops`), or a lookup of some reader with the series it
passes. -/
inductive Move (V : Type) where
  | act (a : Act V) (inside : Bool)
  | getCodes (t col : String) (series : List (Cell V))
  | isUniqueKey (t col : String) (series : List (Cell V))

/-- `int(series.nunique()) == len(series)`; `nunique` does not count NULL. -/
def nuniqueIsLen [DecidableEq V] (series : List (Cell V)) : Bool :=
  decide ((series.filter Option.isSome).dedup.length = series.length)

namespace Caches

variable {C : Type}

/-- `get_codes`. -/
def getCodes (factorize : List (Cell V) → C) (s : Caches V C) (t col : String)
    (series : List (Cell V)) : C × Caches V C :=
  let p := Memo.lookup factorize s.codes (t, col) series
  (p.1, { s with codes := p.2 })

variable [DecidableEq V]

/-- `is_unique_key`. -/
def isUniqueKey (s : Caches V C) (t col : String) (series : List (Cell V)) : Bool × Caches V C :=
  let p := Memo.lookup nuniqueIsLen s.pks (t, col) series
  (p.1, { s with pks := p.2 })

/-- An act, with `_invalidate_table_caches` for the tables it drops. -/
def act (H : Host V) (s : Caches V C) (a : Act V) (inside : Bool) : Caches V C :=
  let keep : String × String → Bool := fun k =>
    !a.empties && decide (k.1 ∉ s.world.drops H inside a)
  { world := s.world.act H a
    codes := s.codes.filter fun k _ => keep k
    pks := s.pks.filter fun k _ => keep k }

/-- One move. -/
def move (H : Host V) (factorize : List (Cell V) → C) (s : Caches V C) : Move V → Caches V C
  | .act a inside => s.act H a inside
  | .getCodes t col series => (s.getCodes factorize t col series).2
  | .isUniqueKey t col series => (s.isUniqueKey t col series).2

/-- The process just started. -/
def init (H : Host V) (C : Type) (dataDir : Option String) (d : Disk V) : Caches V C :=
  ⟨World.init H dataDir d, ∅, ∅⟩

/-- What an entry stands for: the column of the committed rows. -/
def means (s : Caches V C) (k : String × String) : Option (List (Cell V)) :=
  match Engine.visible s.world.eng k.1 with
  | .ok rows => some (rows.map fun r => r k.2)
  | .error _ => none

/-- No entry of either cache is about the table. -/
def Unkept (s : Caches V C) (t : String) : Prop :=
  ∀ col, s.codes.get? (t, col) = none ∧ s.pks.get? (t, col) = none

end Caches

/-! ## 3. Statements

A write changes the delta of its table, a COMMIT that of the tables its transaction wrote, a restore
that of the tables it cuts back, and each drops the entries of these.  The exception is a restore
whose truncation of the log raises: the delta is cut back by then and no entry is dropped. -/

/-- The two stores agree on a table. -/
def DeltaStore.SameAt (t : String) (d d' : DeltaStore V) : Prop :=
  d'.batchesWithTs t = d.batchesWithTs t ∧ d'.tombstonesWithTs t = d.tombstonesWithTs t

theorem DeltaStore.SameAt.refl (t : String) (d : DeltaStore V) : d.SameAt t d := ⟨rfl, rfl⟩

theorem DeltaStore.sameAt_of_eq {t : String} {d d' : DeltaStore V} (h : d' = d) : d.SameAt t d' := by
  rw [h]
  exact SameAt.refl t d

/-- Batches of other tables leave a table alone. -/
theorem DeltaStore.sameAt_addAll {t : String} (d : DeltaStore V) (ts : Int) {bs : List (Batch V)}
    (hi : insertsOf t bs = []) (ht : tombsOf t bs = []) : d.SameAt t (d.addAll ts bs) := by
  refine ⟨?_, ?_⟩
  · rw [batchesWithTs_addAll, hi, List.map_nil, List.append_nil]
  · rw [tombstonesWithTs_addAll, ht, List.map_nil, List.append_nil]

/-- A table that loses nothing keeps its batches. -/
theorem DeltaStore.sameAt_rewind {t : String} (d : DeltaStore V) {ts : Int} (h : t ∉ d.touched ts) :
    d.SameAt t (d.rewind ts) := by
  have hsame : ∀ {β : Type} (l : List β) (p : β → Bool), (l.filter p).length = l.length →
      l.filter p = l := fun l p hl => List.Sublist.eq_of_length List.filter_sublist hl
  by_cases hd : t ∈ d.tableNames
  · have hlen : ¬ (decide ((d.batchesAtWithTs t ts).length ≠ (d.batchesWithTs t).length) ||
        decide ((d.tombstonesAtWithTs t ts).length ≠ (d.tombstonesWithTs t).length)) = true :=
      fun hp => h (List.mem_filter.mpr ⟨hd, hp⟩)
    simp only [Bool.or_eq_true, decide_eq_true_eq, not_or, not_not] at hlen
    refine ⟨?_, ?_⟩
    · rw [batchesWithTs_rewind]
      rw [batchesAtWithTs_eq] at hlen ⊢
      exact hsame _ _ hlen.1
    · rw [tombstonesWithTs_rewind]
      rw [tombstonesAtWithTs_eq] at hlen ⊢
      exact hsame _ _ hlen.2
  · rw [mem_tableNames, hasUnflushed_iff, not_or, not_not, not_not] at hd
    refine ⟨?_, ?_⟩
    · rw [batchesWithTs_rewind, batchesAtWithTs_eq, hd.1, List.filter_nil]
    · rw [tombstonesWithTs_rewind, tombstonesAtWithTs_eq, hd.2, List.filter_nil]

namespace Engine

variable {H : Host V} {s s₁ s' : Session V} {t : String}

/-- The store changes only when the code returns outside a transaction, with the next timestamp, and
then only at `t`. -/
def Tells {α : Type} (t : String) (x : Op V α) (s : Session V) : Prop :=
  (x s).2.eng.delta = s.eng.delta ∨ (∃ a, (x s).1 = .ok a) ∧ s.txn = none ∧
    (x s).2.eng.commitTs = s.eng.commitTs + 1 ∧ ∀ u, u ≠ t → s.eng.delta.SameAt u (x s).2.eng.delta

theorem Tells.of_keeps {α : Type} {x : Op V α} (h : Proc.Keeps Quiet x) : Tells t x s :=
  Or.inl (h s).delta

theorem Tells.bind {α β : Type} {x : Op V α} {f : α → Op V β} (hx : Proc.Keeps Quiet x)
    (hf : ∀ a s₁, Quiet s s₁ → Tells t (f a) s₁) : Tells t (x >>= f) s := by
  rcases h : x s with ⟨r, s₁⟩
  have hq : Quiet s s₁ := hx.apply h
  cases r with
  | error y =>
    left
    rw [Proc.bind_of_error h]
    exact hq.delta
  | ok a =>
    unfold Tells
    rw [Proc.bind_of_ok h, ← hq.delta, ← hq.txn, ← hq.commitTs]
    exact hf a s₁ hq

theorem Tells.map {α β : Type} {x : Op V α} (h : Tells t x s) (f : α → β) :
    Tells t (do let a ← x; return f a : Op V β) s := by
  unfold Tells at h ⊢
  rcases hx : x s with ⟨r, s₁⟩
  rw [hx] at h
  cases r with
  | error y =>
    rw [Proc.bind_of_error hx]
    rcases h with h | ⟨⟨a, ha⟩, -⟩
    · exact Or.inl h
    · cases ha
  | ok a =>
    rw [Proc.bind_of_ok hx]
    rcases h with h | ⟨-, h⟩
    · exact Or.inl h
    · exact Or.inr ⟨⟨_, rfl⟩, h⟩

/-- `_write_commit` of batches for `t`. -/
theorem writeCommit_tells (hx : s.txn = none) {bs : List (Batch V)}
    (hbs : ∀ u, u ≠ t → insertsOf u bs = [] ∧ tombsOf u bs = []) : Tells t (writeCommit H bs) s := by
  have hwrote := writeCommit_wrote H bs s
  unfold Tells
  generalize writeCommit H bs s = p at hwrote
  cases hwrote with
  | error y wal => exact Or.inl rfl
  | ok wal =>
    exact Or.inr ⟨⟨_, rfl⟩, hx, rfl, fun u hu =>
      DeltaStore.sameAt_addAll _ _ (hbs u hu).1 (hbs u hu).2⟩

theorem single_elsewhere (b : Batch V) {u : String} (hu : u ≠ b.table) :
    insertsOf u [b] = [] ∧ tombsOf u [b] = [] := by
  have hu' : ¬ b.table = u := fun h => hu h.symm
  simp [insertsOf, tombsOf, hu']

theorem appendFrame_tells (f : Frame V) : Tells t (appendFrame H t f) s := by
  cases hx : s.txn with
  | some x =>
    left
    rw [appendFrame_txn H hx]
  | none =>
    have h : Tells t (writeCommit H [⟨t, .insert, f⟩]) s :=
      writeCommit_tells hx fun u hu => single_elsewhere _ hu
    have heq : appendFrame H t f s =
        (do let _ ← writeCommit H [⟨t, .insert, f⟩]; return () : Op V Unit) s := by
      rw [appendFrame, Proc.get_bind, hx]
    rw [Tells, heq]
    exact h.map fun _ => ()

theorem appendTombstone_tells (g : Frame V) : Tells t (appendTombstone H t g) s := by
  cases hx : s.txn with
  | some x =>
    left
    rw [appendTombstone_txn H hx]
  | none =>
    have h : Tells t (writeCommit H [⟨t, .tombstone, g⟩]) s :=
      writeCommit_tells hx fun u hu => single_elsewhere _ hu
    have heq : appendTombstone H t g s =
        (do let _ ← writeCommit H [⟨t, .tombstone, g⟩]; return () : Op V Unit) s := by
      rw [appendTombstone, Proc.get_bind, hx]
    rw [Tells, heq]
    exact h.map fun _ => ()

variable [DecidableEq V]

/-- The implicit transaction holds writes to its table only. -/
theorem flush_tells (hx : s.txn = none) (w : Flush V) : Tells t (flush H t w) s := by
  unfold Tells
  rw [flush_eq]
  rcases hb : bufferNew t w.new
    { s with txn := some (w.tombed t { snapshotTs := s.eng.commitTs }) } with ⟨r, s₁⟩
  cases r with
  | error y =>
    left
    have ha : Aside { s with txn := some (w.tombed t { snapshotTs := s.eng.commitTs }) } s₁ :=
      (keeps_bufferNew t w.new).apply hb
    simp only [Proc.onError, Proc.bind_of_error hb]
    exact ha.delta
  | ok u =>
    obtain ⟨s₂, hq, rfl⟩ := bufferNew_slot rfl hb
    rw [withNew_tombed] at hb
    generalize hxt : w.buffered t { snapshotTs := s.eng.commitTs } = xt at hb
    have hbs : ∀ u, u ≠ t → insertsOf u (commitBatches H xt) = [] ∧
        tombsOf u (commitBatches H xt) = [] := by
      intro u hu
      obtain ⟨hi, ht⟩ := commitBatches_carries H xt u
      rw [hi, ht, ← hxt]
      simp [hu]
    have htells := writeCommit_tells (H := H) (s := { s₂ with txn := none }) rfl hbs
    have hdelta : s₂.eng.delta = s.eng.delta := hq.delta
    have hts : s₂.eng.commitTs = s.eng.commitTs := hq.commitTs
    have hw := writeCommit_txn H (s := { s₂ with txn := none }) (commitBatches H xt) (some xt)
    rcases hrun : writeCommit H (commitBatches H xt) { s₂ with txn := none } with ⟨v, s₃⟩
    rw [hrun] at hw
    have hrun' : writeCommit H (commitBatches H xt) { s₂ with txn := some xt } =
        (v, { s₃ with txn := some xt }) := Prod.ext hw.2 hw.1
    rw [Tells, hrun] at htells
    simp only [hdelta, hts] at htells
    cases v with
    | error y =>
      have hcommit : commit H { s₂ with txn := some xt } = (.error y, { s₃ with txn := some xt }) := by
        rw [commit_of_txn H rfl, hrun']
      simp only [Proc.onError, Proc.bind_of_ok hb, hcommit]
      rcases htells with h | ⟨⟨a, ha⟩, -⟩
      · exact Or.inl h
      · cases ha
    | ok ts =>
      have hcommit : commit H { s₂ with txn := some xt } = (.ok (), { s₃ with txn := none }) := by
        rw [commit_of_txn H rfl, hrun']
      simp only [Proc.onError, Proc.bind_of_ok hb, hcommit]
      rcases htells with h | ⟨-, -, h⟩
      · exact Or.inl h
      · exact Or.inr ⟨⟨(), trivial⟩, hx, h⟩

omit [DecidableEq V] in
theorem closed_tells : Closed fun {α : Type} (x : Op V α) => ∀ s, Tells t x s where
  read hx _ := Tells.of_keeps hx
  bind hx hf _ := Tells.bind hx fun a s₁ _ => hf a s₁
  map f hx s := (hx s).map f

omit [DecidableEq V] in
/-- The same where no transaction is open. -/
theorem closed_tellsOut : Closed fun {α : Type} (x : Op V α) => ∀ s, s.txn = none → Tells t x s where
  read hx _ _ := Tells.of_keeps hx
  bind hx hf _ ho := Tells.bind hx fun a s₁ hq => hf a s₁ (hq.txn.trans ho)
  map f hx s ho := (hx s ho).map f

omit [DecidableEq V] in
theorem tells_refuseInTxn {α : Type} (statement : String) {f : Unit → Op V α}
    (hf : s.txn = none → Tells t (f ()) s) : Tells t (refuseInTxn statement >>= f) s := by
  cases hx : s.txn with
  | none =>
    have hok : refuseInTxn statement s = (.ok (), s) := by rw [refuseInTxn, Proc.get_bind, hx]; rfl
    rw [Tells, Proc.bind_of_ok hok]
    exact hf hx
  | some x =>
    left
    have hraise : ∃ y, refuseInTxn statement s = (.error y, s) := by
      rw [refuseInTxn, Proc.get_bind, hx]
      exact ⟨_, rfl⟩
    obtain ⟨y, hy⟩ := hraise
    rw [Proc.bind_of_error hy]

theorem shaped_tells : Shaped H t (fun {α : Type} (x : Op V α) => ∀ s, Tells t x s)
    (fun {α : Type} (x : Op V α) => ∀ s, s.txn = none → Tells t x s) where
  closed := closed_tells
  closedOut := closed_tellsOut
  refuse statement _ hf s := tells_refuseInTxn statement (hf s)
  appendFrame f _ := appendFrame_tells f
  appendTombstone g _ := appendTombstone_tells g
  flush w _ ho := flush_tells ho w

omit [DecidableEq V] in
theorem sqlDrops_written {st : Stmt V} (hst : st.written = some t) (inside : Bool)
    (r : Except DbError (Result V)) :
    sqlDrops H inside st s s' r = writeDrops t st.implicit inside s s' r := by
  unfold sqlDrops
  rw [hst]

/-- **A write statement that changes a table in the delta drops its entries.** -/
theorem write_sameAt {st : Stmt V} {u : String} (hst : st.written = some t) {inside : Bool}
    (hu : u ∉ sqlDrops H inside st s (sql H st s).2 (sql H st s).1) :
    s.eng.delta.SameAt u (sql H st s).2.eng.delta := by
  rcases shaped_tells.sql hst s with h | ⟨⟨a, ha⟩, hx, hts, h⟩
  · exact DeltaStore.sameAt_of_eq h
  · refine h u fun hut => hu ?_
    have hne : ¬ (sql H st s).2.eng.commitTs = s.eng.commitTs := by omega
    rw [sqlDrops_written hst, ha]
    simp only [writeDrops, hx, if_neg hne, hut, List.mem_singleton]

omit [DecidableEq V] in
theorem elsewhere_of_tables {bs : List (Batch V)} {u : String} (h : u ∉ bs.map Batch.table) :
    insertsOf u bs = [] ∧ tombsOf u bs = [] := by
  have hnone : ∀ b ∈ bs, ¬ b.table = u := fun b hb heq => h (List.mem_map.mpr ⟨b, hb, heq⟩)
  constructor
  · rw [insertsOf, List.filter_eq_nil_iff.mpr fun b hb => by simp [hnone b hb], List.map_nil]
  · rw [tombsOf, List.filter_eq_nil_iff.mpr fun b hb => by simp [hnone b hb], List.map_nil]

/-- COMMIT drops the entries of the tables it wrote. -/
theorem commit_sameAt {u : String} {inside : Bool}
    (hu : u ∉ sqlDrops H inside .commit s (sql H .commit s).2 (sql H .commit s).1) :
    s.eng.delta.SameAt u (sql H .commit s).2.eng.delta := by
  cases hx : s.txn with
  | none =>
    have hraise : (sql H .commit s).2 = s := by
      rw [sql, state_map (commit H) fun _ => (Result.none : Result V), commit, Proc.get_bind, hx]
      rfl
    rw [hraise]
    exact DeltaStore.SameAt.refl u _
  | some x =>
    cases hr : (sql H .commit s).1 with
    | error y => exact DeltaStore.sameAt_of_eq (sql_commit_error hx hr).1
    | ok v =>
      obtain ⟨e', hs', hcom, -, -⟩ := sql_commit_ok hx hr
      have hmem : u ∉ (commitBatches H x).map Batch.table := by
        simpa only [sqlDrops, Stmt.written, hr, hx] using hu
      obtain ⟨hi, ht⟩ := elsewhere_of_tables hmem
      rw [hs']
      simp only [hcom.delta]
      exact DeltaStore.sameAt_addAll _ _ hi ht

omit [DecidableEq V] in
/-- A restore that the log does not stop is refused or goes through. -/
theorem restoreTo_cases (hq : s.faults.truncate = false) (ts : Int) :
    (∃ y, restoreTo ts s = (.error y, s)) ∨ ts ≤ s.eng.commitTs ∧ ∃ s', restoreTo ts s = (.ok (), s') ∧
      s'.eng.delta = s.eng.delta.rewind ts ∧ s'.eng.commitTs = ts := by
  have htr : ∀ s₁ : Session V, s₁.faults.truncate = false → ∃ wal, walTruncate ts s₁ =
      (.ok (), { s₁ with eng := { s₁.eng with disk := { s₁.eng.disk with wal := wal } } }) := by
    intro s₁ h₁
    by_cases hen : s₁.eng.walEnabled = true
    · exact ⟨_, walTruncate_done hen h₁ ts⟩
    · exact ⟨s₁.eng.disk.wal, by rw [walTruncate, if_neg hen]⟩
  cases hx : s.txn with
  | some x =>
    left
    rw [restoreTo, Proc.get_bind, hx]
    exact ⟨_, rfl⟩
  | none =>
    by_cases hle : ts ≤ s.eng.commitTs
    · right
      obtain ⟨wal, hwal⟩ := htr { s with eng := { s.eng with
        delta := s.eng.delta.rewind ts, commitTs := ts } } hq
      have hok : (restoreTo ts s).1 = .ok () := by
        rw [restoreTo, Proc.get_bind, hx]
        simp only
        rw [if_neg (by omega), Proc.modify_bind, Proc.bind_of_ok hwal]
        rfl
      obtain ⟨log, snapshots, hs', -⟩ := restoreTo_state hx hle
      exact ⟨hle, _, Prod.ext hok hs', rfl, rfl⟩
    · left
      rw [restoreTo, Proc.get_bind, hx]
      simp only
      rw [if_pos (by omega)]
      exact ⟨_, rfl⟩

omit [DecidableEq V] in
/-- What `restore` does, given that the log does not stop it. -/
theorem restore_cases (hq : s.faults.truncate = false) (name : String) :
    (∃ y, restore name s = (.error y, s)) ∨ ∃ ts s', restore name s = restoreTo ts s ∧
      ts ≤ s.eng.commitTs ∧ restoreTo ts s = (.ok (), s') ∧
      s'.eng.delta = s.eng.delta.rewind ts ∧ s'.eng.commitTs = ts := by
  unfold restore
  rw [Proc.get_bind]
  cases s.eng.snapshots.get? name with
  | none => exact Or.inl ⟨_, rfl⟩
  | some ts =>
    rcases restoreTo_cases hq ts with h | ⟨hle, s', h⟩
    · exact Or.inl h
    · exact Or.inr ⟨ts, s', rfl, hle, h⟩

/-- **A statement leaves the delta of every table alone whose entries it does not drop.** -/
theorem sql_sameAt {st : Stmt V} {u : String} {inside : Bool}
    (hq : ∀ name, st = .restoreToSnapshot name → s.faults.truncate = false)
    (hu : u ∉ sqlDrops H inside st s (sql H st s).2 (sql H st s).1) :
    s.eng.delta.SameAt u (sql H st s).2.eng.delta := by
  cases st with
  | insert n => exact write_sameAt rfl hu
  | insertSelect n => exact write_sameAt rfl hu
  | delete n => exact write_sameAt rfl hu
  | update n => exact write_sameAt rfl hu
  | merge n => exact write_sameAt rfl hu
  | commit => exact commit_sameAt hu
  | select q =>
    rw [sql, state_map]
    exact DeltaStore.sameAt_of_eq (keeps_exec q s).delta
  | begin =>
    rw [sql, state_map begin_ fun _ => (Result.none : Result V), begin_]
    split <;> exact DeltaStore.SameAt.refl u _
  | rollback =>
    rw [sql, state_map rollback fun _ => (Result.none : Result V), rollback]
    split <;> exact DeltaStore.SameAt.refl u _
  | createSnapshot name => exact DeltaStore.SameAt.refl u _
  | rejected e => exact DeltaStore.SameAt.refl u _
  | restoreToSnapshot name =>
    rcases restore_cases (hq name rfl) name with ⟨y, h⟩ | ⟨ts, s', h, -, hback, hd, hts⟩
    · rw [sql, Proc.bind_of_error h]
      exact DeltaStore.SameAt.refl u _
    · have hok : sql H (.restoreToSnapshot name) s = (.ok .none, s') := by
        rw [sql, Proc.bind_of_ok (h.trans hback)]
        rfl
      rw [hok] at hu ⊢
      have hmem : u ∉ s.eng.delta.touched ts := by
        simpa only [sqlDrops, Stmt.written, hts] using hu
      rw [hd]
      exact DeltaStore.sameAt_rewind _ hmem

end Engine

/-! ## 4. Acts -/

namespace Engine

variable [DecidableEq V] {e e' : Engine V} {t : String}

theorem entry_of_visible (hc : Coherent e) {rows : List (Row V)} (h : visible e t = .ok rows) :
    ∃ i, e.catalog.tables.get? t = some i := by
  rw [visible_eq hc, look_none] at h
  cases hb : lookBase e t none with
  | error x =>
    rw [hb] at h
    cases h
  | ok f =>
    obtain ⟨i, hi, -⟩ := get_of_lookBase hb
    exact ⟨i, hi⟩

/-- **A table shows the same** while its files, its delta and the key its tombstones need are the same. -/
theorem visible_of_entry (hc : Coherent e) (hc' : Coherent e') {i j : TableInfo V}
    (hi : e.catalog.tables.get? t = some i) (hj : e'.catalog.tables.get? t = some j)
    (hp : j.paths = i.paths)
    (hd : ∀ p ∈ i.paths, e'.disk.parquet.get? p = e.disk.parquet.get? p)
    (hs : e.delta.SameAt t e'.delta)
    (hk : e.delta.tombstonesWithTs t = [] ∨ j.constraints.primaryKey = i.constraints.primaryKey) :
    visible e' t = visible e t := by
  have hlook : look e' none t none = look e none t none :=
    look_eq_of_entries (x := none) hi hj hp hd hs.1 hs.2 hk
  rw [visible_eq hc, visible_eq hc', hlook]

/-- The same for a table that kept its entry and its files. -/
theorem visible_of_same (hc : Coherent e) (hc' : Coherent e')
    (hcat : e'.catalog.tables.get? t = e.catalog.tables.get? t)
    (hfiles : e'.disk.parquet = e.disk.parquet) (hs : e.delta.SameAt t e'.delta)
    {rows : List (Row V)} (h : visible e t = .ok rows) : visible e' t = .ok rows := by
  obtain ⟨i, hi⟩ := entry_of_visible hc h
  rw [← h]
  exact visible_of_entry hc hc' hi (hcat.trans hi) rfl (fun p _ => by rw [hfiles]) hs (Or.inr rfl)

end Engine

namespace World

open Engine

variable [DecidableEq V] {H : Host V} {w : World V} {kept : String → Prop}

/-- The act changes no table behind the back of the entries about the tables `kept`: a name that is
registered over has neither an entry nor a cached frame, the key of a table with entries changes only
while no tombstone names it, a checkpoint folds separate tables, the log does not stop a restore, and no
aggregate of a statement writes into a cached frame. -/
def Aligned (w : World V) (kept : String → Prop) : Act V → Prop
  | .conn (.sql _ st q) => q.writesBack = false ∧ ∀ name, st = .restoreToSnapshot name →
      q.truncate = false
  | .admin (.register t _) _ => Uncached w.eng t ∧ ¬ kept t
  | .admin (.alter t a) _ => kept t → ∀ i, w.eng.catalog.tables.get? t = some i →
      (a.change i.constraints).primaryKey ≠ i.constraints.primaryKey →
        w.eng.delta.tombstonesWithTs t = []
  | .admin .checkpoint _ => w.hasOpenTxn = false → Separate w.eng
  | .admin (.restore _) q => q.truncate = false
  | .admin (.restoreTo _) q => q.truncate = false
  | .upload t p _ => w.eng.disk.parquet.get? p = none ∧ Uncached w.eng t ∧ ¬ kept t
  | _ => True

theorem housed_admin (h : Housed w.eng) {a : Admin V} {q : Faults}
    (ha : Aligned w kept (.admin a q)) : Housed (w.admin H a q).2.eng := by
  change Housed (runAdmin H w.hasOpenTxn a ⟨w.eng, none, q⟩).2.eng
  have hcases := runAdmin_cases (H := H) (s := ⟨w.eng, none, q⟩) w.hasOpenTxn rfl a
  generalize (runAdmin H w.hasOpenTxn a ⟨w.eng, none, q⟩).2.eng = e at hcases ⊢
  cases hcases with
  | refused => exact h
  | register hi => exact h.register hi ha.1
  | drop => exact h.drop _
  | rename hi hnew => exact h.rename hi hnew
  | alter hi => exact h.alter hi _
  | checkpoint ho =>
    obtain ⟨ts, e, hf, he | he⟩ := checkpoint_folded (H := H) (s := ⟨w.eng, none, q⟩) h rfl (ha ho)
    · rw [he]
      exact hf.housed h
    · rw [he]
      exact (hf.housed h).fixed rfl rfl rfl hf.coherent
  | snapshot name => exact h.fixed rfl rfl rfl h.coherent
  | restore ho hn hle => exact h.restoreTo (s := ⟨w.eng, none, q⟩) rfl hle
  | restoreTo ho hle => exact h.restoreTo (s := ⟨w.eng, none, q⟩) rfl hle
  | clearCache which =>
    split
    · exact h
    · refine h.fixed rfl rfl rfl ?_
      intro t cols f hf
      cases hf

/-- **Aligned acts keep memory and files together.** -/
theorem housed_act (h : Housed w.eng) {a : Act V} (ha : Aligned w kept a) :
    Housed (w.act H a).eng := by
  cases a with
  | conn a =>
    cases a with
    | sql c st q =>
      obtain ⟨s', he, hs'⟩ := World.sql_effect H h.coherent c st ha.1
      obtain ⟨hcat, hfiles, hsaved⟩ := effect_fixed he
      change Housed (w.sql H c st q).2.eng
      rw [hs', store_eng]
      exact h.fixed hcat hfiles hsaved
        (coherent_effect (s := w.session c q) ⟨h.coherent, ha.1⟩ he)
    | disconnect c => exact h
    | restart => exact h.start
  | admin a q => exact housed_admin h ha
  | upload t p payload =>
    obtain ⟨hfresh, hun, -⟩ := ha
    change Housed (runUpload t p payload ⟨w.eng, none, {}⟩).2.eng
    rcases runUpload_cases (s := ⟨w.eng, none, {}⟩) t p payload hfresh with
      ⟨d, hd, he⟩ | ⟨data, i, -, hi, he⟩
    · rw [he]
      exact h.withFiles fun q f hq => by rw [hd q]; exact hq
    · rw [he]
      exact (h.withFiles fun q f => Files.get?_set_fresh hfresh data).register hi hun

section Shows

variable {rows : List (Row V)} {t : String} {inside : Bool}

/-- A restore shows a table that loses nothing the same. -/
theorem restored_shows (hh : Housed w.eng) {s' : Session V} {q : Faults} {ts : Int}
    (hle : ts ≤ w.eng.commitTs) (hs : (restoreTo ts ⟨w.eng, none, q⟩).2 = s')
    (ht : t ∉ w.eng.delta.touched ts) (h : visible w.eng t = .ok rows) :
    visible s'.eng t = .ok rows := by
  have hc' : Coherent s'.eng := by
    rw [← hs]
    exact (hh.restoreTo (s := ⟨w.eng, none, q⟩) rfl hle).coherent
  obtain ⟨wal, snapshots, hstate, -⟩ := restoreTo_state (s := ⟨w.eng, none, q⟩) rfl hle
  rw [hs] at hstate
  subst hstate
  exact visible_of_same hh.coherent hc' rfl rfl (DeltaStore.sameAt_rewind _ ht) h

omit [DecidableEq V] in
/-- The answer of a part that only computes it from what another part returned. -/
theorem bind_pure_answer {α β : Type} {x : Op V α} {f : α → β} {s s' : Session V} {a : α}
    (h : x s = (.ok a, s')) : (do let a ← x; return f a : Op V β) s = (.ok (f a), s') := by
  rw [Proc.bind_of_ok h]
  rfl

/-- A drop shows the other tables the same. -/
theorem drop_shows (hc : Coherent w.eng) {b : Bool} {u : String} {q : Faults}
    (hc' : Coherent (runAdmin H b (.drop u) ⟨w.eng, none, q⟩).2.eng)
    (hd : t ∉ adminDrops (.drop u) ⟨w.eng, none, q⟩ (runAdmin H b (.drop u) ⟨w.eng, none, q⟩).2
      (runAdmin H b (.drop u) ⟨w.eng, none, q⟩).1)
    (h : visible w.eng t = .ok rows) :
    visible (runAdmin H b (.drop u) ⟨w.eng, none, q⟩).2.eng t = .ok rows := by
  rcases changeCatalog_cases (f := fun c d => c.dropTable d u) ⟨w.eng, none, q⟩ with
    ⟨x, hr⟩ | ⟨c, d, hf, hr⟩
  · have hrun : runAdmin H b (.drop u) ⟨w.eng, none, q⟩ =
        (.error x, ⟨w.eng, none, q⟩) := Proc.bind_of_error hr
    rw [hrun]
    exact h
  · have hrun : runAdmin H b (.drop u) ⟨w.eng, none, q⟩ = (.ok .dropped,
        ⟨({ w.eng with catalog := c, disk := d }).dropScanCacheFor u, none, q⟩) :=
      Proc.bind_of_ok hr
    rw [hrun] at hd hc' ⊢
    have hne : t ≠ u := fun heq => hd (List.mem_singleton.mpr heq)
    obtain ⟨rfl, rfl⟩ := Catalog.dropTable_ok hf
    refine visible_of_same hc hc' ?_ withTables_parquet (DeltaStore.SameAt.refl t _) h
    exact (Dict.get?_erase _ _ _).trans (if_neg hne)

/-- So does a rename: its new name is free. -/
theorem rename_shows (hc : Coherent w.eng) {b : Bool} {old new : String} {q : Faults}
    (hc' : Coherent (runAdmin H b (.rename old new) ⟨w.eng, none, q⟩).2.eng)
    (hd : t ∉ adminDrops (.rename old new) ⟨w.eng, none, q⟩
      (runAdmin H b (.rename old new) ⟨w.eng, none, q⟩).2
      (runAdmin H b (.rename old new) ⟨w.eng, none, q⟩).1)
    (h : visible w.eng t = .ok rows) :
    visible (runAdmin H b (.rename old new) ⟨w.eng, none, q⟩).2.eng t = .ok rows := by
  obtain ⟨i, hi⟩ := entry_of_visible hc h
  rcases changeCatalog_cases (f := fun c d => c.renameTable d old new) ⟨w.eng, none, q⟩ with
    ⟨x, hr⟩ | ⟨c, d, hf, hr⟩
  · have hrun : runAdmin H b (.rename old new) ⟨w.eng, none, q⟩ =
        (.error x, ⟨w.eng, none, q⟩) := Proc.bind_of_error hr
    rw [hrun]
    exact h
  · have hrun : runAdmin H b (.rename old new) ⟨w.eng, none, q⟩ = (.ok .renamed,
        ⟨({ w.eng with catalog := c, disk := d }).dropScanCacheFor old, none, q⟩) :=
      Proc.bind_of_ok hr
    rw [hrun] at hd hc' ⊢
    have hne : t ≠ old := fun heq => hd (List.mem_singleton.mpr heq)
    obtain ⟨j, hj, hnew, rfl, rfl⟩ := Catalog.renameTable_ok hf
    have hne' : t ≠ new := by
      rintro rfl
      rw [hnew] at hi
      cases hi
    refine visible_of_same hc hc' ?_ withTables_parquet (DeltaStore.SameAt.refl t _) h
    change ((w.eng.catalog.tables.erase old).set new { j with name := new }).get? t = _
    rw [Dict.get?_set, Dict.get?_erase, if_neg hne', if_neg hne]

/-- An ALTER shows the other tables the same, and its own when the key stays or no tombstone is there. -/
theorem alter_shows (hc : Coherent w.eng) {b : Bool} {u : String} {a : Alter V} {q : Faults}
    (hc' : Coherent (runAdmin H b (.alter u a) ⟨w.eng, none, q⟩).2.eng)
    (ha : t = u → ∀ j, w.eng.catalog.tables.get? u = some j →
      (a.change j.constraints).primaryKey ≠ j.constraints.primaryKey →
        w.eng.delta.tombstonesWithTs u = [])
    (h : visible w.eng t = .ok rows) :
    visible (runAdmin H b (.alter u a) ⟨w.eng, none, q⟩).2.eng t = .ok rows := by
  have hcases := runAdmin_cases (H := H) (s := ⟨w.eng, none, q⟩) b rfl (.alter u a)
  generalize (runAdmin H b _ ⟨w.eng, none, q⟩).2.eng = e at hcases hc' ⊢
  cases hcases with
  | refused => exact h
  | @alter _ _ j hj =>
    have hget : ∀ v, (w.eng.catalog.tables.set u { j with
        constraints := a.change j.constraints }).get? v =
          if v = u then some { j with constraints := a.change j.constraints }
          else w.eng.catalog.tables.get? v := fun v => Dict.get?_set _ _ _ _
    by_cases hut : t = u
    · subst hut
      rw [← h]
      refine visible_of_entry hc hc' hj ((hget t).trans (if_pos rfl)) rfl
        (fun p _ => by rw [withTables_parquet]) (DeltaStore.SameAt.refl t _) ?_
      by_cases hkey : (a.change j.constraints).primaryKey = j.constraints.primaryKey
      · exact Or.inr hkey
      · exact Or.inl (ha rfl j hj hkey)
    · exact visible_of_same hc hc' ((hget t).trans (if_neg hut)) withTables_parquet
        (DeltaStore.SameAt.refl t _) h

/-- A restore shows a table the same that it takes nothing from. -/
theorem restore_shows (hh : Housed w.eng) {b : Bool} {name : String} {q : Faults} (ha : q.truncate = false)
    (hd : t ∉ adminDrops (.restore name) ⟨w.eng, none, q⟩ (runAdmin H b (.restore name) ⟨w.eng, none, q⟩).2
      (runAdmin H b (.restore name) ⟨w.eng, none, q⟩).1)
    (h : visible w.eng t = .ok rows) :
    visible (runAdmin H b (.restore name) ⟨w.eng, none, q⟩).2.eng t = .ok rows := by
  cases b with
  | true => exact h
  | false =>
    rcases restore_cases (s := ⟨w.eng, none, q⟩) ha name with
      ⟨x, hr⟩ | ⟨ts, s', hr, hle, hback, -, hts⟩
    · have hrun : runAdmin H false (.restore name) ⟨w.eng, none, q⟩ =
          (.error x, ⟨w.eng, none, q⟩) := Proc.bind_of_error hr
      rw [hrun]
      exact h
    · have hrun : runAdmin H false (.restore name) ⟨w.eng, none, q⟩ = (.ok .restored, s') :=
        bind_pure_answer (hr.trans hback)
      rw [hrun] at hd
      rw [hrun]
      refine restored_shows hh hle (by rw [hback]) ?_ h
      simpa only [adminDrops, hts] using hd

/-- So does a restore to a timestamp. -/
theorem restoreTo_shows (hh : Housed w.eng) {b : Bool} {ts : Int} {q : Faults} (ha : q.truncate = false)
    (hd : t ∉ adminDrops (.restoreTo ts) ⟨w.eng, none, q⟩ (runAdmin H b (.restoreTo ts) ⟨w.eng, none, q⟩).2
      (runAdmin H b (.restoreTo ts) ⟨w.eng, none, q⟩).1)
    (h : visible w.eng t = .ok rows) :
    visible (runAdmin H b (.restoreTo ts) ⟨w.eng, none, q⟩).2.eng t = .ok rows := by
  cases b with
  | true => exact h
  | false =>
    rcases restoreTo_cases (s := ⟨w.eng, none, q⟩) ha ts with ⟨x, hr⟩ | ⟨hle, s', hr, -, hts⟩
    · have hrun : runAdmin H false (.restoreTo ts) ⟨w.eng, none, q⟩ =
          (.error x, ⟨w.eng, none, q⟩) := Proc.bind_of_error hr
      rw [hrun]
      exact h
    · have hrun : runAdmin H false (.restoreTo ts) ⟨w.eng, none, q⟩ = (.ok (.restoredTo ts), s') :=
        bind_pure_answer hr
      rw [hrun] at hd
      rw [hrun]
      refine restored_shows hh hle (by rw [hr]) ?_ h
      simpa only [adminDrops, hts] using hd

/-- **An aligned admin action shows every table the same whose entries it does not drop.** -/
theorem admin_shows (hh : Housed w.eng) {a : Admin V} {q : Faults}
    (ha : Aligned w kept (.admin a q)) (hk : kept t)
    (hd : t ∉ w.drops H inside (.admin a q)) (h : visible w.eng t = .ok rows) :
    visible (w.admin H a q).2.eng t = .ok rows := by
  have hc := hh.coherent
  have hc' : Coherent (w.admin H a q).2.eng := (housed_admin (H := H) hh ha).coherent
  obtain ⟨i, hi⟩ := entry_of_visible hc h
  change t ∉ adminDrops a ⟨w.eng, none, q⟩ (runAdmin H w.hasOpenTxn a ⟨w.eng, none, q⟩).2
    (runAdmin H w.hasOpenTxn a ⟨w.eng, none, q⟩).1 at hd
  change Coherent (runAdmin H w.hasOpenTxn a ⟨w.eng, none, q⟩).2.eng at hc'
  change visible (runAdmin H w.hasOpenTxn a ⟨w.eng, none, q⟩).2.eng t = .ok rows
  cases a with
  | register u path =>
    have hcases := runAdmin_cases (H := H) (s := ⟨w.eng, none, q⟩) w.hasOpenTxn rfl (.register u path)
    generalize (runAdmin H w.hasOpenTxn _ ⟨w.eng, none, q⟩).2.eng = e at hcases hc' ⊢
    cases hcases with
    | refused => exact h
    | register hr =>
      have hne : t ≠ u := by
        rintro rfl
        exact ha.2 hk
      refine visible_of_same hc hc' ?_ withTables_parquet (DeltaStore.SameAt.refl t _) h
      exact (Dict.get?_set _ _ _ _).trans (if_neg hne)
  | drop u => exact drop_shows hc hc' hd h
  | rename old new => exact rename_shows hc hc' hd h
  | alter u a => exact alter_shows hc hc' (fun htu j => ha (htu ▸ hk) j) h
  | checkpoint =>
    have hcases := runAdmin_cases (H := H) (s := ⟨w.eng, none, q⟩) w.hasOpenTxn rfl .checkpoint
    generalize (runAdmin H w.hasOpenTxn _ ⟨w.eng, none, q⟩).2.eng = e at hcases hc' ⊢
    cases hcases with
    | refused => exact h
    | checkpoint ho =>
      obtain ⟨ts, e, hf, he⟩ := checkpoint_folded (H := H) (s := ⟨w.eng, none, q⟩) hh rfl (ha ho)
      have hshow : visible e t = .ok rows := by
        rw [visible_eq hf.coherent, hf.look_eq hi, ← visible_eq hc]
        exact h
      rcases he with he | he
      · rw [he]
        exact hshow
      · rw [he] at hc' ⊢
        exact visible_of_same hf.coherent hc' rfl rfl (DeltaStore.SameAt.refl t _) hshow
  | snapshot name =>
    exact visible_of_same hc hc' rfl rfl (DeltaStore.SameAt.refl t _) h
  | restore name => exact restore_shows hh ha hd h
  | restoreTo ts => exact restoreTo_shows hh ha hd h
  | clearCache which =>
    have hcases := runAdmin_cases (H := H) (s := ⟨w.eng, none, q⟩) w.hasOpenTxn rfl
      (.clearCache which)
    generalize (runAdmin H w.hasOpenTxn _ ⟨w.eng, none, q⟩).2.eng = e at hcases hc' ⊢
    cases hcases with
    | refused => exact h
    | clearCache =>
      by_cases hcode : which = .code
      · rw [if_pos hcode]
        exact h
      · rw [if_neg hcode] at hc' ⊢
        exact visible_of_same hc hc' rfl rfl (DeltaStore.SameAt.refl t _) h

/-- **An aligned act shows every table the same whose entries it does not drop.** -/
theorem act_shows (hh : Housed w.eng) {a : Act V} (ha : Aligned w kept a) (hk : kept t)
    (hd : t ∉ w.drops H inside a) (hempty : a.empties = false) (h : visible w.eng t = .ok rows) :
    visible (w.act H a).eng t = .ok rows := by
  have hc' : Coherent (w.act H a).eng := (housed_act (H := H) hh ha).coherent
  cases a with
  | conn a =>
    cases a with
    | sql c st q =>
      have he := Engine.sql_effect H (s := w.session c q) ⟨hh.coherent, ha.1⟩ st
      obtain ⟨hcat, hfiles, -⟩ := effect_fixed he
      have hsame : w.eng.delta.SameAt t (Engine.sql H st (w.session c q)).2.eng.delta := by
        exact sql_sameAt ha.2 hd
      change Coherent (Engine.sql H st (w.session c q)).2.eng at hc'
      change visible (Engine.sql H st (w.session c q)).2.eng t = .ok rows
      exact visible_of_same hh.coherent hc' (by rw [hcat]; rfl) hfiles hsame h
    | disconnect c => exact h
    | restart => cases hempty
  | admin a q => exact admin_shows hh ha hk hd h
  | upload u p payload =>
    obtain ⟨hfresh, -, hnk⟩ := ha
    obtain ⟨i, hi⟩ := entry_of_visible hh.coherent h
    change Coherent (runUpload u p payload ⟨w.eng, none, {}⟩).2.eng at hc'
    change visible (runUpload u p payload ⟨w.eng, none, {}⟩).2.eng t = .ok rows
    rcases runUpload_cases (s := ⟨w.eng, none, {}⟩) u p payload hfresh with
      ⟨d, hd, he⟩ | ⟨data, j, -, hj, he⟩
    · rw [he] at hc' ⊢
      rw [← h]
      exact visible_of_entry hh.coherent hc' hi hi rfl (fun p' _ => hd p')
        (DeltaStore.SameAt.refl t _) (Or.inr rfl)
    · have hne : t ≠ u := by
        rintro rfl
        exact hnk hk
      rw [he] at hc' ⊢
      rw [← h]
      refine visible_of_entry hh.coherent hc' hi ?_ rfl (fun p' hp' => ?_)
        (DeltaStore.SameAt.refl t _) (Or.inr rfl)
      · exact ((Dict.get?_set _ _ _ _).trans (if_neg hne)).trans hi
      · rw [withTables_parquet]
        exact hh.files_same (fun q f => Files.get?_set_fresh hfresh data) hi p' hp'

end Shows

end World

/-! ## 5. Moves -/

namespace Caches

open Engine

variable [DecidableEq V] {C : Type} {H : Host V} {factorize : List (Cell V) → C} {s : Caches V C}

/-- An act that changes no table behind the back of the entries, or a lookup of the committed column. -/
def Aligned (s : Caches V C) : Move V → Prop
  | .act a _ => World.Aligned s.world (fun t => ¬ s.Unkept t) a
  | .getCodes t col series => s.means (t, col) = some series
  | .isUniqueKey t col series => s.means (t, col) = some series

/-- Both caches hold what their keys stand for. -/
structure Current (factorize : List (Cell V) → C) (s : Caches V C) : Prop where
  housed : Housed s.world.eng
  codes : Memo.Right factorize s.means s.codes
  pks : Memo.Right nuniqueIsLen s.means s.pks

theorem means_of_visible {k : String × String} {series : List (Cell V)}
    (h : s.means k = some series) :
    ∃ rows, visible s.world.eng k.1 = .ok rows ∧ series = rows.map fun r => r k.2 := by
  unfold means at h
  split at h
  · rename_i rows hrows
    exact ⟨rows, hrows, (Option.some.inj h).symm⟩
  · cases h

/-- What an aligned act does not drop stands for what it stood for. -/
theorem means_act (hs : Housed s.world.eng) {a : Act V} {inside : Bool}
    (ha : World.Aligned s.world (fun t => ¬ s.Unkept t) a) {k : String × String}
    (hk : s.codes.get? k ≠ none ∨ s.pks.get? k ≠ none)
    (hkeep : (!a.empties && decide (k.1 ∉ s.world.drops H inside a)) = true)
    {series : List (Cell V)} (h : s.means k = some series) :
    (s.act H a inside).means k = some series := by
  obtain ⟨rows, hrows, rfl⟩ := means_of_visible h
  simp only [Bool.and_eq_true, Bool.not_eq_true', decide_eq_true_eq] at hkeep
  have hkept : ¬ s.Unkept k.1 := by
    intro hun
    rcases hk with hk | hk
    · exact hk (hun k.2).1
    · exact hk (hun k.2).2
  have hshow : visible (s.world.act H a).eng k.1 = .ok rows :=
    World.act_shows hs ha hkept hkeep.2 hkeep.1 hrows
  change (match visible (s.world.act H a).eng k.1 with
    | .ok rows => some (rows.map fun (r : Row V) => r k.2)
    | .error _ => none) = _
  rw [hshow]

/-- **Every aligned move keeps the caches current.** -/
theorem Current.move (h : Current factorize s) {m : Move V} (hm : s.Aligned m) :
    Current factorize (s.move H factorize m) := by
  cases m with
  | act a inside =>
    refine ⟨World.housed_act h.housed hm, h.codes.filter fun k series hk hp => ?_,
      h.pks.filter fun k series hk hp => ?_⟩
    · exact means_act h.housed hm (Or.inl hk) hp
    · exact means_act h.housed hm (Or.inr hk) hp
  | getCodes t col series => exact ⟨h.housed, h.codes.lookup hm, h.pks⟩
  | isUniqueKey t col series => exact ⟨h.housed, h.codes, h.pks.lookup hm⟩

theorem current_init (H : Host V) (factorize : List (Cell V) → C) (dir : String) (files : Files V) :
    Current factorize (init H C (some dir) ⟨files, none, none⟩) where
  housed := (World.healthy_init H dir files).housed
  codes := Memo.right_empty
  pks := Memo.right_empty

/-- A key column without NULL has as many distinct values as rows exactly when none repeats. -/
theorem nuniqueIsLen_iff {series : List (Cell V)} :
    nuniqueIsLen series = true ↔ none ∉ series ∧ series.Nodup := by
  unfold nuniqueIsLen
  rw [decide_eq_true_iff]
  have hle := (series.filter Option.isSome).dedup_sublist.length_le
  have hle' := (List.filter_sublist (p := Option.isSome) (l := series)).length_le
  constructor
  · intro h
    have hf : series.filter Option.isSome = series :=
      List.filter_sublist.eq_of_length (by omega)
    rw [hf] at h
    refine ⟨fun hn => ?_, ?_⟩
    · rw [← hf] at hn
      cases (List.mem_filter.mp hn).2
    · rw [← (List.dedup_sublist series).eq_of_length h]
      exact List.nodup_dedup _
  · rintro ⟨hn, hnd⟩
    have hf : series.filter Option.isSome = series :=
      List.filter_eq_self.mpr fun c hc => by
        cases c with
        | none => exact absurd hc hn
        | some v => rfl
    rw [hf, hnd.dedup]

/-- An unfiltered scan outside a transaction passes the committed column. -/
theorem means_of_scan (hc : Coherent s.world.eng) {t : String} {q : Faults} {f : Frame V}
    (h : (scan t none ⟨s.world.eng, none, q⟩).1 = .ok f) (col : String) :
    s.means (t, col) = some (f.rows.map fun r => r col) := by
  have hlook : look s.world.eng none t none = .ok f := by
    rcases (scan_reads t none ⟨s.world.eng, none, q⟩ hc).value with hv | ⟨hv, -⟩
    · rw [← hv]
      exact h
    · rw [h] at hv
      cases hv
  have hshow : visible s.world.eng t = .ok f.rows := by
    rw [visible_eq hc, hlook]
    rfl
  change (match visible s.world.eng t with
    | .ok rows => some (rows.map fun (r : Row V) => r col)
    | .error _ => none) = _
  rw [hshow]

/-- **The caches answer for what is there now.**  After any aligned moves of any connections, a query outside
a transaction that passes the column of its unfiltered scan gets the codes of that very column, and is told
that the column is a key exactly when it has neither a NULL nor a repeated value, also when the cache
answers. -/
theorem lookups_right (H : Host V) (factorize : List (Cell V) → C) (dir : String) (files : Files V)
    {ms : List (Move V)} (hms : Run.Along (move H factorize) Aligned
      (init H C (some dir) ⟨files, none, none⟩) ms) {t : String} {q : Faults} {f : Frame V}
    (hf : (scan t none ⟨(Run.run (move H factorize) (init H C (some dir) ⟨files, none, none⟩)
      ms).world.eng, none, q⟩).1 = .ok f) (col : String) :
    let s := Run.run (move H factorize) (init H C (some dir) ⟨files, none, none⟩) ms
    let series := f.rows.map fun r => r col
    (s.getCodes factorize t col series).1 = factorize series ∧
      ((s.isUniqueKey t col series).1 = true ↔ none ∉ series ∧ series.Nodup) := by
  intro s series
  have hcur : Current factorize s :=
    hms.invariant (P := Current factorize) (fun _ _ h hm => h.move hm)
      (current_init H factorize dir files)
  have hmeans : s.means (t, col) = some series := means_of_scan hcur.housed.coherent hf col
  refine ⟨hcur.codes.value hmeans, ?_⟩
  have hval : (s.isUniqueKey t col series).1 = nuniqueIsLen series := hcur.pks.value hmeans
  rw [hval]
  exact nuniqueIsLen_iff

/-- One row in an upload, both lookups, and the row again. -/
def twiceInserted : List (Move Nat) :=
  [.act (World.uploadEmpty "a" "1.parquet") false, .act (.conn (.sql 0 (insertKey "a" 1) {})) false,
    .getCodes "a" "k" [some 1], .isUniqueKey "a" "k" [some 1],
    .act (.conn (.sql 0 (insertKey "a" 1) {})) false]

/-- The caches after these moves, with the distinct values as codes. -/
@[irreducible] def afterTwice : Caches Nat (List (Cell Nat)) :=
  Run.run (move natHost List.dedup) (init natHost _ (some "d") ⟨∅, none, none⟩) twiceInserted

/-- **The second row is seen.**  Both answers were kept after the first row. -/
theorem lookups_right_twice : ((afterTwice.isUniqueKey "a" "k" [some 1, some 1]).1 = true ↔
    none ∉ [some 1, some 1] ∧ [some 1, some 1].Nodup) := by
  have hms : Run.Along (move natHost List.dedup) Aligned
      (init natHost (List (Cell Nat)) (some "d") ⟨∅, none, none⟩) twiceInserted := by
    refine ⟨⟨rfl, fun cols => rfl, fun h => h fun col => ⟨rfl, rfl⟩⟩,
      ⟨rfl, by simp [insertKey]⟩, ?_, ?_, ⟨rfl, by simp [insertKey]⟩, trivial⟩
    · change means _ ("a", "k") = some [some 1]
      decide +kernel
    · change means _ ("a", "k") = some [some 1]
      decide +kernel
  have hcol : ((scan "a" none ⟨afterTwice.world.eng, none, {}⟩).1.map fun f =>
      f.rows.map fun r => r "k") = .ok [some 1, some 1] := by decide +kernel
  cases hf : (scan "a" none ⟨afterTwice.world.eng, none, {}⟩).1 with
  | error x =>
    rw [hf] at hcol
    cases hcol
  | ok f =>
    rw [hf] at hcol
    have hseries : (f.rows.map fun r => r "k") = [some 1, some 1] := Except.ok.inj hcol
    unfold afterTwice at hf ⊢
    have h := (lookups_right natHost List.dedup "d" ∅ hms hf "k").2
    rw [hseries] at h
    exact h

end Caches

end RyuDB
