/-
# MERGE and its partition of the source

`_merge` finds the pairs of target and source rows by an equi-join and the residual of ON.  For the
NOT MATCHED arm it asks a different question: whether the key of a source row is among the keys of
the paired source rows.  Two source rows may share a key while the residual tells them apart, and
then the unpaired one is not inserted:

    MERGE INTO t USING u ON t.k = u.k AND u.v = 1 WHEN NOT MATCHED THEN INSERT ..
    -- u holds (1, 1) and (1, 2): the second row is neither matched nor inserted

Two more things can go wrong: a NULL key on both sides is a pair (`MergeNullMatch`), and a row
inserted with the primary key of a row that the same statement deletes disappears under the
tombstone.  `merge_partition` shows that these three are all: it compares what the statement did
with `MergeNode.result`, the table SQL asks for.

The reference works on pairs of rows and knows no frames: `onPairs` are the pairs on which ON is true,
`lone` the source rows in none of them, `acted` and `inserting` those the arms act on.  The code has a
merged frame in which the columns of both sides have one name, then masks and drops columns; section 2
shows that what the arms flush is the reference applied to the pairs they were offered, and section 4
when these are the right ones.
-/
import RyuDB.Update
import RyuDB.NullKeys

namespace RyuDB

variable {V : Type} [DecidableEq V]

open Engine

/-! ## 1. The reference -/

namespace MergeNode

/-- ON is true on a target and a source row. -/
def onHolds (n : MergeNode V) (r q : Row V) : Bool :=
  decide (keyOf n.onSource q = keyOf n.onTarget r) && (keyOf n.onTarget r).nonNull &&
    mergeResidual n r q

omit [DecidableEq V] in
/-- The condition of a WHEN MATCHED arm is true on a pair. -/
def matchedHolds (arm : MatchedArm V) (p : Row V × Row V) : Bool :=
  match arm.condition with
  | none => true
  | some c => c.value p

omit [DecidableEq V] in
/-- The pairs a WHEN MATCHED arm acts on, of those it is offered. -/
def acted (n : MergeNode V) (pairs : List (Row V × Row V)) : List (Row V × Row V) :=
  match n.matchedArm with
  | none => []
  | some arm => pairs.filter (matchedHolds arm)

omit [DecidableEq V] in
/-- The source rows a WHEN NOT MATCHED arm inserts, of those it is offered. -/
def inserting (n : MergeNode V) (rows : List (Row V)) : List (Row V) :=
  match n.notMatchedArm with
  | none => []
  | some arm => rows.filter fun q =>
      match arm.condition with
      | none => true
      | some c => c.value q

/-- The source rows on which ON is true with no target row. -/
def lone (n : MergeNode V) (tgt src : Frame V) : List (Row V) :=
  src.rows.filter fun q => !tgt.rows.any fun r => n.onHolds r q

omit [DecidableEq V] in
/-- A target row after SET, in the columns of the table.  The values of all the pairs are coerced
together. -/
def setRow (H : Host V) (i : TableInfo V) (as : List (String × JExpr V (Cell V)))
    (pairs : List (Row V × Row V)) (p : Row V × Row V) : Row V :=
  restrict i.columns (as.foldl (fun r a c =>
    if c = a.1 then coerced H (i.typeOf a.1) (pairs.map a.2.value) (a.2.value p) else r c) p.1)

omit [DecidableEq V] in
/-- The rows that replace the pairs of a WHEN MATCHED THEN UPDATE arm. -/
def updatedRows (H : Host V) (i : TableInfo V) (n : MergeNode V) (pairs : List (Row V × Row V)) :
    List (Row V) :=
  match n.matchedArm with
  | some ⟨_, .update as⟩ => (n.acted pairs).map (setRow H i as (n.acted pairs))
  | _ => []

omit [DecidableEq V] in
/-- The cell a WHEN NOT MATCHED arm supplies for a source row. -/
def insertCell (i : TableInfo V) (arm : NotMatchedArm V) (q : Row V) (c : String) : Cell V :=
  match ((arm.insertColumns.getD i.columns).zip arm.insertValues).find?
      fun e => decide (e.1 = c) with
  | some e => e.2.value q
  | none => defaultCell i c

omit [DecidableEq V] in
/-- The row a WHEN NOT MATCHED arm inserts for one of the source rows. -/
def insertRow (H : Host V) (i : TableInfo V) (arm : NotMatchedArm V) (rows : List (Row V))
    (q : Row V) : Row V :=
  restrict i.columns fun c =>
    coerced H (i.typeOf c) (rows.map fun q => insertCell i arm q c) (insertCell i arm q c)

omit [DecidableEq V] in
/-- The rows a WHEN NOT MATCHED arm inserts. -/
def insertedRows (H : Host V) (i : TableInfo V) (n : MergeNode V) (rows : List (Row V)) :
    List (Row V) :=
  match n.notMatchedArm with
  | none => []
  | some arm => (n.inserting rows).map (insertRow H i arm (n.inserting rows))

/-- A WHEN MATCHED arm acts on a target row: ON and the condition of the arm are true with some
source row. -/
def actsOn (n : MergeNode V) (src : Frame V) (r : Row V) : Bool :=
  match n.matchedArm with
  | none => false
  | some arm => src.rows.any fun q => n.onHolds r q && matchedHolds arm (r, q)

/-- The table after the MERGE: the target rows no arm acts on, the updated ones, the inserted
ones. -/
def result (H : Host V) (i : TableInfo V) (n : MergeNode V) (tgt src : Frame V) : List (Row V) :=
  (tgt.rows.filter fun r => !n.actsOn src r) ++
    (updatedRows H i n (onPairs n tgt src) ++ insertedRows H i n (n.lone tgt src))

end MergeNode

namespace Engine

/-! ## 2. What the arms flush -/

section Arms

variable {H : Host V} {i : TableInfo V} {n : MergeNode V}

omit [DecidableEq V] in
theorem maskedPairs_pairs {p : Option (JPred V)} {m m' : Joined V}
    (h : maskedPairs p m = .ok m') : m'.pairs = m.pairs.filter fun x =>
      match p with
      | none => true
      | some c => c.value x := by
  cases p with
  | none =>
    cases h
    exact (List.filter_true _).symm
  | some c =>
    obtain ⟨mask, hmask, h⟩ := bind_eq_ok.mp h
    cases h
    unfold JExpr.eval at hmask
    split at hmask <;> cases hmask
    rfl

omit [DecidableEq V] in
/-- One assignment after another, each on the old values. -/
theorem setColumns_fold {α β : Type} {items : List α} {col : β → String}
    {g : β → Except DbError (α → Cell V)} {val : β → α → Cell V} :
    ∀ {bs : List β} {new f : α → Row V}, (∀ b ∈ bs, ∀ v, g b = .ok v → v = val b) →
      setColumns H i items (bs.map fun b => (col b, g b)) new = .ok f → ∀ a,
        f a = bs.foldl (fun r b c => if c = col b then
          coerced H (i.typeOf (col b)) (items.map (val b)) (val b a) else r c) (new a)
  | [], new, f, _, h, a => by
    cases h
    rfl
  | b :: bs, new, f, hv, h, a => by
    obtain ⟨v, hb, hrest⟩ := bind_eq_ok.mp h
    obtain ⟨_, -, hlast⟩ := bind_eq_ok.mp hrest
    cases hv b List.mem_cons_self v hb
    exact setColumns_fold (fun b hb => hv b (List.mem_cons_of_mem _ hb)) hlast a

omit [DecidableEq V] in
theorem mergedFrame_rows {t : String} {as : List (String × JExpr V (Cell V))} {m : Joined V}
    {f : Frame V} (h : mergedFrame H i t as m = .ok f) :
    f.rows = m.pairs.map (MergeNode.setRow H i as m.pairs) := by
  obtain ⟨new, hnew, h⟩ := bind_eq_ok.mp h
  obtain ⟨_, -, h⟩ := bind_eq_ok.mp h
  cases h
  have hval : ∀ a ∈ as, ∀ v : Row V × Row V → Cell V, (if a.1 ∉ i.columns then
      Except.error (.parse ("unknown column in MERGE UPDATE " ++ t ++ ": " ++ a.1))
      else a.2.eval m) = .ok v → v = a.2.value := by
    intro a _ v hv
    split at hv
    · cases hv
    · unfold JExpr.eval at hv
      split at hv <;> cases hv
      rfl
  rw [Frame.ofRows_rows, List.map_map]
  refine List.map_congr_left fun p _ => ?_
  rw [Function.comp_apply, setColumns_fold hval hnew p]
  rfl

/-- The tombstone of some pairs, nothing when there are none. -/
def pairKeys (pk : List String) (pairs : List (Row V × Row V)) : Option (Frame V) :=
  if pairs.isEmpty then none else some (Frame.ofRows pk (pairs.map Prod.fst))

/-- The arm is an UPDATE. -/
def isUpdate (arm : MatchedArm V) : Bool :=
  match arm.action with
  | .update _ => true
  | .delete => false

/-- **A MATCHED arm flushes the keys of its pairs, and for an UPDATE the pairs after SET.** -/
theorem matchedPart_spec {tgt : Frame V} {m : Joined V} (hm : ∀ q ∈ m.pairs, q.1 ∈ tgt.rows)
    {b : Nat × Flush V} (h : matchedPart H i n tgt m = .ok b) :
    b.1 = (n.acted m.pairs).length ∧
      b.2.update = (match n.matchedArm with
        | some arm => if isUpdate arm then
            pairKeys (i.constraints.primaryKey.getD []) (n.acted m.pairs) else none
        | none => none) ∧
      b.2.delete = (match n.matchedArm with
        | some arm => if isUpdate arm then none else
            pairKeys (i.constraints.primaryKey.getD []) (n.acted m.pairs)
        | none => none) ∧
      b.2.new.toList.flatMap Frame.rows = MergeNode.updatedRows H i n m.pairs := by
  unfold matchedPart at h
  cases harm : n.matchedArm with
  | none =>
    rw [harm] at h
    cases h
    exact ⟨by rw [MergeNode.acted, harm]; rfl, rfl, rfl, by rw [MergeNode.updatedRows, harm]; rfl⟩
  | some arm =>
    have hacted : n.acted m.pairs = m.pairs.filter (MergeNode.matchedHolds arm) := by
      rw [MergeNode.acted, harm]
    rw [harm] at h
    simp only at h
    -- no pair, or the arm runs on the pairs its condition lets through
    have hnone : n.acted m.pairs = [] → b = (0, ⟨none, none, none⟩) →
        b.1 = (n.acted m.pairs).length ∧
          b.2.update = (if isUpdate arm then
            pairKeys (i.constraints.primaryKey.getD []) (n.acted m.pairs) else none) ∧
          b.2.delete = (if isUpdate arm then none else
            pairKeys (i.constraints.primaryKey.getD []) (n.acted m.pairs)) ∧
          b.2.new.toList.flatMap Frame.rows = MergeNode.updatedRows H i n m.pairs := by
      rintro hnil rfl
      rw [hnil]
      refine ⟨rfl, by simp [pairKeys], by simp [pairKeys], ?_⟩
      rw [MergeNode.updatedRows, harm]
      obtain ⟨c, act⟩ := arm
      cases act with
      | update as => rw [hnil]; rfl
      | delete => rfl
    split at h
    · rename_i hempty
      cases h
      rw [List.isEmpty_iff] at hempty
      exact hnone (by rw [hacted, hempty]; rfl) rfl
    · split at h
      · cases h
      · obtain ⟨m', hm', h⟩ := bind_eq_ok.mp h
        have hpairs : m'.pairs = n.acted m.pairs := by
          rw [maskedPairs_pairs hm', hacted]
          rfl
        split at h
        · rename_i hempty
          cases h
          rw [List.isEmpty_iff, hpairs] at hempty
          exact hnone hempty rfl
        · rename_i hfull
          obtain ⟨g, hg, h⟩ := bind_eq_ok.mp h
          obtain ⟨-, rfl⟩ := Frame.select_ok.mp hg
          have hkeys : Frame.ofRows (i.constraints.primaryKey.getD [])
              (Frame.ofRows tgt.columns (m'.pairs.map Prod.fst)).rows =
                Frame.ofRows (i.constraints.primaryKey.getD []) (m'.pairs.map Prod.fst) := by
            rw [Frame.ofRows_rows, List.map_map]
            refine congrArg _ (List.map_congr_left fun q hq => ?_)
            rw [hpairs, hacted] at hq
            exact Frame.restrict_self (hm q (List.mem_of_mem_filter hq))
          have hpk : pairKeys (i.constraints.primaryKey.getD []) (n.acted m.pairs) =
              some (Frame.ofRows (i.constraints.primaryKey.getD []) (m'.pairs.map Prod.fst)) := by
            rw [pairKeys, ← hpairs, if_neg hfull]
          rw [hkeys] at h
          obtain ⟨c, act⟩ := arm
          cases act with
          | update as =>
            obtain ⟨_, -, h⟩ := bind_eq_ok.mp h
            obtain ⟨f, hf, h⟩ := bind_eq_ok.mp h
            cases h
            refine ⟨by rw [hpairs], hpk.symm, rfl, ?_⟩
            rw [MergeNode.updatedRows, harm]
            simp only [Option.toList_some, List.flatMap_singleton]
            rw [mergedFrame_rows hf, hpairs]
          | delete =>
            cases h
            refine ⟨by rw [hpairs], rfl, hpk.symm, ?_⟩
            rw [MergeNode.updatedRows, harm]
            rfl

omit [DecidableEq V] in
/-- What was supplied for a source row is what its arm inserts. -/
theorem supplied_insertCell {arm : NotMatchedArm V} {cols : List String}
    (hcols : arm.insertColumns.getD i.columns = cols) {rest : Frame V} {q : Row V} {v : Cell V}
    (hq : q ∈ rest.rows) {c : String} (h : Supplied i (mergeProvided cols arm rest q) c v) :
    v = MergeNode.insertCell i arm q c := by
  rw [MergeNode.insertCell, hcols]
  cases hf : (cols.zip arm.insertValues).find? (fun e => decide (e.1 = c)) with
  | none =>
    have hnone : mergeProvided cols arm rest q c = none := by unfold mergeProvided; rw [hf]
    rcases h with hprov | ⟨-, hdef⟩
    · cases hnone.symm.trans hprov
    · exact hdef.symm
  | some e =>
    have hsome : mergeProvided cols arm rest q c = some (do
        let v ← e.2.eval (Frame.ofRows rest.columns [q])
        return v (restrict rest.columns q)) := by unfold mergeProvided; rw [hf]
    rcases h with hprov | ⟨hprov, -⟩
    · obtain ⟨w, hw, hv⟩ := bind_eq_ok.mp (Option.some.inj (hsome.symm.trans hprov))
      rw [eval_value hw, Frame.restrict_self hq] at hv
      exact (Except.ok.inj hv).symm
    · cases hsome.symm.trans hprov

omit [DecidableEq V] in
/-- Rows that hold what was supplied are coerced to the rows the arm inserts. -/
theorem typedRows_insertRow {arm : NotMatchedArm V} {cols : List String}
    (hcols : arm.insertColumns.getD i.columns = cols) {rest : Frame V} {rows : List (Row V)}
    (h : List.Forall₂ (fun q r => ∀ c ∈ i.columns, Supplied i (mergeProvided cols arm rest q) c (r c))
      rest.rows rows) :
    (typedRows H i rows).rows = rest.rows.map (MergeNode.insertRow H i arm rest.rows) := by
  have hcolumn : ∀ c ∈ i.columns, (rows.map fun r => r c) =
      rest.rows.map fun q => MergeNode.insertCell i arm q c := fun c hc =>
    map_of_forall₂ h fun q hq r hr => supplied_insertCell hcols hq (hr c hc)
  rw [typedRows, Frame.ofRows_rows, List.map_map]
  refine map_of_forall₂ h fun q hq r hr => ?_
  rw [Function.comp_apply, MergeNode.insertRow]
  funext c
  by_cases hc : c ∈ i.columns
  · rw [restrict_mem hc, restrict_mem hc, hcolumn c hc, supplied_insertCell hcols hq (hr c hc)]
  · rw [restrict_notMem hc, restrict_notMem hc]

/-- **A NOT MATCHED arm inserts a row for each source row it is offered and its condition lets
through.** -/
theorem notMatchedPart_spec {src : Frame V} {m : Joined V} {b : Nat × Option (Frame V)}
    (h : notMatchedPart H i n src m = .ok b) :
    b.1 = (n.inserting (unmatchedRows n src m).rows).length ∧
      b.2.toList.flatMap Frame.rows =
        MergeNode.insertedRows H i n (unmatchedRows n src m).rows := by
  unfold notMatchedPart at h
  cases harm : n.notMatchedArm with
  | none =>
    rw [harm] at h
    cases h
    exact ⟨by rw [MergeNode.inserting, harm]; rfl, by rw [MergeNode.insertedRows, harm]; rfl⟩
  | some arm =>
    rw [harm] at h
    simp only at h
    rw [MergeNode.insertedRows, harm]
    simp only
    have hinserting : n.inserting (unmatchedRows n src m).rows =
        (unmatchedRows n src m).rows.filter fun q =>
          match arm.condition with
          | none => true
          | some c => c.value q := by
      rw [MergeNode.inserting, harm]
    split at h
    · rename_i hempty
      cases h
      rw [List.isEmpty_iff] at hempty
      have hnil : (unmatchedRows n src m).rows = [] := by
        simp [unmatchedRows, hempty]
      rw [hnil] at hinserting ⊢
      rw [hinserting]
      exact ⟨rfl, rfl⟩
    · rw [notMatchedNew_eq] at h
      obtain ⟨rest, hrest, h⟩ := bind_eq_ok.mp h
      have hrows : rest.rows = n.inserting (unmatchedRows n src m).rows := by
        rw [hinserting]
        unfold arriving at hrest
        split at hrest
        · rename_i hempty
          cases hrest
          rw [List.isEmpty_iff] at hempty
          rw [hempty]
          rfl
        · exact (masked_value hrest).2
      rw [← hrows]
      split at h
      · rename_i hempty
        cases h
        rw [List.isEmpty_iff] at hempty
        rw [hempty]
        exact ⟨rfl, rfl⟩
      · obtain ⟨cols, hcols, h⟩ := bind_eq_ok.mp h
        split at h
        · cases h
        · obtain ⟨rows, hres, h⟩ := bind_eq_ok.mp h
          obtain ⟨_, -, h⟩ := bind_eq_ok.mp h
          cases h
          refine ⟨rfl, ?_⟩
          simp only [Option.toList_some, List.flatMap_singleton]
          exact typedRows_insertRow (targetColumns_ok hcols).symm (resolveRows_supplied hres)

omit [DecidableEq V] in
theorem combinedNew_rows {u v f : Option (Frame V)} (h : combinedNew i u v = .ok f) :
    f.toList.flatMap Frame.rows = u.toList.flatMap Frame.rows ++ v.toList.flatMap Frame.rows := by
  have hfull : ∀ l : List (Frame V), (l.filter fun f => !f.rows.isEmpty).flatMap Frame.rows =
      l.flatMap Frame.rows := by
    intro l
    induction l with
    | nil => rfl
    | cons g l ih =>
      rw [List.filter_cons, List.flatMap_cons, ← ih]
      cases hg : g.rows with
      | nil => simp
      | cons r rs => simp [hg]
  rw [← List.flatMap_append, ← hfull (u.toList ++ v.toList)]
  unfold combinedNew at h
  split at h
  · rename_i hnil
    cases h
    rw [hnil]
    rfl
  · rename_i hparts
    split at h
    · cases h
    · rename_i g hcat
      cases h
      obtain ⟨-, -, hrows⟩ := Frame.concat_ok hcat
      simp only [Option.toList_some, List.flatMap_singleton, hrows]

/-- The tombstones of a MATCHED arm; those of an UPDATE spare the rows of their own commit. -/
def mergeTombs (i : TableInfo V) (n : MergeNode V) (pairs : List (Row V × Row V)) :
    List (Frame V × Bool) :=
  match n.matchedArm with
  | none => []
  | some arm => ((pairKeys (i.constraints.primaryKey.getD []) (n.acted pairs)).toList).map
      fun g => (g, isUpdate arm)

omit [DecidableEq V] in
/-- Without a tombstone the MATCHED arm acts on no pair. -/
theorem acted_of_mergeTombs {pairs : List (Row V × Row V)} (h : mergeTombs i n pairs = []) :
    n.acted pairs = [] := by
  cases harm : n.matchedArm with
  | none => rw [MergeNode.acted, harm]
  | some arm =>
    rw [mergeTombs, harm] at h
    simp only [List.map_eq_nil_iff, Option.toList_eq_nil_iff, pairKeys] at h
    by_contra hne
    rw [if_neg (by rwa [List.isEmpty_iff])] at h
    cases h

omit [DecidableEq V] in
/-- Without an inserted row the NOT MATCHED arm has no source row. -/
theorem inserting_of_insertedRows {rows : List (Row V)}
    (h : MergeNode.insertedRows H i n rows = []) : n.inserting rows = [] := by
  cases harm : n.notMatchedArm with
  | none => rw [MergeNode.inserting, harm]
  | some arm =>
    rw [MergeNode.insertedRows, harm] at h
    exact List.map_eq_nil_iff.mp h

/-- **What a MERGE flushes.** -/
theorem mergeFlush_spec {tgt src : Frame V} {a : Nat × Flush V}
    (h : mergeFlush H i n tgt src = .ok a) : ∃ m, matchedRows n tgt src = .ok m ∧
      a.1 = (n.acted m.pairs).length + (n.inserting (unmatchedRows n src m).rows).length ∧
      (a.2.update.toList.map fun g => (g, true)) ++ (a.2.delete.toList.map fun g => (g, false)) =
        mergeTombs i n m.pairs ∧
      a.2.new.toList.flatMap Frame.rows = MergeNode.updatedRows H i n m.pairs ++
        MergeNode.insertedRows H i n (unmatchedRows n src m).rows := by
  rw [mergeFlush_matchedRows] at h
  obtain ⟨m, hm, h⟩ := bind_eq_ok.mp h
  obtain ⟨b, hb, h⟩ := bind_eq_ok.mp h
  obtain ⟨c, hc, h⟩ := bind_eq_ok.mp h
  obtain ⟨f, hf, h⟩ := bind_eq_ok.mp h
  cases h
  have htgt : ∀ q ∈ m.pairs, q.1 ∈ tgt.rows := fun q hq => ((mem_matchedRows hm).mp hq).1
  obtain ⟨hk, hu, hd, hnew⟩ := matchedPart_spec htgt hb
  obtain ⟨hk', hins⟩ := notMatchedPart_spec hc
  refine ⟨m, hm, by rw [hk, hk'], ?_, by rw [← hnew, ← hins]; exact combinedNew_rows hf⟩
  simp only [hu, hd, mergeTombs]
  cases n.matchedArm with
  | none => rfl
  | some arm => cases hup : isUpdate arm <;> simp [hup]

end Arms

/-! ## 3. What the statement leaves

A MERGE flushes all its changes at one timestamp.  The tombstones of an UPDATE arm spare the rows of
their own commit and those of a DELETE arm do not, so an inserted row with the key of a deleted one
would be deleted with it. -/

section Statement

variable {H : Host V} {s s' : Session V} {i : TableInfo V} {n : MergeNode V}

/-- **What a MERGE that returned has done.** -/
theorem merge_ok (hs : Sound s.eng) (ha : s.faults.writesBack = false)
    (hi : s.eng.catalog.tables.get? n.table = some i) {k : Nat}
    (h : merge H n s = (.ok k, s')) : ∃ tgt src m,
      look s.eng none n.table none = .ok tgt ∧ execPure s.eng none n.source = .ok src ∧
      matchedRows n tgt src = .ok m ∧ tgt.rows = rowsOf s.eng n.table ∧
      mergeKey i n = .ok () ∧ s.txn = none ∧
      k = (n.acted m.pairs).length + (n.inserting (unmatchedRows n src m).rows).length ∧
      rowsOf s'.eng n.table = tgt.rows.filter (spared i (mergeTombs i n m.pairs)) ++
        (MergeNode.updatedRows H i n m.pairs ++
          MergeNode.insertedRows H i n (unmatchedRows n src m).rows).filter fun r =>
            decide (keyOf (keyCols i) r ∉
              keysOf (keyCols i) false (mergeTombs i n m.pairs)) := by
  have hc : Pristine s := ⟨hs.ok.coherent, ha⟩
  obtain ⟨i', s₁, h₁, h⟩ := Proc.bind_ok.mp h
  obtain ⟨hi', rfl⟩ := catalogGet_ok h₁
  rw [hi] at hi'
  cases hi'
  obtain ⟨_, s₂, h₂, h⟩ := Proc.bind_ok.mp h
  obtain ⟨hkey, rfl⟩ := Prod.mk.inj h₂
  obtain ⟨_, s₃, h₃, h⟩ := Proc.bind_ok.mp h
  obtain ⟨v, hv, hnone⟩ := refuseInTxn_reads (Quiet.refl s) "MERGE"
  obtain ⟨hvok, hq₃⟩ := hv.ok h₃
  have hx := hnone hvok
  obtain ⟨tgt, s₄, h₄, h⟩ := Proc.bind_ok.mp h
  obtain ⟨ht, hq₄⟩ := (Reads.scan hc hq₃ n.table none).ok h₄
  have hq₄ := Quiet.trans _ _ _ hq₃ hq₄
  obtain ⟨src, s₅, h₅, h⟩ := Proc.bind_ok.mp h
  obtain ⟨hsrc, hq₅⟩ := (exec_reads hc hq₄ n.source).ok h₅
  have hq := Quiet.trans _ _ _ hq₄ hq₅
  obtain ⟨w, s₆, h₆, h⟩ := Proc.bind_ok.mp h
  obtain ⟨hw, rfl⟩ := Prod.mk.inj h₆
  rw [hx] at ht hsrc
  obtain ⟨f, hf, -, hfr⟩ := look_seen hs.ok (x := none) (by intro y hy; cases hy) hi
  rw [hf] at ht
  cases ht
  obtain ⟨m, hm, hk, htombs, hnew⟩ := mergeFlush_spec hw
  refine ⟨tgt, src, m, hf, hsrc, hm, hfr, hkey, hx, ?_⟩
  split at h
  · -- nothing to flush
    rename_i hnil
    cases h
    simp only [Bool.and_eq_true, Option.isNone_iff_eq_none] at hnil
    obtain ⟨⟨hu, hd⟩, hn⟩ := hnil
    rw [hu, hd] at htombs
    rw [hn] at hnew
    obtain ⟨hupd, hins⟩ := List.append_eq_nil_iff.mp hnew.symm
    have hacted := acted_of_mergeTombs htombs.symm
    refine ⟨by rw [hacted, inserting_of_insertedRows hins]; rfl, ?_⟩
    rw [← htombs, hupd, hins, List.append_nil, List.filter_nil, List.append_nil, hfr,
      rowsOf, hq.kept.seen]
    exact (List.filter_eq_self.mpr fun r _ => rfl).symm
  · obtain ⟨_, s₈, h₈, h⟩ := Proc.bind_ok.mp h
    cases h
    obtain ⟨⟨bs, hcom, hbs⟩, -, -⟩ := flush_committed (hq.pristine hc) h₈
    rw [hq.commitTs] at hbs
    refine ⟨hk, ?_⟩
    rw [rows_committed hs (hcom.after hq) hbs hi, Flush.tombstones_buffered,
      Flush.tombstones_tombed, Transaction.tombstoneBatches_new, List.nil_append, if_pos rfl,
      htombs, ownRows, Flush.bufferBatches_buffered, Transaction.bufferBatches_new, List.nil_append,
      if_pos rfl, hnew, hfr]
    rfl

end Statement

/-! ## 4. The partition

The code pairs rows by a join on the keys, which takes two NULL keys for equal, and finds the source
rows left over by asking whether their key occurs among the keys of the pairs.  `KeysTell` says when
neither makes a difference, and `partitions_iff` that it is exactly when.  `NoReinsert` is the other
half of the condition: it is about the timestamp of section 3. -/

/-- **The arms are offered what SQL offers them**: the MATCHED arm the pairs on which ON is true,
the NOT MATCHED arm the source rows on which ON is true with no target row. -/
structure Partitions (n : MergeNode V) (tgt src : Frame V) (m : Joined V) : Prop where
  matched : n.matchedArm.isSome = true → m.pairs = onPairs n tgt src
  unmatched : n.notMatchedArm.isSome = true → (unmatchedRows n src m).rows = n.lone tgt src

/-- With a MATCHED arm, no NULL key of a target row meets one of a source row; with a NOT MATCHED
arm, source rows with one key are all paired or all unpaired. -/
structure KeysTell (n : MergeNode V) (tgt src : Frame V) : Prop where
  nulls : n.matchedArm.isSome = true →
    ∀ r ∈ tgt.rows, ∀ q ∈ src.rows, ¬ MergeNullMatch n r q
  shared : n.notMatchedArm.isSome = true → ∀ q ∈ src.rows, ∀ q' ∈ src.rows,
    keyOf n.onSource q = keyOf n.onSource q' → (∃ r ∈ tgt.rows, n.onHolds r q' = true) →
      ∃ r ∈ tgt.rows, n.onHolds r q = true

/-- No inserted row has the primary key of a row the same statement deletes. -/
def NoReinsert (H : Host V) (i : TableInfo V) (n : MergeNode V) (tgt src : Frame V) : Prop :=
  ∀ arm, n.matchedArm = some arm → isUpdate arm = false →
    ∀ p ∈ n.acted (onPairs n tgt src), ∀ r ∈ MergeNode.insertedRows H i n (n.lone tgt src),
      keyOf (keyCols i) r ≠ keyOf (keyCols i) p.1

section Partition

variable {H : Host V} {i : TableInfo V} {n : MergeNode V} {tgt src : Frame V} {m : Joined V}

/-- Two filters of one list agree just when their tests agree on it. -/
theorem filter_eq_iff {α : Type} {f g : α → Bool} {l : List α} :
    l.filter f = l.filter g ↔ ∀ a ∈ l, f a = g a := by
  refine ⟨fun h a ha => ?_, fun h => List.filter_congr h⟩
  rw [Bool.eq_iff_iff]
  constructor
  · intro hf
    have hmem := List.mem_filter.mpr ⟨ha, hf⟩
    rw [h] at hmem
    exact (List.mem_filter.mp hmem).2
  · intro hg
    have hmem := List.mem_filter.mpr ⟨ha, hg⟩
    rw [← h] at hmem
    exact (List.mem_filter.mp hmem).2

/-- The key of a source row is among those of the paired rows. -/
theorem mem_pairedKeys (hm : matchedRows n tgt src = .ok m) {k : Key V} :
    k ∈ (m.pairs.map fun p => keyOf n.onSource p.2).filter Key.nonNull ↔
      ∃ q' ∈ src.rows, k = keyOf n.onSource q' ∧ ∃ r ∈ tgt.rows, n.onHolds r q' = true := by
  rw [List.mem_filter, List.mem_map]
  constructor
  · rintro ⟨⟨⟨r, q'⟩, hp, rfl⟩, hnn⟩
    obtain ⟨hr, hq', hk, hres⟩ := (mem_matchedRows hm).mp hp
    refine ⟨q', hq', rfl, r, hr, ?_⟩
    rw [MergeNode.onHolds, decide_eq_true hk, ← hk, hnn, hres]
    rfl
  · rintro ⟨q', hq', rfl, r, hr, hon⟩
    rw [MergeNode.onHolds, Bool.and_eq_true, Bool.and_eq_true, decide_eq_true_eq] at hon
    obtain ⟨⟨hk, hnn⟩, hres⟩ := hon
    exact ⟨⟨(r, q'), (mem_matchedRows hm).mpr ⟨hr, hq', hk, hres⟩, rfl⟩, by rw [hk]; exact hnn⟩

/-- **The source rows left over are those without a partner just when the rows of one key are all
paired or all unpaired.** -/
theorem unmatchedRows_iff (hm : matchedRows n tgt src = .ok m) :
    (unmatchedRows n src m).rows = n.lone tgt src ↔
      ∀ q ∈ src.rows, ∀ q' ∈ src.rows, keyOf n.onSource q = keyOf n.onSource q' →
        (∃ r ∈ tgt.rows, n.onHolds r q' = true) → ∃ r ∈ tgt.rows, n.onHolds r q = true := by
  have hpaired : ∀ q, (tgt.rows.any fun r => n.onHolds r q) = true ↔
      ∃ r ∈ tgt.rows, n.onHolds r q = true := fun q => List.any_eq_true
  rw [unmatchedRows, Frame.filter_rows, MergeNode.lone, filter_eq_iff]
  constructor
  · intro h q hq q' hq' hkey hon
    have hin := (mem_pairedKeys hm).mpr ⟨q', hq', hkey, hon⟩
    have := h q hq
    rw [decide_eq_false (not_not_intro hin)] at this
    rw [← hpaired]
    simpa using this.symm
  · intro h q hq
    rw [Bool.eq_iff_iff, decide_eq_true_eq, mem_pairedKeys hm, Bool.not_eq_true', ← Bool.not_eq_true,
      hpaired, not_iff_not]
    constructor
    · rintro ⟨q', hq', hkey, hon⟩
      exact h q hq q' hq' hkey hon
    · exact fun hon => ⟨q, hq, rfl, hon⟩

/-- **The arms are offered what SQL offers them just when the keys tell.** -/
theorem partitions_iff (hm : matchedRows n tgt src = .ok m) :
    Partitions n tgt src m ↔ KeysTell n tgt src := by
  have hkeyed := matchedRows_keyed hm
  constructor
  · rintro ⟨hmatched, hunmatched⟩
    refine ⟨fun harm => hkeyed.1.mp fun p hp => ?_, fun harm =>
      (unmatchedRows_iff hm).mp (hunmatched harm)⟩
    rw [hmatched harm] at hp
    obtain ⟨r, -, hp⟩ := List.mem_flatMap.mp hp
    obtain ⟨q, hq, rfl⟩ := List.mem_map.mp hp
    have hon := (List.mem_filter.mp hq).2
    rw [Bool.and_eq_true, Bool.and_eq_true, decide_eq_true_eq] at hon
    exact hon.1
  · rintro ⟨hnulls, hshared⟩
    exact ⟨fun harm => hkeyed.2 (hnulls harm), fun harm =>
      (unmatchedRows_iff hm).mpr (hshared harm)⟩

omit [DecidableEq V] in
theorem pairKeys_keys (p : List String) (pairs : List (Row V × Row V)) :
    (pairKeys p pairs).toList.flatMap (fun g => g.rows.map (keyOf p)) =
      (pairs.map Prod.fst).map (keyOf p) := by
  cases pairs with
  | nil => rfl
  | cons x l =>
    rw [pairKeys, if_neg (by simp), Option.toList_some, List.flatMap_singleton,
      Frame.ofRows_rows, List.map_map]
    exact List.map_congr_left fun r _ => keyOf_restrict (fun _ hc => hc) r

omit [DecidableEq V] in
/-- The keys of the tombstones. -/
theorem keysOf_mergeTombs (fl : Bool) (pairs : List (Row V × Row V)) :
    keysOf (keyCols i) fl (mergeTombs i n pairs) =
      match n.matchedArm with
      | none => []
      | some arm => if isUpdate arm = fl then
          (((n.acted pairs).map Prod.fst).map (keyOf (keyCols i))).filter Key.nonNull else [] := by
  unfold mergeTombs
  cases n.matchedArm with
  | none => rfl
  | some arm =>
    simp only
    rw [keysOf, List.filter_map]
    by_cases hfl : isUpdate arm = fl
    · have hall : ∀ l : List (Frame V), l.filter ((fun g : Frame V × Bool => decide (g.2 = fl)) ∘
          fun g => (g, isUpdate arm)) = l := fun l =>
        List.filter_eq_self.mpr fun g _ => decide_eq_true hfl
      rw [if_pos hfl, hall, List.flatMap_map]
      exact congrArg _ (pairKeys_keys _ _)
    · have hnone : ∀ l : List (Frame V), l.filter ((fun g : Frame V × Bool => decide (g.2 = fl)) ∘
          fun g => (g, isUpdate arm)) = [] := fun l =>
        List.filter_eq_nil_iff.mpr fun g _ => by simpa using hfl
      rw [if_neg hfl, hnone]
      rfl

/-- A target row is acted on just when it is in one of the acted pairs. -/
theorem mem_acted {r : Row V} (hr : r ∈ tgt.rows) :
    r ∈ (n.acted (onPairs n tgt src)).map Prod.fst ↔ n.actsOn src r = true := by
  unfold MergeNode.acted MergeNode.actsOn
  cases n.matchedArm with
  | none => simp
  | some arm =>
    simp only [List.any_eq_true, Bool.and_eq_true]
    constructor
    · intro h
      obtain ⟨⟨r', q⟩, hp, rfl⟩ := List.mem_map.mp h
      obtain ⟨hp, hc⟩ := List.mem_filter.mp hp
      obtain ⟨r', -, hp⟩ := List.mem_flatMap.mp hp
      obtain ⟨q', hq', heq⟩ := List.mem_map.mp hp
      cases heq
      obtain ⟨hq, hon⟩ := List.mem_filter.mp hq'
      exact ⟨q, hq, hon, hc⟩
    · rintro ⟨q, hq, hon, hc⟩
      refine List.mem_map.mpr ⟨(r, q), List.mem_filter.mpr ⟨?_, hc⟩, rfl⟩
      exact List.mem_flatMap.mpr ⟨r, hr, List.mem_map.mpr ⟨q, List.mem_filter.mpr ⟨hq, hon⟩, rfl⟩⟩

/-- The tombstones spare the rows no arm acts on. -/
theorem spared_merge (hkeyed : i.constraints.primaryKey ≠ some [])
    (hkey : mergeKey i n = .ok ()) (hobeys : n.matchedArm.isSome = true → Obeys i tgt.rows)
    {r : Row V} (hr : r ∈ tgt.rows) :
    spared i (mergeTombs i n (onPairs n tgt src)) r = !n.actsOn src r := by
  rw [← Bool.not_eq_eq_eq_not, Bool.eq_iff_iff, Bool.not_eq_true', ← mem_acted hr, spared,
    decide_eq_false_iff_not, keysOf_mergeTombs, keysOf_mergeTombs]
  cases harm : n.matchedArm with
  | none => simp [MergeNode.acted, harm]
  | some arm =>
    obtain ⟨p, hp⟩ := mergeKey_ok hkey (by rw [harm]; simp)
    have hcols : keyCols i = p := by rw [keyCols, hp, Option.getD_some]
    have hne : p ≠ [] := by
      rintro rfl
      exact hkeyed hp
    have hmem := mem_keys_iff (hobeys (by rw [harm]; rfl)) hp hne
      (l := (n.acted (onPairs n tgt src)).map Prod.fst) (fun a ha => by
        obtain ⟨⟨a', q⟩, hq, rfl⟩ := List.mem_map.mp ha
        have hq' : (a', q) ∈ onPairs n tgt src := by
          rw [MergeNode.acted, harm] at hq
          exact List.mem_of_mem_filter hq
        obtain ⟨a'', ha'', hq'⟩ := List.mem_flatMap.mp hq'
        obtain ⟨q', -, heq⟩ := List.mem_map.mp hq'
        cases heq
        exact ha'') hr
    rw [hcols, ← hmem]
    generalize (((n.acted (onPairs n tgt src)).map Prod.fst).map (keyOf p)).filter Key.nonNull = ks
    cases hup : isUpdate arm <;> simp [hup]

/-- No own row is lost to a tombstone just when none has the key of a deleted row. -/
theorem own_rows_iff
    (hkey : mergeKey i n = .ok ()) (hobeys : n.matchedArm.isSome = true → Obeys i tgt.rows) :
    (MergeNode.updatedRows H i n (onPairs n tgt src) ++
        MergeNode.insertedRows H i n (n.lone tgt src)).filter (fun r =>
          decide (keyOf (keyCols i) r ∉
            keysOf (keyCols i) false (mergeTombs i n (onPairs n tgt src)))) =
      MergeNode.updatedRows H i n (onPairs n tgt src) ++
        MergeNode.insertedRows H i n (n.lone tgt src) ↔ NoReinsert H i n tgt src := by
  rw [List.filter_eq_self, keysOf_mergeTombs]
  unfold NoReinsert
  cases harm : n.matchedArm with
  | none => simp
  | some arm =>
    cases hup : isUpdate arm with
    | true => simp [hup]
    | false =>
      have hnone : MergeNode.updatedRows H i n (onPairs n tgt src) = [] := by
        obtain ⟨c, act⟩ := arm
        cases act with
        | update as => cases hup
        | delete => rw [MergeNode.updatedRows, harm]
      obtain ⟨p, hp⟩ := mergeKey_ok hkey (by rw [harm]; simp)
      have hcols : keyCols i = p := by rw [keyCols, hp, Option.getD_some]
      have hnn : ∀ x ∈ n.acted (onPairs n tgt src), (keyOf p x.1).nonNull = true := by
        intro x hx
        refine (hobeys (by rw [harm]; rfl)).primary p hp x.1 ?_
        rw [MergeNode.acted, harm] at hx
        obtain ⟨r, hr, hx⟩ := List.mem_flatMap.mp (List.mem_of_mem_filter hx)
        obtain ⟨q, -, rfl⟩ := List.mem_map.mp hx
        exact hr
      rw [hnone, List.nil_append, hcols]
      simp only [hup, if_true]
      constructor
      · rintro h arm' harm' - x hx r hr heq
        refine of_decide_eq_true (h r hr) (List.mem_filter.mpr ⟨?_, by rw [heq]; exact hnn x hx⟩)
        rw [heq]
        exact List.mem_map_of_mem (List.mem_map_of_mem hx)
      · intro h r hr
        refine decide_eq_true fun hin => ?_
        obtain ⟨y, hy, heq⟩ := List.mem_map.mp (List.mem_filter.mp hin).1
        obtain ⟨x, hx, rfl⟩ := List.mem_map.mp hy
        exact h arm rfl hup x hx r hr heq.symm

end Partition

section Whole

variable {H : Host V} {s s' : Session V} {i : TableInfo V} {n : MergeNode V}

/-- **MERGE partitions its source.**  A MERGE that returns offers its arms what SQL offers them and
leaves the table with exactly their updates, deletions and insertions if and only if the keys tell
the paired source rows from the others and no inserted row has the key of a deleted one.  The columns
of the merged frame are told apart by their names, and both engines are plain. -/
theorem merge_partition (M : Merger V) (hs : Sound s.eng) (ha : s.faults.writesBack = false)
    (hkeyed : ∀ t, Keyed s.eng t) (hplain : s.eng.Plain M)
    (hi : s.eng.catalog.tables.get? n.table = some i) {k : Nat}
    (h : merge H n s = (.ok k, s')) : ∃ tgt src m,
      look s.eng none n.table none = .ok tgt ∧ execPure s.eng none n.source = .ok src ∧
      matchedRows n tgt src = .ok m ∧ s.eng.shows M n.table = .ok tgt.rows ∧
      (n.Named tgt.columns src.columns → (Partitions n tgt src m ↔ KeysTell n tgt src) ∧
        (s'.eng.Plain M → (n.matchedArm.isSome = true → Obeys i tgt.rows) →
          (Partitions n tgt src m ∧ s'.eng.shows M n.table = .ok (n.result H i tgt src) ↔
            KeysTell n tgt src ∧ NoReinsert H i n tgt src))) := by
  obtain ⟨tgt, src, m, ht, hsrc, hm, hrows, hkey, hx, -, hres⟩ := merge_ok hs ha hi h
  have hpart := partitions_iff hm
  refine ⟨tgt, src, m, ht, hsrc, hm, ?_, fun _ => ⟨hpart, fun hplain' hobeys => ?_⟩⟩
  · rw [shows_eq hs.ok hplain, visible_seen hs.ok hi, hrows]
    rfl
  have heff := merge_effect H ⟨hs.ok.coherent, ha⟩ n rfl
  rw [h] at heff
  have hi' : s'.eng.catalog.tables.get? n.table = some i := by
    rw [World.effect_catalog heff]
    exact hi
  have hs' := (effect_sound heff hs ha (by rw [hx]; intro y hy; cases hy) fun t _ => hkeyed t).1
  rw [shows_eq hs'.ok hplain', visible_seen hs'.ok hi', ← hpart]
  refine and_congr_right fun hp => ?_
  have htombs : mergeTombs i n m.pairs = mergeTombs i n (onPairs n tgt src) := by
    cases harm : n.matchedArm with
    | none => rw [mergeTombs, mergeTombs, harm]
    | some arm => rw [hp.matched (by rw [harm]; rfl)]
  have hupdated : MergeNode.updatedRows H i n m.pairs =
      MergeNode.updatedRows H i n (onPairs n tgt src) := by
    cases harm : n.matchedArm with
    | none => rw [MergeNode.updatedRows, MergeNode.updatedRows, harm]
    | some arm => rw [hp.matched (by rw [harm]; rfl)]
  have hinserted : MergeNode.insertedRows H i n (unmatchedRows n src m).rows =
      MergeNode.insertedRows H i n (n.lone tgt src) := by
    cases harm : n.notMatchedArm with
    | none => rw [MergeNode.insertedRows, MergeNode.insertedRows, harm]
    | some arm => rw [hp.unmatched (by rw [harm]; rfl)]
  rw [htombs, hupdated, hinserted, List.filter_congr fun r hr =>
    spared_merge (hkeyed n.table i hi) hkey hobeys hr] at hres
  rw [← own_rows_iff hkey hobeys, MergeNode.result]
  change (Except.ok (rowsOf s'.eng n.table) : Except DbError (List (Row V))) = _ ↔ _
  rw [hres]
  constructor
  · intro heq
    exact List.append_cancel_left (Except.ok.inj heq)
  · intro heq
    rw [heq]

end Whole

/-! ## 5. Two source rows with one key -/

/-- `MERGE INTO t USING u ON t.k = u.k .. WHEN NOT MATCHED THEN INSERT (k) VALUES (u.v)`, where `u`
holds the pairs `cells`. -/
def mergeKeys (cells : List (Nat × Nat)) (residual : Option (JPred Nat))
    (arm : Option (MatchedArm Nat)) : MergeNode Nat :=
  ⟨"t", "t",
    ⟨[], fun _ => .ok (Frame.ofCells (["k", "v"], cells.map fun c => [some c.1, some c.2])), id⟩, "u",
    ["k"], ["k"], residual, arm,
    some ⟨none, some ["k"], [⟨fun _ => .ok (), fun q => q "v"⟩]⟩⟩

/-- `u` holds (1, 1) and (1, 7), and ON says `u.v = 1` too. -/
def splitMerge : MergeNode Nat :=
  mergeKeys [(1, 1), (1, 7)] (some ⟨fun _ => .ok (), fun p => decide (p.2 "v" = some 1)⟩) none

set_option maxRecDepth 10000 in
/-- **A source row that matches nothing is not inserted**, because another one has its key. -/
theorem lone_source_row_dropped :
    (merge natHost splitMerge (twoKeys.session 0 {})).1 = .ok 0 ∧
      (visible (merge natHost splitMerge (twoKeys.session 0 {})).2.eng "t").map
        (List.map (keyOf ["k"])) = .ok [[some 1], [some 2]] ∧
      (do
        let i ← twoKeys.eng.catalog.get "t"
        let tgt ← look twoKeys.eng none "t" none
        let src ← execPure twoKeys.eng none splitMerge.source
        return ((splitMerge.lone tgt src).map (keyOf ["k", "v"]),
          (splitMerge.result natHost i tgt src).map (keyOf ["k"]))) =
        .ok ([[some 1, some 7]], [[some 1], [some 2], [some 7]]) := by
  refine ⟨by with_unfolding_all decide, by with_unfolding_all decide, by with_unfolding_all decide⟩

/-- `u` holds (2, 9) and (3, 3); a matched row gets the key `u.v`. -/
def plainMerge : MergeNode Nat :=
  mergeKeys [(2, 9), (3, 3)] none
    (some ⟨none, .update [("k", ⟨fun _ => .ok (), fun p => p.2 "v"⟩)]⟩)

set_option maxRecDepth 10000 in
/-- A MERGE of source rows with different keys leaves what SQL asks for. -/
theorem merge_partition_plain : ∃ i tgt src s',
    twoKeys.eng.catalog.tables.get? "t" = some i ∧
      twoKeys.eng.shows natMerger "t" = .ok tgt.rows ∧
      execPure twoKeys.eng none plainMerge.source = .ok src ∧
      merge natHost plainMerge (twoKeys.session 0 {}) = (.ok 2, s') ∧
      s'.eng.shows natMerger "t" = .ok (plainMerge.result natHost i tgt src) := by
  obtain ⟨i, rows, hi, hv, -, hobeys⟩ := twoKeys_rows
  have hok : (merge natHost plainMerge (twoKeys.session 0 {})).1 = .ok 2 := by with_unfolding_all decide
  rcases hrun : merge natHost plainMerge (twoKeys.session 0 {}) with ⟨r, s'⟩
  rw [hrun] at hok
  cases hok
  have hplain := twoKeys_plain
  obtain ⟨tgt, src, m, hlook, hsrc, -, hrows, hnamed⟩ :=
    merge_partition (H := natHost) (n := plainMerge) natMerger twoKeys_settled.eng rfl
      twoKeys_settled.keyed hplain hi hrun
  have hsame : rows = tgt.rows := Except.ok.inj
    (hv.symm.trans ((shows_eq twoKeys_settled.eng.ok hplain "t").symm.trans hrows))
  have hplain' : s'.eng.Plain natMerger := by
    refine plain_natMerger ?_
    have hs' : s' = (merge natHost plainMerge (twoKeys.session 0 {})).2 := by rw [hrun]
    rw [hs']
    with_unfolding_all decide
  have hcols : tgt.columns = ["k"] := by
    obtain ⟨f, hf, hfc, -⟩ := look_seen twoKeys_settled.eng.ok (x := none) (by intro y hy; cases hy) hi
    rw [Except.ok.inj (hlook.symm.trans hf), hfc]
    exact (twoKeys_table hi).2.2
  have hiff := (hnamed (by rw [hcols]; cases hsrc; decide)).2 hplain'
  refine ⟨i, tgt, src, s', hi, hrows, hsrc, rfl, ((hiff fun _ => hsame ▸ hobeys).mpr ⟨?_, ?_⟩).2⟩
  · cases hsrc
    constructor
    · have hfull : ∀ q ∈ (Frame.ofCells
          (["k", "v"], [(2, 9), (3, 3)].map fun c => [some c.1, some c.2]) : Frame Nat).rows,
          (keyOf plainMerge.onSource q).nonNull = true := by decide
      rintro - r - q hq ⟨hk, hnull, -⟩
      rw [← hk, hfull q hq] at hnull
      cases hnull
    · rintro - q hq q' hq' hk hon
      have hsame : q = q' := by
        simp only [Frame.ofCells, List.map_cons, List.map_nil, List.mem_cons, List.not_mem_nil,
          or_false] at hq hq'
        rcases hq with rfl | rfl <;> rcases hq' with rfl | rfl
        · rfl
        · exact absurd hk (by decide)
        · exact absurd hk (by decide)
        · rfl
      rw [hsame]
      exact hon
  · intro arm harm hup
    cases harm
    cases hup

end Engine

end RyuDB
