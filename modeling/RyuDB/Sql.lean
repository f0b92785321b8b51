/-
# Every statement has an effect

The reading parts and the single change of each statement, put together: `sql_effect` says that
whatever a statement returns or raises, it moved the session by one of the effects of `Effect`.

`Server.run_sql` loads the transaction of a connection into the engine's slot, runs the statement
under the engine's lock and stores the slot back on the connection.  Here a request is one step: a
`World` is the engine and the open transactions of the live connections, and a step is a
statement of a connection, a disconnect (which drops its transaction) or a restart of the process.
Interleavings inside a request are the subject of `Server`.

Each statement is taken in three parts.  Its reading part computes rows from what it scans, and a
lemma `.._ok` says what is true of rows that were computed: they have the columns of the table and are
complete in its NOT NULL columns, and a tombstone has keys of rows that were scanned.  Its writing
part is a flush or a change of the transaction, whose effect is known from `Effect`.  `Effect.bind`
puts the two together, and also covers the statement that raises in between, which had no effect but
on the cache.
-/
import RyuDB.Effect
import RyuDB.Lib.Run

namespace RyuDB.Engine

variable {V : Type}

section Statements

variable [DecidableEq V] (H : Host V) {st : Stmt V} {s s₁ : Session V} {t : String}
  {i : TableInfo V}

/-! ## 1. INSERT and DELETE

A row of an INSERT is resolved column by column: the supplied cell, or the default, or NULL where that
is allowed.  The coercion comes after it and could make a cell NULL; under `Exact` it raises instead,
so that rows which were complete stay complete (`typedRows_required`). -/

omit [DecidableEq V] in
/-- A result computed from what a procedure returned does not move the state. -/
theorem state_map {α β : Type} (x : Op V α) (f : α → β) (s : Session V) :
    ((x >>= fun a => (pure (f a) : Op V β)) s).2 = (x s).2 := by
  rcases hx : x s with ⟨r, s'⟩
  cases r with
  | error y => rw [Proc.bind_of_error hx]
  | ok a => rw [Proc.bind_of_ok hx]; rfl

/-- A reading part in front of a change has the effect of the change, or none. -/
theorem Effect.bind {α β : Type} {x : Op V α} {k : α → Op V β} {v : Except DbError α}
    (hq : Quiet s s₁) (hx : Reads x s₁ v)
    (hk : ∀ a s₂, v = .ok a → Quiet s s₂ → Effect H st s (k a s₂).2) :
    Effect H st s ((x >>= k) s₁).2 := by
  rcases hx.cont k with ⟨y, s', hrun, hq'⟩ | ⟨a, s₂, hv, hq', hrun⟩
  · rw [hrun]
    exact Effect.quiet (Quiet.trans _ _ _ hq hq')
  · rw [hrun]
    exact hk a s₂ hv (Quiet.trans _ _ _ hq hq')

omit [DecidableEq V] in
/-- One turn of the loop over the columns of a row. -/
theorem resolveCells_cons {n : Nat} {provided : String → Option (Except DbError (Cell V))}
    {d : String} {cs : List String} {vs : List (Cell V)}
    (h : resolveCells i t n provided (d :: cs) = .ok vs) :
    ∃ v vs', vs = v :: vs' ∧
      (provided d = some (.ok v) ∨ provided d = none ∧ defaultCell i d = v) ∧
      (d ∈ i.constraints.notNull → v.isSome = true) ∧ resolveCells i t n provided cs = .ok vs' := by
  have htail : ∀ v : Except DbError (Cell V), (do
      let v ← v
      if v.isNone && decide (d ∈ i.constraints.notNull) then
        .error (.runtime ("NOT NULL violation: " ++ t ++ "." ++ d ++ " (row " ++ toString n ++ ")"))
      else
        let vs ← resolveCells i t n provided cs
        return v :: vs) = Except.ok vs → ∃ v' vs', v = .ok v' ∧ vs = v' :: vs' ∧
          (d ∈ i.constraints.notNull → v'.isSome = true) ∧
          resolveCells i t n provided cs = .ok vs' := by
    intro v h
    simp only [bind, Except.bind] at h
    split at h
    · cases h
    · rename_i v'
      split at h
      · cases h
      · rename_i hcheck
        split at h
        · cases h
        · rename_i vs' hvs
          cases h
          refine ⟨v', vs', rfl, rfl, fun hnn => ?_, hvs⟩
          cases v' with
          | none => simp [hnn] at hcheck
          | some a => rfl
  rw [resolveCells] at h
  cases hp : provided d with
  | some v =>
    rw [hp] at h
    obtain ⟨v', vs', rfl, hvs, hnn, hrest⟩ := htail v h
    exact ⟨v', vs', hvs, Or.inl rfl, hnn, hrest⟩
  | none =>
    rw [hp] at h
    obtain ⟨v', vs', hv, hvs, hnn, hrest⟩ := htail _ h
    exact ⟨v', vs', hvs, Or.inr ⟨rfl, Except.ok.inj hv⟩, hnn, hrest⟩

omit [DecidableEq V] in
theorem resolveCells_ok {n : Nat} {provided : String → Option (Except DbError (Cell V))} :
    ∀ {cs : List String} {vs : List (Cell V)}, resolveCells i t n provided cs = .ok vs →
      ∀ c ∈ cs, c ∈ i.constraints.notNull → (cellOf cs vs c).isSome = true
  | d :: cs, vs, h, c, hc, hnn => by
    obtain ⟨v, vs', rfl, -, hv, hrest⟩ := resolveCells_cons h
    rw [cellOf]
    split
    · rename_i hd
      exact hv (by rw [hd]; exact hnn)
    · rename_i hd
      exact resolveCells_ok hrest c ((List.mem_cons.mp hc).resolve_left fun h => hd h.symm) hnn

omit [DecidableEq V] in
theorem resolveRows_ok {α : Type} {provided : α → String → Option (Except DbError (Cell V))} :
    ∀ {l : List α} {n : Nat} {rows : List (Row V)}, resolveRows i t provided n l = .ok rows →
      ∀ r ∈ rows, ∀ c ∈ i.columns, c ∈ i.constraints.notNull → (r c).isSome = true
  | [], n, rows, h, r, hr => by
    cases h
    cases hr
  | a :: l, n, rows, h, r, hr => by
    rw [resolveRows] at h
    simp only [bind, Except.bind] at h
    split at h
    · cases h
    · rename_i cells hcells
      split at h
      · cases h
      · rename_i rows' hrows
        cases h
        rcases List.mem_cons.mp hr with rfl | hr
        · exact resolveCells_ok hcells
        · exact resolveRows_ok hrows r hr

omit [DecidableEq V] in
/-- Rows that are complete before the coercion are complete after it. -/
theorem typedRows_required (hex : H.Exact) {rows : List (Row V)}
    (hcol : i.columns.forM (fun c => coerceColumn H i c rows) = .ok ())
    (hrows : ∀ r ∈ rows, ∀ c ∈ i.columns, c ∈ i.constraints.notNull → (r c).isSome = true) :
    Required i (typedRows H i rows) := by
  intro r hr c hc hnn
  simp only [typedRows, Frame.ofRows_rows, List.map_map, List.mem_map, Function.comp_apply] at hr
  obtain ⟨r₀, hr₀, rfl⟩ := hr
  have hcell := forM_ok (forM_ok hcol c hc) r₀ hr₀
  rw [restrict_mem hc, coerced]
  cases hv : r₀ c with
  | none =>
    have := hrows r₀ hr₀ c hc hnn
    rw [hv] at this
    cases this
  | some v =>
    rw [hv] at hcell
    cases hco : H.coerce (i.typeOf c) (rows.map fun r => r c) v with
    | error y => simp only [coerceCell, hco, bind, Except.bind] at hcell; cases hcell
    | ok v' =>
      simp only [coerceCell, hco]
      exact hex _ _ _ _ hco

omit [DecidableEq V] in
theorem batchPure_ok {e : Engine V} {n : InsertNode V} {f : Frame V}
    (h : batchPure H e n = .ok f) : ∃ i, e.catalog.tables.get? n.table = some i ∧
      f.columns = i.columns ∧ (H.Exact → Required i f) := by
  unfold batchPure at h
  cases hi : e.catalog.get n.table with
  | error y => rw [hi] at h; cases h
  | ok i =>
    rw [hi] at h
    refine ⟨i, get_eq_ok.mp hi, ?_⟩
    simp only [bind, Except.bind, valuesFrame] at h
    split at h
    · cases h
    · split at h
      · cases h
      · split at h
        · cases h
        · rename_i rows hrows
          split at h
          · cases h
          · rename_i hcol
            cases h
            exact ⟨rfl, fun hex => typedRows_required H hex hcol (resolveRows_ok hrows)⟩

theorem insert_effect (hc : Pristine s) (n : InsertNode V) :
    Effect H st s (insert H n s).2 := by
  refine Effect.bind H (Quiet.refl s) (insertBatch_reads H s n) fun f s₁ hv hq => ?_
  refine Effect.bind H hq (enforceUnique_reads hc hq n.table f) fun _ s₂ hok hq₂ => ?_
  rw [state_map]
  obtain ⟨i, hi, hf, hreq⟩ := batchPure_ok H hv
  exact appendFrame_effect H hq₂ hi hf hreq hok

omit [DecidableEq V] in
theorem selectFrame_ok {cols : List String} {src f : Frame V}
    (h : selectFrame H i t cols src = .ok f) : f.columns = i.columns ∧ Required i f := by
  unfold selectFrame at h
  simp only [bind, Except.bind] at h
  split at h
  · cases h
  · rename_i hcol
    cases h
    refine ⟨rfl, fun r hr c hc hnn => ?_⟩
    simp only [typedRows, Frame.ofRows_rows, List.map_map, List.mem_map, Function.comp_apply] at hr
    obtain ⟨r₀, hr₀, rfl⟩ := hr
    have hcheck := forM_ok hcol c hc
    split at hcheck
    · cases hcheck
    · split at hcheck
      · cases hcheck
      · rename_i hany
        rw [restrict_mem hc]
        by_contra hnone
        refine hany ?_
        simp only [hnn, decide_true, Bool.true_and, List.any_eq_true, List.mem_map]
        refine ⟨_, ⟨r₀, hr₀, rfl⟩, ?_⟩
        simpa using hnone

theorem sourcePure_ok {e : Engine V} {x : Option (Transaction V)} {n : InsertSelectNode V}
    {f : Frame V} (h : sourcePure H e x n = .ok (some f)) :
    ∃ i, e.catalog.tables.get? n.table = some i ∧ f.columns = i.columns ∧ Required i f := by
  unfold sourcePure at h
  cases hi : e.catalog.get n.table with
  | error y => rw [hi] at h; cases h
  | ok i =>
    rw [hi] at h
    refine ⟨i, get_eq_ok.mp hi, ?_⟩
    simp only [bind, Except.bind] at h
    split at h
    · cases h
    · split at h
      · cases h
      · split at h
        · cases h
        · split at h
          · cases h
          · split at h
            · cases h
            · rename_i hsel
              cases h
              exact selectFrame_ok H hsel

theorem insertSelect_effect (hc : Pristine s) (n : InsertSelectNode V) :
    Effect H st s (insertSelect H n s).2 := by
  refine Effect.bind H (Quiet.refl s) (insertSource_reads H hc n) fun src s₁ hv hq => ?_
  cases src with
  | none => exact Effect.quiet hq
  | some f =>
    refine Effect.bind H hq (enforceUnique_reads hc hq n.table f) fun _ s₂ hok hq₂ => ?_
    rw [state_map]
    obtain ⟨i, hi, hf, hreq⟩ := sourcePure_ok H hv
    exact appendFrame_effect H hq₂ hi hf (fun _ => hreq) hok

omit [DecidableEq V] in
theorem requirePk_ok {message : String} {p : List String} (h : requirePk i message = .ok p) :
    i.constraints.primaryKey = some p := by
  unfold requirePk at h
  split at h
  · rename_i pk hpk
    cases h
    exact hpk
  · cases h

/-- A DELETE appends the keys of the rows on which its condition is true. -/
theorem delete_effect (hc : Pristine s) (n : DeleteNode V) (hst : st = .delete n) :
    Effect H st s (delete H n s).2 := by
  refine Effect.bind H (Quiet.refl s) (catalogGet_reads n.table s) fun i s₁ hi hq => ?_
  refine Effect.bind H hq (Reads.lift _) fun p s₂ hp hq₂ => ?_
  refine Effect.bind H hq₂ (targetsOf_reads hc hq₂ n.table n.predicate) fun targets s₃ hv hq₃ => ?_
  split
  · exact Effect.quiet hq₃
  · refine Effect.bind H hq₃ (Reads.lift _) fun g s₄ hg hq₄ => ?_
    rw [state_map]
    exact appendTombstone_effect H hq₄ hst (get_eq_ok.mp hi) (requirePk_ok hp) hv hg

/-! ## 2. UPDATE and MERGE

Both compute new rows from old ones and remove the old ones by their keys.  The effect needs to know
that a key in a tombstone is the key of a row the statement saw, since that is what the invariants
about tombstones are about; and for MERGE that there is a tombstone only if there is a MATCHED arm, as
only then has the table been asked for its primary key. -/

omit [DecidableEq V] in
theorem refuseInTxn_reads (hq : Quiet s s₁) (statement : String) :
    ∃ v, Reads (refuseInTxn statement) s₁ v ∧ (v = .ok () → s.txn = none) := by
  refine ⟨(refuseInTxn statement s₁).1, ⟨?_, Or.inl rfl⟩, fun h => ?_⟩
  · unfold refuseInTxn
    rw [Proc.get_bind]
    cases s₁.txn <;> exact Quiet.refl s₁
  · rw [refuseInTxn, Proc.get_bind, hq.txn] at h
    cases hx : s.txn with
    | none => rfl
    | some x =>
      rw [hx] at h
      cases h

omit [DecidableEq V] in
theorem checkNotNull_ok {f : Frame V} (h : checkNotNull H i t f = .ok ()) : Required i f := by
  intro r hr c _ hnn
  have hc := forM_ok h c (H.mem_setOrder.mpr hnn)
  split at hc
  · cases hc
  · split at hc
    · cases hc
    · rename_i hany
      by_contra hnone
      refine hany (List.any_eq_true.mpr ⟨r, hr, ?_⟩)
      simpa using hnone

omit [DecidableEq V] in
/-- The changed rows have the columns of the table and are complete. -/
theorem updatedFrame_ok {n : UpdateNode V} {targets f : Frame V}
    (h : updatedFrame H i n targets = .ok f) : f.columns = targets.columns ∧ Required i f := by
  unfold updatedFrame at h
  simp only [bind, Except.bind] at h
  split at h
  · cases h
  · split at h
    · cases h
    · rename_i hcheck
      cases h
      exact ⟨rfl, checkNotNull_ok H hcheck⟩

/-- An UPDATE appends these keys and the changed rows in one flush. -/
theorem update_effect (hc : Pristine s) (n : UpdateNode V) (hst : st = .update n) :
    Effect H st s (update H n s).2 := by
  refine Effect.bind H (Quiet.refl s) (catalogGet_reads n.table s) fun i s₁ hi hq => ?_
  refine Effect.bind H hq (Reads.lift _) fun p s₂ hp hq₂ => ?_
  obtain ⟨v, hv, hnone⟩ := refuseInTxn_reads hq₂ "UPDATE"
  refine Effect.bind H hq₂ hv fun _ s₃ hvok hq₃ => ?_
  refine Effect.bind H hq₃ (Reads.lift _) fun _ s₄ _ hq₄ => ?_
  refine Effect.bind H hq₄ (targetsOf_reads hc hq₄ n.table n.predicate) fun targets s₅ ht hq₅ => ?_
  split
  · exact Effect.quiet hq₅
  · refine Effect.bind H hq₅ (Reads.lift _) fun f s₆ hf hq₆ => ?_
    refine Effect.bind H hq₆ (Reads.lift _) fun g s₇ hg hq₇ => ?_
    rw [state_map]
    have hx : s.txn = none := hnone hvok
    have hi' := get_eq_ok.mp hi
    rw [hx] at ht
    obtain ⟨hsub, rfl⟩ := Frame.select_ok.mp hg
    have htargets : EngineOk s.eng → targets.columns = i.columns ∧
        ∀ r ∈ targets.rows, ∃ ts, (ts, r) ∈ seen s.eng none n.table := fun he =>
      targetsPure_ok he (by intro y hy; cases hy) hi' ht
    refine flush_effect H hc hx hq₇ _ (by rw [hst]; rfl) hi' (fun he f' hf' => ?_)
      (fun he g hg => ?_)
    · cases hf'
      obtain ⟨hcols, hreq⟩ := updatedFrame_ok H hf
      exact ⟨by rw [hcols, (htargets he).1], fun _ => hreq⟩
    · simp only [Option.toList_none, Option.toList_some, List.append_nil, List.mem_singleton] at hg
      exact ⟨p, targets.rows, requirePk_ok hp,
        fun col hcol => by rw [← (htargets he).1]; exact hsub col hcol, hg, (htargets he).2⟩

omit [DecidableEq V] in
theorem maskedPairs_ok {p : Option (JPred V)} {m m' : Joined V} (h : maskedPairs p m = .ok m') :
    ∀ q ∈ m'.pairs, q ∈ m.pairs := by
  cases p with
  | none =>
    cases h
    exact fun q hq => hq
  | some p =>
    unfold maskedPairs at h
    simp only [bind, Except.bind] at h
    split at h
    · cases h
    · cases h
      exact fun q hq => List.mem_of_mem_filter hq

theorem joinRows_ok {n : MergeNode V} {tgt src : Frame V} {m : Joined V}
    (h : joinRows n tgt src = .ok m) : ∀ q ∈ m.pairs, q.1 ∈ tgt.rows := by
  unfold joinRows at h
  split at h
  · cases h
    intro q hq
    obtain ⟨r, hr, hq⟩ := List.mem_flatMap.mp hq
    obtain ⟨r', -, rfl⟩ := List.mem_map.mp hq
    exact hr
  · cases h

omit [DecidableEq V] in
theorem mergedFrame_ok {assignments : List (String × JExpr V (Cell V))} {m : Joined V}
    {f : Frame V} (h : mergedFrame H i t assignments m = .ok f) : Required i f := by
  unfold mergedFrame at h
  simp only [bind, Except.bind] at h
  split at h
  · cases h
  · split at h
    · cases h
    · rename_i hcheck
      cases h
      exact checkNotNull_ok H hcheck

omit [DecidableEq V] in
/-- The tombstones of a MATCHED arm are keys of target rows, and its new rows are complete. -/
theorem matchedFlush_ok {n : MergeNode V} {p : List String} {tgt : Frame V} {arm : MatchedArm V}
    {m : Joined V} (hm : ∀ q ∈ m.pairs, q.1 ∈ tgt.rows) {a : Nat × Flush V}
    (h : matchedFlush H i n p tgt arm m = .ok a) :
    (∀ f, a.2.new = some f → Required i f) ∧
      ∀ g ∈ a.2.update.toList ++ a.2.delete.toList, (∀ col ∈ p, col ∈ tgt.columns) ∧
        ∃ l, g = Frame.ofRows p l ∧ ∀ r ∈ l, r ∈ tgt.rows := by
  unfold matchedFlush at h
  simp only [bind, Except.bind] at h
  split at h
  · cases h
  · rename_i m' hm'
    split at h
    · cases h
      exact ⟨fun f hf => (by cases hf), fun g hg => (by cases hg)⟩
    · split at h
      · cases h
      · rename_i g₀ hg₀
        obtain ⟨hsub, rfl⟩ := Frame.select_ok.mp hg₀
        have hrows : ∀ r ∈ (Frame.ofRows tgt.columns (m'.pairs.map Prod.fst)).rows,
            r ∈ tgt.rows := by
          intro r hr
          rw [Frame.ofRows_rows, List.map_map] at hr
          obtain ⟨q, hq, rfl⟩ := List.mem_map.mp hr
          have hq' := hm q (maskedPairs_ok hm' q hq)
          rw [Function.comp_apply, Frame.restrict_self hq']
          exact hq'
        have hgoal : ∀ g, g = Frame.ofRows p
            (Frame.ofRows tgt.columns (m'.pairs.map Prod.fst)).rows →
            (∀ col ∈ p, col ∈ tgt.columns) ∧ ∃ l, g = Frame.ofRows p l ∧ ∀ r ∈ l, r ∈ tgt.rows :=
          fun g hg => ⟨hsub, _, hg, hrows⟩
        split at h
        · split at h
          · cases h
          · split at h
            · cases h
            · rename_i hnew
              cases h
              refine ⟨fun f hf => ?_, fun g hg => hgoal g (by simpa using hg)⟩
              cases hf
              exact mergedFrame_ok H hnew
        · cases h
          exact ⟨fun f hf => (by cases hf), fun g hg => hgoal g (by simpa using hg)⟩

/-- The rows of a NOT MATCHED arm are complete. -/
theorem notMatchedNew_ok {n : MergeNode V} {arm : NotMatchedArm V} {src : Frame V} {m : Joined V}
    {a : Nat × Option (Frame V)} (h : notMatchedNew H i n arm src m = .ok a) (hex : H.Exact) :
    ∀ f, a.2 = some f → Required i f := by
  unfold notMatchedNew at h
  simp only [bind, Except.bind] at h
  split at h
  · cases h
    exact fun f hf => by cases hf
  · split at h
    · cases h
    · split at h
      · cases h
        exact fun f hf => by cases hf
      · split at h
        · cases h
        · split at h
          · cases h
          · split at h
            · cases h
            · rename_i hrows
              split at h
              · cases h
              · rename_i hcol
                cases h
                intro f hf
                cases hf
                exact typedRows_required H hex hcol (resolveRows_ok hrows)

omit [DecidableEq V] in
theorem combinedNew_ok {u n f : Option (Frame V)} (h : combinedNew i u n = .ok f) :
    ∀ g, f = some g → g.columns = i.columns ∧
      ((∀ v, u = some v → Required i v) → (∀ v, n = some v → Required i v) → Required i g) := by
  unfold combinedNew at h
  split at h
  · cases h
    intro g hg
    cases hg
  · split at h
    · cases h
    · rename_i hcat
      cases h
      intro g hg
      cases hg
      obtain ⟨-, hcols, hrows⟩ := Frame.concat_ok hcat
      refine ⟨hcols, fun hu hn r hr => ?_⟩
      rw [hrows] at hr
      obtain ⟨v, hv, hr⟩ := List.mem_flatMap.mp hr
      rcases List.mem_append.mp (List.mem_of_mem_filter hv) with hv | hv
      · exact hu v (Option.mem_toList.mp hv) r hr
      · exact hn v (Option.mem_toList.mp hv) r hr

/-- What a MATCHED arm flushes: complete rows, and keys of target rows. -/
theorem matchedPart_ok {n : MergeNode V} {tgt : Frame V} {m : Joined V} {b : Nat × Flush V}
    (hpairs : ∀ q ∈ m.pairs, q.1 ∈ tgt.rows) (hb : matchedPart H i n tgt m = .ok b) :
    (∀ f, b.2.new = some f → Required i f) ∧
      ∀ g ∈ b.2.update.toList ++ b.2.delete.toList, n.matchedArm ≠ none ∧
        (∀ col ∈ i.constraints.primaryKey.getD [], col ∈ tgt.columns) ∧
        ∃ l, g = Frame.ofRows (i.constraints.primaryKey.getD []) l ∧ ∀ r ∈ l, r ∈ tgt.rows := by
  unfold matchedPart at hb
  cases harm : n.matchedArm with
  | none =>
    rw [harm] at hb
    cases hb
    exact ⟨fun f hf => (by cases hf), fun g hg => (by cases hg)⟩
  | some arm =>
    rw [harm] at hb
    simp only at hb
    split at hb
    · cases hb
      exact ⟨fun f hf => (by cases hf), fun g hg => (by cases hg)⟩
    · split at hb
      · cases hb
      · obtain ⟨h1, h2⟩ := matchedFlush_ok H hpairs hb
        exact ⟨h1, fun g hg => ⟨by simp, h2 g hg⟩⟩

/-- What a MERGE flushes: complete rows in the columns of the table, and keys of target rows, these
only with a WHEN MATCHED arm. -/
theorem mergeFlush_ok {n : MergeNode V} {tgt src : Frame V} {a : Nat × Flush V}
    (h : mergeFlush H i n tgt src = .ok a) :
    (∀ f, a.2.new = some f → f.columns = i.columns ∧ (H.Exact → Required i f)) ∧
      ∀ g ∈ a.2.update.toList ++ a.2.delete.toList, n.matchedArm ≠ none ∧
        (∀ col ∈ i.constraints.primaryKey.getD [], col ∈ tgt.columns) ∧
        ∃ l, g = Frame.ofRows (i.constraints.primaryKey.getD []) l ∧ ∀ r ∈ l, r ∈ tgt.rows := by
  unfold mergeFlush at h
  simp only [bind, Except.bind] at h
  split at h
  · cases h
  · rename_i m hm
    split at h
    · cases h
    · rename_i m' hm'
      have hpairs : ∀ q ∈ m'.pairs, q.1 ∈ tgt.rows := fun q hq =>
        joinRows_ok hm q (maskedPairs_ok hm' q hq)
      split at h
      · cases h
      · rename_i b hb
        split at h
        · cases h
        · rename_i b' hb'
          split at h
          · cases h
          · rename_i new hnew
            cases h
            have hmatched := matchedPart_ok H hpairs hb
            have hnotMatched : H.Exact → ∀ f, b'.2 = some f → Required i f := by
              intro hex
              unfold notMatchedPart at hb'
              split at hb'
              · cases hb'
                exact fun f hf => by cases hf
              · split at hb'
                · cases hb'
                  exact fun f hf => by cases hf
                · exact notMatchedNew_ok H hb' hex
            refine ⟨fun f hf => ?_, hmatched.2⟩
            obtain ⟨hcols, hreq⟩ := combinedNew_ok hnew f hf
            exact ⟨hcols, fun hex => hreq hmatched.1 (hnotMatched hex)⟩

omit [DecidableEq V] in
/-- A MERGE with a MATCHED arm is about a table with a primary key. -/
theorem mergeKey_ok {n : MergeNode V} (h : mergeKey i n = .ok ()) (ha : n.matchedArm ≠ none) :
    ∃ p, i.constraints.primaryKey = some p := by
  unfold mergeKey at h
  cases harm : n.matchedArm with
  | none => exact absurd harm ha
  | some arm =>
    rw [harm] at h
    simp only [bind, Except.bind] at h
    split at h
    · cases h
    · rename_i p hp
      exact ⟨p, requirePk_ok hp⟩

theorem merge_effect (hc : Pristine s) (n : MergeNode V) (hst : st = .merge n) :
    Effect H st s (merge H n s).2 := by
  refine Effect.bind H (Quiet.refl s) (catalogGet_reads n.table s) fun i s₁ hi hq => ?_
  refine Effect.bind H hq (Reads.lift _) fun _ s₂ hkey hq₂ => ?_
  obtain ⟨v, hv, hnone⟩ := refuseInTxn_reads hq₂ "MERGE"
  refine Effect.bind H hq₂ hv fun _ s₃ hvok hq₃ => ?_
  refine Effect.bind H hq₃ (Reads.scan hc hq₃ n.table none) fun tgt s₄ ht hq₄ => ?_
  refine Effect.bind H hq₄ (exec_reads hc hq₄ n.source) fun src s₅ _ hq₅ => ?_
  refine Effect.bind H hq₅ (Reads.lift _) fun w s₆ hw hq₆ => ?_
  split
  · exact Effect.quiet hq₆
  · rw [state_map]
    have hx : s.txn = none := hnone hvok
    have hi' := get_eq_ok.mp hi
    rw [hx] at ht
    obtain ⟨hnew, htomb⟩ := mergeFlush_ok H hw
    refine flush_effect H hc hx hq₆ _ (by rw [hst]; rfl) hi' (fun _ => hnew) (fun he g hg => ?_)
    obtain ⟨harm, hsub, l, rfl, hl⟩ := htomb g hg
    obtain ⟨p, hp⟩ := mergeKey_ok hkey harm
    obtain ⟨f, hf, hfc, hfr⟩ := look_seen he (x := none) (by intro y hy; cases hy) hi'
    rw [hf] at ht
    cases ht
    have hkey' : i.constraints.primaryKey.getD [] = p := by rw [hp, Option.getD_some]
    rw [hkey'] at hsub ⊢
    refine ⟨p, l, hp, fun col hcol => by rw [← hfc]; exact hsub col hcol, rfl, fun r hr => ?_⟩
    have hr' := hl r hr
    rw [hfr] at hr'
    obtain ⟨⟨ts, r'⟩, hy, rfl⟩ := List.mem_map.mp hr'
    exact ⟨ts, hy⟩

/-! ## 3. All statements -/

/-- A restore scans nothing, so its effect asks nothing of the cache. -/
theorem restore_effect (name : String) :
    Effect H (.restoreToSnapshot name) s (sql H (.restoreToSnapshot name) s).2 := by
  rw [sql, state_map (restore name) fun _ => (Result.none : Result V)]
  unfold restore
  rw [Proc.get_bind]
  cases hn : s.eng.snapshots.get? name with
  | none => exact Effect.quiet (Quiet.refl s)
  | some target =>
    simp only
    cases hx : s.txn with
    | some x =>
      have hraise : (restoreTo target s).2 = s := by
        rw [restoreTo, Proc.get_bind, hx]
        rfl
      rw [hraise]
      exact Effect.quiet (Quiet.refl s)
    | none =>
      by_cases hle : target ≤ s.eng.commitTs
      · exact Effect.restore rfl hx hn hle
      · have hraise : (restoreTo target s).2 = s := by
          rw [restoreTo, Proc.get_bind, hx]
          simp only
          rw [if_pos (by omega)]
          rfl
        rw [hraise]
        exact Effect.quiet (Quiet.refl s)

/-- **What `sql` can do.**  Whatever a statement returns or raises, it had one of the effects. -/
theorem sql_effect (hc : Pristine s) (st : Stmt V) : Effect H st s (sql H st s).2 := by
  cases st with
  | select q =>
    rw [sql, state_map]
    exact Effect.quiet (exec_reads hc (Quiet.refl s) q).quiet
  | insert n =>
    rw [sql, state_map]
    exact insert_effect H hc n
  | insertSelect n =>
    rw [sql, state_map]
    exact insertSelect_effect H hc n
  | delete n =>
    rw [sql, state_map]
    exact delete_effect H hc n rfl
  | update n =>
    rw [sql, state_map]
    exact update_effect H hc n rfl
  | merge n =>
    rw [sql, state_map]
    exact merge_effect H hc n rfl
  | begin =>
    rw [sql, state_map begin_ fun _ => (Result.none : Result V)]
    unfold begin_
    split
    · exact Effect.quiet (Quiet.refl s)
    · rename_i hx
      exact Effect.begin rfl hx
  | commit =>
    rw [sql, state_map (commit H) fun _ => (Result.none : Result V)]
    cases hx : s.txn with
    | some x => exact Effect.commit rfl hx
    | none =>
      have hraise : (commit H s).2 = s := by
        rw [commit, Proc.get_bind, hx]
        rfl
      rw [hraise]
      exact Effect.quiet (Quiet.refl s)
  | rollback =>
    rw [sql, state_map rollback fun _ => (Result.none : Result V)]
    unfold rollback
    split
    · exact Effect.quiet (Quiet.refl s)
    · rename_i x hx
      exact Effect.rollback hx
  | createSnapshot name => exact Effect.snapshot name
  | restoreToSnapshot name => exact restore_effect H name
  | rejected y => exact Effect.quiet (Quiet.refl s)

end Statements

end RyuDB.Engine

/-! ## 4. Connections

The invariants of the engine are proved over `Step`, so that a run is any sequence of statements of
any connections, disconnects and restarts.  Each statement may be given faults of its own: a cancel
event that becomes visible at some check, or an aggregate that writes into a cached frame
(`LeavesCache` excludes that one). -/

namespace RyuDB

variable {V : Type}

/-- The engine and the open transactions of the live connections. -/
structure World (V : Type) where
  eng : Engine V
  txns : Dict Nat (Transaction V)

/-- A request, a disconnect, or a restart. -/
inductive Step (V : Type) where
  | sql (c : Nat) (st : Stmt V) (faults : Faults)
  | disconnect (c : Nat)
  | restart

/-- No aggregate of the step's statement writes into a cached frame. -/
def Step.LeavesCache : Step V → Prop
  | .sql _ _ faults => faults.writesBack = false
  | _ => True

namespace World

/-- The session a request of connection `c` runs in. -/
def session (w : World V) (c : Nat) (faults : Faults) : Session V := ⟨w.eng, w.txns.get? c, faults⟩

/-- Store the slot back on the connection. -/
def store (w : World V) (c : Nat) (s : Session V) : World V where
  eng := s.eng
  txns :=
    match s.txn with
    | none => w.txns.erase c
    | some x => w.txns.set c x

@[simp] theorem store_eng (w : World V) (c : Nat) (s : Session V) : (w.store c s).eng = s.eng := rfl

@[simp] theorem store_txns (w : World V) (c d : Nat) (s : Session V) :
    (w.store c s).txns.get? d = if d = c then s.txn else w.txns.get? d := by
  unfold store
  cases hx : s.txn <;> simp

variable [DecidableEq V] (H : Host V)

/-- A statement of connection `c`. -/
def sql (w : World V) (c : Nat) (st : Stmt V) (faults : Faults) :
    Except DbError (Result V) × World V :=
  let p := Engine.sql H st (w.session c faults)
  (p.1, w.store c p.2)

/-- One step. -/
def step (w : World V) : Step V → World V
  | .sql c st faults => (w.sql H c st faults).2
  | .disconnect c => { w with txns := w.txns.erase c }
  | .restart => ⟨Engine.start H w.eng.catalog.dataDir w.eng.disk, ∅⟩

/-- The process just started on a disk. -/
def init (dataDir : Option String) (d : Disk V) : World V := ⟨Engine.start H dataDir d, ∅⟩

/-- A statement that leaves the cached frames alone moves the engine by an effect. -/
theorem sql_effect {w : World V} (hc : Engine.Coherent w.eng) (c : Nat) (st : Stmt V)
    {faults : Faults} (ha : faults.writesBack = false) :
    ∃ s', Engine.Effect H st (w.session c faults) s' ∧ (w.sql H c st faults).2 = w.store c s' :=
  ⟨_, Engine.sql_effect H ⟨hc, ha⟩ st, rfl⟩

omit [DecidableEq V] in
theorem start_coherent (dataDir : Option String) (d : Disk V) :
    Engine.Coherent (Engine.start H dataDir d) := by
  intro t cols f h
  unfold Engine.start at h
  simp only at h
  split at h <;> cases h

end World

end RyuDB
