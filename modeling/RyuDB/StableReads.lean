/-
# Snapshot reads beside restores

A transaction reads the files, and the delta at the timestamp of its BEGIN.  Commits come above that
timestamp, so its reads are stable unless history is rewritten: a checkpoint folds the delta into the
files, where rows have no timestamp, and a restore takes batches away and lets later commits use their
timestamps again.  `_run_admin` refuses both while a live connection has an open transaction.

Two ways lead around the check.  `RESTORE TO SNAPSHOT` is also a statement, and as a statement it looks
at the slot of its own thread only (`restore_beside`).  And a BEGIN that has run and has not been
stored back is a transaction that `has_open_txn` does not see.

* `reads_stable`: in every run of statements, checkpoints, snapshots and restores that takes neither
  way, a transaction sees in a table it has not written the rows that were committed when it began, and
  no history is rewritten while a transaction is open.
-/
import RyuDB.Rewind
import RyuDB.Server

namespace RyuDB

variable {V : Type}

/-! ## 1. Statements above a timestamp -/

namespace Engine

/-- The counter and everything at or below it stay, where the aggregates leave the cached frames alone. -/
def Above (s s' : Session V) : Prop := s'.faults.writesBack = s.faults.writesBack ∧
  (s.faults.writesBack = false → ∀ ts, ts ≤ s.eng.commitTs →
    ts ≤ s'.eng.commitTs ∧ Upon ts s.eng s'.eng)

section Above

variable {H : Host V} {s s' : Session V} {t : String}

theorem Above.of_unmoved (hf : s'.faults.writesBack = s.faults.writesBack)
    (h : s.faults.writesBack = false → Unmoved s.eng s'.eng)
    (hts : s'.eng.commitTs = s.eng.commitTs) : Above s s' :=
  ⟨hf, fun ha ts hle => ⟨by rw [hts]; exact hle, (h ha).upon⟩⟩

theorem Above.refl (s : Session V) : Above s s := ⟨rfl, fun _ ts hle => ⟨hle, Upon.refl ts _⟩⟩

theorem Above.trans (a b c : Session V) (h : Above a b) (h' : Above b c) : Above a c := by
  refine ⟨h'.1.trans h.1, fun ha ts hle => ?_⟩
  obtain ⟨hle', hupon⟩ := h.2 ha ts hle
  obtain ⟨hle'', hupon'⟩ := h'.2 (h.1.trans ha) ts hle'
  exact ⟨hle'', hupon.trans hupon'⟩

/-- **Every statement but a restore** stays above the counter it finds. -/
theorem trail_above : Trail H Above where
  refl := Above.refl
  trans := Above.trans
  quiet s s' hq := Above.of_unmoved hq.alone
    (fun ha => ⟨hq.footed ha, by rw [hq.delta]; exact DeltaStore.Same.refl _⟩) hq.commitTs
  slot s x := Above.refl s
  write bs s := by
    refine ⟨congrArg Faults.writesBack (faults_writeCommit H bs s), fun _ ts hle => ?_⟩
    obtain ⟨hts, hfoot, bs', hd⟩ := writeCommit_state (H := H) bs s
    exact ⟨by omega, Upon.addAll hfoot (by omega) hd⟩
  snapshot name s := Above.of_unmoved rfl
    (fun _ => ⟨Footed.of_same rfl rfl fun _ => rfl, DeltaStore.Same.refl _⟩) rfl

/-- A restore in a transaction, of an unknown snapshot or to the future changes nothing. -/
theorem restore_refused [DecidableEq V] {name : String}
    (h : s.txn = none → ∀ ts, s.eng.snapshots.get? name = some ts → ¬ ts ≤ s.eng.commitTs) :
    (sql H (.restoreToSnapshot name) s).2 = s := by
  have hstate : (sql H (.restoreToSnapshot name) s).2 = (restore name s).2 :=
    state_map (restore name) (fun _ => (Result.none : Result V)) s
  rw [hstate, restore, Proc.get_bind]
  cases hn : s.eng.snapshots.get? name with
  | none => rfl
  | some ts =>
    simp only
    cases hx : s.txn with
    | some x =>
      rw [restoreTo, Proc.get_bind, hx]
      rfl
    | none => exact restoreTo_refused hx (h hx ts hn)

/-- A transaction that is still there after a statement has the snapshot it had. -/
theorem sql_snapshotTs [DecidableEq V] {x y : Transaction V} (hx : s.txn = some x) (st : Stmt V)
    (hy : (sql H st s).2.txn = some y) : y.snapshotTs = x.snapshotTs := by
  by_cases hc : st = .commit
  · subst hc
    cases hr : (sql H .commit s).1 with
    | ok v =>
      obtain ⟨e, he, -⟩ := sql_commit_ok hx hr
      rw [he] at hy
      cases hy
    | error z =>
      rw [(sql_commit_error hx hr).2] at hy
      cases hy
      rfl
  by_cases hb : st = .rollback
  · subst hb
    have hstate : (sql H .rollback s).2 = (rollback s).2 :=
      state_map rollback (fun _ => (Result.none : Result V)) s
    rw [hstate, rollback, hx] at hy
    cases hy
  · obtain ⟨-, z, hz, hts⟩ := sql_confined (H := H) hc hb s x hx
    rw [hz] at hy
    cases hy
    exact hts

end Above

/-! ## 2. Reading on the same footing -/

section Reading

variable [DecidableEq V] {e e' : Engine V} {ts : Int} {t : String}

/-- A full scan reads its base once or twice; when both readings agree it is the base merged with the
entries. -/
theorem glance_none (h : cachedBase e t none = lookBase e t none) (x : Option (Transaction V)) :
    glance e x t none = lookBase e t none >>= fun b =>
      mergePure e.catalog t b (insertEntries ⟨e, x, {}⟩ t) (tombEntries ⟨e, x, {}⟩ t) := by
  rw [← look_none, glance, look]
  simp only [columnSet, h]

/-- **A transaction at `ts` sees the rows of the state in which the counter stood there**, in a table
it has not written, when that state read its base in one way. -/
theorem Upon.visibleIn (h : Upon ts e e') (hcov : CounterCovers e) (hts : e.commitTs = ts)
    (hbase : cachedBase e t none = lookBase e t none) {x : Transaction V} (hx : x.snapshotTs = ts)
    (hw : x.has t = false) : visibleIn e' x t = visible e t := by
  obtain ⟨hc, hl, hp⟩ := h.footed t
  have hown : x.bufferBatches t = [] ∧ x.tombstoneBatchesWithFlag t = [] := by
    rwa [← Bool.not_eq_true, Transaction.has_iff, not_or, not_not, not_not] at hw
  have hall : ∀ {α : Type} (l : List (Int × α)), (∀ b ∈ l, b.1 ≤ e.commitTs) →
      l.filter (fun b => decide (b.1 ≤ ts)) = l := by
    intro α l hl
    refine List.filter_eq_self.mpr fun b hb => ?_
    have := hl b hb
    rw [hts] at this
    simpa using this
  have hins : insertEntries ⟨e', some x, {}⟩ t = insertEntries ⟨e, none, {}⟩ t := by
    change e'.delta.batchesAtWithTs t x.snapshotTs ++ _ = e.delta.batchesWithTs t
    rw [hx, h.batches, hown.1, DeltaStore.batchesAtWithTs_eq, hall _ (hcov t).1, List.map_nil,
      List.append_nil]
  have htomb : tombEntries ⟨e', some x, {}⟩ t = tombEntries ⟨e, none, {}⟩ t := by
    change e'.delta.tombstonesAtWithTs t x.snapshotTs ++ _ = e.delta.tombstonesWithTs t
    rw [hx, h.tombstones, hown.2, DeltaStore.tombstonesAtWithTs_eq, hall _ (hcov t).2, List.map_nil,
      List.append_nil]
  have hmerge : ∀ base ins tomb, mergePure e'.catalog t base ins tomb =
      mergePure e.catalog t base ins tomb := by
    intro base ins tomb
    unfold mergePure
    rw [hp]
  rw [visibleIn_glance, visible_glance, glance_none hbase, glance_none (by rw [hc, hl, hbase]), hl,
    hins, htomb]
  simp only [hmerge]

end Reading

end Engine

/-! ## 3. Open transactions -/

/-- The action rewrites history. -/
def Admin.rewrites : Admin V → Bool
  | .checkpoint => true
  | .restore _ => true
  | .restoreTo _ => true
  | _ => false

/-- The snapshot a statement goes back to. -/
def Stmt.restores : Stmt V → Option String
  | .restoreToSnapshot name => some name
  | _ => none

theorem Stmt.restores_some {st : Stmt V} {name : String} (h : st.restores = some name) :
    st = .restoreToSnapshot name := by
  unfold Stmt.restores at h
  split at h
  · cases h
    rfl
  · cases h

namespace Server

/-- Transaction `k` is open: a live connection refers to it, or a request of one holds it. -/
def Open (s : Server V) (k : Nat) : Prop := ∃ c, c ∉ s.closed ∧ (s.txns.get? c = some k ∨
  ∃ i a, s.requests.get? i = some a ∧ a.conn = c ∧ a.slot = some k)

/-- The move belongs to a statement or a disconnect, or is a checkpoint, snapshot or restore request. -/
def Move.ordinary : Move V → Bool
  | .admin (.snapshot _) _ => true
  | .admin a _ => a.rewrites
  | .upload _ _ _ => false
  | _ => true

/-- The move is a checkpoint or restore request, or runs a RESTORE TO SNAPSHOT. -/
def Rewrites (s : Server V) : Move V → Prop
  | .run i => ∃ a, s.requests.get? i = some a ∧ a.result = none ∧ a.stmt.restores.isSome = true
  | .admin a _ => a.rewrites = true
  | _ => False

/-- While a transaction is open, no aggregate of a statement writes into a cached frame, and no RESTORE TO
SNAPSHOT passes the checks of `restore`; and no checkpoint or restore request finds all connections
without a transaction while a request of one holds one. -/
def Guarded (s : Server V) : Move V → Prop
  | .run i => ∀ a ∈ s.requests.get? i, a.result = none →
      (a.faults.writesBack = true → ∀ k, ¬ s.Open k) ∧ (s.deref a.slot = none →
        ∀ name ∈ a.stmt.restores, ∀ ts ∈ s.eng.snapshots.get? name, ts ≤ s.eng.commitTs →
          ∀ k, ¬ s.Open k)
  | .admin a _ => a.rewrites = true → s.hasOpenTxn = false →
      ∀ i b, s.requests.get? i = some b → b.conn ∉ s.closed → b.slot = none
  | _ => True

theorem hasOpenTxn_iff {s : Server V} :
    s.hasOpenTxn = true ↔ ∃ c k, c ∉ s.closed ∧ s.txns.get? c = some k := by
  rw [hasOpenTxn, List.any_eq_true]
  constructor
  · rintro ⟨c, hc, hl⟩
    obtain ⟨k, hk⟩ := (s.txns.mem_keys c).mp hc
    exact ⟨c, k, of_decide_eq_true hl, hk⟩
  · rintro ⟨c, k, hl, hk⟩
    exact ⟨c, (s.txns.mem_keys c).mpr ⟨k, hk⟩, decide_eq_true hl⟩

/-- What `has_open_txn` overlooks is held by requests. -/
theorem not_open {s : Server V} (h : s.hasOpenTxn = false)
    (hr : ∀ i b, s.requests.get? i = some b → b.conn ∉ s.closed → b.slot = none) (k : Nat) :
    ¬ s.Open k := by
  rintro ⟨c, hc, hk | ⟨i, a, hi, rfl, hk⟩⟩
  · have := hasOpenTxn_iff.mpr ⟨c, k, hc, hk⟩
    rw [h] at this
    cases this
  · rw [hr i a hi hc] at hk
    cases hk

instance (s : Server V) : Decidable (∀ k, ¬ s.Open k) :=
  decidable_of_iff (s.hasOpenTxn = false ∧
    ∀ e ∈ s.requests.entries, e.2.conn ∉ s.closed → e.2.slot = none) <| by
  simp only [Prod.forall, Dict.mem_entries]
  refine ⟨fun h k => not_open h.1 h.2 k, fun h => ⟨?_, fun i b hi hb => ?_⟩⟩
  · by_contra hopen
    obtain ⟨c, k, hc, hk⟩ := hasOpenTxn_iff.mp (Bool.eq_true_of_not_eq_false hopen)
    exact h k ⟨c, hc, Or.inl hk⟩
  · by_contra hslot
    obtain ⟨k, hk⟩ := Option.ne_none_iff_exists'.mp hslot
    exact h k ⟨b.conn, hb, Or.inr ⟨i, b, hi, rfl, hk⟩⟩

instance (s : Server V) : DecidablePred (Guarded s)
  | .run i => inferInstanceAs (Decidable (∀ a ∈ s.requests.get? i, _ → (_ → _) ∧ (_ → ∀ name ∈ _, ∀ ts ∈ _, _)))
  | .admin a _ => decidable_of_iff (a.rewrites = true → s.hasOpenTxn = false →
      ∀ e ∈ s.requests.entries, e.2.conn ∉ s.closed → e.2.slot = none) <| by
    simp only [Guarded, Prod.forall, Dict.mem_entries]
  | .load _ _ _ _ => .isTrue trivial
  | .store _ => .isTrue trivial
  | .upload _ _ _ => .isTrue trivial
  | .disconnect _ => .isTrue trivial

section Steps

variable [DecidableEq V] {H : Host V} {s : Server V} {k : Nat}

/-- No move opens a transaction that was there before. -/
theorem Open.before {m : Move V} (hk : k < s.objects.length) (h : (s.step H m).Open k) :
    s.Open k := by
  have hmoves := step_moves H s m
  generalize s.step H m = s' at hmoves h
  obtain ⟨c, hc, h⟩ := h
  cases hmoves with
  | idle => exact ⟨c, hc, h⟩
  | @load i c' st faults hi =>
    rcases h with h | ⟨j, b, hb, rfl, h⟩
    · exact ⟨c, hc, Or.inl h⟩
    · change (s.requests.set i _).get? j = _ at hb
      rw [Dict.get?_set] at hb
      split at hb
      · cases hb
        exact ⟨c', hc, Or.inl h⟩
      · exact ⟨b.conn, hc, Or.inr ⟨j, b, hb, rfl, h⟩⟩
  | @run i a hi hr =>
    rcases h with h | ⟨j, b, hb, rfl, h⟩
    · exact ⟨c, hc, Or.inl h⟩
    · change (s.requests.set i _).get? j = _ at hb
      rw [Dict.get?_set] at hb
      split at hb
      · cases hb
        rcases settle_slot.2 k h with h | ⟨h, -⟩
        · exact ⟨a.conn, hc, Or.inr ⟨i, a, hi, rfl, h⟩⟩
        · omega
      · exact ⟨b.conn, hc, Or.inr ⟨j, b, hb, rfl, h⟩⟩
  | @store i a hi hr =>
    rcases h with h | ⟨j, b, hb, rfl, h⟩
    · rw [storeBack_txns] at h
      split at h
      · rename_i hca
        subst hca
        exact ⟨a.conn, hc, Or.inr ⟨i, a, hi, rfl, h⟩⟩
      · exact ⟨c, hc, Or.inl h⟩
    · change (s.requests.erase i).get? j = _ at hb
      rw [Dict.get?_erase] at hb
      split at hb
      · cases hb
      · exact ⟨b.conn, hc, Or.inr ⟨j, b, hb, rfl, h⟩⟩
  | admin a faults => exact ⟨c, hc, h⟩
  | upload t p payload => exact ⟨c, hc, h⟩
  | disconnect c' => exact ⟨c, fun hmem => hc (List.mem_cons_of_mem _ hmem), h⟩

theorem load_request {i : Nat} (hi : s.requests.get? i = none) (c : Nat) (st : Stmt V)
    (faults : Faults) : (s.step H (.load i c st faults)).requests.get? i =
      some ⟨c, st, faults, s.txns.get? c, none, none⟩ := by
  rw [step, hi]
  change (s.requests.set i _).get? i = _
  rw [Dict.get?_set, if_pos rfl]

/-- **A guarded move to rewrite history does nothing while a transaction is open.** -/
theorem Guarded.refused {m : Move V} (hg : Guarded s m) (ho : s.Open k) (hm : Rewrites s m) :
    (s.step H m).eng = s.eng := by
  cases m with
  | run i =>
    obtain ⟨a, hi, hr, hst⟩ := hm
    obtain ⟨name, hname⟩ := Option.isSome_iff_exists.mp hst
    have hstep : s.step H (.run i) = s.runSql H i a := by
      rw [step, hi]
      simp only [hr, Option.isNone_none, if_true]
    have hsame : (s.outcome H a).2 = ⟨s.eng, s.deref a.slot, a.faults⟩ := by
      rw [outcome, Stmt.restores_some hname]
      exact Engine.restore_refused fun hx ts hn hle => (hg a hi hr).2 hx name hname ts hn hle k ho
    rw [hstep]
    change (s.outcome H a).2.eng = s.eng
    rw [hsame]
  | admin a faults =>
    cases hopen : s.hasOpenTxn with
    | false => exact absurd ho (not_open hopen (hg hm hopen) k)
    | true =>
      change (Engine.runAdmin H s.hasOpenTxn a ⟨s.eng, none, faults⟩).2.eng = s.eng
      rw [hopen]
      cases a <;> first | rfl | cases hm
  | _ => exact absurd hm id

/-- **A guarded move stays above the counter** while a transaction is open. -/
theorem Guarded.above {m : Move V} (hg : Guarded s m) (ho : s.Open k) (hm : m.ordinary = true)
    {ts : Int} (hle : ts ≤ s.eng.commitTs) :
    ts ≤ (s.step H m).eng.commitTs ∧ Engine.Upon ts s.eng (s.step H m).eng := by
  by_cases hrw : Rewrites s m
  · rw [hg.refused ho hrw]
    exact ⟨hle, Engine.Upon.refl ts _⟩
  have hmoves := step_moves H s m
  generalize s.step H m = s' at hmoves
  cases hmoves with
  | idle => exact ⟨hle, Engine.Upon.refl ts _⟩
  | load c st faults hi => exact ⟨hle, Engine.Upon.refl ts _⟩
  | @run i a hi hr =>
    have hst : ∀ name, a.stmt ≠ .restoreToSnapshot name := fun name hst =>
      hrw ⟨a, hi, hr, by rw [hst]; rfl⟩
    have ha : a.faults.writesBack = false :=
      Bool.eq_false_iff.mpr fun hw => (hg a hi hr).1 hw k ho
    exact (Engine.trail_above.sql (H := H) hst ⟨s.eng, s.deref a.slot, a.faults⟩).2 ha ts hle
  | store hi hr => exact ⟨hle, Engine.Upon.refl ts _⟩
  | admin a faults =>
    cases a with
    | snapshot name => exact (Engine.trail_above.snapshot (H := H) name ⟨s.eng, none, {}⟩).2 rfl ts hle
    | checkpoint => exact absurd rfl hrw
    | restore name => exact absurd rfl hrw
    | restoreTo ts => exact absurd rfl hrw
    | _ => cases hm
  | upload t p payload => cases hm
  | disconnect c => exact ⟨hle, Engine.Upon.refl ts _⟩

/-- A move changes a transaction in its writes only. -/
theorem step_object {m : Move V} {x : Transaction V} (hx : s.objects[k]? = some x) :
    ∃ y, (s.step H m).objects[k]? = some y ∧ y.snapshotTs = x.snapshotTs := by
  have hmoves := step_moves H s m
  generalize s.step H m = s' at hmoves
  have hk : k < s.objects.length := (List.getElem?_eq_some_iff.mp hx).1
  cases hmoves with
  | @run i a hi hr =>
    change ∃ y, (settle s.objects a.slot (s.outcome H a).2.txn).1[k]? = some y ∧ _
    cases hy : (s.outcome H a).2.txn with
    | none => exact ⟨x, hx, rfl⟩
    | some y =>
      cases hslot : a.slot with
      | none => exact ⟨x, by rw [settle, List.getElem?_append_left hk, hx], rfl⟩
      | some j =>
        by_cases hj : j = k
        · subst hj
          refine ⟨y, by rw [settle, List.getElem?_set_self hk], ?_⟩
          refine Engine.sql_snapshotTs (H := H) (s := ⟨s.eng, some x, a.faults⟩) rfl a.stmt ?_
          rw [outcome, hslot, deref, Option.bind_some, hx] at hy
          exact hy
        · exact ⟨x, by rw [settle, List.getElem?_set_ne hj, hx], rfl⟩
  | _ => exact ⟨x, hx, rfl⟩

/-- The counter covers the delta. -/
theorem step_covers {m : Move V} (hcov : CounterCovers s.eng) :
    CounterCovers (s.step H m).eng := by
  have hmoves := step_moves H s m
  generalize s.step H m = s' at hmoves
  cases hmoves with
  | run hi hr => exact ((Engine.sql_touch _).counter hcov).1
  | admin a faults => exact (Engine.runAdmin_counter (s := ⟨s.eng, none, faults⟩) _ a rfl hcov).1
  | upload t p payload => exact (Engine.runUpload_lessens t p payload ⟨s.eng, none, {}⟩).covers hcov
  | _ => exact hcov

end Steps

/-! ## 4. From BEGIN on -/

/-- What holds of an open transaction `k` that began when the engine was `e`. -/
structure Since (e : Engine V) (k : Nat) (s : Server V) : Prop where
  object : ∃ x, s.objects[k]? = some x ∧ x.snapshotTs = e.commitTs
  upon : s.Open k → e.commitTs ≤ s.eng.commitTs ∧ Engine.Upon e.commitTs e s.eng

section Runs

variable [DecidableEq V] {H : Host V} {s : Server V} {e : Engine V} {k : Nat}

theorem Since.step (h : Since e k s) {m : Move V} (hg : Guarded s m) (hm : m.ordinary = true) :
    Since e k (s.step H m) := by
  obtain ⟨x, hx, hts⟩ := h.object
  obtain ⟨y, hy, hts'⟩ := step_object (H := H) (m := m) hx
  refine ⟨⟨y, hy, hts'.trans hts⟩, fun ho => ?_⟩
  have hk : k < s.objects.length := (List.getElem?_eq_some_iff.mp hx).1
  have ho' := ho.before hk
  obtain ⟨hle, hupon⟩ := h.upon ho'
  obtain ⟨hle', hupon'⟩ := hg.above (H := H) ho' hm hle
  exact ⟨hle', hupon.trans hupon'⟩

/-- BEGIN makes a transaction at the counter. -/
theorem since_begin {i : Nat} {a : Request V} (hi : s.requests.get? i = some a)
    (hr : a.result = none) (hst : a.stmt = .begin) (hslot : a.slot = none) :
    Since s.eng s.objects.length (s.step H (.run i)) := by
  have hstep : s.step H (.run i) = s.runSql H i a := by
    rw [step, hi]
    simp only [hr, Option.isNone_none, if_true]
  have hout : s.outcome H a = (.ok .none, ⟨s.eng, some { snapshotTs := s.eng.commitTs }, a.faults⟩) := by
    rw [outcome, hst, hslot]
    rfl
  rw [hstep]
  refine ⟨⟨{ snapshotTs := s.eng.commitTs }, ?_, rfl⟩, fun _ => ?_⟩
  · change (settle s.objects a.slot (s.outcome H a).2.txn).1[s.objects.length]? = _
    rw [hout, hslot]
    exact List.getElem?_concat_length
  · change _ ≤ (s.outcome H a).2.eng.commitTs ∧ Engine.Upon _ _ (s.outcome H a).2.eng
    rw [hout]
    exact ⟨le_refl _, Engine.Upon.refl _ _⟩

/-- **Snapshot reads are stable.**  In a run of statements, checkpoints, snapshots and restores of any
connections, in which no RESTORE TO SNAPSHOT goes through and no aggregate writes into a cached frame while a
transaction is open and no checkpoint or restore request misses one that a request in flight holds: a
transaction that began in the state `s₀` sees, for as long as it is open, in every table it has not written
whose cached base was then what the files hold, exactly the rows committed in `s₀`; and no move rewrites
history while a transaction is open. -/
theorem reads_stable (dir : Option String) (d : Disk V) {l₁ l₂ : List (Move V)} {i : Nat}
    {a : Request V} {s₀ s : Server V} (hs₀ : s₀ = Run.run (step H) (init H dir d) l₁)
    (hs : s = Run.run (step H) (init H dir d) (l₁ ++ .run i :: l₂))
    (hord : ∀ m ∈ l₁ ++ .run i :: l₂, m.ordinary = true)
    (hguard : Run.Along (step H) Guarded (init H dir d) (l₁ ++ .run i :: l₂))
    (hi : s₀.requests.get? i = some a) (hr : a.result = none) (hst : a.stmt = .begin)
    (hslot : a.slot = none) :
    (s.Open s₀.objects.length → ∀ x, s.objects[s₀.objects.length]? = some x → ∀ t, x.has t = false →
      Engine.cachedBase s₀.eng t none = Engine.lookBase s₀.eng t none →
        Engine.visibleIn s.eng x t = Engine.visible s₀.eng t) ∧
    Run.Along (step H) (fun s m => (∃ k, s.Open k) → Rewrites s m → (s.step H m).eng = s.eng)
      (init H dir d) (l₁ ++ .run i :: l₂) := by
  refine ⟨fun ho x hx t hw hbase => ?_, Run.Along.mono (fun s m hg ⟨k, hk⟩ hm =>
    hg.refused hk hm) hguard⟩
  have hcov : CounterCovers s₀.eng := by
    rw [hs₀]
    exact Run.Along.invariant (P := fun s : Server V => CounterCovers s.eng)
      (fun s m h _ => step_covers h) (Engine.start_covers dir d) (Run.Along.append.mp hguard).1
  have hrest : Run.Along (step H) (fun s m => Guarded s m ∧ m.ordinary = true)
      (s₀.step H (.run i)) l₂ := by
    rw [hs₀]
    refine Run.Along.and (Run.Along.append.mp hguard).2.2 (Run.Along.of_forall fun m hm => ?_)
    exact hord m (by simp [hm])
  have hsince : Since s₀.eng s₀.objects.length s := by
    rw [hs, Run.run_append, Run.run_cons, ← hs₀]
    exact Run.Along.invariant (fun s m h hm => h.step hm.1 hm.2) (since_begin hi hr hst hslot) hrest
  obtain ⟨y, hy, hts⟩ := hsince.object
  rw [hx] at hy
  cases hy
  exact (hsince.upon ho).2.visibleIn hcov rfl hbase hts hw

end Runs

/-! ## 5. Restores and checkpoints beside a transaction -/

/-- What transaction `k` sees in the column `k` of a table, and whether it has written to it. -/
def sees (s : Server Nat) (k : Nat) (t : String) :
    Option (Bool × Except DbError (List (Cell Nat))) :=
  s.objects[k]?.map fun x => (x.has t, World.column (Engine.visibleIn s.eng x t))

theorem sees_some {s : Server Nat} {k : Nat} {t : String} {w : Bool}
    {r : Except DbError (List (Cell Nat))} (h : s.sees k t = some (w, r)) :
    ∃ x, s.objects[k]? = some x ∧ x.has t = w ∧ World.column (Engine.visibleIn s.eng x t) = r := by
  obtain ⟨x, hx, heq⟩ := Option.map_eq_some_iff.mp h
  exact ⟨x, hx, (Prod.mk.inj heq).1, (Prod.mk.inj heq).2⟩

/-- The server after some moves on a data directory with one table. -/
def onOneTable (l : List (Move Nat)) : Server Nat :=
  Run.run (step natHost) (init natHost (some "d") oneTable) l

/-- A snapshot, a row, and a BEGIN that is about to run. -/
def beforeBegin : List (Move Nat) :=
  alone 1 (.createSnapshot "a") ++ alone 1 (insertKey "t" 1) ++ [.load 0 0 .begin {}]

/-- Another connection goes back to the snapshot and inserts another row. -/
def thenRestore : List (Move Nat) :=
  .store 0 :: (alone 1 (.restoreToSnapshot "a") ++ alone 1 (insertKey "t" 2))

/-- **A restore beside a transaction.**  No requests overlap; the restore goes through, the row that
was committed when the transaction began is gone, and one that was committed later is there. -/
theorem restore_beside :
    (∀ m ∈ beforeBegin ++ .run 0 :: thenRestore, m.ordinary = true) ∧
      (onOneTable (beforeBegin ++ .run 0 :: thenRestore)).Open (onOneTable beforeBegin).objects.length ∧
        ∃ x, (onOneTable (beforeBegin ++ .run 0 :: thenRestore)).objects[
            (onOneTable beforeBegin).objects.length]? = some x ∧ x.has "t" = false ∧
          Engine.visibleIn (onOneTable (beforeBegin ++ .run 0 :: thenRestore)).eng x "t" ≠
            Engine.visible (onOneTable beforeBegin).eng "t" := by
  have hnone : (onOneTable beforeBegin).objects.length = 0 := by decide +kernel
  rw [hnone]
  have hopen : (onOneTable (beforeBegin ++ .run 0 :: thenRestore)).txns.get? 0 = some 0 := by
    decide +kernel
  have hbefore : World.column (Engine.visible (onOneTable beforeBegin).eng "t") = .ok [some 1] := by
    decide +kernel
  have hafter : (onOneTable (beforeBegin ++ .run 0 :: thenRestore)).sees 0 "t" =
      some (false, .ok [some 2]) := by decide +kernel
  obtain ⟨x, hx, hw, hsees⟩ := sees_some hafter
  refine ⟨by decide, ⟨0, by decide +kernel, Or.inl hopen⟩, x, hx, hw, fun heq => ?_⟩
  rw [heq, hbefore] at hsees
  cases hsees

/-- A row of another connection and a checkpoint, before the BEGIN is stored back. -/
def thenCheckpoint : List (Move Nat) :=
  [.load 1 1 (insertKey "t" 2) {}, .run 1, .store 1, .admin .checkpoint {}, .store 0]

/-- **A checkpoint beside a BEGIN.**  `has_open_txn` does not see the transaction yet. -/
theorem checkpoint_beside :
    ∃ x, (onOneTable (beforeBegin ++ .run 0 :: thenCheckpoint)).objects[0]? = some x ∧
      x.has "t" = false ∧
        Engine.visibleIn (onOneTable (beforeBegin ++ .run 0 :: thenCheckpoint)).eng x "t" ≠
          Engine.visible (onOneTable beforeBegin).eng "t" := by
  have hbefore : World.column (Engine.visible (onOneTable beforeBegin).eng "t") = .ok [some 1] := by
    decide +kernel
  have hafter : (onOneTable (beforeBegin ++ .run 0 :: thenCheckpoint)).sees 0 "t" =
      some (false, .ok [some 1, some 2]) := by decide +kernel
  obtain ⟨x, hx, hw, hsees⟩ := sees_some hafter
  refine ⟨x, hx, hw, fun heq => ?_⟩
  rw [heq, hbefore] at hsees
  cases hsees

/-- Rows come and go, a checkpoint and a restore are refused, and so is a restore of the transaction's
own connection. -/
def thenOthers : List (Move Nat) :=
  .store 0 :: (alone 1 (insertKey "t" 2) ++ [.admin .checkpoint {}, .admin (.restore "a") {}] ++
    alone 1 (deleteKey "t" 1) ++ alone 0 (.restoreToSnapshot "a"))

theorem reads_stable_others :
    (onOneTable (beforeBegin ++ .run 0 :: thenOthers)).sees 0 "t" = some (false, .ok [some 1]) := by
  have hset : (onOneTable beforeBegin).objects.length = 0 := by decide +kernel
  have hsome : ((onOneTable (beforeBegin ++ .run 0 :: thenOthers)).objects[0]?).map
      (fun x => x.has "t") = some false := by decide +kernel
  obtain ⟨x, hx, hw⟩ := Option.map_eq_some_iff.mp hsome
  have hopen : (onOneTable (beforeBegin ++ .run 0 :: thenOthers)).txns.get? 0 = some 0 := by
    decide +kernel
  have hbefore : World.column (Engine.visible (onOneTable beforeBegin).eng "t") = .ok [some 1] := by
    decide +kernel
  have hcache : (onOneTable beforeBegin).eng.scanCache.get? ("t", none) = none := by decide +kernel
  have hbase : Engine.cachedBase (onOneTable beforeBegin).eng "t" none =
      Engine.lookBase (onOneTable beforeBegin).eng "t" none := by rw [Engine.cachedBase, hcache]
  have hrequest := load_request (H := natHost) (s := onOneTable
    (alone 1 (.createSnapshot "a") ++ alone 1 (insertKey "t" 1))) (i := 0) (by decide +kernel) 0
      .begin {}
  have hstep : (onOneTable (alone 1 (.createSnapshot "a") ++ alone 1 (insertKey "t" 1))).step natHost
      (.load 0 0 .begin {}) = onOneTable beforeBegin := by
    rw [onOneTable, onOneTable, beforeBegin, Run.run_append _ (alone _ _ ++ alone _ _)]
    rfl
  have hslot : (onOneTable (alone 1 (.createSnapshot "a") ++ alone 1 (insertKey "t" 1))).txns.get? 0 =
      none := by decide +kernel
  rw [hstep, hslot] at hrequest
  have h := (reads_stable (H := natHost) (some "d") oneTable
    (show onOneTable beforeBegin = _ from rfl)
    (show onOneTable (beforeBegin ++ .run 0 :: thenOthers) = _ from rfl) (by decide +kernel)
    (by decide +kernel) hrequest rfl rfl rfl).1
      (by rw [hset]; exact ⟨0, by decide +kernel, Or.inl hopen⟩) x (by rw [hset]; exact hx) "t" hw hbase
  rw [sees, hx, Option.map_some, hw]
  change some (false, World.column (Engine.visibleIn _ x "t")) = _
  rw [h, hbefore]

end Server

end RyuDB
