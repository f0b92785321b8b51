/-
# The log in order

`WAL.truncate` cuts the file at the first record past a timestamp.  On any bytes it ends and leaves a
prefix (`keepUntil_fuel`, `keepUntil_le`); that the cut is a filter rests on the timestamps of the
records, which have to increase.  `Filed` says that they do: the file holds commits with increasing
timestamps up to the counter, and of each table the delta holds the commits after some timestamp,
the last one a checkpoint folded.

A run here is made of acts and of crashes: a process may die between two acts, while any number of
bytes of a commit record have reached the file, or right after a truncation.  Failed commits skip
timestamps, restores use them again, checkpoints empty the file and start-up reads the counter off
it; `filed_step` says that `Filed` survives all of them.  So truncating the log and rewinding the
delta is the same filter in every state reached (`truncation_filters`).

One fault is excluded.  `_restore_to` sets the counter back before it truncates the log, so after a
truncation that raised the next commits append timestamps the file already holds, and the cut is no
filter any more (`timestamps_reused`).
-/
import RyuDB.Rewind
import RyuDB.WalFormat

namespace RyuDB

variable {V : Type}

/-! ## 1. Truncating any bytes -/

section Bytes

variable {maxTs : Int}

/-- The loop ends by itself: a turn reads a header, so a turn for each byte is enough. -/
theorem keepUntil_fuel : ∀ {fuel fuel' : Nat} {bs : Bytes}, bs.length ≤ fuel → bs.length ≤ fuel' →
    Wal.keepUntil maxTs fuel bs = Wal.keepUntil maxTs fuel' bs
  | 0, fuel', bs, h, _ => by
    have hbs : bs = [] := List.length_eq_zero_iff.mp (Nat.le_zero.mp h)
    subst hbs
    cases fuel' <;> rfl
  | fuel + 1, 0, bs, _, h' => by
    have hbs : bs = [] := List.length_eq_zero_iff.mp (Nat.le_zero.mp h')
    subst hbs
    rfl
  | fuel + 1, fuel' + 1, bs, h, h' => by
    rw [Wal.keepUntil, Wal.keepUntil]
    cases hn : nextRecord bs with
    | none => rfl
    | some q =>
      obtain ⟨payload, rest⟩ := q
      obtain ⟨r, rfl, hr, -⟩ := nextRecord_some hn
      rw [List.length_append] at h h'
      have ih : Wal.keepUntil maxTs fuel rest = Wal.keepUntil maxTs fuel' rest :=
        keepUntil_fuel (by omega) (by omega)
      simp only [ih]

end Bytes

/-- The timestamps the loop of `truncate` meets when it is to drop nothing. -/
def Wal.timestamps : Nat → Bytes → List Int
  | 0, _ => []
  | fuel + 1, bs =>
    match nextRecord bs with
    | none => []
    | some (payload, rest) =>
      match Bytes.takeLE 8 payload with
      | none => []
      | some (ts, _) => ts :: Wal.timestamps fuel rest

section Logs

variable {H : Host V} {log : List (LogEntry V)} {file : Bytes}

theorem Encodes.timestamps (h : Encodes H log file) : ∀ {fuel : Nat}, log.length ≤ fuel →
    Wal.timestamps fuel file = log.map Prod.fst := by
  induction h with
  | nil =>
    intro fuel _
    cases fuel <;> rfl
  | @cons ts bs log r file hr _ ih =>
    intro fuel hf
    cases fuel with
    | zero => simp at hf
    | succ n =>
      obtain ⟨p, hp, -, hnext⟩ := nextRecord_append H hr file
      obtain ⟨rest, htake⟩ := takeLE_payload H hp
      have h0 : 0 ≤ ts := (encodePayload_ok H hp).1
      have hrest : Wal.timestamps n file = log.map Prod.fst :=
        ih (by simp only [List.length_cons] at hf; omega)
      simp only [Wal.timestamps, hnext, htake, hrest, List.map_cons, Int.toNat_of_nonneg h0]

/-- Timestamps are written unsigned. -/
theorem Encodes.nonneg (h : Encodes H log file) : ∀ c ∈ log, 0 ≤ c.1 := by
  induction h with
  | nil => exact fun c hc => by cases hc
  | cons hr _ ih =>
    intro c hc
    rcases List.mem_cons.mp hc with rfl | hc
    · obtain ⟨p, hp, -⟩ := buildRecord_ok H hr
      exact (encodePayload_ok H hp).1
    · exact ih c hc

end Logs

/-! ## 2. Logs in order -/

/-- The commits after `k`. -/
def after (k : Int) (log : List (LogEntry V)) : List (LogEntry V) :=
  log.filter fun c => decide (k < c.1)

/-- The commits up to `k`. -/
def upTo (k : Int) (log : List (LogEntry V)) : List (LogEntry V) :=
  log.filter fun c => decide (c.1 ≤ k)

section Cuts

variable {log : List (LogEntry V)} {k k' : Int}

theorem mem_upTo {c : LogEntry V} : c ∈ upTo k log ↔ c ∈ log ∧ c.1 ≤ k := by
  simp [upTo]

theorem after_eq_self (h : ∀ c ∈ log, k < c.1) : after k log = log :=
  List.filter_eq_self.mpr fun c hc => by simpa using h c hc

theorem after_eq_nil (h : ∀ c ∈ log, c.1 ≤ k) : after k log = [] :=
  List.filter_eq_nil_iff.mpr fun c hc => by simpa using h c hc

theorem after_snoc {c : LogEntry V} (h : k < c.1) : after k (log ++ [c]) = after k log ++ [c] := by
  simp [after, List.filter_append, h]

theorem upTo_after : upTo k' (after k log) = after k (upTo k' log) := by
  simp only [upTo, after, List.filter_filter, Bool.and_comm]

/-- Below a cut the commits after `k` are those after the lower of the two. -/
theorem after_upTo_min : after (min k k') (upTo k' log) = after k (upTo k' log) := by
  refine List.filter_congr fun c hc => ?_
  have hle := (mem_upTo.mp hc).2
  rw [decide_eq_decide]
  omega

theorem upTo_increasing (h : (log.map Prod.fst).Pairwise (· < ·)) :
    ((upTo k log).map Prod.fst).Pairwise (· < ·) :=
  h.sublist (List.filter_sublist.map _)

end Cuts

/-- The file holds the commits `log` with increasing timestamps up to the counter, and of each table
the delta holds the commits after some timestamp. -/
structure Filed (H : Host V) (e : Engine V) (log : List (LogEntry V)) : Prop where
  enabled : e.walEnabled = true
  file : Encodes H log (e.disk.wal.getD [])
  increasing : (log.map Prod.fst).Pairwise (· < ·)
  bounds : ∀ c ∈ log, c.1 ≤ e.commitTs
  nonempty : ∀ c ∈ log, c.2 ≠ []
  memory : ∀ t, ∃ k, k ≤ e.commitTs ∧ Describes (after k log) e.delta t

namespace Filed

variable {H : Host V} {e e' : Engine V} {log : List (LogEntry V)} {s : Session V}

theorem congr (h : Filed H e log) (hen : e'.walEnabled = e.walEnabled)
    (hwal : e'.disk.wal = e.disk.wal) (hd : e'.delta = e.delta) (hts : e'.commitTs = e.commitTs) :
    Filed H e' log where
  enabled := by rw [hen]; exact h.enabled
  file := by rw [hwal]; exact h.file
  increasing := h.increasing
  bounds := by rw [hts]; exact h.bounds
  nonempty := h.nonempty
  memory := by rw [hd, hts]; exact h.memory

theorem increasing_snoc (h : Filed H e log) (bs : List (Batch V)) :
    ((log ++ [(e.commitTs + 1, bs)]).map Prod.fst).Pairwise (· < ·) := by
  rw [List.map_append, List.pairwise_append]
  refine ⟨h.increasing, by simp, fun a ha b hb => ?_⟩
  obtain ⟨c, hc, rfl⟩ := List.mem_map.mp ha
  rw [List.mem_singleton.mp hb]
  exact Int.lt_add_one_of_le (h.bounds c hc)

theorem nonempty_snoc (h : Filed H e log) {bs : List (Batch V)} (hne : bs ≠ []) :
    ∀ c ∈ log ++ [(e.commitTs + 1, bs)], c.2 ≠ [] := by
  intro c hc
  rcases List.mem_append.mp hc with hc | hc
  · exact h.nonempty c hc
  · rw [List.mem_singleton.mp hc]
    exact hne

/-- A commit appends a record past all others, or skips a timestamp. -/
theorem writeCommit (h : Filed H s.eng log) (hf : Engine.Restored s) (bs : List (Batch V)) :
    ∃ log', Filed H (Engine.writeCommit H bs s).2.eng log' := by
  rcases Engine.writeCommit_cases h.enabled hf bs with ⟨wal, hwal, he⟩ | ⟨r, hne, hr, he⟩
  · refine ⟨log, ?_⟩
    rw [he]
    refine ⟨h.enabled, ?_, h.increasing, fun c hc => ?_, h.nonempty, fun t => ?_⟩
    · rw [hwal]
      exact h.file
    · exact Int.le_add_one (h.bounds c hc)
    · obtain ⟨k, hk, hd⟩ := h.memory t
      exact ⟨k, Int.le_add_one hk, hd⟩
  · refine ⟨log ++ [(s.eng.commitTs + 1, bs)], ?_⟩
    rw [he]
    refine ⟨h.enabled, h.file.snoc hr, h.increasing_snoc bs, fun c hc => ?_, h.nonempty_snoc hne,
      fun t => ?_⟩
    · rcases List.mem_append.mp hc with hc | hc
      · exact Int.le_add_one (h.bounds c hc)
      · rw [List.mem_singleton.mp hc]
    · obtain ⟨k, hk, hd⟩ := h.memory t
      refine ⟨k, Int.le_add_one hk, ?_⟩
      rw [after_snoc (by simp only; omega)]
      exact hd.addAll _ bs

/-- A restore cuts the file and the delta at the target. -/
theorem restoreTo (h : Filed H s.eng log) (hx : s.txn = none) {target : Int}
    (hle : target ≤ s.eng.commitTs) (hf : s.faults.truncate = false) :
    Filed H (Engine.restoreTo target s).2.eng (upTo target log) := by
  rw [Engine.restoreTo_done h.enabled hx hle hf]
  refine ⟨h.enabled, truncate_encodes_getD h.file h.increasing target,
    upTo_increasing h.increasing, fun c hc => (mem_upTo.mp hc).2,
    fun c hc => h.nonempty c (mem_upTo.mp hc).1, fun t => ?_⟩
  obtain ⟨k, -, hd⟩ := h.memory t
  refine ⟨min k target, min_le_right _ _, ?_⟩
  rw [after_upTo_min, ← upTo_after]
  exact hd.rewind target

end Filed

/-- Start-up on a file that holds a log with increasing timestamps, and perhaps a torn record. -/
theorem start_filed {H : Host V} {log : List (LogEntry V)} {file tail : Bytes} {d : Disk V}
    {dir : Option String} (hdir : dir.isSome = true) (h : Encodes H log file)
    (htail : nextRecord tail = none) (hw : d.wal.getD [] = file ++ tail)
    (hinc : (log.map Prod.fst).Pairwise (· < ·)) (hne : ∀ c ∈ log, c.2 ≠ []) :
    Filed H (Engine.start H dir d) log := by
  obtain ⟨hd, hts, hw, -, hen⟩ := start_encodes hdir h htail hw
  refine ⟨hen, by rw [hw]; exact h, hinc, fun c hc => ?_, hne, fun t => ⟨-1, ?_, ?_⟩⟩
  · rw [hts]
    exact le_replayCommitTs_of_mem hc (hne c hc)
  · rw [hts]
    exact le_trans (by decide) (le_replayCommitTs _).1
  · -- no record is older than 0
    have hall : after (-1) log = log := after_eq_self fun c hc => by
      have := h.nonneg c hc
      omega
    rw [hd, hall]
    exact ⟨rfl, rfl⟩

/-! ## 3. Checkpoints -/

/-- The delta holds nothing of `t`. -/
def DeltaStore.Clean (d : DeltaStore V) (t : String) : Prop :=
  d.batchesWithTs t = [] ∧ d.tombstonesWithTs t = []

theorem DeltaStore.clean_iff (d : DeltaStore V) (t : String) :
    d.Clean t ↔ d.hasUnflushed t = false := by
  rw [← Bool.not_eq_true, DeltaStore.hasUnflushed_iff, not_or, not_not, not_not]
  rfl

theorem DeltaStore.Clean.describes {d : DeltaStore V} {t : String} (h : d.Clean t) :
    Describes [] d t :=
  ⟨h.1.symm, h.2.symm⟩

namespace Engine

/-- The log, the counter and the snapshots stay, and what the delta holds of a table stays or goes. -/
structure Clears (s s' : Session V) : Prop where
  wal : s'.eng.disk.wal = s.eng.disk.wal
  dataDir : s'.eng.catalog.dataDir = s.eng.catalog.dataDir
  counter : s'.eng.commitTs = s.eng.commitTs
  snapshots : s'.eng.snapshots = s.eng.snapshots
  tables : ∀ t, (s'.eng.delta.batchesWithTs t = s.eng.delta.batchesWithTs t ∧
    s'.eng.delta.tombstonesWithTs t = s.eng.delta.tombstonesWithTs t) ∨ s'.eng.delta.Clean t

section Clears

variable {s s' s₁ : Session V} {t : String}

theorem Clears.of_same (hwal : s'.eng.disk.wal = s.eng.disk.wal)
    (hdir : s'.eng.catalog.dataDir = s.eng.catalog.dataDir)
    (hts : s'.eng.commitTs = s.eng.commitTs) (hs : s'.eng.snapshots = s.eng.snapshots)
    (hd : s'.eng.delta = s.eng.delta) : Clears s s' :=
  ⟨hwal, hdir, hts, hs, fun t => Or.inl (by rw [hd]; exact ⟨rfl, rfl⟩)⟩

theorem Clears.refl (s : Session V) : Clears s s := Clears.of_same rfl rfl rfl rfl rfl

theorem Clears.clean (h : Clears s s') (hc : s.eng.delta.Clean t) : s'.eng.delta.Clean t := by
  rcases h.tables t with ⟨hb, ht⟩ | hc'
  · exact ⟨hb.trans hc.1, ht.trans hc.2⟩
  · exact hc'

theorem Clears.trans (a b c : Session V) (h : Clears a b) (h' : Clears b c) : Clears a c where
  wal := h'.wal.trans h.wal
  dataDir := h'.dataDir.trans h.dataDir
  counter := h'.counter.trans h.counter
  snapshots := h'.snapshots.trans h.snapshots
  tables t := by
    rcases h.tables t with ⟨hb, ht⟩ | hc
    · rcases h'.tables t with ⟨hb', ht'⟩ | hc'
      · exact Or.inl ⟨hb'.trans hb, ht'.trans ht⟩
      · exact Or.inr hc'
    · exact Or.inr (h'.clean hc)

theorem Quiet.clears (h : Quiet s s') : Clears s s' :=
  Clears.of_same (by rw [h.disk]) (by rw [h.catalog]) h.commitTs h.snapshots h.delta

theorem write_clears (w : Write V) : Proc.Keeps Clears (write w) := by
  intro s
  unfold write
  cases hw : w.apply s.eng with
  | error x => exact Clears.refl s
  | ok e =>
    cases w with
    | writeTable p data => cases hw; exact Clears.of_same rfl rfl rfl rfl rfl
    | replace src dst =>
      rw [Write.apply] at hw
      split at hw
      · cases hw
      · cases hw
        exact Clears.of_same rfl rfl rfl rfl rfl
    | register t p =>
      rw [Write.apply] at hw
      split at hw
      · cases hw
      · rename_i c d hreg
        cases hw
        obtain ⟨i, f, fs, -, -, -, -, rfl, rfl⟩ := Catalog.register_ok hreg
        exact Clears.of_same (Catalog.save_wal _ _) rfl rfl rfl rfl
    | clear t =>
      cases hw
      refine ⟨rfl, rfl, rfl, rfl, fun u => ?_⟩
      rw [DeltaStore.Clean, DeltaStore.batchesWithTs_clear, DeltaStore.tombstonesWithTs_clear]
      by_cases hu : u = t
      · rw [if_pos hu, if_pos hu]
        exact Or.inr ⟨rfl, rfl⟩
      · rw [if_neg hu, if_neg hu]
        exact Or.inl ⟨rfl, rfl⟩
    | remove p => cases hw; exact Clears.of_same rfl rfl rfl rfl rfl
    | dropCache t => cases hw; exact Clears.of_same rfl rfl rfl rfl rfl

/-- Writes among which is the clearing of a table leave it clean. -/
theorem each_write_clean : ∀ {ws : List (Write V)} {s : Session V} {u : Unit}, .clear t ∈ ws →
    Proc.each write ws s = (.ok u, s') → s'.eng.delta.Clean t
  | [], _, _, hmem, _ => absurd hmem List.not_mem_nil
  | w :: ws, s, u, hmem, h => by
    obtain ⟨_, s₁, hw, hrest⟩ := Proc.bind_ok.mp h
    rcases List.mem_cons.mp hmem with rfl | hmem
    · have hclean : s₁.eng.delta.Clean t := by
        cases hw
        exact ⟨by rw [DeltaStore.batchesWithTs_clear, if_pos rfl],
          by rw [DeltaStore.tombstonesWithTs_clear, if_pos rfl]⟩
      have hc : Clears s₁ s' := (Proc.Keeps.each Clears.refl Clears.trans write_clears ws).apply hrest
      exact hc.clean hclean
    · exact each_write_clean hmem hrest

variable [DecidableEq V] {H : Host V}

theorem foldOf_table {f : Fold V} (h : foldOf t s = (.ok f, s')) : f.table = t := by
  obtain ⟨i, s₁, -, h⟩ := Proc.bind_ok.mp h
  obtain ⟨merged, s₂, -, h⟩ := Proc.bind_ok.mp h
  obtain ⟨data, s₃, -, h⟩ := Proc.bind_ok.mp h
  cases h
  rfl

theorem foldTable_clears (t : String) :
    Proc.Keeps Clears (foldTable t : Op V (Option (String × Nat))) :=
  keeps_foldTable Clears.refl Clears.trans (fun _ _ h => h.clears) write_clears t

/-- A turn of the loop that returned leaves its table clean. -/
theorem foldTable_clean {r : Option (String × Nat)} (h : foldTable t s = (.ok r, s')) :
    s'.eng.delta.Clean t := by
  obtain ⟨_, s₁, -, h⟩ := Proc.bind_ok.mp h
  rw [Proc.get_bind] at h
  cases hdirty : s₁.eng.delta.hasUnflushed t with
  | false =>
    simp only [hdirty, Bool.false_eq_true, if_false] at h
    cases h
    exact (DeltaStore.clean_iff _ t).mpr hdirty
  | true =>
    simp only [hdirty, if_true] at h
    obtain ⟨f, s₂, hf, h⟩ := Proc.bind_ok.mp h
    obtain ⟨_, s₃, hw, h⟩ := Proc.bind_ok.mp h
    obtain ⟨i, s₄, hi, h⟩ := Proc.bind_ok.mp h
    cases h
    have hmem : .clear t ∈ f.writes := by simp [Fold.writes, foldOf_table hf]
    exact ((keeps_catalogGet t).apply hi).clears.clean (each_write_clean hmem hw)

theorem collect_clean : ∀ {ts : List String} {s : Session V} {r : List (Option (String × Nat))},
    Proc.collect foldTable ts s = (.ok r, s') → ∀ t ∈ ts, s'.eng.delta.Clean t
  | [], _, _, _, t, ht => absurd ht List.not_mem_nil
  | u :: ts, s, r, h, t, ht => by
    obtain ⟨b, s₁, hb, hrest⟩ := Proc.bind_ok.mp h
    obtain ⟨bs, s₂, hbs, hend⟩ := Proc.bind_ok.mp hrest
    cases hend
    rcases List.mem_cons.mp ht with rfl | ht
    · have hc : Clears s₁ s' :=
        (Proc.Keeps.collect Clears.refl Clears.trans foldTable_clears ts).apply hbs
      exact hc.clean (foldTable_clean hb)
    · exact collect_clean hbs t ht

/-- **A checkpoint** that gets as far as the log has folded every table; before that it only clears
tables, and then it raises unless there was nothing to fold. -/
theorem checkpoint_cases (s : Session V) : ∃ s₁, Clears s s₁ ∧
    ((checkpoint H s).2 = s₁ ∧ (∀ r, (checkpoint H s).1 = .ok r → s₁ = s) ∨
      (∀ t, s₁.eng.delta.Clean t) ∧ (checkpoint H s).2.eng = sealed s₁.eng s.eng.commitTs) := by
  have hstay : ∀ {x : Op V (List (String × Nat))}, (x s).2 = s → ∃ s₁, Clears s s₁ ∧
      ((x s).2 = s₁ ∧ (∀ r, (x s).1 = .ok r → s₁ = s) ∨
        (∀ t, s₁.eng.delta.Clean t) ∧ (x s).2.eng = sealed s₁.eng s.eng.commitTs) :=
    fun hx => ⟨s, Clears.refl s, Or.inl ⟨hx, fun _ _ => rfl⟩⟩
  unfold checkpoint
  rw [Proc.get_bind]
  cases hx : s.txn with
  | some x => exact hstay rfl
  | none =>
    cases hdir : s.eng.catalog.dataDir with
    | none => exact hstay rfl
    | some dir =>
      simp only
      split
      · exact hstay rfl
      · rcases hcol : Proc.collect foldTable (H.setOrder s.eng.delta.tableNames) s with ⟨v, s₁⟩
        have hc : Clears s s₁ :=
          (Proc.Keeps.collect Clears.refl Clears.trans foldTable_clears _).apply hcol
        refine ⟨s₁, hc, ?_⟩
        cases v with
        | error y =>
          rw [Proc.bind_of_error hcol]
          exact Or.inl ⟨rfl, fun r hr => by cases hr⟩
        | ok written =>
          rw [Proc.bind_of_ok hcol]
          have hw : s₁.eng.walEnabled = true := by
            rw [walEnabled, hc.dataDir, hdir]
            rfl
          have hclean : ∀ t, s₁.eng.delta.Clean t := by
            intro t
            by_cases ht : s.eng.delta.hasUnflushed t = true
            · exact collect_clean hcol t (mem_targets.mpr ht)
            · exact hc.clean ((DeltaStore.clean_iff _ t).mpr (by simpa using ht))
          rcases walTruncate_zero hw with hok | ⟨herr, -⟩
          · rw [Proc.bind_of_ok hok]
            exact Or.inr ⟨hclean, rfl⟩
          · rw [Proc.bind_of_error herr]
            exact Or.inl ⟨rfl, fun r hr => by cases hr⟩

end Clears

end Engine

namespace Filed

open Engine

variable {H : Host V} {e : Engine V} {log : List (LogEntry V)} {s s' : Session V}

/-- Nothing of a cleared table is after the counter. -/
theorem clears (h : Filed H s.eng log) (hc : Clears s s') : Filed H s'.eng log where
  enabled := by rw [walEnabled, hc.dataDir]; exact h.enabled
  file := by rw [hc.wal]; exact h.file
  increasing := h.increasing
  bounds := by rw [hc.counter]; exact h.bounds
  nonempty := h.nonempty
  memory t := by
    rw [hc.counter]
    rcases hc.tables t with ⟨hb, ht⟩ | hclean
    · obtain ⟨k, hk, hd⟩ := h.memory t
      exact ⟨k, hk, hd.1.trans hb.symm, hd.2.trans ht.symm⟩
    · refine ⟨s.eng.commitTs, le_refl _, ?_⟩
      rw [after_eq_nil h.bounds]
      exact hclean.describes

/-- The truncation of a checkpoint, once every table is folded. -/
theorem sealed (h : Filed H e log) (hclean : ∀ t, e.delta.Clean t) (n : Int) :
    Filed H (Engine.sealed e n) (upTo 0 log) where
  enabled := h.enabled
  file := truncate_encodes_getD h.file h.increasing 0
  increasing := upTo_increasing h.increasing
  bounds c hc := h.bounds c (mem_upTo.mp hc).1
  nonempty c hc := h.nonempty c (mem_upTo.mp hc).1
  memory t := by
    refine ⟨e.commitTs, le_refl _, ?_⟩
    rw [after_eq_nil fun c hc => h.bounds c (mem_upTo.mp hc).1]
    exact (hclean t).describes

theorem checkpoint [DecidableEq V] (h : Filed H s.eng log) :
    ∃ log', Filed H (Engine.checkpoint H s).2.eng log' := by
  obtain ⟨s₁, hc, ⟨hs, -⟩ | ⟨hclean, he⟩⟩ := checkpoint_cases (H := H) s
  · rw [hs]
    exact ⟨log, h.clears hc⟩
  · rw [he]
    exact ⟨_, (h.clears hc).sealed hclean _⟩

end Filed

/-! ## 4. Acts -/

/-- What a commit keeps, and everything that leaves log, delta and counter alone. -/
structure Lasting (H : Host V) (P : Engine V → Prop) : Prop where
  congr : ∀ {e e' : Engine V}, P e → e'.walEnabled = e.walEnabled → e'.disk.wal = e.disk.wal →
    e'.delta = e.delta → e'.commitTs = e.commitTs → e'.snapshots = e.snapshots → P e'
  write : ∀ {s : Session V} bs, Engine.Restored s → P s.eng → P (Engine.writeCommit H bs s).2.eng
  snapshot : ∀ {e : Engine V} name, P e → P { e with snapshots := e.snapshots.set name e.commitTs }

theorem lasting_filed (H : Host V) : Lasting H fun e => ∃ log, Filed H e log where
  congr := fun ⟨log, h⟩ hen hwal hd hts _ => ⟨log, h.congr hen hwal hd hts⟩
  write := fun bs hf ⟨_, h⟩ => h.writeCommit hf bs
  snapshot := fun _ ⟨log, h⟩ => ⟨log, h.congr rfl rfl rfl rfl⟩

theorem lasting_logged (H : Host V) : Lasting H fun e => ∃ log, Logged H e log where
  congr := fun ⟨log, h⟩ hen hwal hd hts hs => ⟨log, h.congr hen hwal hd hts hs⟩
  write := fun bs hf ⟨_, h⟩ => h.writeCommit bs hf
  snapshot := fun name ⟨log, h⟩ => by
    refine ⟨log, h.enabled, h.file, h.same, h.increasing, h.bounds, h.nonempty, h.counter, ?_⟩
    intro n ts hn
    rw [Dict.get?_set] at hn
    split at hn
    · cases hn
      exact ⟨h.counter, le_refl _⟩
    · exact h.snapshots n ts hn

/-- The act does not fail to truncate: neither an append back to the old length, nor the log of a
restore. -/
def Act.Spares : Act V → Prop
  | .conn a => Durable a
  | .admin (.restore _) q => q.truncate = false
  | .admin (.restoreTo _) q => q.truncate = false
  | _ => True

/-- The timestamps an act may restore to. -/
def Act.Target (e : Engine V) (ts : Int) : Act V → Prop
  | .conn (.sql _ (.restoreToSnapshot name) _) => e.snapshots.get? name = some ts
  | .admin (.restore name) _ => e.snapshots.get? name = some ts
  | .admin (.restoreTo ts') _ => ts = ts'
  | _ => False

namespace Lasting

open Engine

variable {H : Host V} {P : Engine V → Prop} {s : Session V} {w : World V}

theorem trail (hP : Lasting H P) : Trail H fun s s' =>
    s'.faults.append = s.faults.append ∧ (Restored s → P s.eng → P s'.eng) where
  refl _ := ⟨rfl, fun _ h => h⟩
  trans a b c h h' := ⟨h'.1.trans h.1, fun hf hp =>
    h'.2 (by rw [Restored, h.1]; exact hf) (h.2 hf hp)⟩
  quiet s s' h := ⟨h.append, fun _ hp => hP.congr hp (by rw [walEnabled, walEnabled, h.catalog])
    (by rw [h.disk]) h.delta h.commitTs h.snapshots⟩
  slot s x := ⟨rfl, fun _ hp => hp⟩
  write bs s := by
    refine ⟨?_, fun hf hp => hP.write bs hf hp⟩
    unfold writeCommit
    simp only
    split <;> rfl
  snapshot name s := ⟨rfl, fun _ hp => hP.snapshot name hp⟩

/-- The tables of the catalog do not matter. -/
theorem withTables (hP : Lasting H P) {e : Engine V} (h : P e)
    (tables : Dict String (TableInfo V)) : P (e.withTables tables) :=
  hP.congr h rfl withTables_wal rfl rfl rfl

theorem withFiles (hP : Lasting H P) {e : Engine V} (h : P e) (d : Files V) : P (e.withFiles d) :=
  hP.congr h rfl rfl rfl rfl rfl

/-- An upload changes files and tables. -/
theorem upload (hP : Lasting H P) (t : String) (p : Path) (payload : Option (Parquet V)) :
    Proc.Keeps (fun s s' => P s.eng → P s'.eng) (runUpload t p payload) := by
  have htrans : ∀ a b c : Session V, (P a.eng → P b.eng) → (P b.eng → P c.eng) → P a.eng → P c.eng :=
    fun _ _ _ h h' hp => h' (h hp)
  cases payload with
  | none => exact Proc.Keeps.raise (fun _ h => h) _
  | some data =>
    refine Proc.Keeps.bind htrans (fun s h => hP.withFiles h _) fun _ => ?_
    refine Proc.Keeps.bind htrans (Proc.Keeps.onError htrans (fun s h => ?_)
      fun s h => hP.withFiles h _) fun _ => Proc.Keeps.pure (fun _ h => h) _
    rcases changeCatalog_cases (f := fun c d => c.register d t (.file p)) s with
      ⟨x, hr⟩ | ⟨c, d, hf, hr⟩
    · rw [hr]
      exact h
    · rw [hr]
      obtain ⟨i, f, fs, -, -, -, -, rfl, rfl⟩ := Catalog.register_ok hf
      exact hP.congr h rfl (Catalog.save_wal _ _) rfl rfl rfl

variable [DecidableEq V]

/-- **An act keeps it**, when its restores, its checkpoints and a restart do. -/
theorem act (hP : Lasting H P) (h : P w.eng) {a : Act V} (ha : a.Spares)
    (hrestore : ∀ (s : Session V) ts, s.eng = w.eng → s.txn = none → s.faults.truncate = false →
      ts ≤ s.eng.commitTs → a.Target w.eng ts → P (restoreTo ts s).2.eng)
    (hcheckpoint : ∀ q, a = .admin .checkpoint q → w.hasOpenTxn = false →
      P (checkpoint H ⟨w.eng, none, q⟩).2.eng)
    (hrestart : P (start H w.eng.catalog.dataDir w.eng.disk)) : P (w.act H a).eng := by
  cases a with
  | upload t p payload => exact hP.upload t p payload ⟨w.eng, none, {}⟩ h
  | conn a =>
    cases a with
    | disconnect c => exact h
    | restart => exact hrestart
    | sql c st q =>
      change P (sql H st (w.session c q)).2.eng
      by_cases hst : ∃ name, st = .restoreToSnapshot name
      · obtain ⟨name, rfl⟩ := hst
        have hstate : (sql H (.restoreToSnapshot name) (w.session c q)).2 =
            ((Rewind.named name).code (w.session c q)).2 := bind_pure_state _ _ _
        rw [hstate]
        rcases (Rewind.named name).code_cases (s := w.session c q) (ha.2 name rfl) with
          ⟨y, hy⟩ | ⟨ts, hts, hx, hle, hdone⟩
        · rw [hy]
          exact h
        · rw [hdone]
          exact hrestore _ ts rfl hx (ha.2 name rfl) hle hts
      · exact (hP.trail.sql (fun name hname => hst ⟨name, hname⟩) (w.session c q)).2 ha.1 h
  | admin a q =>
    change P (runAdmin H w.hasOpenTxn a ⟨w.eng, none, q⟩).2.eng
    have hcases := runAdmin_cases (H := H) (s := ⟨w.eng, none, q⟩) w.hasOpenTxn rfl a
    generalize (runAdmin H w.hasOpenTxn a ⟨w.eng, none, q⟩).2.eng = e at hcases ⊢
    cases hcases with
    | refused => exact h
    | register hi => exact hP.withTables h _
    | drop => exact hP.congr (hP.withTables h _) rfl rfl rfl rfl rfl
    | rename hi hnew => exact hP.congr (hP.withTables h _) rfl rfl rfl rfl rfl
    | alter hi => exact hP.withTables h _
    | checkpoint ho => exact hcheckpoint q rfl ho
    | snapshot name => exact hP.snapshot name h
    | restore ho hn hle => exact hrestore _ _ rfl rfl ha hle hn
    | restoreTo ho hle => exact hrestore _ _ rfl rfl ha hle rfl
    | clearCache which =>
      split
      · exact h
      · exact hP.congr h rfl rfl rfl rfl rfl

end Lasting

/-! ## 5. Crashes -/

/-- Where a process dies: between two writes, while `k` bytes of the record of a commit have reached
the file, or right after a truncation of the log. -/
inductive CrashPoint (V : Type) where
  | idle
  | append (bs : List (Batch V)) (k : Nat)
  | truncate (maxTs : Int)

/-- The log a dying process leaves. -/
def CrashPoint.wal (H : Host V) (e : Engine V) : CrashPoint V → Option Bytes
  | .idle => e.disk.wal
  | .append bs k =>
    match bs.isEmpty, buildRecord H (e.commitTs + 1) bs with
    | false, .ok r => some (e.disk.wal.getD [] ++ r.take k)
    | _, _ => e.disk.wal
  | .truncate maxTs => e.disk.wal.map (Wal.truncate maxTs)

/-- An act, or the death of the process and the next start on the files it left. -/
inductive Incident (V : Type) where
  | act (a : Act V)
  | crash (files : Files V) (catalog : Option (List (SavedTable V))) (p : CrashPoint V)

/-- One act, or a crash and the next start. -/
def World.incident [DecidableEq V] (H : Host V) (w : World V) : Incident V → World V
  | .act a => w.act H a
  | .crash files catalog p =>
    World.init H w.eng.catalog.dataDir ⟨files, catalog, p.wal H w.eng⟩

/-- The condition on acts, for incidents. -/
def Incident.Spares : Incident V → Prop
  | .act a => a.Spares
  | .crash _ _ _ => True

section Crash

variable {H : Host V} {e : Engine V} {log : List (LogEntry V)}

/-- A crash leaves a log in order, and perhaps a torn record: the old one, the old one with the commit
that was being written, or a part of it. -/
theorem Filed.crash (h : Filed H e log) (p : CrashPoint V) : ∃ log' file tail,
    Encodes H log' file ∧ nextRecord tail = none ∧ (p.wal H e).getD [] = file ++ tail ∧
      (log'.map Prod.fst).Pairwise (· < ·) ∧ (∀ c ∈ log', c.2 ≠ []) ∧
        ∀ c ∈ log', c ∈ log ∨ c.1 = e.commitTs + 1 := by
  have hidle : ∀ {wal : Option Bytes}, wal = e.disk.wal → ∃ log' file tail,
      Encodes H log' file ∧ nextRecord tail = none ∧ wal.getD [] = file ++ tail ∧
        (log'.map Prod.fst).Pairwise (· < ·) ∧ (∀ c ∈ log', c.2 ≠ []) ∧
          ∀ c ∈ log', c ∈ log ∨ c.1 = e.commitTs + 1 := by
    intro wal hwal
    refine ⟨log, _, [], h.file, nextRecord_nil, by rw [hwal, List.append_nil], h.increasing,
      h.nonempty, fun c hc => Or.inl hc⟩
  cases p with
  | idle => exact hidle rfl
  | truncate maxTs =>
    exact ⟨upTo maxTs log, _, [], truncate_encodes_getD h.file h.increasing maxTs, nextRecord_nil,
      (List.append_nil _).symm, upTo_increasing h.increasing,
      fun c hc => h.nonempty c (mem_upTo.mp hc).1, fun c hc => Or.inl (mem_upTo.mp hc).1⟩
  | append bs k =>
    cases hbs : bs.isEmpty with
    | true => exact hidle (by simp only [CrashPoint.wal, hbs])
    | false =>
      have hne : bs ≠ [] := fun h => by rw [h] at hbs; cases hbs
      cases hr : buildRecord H (e.commitTs + 1) bs with
      | error y => exact hidle (by simp only [CrashPoint.wal, hbs, hr])
      | ok r =>
        have hwal : (CrashPoint.append bs k).wal H e = some (e.disk.wal.getD [] ++ r.take k) := by
          simp only [CrashPoint.wal, hbs, hr]
        rw [hwal]
        by_cases hk : k < r.length
        · exact ⟨log, _, r.take k, h.file, nextRecord_torn H hr hk, rfl, h.increasing, h.nonempty,
            fun c hc => Or.inl hc⟩
        · refine ⟨log ++ [(e.commitTs + 1, bs)], _, [], h.file.snoc hr, nextRecord_nil, ?_,
            h.increasing_snoc bs, h.nonempty_snoc hne, fun c hc => ?_⟩
          · rw [List.take_of_length_le (by omega), Option.getD_some, List.append_nil]
          · rcases List.mem_append.mp hc with hc | hc
            · exact Or.inl hc
            · rw [List.mem_singleton.mp hc]
              exact Or.inr rfl

/-- What is logged is in order. -/
theorem Logged.filed (h : Logged H e log) : Filed H e log where
  enabled := h.enabled
  file := h.file
  increasing := h.increasing
  bounds c hc := (h.bounds c hc).2
  nonempty := h.nonempty
  memory t := by
    refine ⟨0, h.counter, ?_⟩
    rw [after_eq_self fun c hc => by have := (h.bounds c hc).1; omega]
    exact h.same t

end Crash

/-! ## 6. Runs -/

section Runs

variable [DecidableEq V] {H : Host V}

/-- **The timestamps of the log stay increasing**, whatever happens. -/
theorem filed_incident (w : World V) (a : Incident V) (h : ∃ log, Filed H w.eng log)
    (ha : a.Spares) : ∃ log, Filed H (w.incident H a).eng log := by
  obtain ⟨log, h⟩ := h
  cases a with
  | act a =>
    refine (lasting_filed H).act ⟨log, h⟩ ha ?_ ?_ ?_
    · intro s ts hs hx hf hle _
      rw [← hs] at h
      exact ⟨_, h.restoreTo hx hle hf⟩
    · exact fun q _ _ => Filed.checkpoint (s := ⟨w.eng, none, q⟩) h
    · exact ⟨log, start_filed h.enabled h.file nextRecord_nil (List.append_nil _).symm h.increasing
        h.nonempty⟩
  | crash files catalog p =>
    obtain ⟨log', file, tail, hlog, htail, hwal, hinc, hne, -⟩ := h.crash p
    exact ⟨log', start_filed h.enabled hlog htail hwal hinc hne⟩

/-- A checkpoint that raises has not cleared a table yet, and no restore goes below 0. -/
def World.Completes (H : Host V) (w : World V) : Incident V → Prop
  | .act (.admin .checkpoint q) => (∃ r, (w.admin H .checkpoint q).1 = .ok r) ∨
      (w.admin H .checkpoint q).2.eng.delta = w.eng.delta
  | .act (.admin (.restoreTo ts) _) => 0 ≤ ts
  | _ => True

/-- A complete checkpoint leaves nothing in the log and nothing in the delta. -/
theorem Logged.checkpoint {s : Session V} {log : List (LogEntry V)} (h : Logged H s.eng log)
    (hdone : (∃ r, (Engine.checkpoint H s).1 = .ok r) ∨
      (Engine.checkpoint H s).2.eng.delta = s.eng.delta) :
    ∃ log', Logged H (Engine.checkpoint H s).2.eng log' := by
  obtain ⟨s₁, hc, ⟨hs, hret⟩ | ⟨hclean, he⟩⟩ := Engine.checkpoint_cases (H := H) s
  · refine ⟨log, ?_⟩
    have hd : (Engine.checkpoint H s).2.eng.delta = s.eng.delta := by
      rcases hdone with ⟨r, hr⟩ | hd
      · rw [hs, hret r hr]
      · exact hd
    rw [hs] at hd ⊢
    exact h.congr (by rw [Engine.walEnabled, Engine.walEnabled, hc.dataDir]) hc.wal hd hc.counter
      hc.snapshots
  · refine ⟨[], ?_⟩
    rw [he]
    refine ⟨?_, ?_, fun t => (hclean t).describes, List.Pairwise.nil, by simp, by simp, ?_, ?_⟩
    · exact (congrArg Option.isSome hc.dataDir).trans h.enabled
    · change Encodes H [] ((Engine.emptied s₁.eng.disk.wal).getD [])
      rw [hc.wal]
      exact Engine.encodes_emptied h
    · exact le_of_le_of_eq h.counter hc.counter.symm
    · intro n ts hn
      have hn' : (s₁.eng.snapshots.filter fun _ m => decide (s.eng.commitTs ≤ m)).get? n = some ts :=
        hn
      rw [Dict.get?_filter, Option.filter_eq_some_iff, hc.snapshots] at hn'
      have := h.snapshots n ts hn'.1
      rw [← hc.counter] at this
      exact this

/-- Nor does it matter to `Logged`, as long as checkpoints complete. -/
theorem logged_incident (w : World V) (a : Incident V) (h : ∃ log, Logged H w.eng log)
    (ha : a.Spares ∧ w.Completes H a) : ∃ log, Logged H (w.incident H a).eng log := by
  obtain ⟨log, h⟩ := h
  have hpos : ∀ c ∈ log, 1 ≤ c.1 := fun c hc => (h.bounds c hc).1
  cases a with
  | act a =>
    refine (lasting_logged H).act ⟨log, h⟩ ha.1 ?_ ?_ ?_
    · intro s ts hs hx hf hle htarget
      have h0 : 0 ≤ ts := by
        cases a with
        | upload t p payload => cases htarget
        | conn a =>
          cases a with
          | disconnect c => cases htarget
          | restart => cases htarget
          | sql c st q =>
            cases st with
            | restoreToSnapshot name => exact (h.snapshots name ts htarget).1
            | _ => cases htarget
        | admin a q =>
          cases a with
          | restore name => exact (h.snapshots name ts htarget).1
          | restoreTo ts' =>
            cases htarget
            exact ha.2
          | _ => cases htarget
      rw [← hs] at h
      exact h.restoreTo hx h0 hle hf
    · rintro q rfl ho
      have hstate : (w.admin H .checkpoint q).2.eng =
          (Engine.checkpoint H ⟨w.eng, none, q⟩).2.eng := by
        simp only [World.admin, Engine.runAdmin, ho, Bool.false_eq_true, if_false]
        rw [Engine.bind_pure_state]
      refine Logged.checkpoint (s := ⟨w.eng, none, q⟩) h ?_
      rcases ha.2 with ⟨r, hr⟩ | hd
      · left
        simp only [World.admin, Engine.runAdmin, ho, Bool.false_eq_true, if_false] at hr
        obtain ⟨written, s₁, hrun, -⟩ := Proc.bind_ok.mp (Prod.ext hr rfl)
        exact ⟨written, by rw [hrun]⟩
      · right
        rw [← hstate]
        exact hd
    · exact ⟨log, start_logged h.enabled h.file h.increasing hpos h.nonempty⟩
  | crash files catalog p =>
    obtain ⟨log', file, tail, hlog, htail, hwal, hinc, hne, hmem⟩ := h.filed.crash p
    refine ⟨log', start_logged_torn h.enabled hlog htail hwal hinc (fun c hc => ?_) hne⟩
    have := h.counter
    rcases hmem c hc with hc | hc
    · exact hpos c hc
    · omega

omit [DecidableEq V] in
/-- The delta a file stands for does not depend on how it is read. -/
theorem Encodes.store_eq {log log' : List (LogEntry V)} {file : Bytes} (h : Encodes H log file)
    (h' : Encodes H log' file) : storeOf log = storeOf log' := by
  have hflat : flattenLog log = flattenLog log' :=
    congrArg Prod.fst ((replay_encodes_self h).symm.trans (replay_encodes_self h'))
  rw [← replayDelta_flattenLog, ← replayDelta_flattenLog, hflat]

/-- The file holds the commits `log` in the order of their timestamps, truncating it keeps those up to
the cut, and rewinding the delta does the same to what it holds of them: all commits of a table
after the last one a checkpoint folded. -/
structure Cuts (H : Host V) (e : Engine V) (log : List (LogEntry V)) : Prop where
  file : Encodes H log (e.disk.wal.getD [])
  increasing : (log.map Prod.fst).Pairwise (· < ·)
  truncate : ∀ maxTs, Encodes H (upTo maxTs log) (Wal.truncate maxTs (e.disk.wal.getD []))
  rewind : ∀ t, ∃ k, Describes (after k log) e.delta t ∧
    ∀ maxTs, Describes (after k (upTo maxTs log)) (e.delta.rewind maxTs) t

omit [DecidableEq V] in
theorem Filed.cuts {e : Engine V} {log : List (LogEntry V)} (h : Filed H e log) :
    Cuts H e log where
  file := h.file
  increasing := h.increasing
  truncate _ := truncate_encodes h.file h.increasing
  rewind t := by
    obtain ⟨k, -, hd⟩ := h.memory t
    refine ⟨k, hd, fun maxTs => ?_⟩
    rw [← upTo_after]
    exact hd.rewind maxTs

/-- **Truncation is a filter.**  After any run from a fresh log, crashes included, in which no log
truncation of a restore fails and failed appends are cut back: the timestamps of the records
increase, `truncate(max_ts)` leaves the records up to `max_ts`, and `rewind(max_ts)` keeps the delta in
step with it, for every `max_ts`.  When the checkpoints of the run that raise have cleared nothing
and no restore goes below 0, the delta holds all commits of the file.  On any bytes `truncate` ends,
however many turns its loop may take, and leaves a prefix. -/
theorem truncation_filters (H : Host V) (dir : String) (d : Disk V) (hd : d.wal = none)
    {l : List (Incident V)} (hl : ∀ a ∈ l, a.Spares) {w : World V}
    (hw : w = Run.run (World.incident H) (World.init H (some dir) d) l) :
    (∃ log, Cuts H w.eng log ∧
      (Run.Along (World.incident H) (World.Completes H) (World.init H (some dir) d) l →
        DeltaStore.Same (storeOf log) w.eng.delta ∧
          ∀ maxTs, DeltaStore.Same (storeOf (upTo maxTs log)) (w.eng.delta.rewind maxTs))) ∧
      ∀ maxTs bytes, Wal.truncate maxTs bytes <+: bytes ∧ ∀ turns, bytes.length ≤ turns →
        bytes.take (Wal.keepUntil maxTs turns bytes) = Wal.truncate maxTs bytes := by
  have hspares : Run.Along (World.incident H) (fun _ a => a.Spares) (World.init H (some dir) d) l :=
    Run.Along.of_forall hl
  have hempty : Encodes H [] (d.wal.getD []) := by
    rw [hd]
    exact Encodes.nil
  have hinit : ∃ log, Logged H (World.init H (some dir) d).eng log :=
    ⟨[], start_logged rfl hempty List.Pairwise.nil (by simp) (by simp)⟩
  obtain ⟨log₀, h₀⟩ := hinit
  obtain ⟨log, h⟩ := hspares.invariant (P := fun w => ∃ log, Filed H w.eng log) filed_incident
    ⟨log₀, h₀.filed⟩
  refine ⟨⟨log, by rw [hw]; exact h.cuts, fun hdone => ?_⟩, fun maxTs bytes => ?_⟩
  · obtain ⟨log', h'⟩ := (hspares.and hdone).invariant (P := fun w => ∃ log, Logged H w.eng log)
      logged_incident ⟨log₀, h₀⟩
    have hsame : DeltaStore.Same (storeOf log) w.eng.delta := by
      rw [hw, h.file.store_eq h'.file]
      exact h'.same
    exact ⟨hsame, fun maxTs => storeOf_filter log maxTs hsame⟩
  · refine ⟨List.take_prefix _ _, fun turns hturns => ?_⟩
    rw [Wal.truncate, keepUntil_fuel hturns (le_refl _)]

end Runs

/-- A commit, one that fails, a checkpoint, a crash in the middle of the next record, and a restore. -/
def eventful : List (Incident Nat) :=
  [.act (.conn (.sql 0 (.createSnapshot "a") {})), .act (.conn (.sql 0 (insertKey "t" 1) {})),
    .act (.conn (.sql 0 (insertKey "t" 2) { append := some ⟨3, true⟩ })),
    .act (.admin .checkpoint {}), .act (.conn (.sql 0 (insertKey "t" 3) {})),
    .crash oneTable.parquet oneTable.catalog (.append [⟨"t", .insert, keyFrame [4]⟩] 9),
    .act (.admin (.restoreTo 1) {})]

theorem truncation_filters_eventful :
    ∃ log, Cuts natHost
      (Run.run (World.incident natHost) (World.init natHost (some "d") oneTable) eventful).eng log := by
  have hspares : ∀ a ∈ eventful, a.Spares := by
    intro a ha
    simp only [eventful, List.mem_cons, List.not_mem_nil, or_false] at ha
    rcases ha with rfl | rfl | rfl | rfl | rfl | rfl | rfl
    · exact ⟨by simp, by simp⟩
    · exact ⟨by simp, by simp [insertKey]⟩
    · exact ⟨by simp, by simp [insertKey]⟩
    · trivial
    · exact ⟨by simp, by simp [insertKey]⟩
    · trivial
    · rfl
  obtain ⟨⟨log, h, -⟩, -⟩ := truncation_filters natHost "d" oneTable rfl hspares rfl
  exact ⟨log, h⟩

/-! ## 7. A restore whose truncation fails -/

/-- Snapshot, two inserts, a restore to the snapshot whose truncation fails, and a third insert. -/
def reused : List (Incident Nat) :=
  [.act (.conn (.sql 0 (.createSnapshot "a") {})), .act (.conn (.sql 0 (insertKey "t" 1) {})),
    .act (.conn (.sql 0 (insertKey "t" 2) {})),
    .act (.conn (.sql 0 (.restoreToSnapshot "a") { truncate := true })),
    .act (.conn (.sql 0 (insertKey "t" 3) {}))]

/-- The file then holds the timestamps 1, 2 and 1, and cutting it at the first record past 1 drops a
record of timestamp 1. -/
theorem timestamps_reused : ¬ ∃ log, Cuts natHost
    (Run.run (World.incident natHost) (World.init natHost (some "d") oneTable) reused).eng log := by
  rintro ⟨log, h⟩
  have hread : Wal.timestamps 100 ((Run.run (World.incident natHost)
      (World.init natHost (some "d") oneTable) reused).eng.disk.wal.getD []) = [1, 2, 1] := by
    decide +kernel
  have hshort : ((Run.run (World.incident natHost)
      (World.init natHost (some "d") oneTable) reused).eng.disk.wal.getD []).length ≤ 800 := by
    decide +kernel
  have hlog : log.length ≤ 100 := by
    have := h.file.length_le
    omega
  have hinc := h.increasing
  rw [← h.file.timestamps hlog, hread] at hinc
  revert hinc
  decide

end RyuDB
