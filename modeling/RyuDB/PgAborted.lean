/-
# The aborted transaction of a Postgres connection

When a statement raises inside a transaction the connection sets `failed`; from there on `_gate` lets
only ROLLBACK through, and `_emit_result` clears the flag.  Wanted: the flag is set only while a
transaction is open, ReadyForQuery reports E, T or I by the flag and the slot, no other statement
reaches the engine while the flag is set, and only a ROLLBACK that succeeded clears it.

Two ways lead around the gate.  A Describe of a portal runs a statement that returns rows without
asking, and an Execute of a ROLLBACK under a name for which a result is cached shows that result and
clears the flag without running anything.  In a run without these two steps all of it holds
(`aborted_machine`).  `Guarded` reads the log of a message: the flag as it stands, and whether the
last statement that reached the engine was a ROLLBACK that succeeded.
-/
import RyuDB.PgErrors
import RyuDB.PgEngine

namespace RyuDB

namespace Pg

variable {σ V Tree : Type}

/-! ## 1. What is wanted -/

/-- While the flag is set only ROLLBACK reaches the engine, and the flag is cleared only when the
last statement that did was a ROLLBACK that succeeded. -/
def Guarded (C : Chars) (failed rolled : Bool) : List Event → Prop
  | [] => True
  | .sent _ :: es => Guarded C failed rolled es
  | .ran text ok :: es =>
    (failed = true → firstKeyword C text = "ROLLBACK") ∧
      Guarded C failed (decide (firstKeyword C text = "ROLLBACK") && ok) es
  | .aborted :: es => Guarded C true false es
  | .cleared :: es => (failed = true → rolled = true) ∧ Guarded C false false es

variable (B : Backend σ V Tree)

/-- What is wanted of one message. -/
structure Aborts (c : Conn σ V) (m : Message) : Prop where
  slot : (step B c m).failed = true → B.inTxn (step B c m).backend = true
  status : ∀ st, Event.sent (.readyForQuery st) ∈ (step B c m).log → st = status B (step B c m)
  guarded : Guarded B.chars c.failed false (step B c m).log

/-- A message that does not go around the gate: no Describe of a portal whose statement returns rows
while the flag is set, and no Execute of a ROLLBACK under a name with a cached result. -/
def Sober (c : Conn σ V) : Message → Prop
  | .describePortal name => c.failed = true →
    ∀ full, ((c.portals.get? name).getD ⟨"", [], []⟩).full B = .ok full →
      firstKeyword B.chars full ∉ rowHeads
  | .execute name _ => c.failed = true →
    ∀ p full, c.portals.get? name = some p → p.full B = .ok full →
      firstKeyword B.chars p.sql = "ROLLBACK" → c.portalCache.get? name = none
  | _ => True

/-! ## 2. The frame -/

/-- The flag after the events. -/
def flagAfter (failed : Bool) : List Event → Bool
  | [] => failed
  | .sent _ :: es => flagAfter failed es
  | .ran _ _ :: es => flagAfter failed es
  | .aborted :: es => flagAfter true es
  | .cleared :: es => flagAfter false es

theorem flagAfter_append (ys : List Event) : ∀ (failed : Bool) (xs : List Event),
    flagAfter failed (xs ++ ys) = flagAfter (flagAfter failed xs) ys
  | _, [] => rfl
  | failed, .sent _ :: xs => flagAfter_append ys failed xs
  | failed, .ran _ _ :: xs => flagAfter_append ys failed xs
  | _, .aborted :: xs => flagAfter_append ys true xs
  | _, .cleared :: xs => flagAfter_append ys false xs

/-- Guarded pieces compose when the second one does not ask what ran before it. -/
theorem Guarded.append {C : Chars} {xs ys : List Event} {failed rolled : Bool}
    (hx : Guarded C failed rolled xs) (hy : ∀ r, Guarded C (flagAfter failed xs) r ys) :
    Guarded C failed rolled (xs ++ ys) := by
  induction xs generalizing failed rolled with
  | nil => exact hy rolled
  | cons e xs ih =>
    cases e with
    | sent r => exact ih hx hy
    | ran text ok => exact ⟨hx.1, ih hx.2 hy⟩
    | aborted => exact ih hx hy
    | cleared => exact ⟨hx.1, ih hx.2 hy⟩

/-- Replies are not looked at. -/
theorem guarded_sent {C : Chars} {failed rolled : Bool} {es : List Event} :
    ∀ rs : List Reply, Guarded C failed rolled (rs.map Event.sent ++ es) ↔
      Guarded C failed rolled es
  | [] => Iff.rfl
  | _ :: rs => guarded_sent rs

theorem flagAfter_sent {failed : Bool} {es : List Event} : ∀ rs : List Reply,
    flagAfter failed (rs.map Event.sent ++ es) = flagAfter failed es
  | [] => rfl
  | _ :: rs => flagAfter_sent rs

/-- What code may do to the flag and the slot, whatever ran before it. -/
structure Watched (c c' : Conn σ V) : Prop where
  log : ∃ es, c'.log = c.log ++ es ∧ (∀ r, Guarded B.chars c.failed r es) ∧
    flagAfter c.failed es = c'.failed
  slot : (c.failed = true → B.inTxn c.backend = true) →
    c'.failed = true → B.inTxn c'.backend = true

variable {B}

theorem Watched.refl (c : Conn σ V) : Watched B c c where
  log := ⟨[], (List.append_nil _).symm, fun _ => trivial, rfl⟩
  slot := id

theorem Watched.trans (a b c : Conn σ V) (h₁ : Watched B a b) (h₂ : Watched B b c) :
    Watched B a c where
  log := by
    obtain ⟨es₁, hl₁, hg₁, hf₁⟩ := h₁.log
    obtain ⟨es₂, hl₂, hg₂, hf₂⟩ := h₂.log
    refine ⟨es₁ ++ es₂, by rw [hl₂, hl₁, List.append_assoc], fun r => ?_, ?_⟩
    · exact (hg₁ r).append (by rw [hf₁]; exact hg₂)
    · rw [flagAfter_append, hf₁, hf₂]
  slot := fun h => h₂.slot (h₁.slot h)

/-- Code that only sends. -/
theorem Watched.sends {c c' : Conn σ V} (rs : List Reply) (hf : c'.failed = c.failed)
    (hb : c'.backend = c.backend) (hl : c'.log = c.log ++ rs.map Event.sent) :
    Watched B c c' where
  log := by
    refine ⟨rs.map Event.sent, hl, fun r => ?_, ?_⟩
    · rw [← List.append_nil (rs.map Event.sent), guarded_sent]
      trivial
    · rw [← List.append_nil (rs.map Event.sent), flagAfter_sent, hf]
      rfl
  slot := fun h hc => by
    rw [hb]
    exact h (hf ▸ hc)

/-- Without the flag, plain code does nothing that matters. -/
theorem guarded_plain {C : Chars} {S : String → Prop} {r : Bool} {es : List Event}
    (h : ∀ e ∈ es, Event.Plain S e) : Guarded C false r es ∧ flagAfter false es = false := by
  induction es generalizing r with
  | nil => exact ⟨trivial, rfl⟩
  | cons e es ih =>
    have hrest : ∀ x ∈ es, Event.Plain S x := fun x hx => h x (List.mem_cons_of_mem e hx)
    cases e with
    | sent r => exact ih hrest
    | ran text ok => exact ⟨⟨fun hf => (nomatch hf), (ih hrest).1⟩, (ih (r := r) hrest).2⟩
    | aborted => exact (h _ List.mem_cons_self).elim
    | cleared => exact (h _ List.mem_cons_self).elim

theorem Plain.watched {S : String → Prop} {c c' : Conn σ V} (h : Plain S c c')
    (hc : c.failed = false) : Watched B c c' where
  log := by
    obtain ⟨es, hl, hp⟩ := h.log
    refine ⟨es, hl, fun r => ?_, ?_⟩
    · rw [hc]
      exact (guarded_plain hp).1
    · rw [hc, h.failed, hc]
      exact (guarded_plain (C := B.chars) (r := false) hp).2
  slot := fun _ hf => by
    rw [h.failed, hc] at hf
    cases hf

/-! ## 3. A statement -/

section Statement

variable (hB : B.Lawful) {c : Conn σ V}

include hB in
/-- Running a statement that passed the gate and showing its result. -/
theorem watched_run {sql full : String} {describe : Bool} {maxrows : Nat}
    (hopen : c.failed = true → firstKeyword B.chars sql = "ROLLBACK")
    (hfull : firstKeyword B.chars sql = "ROLLBACK" → firstKeyword B.chars full = "ROLLBACK") :
    Watched B c ((exec B full >>= fun result => emitResult B sql result describe maxrows) c).2 := by
  rcases hr : (B.run c.backend full).1 with e | result
  · -- the statement raised: the flag and the slot are as they were
    have he : exec B full c = (.error e, (exec B full c).2) := Prod.ext hr rfl
    rw [Proc.bind_of_error he]
    refine ⟨⟨[.ran full (B.run c.backend full).1.isOk], rfl, fun r => ⟨?_, trivial⟩, rfl⟩, ?_⟩
    · exact fun hf => hfull (hopen hf)
    · intro h hf
      exact (hB.error c.backend full e hr).trans (h hf)
  · have he : exec B full c = (.ok result, (exec B full c).2) := Prod.ext hr rfl
    rw [Proc.bind_of_ok he, emitResult_apply]
    have hlog : (exec B full c).2.log = c.log ++ [.ran full true] := by
      change c.log ++ [.ran full (B.run c.backend full).1.isOk] = _
      rw [hr]
      rfl
    unfold settled
    split
    · -- a ROLLBACK: it ran and succeeded before the flag is cleared
      rename_i hk
      refine ⟨⟨.ran full true :: ((showResult B sql result describe maxrows).map Event.sent ++
        [.cleared]), ?_, fun r => ⟨fun _ => hfull hk, ?_⟩, ?_⟩, fun _ hf => by cases hf⟩
      · dsimp only
        rw [hlog, List.append_assoc, List.append_assoc]
        rfl
      · rw [guarded_sent, hfull hk]
        exact ⟨fun _ => rfl, trivial⟩
      · rw [flagAfter, flagAfter_sent]
        rfl
    · -- any other statement passed the gate because the flag is not set
      rename_i hk
      have hc : c.failed = false := by
        rw [Bool.eq_false_iff]
        exact fun hf => hk (hopen hf)
      have hplain : Plain (fun _ => True) c
          { (exec B full c).2 with log := (exec B full c).2.log ++
            (showResult B sql result describe maxrows).map Event.sent } := by
        have hexec : Plain (fun _ => True) c (exec B full c).2 := keeps_exec B trivial c
        refine Plain.trans c _ _ hexec ?_
        have hs := keeps_each_send (showResult_plain (S := fun _ => True) B sql result describe
          maxrows) (exec B full c).2
        rw [each_send] at hs
        exact hs
      split
      · exact (Plain.trans c _ _ hplain (keeps_closeAllCursors _)).watched hc
      · exact hplain.watched hc

include hB in
theorem watched_statement (sql : String) : Proc.Keeps (Watched B) (statement B sql) := by
  intro c
  unfold statement
  by_cases hg : c.failed = true ∧ firstKeyword B.chars sql ≠ "ROLLBACK"
  · rw [Proc.bind_of_ok (gate_shut B hg)]
    exact Watched.sends [gateError] rfl rfl rfl
  · rw [Proc.bind_of_ok (gate_open B hg), if_pos rfl]
    have hopen : c.failed = true → firstKeyword B.chars sql = "ROLLBACK" := fun hf => by
      by_contra hk
      exact hg ⟨hf, hk⟩
    split
    · rename_i hk
      have hc : c.failed = false := by
        rw [Bool.eq_false_iff]
        intro hf
        rw [hopen hf] at hk
        exact absurd hk (by decide)
      exact (keeps_cursorStmt (S := fun _ => True) B 0 (fun _ _ => trivial) c).watched hc
    · exact watched_run hB hopen id

end Statement

/-! ## 4. A message -/

section Message

variable (hB : B.Lawful) {c : Conn σ V}

include hB in
theorem watched_executePortal {p : Portal} {maxrows : Nat}
    {cached : Option (Frame V)}
    (hopen : c.failed = true → firstKeyword B.chars p.sql = "ROLLBACK")
    (hcached : c.failed = true → ∀ full, p.full B = .ok full → cached = none) :
    Watched B c (executePortal B p maxrows cached c).2 := by
  unfold executePortal
  cases hf : p.full B with
  | error e => exact Watched.refl c
  | ok full =>
    rw [Proc.lift_bind_ok]
    have hfull : firstKeyword B.chars p.sql = "ROLLBACK" →
        firstKeyword B.chars full = "ROLLBACK" := fun hk =>
      substituteParams_rollback B.dialect hk hf
    split
    · rename_i hk
      have hc : c.failed = false := by
        rw [Bool.eq_false_iff]
        intro hset
        rw [hfull (hopen hset)] at hk
        exact absurd hk (by decide)
      exact (keeps_cursorStmt (S := fun _ => True) B maxrows (fun _ _ => trivial) c).watched hc
    · cases cached with
      | none =>
        dsimp only
        split
        · exact Watched.sends [.emptyQueryResponse] rfl rfl rfl
        · exact watched_run hB hopen hfull
      | some f =>
        have hc : c.failed = false := by
          rw [Bool.eq_false_iff]
          intro hset
          cases hcached hset full hf
        dsimp only
        rw [emitResult_apply]
        have hshow : Watched B c { c with log := c.log ++
            (showResult B p.sql (.frame f) false maxrows).map Event.sent } :=
          Watched.sends _ rfl rfl rfl
        refine Watched.trans c _ _ hshow ?_
        unfold settled
        split
        · refine ⟨⟨[.cleared], rfl, fun r => ⟨fun hset => ?_, trivial⟩, rfl⟩, fun _ h => by cases h⟩
          rw [show c.failed = true from hset] at hc
          cases hc
        · split
          · exact Watched.sends [] rfl rfl (List.append_nil _).symm
          · exact Watched.refl _

include hB in
theorem watched_execute {name : String} {maxrows : Nat} (h : Sober B c (.execute name maxrows)) :
    Watched B c (execute B name maxrows c).2 := by
  cases hp : c.portals.get? name with
  | none =>
    rw [execute_none B c maxrows hp]
    exact Watched.sends [.emptyQueryResponse] rfl rfl rfl
  | some p =>
    rw [execute_some B c maxrows hp]
    have hpop : Watched B c { c with portalCache := c.portalCache.erase name } :=
      Watched.sends [] rfl rfl (List.append_nil _).symm
    refine Watched.trans c _ _ hpop ?_
    by_cases hg : c.failed = true ∧ firstKeyword B.chars p.sql ≠ "ROLLBACK"
    · have hgate := gate_shut B (c := { c with portalCache := c.portalCache.erase name }) hg
      rw [Proc.bind_of_ok hgate]
      exact Watched.sends [gateError] rfl rfl rfl
    · have hgate := gate_open B (c := { c with portalCache := c.portalCache.erase name }) hg
      rw [Proc.bind_of_ok hgate, if_pos rfl]
      have hopen : c.failed = true → firstKeyword B.chars p.sql = "ROLLBACK" := fun hf => by
        by_contra hk
        exact hg ⟨hf, hk⟩
      exact watched_executePortal hB hopen fun hf full hfull =>
        h hf p full hp hfull (hopen hf)

theorem watched_describePortal {name : String} (h : Sober B c (.describePortal name)) :
    Watched B c (describePortal B name c).2 := by
  unfold describePortal
  rw [Proc.get_bind]
  cases hf : ((c.portals.get? name).getD ⟨"", [], []⟩).full B with
  | error e => exact Watched.refl c
  | ok full =>
    rw [Proc.lift_bind_ok]
    by_cases hk : firstKeyword B.chars full ∈ rowHeads
    · have hc : c.failed = false := by
        rw [Bool.eq_false_iff]
        exact fun hset => h hset full hf hk
      cases hb : blank full with
      | true =>
        rw [describeOutput, if_pos hb]
        exact Watched.sends [.noData] rfl rfl rfl
      | false =>
        rw [describeOutput_rows B c name hb hk]
        have hexec : Plain (fun _ => True) c (exec B full c).2 := keeps_exec B trivial c
        refine Watched.trans c _ _ (hexec.watched hc) ?_
        rcases (B.run c.backend full).1 with e | r
        · exact Watched.sends [.noData] rfl rfl rfl
        · cases r with
          | frame f => exact Watched.sends [.rowDescription f.columns] rfl rfl rfl
          | count n => exact Watched.sends [.noData] rfl rfl rfl
          | none => exact Watched.sends [.noData] rfl rfl rfl
    · have hno : describeOutput B full name c = send .noData c := by
        rw [describeOutput, if_neg hk]
        exact congrFun (ite_self _) c
      rw [hno]
      exact Watched.sends [.noData] rfl rfl rfl

theorem watched_send (r : Reply) : Proc.Keeps (Watched B) (send r) := fun _ =>
  Watched.sends [r] rfl rfl rfl

theorem watched_ready (c : Conn σ V) : Watched B c (ready B c).2 :=
  Watched.sends [.readyForQuery (status B c)] rfl rfl rfl

theorem watched_recover (e : Failure) : Proc.Keeps (Watched B) (recover B e) := by
  intro c
  rw [recover_apply]
  refine Watched.trans c _ _ ?_ (watched_ready _)
  cases ht : B.inTxn c.backend with
  | true =>
    refine ⟨⟨_, rfl, fun _ => trivial, ?_⟩, fun _ _ => ht⟩
    rw [Bool.or_true]
    rfl
  | false =>
    refine ⟨⟨_, rfl, fun _ => trivial, ?_⟩, fun h hf => ?_⟩
    · rw [Bool.or_false]
      rfl
    · rw [Bool.or_false] at hf
      exact h hf

include hB in
/-- **What a handler may do to the flag and the slot.** -/
theorem watched_handle {m : Message} (h : Sober B c m) : Watched B c (handle B m c).2 := by
  cases m with
  | query sql =>
    rw [handle, simpleQuery]
    split
    · exact Proc.Keeps.bind Watched.trans (watched_send _) (fun _ => watched_ready) c
    · exact Proc.Keeps.bind Watched.trans (Proc.Keeps.each Watched.refl Watched.trans
        (watched_statement hB) (splitStatements sql)) (fun _ => watched_ready) c
  | parse name sql oids => exact Watched.sends [.parseComplete] rfl rfl rfl
  | bind portal stmtName fmts params rfmts =>
    rw [handle, bind]
    split
    · exact Watched.refl c
    · split
      · exact Watched.refl c
      · exact Watched.sends [.bindComplete] rfl rfl rfl
  | describeStatement name =>
    rw [handle, describeStatement, Proc.get_bind]
    split
    · exact Watched.refl c
    · exact Proc.Keeps.bind Watched.trans (watched_send _) (fun _ => watched_send _) c
  | describePortal name => exact watched_describePortal h
  | execute name maxrows => exact watched_execute hB h
  | sync => exact watched_ready c
  | closeStatement name => exact Watched.sends [.closeComplete] rfl rfl rfl
  | closePortal name => exact Watched.sends [.closeComplete] rfl rfl rfl
  | flush => exact Watched.refl c
  | unsupported t =>
    exact Proc.Keeps.bind Watched.trans (watched_send _) (fun _ => watched_ready) c
  | malformed message => exact Watched.refl c

include hB in
theorem watched_step {m : Message} (h : Sober B c m) :
    Watched B { c with log := [] } (step B c m) := by
  refine step_frame Watched.trans watched_recover (watched_handle hB ?_)
  cases m with
  | describePortal name => exact h
  | execute name maxrows => exact h
  | _ => trivial

end Message

/-! ## 5. The status -/

section Status

variable {c : Conn σ V}

/-- The one ReadyForQuery of a message reports the state after it. -/
theorem ready_status {c₀ : Conn σ V} (h : Unready c₀ c) (h₀ : c₀.log = []) {st : Char}
    (hst : Event.sent (.readyForQuery st) ∈ (ready B c).2.log) :
    st = status B (ready B c).2 := by
  obtain ⟨es, hl, hr⟩ := h
  rw [ready_apply, hl, h₀] at hst
  rcases List.mem_append.mp hst with hst | hst
  · cases hr _ hst
  · cases List.mem_singleton.mp hst
    rfl

/-- **ReadyForQuery reports the flag and the slot.** -/
theorem step_status (c : Conn σ V) (m : Message) {st : Char}
    (hst : Event.sent (.readyForQuery st) ∈ (step B c m).log) : st = status B (step B c m) := by
  have hraised : ∀ {e c'}, Unready { c with log := [] } c' →
      handle B m { c with log := [] } = (.error e, c') → st = status B (step B c m) := by
    intro e c' hu hc'
    rw [step_error B c hc', recover_apply] at hst ⊢
    refine ready_status (Unready.trans { c with log := [] } _ _ hu ?_) rfl hst
    refine ⟨_, rfl, fun x hx => ?_⟩
    rcases List.mem_cons.mp hx with rfl | hx
    · rfl
    · cases ht : B.inTxn c'.backend with
      | true =>
        rw [ht, if_pos rfl, List.mem_singleton] at hx
        rw [hx]
        rfl
      | false =>
        rw [ht] at hx
        cases hx
  cases hm : m.endsCycle with
  | false =>
    by_cases hu : ∃ t, m = .unsupported t
    · obtain ⟨t, rfl⟩ := hu
      have hone : Unready { c with log := [] } { c with log := [.sent
          (.errorResponse "08P01" ("unsupported message type " ++ t))] } := Unready.one rfl rfl
      exact ready_status hone rfl hst
    · have hun := handle_unready (B := B) (c := c) hm fun t ht => hu ⟨t, ht⟩
      rcases hh : handle B m { c with log := [] } with ⟨r, c'⟩
      rw [hh] at hun
      cases r with
      | error e => exact hraised hun hh
      | ok u =>
        rw [step_ok B c hh] at hst
        obtain ⟨es, hl, hr⟩ := hun
        rw [hl] at hst
        cases hr _ hst
  | true =>
    cases m with
    | query sql =>
      obtain ⟨c₁, e, hi, h | h⟩ := simpleQuery_inner B { c with log := [] } sql
      · rw [step_ok B c (m := .query sql) h] at hst ⊢
        exact ready_status hi.unready rfl hst
      · exact hraised hi.unready h
    | sync => exact ready_status (Unready.refl { c with log := [] }) rfl hst
    | _ => cases hm

end Status

/-! ## 6. A run -/

/-- **The aborted transaction of a connection.**  In every run from a new connection in which no
message goes around the gate, after every message the flag is set only with an open transaction,
every ReadyForQuery reports the flag and the slot, while the flag is set only ROLLBACK reaches the
engine, and only a ROLLBACK that succeeded clears it. -/
theorem aborted_machine (hB : B.Lawful) (s : σ) (ms : List Message)
    (h : Run.Along (step B) (Sober B) { backend := s } ms) :
    Run.Along (step B) (Aborts B) { backend := s } ms := by
  refine Run.Along.imp (P := fun c => c.failed = true → B.inTxn c.backend = true) ?_
    (fun hf => by cases hf) h
  intro c m hc hm
  have hw := watched_step hB hm
  refine ⟨⟨hw.slot hc, fun st => step_status c m, ?_⟩, hw.slot hc⟩
  obtain ⟨es, hl, hg, -⟩ := hw.log
  rw [hl]
  exact hg false

/-- A transaction is aborted and rolled back through a portal. -/
def rolledBackRun : List Message :=
  [.parse "" "ROLLBACK" [], .bind "" "" [] [] [], .query "BEGIN", .query "SELEC",
    .query "SELECT k FROM t", .execute "" 0, .sync]

theorem aborted_machine_rolledBack : Run.Along (step twoTableServer) (Aborts twoTableServer)
    { backend := twoTableSite } rolledBackRun :=
  aborted_machine (engineBackend_lawful fewReader natHost textDialect _ _ _ _ _) twoTableSite
    rolledBackRun ⟨trivial, trivial, trivial, trivial, trivial,
      fun _ p full _ _ _ => by decide, trivial, trivial⟩

/-- A portal is bound to a query, and a transaction is aborted. -/
def abortedRun : List Message :=
  [.parse "" "SELECT k FROM t" [], .bind "" "" [] [] [], .query "BEGIN", .query "SELEC"]

/-- A ROLLBACK is bound over a portal that was described, and a transaction is aborted. -/
def rollbackOverCache : List Message :=
  [.parse "" "SELECT k FROM t" [], .parse "r" "ROLLBACK" [], .bind "" "" [] [] [],
    .describePortal "", .bind "" "r" [] [] [], .query "BEGIN", .query "SELEC"]

/-- The connection after a run on the server with two tables. -/
def connAfter (ms : List Message) : Conn (Site Nat) Nat :=
  Run.run (step twoTableServer) { backend := twoTableSite } ms

/-- Another statement reached the engine while the flag was set. -/
theorem not_aborts_of_ran {c : Conn σ V} {m : Message} {text : String} {ok : Bool}
    {es : List Event} (hf : c.failed = true) (hl : (step B c m).log = .ran text ok :: es)
    (hk : firstKeyword B.chars text ≠ "ROLLBACK") : ¬ Aborts B c m := by
  intro h
  have hg := h.guarded
  rw [hl] at hg
  exact hk (hg.1 hf)

/-- The flag was cleared and nothing had reached the engine. -/
theorem not_aborts_of_cleared {c : Conn σ V} {m : Message} {rs : List Reply}
    (hf : c.failed = true) (hl : (step B c m).log = rs.map Event.sent ++ [.cleared]) :
    ¬ Aborts B c m := by
  intro h
  have hg := h.guarded
  rw [hl, guarded_sent] at hg
  cases hg.1 hf

/-- **Two ways around the gate.**  A Describe runs a query in an aborted transaction, and a ROLLBACK
that never ran clears the flag and leaves the transaction open. -/
theorem gate_passed : ¬ Run.Along (step twoTableServer) (Aborts twoTableServer)
      { backend := twoTableSite } (abortedRun ++ [.describePortal ""]) ∧
    ¬ Run.Along (step twoTableServer) (Aborts twoTableServer)
      { backend := twoTableSite } (rollbackOverCache ++ [.execute "" 0]) ∧
    twoTableServer.inTxn (connAfter (rollbackOverCache ++ [.execute "" 0])).backend = true := by
  refine ⟨fun h => ?_, fun h => ?_, by decide⟩
  · have hfailed : (connAfter abortedRun).failed = true := by decide
    have hlog : (step twoTableServer (connAfter abortedRun) (.describePortal "")).log =
        [.ran "SELECT k FROM t" true, .sent (.rowDescription ["k"])] := by decide
    exact not_aborts_of_ran hfailed hlog (by decide) h.last
  · have hfailed : (connAfter rollbackOverCache).failed = true := by decide
    have hlog : (step twoTableServer (connAfter rollbackOverCache) (.execute "" 0)).log =
        [.dataRow [some "1"], .commandComplete "SELECT 1"].map Event.sent ++ [.cleared] := by
      decide
    exact not_aborts_of_cleared hfailed hlog h.last

end Pg

end RyuDB
