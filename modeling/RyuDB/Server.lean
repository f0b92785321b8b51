/-
# Requests in flight

`Server.run_sql` serves a request in three moves of one worker thread: it loads the transaction of
the connection into `engine._txn`, a slot of the thread; it runs the statement under the engine's
lock; it stores the slot back on the connection.  Only the second move is under a lock, and a pool
of threads serves the pipelined requests of one connection side by side.

Transactions are objects here.  Connections and threads hold references to them, and a buffered
write changes the object behind the reference.  COMMIT and ROLLBACK empty the slot of their own
thread and nothing else: another request that has loaded the same transaction still holds it, can
commit it again, and stores it back (`commits_twice`).

* `once_run`: as long as no COMMIT or ROLLBACK runs while another request in flight holds its
  transaction, and no request of the connection is loaded before it has been stored back, every
  transaction is committed at most once and never comes back.
* `once_worker`, `once_sequential`: with one worker thread, or with clients that wait for each answer,
  this is always so.

The statements of a run are arbitrary, and so are the number of threads and the order of the moves.
A process is modelled from its start to its end; restarts are the subject of `World`.
-/
import RyuDB.Restart
import RyuDB.Touch

namespace RyuDB

variable {V : Type}

/-! ## 1. State and moves -/

/-- A request in flight: a worker thread inside `run_sql`. -/
structure Request (V : Type) where
  conn : Nat
  stmt : Stmt V
  faults : Faults
  /-- `engine._txn` on this thread. -/
  slot : Option Nat
  /-- What the statement returned or raised, when it has run. -/
  result : Option (Except DbError (Result V))
  /-- The transaction the statement committed or rolled back. -/
  ended : Option Nat

/-- The server: the engine, the transaction objects, `_ryudb_txn` of the connections, and the
requests in flight by worker thread.  The last two fields record the run and are read by no move. -/
structure Server (V : Type) where
  eng : Engine V
  objects : List (Transaction V)
  txns : Dict Nat Nat
  /-- The connections that have left `_conns`. -/
  closed : List Nat
  requests : Dict Nat (Request V)
  /-- The transactions that a COMMIT wrote to the delta, in order. -/
  committed : List Nat
  /-- The transactions whose COMMIT or ROLLBACK has been served. -/
  ended : List Nat

/-- The transaction that a statement on a slot wrote to the delta: COMMIT returned. -/
def Stmt.committed (st : Stmt V) (slot : Option Nat) (r : Except DbError (Result V)) : Option Nat :=
  match st, r with
  | .commit, .ok _ => slot
  | _, _ => none

/-- The transaction that a statement on a slot ended: COMMIT or ROLLBACK returned. -/
def Stmt.ended (st : Stmt V) (slot : Option Nat) (r : Except DbError (Result V)) : Option Nat :=
  match st, r with
  | .commit, .ok _ => slot
  | .rollback, .ok _ => slot
  | _, _ => none

/-- The statement is a COMMIT or ROLLBACK. -/
def Stmt.ends : Stmt V → Bool
  | .commit => true
  | .rollback => true
  | _ => false

section Ended

variable {st : Stmt V} {slot : Option Nat} {r : Except DbError (Result V)} {k : Nat}

theorem Stmt.ended_of_committed (h : st.committed slot r = some k) : st.ended slot r = some k := by
  unfold Stmt.committed at h
  split at h
  · exact h
  · cases h

theorem Stmt.ended_some (h : st.ended slot r = some k) :
    slot = some k ∧ st.ends = true ∧ ∃ v, r = .ok v := by
  unfold Stmt.ended at h
  split at h
  · exact ⟨h, rfl, _, rfl⟩
  · exact ⟨h, rfl, _, rfl⟩
  · cases h

/-- COMMIT and ROLLBACK empty the slot when they return. -/
theorem Engine.sql_ends [DecidableEq V] {H : Host V} (h : st.ends = true) {s s' : Session V}
    {v : Result V} (hs : Engine.sql H st s = (.ok v, s')) : s'.txn = none := by
  cases st with
  | commit =>
    rw [Engine.sql] at hs
    obtain ⟨_, s₁, hc, hs⟩ := Proc.bind_ok.mp hs
    cases hs
    unfold Engine.commit at hc
    rw [Proc.get_bind] at hc
    cases hx : s.txn with
    | none =>
      rw [hx] at hc
      cases hc
    | some x =>
      rw [hx] at hc
      obtain ⟨_, s₂, -, hc⟩ := Proc.bind_ok.mp hc
      cases hc
      rfl
  | rollback =>
    rw [Engine.sql] at hs
    obtain ⟨_, s₁, hc, hs⟩ := Proc.bind_ok.mp hs
    cases hs
    unfold Engine.rollback at hc
    split at hc
    · cases hc
    · cases hc
      rfl
  | _ => cases h

end Ended

namespace Server

/-- A move of the server.  A move that is not possible changes nothing. -/
inductive Move (V : Type) where
  /-- Worker thread `i` takes up a request of connection `c` and loads its transaction. -/
  | load (i c : Nat) (st : Stmt V) (faults : Faults)
  /-- The statement of thread `i` runs. -/
  | run (i : Nat)
  /-- Thread `i` stores its slot back. -/
  | store (i : Nat)
  | admin (a : Admin V) (faults : Faults)
  | upload (t : String) (p : Path) (payload : Option (Parquet V))
  /-- The handler of connection `c` ends. -/
  | disconnect (c : Nat)

/-- `has_open_txn`. -/
def hasOpenTxn (s : Server V) : Bool := s.txns.keys.any fun c => decide (c ∉ s.closed)

/-- The transaction behind a slot. -/
def deref (s : Server V) (slot : Option Nat) : Option (Transaction V) :=
  slot.bind fun k => s.objects[k]?

/-- The objects and the slot after a statement that left `x` as the current transaction: the object
of the slot has changed, or there is a new one. -/
def settle (objects : List (Transaction V)) :
    Option Nat → Option (Transaction V) → List (Transaction V) × Option Nat
  | _, none => (objects, none)
  | some k, some x => (objects.set k x, some k)
  | none, some x => (objects ++ [x], some objects.length)

/-- `engine._txn = getattr(ws, "_ryudb_txn", None)`. -/
def load (s : Server V) (i c : Nat) (st : Stmt V) (faults : Faults) : Server V :=
  { s with requests := s.requests.set i ⟨c, st, faults, s.txns.get? c, none, none⟩ }

/-- `ws._ryudb_txn = self.engine._txn`. -/
def storeBack (s : Server V) (i : Nat) (a : Request V) : Server V :=
  { s with
    txns := match a.slot with
      | none => s.txns.erase a.conn
      | some k => s.txns.set a.conn k
    requests := s.requests.erase i
    ended := s.ended ++ a.ended.toList }

theorem storeBack_txns (s : Server V) (i : Nat) (a : Request V) (d : Nat) :
    (s.storeBack i a).txns.get? d = if d = a.conn then a.slot else s.txns.get? d := by
  unfold storeBack
  cases hk : a.slot <;> simp

section Steps

variable [DecidableEq V] (H : Host V)

/-- What `engine.sql` does on thread `i`. -/
def outcome (s : Server V) (a : Request V) : Except DbError (Result V) × Session V :=
  Engine.sql H a.stmt ⟨s.eng, s.deref a.slot, a.faults⟩

/-- `self.engine.sql(sql)` on thread `i`. -/
def runSql (s : Server V) (i : Nat) (a : Request V) : Server V :=
  let p := s.outcome H a
  let q := settle s.objects a.slot p.2.txn
  { s with
    eng := p.2.eng
    objects := q.1
    requests := s.requests.set i
      { a with slot := q.2, result := some p.1, ended := a.stmt.ended a.slot p.1 }
    committed := s.committed ++ (a.stmt.committed a.slot p.1).toList }

/-- One move. -/
def step (s : Server V) : Move V → Server V
  | .load i c st faults =>
    match s.requests.get? i with
    | none => s.load i c st faults
    | some _ => s
  | .run i =>
    match s.requests.get? i with
    | some a => if a.result.isNone then s.runSql H i a else s
    | none => s
  | .store i =>
    match s.requests.get? i with
    | some a => if a.result.isSome then s.storeBack i a else s
    | none => s
  | .admin a faults => { s with eng := (Engine.runAdmin H s.hasOpenTxn a ⟨s.eng, none, faults⟩).2.eng }
  | .upload t p payload => { s with eng := (Engine.runUpload t p payload ⟨s.eng, none, {}⟩).2.eng }
  | .disconnect c => { s with closed := c :: s.closed }

/-- The process just started on a disk. -/
def init (dataDir : Option String) (d : Disk V) : Server V :=
  ⟨Engine.start H dataDir d, [], ∅, [], ∅, [], []⟩

/-! ## 2. What a move can do -/

/-- The possible moves. -/
inductive Moves (s : Server V) : Move V → Server V → Prop
  | idle (m : Move V) : Moves s m s
  | load {i : Nat} (c : Nat) (st : Stmt V) (faults : Faults) (hi : s.requests.get? i = none) :
      Moves s (.load i c st faults) (s.load i c st faults)
  | run {i : Nat} {a : Request V} (hi : s.requests.get? i = some a) (hr : a.result = none) :
      Moves s (.run i) (s.runSql H i a)
  | store {i : Nat} {a : Request V} (hi : s.requests.get? i = some a)
      (hr : a.result.isSome = true) : Moves s (.store i) (s.storeBack i a)
  | admin (a : Admin V) (faults : Faults) : Moves s (.admin a faults)
      { s with eng := (Engine.runAdmin H s.hasOpenTxn a ⟨s.eng, none, faults⟩).2.eng }
  | upload (t : String) (p : Path) (payload : Option (Parquet V)) : Moves s (.upload t p payload)
      { s with eng := (Engine.runUpload t p payload ⟨s.eng, none, {}⟩).2.eng }
  | disconnect (c : Nat) : Moves s (.disconnect c) { s with closed := c :: s.closed }

theorem step_moves (s : Server V) (m : Move V) : Moves H s m (s.step H m) := by
  cases m with
  | load i c st faults =>
    rw [step]
    split
    · rename_i hi
      exact Moves.load c st faults hi
    · exact Moves.idle _
  | run i =>
    rw [step]
    split
    · rename_i a hi
      split
      · rename_i hr
        exact Moves.run hi (Option.isNone_iff_eq_none.mp hr)
      · exact Moves.idle _
    · exact Moves.idle _
  | store i =>
    rw [step]
    split
    · rename_i a hi
      split
      · rename_i hr
        exact Moves.store hi hr
      · exact Moves.idle _
    · exact Moves.idle _
  | admin a faults => exact Moves.admin a faults
  | upload t p payload => exact Moves.upload t p payload
  | disconnect c => exact Moves.disconnect c

end Steps

/-! ## 3. The record of a run -/

/-- Transaction `k` was committed or rolled back; its request may still have to store that back. -/
def Over (s : Server V) (k : Nat) : Prop :=
  k ∈ s.ended ∨ ∃ i a, s.requests.get? i = some a ∧ a.ended = some k

/-- Connection `c` refers to transaction `k`, or a request of it holds or has ended it. -/
def Holds (s : Server V) (c k : Nat) : Prop :=
  s.txns.get? c = some k ∨ ∃ i a, s.requests.get? i = some a ∧ a.conn = c ∧
    (a.slot = some k ∨ a.ended = some k)

/-- Every transaction was committed at most once, and none that was committed or rolled back is
current on a connection. -/
structure Once (s : Server V) : Prop where
  committed : s.committed.Nodup
  ended : ∀ k ∈ s.ended, ∀ c, s.txns.get? c ≠ some k

/-- No COMMIT or ROLLBACK runs while another request in flight holds its transaction, and no request
is loaded while one of its connection has ended its transaction and not stored that back. -/
def Apart (s : Server V) : Move V → Prop
  | .load i c _ _ => s.requests.get? i = none →
      ∀ j b, s.requests.get? j = some b → b.conn = c → b.ended = none
  | .run i => ∀ a, s.requests.get? i = some a → a.result = none → a.stmt.ends = true →
      ∀ j b, s.requests.get? j = some b → j ≠ i → b.slot = none ∨ b.slot ≠ a.slot
  | _ => True

instance (s : Server V) : DecidablePred (Apart s)
  | .load i c _ _ => decidable_of_iff (s.requests.get? i = none →
      ∀ e ∈ s.requests.entries, e.2.conn = c → e.2.ended = none) <| by
    simp only [Apart, Prod.forall, Dict.mem_entries]
  | .run i =>
    match h : s.requests.get? i with
    | none => .isTrue fun a ha => by rw [h] at ha; cases ha
    | some a => decidable_of_iff (a.result.isNone = true → a.stmt.ends = true →
        ∀ e ∈ s.requests.entries, e.1 ≠ i → e.2.slot = none ∨ e.2.slot ≠ a.slot) <| by
      simp only [Apart, Prod.forall, Dict.mem_entries, h, Option.some.injEq, forall_eq',
        Option.isNone_iff_eq_none]
  | .store _ => .isTrue trivial
  | .admin _ _ => .isTrue trivial
  | .upload _ _ _ => .isTrue trivial
  | .disconnect _ => .isTrue trivial

/-- What moves that are apart preserve: references are known and belong to one connection, and no
request holds a transaction that is over. -/
structure Kept (s : Server V) : Prop where
  known : ∀ c k, s.Holds c k → k < s.objects.length
  owner : ∀ c d k, s.Holds c k → s.Holds d k → c = d
  slots : ∀ i a k, s.requests.get? i = some a → a.slot = some k → ¬ s.Over k
  started : ∀ i a, s.requests.get? i = some a → a.result = none → a.ended = none
  past : ∀ k ∈ s.ended, k < s.objects.length
  ended : ∀ k ∈ s.ended, ∀ c, s.txns.get? c ≠ some k
  committed : s.committed.Nodup
  closedOff : ∀ k ∈ s.committed, s.Over k

section Record

variable {s s' : Server V} {i c k : Nat} {a : Request V}

theorem Holds.slot (hi : s.requests.get? i = some a) (hk : a.slot = some k) : s.Holds a.conn k :=
  Or.inr ⟨i, a, hi, rfl, Or.inl hk⟩

theorem Holds.ended (hi : s.requests.get? i = some a) (hk : a.ended = some k) :
    s.Holds a.conn k :=
  Or.inr ⟨i, a, hi, rfl, Or.inr hk⟩

theorem Kept.lt_of_over (h : Kept s) (hk : s.Over k) : k < s.objects.length := by
  rcases hk with hk | ⟨i, a, hi, hk⟩
  · exact h.past k hk
  · exact h.known _ k (Holds.ended hi hk)

/-- A move that leaves references, requests and the record. -/
theorem Kept.congr (h : Kept s) (ho : s'.objects = s.objects) (ht : s'.txns = s.txns)
    (hr : s'.requests = s.requests) (hc : s'.committed = s.committed) (he : s'.ended = s.ended) :
    Kept s' := by
  have hholds : ∀ c k, s'.Holds c k ↔ s.Holds c k := fun c k => by rw [Holds, Holds, ht, hr]
  have hover : ∀ k, s'.Over k ↔ s.Over k := fun k => by rw [Over, Over, he, hr]
  refine ⟨?_, ?_, ?_, ?_, ?_, ?_, ?_, ?_⟩
  · simp only [hholds, ho]
    exact h.known
  · simp only [hholds]
    exact h.owner
  · simp only [hover, hr]
    exact h.slots
  · rw [hr]
    exact h.started
  · rw [he, ho]
    exact h.past
  · rw [he, ht]
    exact h.ended
  · rw [hc]
    exact h.committed
  · simp only [hover, hc]
    exact h.closedOff

/-- A request takes over the reference of its connection. -/
theorem Kept.load (h : Kept s) (hi : s.requests.get? i = none) (st : Stmt V) (faults : Faults)
    (hc : ∀ j b, s.requests.get? j = some b → b.conn = c → b.ended = none) :
    Kept (s.load i c st faults) := by
  have hget : ∀ j, (s.load i c st faults).requests.get? j =
      if j = i then some ⟨c, st, faults, s.txns.get? c, none, none⟩ else s.requests.get? j :=
    fun j => Dict.get?_set _ _ _ _
  have hholds : ∀ d k, (s.load i c st faults).Holds d k → s.Holds d k := by
    rintro d k (hk | ⟨j, b, hb, hd, hk⟩)
    · exact Or.inl hk
    · rw [hget] at hb
      split at hb
      · cases hb
        subst hd
        exact Or.inl (hk.resolve_right fun h => by cases h)
      · exact Or.inr ⟨j, b, hb, hd, hk⟩
  have hover : ∀ k, (s.load i c st faults).Over k ↔ s.Over k := by
    intro k
    refine or_congr Iff.rfl ⟨?_, ?_⟩
    · rintro ⟨j, b, hb, hk⟩
      rw [hget] at hb
      split at hb
      · cases hb
        cases hk
      · exact ⟨j, b, hb, hk⟩
    · rintro ⟨j, b, hb, hk⟩
      refine ⟨j, b, ?_, hk⟩
      rw [hget, if_neg (by rintro rfl; rw [hi] at hb; cases hb)]
      exact hb
  refine ⟨fun d k hk => h.known d k (hholds d k hk), fun d e k hd he =>
    h.owner d e k (hholds d k hd) (hholds e k he), ?_, ?_, h.past, h.ended, h.committed,
    fun k hk => (hover k).mpr (h.closedOff k hk)⟩
  · intro j b k hb hk hover'
    rw [hover] at hover'
    rw [hget] at hb
    split at hb
    · cases hb
      rcases hover' with hend | ⟨l, d, hl, hd⟩
      · exact h.ended k hend c hk
      · have hconn : d.conn = c := h.owner _ _ k (Holds.ended hl hd) (Or.inl hk)
        rw [hc l d hl hconn] at hd
        cases hd
    · exact h.slots j b k hb hk hover'
  · intro j b hb hr
    rw [hget] at hb
    split at hb
    · cases hb
      rfl
    · exact h.started j b hb hr

/-- What a slot may hold after a statement: what it held, or a new object. -/
theorem settle_slot {objects : List (Transaction V)} {slot : Option Nat}
    {x : Option (Transaction V)} :
    objects.length ≤ (settle objects slot x).1.length ∧
      ∀ k, (settle objects slot x).2 = some k → slot = some k ∨
        (k = objects.length ∧ k < (settle objects slot x).1.length) := by
  cases x with
  | none => exact ⟨le_refl _, fun k hk => by cases hk⟩
  | some x =>
    cases slot with
    | none => simp [settle]
    | some j => simp [settle]

theorem Kept.store (h : Kept s) (hi : s.requests.get? i = some a) : Kept (s.storeBack i a) := by
  have hget : ∀ j, (s.storeBack i a).requests.get? j =
      if j = i then none else s.requests.get? j := fun j => Dict.get?_erase _ _ _
  have htxns := s.storeBack_txns i a
  have hended : ∀ k, k ∈ (s.storeBack i a).ended ↔ k ∈ s.ended ∨ a.ended = some k := by
    intro k
    simp [storeBack]
  have hholds : ∀ d k, (s.storeBack i a).Holds d k → s.Holds d k := by
    rintro d k (hk | ⟨j, b, hb, hd, hk⟩)
    · rw [htxns] at hk
      split at hk
      · rename_i hd
        rw [hd]
        exact Holds.slot hi hk
      · exact Or.inl hk
    · rw [hget] at hb
      split at hb
      · cases hb
      · exact Or.inr ⟨j, b, hb, hd, hk⟩
  have hover : ∀ k, (s.storeBack i a).Over k ↔ s.Over k := by
    intro k
    rw [Over, Over, hended]
    constructor
    · rintro ((hk | hk) | ⟨j, b, hb, hk⟩)
      · exact Or.inl hk
      · exact Or.inr ⟨i, a, hi, hk⟩
      · rw [hget] at hb
        split at hb
        · cases hb
        · exact Or.inr ⟨j, b, hb, hk⟩
    · rintro (hk | ⟨j, b, hb, hk⟩)
      · exact Or.inl (Or.inl hk)
      · by_cases hj : j = i
        · subst hj
          rw [hi] at hb
          cases hb
          exact Or.inl (Or.inr hk)
        · exact Or.inr ⟨j, b, by rw [hget, if_neg hj]; exact hb, hk⟩
  refine ⟨fun d k hk => h.known d k (hholds d k hk), fun d e k hd he =>
    h.owner d e k (hholds d k hd) (hholds e k he), ?_, ?_, ?_, ?_, h.committed,
    fun k hk => (hover k).mpr (h.closedOff k hk)⟩
  · intro j b k hb hk
    rw [hover]
    rw [hget] at hb
    split at hb
    · cases hb
    · exact h.slots j b k hb hk
  · intro j b hb hr
    rw [hget] at hb
    split at hb
    · cases hb
    · exact h.started j b hb hr
  · intro k hk
    rcases (hended k).mp hk with hk | hk
    · exact h.past k hk
    · exact h.known _ k (Holds.ended hi hk)
  · intro k hk d hd
    have hk' : s.Over k := by
      rcases (hended k).mp hk with hk | hk
      · exact Or.inl hk
      · exact Or.inr ⟨i, a, hi, hk⟩
    rw [htxns] at hd
    split at hd
    · exact h.slots i a k hi hd hk'
    · rename_i hne
      rcases (hended k).mp hk with hk | hk
      · exact h.ended k hk d hd
      · exact hne (h.owner d a.conn k (Or.inl hd) (Holds.ended hi hk))

variable [DecidableEq V] {H : Host V}

/-- The request after its statement: the result is there, and the slot is what `settle` made of it. -/
structure Ran (H : Host V) (s : Server V) (i : Nat) (a a' : Request V) : Prop where
  requests : ∀ j, (s.runSql H i a).requests.get? j = if j = i then some a' else s.requests.get? j
  conn : a'.conn = a.conn
  slot : a'.slot = (settle s.objects a.slot (s.outcome H a).2.txn).2
  ended : a'.ended = a.stmt.ended a.slot (s.outcome H a).1
  result : a'.result = some (s.outcome H a).1

theorem exists_ran (i : Nat) (a : Request V) : ∃ a', Ran H s i a a' :=
  ⟨⟨a.conn, a.stmt, a.faults, (settle s.objects a.slot (s.outcome H a).2.txn).2,
      some (s.outcome H a).1, a.stmt.ended a.slot (s.outcome H a).1⟩,
    fun _ => Dict.get?_set _ _ _ _, rfl, rfl, rfl, rfl⟩

namespace Ran

variable {a' : Request V}

/-- What the statement ended is no longer in the slot. -/
theorem empty (h : Ran H s i a a') (hk : a'.ended = some k) :
    a.slot = some k ∧ a.stmt.ends = true ∧ a'.slot = none := by
  rcases hp : s.outcome H a with ⟨r, s₁⟩
  rw [h.ended, hp] at hk
  obtain ⟨hk', hst, v, rfl⟩ := Stmt.ended_some hk
  refine ⟨hk', hst, ?_⟩
  rw [h.slot, hp, Engine.sql_ends hst hp]
  rfl

/-- Who holds a reference held it before, or the request has a new object. -/
theorem holds (h : Ran H s i a a') (hi : s.requests.get? i = some a) {d : Nat}
    (hk : (s.runSql H i a).Holds d k) : s.Holds d k ∨
      (k = s.objects.length ∧ d = a.conn ∧ k < (s.runSql H i a).objects.length) := by
  rcases hk with hk | ⟨j, b, hb, hd, hk⟩
  · exact Or.inl (Or.inl hk)
  · rw [h.requests] at hb
    split at hb
    · cases hb
      rw [h.conn] at hd
      subst hd
      rcases hk with hk | hk
      · rw [h.slot] at hk
        rcases settle_slot.2 k hk with hk | ⟨hk, hlt⟩
        · exact Or.inl (Holds.slot hi hk)
        · exact Or.inr ⟨hk, rfl, hlt⟩
      · exact Or.inl (Holds.slot hi (h.empty hk).1)
    · exact Or.inl (Or.inr ⟨j, b, hb, hd, hk⟩)

/-- What is over was over before, or the statement has ended it. -/
theorem not_over (h : Ran H s i a a') (hkept : Kept s) (hi : s.requests.get? i = some a)
    (hr : a.result = none) : (s.runSql H i a).Over k ↔ s.Over k ∨ a'.ended = some k := by
  have hend : (s.runSql H i a).ended = s.ended := rfl
  rw [Over, Over, hend]
  constructor
  · rintro (hk | ⟨j, b, hb, hk⟩)
    · exact Or.inl (Or.inl hk)
    · rw [h.requests] at hb
      split at hb
      · cases hb
        exact Or.inr hk
      · exact Or.inl (Or.inr ⟨j, b, hb, hk⟩)
  · rintro ((hk | ⟨j, b, hb, hk⟩) | hk)
    · exact Or.inl hk
    · refine Or.inr ⟨j, b, ?_, hk⟩
      rw [h.requests, if_neg]
      · exact hb
      · rintro rfl
        rw [hi] at hb
        cases hb
        rw [hkept.started _ _ hi hr] at hk
        cases hk
    · exact Or.inr ⟨i, a', by rw [h.requests, if_pos rfl], hk⟩

/-- No request holds what is over: what the statement ended is in no other slot. -/
theorem slots (h : Ran H s i a a') (hkept : Kept s) (hi : s.requests.get? i = some a)
    (hr : a.result = none) (hapart : a.stmt.ends = true → ∀ j b, s.requests.get? j = some b →
      j ≠ i → b.slot = none ∨ b.slot ≠ a.slot) {j : Nat} {b : Request V}
    (hb : (s.runSql H i a).requests.get? j = some b) (hk : b.slot = some k) :
    ¬ (s.runSql H i a).Over k := by
  rw [h.not_over hkept hi hr]
  rw [h.requests] at hb
  rintro (hk' | hk')
  · split at hb
    · cases hb
      rw [h.slot] at hk
      rcases settle_slot.2 k hk with hk | ⟨hk, -⟩
      · exact hkept.slots i a k hi hk hk'
      · exact absurd (hkept.lt_of_over hk') (by omega)
    · exact hkept.slots j b k hb hk hk'
  · obtain ⟨hk', hst, hnone⟩ := h.empty hk'
    split at hb
    · cases hb
      rw [hnone] at hk
      cases hk
    · rename_i hj
      rcases hapart hst j b hb hj with hb | hb
      · rw [hb] at hk
        cases hk
      · exact hb (hk.trans hk'.symm)

end Ran

/-- A COMMIT or ROLLBACK ends a transaction that no other request holds; other statements keep their
slot or put a new transaction into it. -/
theorem Kept.run (h : Kept s) (hi : s.requests.get? i = some a) (hr : a.result = none)
    (hapart : a.stmt.ends = true → ∀ j b, s.requests.get? j = some b → j ≠ i →
      b.slot = none ∨ b.slot ≠ a.slot) : Kept (s.runSql H i a) := by
  obtain ⟨a', hran⟩ := exists_ran (H := H) (s := s) i a
  have hlen : s.objects.length ≤ (s.runSql H i a).objects.length := settle_slot.1
  have hcom : (s.runSql H i a).committed =
      s.committed ++ (a.stmt.committed a.slot (s.outcome H a).1).toList := rfl
  refine ⟨fun d k hk => ?_, fun d e k hd he => ?_,
    fun j b k hb hk => hran.slots h hi hr hapart hb hk, ?_, ?_, h.ended, ?_, ?_⟩
  · rcases hran.holds hi hk with hk | ⟨-, -, hlt⟩
    · exact (h.known d k hk).trans_le hlen
    · exact hlt
  · -- a new object has one holder, and an old one the holder it had
    rcases hran.holds hi hd with hd | ⟨hk, hd, -⟩
    · rcases hran.holds hi he with he | ⟨hk, -, -⟩
      · exact h.owner d e k hd he
      · exact absurd (h.known d k hd) (by omega)
    · rcases hran.holds hi he with he | ⟨-, he, -⟩
      · exact absurd (h.known e k he) (by omega)
      · rw [hd, he]
  · intro j b hb hnone
    rw [hran.requests] at hb
    split at hb
    · cases hb
      rw [hran.result] at hnone
      cases hnone
    · exact h.started j b hb hnone
  · intro k hk
    exact (h.past k hk).trans_le hlen
  · rw [hcom]
    refine List.Nodup.append h.committed
      (by cases a.stmt.committed a.slot (s.outcome H a).1 <;> simp) ?_
    intro k hk hk'
    have hk' := Stmt.ended_of_committed (Option.mem_toList.mp hk')
    exact h.slots i a k hi (Stmt.ended_some hk').1 (h.closedOff k hk)
  · intro k hk
    rw [hcom, List.mem_append] at hk
    rw [hran.not_over h hi hr]
    rcases hk with hk | hk
    · exact Or.inl (h.closedOff k hk)
    · right
      rw [hran.ended]
      exact Stmt.ended_of_committed (Option.mem_toList.mp hk)

/-- **The record is right.**  A statement of a request that holds a transaction writes to the delta when
the record says so and not otherwise, and what it writes is the buffer of the transaction. -/
theorem runSql_delta (i : Nat) {x : Transaction V} (hx : s.deref a.slot = some x) :
    (s.runSql H i a).eng.delta = if (a.stmt.committed a.slot (s.outcome H a).1).isSome
      then s.eng.delta.addAll (s.eng.commitTs + 1) (Engine.commitBatches H x)
      else s.eng.delta := by
  obtain ⟨k, hk⟩ : ∃ k, a.slot = some k := by
    cases hs : a.slot with
    | none =>
      rw [hs] at hx
      cases hx
    | some k => exact ⟨k, rfl⟩
  change (s.outcome H a).2.eng.delta = _
  rw [outcome, hx]
  by_cases hc : a.stmt = .commit
  · rw [hc]
    cases hr : (Engine.sql H .commit ⟨s.eng, some x, a.faults⟩).1 with
    | ok v =>
      obtain ⟨e, he, hcom, -⟩ := @Engine.sql_commit_ok V _ H ⟨s.eng, some x, a.faults⟩ x rfl v hr
      rw [he, hk]
      exact hcom.delta
    | error y => exact (@Engine.sql_commit_error V _ H ⟨s.eng, some x, a.faults⟩ x rfl y hr).1
  · have hnone : a.stmt.committed a.slot (Engine.sql H a.stmt ⟨s.eng, some x, a.faults⟩).1 = none := by
      unfold Stmt.committed
      split
      · exact absurd (by assumption) hc
      · rfl
    rw [hnone, Option.isSome_none, if_neg Bool.false_ne_true]
    by_cases hr : a.stmt = .rollback
    · rw [hr]
      rfl
    · exact (Engine.sql_confined hc hr _ x rfl).1

/-- **A move that is apart keeps the transactions apart.** -/
theorem Kept.step (h : Kept s) (m : Move V) (hm : Apart s m) : Kept (s.step H m) := by
  have hmoves := step_moves H s m
  generalize s.step H m = s' at hmoves
  cases hmoves with
  | idle => exact h
  | load c st faults hi => exact h.load hi st faults (hm hi)
  | run hi hr => exact h.run hi hr (hm _ hi hr)
  | store hi _ => exact h.store hi
  | admin a faults => exact h.congr rfl rfl rfl rfl rfl
  | upload t p payload => exact h.congr rfl rfl rfl rfl rfl
  | disconnect c => exact h.congr rfl rfl rfl rfl rfl

omit [DecidableEq V] in
theorem kept_init (dir : Option String) (d : Disk V) : Kept (init H dir d) := by
  have hnone : ∀ c k, ¬ (init H dir d).Holds c k := by
    rintro c k (hk | ⟨i, a, hi, -⟩)
    · cases hk
    · cases hi
  refine ⟨fun c k hk => absurd hk (hnone c k), fun c d k hk => absurd hk (hnone c k), ?_, ?_, ?_, ?_,
    List.nodup_nil, ?_⟩
  · intro i a k hi
    cases hi
  · intro i a hi
    cases hi
  · intro k hk
    cases hk
  · intro k hk
    cases hk
  · intro k hk
    cases hk

omit [DecidableEq V] in
theorem Kept.once (h : Kept s) : Once s := ⟨h.committed, h.ended⟩

end Record

/-! ## 4. Runs -/

section Runs

variable [DecidableEq V] {H : Host V}

theorem kept_run {dir : Option String} {d : Disk V} {l : List (Move V)}
    (hl : Run.Along (step H) Apart (init H dir d) l) : Kept (Run.run (step H) (init H dir d) l) :=
  Run.Along.invariant (fun _ m hs hm => hs.step m hm) (kept_init dir d) hl

/-- **Every transaction is committed at most once and never comes back**, as long as no COMMIT or
ROLLBACK runs while another request in flight holds its transaction, and no request of a connection is
loaded between such a statement and its store. -/
theorem once_run (dir : Option String) (d : Disk V) {l : List (Move V)}
    (hl : Run.Along (step H) Apart (init H dir d) l) : Once (Run.run (step H) (init H dir d) l) :=
  (kept_run hl).once

/-- A request after a move was there before, or it was loaded. -/
theorem step_requests {s : Server V} {m : Move V} {j : Nat} {b : Request V}
    (hb : (s.step H m).requests.get? j = some b) :
    (∃ a, s.requests.get? j = some a ∧ a.conn = b.conn) ∨
      ∃ st faults, m = .load j b.conn st faults ∧ s.requests.get? j = none := by
  have hmoves := step_moves H s m
  generalize s.step H m = s' at hmoves hb
  cases hmoves with
  | idle => exact Or.inl ⟨b, hb, rfl⟩
  | @load i c st faults hi =>
    change (s.requests.set i _).get? j = _ at hb
    rw [Dict.get?_set] at hb
    split at hb
    · rename_i hj
      subst hj
      cases hb
      exact Or.inr ⟨st, faults, rfl, hi⟩
    · exact Or.inl ⟨b, hb, rfl⟩
  | @run i a hi hr =>
    change (s.requests.set i _).get? j = _ at hb
    rw [Dict.get?_set] at hb
    split at hb
    · rename_i hj
      subst hj
      cases hb
      exact Or.inl ⟨a, hi, rfl⟩
    · exact Or.inl ⟨b, hb, rfl⟩
  | @store i a hi hr =>
    change (s.requests.erase i).get? j = _ at hb
    rw [Dict.get?_erase] at hb
    split at hb
    · cases hb
    · exact Or.inl ⟨b, hb, rfl⟩
  | admin a faults => exact Or.inl ⟨b, hb, rfl⟩
  | upload t p payload => exact Or.inl ⟨b, hb, rfl⟩
  | disconnect c => exact Or.inl ⟨b, hb, rfl⟩

/-- The worker thread of a move. -/
def Move.thread : Move V → Option Nat
  | .load i _ _ _ => some i
  | .run i => some i
  | .store i => some i
  | _ => none

/-- With one worker thread the moves of a run are apart. -/
theorem apart_worker {dir : Option String} {d : Disk V} {w : Nat} {l : List (Move V)}
    (hl : ∀ m ∈ l, ∀ i, m.thread = some i → i = w) :
    Run.Along (step H) Apart (init H dir d) l := by
  refine Run.Along.imp (P := fun s : Server V => ∀ i a, s.requests.get? i = some a → i = w)
    (fun s m hs hm => ⟨?_, fun j b hb => ?_⟩) (fun i a hi => by cases hi) (Run.Along.of_forall hl)
  · cases m with
    | load i c st faults =>
      intro hi j b hb
      rw [hs j b hb, ← hm i rfl, hi] at hb
      cases hb
    | run i =>
      intro a hi _ _ j b hb hj
      exact absurd ((hs j b hb).trans (hs i a hi).symm) hj
    | _ => trivial
  · rcases step_requests hb with ⟨a, ha, -⟩ | ⟨st, faults, rfl, -⟩
    · exact hs j a ha
    · exact hm j rfl

/-- **With one worker thread** every transaction is committed at most once and never comes back. -/
theorem once_worker (dir : Option String) (d : Disk V) {l : List (Move V)} {w : Nat}
    (hl : ∀ m ∈ l, ∀ i, m.thread = some i → i = w) :
    Once (Run.run (step H) (init H dir d) l) := (kept_run (apart_worker hl)).once

/-- The client sends no request before the last one was answered. -/
def Sequential (s : Server V) : Move V → Prop
  | .load i c _ _ => s.requests.get? i = none → ∀ j b, s.requests.get? j = some b → b.conn ≠ c
  | _ => True

/-- Without pipelining the moves of a run are apart. -/
theorem apart_sequential {dir : Option String} {d : Disk V} {l : List (Move V)}
    (hl : Run.Along (step H) Sequential (init H dir d) l) :
    Run.Along (step H) Apart (init H dir d) l := by
  refine Run.Along.imp (P := fun s : Server V => Kept s ∧ ∀ i j a b, s.requests.get? i = some a →
    s.requests.get? j = some b → a.conn = b.conn → i = j) (fun s m hs hm => ?_)
    ⟨kept_init dir d, fun i j a b hi => by cases hi⟩ hl
  obtain ⟨hkept, hconn⟩ := hs
  have hapart : Apart s m := by
    cases m with
    | load i c st faults =>
      intro hi j b hb hc
      exact absurd hc (hm hi j b hb)
    | run i =>
      intro a hi _ _ j b hb hj
      cases hk : b.slot with
      | none => exact Or.inl rfl
      | some k =>
        refine Or.inr fun hk' => hj (hconn j i b a hb hi ?_)
        exact hkept.owner _ _ k (Holds.slot hb hk) (Holds.slot hi hk'.symm)
    | _ => trivial
  refine ⟨hapart, hkept.step m hapart, fun i j a b hi hj hab => ?_⟩
  rcases step_requests hi with ⟨a', ha', hca⟩ | ⟨st, q, rfl, hnone⟩
  · rcases step_requests hj with ⟨b', hb', hcb⟩ | ⟨st, q, rfl, hnone⟩
    · exact hconn i j a' b' ha' hb' ((hca.trans hab).trans hcb.symm)
    · exact absurd (hca.trans hab) (hm hnone i a' ha')
  · rcases step_requests hj with ⟨b', hb', hcb⟩ | ⟨st', q', heq, -⟩
    · exact absurd (hcb.trans hab.symm) (hm hnone j b' hb')
    · exact (Move.load.inj heq).1

/-- **Without pipelining** every transaction is committed at most once and never comes back. -/
theorem once_sequential (dir : Option String) (d : Disk V) {l : List (Move V)}
    (hl : Run.Along (step H) Sequential (init H dir d) l) :
    Once (Run.run (step H) (init H dir d) l) := (kept_run (apart_sequential hl)).once

end Runs

/-! ## 5. A transaction that comes back -/

/-- `SELECT * FROM t`. -/
def selectAll (t : String) : Stmt Nat := .select ⟨[(t, none)], fun
  | f :: _ => .ok f
  | [] => .error (.key t), id⟩

/-- A request that is served alone. -/
def alone (c : Nat) (st : Stmt Nat) : List (Move Nat) := [.load 0 c st {}, .run 0, .store 0]

/-- A SELECT that was loaded before a COMMIT of its connection and stored back after it, and then
another COMMIT. -/
def twice : List (Move Nat) :=
  alone 0 .begin ++ alone 0 (insertKey "t" 1) ++
    [.load 0 0 (selectAll "t") {}, .load 1 0 .commit {}, .run 0, .run 1, .store 1, .store 0] ++
    alone 0 .commit

/-- The transaction is committed twice, and its row is in the table twice, under one primary key. -/
theorem commits_twice : ¬ Once (Run.run (step natHost) (init natHost (some "d") oneTable) twice) ∧
    World.column (Engine.visible
      (Run.run (step natHost) (init natHost (some "d") oneTable) twice).eng "t") =
        .ok [some 1, some 1] := by
  have hcommitted : (Run.run (step natHost) (init natHost (some "d") oneTable) twice).committed =
      [0, 0] := by decide +kernel
  refine ⟨fun h => ?_, by decide +kernel⟩
  have hnodup := h.committed
  rw [hcommitted] at hnodup
  revert hnodup
  decide

/-- A SELECT and an INSERT of one connection side by side, and a COMMIT beside a statement of another
connection. -/
def sideBySide : List (Move Nat) :=
  alone 0 .begin ++
    [.load 0 0 (selectAll "t") {}, .load 1 0 (insertKey "t" 1) {}, .run 1, .run 0, .store 1, .store 0,
      .load 0 1 (insertKey "t" 2) {}, .load 1 0 .commit {}, .run 1, .run 0, .store 0, .store 1]

theorem once_sideBySide :
    (Run.run (step natHost) (init natHost (some "d") oneTable) sideBySide).committed = [0] ∧
      Once (Run.run (step natHost) (init natHost (some "d") oneTable) sideBySide) := by
  refine ⟨by decide +kernel, once_run (some "d") oneTable ?_⟩
  decide +kernel

end Server

end RyuDB
