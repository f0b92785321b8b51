/-
# Requests and their replies

A request is three things at once: a work item that passes through the queue of `EngineWorker` to one of its
threads, a future that the loop resolves when the thread has called back, and a task of `_cancellable` that
awaits the future and sends a frame.  They move one at a time, in any order; a client can cancel by id, and
go away, at any time.

By a request this module means a work item that `_cancellable` has submitted.  Outside of it are frames that
are answered on the loop without a work item: protocol errors, `cancel` itself, `fetch` and `close` of a
result, the history, and the sentinel with which `shutdown` ends the threads.

A thread looks at the event of its item once, before the call.  What is set later does not stop the call: the
engine itself looks again at the boundaries of its plan nodes and may raise `CancelledByUser` there, which is
one of the ways a call can end here.  So there are two moves between the queue and the call, and a client can
come between them.

* `replied_once`: no request is run twice or replied to twice, and when nothing is left to do each one of an
  open connection has been replied to.
* `settles`: there is always something to do only for so long.

The invariant has two halves that know of each other only through the outcome of an item: `Handed`
follows work items through the queue and the threads, `Framed` follows futures, tasks and frames.  A
run is any list of moves, and a move that is not possible changes nothing, so nothing is assumed about
who is fast.
-/
import Mathlib.Algebra.Group.Action.Defs
import Mathlib.Algebra.Order.BigOperators.Group.Finset
import RyuDB.Lib.Dict
import RyuDB.Lib.Run

namespace RyuDB

namespace Dispatch

/-! ## 1. Requests -/

/-- What a thread calls back with: the value of the call, `CancelledByUser` or another exception out of it,
or `Cancelled` without a call. -/
inductive Outcome where
  | value
  | cancelledByUser
  | fault
  | dropped
  deriving DecidableEq, Repr

/-- Where the work item is. -/
inductive Work where
  | queued
  /-- Out of the queue, with a thread that has not looked at its event yet. -/
  | taken (w : Nat)
  /-- The thread has found the event not set, and has not made the call yet. -/
  | cleared (w : Nat)
  | running (w : Nat)
  /-- Called back, and not run on the loop yet. -/
  | posted (o : Outcome)
  | ended (o : Outcome)
  deriving DecidableEq, Repr

/-- The future, as the task will find it. -/
inductive Fut where
  | pending
  | done (o : Outcome)
  | cancelled
  deriving DecidableEq, Repr

/-- The frame of the operation, `cancelled`, or an error. -/
inductive Reply where
  | answer
  | cancelled
  | error
  deriving DecidableEq, Repr

/-- The task: at its await, before it has sent, or through. -/
inductive Task where
  | awaiting
  | sending (k : Reply)
  | gone
  deriving DecidableEq, Repr

/-- The frame for an outcome. -/
def Outcome.reply : Outcome → Reply
  | .value => .answer
  | .cancelledByUser => .cancelled
  | .dropped => .cancelled
  | .fault => .error

/-- The thread that has the item. -/
def Work.heldBy : Work → Option Nat
  | .taken w => some w
  | .cleared w => some w
  | .running w => some w
  | _ => none

/-- The call has been made. -/
def Work.begun : Work → Bool
  | .running _ => true
  | .posted o => decide (o ≠ .dropped)
  | .ended o => decide (o ≠ .dropped)
  | _ => false

/-- The thread has looked at the event and found it not set. -/
def Work.passed : Work → Bool
  | .cleared _ => true
  | x => x.begun

/-- A call that has been made is one that the thread let pass. -/
theorem Work.passed_of_begun {x : Work} (h : x.begun = true) : x.passed = true := by
  cases x with
  | queued => cases h
  | taken w => cases h
  | cleared w => rfl
  | running w => rfl
  | posted o => exact h
  | ended o => exact h

/-- `_cancellable` has not come to `unregister_pending`: this is behind the send of a frame for a fault, and
before that of the operation. -/
def Task.registered : Task → Bool
  | .awaiting => true
  | .sending k => decide (k ≠ .answer)
  | .gone => false

/-- A request through `_cancellable`; `rid` is the text of its id. -/
structure Item where
  conn : Nat
  rid : Option String
  event : Bool
  work : Work
  fut : Fut
  task : Task
  deriving DecidableEq, Repr

/-! ## 2. The moves -/

/-- The server with its requests by number.  The last three fields record the run and are read by no
move. -/
structure Pool where
  count : Nat
  item : Nat → Item
  queue : List Nat
  /-- `_pending`, by connection. -/
  pending : Nat → Dict String Nat
  closed : List Nat
  /-- The requests whose call was made. -/
  started : List Nat
  /-- The frames that were sent. -/
  sent : List (Nat × Reply)
  /-- What clients asked to cancel. -/
  asked : List (Nat × String)

namespace Pool

/-- No request yet. -/
def init : Pool :=
  ⟨0, fun _ => ⟨0, none, false, .ended .dropped, .cancelled, .gone⟩, [], fun _ => ∅, [], [], [], []⟩

/-- `register_pending`. -/
def registerPending (pending : Nat → Dict String Nat) (c : Nat) (rid : Option String) (r : Nat) :
    Nat → Dict String Nat :=
  match rid with
  | none => pending
  | some t => Function.update pending c ((pending c).set t r)

/-- `unregister_pending`, whoever is registered. -/
def unregisterPending (pending : Nat → Dict String Nat) (c : Nat) (rid : Option String) :
    Nat → Dict String Nat :=
  match rid with
  | none => pending
  | some t => Function.update pending c ((pending c).erase t)

variable (s : Pool)

/-- A request changes. -/
def put (r : Nat) (it : Item) : Pool := { s with item := Function.update s.item r it }

/-- The thread waits for an item. -/
def idle (w : Nat) : Bool := (List.range s.count).all fun r => decide ((s.item r).work.heldBy ≠ some w)

/-- `server.submit` and `register_pending`. -/
def submit (c : Nat) (rid : Option String) : Pool :=
  { s with
    count := s.count + 1
    item := Function.update s.item s.count ⟨c, rid, false, .queued, .pending, .awaiting⟩
    queue := s.queue ++ [s.count]
    pending := registerPending s.pending c rid s.count }

/-- `self._q.get()` on thread `w`. -/
def take (w : Nat) : Option Pool :=
  match s.queue with
  | [] => none
  | r :: q => some { s.put r { s.item r with work := .taken w } with queue := q }

/-- `if cancel.is_set()`: the item is dropped, or the call comes next. -/
def check (r : Nat) : Option Pool :=
  match (s.item r).work with
  | .taken w =>
    if (s.item r).event then some (s.put r { s.item r with work := .posted .dropped })
    else some (s.put r { s.item r with work := .cleared w })
  | _ => none

/-- `fn(*args)`, whatever has become of the event. -/
def call (r : Nat) : Option Pool :=
  match (s.item r).work with
  | .cleared w => some { s.put r { s.item r with work := .running w } with started := s.started ++ [r] }
  | _ => none

/-- The call ends.  `CancelledByUser` is raised by it when the event is set. -/
def finish (r : Nat) (o : Outcome) : Option Pool :=
  match (s.item r).work with
  | .running _ =>
    if o ≠ .dropped ∧ (o = .cancelledByUser → (s.item r).event = true) then
      some (s.put r { s.item r with work := .posted o })
    else none
  | _ => none

/-- `_resolve_ok`, `_resolve_exc`, `_resolve_cancelled`: nothing when the future is done. -/
def resolve (r : Nat) : Option Pool :=
  match (s.item r).work with
  | .posted o =>
    some (s.put r { s.item r with
      work := .ended o
      fut := if (s.item r).fut = .pending then .done o else (s.item r).fut })
  | _ => none

/-- The task goes on behind `await fut`. -/
def wake (r : Nat) : Option Pool :=
  if (s.item r).task = .awaiting then
    match (s.item r).fut with
    | .pending => none
    | .done o =>
      some { s.put r { s.item r with task := .sending o.reply } with
        pending :=
          if o.reply = .answer then unregisterPending s.pending (s.item r).conn (s.item r).rid
          else s.pending }
    | .cancelled => some (s.put r { s.item r with task := .sending .error })
  else none

/-- The frame is sent, or the connection is closed and the send raises. -/
def send (r : Nat) : Option Pool :=
  match (s.item r).task with
  | .sending k =>
    some { s.put r { s.item r with task := .gone } with
      pending :=
        if k = .answer then s.pending
        else unregisterPending s.pending (s.item r).conn (s.item r).rid
      sent := if (s.item r).conn ∈ s.closed then s.sent else s.sent ++ [(r, k)] }
  | _ => none

/-- The targets that `cancel_pending` finds, and the others. -/
def cancelPending (c : Nat) (targets : List String) : List String × List String :=
  targets.partition fun t => ((s.pending c).get? t).isSome

/-- The requests behind ids. -/
def behind (c : Nat) (targets : List String) : List Nat := targets.filterMap (s.pending c).get?

/-- The event of a request is set. -/
def mark (rs : List Nat) (r : Nat) : Item :=
  if r ∈ rs then { s.item r with event := true } else s.item r

/-- `cancel_pending`. -/
def cancel (c : Nat) (targets : List String) : Pool :=
  { s with
    item := s.mark (s.behind c (s.cancelPending c targets).1)
    asked := s.asked ++ targets.map fun t => (c, t) }

/-- `task.cancel()`: the await raises, also when the future has just been resolved. -/
def Item.abort (it : Item) (c : Nat) : Item :=
  if it.conn = c ∧ it.task = .awaiting then { it with fut := .cancelled } else it

/-- The end of `_handler`. -/
def disconnect (c : Nat) : Pool :=
  { s with
    item := fun r => Item.abort (s.mark (s.behind c (s.pending c).keys) r) c
    pending := Function.update s.pending c ∅
    closed := c :: s.closed }

end Pool

/-- A move: of a client, of a thread, or of the loop. -/
inductive Move where
  | submit (c : Nat) (rid : Option String)
  | cancel (c : Nat) (targets : List String)
  | disconnect (c : Nat)
  | take (w : Nat)
  | check (r : Nat)
  | call (r : Nat)
  | finish (r : Nat) (o : Outcome)
  | resolve (r : Nat)
  | wake (r : Nat)
  | send (r : Nat)
  deriving DecidableEq, Repr

/-- Not a client's move. -/
def Move.internal : Move → Bool
  | .submit _ _ => false
  | .cancel _ _ => false
  | .disconnect _ => false
  | _ => true

/-- A move with `n` threads, if it is possible. -/
def step (n : Nat) (s : Pool) : Move → Option Pool
  | .submit c rid => if c ∈ s.closed then none else some (s.submit c rid)
  | .cancel c targets => if c ∈ s.closed then none else some (s.cancel c targets)
  | .disconnect c => if c ∈ s.closed then none else some (s.disconnect c)
  | .take w => if w < n ∧ s.idle w = true then s.take w else none
  | .check r => if r < s.count then s.check r else none
  | .call r => if r < s.count then s.call r else none
  | .finish r o => if r < s.count then s.finish r o else none
  | .resolve r => if r < s.count then s.resolve r else none
  | .wake r => if r < s.count then s.wake r else none
  | .send r => if r < s.count then s.send r else none

/-- A move that is not possible changes nothing. -/
def act (n : Nat) (s : Pool) (m : Move) : Pool := (step n s m).getD s

/-- Nothing is left to do for the threads and the loop. -/
def Quiet (n : Nat) (s : Pool) : Prop := ∀ m : Move, m.internal = true → step n s m = none

/-! ## 3. What a move does -/

variable {n : Nat} {s s' : Pool} {m : Move}

/-- The moves with what they need. -/
inductive Step (n : Nat) (s : Pool) : Move → Pool → Prop where
  | submit {c rid} (hopen : c ∉ s.closed) : Step n s (.submit c rid) (s.submit c rid)
  | cancel {c targets} (hopen : c ∉ s.closed) : Step n s (.cancel c targets) (s.cancel c targets)
  | disconnect {c} (hopen : c ∉ s.closed) : Step n s (.disconnect c) (s.disconnect c)
  | take {w r q} (hw : w < n) (hidle : s.idle w = true) (hq : s.queue = r :: q) :
    Step n s (.take w) { s.put r { s.item r with work := .taken w } with queue := q }
  | drop {r w} (hr : r < s.count) (hwork : (s.item r).work = .taken w) (hev : (s.item r).event = true) :
    Step n s (.check r) (s.put r { s.item r with work := .posted .dropped })
  | pass {r w} (hr : r < s.count) (hwork : (s.item r).work = .taken w) (hev : (s.item r).event = false) :
    Step n s (.check r) (s.put r { s.item r with work := .cleared w })
  | start {r w} (hr : r < s.count) (hwork : (s.item r).work = .cleared w) :
    Step n s (.call r) { s.put r { s.item r with work := .running w } with started := s.started ++ [r] }
  | finish {r o w} (hr : r < s.count) (hwork : (s.item r).work = .running w) (ho : o ≠ .dropped)
    (hev : o = .cancelledByUser → (s.item r).event = true) :
    Step n s (.finish r o) (s.put r { s.item r with work := .posted o })
  | resolve {r o} (hr : r < s.count) (hwork : (s.item r).work = .posted o) :
    Step n s (.resolve r) (s.put r { s.item r with
      work := .ended o
      fut := if (s.item r).fut = .pending then .done o else (s.item r).fut })
  | wakeDone {r o} (hr : r < s.count) (htask : (s.item r).task = .awaiting)
    (hfut : (s.item r).fut = .done o) :
    Step n s (.wake r) { s.put r { s.item r with task := .sending o.reply } with
      pending :=
        if o.reply = .answer then Pool.unregisterPending s.pending (s.item r).conn (s.item r).rid
        else s.pending }
  | wakeCancelled {r} (hr : r < s.count) (htask : (s.item r).task = .awaiting)
    (hfut : (s.item r).fut = .cancelled) :
    Step n s (.wake r) (s.put r { s.item r with task := .sending .error })
  | send {r k} (hr : r < s.count) (htask : (s.item r).task = .sending k) :
    Step n s (.send r) { s.put r { s.item r with task := .gone } with
      pending :=
        if k = .answer then s.pending
        else Pool.unregisterPending s.pending (s.item r).conn (s.item r).rid
      sent := if (s.item r).conn ∈ s.closed then s.sent else s.sent ++ [(r, k)] }

theorem Step.of_some (h : step n s m = some s') : Step n s m s' := by
  cases m with
  | submit c rid =>
    obtain ⟨hopen, h⟩ := Option.ite_none_left_eq_some.mp h
    cases h
    exact .submit hopen
  | cancel c targets =>
    obtain ⟨hopen, h⟩ := Option.ite_none_left_eq_some.mp h
    cases h
    exact .cancel hopen
  | disconnect c =>
    obtain ⟨hopen, h⟩ := Option.ite_none_left_eq_some.mp h
    cases h
    exact .disconnect hopen
  | take w =>
    obtain ⟨⟨hw, hidle⟩, h⟩ := Option.ite_none_right_eq_some.mp h
    unfold Pool.take at h
    split at h
    · cases h
    · cases h
      exact .take hw hidle ‹_›
  | check r =>
    obtain ⟨hr, h⟩ := Option.ite_none_right_eq_some.mp h
    unfold Pool.check at h
    split at h
    · split_ifs at h with hev
      · cases h
        exact .drop hr ‹_› hev
      · cases h
        exact .pass hr ‹_› (Bool.eq_false_iff.mpr hev)
    · cases h
  | call r =>
    obtain ⟨hr, h⟩ := Option.ite_none_right_eq_some.mp h
    unfold Pool.call at h
    split at h
    · cases h
      exact .start hr ‹_›
    · cases h
  | finish r o =>
    obtain ⟨hr, h⟩ := Option.ite_none_right_eq_some.mp h
    unfold Pool.finish at h
    split at h
    · obtain ⟨⟨ho, hev⟩, h⟩ := Option.ite_none_right_eq_some.mp h
      cases h
      exact .finish hr ‹_› ho hev
    · cases h
  | resolve r =>
    obtain ⟨hr, h⟩ := Option.ite_none_right_eq_some.mp h
    unfold Pool.resolve at h
    split at h
    · cases h
      exact .resolve hr ‹_›
    · cases h
  | wake r =>
    obtain ⟨hr, h⟩ := Option.ite_none_right_eq_some.mp h
    obtain ⟨htask, h⟩ := Option.ite_none_right_eq_some.mp h
    split at h
    · cases h
    · cases h
      exact .wakeDone hr htask ‹_›
    · cases h
      exact .wakeCancelled hr htask ‹_›
  | send r =>
    obtain ⟨hr, h⟩ := Option.ite_none_right_eq_some.mp h
    unfold Pool.send at h
    split at h
    · cases h
      exact .send hr ‹_›
    · cases h

/-- What every possible move keeps, a run keeps. -/
theorem run_invariant {P : Pool → Prop} (h : ∀ s m s', P s → Step n s m s' → P s') (hs : P s)
    (l : List Move) : P (Run.run (act n) s l) := by
  have hl : Run.Along (act n) (fun _ _ => True) s l := Run.Along.of_forall (fun _ _ => trivial)
  refine Run.Along.invariant (fun s m hs _ => ?_) hs hl
  unfold act
  cases hstep : step n s m with
  | none => exact hs
  | some s' => exact h s m s' hs (Step.of_some hstep)

/-! ## 4. Work items -/

/-- Where the work items are. -/
def works (s : Pool) (r : Nat) : Work := (s.item r).work

theorem put_item (r : Nat) (it : Item) (r' : Nat) :
    (s.put r it).item r' = if r' = r then it else s.item r' := Function.update_apply ..

theorem works_put (r : Nat) (it : Item) : works (s.put r it) = Function.update (works s) r it.work := by
  funext r'
  unfold works
  rw [put_item, Function.update_apply]
  split_ifs <;> rfl

theorem works_mark (rs : List Nat) (r : Nat) : (s.mark rs r).work = (s.item r).work := by
  unfold Pool.mark
  split_ifs <;> rfl

theorem works_abort (it : Item) (c : Nat) : (Pool.Item.abort it c).work = it.work := by
  unfold Pool.Item.abort
  split_ifs <;> rfl

/-- Every item is in the queue once or has left it for one thread, and calls are made once. -/
structure Handed (n count : Nat) (work : Nat → Work) (queue started : List Nat) : Prop where
  sorted : queue.Pairwise (· < ·)
  mem_queue : ∀ r, r ∈ queue ↔ r < count ∧ work r = .queued
  holder : ∀ r < count, ∀ w, (work r).heldBy = some w → w < n
  once : ∀ r < count, ∀ r' < count, ∀ w, (work r).heldBy = some w → (work r').heldBy = some w → r = r'
  nodup : started.Nodup
  mem_started : ∀ r, r ∈ started ↔ r < count ∧ (work r).begun = true

variable {count r : Nat} {work : Nat → Work} {queue started : List Nat}

/-- A new item. -/
theorem Handed.submit (h : Handed n count work queue started) :
    Handed n (count + 1) (Function.update work count .queued) (queue ++ [count]) started := by
  have hold : ∀ r < count, Function.update work count .queued r = work r := fun r hr =>
    Function.update_of_ne hr.ne _ _
  have hnew : Function.update work count Work.queued count = .queued := Function.update_self ..
  have hheld : ∀ r < count + 1, ∀ w, (Function.update work count Work.queued r).heldBy = some w →
      r < count ∧ (work r).heldBy = some w := by
    intro r hr w hw
    rcases Nat.lt_succ_iff_lt_or_eq.mp hr with hr | rfl
    · exact ⟨hr, by rwa [hold r hr] at hw⟩
    · rw [hnew] at hw
      cases hw
  refine ⟨?_, fun r => ?_, ?_, ?_, h.nodup, fun r => ?_⟩
  · refine List.pairwise_append.mpr ⟨h.sorted, List.pairwise_singleton _ _, fun a ha b hb => ?_⟩
    rw [List.mem_singleton.mp hb]
    exact ((h.mem_queue a).mp ha).1
  · rw [List.mem_append, List.mem_singleton, h.mem_queue]
    rcases Nat.lt_trichotomy r count with hr | rfl | hr
    · rw [hold r hr]
      simp [hr, hr.ne, Nat.lt_succ_of_lt hr]
    · simp
    · simp [hr.ne', hr.not_gt, Nat.not_lt.mpr (Nat.succ_le_of_lt hr)]
  · exact fun r hr w hw => h.holder r (hheld r hr w hw).1 w (hheld r hr w hw).2
  · exact fun r hr r' hr' w hw hw' => h.once r (hheld r hr w hw).1 r' (hheld r' hr' w hw').1 w
      (hheld r hr w hw).2 (hheld r' hr' w hw').2
  · rw [h.mem_started]
    rcases Nat.lt_trichotomy r count with hr | rfl | hr
    · rw [hold r hr]
      simp [hr, Nat.lt_succ_of_lt hr]
    · simp [Work.begun]
    · simp [hr.not_gt, Nat.not_lt.mpr (Nat.succ_le_of_lt hr)]

/-- An idle thread takes the first item. -/
theorem Handed.take {q : List Nat} {w : Nat} (h : Handed n count work (r :: q) started) (hw : w < n)
    (hidle : ∀ r < count, (work r).heldBy ≠ some w) :
    Handed n count (Function.update work r (.taken w)) q started := by
  obtain ⟨hr, hqueued⟩ := (h.mem_queue r).mp List.mem_cons_self
  obtain ⟨hfirst, hsorted⟩ := List.pairwise_cons.mp h.sorted
  have hnot : r ∉ q := fun hmem => lt_irrefl r (hfirst r hmem)
  have hheld : ∀ r', ∀ v, (Function.update work r (.taken w) r').heldBy = some v →
      r' = r ∧ v = w ∨ r' ≠ r ∧ (work r').heldBy = some v := by
    intro r' v hv
    by_cases hrr : r' = r
    · subst hrr
      rw [Function.update_self] at hv
      exact Or.inl ⟨rfl, (Option.some.inj hv).symm⟩
    · rw [Function.update_of_ne hrr] at hv
      exact Or.inr ⟨hrr, hv⟩
  refine ⟨hsorted, fun r' => ?_, fun r' hr' v hv => ?_, fun r₁ h₁ r₂ h₂ v hv₁ hv₂ => ?_, h.nodup,
    fun r' => ?_⟩
  · by_cases hrr : r' = r
    · subst hrr
      simp [hnot]
    · rw [Function.update_of_ne hrr, ← h.mem_queue, List.mem_cons]
      simp [hrr]
  · rcases hheld r' v hv with ⟨-, rfl⟩ | ⟨-, hv⟩
    · exact hw
    · exact h.holder r' hr' v hv
  · rcases hheld r₁ v hv₁ with ⟨e₁, ew₁⟩ | ⟨-, old₁⟩
    · rcases hheld r₂ v hv₂ with ⟨e₂, -⟩ | ⟨-, old₂⟩
      · rw [e₁, e₂]
      · exact absurd (ew₁ ▸ old₂) (hidle r₂ h₂)
    · rcases hheld r₂ v hv₂ with ⟨-, ew₂⟩ | ⟨-, old₂⟩
      · exact absurd (ew₂ ▸ old₁) (hidle r₁ h₁)
      · exact h.once r₁ h₁ r₂ h₂ v old₁ old₂
  · rw [h.mem_started]
    by_cases hrr : r' = r
    · subst hrr
      rw [Function.update_self, hqueued]
      rfl
    · rw [Function.update_of_ne hrr]

/-- An item that has left the queue goes on, and its call is made at most then. -/
theorem Handed.move (x : Work) (h : Handed n count work queue started) (hr : r < count) (hold : work r ≠ .queued)
    (hnew : x ≠ .queued) (hheld : x.heldBy = none ∨ x.heldBy = (work r).heldBy)
    (hbegun : (work r).begun = true → x.begun = true) :
    Handed n count (Function.update work r x) queue
      (if x.begun = true ∧ (work r).begun = false then started ++ [r] else started) := by
  have hheld' : ∀ r', ∀ v, (Function.update work r x r').heldBy = some v → (work r').heldBy = some v := by
    intro r' v hv
    by_cases hrr : r' = r
    · subst hrr
      rw [Function.update_self] at hv
      rcases hheld with hnone | hsame
      · rw [hnone] at hv
        cases hv
      · rwa [hsame] at hv
    · rwa [Function.update_of_ne hrr] at hv
  have hlost : ¬(x.begun = true ∧ (work r).begun = false) → x.begun = (work r).begun := by
    cases hx : x.begun <;> cases hb : (work r).begun <;> simp_all
  refine ⟨h.sorted, fun r' => ?_, fun r' hr' v hv => h.holder r' hr' v (hheld' r' v hv),
    fun r₁ h₁ r₂ h₂ v hv₁ hv₂ => h.once r₁ h₁ r₂ h₂ v (hheld' r₁ v hv₁) (hheld' r₂ v hv₂), ?_, fun r' => ?_⟩
  · rw [h.mem_queue]
    by_cases hrr : r' = r
    · subst hrr
      simp [hold, hnew]
    · rw [Function.update_of_ne hrr]
  · split_ifs with hb
    · refine List.Nodup.append h.nodup (List.nodup_singleton r) ?_
      rw [List.disjoint_singleton, h.mem_started, hb.2]
      simp
    · exact h.nodup
  · by_cases hrr : r' = r
    · subst hrr
      rw [Function.update_self]
      split_ifs with hb
      · simp [hr, hb.1]
      · rw [h.mem_started, hlost hb]
    · rw [Function.update_of_ne hrr]
      split_ifs with hb
      · simp [h.mem_started, hrr]
      · rw [h.mem_started]

/-- The items of a pool are handed out right. -/
def Held (n : Nat) (s : Pool) : Prop := Handed n s.count (works s) s.queue s.started

theorem held_init (n : Nat) : Held n Pool.init := by
  refine ⟨List.Pairwise.nil, fun r => ?_, fun r hr => ?_, fun r hr => ?_, List.nodup_nil, fun r => ?_⟩
  · simp [Pool.init]
  · cases hr
  · cases hr
  · simp [Pool.init]

/-- A change of an item that leaves it where it is. -/
theorem works_put_same {r : Nat} {it : Item} (h : it.work = (s.item r).work) : works (s.put r it) = works s := by
  rw [works_put, h]
  exact Function.update_eq_self r (works s)

theorem idle_iff {w : Nat} : s.idle w = true ↔ ∀ r < s.count, (works s r).heldBy ≠ some w := by
  simp [Pool.idle, works]

/-- **Each move hands items out right.** -/
theorem Step.held (hs : Step n s m s') (h : Held n s) : Held n s' := by
  cases hs with
  | @submit c rid hopen =>
    have hworks : works (s.submit c rid) = Function.update (works s) s.count .queued :=
      works_put s.count _
    unfold Held
    rw [hworks]
    exact Handed.submit h
  | @cancel c targets hopen =>
    have hworks : works (s.cancel c targets) = works s := funext fun r => works_mark _ r
    unfold Held
    rw [hworks]
    exact h
  | @disconnect c hopen =>
    have hworks : works (s.disconnect c) = works s := funext fun r => (works_abort _ _).trans (works_mark _ r)
    unfold Held
    rw [hworks]
    exact h
  | @take w r q hw hidle hq =>
    have hworks : works (s.put r { s.item r with work := .taken w }) = _ := works_put r _
    unfold Held at h ⊢
    rw [hq] at h
    change Handed n s.count (works (s.put r _)) q s.started
    rw [hworks]
    exact h.take hw (idle_iff.mp hidle)
  | @drop r w hr hwork hev =>
    have hwork' : works s r = .taken w := hwork
    have := Handed.move (.posted .dropped) h hr (by simp [hwork']) (by simp) (.inl rfl) (by simp [hwork', Work.begun])
    change Handed n s.count (works (s.put r _)) s.queue s.started
    rw [works_put]
    simpa [Work.begun] using this
  | @pass r w hr hwork hev =>
    have hwork' : works s r = .taken w := hwork
    have := Handed.move (.cleared w) h hr (by simp [hwork']) (by simp) (.inr (by rw [hwork']; rfl))
      (by simp [hwork', Work.begun])
    change Handed n s.count (works (s.put r _)) s.queue s.started
    rw [works_put]
    simpa [Work.begun] using this
  | @start r w hr hwork =>
    have hwork' : works s r = .cleared w := hwork
    have := Handed.move (.running w) h hr (by simp [hwork']) (by simp) (.inr (by rw [hwork']; rfl))
      (by simp [hwork', Work.begun])
    change Handed n s.count (works (s.put r _)) s.queue (s.started ++ [r])
    rw [works_put]
    simpa [Work.begun, hwork'] using this
  | @finish r o w hr hwork ho hev =>
    have hwork' : works s r = .running w := hwork
    have := Handed.move (.posted o) h hr (by simp [hwork']) (by simp) (.inl rfl) (by simp [Work.begun, ho])
    change Handed n s.count (works (s.put r _)) s.queue s.started
    rw [works_put]
    simpa [Work.begun, hwork'] using this
  | @resolve r o hr hwork =>
    have hwork' : works s r = .posted o := hwork
    have := Handed.move (.ended o) h hr (by simp [hwork']) (by simp) (.inl rfl) (by simp [hwork', Work.begun])
    change Handed n s.count (works (s.put r _)) s.queue s.started
    rw [works_put]
    simpa [Work.begun, hwork'] using this
  | @wakeDone r o hr htask hfut =>
    have hworks : works (s.put r { s.item r with task := .sending o.reply }) = works s := works_put_same rfl
    change Handed n s.count (works (s.put r _)) s.queue s.started
    rw [hworks]
    exact h
  | @wakeCancelled r hr htask hfut =>
    have hworks : works (s.put r { s.item r with task := .sending .error }) = works s := works_put_same rfl
    unfold Held
    rw [hworks]
    exact h
  | @send r k hr htask =>
    have hworks : works (s.put r { s.item r with task := .gone }) = works s := works_put_same rfl
    change Handed n s.count (works (s.put r _)) s.queue s.started
    rw [hworks]
    exact h

/-! ## 5. Futures, tasks and frames -/

/-- What holds of a request by itself. -/
structure Item.Sane (it : Item) : Prop where
  done : ∀ o, it.fut = .done o → it.work = .ended o
  settled : ∀ o, it.work = .ended o → it.fut ≠ .pending
  waits : it.task ≠ .awaiting → it.fut ≠ .pending
  told : ∀ o, it.work = .posted o ∨ it.work = .ended o → o = .dropped ∨ o = .cancelledByUser → it.event = true
  frame : ∀ k o, it.task = .sending k → it.fut = .done o → o.reply = k

/-- How a request goes on, but for its frame. -/
structure Item.Follows (closed : List Nat) (it it' : Item) : Prop where
  conn : it'.conn = it.conn
  gone : it'.task = .gone ↔ it.task = .gone
  fut : it.task = .gone → it'.fut = it.fut
  cancelled : it'.fut = .cancelled → it.fut = .cancelled ∨ it.conn ∈ closed
  sane : it'.Sane

/-- Frames are sent once, by tasks that are through, and for what the future has. -/
structure Framed (count : Nat) (item : Nat → Item) (closed : List Nat) (sent : List (Nat × Reply)) : Prop where
  sane : ∀ r < count, (item r).Sane
  cancelled : ∀ r < count, (item r).fut = .cancelled → (item r).conn ∈ closed
  frames : ∀ r k, (r, k) ∈ sent → r < count ∧ (item r).task = .gone ∧ ∃ o, (item r).fut = .done o ∧ o.reply = k
  nodup : (sent.map Prod.fst).Nodup
  gone : ∀ r < count, (item r).task = .gone → (item r).conn ∈ closed ∨ ∃ k, (r, k) ∈ sent

section Framed

variable {item item' : Nat → Item} {closed closed' : List Nat} {sent : List (Nat × Reply)} {it : Item}

theorem Item.Follows.refl (h : it.Sane) : it.Follows closed it :=
  ⟨rfl, Iff.rfl, fun _ => rfl, Or.inl, h⟩

theorem Framed.follows (h : Framed count item closed sent) (hclosed : ∀ c ∈ closed, c ∈ closed')
    (hf : ∀ r < count, (item r).Follows closed' (item' r)) : Framed count item' closed' sent := by
  refine ⟨fun r hr => (hf r hr).sane, fun r hr hc => ?_, fun r k hs => ?_, h.nodup, fun r hr hg => ?_⟩
  · rw [(hf r hr).conn]
    rcases (hf r hr).cancelled hc with hc | hc
    · exact hclosed _ (h.cancelled r hr hc)
    · exact hc
  · obtain ⟨hr, hgone, hfut⟩ := h.frames r k hs
    refine ⟨hr, (hf r hr).gone.mpr hgone, ?_⟩
    rwa [(hf r hr).fut hgone]
  · rw [(hf r hr).conn]
    exact (h.gone r hr ((hf r hr).gone.mp hg)).imp_left (hclosed _)

/-- One request goes on. -/
theorem Framed.put (h : Framed s.count s.item closed sent) {r : Nat} (hf : (s.item r).Follows closed it) :
    Framed s.count (s.put r it).item closed sent := by
  refine h.follows (fun _ hc => hc) fun r' hr' => ?_
  rw [put_item]
  split_ifs with hrr
  · rw [hrr]
    exact hf
  · exact .refl (h.sane r' hr')

/-- A new request. -/
theorem Framed.submit (h : Framed count item closed sent) (hsane : it.Sane) (hfut : it.fut ≠ .cancelled)
    (htask : it.task ≠ .gone) : Framed (count + 1) (Function.update item count it) closed sent := by
  have hold : ∀ r < count, Function.update item count it r = item r := fun r hr =>
    Function.update_of_ne hr.ne _ _
  have hsplit : ∀ r < count + 1, r < count ∨ r = count := fun r hr => Nat.lt_succ_iff_lt_or_eq.mp hr
  refine ⟨fun r hr => ?_, fun r hr hc => ?_, fun r k hs => ?_, h.nodup, fun r hr hg => ?_⟩
  · rcases hsplit r hr with hr | rfl
    · rw [hold r hr]
      exact h.sane r hr
    · rwa [Function.update_self]
  · rcases hsplit r hr with hr | rfl
    · rw [hold r hr] at hc ⊢
      exact h.cancelled r hr hc
    · rw [Function.update_self] at hc
      exact absurd hc hfut
  · obtain ⟨hr, hrest⟩ := h.frames r k hs
    rw [hold r hr]
    exact ⟨Nat.lt_succ_of_lt hr, hrest⟩
  · rcases hsplit r hr with hr | rfl
    · rw [hold r hr] at hg ⊢
      exact h.gone r hr hg
    · rw [Function.update_self] at hg
      exact absurd hg htask

/-- The task is through, and has sent its frame if it could. -/
theorem Framed.send (h : Framed count item closed sent) {r : Nat} {k : Reply} (hr : r < count)
    (htask : (item r).task = .sending k) :
    Framed count (Function.update item r { item r with task := .gone }) closed
      (if (item r).conn ∈ closed then sent else sent ++ [(r, k)]) := by
  have hnot : r ∉ sent.map Prod.fst := by
    intro hmem
    obtain ⟨⟨_, k'⟩, hs, rfl⟩ := List.mem_map.mp hmem
    rw [(h.frames _ k' hs).2.1] at htask
    cases htask
  have hs := h.sane r hr
  have hwaits : (item r).fut ≠ .pending := hs.waits (by rw [htask]; simp)
  have hsane : ({ item r with task := .gone } : Item).Sane :=
    ⟨hs.done, hs.settled, fun _ => hwaits, hs.told, fun _ _ hk => by cases hk⟩
  have hold : ∀ r', (Function.update item r { item r with task := .gone } r').conn = (item r').conn ∧
      (Function.update item r { item r with task := .gone } r').fut = (item r').fut := by
    intro r'
    rw [Function.update_apply]
    split_ifs with hrr
    · rw [hrr]
      exact ⟨rfl, rfl⟩
    · exact ⟨rfl, rfl⟩
  refine ⟨fun r' hr' => ?_, fun r' hr' hc => ?_, fun r' k' hs' => ?_, ?_, fun r' hr' hg => ?_⟩
  · rw [Function.update_apply]
    split_ifs with hrr
    · exact hsane
    · exact h.sane r' hr'
  · rw [(hold r').1]
    rw [(hold r').2] at hc
    exact h.cancelled r' hr' hc
  · have hcase : (r', k') ∈ sent ∨ (item r).conn ∉ closed ∧ r' = r ∧ k' = k := by
      split_ifs at hs' with hc
      · exact Or.inl hs'
      · rcases List.mem_append.mp hs' with hs' | hs'
        · exact Or.inl hs'
        · exact Or.inr ⟨hc, Prod.mk.inj (List.mem_singleton.mp hs')⟩
    rw [(hold r').2]
    rcases hcase with hs' | ⟨hc, rfl, rfl⟩
    · obtain ⟨hr', hg, hfut⟩ := h.frames r' k' hs'
      refine ⟨hr', ?_, hfut⟩
      rw [Function.update_apply]
      split_ifs
      · rfl
      · exact hg
    · refine ⟨hr, by rw [Function.update_self], ?_⟩
      cases hfut : (item r').fut with
      | pending => exact absurd hfut hwaits
      | cancelled => exact absurd (h.cancelled r' hr hfut) hc
      | done o => exact ⟨o, rfl, hs.frame k' o htask hfut⟩
  · split_ifs with hc
    · exact h.nodup
    · rw [List.map_append]
      exact List.Nodup.append h.nodup (List.nodup_singleton r) (List.disjoint_singleton.mpr hnot)
  · rw [(hold r').1]
    by_cases hrr : r' = r
    · subst hrr
      by_cases hc : (item r').conn ∈ closed
      · exact Or.inl hc
      · rw [if_neg hc]
        exact Or.inr ⟨k, List.mem_append_right _ (List.mem_singleton.mpr rfl)⟩
    · rw [Function.update_of_ne hrr] at hg
      refine (h.gone r' hr' hg).imp_right fun ⟨k', hs'⟩ => ⟨k', ?_⟩
      split_ifs
      · exact hs'
      · exact List.mem_append_left _ hs'

end Framed

/-- The frames of a pool are right. -/
def Answered (s : Pool) : Prop := Framed s.count s.item s.closed s.sent

theorem answered_init : Answered Pool.init := by
  refine ⟨fun r hr => ?_, fun r hr => ?_, fun r k hs => ?_, List.nodup_nil, fun r hr => ?_⟩
  · cases hr
  · cases hr
  · cases hs
  · cases hr

/-- A request that has not ended is not done. -/
theorem Item.Sane.not_done {it : Item} (h : it.Sane) (hwork : ∀ o, it.work ≠ .ended o) (o : Outcome) :
    it.fut ≠ .done o := fun hd => hwork o (h.done o hd)

/-- The work item goes on, and has not ended yet. -/
theorem Item.Sane.onward {it : Item} (h : it.Sane) {x : Work} {closed : List Nat}
    (hold : ∀ o, it.work ≠ .ended o) (hnew : ∀ o, x ≠ .ended o)
    (htold : ∀ o, x = .posted o → o = .dropped ∨ o = .cancelledByUser → it.event = true) :
    it.Follows closed { it with work := x } := by
  refine ⟨rfl, Iff.rfl, fun _ => rfl, Or.inl, ⟨fun o hd => ?_, fun o ho => ?_, h.waits, fun o ho => ?_, h.frame⟩⟩
  · exact absurd hd (h.not_done hold o)
  · exact absurd ho (hnew o)
  · exact htold o (ho.resolve_right (hnew o))

/-- The event is set. -/
theorem Item.Sane.mark {rs : List Nat} {r : Nat} (h : (s.item r).Sane) (closed : List Nat) :
    (s.item r).Follows closed (s.mark rs r) := by
  unfold Pool.mark
  split_ifs
  · exact ⟨rfl, Iff.rfl, fun _ => rfl, Or.inl, ⟨h.done, h.settled, h.waits, fun _ _ _ => rfl, h.frame⟩⟩
  · exact .refl h

/-- The await raises. -/
theorem Item.Sane.abort {it : Item} (h : it.Sane) {c : Nat} {closed : List Nat} (hc : c ∈ closed) :
    it.Follows closed (Pool.Item.abort it c) := by
  unfold Pool.Item.abort
  split_ifs with ha
  · obtain ⟨rfl, htask⟩ := ha
    refine ⟨rfl, Iff.rfl, fun hg => ?_, fun _ => Or.inr hc, ⟨fun o hd => ?_, fun _ _ => ?_, fun _ => ?_, h.told,
      fun k o hk => ?_⟩⟩
    · rw [htask] at hg
      cases hg
    · cases hd
    · simp
    · simp
    · rw [htask] at hk
      cases hk
  · exact .refl h

theorem Item.Follows.trans {closed : List Nat} {it it' it'' : Item} (h : it.Follows closed it')
    (h' : it'.Follows closed it'') : it.Follows closed it'' where
  conn := h'.conn.trans h.conn
  gone := h'.gone.trans h.gone
  fut hg := (h'.fut (h.gone.mpr hg)).trans (h.fut hg)
  cancelled hc := by
    rcases h'.cancelled hc with hc | hc
    · exact h.cancelled hc
    · exact Or.inr (h.conn ▸ hc)
  sane := h'.sane

/-- The future is resolved, unless it is done. -/
theorem Item.Sane.resolve {it : Item} (h : it.Sane) {o : Outcome} {closed : List Nat}
    (hwork : it.work = .posted o) :
    it.Follows closed { it with work := .ended o, fut := if it.fut = .pending then .done o else it.fut } := by
  have hnot : ∀ o', it.fut ≠ .done o' := h.not_done fun o' ho => by rw [hwork] at ho; cases ho
  refine ⟨rfl, Iff.rfl, fun hg => ?_, fun hc => Or.inl ?_, ⟨fun o' hd => ?_, fun o' _ => ?_, fun _ => ?_,
    fun o' ho => ?_, fun k o' hk hd => ?_⟩⟩
  · exact if_neg (h.waits (by rw [hg]; simp))
  · change (if it.fut = .pending then Fut.done o else it.fut) = .cancelled at hc
    split_ifs at hc with hp
    exact hc
  · change (if it.fut = .pending then Fut.done o else it.fut) = .done o' at hd
    split_ifs at hd with hp
    · exact congrArg Work.ended (Fut.done.inj hd)
    · exact absurd hd (hnot o')
  · change (if it.fut = .pending then Fut.done o else it.fut) ≠ .pending
    split_ifs with hp
    · simp
    · exact hp
  · change (if it.fut = .pending then Fut.done o else it.fut) ≠ .pending
    split_ifs with hp
    · simp
    · exact hp
  · rcases ho with ho | ho
    · cases ho
    · cases ho
      exact h.told o (Or.inl hwork)
  · change (if it.fut = .pending then Fut.done o else it.fut) = .done o' at hd
    rw [if_neg (h.waits (by rw [hk]; simp))] at hd
    exact absurd hd (hnot o')

/-- The task goes on to its frame. -/
theorem Item.Sane.wake {it : Item} (h : it.Sane) {k : Reply} {closed : List Nat} (htask : it.task = .awaiting)
    (hfut : it.fut ≠ .pending) (hk : ∀ o, it.fut = .done o → o.reply = k) :
    it.Follows closed { it with task := .sending k } := by
  refine ⟨rfl, ?_, fun _ => rfl, Or.inl, ⟨h.done, h.settled, fun _ => hfut, h.told, fun k' o hk' hd => ?_⟩⟩
  · rw [htask]
    simp
  · cases hk'
    exact hk o hd

/-- **Each move sends frames right.** -/
theorem Step.answered (hs : Step n s m s') (hheld : Held n s) (h : Answered s) : Answered s' := by
  cases hs with
  | submit hopen =>
    refine Framed.submit h ⟨?_, ?_, ?_, ?_, ?_⟩ ?_ ?_ <;> simp
  | @cancel c targets hopen =>
    exact Framed.follows h (fun _ hc => hc) fun r hr => (h.sane r hr).mark _
  | @disconnect c hopen =>
    refine Framed.follows h (fun _ hc => List.mem_cons_of_mem c hc) fun r hr => ?_
    exact ((h.sane r hr).mark _).trans (((h.sane r hr).mark (c :: s.closed)).sane.abort List.mem_cons_self)
  | @take w r q hw hidle hq =>
    obtain ⟨hr, hqueued⟩ := (hheld.mem_queue r).mp (hq ▸ List.mem_cons_self)
    have hwork : (s.item r).work = .queued := hqueued
    exact Framed.put h ((h.sane r hr).onward (by simp [hwork]) (by simp) (by simp))
  | drop hr hwork hev =>
    exact Framed.put h ((h.sane _ hr).onward (by simp [hwork]) (by simp) fun _ _ _ => hev)
  | pass hr hwork hev =>
    exact Framed.put h ((h.sane _ hr).onward (by simp [hwork]) (by simp) (by simp))
  | start hr hwork =>
    exact Framed.put h ((h.sane _ hr).onward (by simp [hwork]) (by simp) (by simp))
  | @finish r o w hr hwork ho hev =>
    refine Framed.put h ((h.sane r hr).onward (by simp [hwork]) (by simp) fun o' ho' hcase => ?_)
    cases ho'
    exact hev (hcase.resolve_left ho)
  | resolve hr hwork => exact Framed.put h ((h.sane _ hr).resolve hwork)
  | wakeDone hr htask hfut =>
    refine Framed.put h ((h.sane _ hr).wake htask (by simp [hfut]) fun o ho => ?_)
    rw [hfut] at ho
    cases ho
    rfl
  | wakeCancelled hr htask hfut =>
    refine Framed.put h ((h.sane _ hr).wake htask (by simp [hfut]) fun o ho => ?_)
    rw [hfut] at ho
    cases ho
  | send hr htask => exact Framed.send h hr htask

/-! ## 6. When nothing is left to do -/

/-- Items and frames are right. -/
structure Sound (n : Nat) (s : Pool) : Prop where
  held : Held n s
  answered : Answered s

theorem sound_init (n : Nat) : Sound n Pool.init := ⟨held_init n, answered_init⟩

theorem Step.sound (hs : Step n s m s') (h : Sound n s) : Sound n s' :=
  ⟨hs.held h.held, hs.answered h.held h.answered⟩

theorem sound_run (h : Sound n s) (l : List Move) : Sound n (Run.run (act n) s l) :=
  run_invariant (fun _ _ _ h hs => hs.sound h) h l

/-- Every request is through. -/
def Through (s : Pool) : Prop := ∀ r < s.count, (∃ o, (s.item r).work = .ended o) ∧ (s.item r).task = .gone

/-- A thread that holds an item has a move. -/
theorem Quiet.not_held (hq : Quiet n s) {r : Nat} (hr : r < s.count) : (works s r).heldBy = none := by
  cases hwork : works s r with
  | taken w =>
    have := hq (.check r) rfl
    rw [step, if_pos hr, Pool.check, show (s.item r).work = .taken w from hwork] at this
    cases hev : (s.item r).event <;> simp [hev] at this
  | cleared w =>
    have := hq (.call r) rfl
    rw [step, if_pos hr, Pool.call, show (s.item r).work = .cleared w from hwork] at this
    cases this
  | running w =>
    have := hq (.finish r .value) rfl
    rw [step, if_pos hr, Pool.finish, show (s.item r).work = .running w from hwork] at this
    simp at this
  | queued => rfl
  | posted o => rfl
  | ended o => rfl

/-- With a thread at least, nothing is left to do when every request is through. -/
theorem quiet_iff (hn : 0 < n) (h : Sound n s) : Quiet n s ↔ Through s := by
  constructor
  · intro hq r hr
    have hempty : s.queue = [] := by
      cases hqueue : s.queue with
      | nil => rfl
      | cons r q =>
        have hidle : s.idle 0 = true := idle_iff.mpr fun r' hr' => by simp [hq.not_held hr']
        have := hq (.take 0) rfl
        rw [step, if_pos ⟨hn, hidle⟩, Pool.take, hqueue] at this
        cases this
    have hover : ∃ o, (s.item r).work = .ended o := by
      have hheld := hq.not_held hr
      cases hwork : (s.item r).work with
      | queued =>
        have := (h.held.mem_queue r).mpr ⟨hr, hwork⟩
        rw [hempty] at this
        cases this
      | taken w => simp [works, hwork, Work.heldBy] at hheld
      | cleared w => simp [works, hwork, Work.heldBy] at hheld
      | running w => simp [works, hwork, Work.heldBy] at hheld
      | posted o =>
        have := hq (.resolve r) rfl
        rw [step, if_pos hr, Pool.resolve, hwork] at this
        cases this
      | ended o => exact ⟨o, rfl⟩
    refine ⟨hover, ?_⟩
    obtain ⟨o, hwork⟩ := hover
    have hfut := (h.answered.sane r hr).settled o hwork
    cases htask : (s.item r).task with
    | awaiting =>
      have := hq (.wake r) rfl
      rw [step, if_pos hr, Pool.wake, if_pos htask] at this
      cases hf : (s.item r).fut with
      | pending => exact absurd hf hfut
      | done o => simp [hf] at this
      | cancelled => simp [hf] at this
    | sending k =>
      have := hq (.send r) rfl
      rw [step, if_pos hr, Pool.send, htask] at this
      cases this
    | gone => rfl
  · intro hthrough m hm
    cases hstep : step n s m with
    | none => rfl
    | some s' =>
      cases Step.of_some hstep with
      | submit _ => cases hm
      | cancel _ => cases hm
      | disconnect _ => cases hm
      | @take w r q _ _ hq =>
        obtain ⟨hr, hqueued⟩ := (h.held.mem_queue r).mp (hq ▸ List.mem_cons_self)
        obtain ⟨⟨o, ho⟩, -⟩ := hthrough r hr
        rw [works, ho] at hqueued
        cases hqueued
      | drop hr hwork _ => simpa [hwork] using (hthrough _ hr).1
      | pass hr hwork _ => simpa [hwork] using (hthrough _ hr).1
      | start hr hwork => simpa [hwork] using (hthrough _ hr).1
      | finish hr hwork _ _ => simpa [hwork] using (hthrough _ hr).1
      | resolve hr hwork => simpa [hwork] using (hthrough _ hr).1
      | wakeDone hr htask _ => simpa [htask] using (hthrough _ hr).2
      | wakeCancelled hr htask _ => simpa [htask] using (hthrough _ hr).2
      | send hr htask => simpa [htask] using (hthrough _ hr).2

/-- What is left to do for a request. -/
def Work.left : Work → Nat
  | .queued => 5
  | .taken _ => 4
  | .cleared _ => 3
  | .running _ => 2
  | .posted _ => 1
  | .ended _ => 0

def Task.left : Task → Nat
  | .awaiting => 2
  | .sending _ => 1
  | .gone => 0

def Item.left (it : Item) : Nat := it.work.left + it.task.left

/-- What is left to do for all of them. -/
def Pool.left (s : Pool) : Nat := ∑ r ∈ Finset.range s.count, (s.item r).left

theorem left_le (s : Pool) : s.left ≤ 7 * s.count := by
  have hle : ∀ r ∈ Finset.range s.count, (s.item r).left ≤ 7 := fun r _ => by
    have hwork : (s.item r).work.left ≤ 5 := by cases (s.item r).work <;> simp [Work.left]
    have htask : (s.item r).task.left ≤ 2 := by cases (s.item r).task <;> simp [Task.left]
    unfold Item.left
    omega
  have := Finset.sum_le_card_nsmul _ _ 7 hle
  rw [Finset.card_range, smul_eq_mul, Nat.mul_comm] at this
  exact this

theorem left_put {r : Nat} {it : Item} (hr : r < s.count) (hlt : it.left < (s.item r).left) :
    (s.put r it).left < s.left := by
  refine Finset.sum_lt_sum (fun r' _ => ?_) ⟨r, Finset.mem_range.mpr hr, ?_⟩
  · rw [put_item]
    split_ifs with hrr
    · rw [hrr]
      exact hlt.le
    · exact le_refl _
  · rw [put_item, if_pos rfl]
    exact hlt

/-- **Each move of a thread or of the loop gets something done.** -/
theorem Step.left (hs : Step n s m s') (hm : m.internal = true) (h : Held n s) : s'.left < s.left := by
  cases hs with
  | submit _ => cases hm
  | cancel _ => cases hm
  | disconnect _ => cases hm
  | @take w r q _ _ hq =>
    obtain ⟨hr, hqueued⟩ := (h.mem_queue r).mp (hq ▸ List.mem_cons_self)
    have hwork : (s.item r).work = .queued := hqueued
    exact left_put hr (by simp [Item.left, hwork, Work.left])
  | drop hr hwork _ => exact left_put hr (by simp [Item.left, hwork, Work.left])
  | pass hr hwork _ => exact left_put hr (by simp [Item.left, hwork, Work.left])
  | start hr hwork => exact left_put hr (by simp [Item.left, hwork, Work.left])
  | finish hr hwork _ _ => exact left_put hr (by simp [Item.left, hwork, Work.left])
  | resolve hr hwork => exact left_put hr (by simp [Item.left, hwork, Work.left])
  | wakeDone hr htask _ => exact left_put hr (by simp [Item.left, htask, Task.left])
  | wakeCancelled hr htask _ => exact left_put hr (by simp [Item.left, htask, Task.left])
  | send hr htask => exact left_put hr (by simp [Item.left, htask, Task.left])

/-! ## 7. Every run -/

/-- The server after a run from its start. -/
def after (n : Nat) (l : List Move) : Pool := Run.run (act n) Pool.init l

theorem sound_after (n : Nat) (l : List Move) : Sound n (after n l) := sound_run (sound_init n) l

/-- **No request is run twice or replied to twice**, one that was not cancelled has been run, and when nothing
is left to do, each request of an open connection has been replied to.  `n` is the number of threads, which
`EngineWorker` makes at least one; a closed connection gets no frames, so that its requests are through without
one. -/
theorem replied_once (n : Nat) (hn : 0 < n) (l : List Move) :
    (after n l).started.Nodup ∧ ((after n l).sent.map Prod.fst).Nodup ∧
    (∀ r k, (r, k) ∈ (after n l).sent → k ≠ .cancelled → r ∈ (after n l).started) ∧
    (Quiet n (after n l) → ∀ r < (after n l).count, ((after n l).item r).conn ∉ (after n l).closed →
      ∃ k, (r, k) ∈ (after n l).sent) := by
  have hs := sound_after n l
  refine ⟨hs.held.nodup, hs.answered.nodup, fun r k hsent hk => ?_, fun hq r hr hopen => ?_⟩
  · obtain ⟨hr, -, o, hfut, rfl⟩ := hs.answered.frames r k hsent
    refine (hs.held.mem_started r).mpr ⟨hr, ?_⟩
    have hwork : works (after n l) r = .ended o := (hs.answered.sane r hr).done o hfut
    rw [hwork, Work.begun, decide_eq_true_eq]
    rintro rfl
    exact hk rfl
  · exact (hs.answered.gone r hr ((quiet_iff hn hs).mp hq r hr).2).resolve_left hopen

/-- Two requests on one thread; the second one is cancelled while it waits. -/
def cancelSecond : List Move :=
  [.submit 0 (some "a"), .take 0, .submit 0 (some "b"), .check 0, .call 0, .cancel 0 ["b", "c"],
    .finish 0 .value, .take 0, .check 1, .resolve 0, .resolve 1, .wake 0, .wake 1, .send 1, .send 0]

theorem cancelSecond_quiet : Quiet 1 (after 1 cancelSecond) := by
  rw [quiet_iff Nat.one_pos (sound_after 1 cancelSecond)]
  have hall : ∀ r < 2, (((after 1 cancelSecond).item r).work = .ended .value ∨
      ((after 1 cancelSecond).item r).work = .ended .dropped) ∧
      ((after 1 cancelSecond).item r).task = .gone := by decide +kernel
  intro r hr
  obtain ⟨hwork, htask⟩ := hall r hr
  exact ⟨hwork.elim (fun h => ⟨_, h⟩) fun h => ⟨_, h⟩, htask⟩

theorem replied_once_second : ∃ k, (1, k) ∈ (after 1 cancelSecond).sent :=
  (replied_once 1 Nat.one_pos cancelSecond).2.2.2 cancelSecond_quiet 1 (by decide +kernel) (by decide +kernel)

/-- **The threads and the loop come to rest**: after any run, they have at most seven moves for each
request.  A request has seven: it is taken, looked at, called, finished, resolved, resumed, and
answered. -/
theorem settles (n : Nat) (l l' : List Move)
    (hl : Run.Along (act n) (fun s m => m.internal = true ∧ (step n s m).isSome = true) (after n l) l') :
    l'.length ≤ 7 * (after n l).count := by
  suffices h : ∀ s, Sound n s →
      Run.Along (act n) (fun s m => m.internal = true ∧ (step n s m).isSome = true) s l' →
      l'.length ≤ s.left from (h _ (sound_after n l) hl).trans (left_le _)
  clear hl
  induction l' with
  | nil => exact fun _ _ _ => Nat.zero_le _
  | cons m l' ih =>
    intro s hs hl
    obtain ⟨⟨hm, hsome⟩, hrest⟩ := hl
    obtain ⟨s', hstep⟩ := Option.isSome_iff_exists.mp hsome
    have hact : act n s m = s' := by rw [act, hstep, Option.getD_some]
    rw [hact] at hrest
    have hmove := Step.of_some hstep
    have hlt := hmove.left hm hs.held
    have hle := ih s' (hmove.sound hs) hrest
    rw [List.length_cons]
    omega

theorem settles_second :
    ([.take 0, .check 0, .call 0, .finish 0 .fault, .resolve 0, .wake 0, .send 0] : List Move).length ≤
    7 * (after 1 [.submit 0 (some "a")]).count :=
  settles 1 [.submit 0 (some "a")] _ (by decide +kernel)

end Dispatch

end RyuDB
