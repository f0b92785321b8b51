/-
# The read-write lock of the engine

`_RWLock`: many readers or one writer, and a waiting writer holds back new readers.  The four
methods run inside the monitor of one condition variable, so what a thread does between entering
the monitor and giving it up is one step:

* `acquire_read` and `acquire_write` up to the end of the method or up to `wait`, which puts the
  thread to sleep and gives the monitor up;
* the same loop again after the thread was woken and has entered the monitor once more;
* `release_read` and `release_write`, which may `notify_all`: every sleeping thread is woken and
  waits for the monitor.

A woken thread has a wake-up pending until it has gone through its loop again.  `Sane` is what every
reachable state satisfies: the counters count, the holders exclude each other, and a thread sleeps
only while what it waits for holds.  The last part is what rules out a lost wake-up: a sleeping
writer sees a holder, and a sleeping reader a writer that holds or waits.
-/
import Mathlib.Data.Fintype.Card
import Mathlib.Algebra.BigOperators.Group.Finset.Piecewise

namespace RyuDB

/-! ## 1. The monitor steps -/

/-- Where a thread is. -/
inductive Phase where
  | idle
  | readAsleep
  | readAwake
  | reading
  | writeAsleep
  | writeAwake
  | writing
  deriving DecidableEq, Repr

namespace Phase

/-- Holds the read side. -/
def reads : Phase → Bool
  | .reading => true
  | _ => false

/-- Holds the write side. -/
def writes : Phase → Bool
  | .writing => true
  | _ => false

/-- Inside `acquire_write`, with `_waiting_writers` raised. -/
def waitsToWrite : Phase → Bool
  | .writeAsleep | .writeAwake => true
  | _ => false

/-- In `wait`, with no wake-up pending. -/
def asleep : Phase → Bool
  | .readAsleep | .writeAsleep => true
  | _ => false

/-- Inside `acquire_read` or `acquire_write`. -/
def waits : Phase → Bool
  | .readAsleep | .readAwake | .writeAsleep | .writeAwake => true
  | _ => false

/-- What `notify_all` does to a thread. -/
def wake : Phase → Phase
  | .readAsleep => .readAwake
  | .writeAsleep => .writeAwake
  | p => p

theorem reads_iff {p : Phase} : p.reads = true ↔ p = .reading := by
  cases p <;> simp [reads]

theorem writes_iff {p : Phase} : p.writes = true ↔ p = .writing := by
  cases p <;> simp [writes]

theorem waits_of_waitsToWrite {p : Phase} (h : p.waitsToWrite = true) : p.waits = true := by
  cases p <;> simp_all [waitsToWrite, waits]

theorem asleep_iff {p : Phase} :
    p.asleep = true ↔ (p = .writeAsleep ∨ p = .readAsleep) := by
  cases p <;> simp [asleep]

theorem wake_reading {p : Phase} (h : p.wake = .reading) : p = .reading := by
  cases p <;> simp_all [wake]

end Phase

/-- `_RWLock` with the phase of every thread. -/
structure RWLock (ι : Type) where
  readers : Nat
  writer : Bool
  waitingWriters : Nat
  phase : ι → Phase

namespace RWLock

variable {ι : Type} [DecidableEq ι]

/-- `__init__`, before any thread has called. -/
def init : RWLock ι := ⟨0, false, 0, fun _ => .idle⟩

/-- Thread `t` is in phase `p` next. -/
def goto (s : RWLock ι) (t : ι) (p : Phase) : RWLock ι :=
  { s with phase := Function.update s.phase t p }

omit [DecidableEq ι] in
/-- `self._cond.notify_all()`. -/
def notifyAll (s : RWLock ι) : RWLock ι := { s with phase := fun t => (s.phase t).wake }

/-- The loop of `acquire_read` and what follows it. -/
def readLoop (s : RWLock ι) (t : ι) : RWLock ι :=
  if s.writer || decide (0 < s.waitingWriters) then s.goto t .readAsleep
  else { s.goto t .reading with readers := s.readers + 1 }

/-- `acquire_read`. -/
def acquireRead (s : RWLock ι) (t : ι) : RWLock ι := s.readLoop t

/-- `release_read`. -/
def releaseRead (s : RWLock ι) (t : ι) : RWLock ι :=
  let s' := { s.goto t .idle with readers := s.readers - 1 }
  if s'.readers = 0 then s'.notifyAll else s'

/-- The loop of `acquire_write` and what follows it. -/
def writeLoop (s : RWLock ι) (t : ι) : RWLock ι :=
  if s.writer || decide (0 < s.readers) then s.goto t .writeAsleep
  else { s.goto t .writing with waitingWriters := s.waitingWriters - 1, writer := true }

/-- `acquire_write`. -/
def acquireWrite (s : RWLock ι) (t : ι) : RWLock ι :=
  { s with waitingWriters := s.waitingWriters + 1 }.writeLoop t

/-- `release_write`. -/
def releaseWrite (s : RWLock ι) (t : ι) : RWLock ι :=
  { s.goto t .idle with writer := false }.notifyAll

/-- A monitor step of one thread: a call, or the loop again after a wake-up. -/
inductive Step : RWLock ι → RWLock ι → Prop
  | acquireRead {s : RWLock ι} {t : ι} : s.phase t = .idle → Step s (s.acquireRead t)
  | resumeRead {s : RWLock ι} {t : ι} : s.phase t = .readAwake → Step s (s.readLoop t)
  | releaseRead {s : RWLock ι} {t : ι} : s.phase t = .reading → Step s (s.releaseRead t)
  | acquireWrite {s : RWLock ι} {t : ι} : s.phase t = .idle → Step s (s.acquireWrite t)
  | resumeWrite {s : RWLock ι} {t : ι} : s.phase t = .writeAwake → Step s (s.writeLoop t)
  | releaseWrite {s : RWLock ι} {t : ι} : s.phase t = .writing → Step s (s.releaseWrite t)

/-- The states any interleaving of the threads leads to. -/
inductive Reachable : RWLock ι → Prop
  | init : Reachable init
  | step {s s' : RWLock ι} : Reachable s → Step s s' → Reachable s'

/-! ## 2. Counting threads -/

variable [Fintype ι]

omit [DecidableEq ι] in
/-- The number of threads in the phases `q`. -/
def tally (q : Phase → Bool) (f : ι → Phase) : Nat :=
  (Finset.univ.filter fun t => q (f t) = true).card

/-- One thread changes its phase. -/
theorem tally_update (q : Phase → Bool) (f : ι → Phase) (t : ι) (p : Phase) :
    tally q (Function.update f t p) + (q (f t)).toNat = tally q f + (q p).toNat := by
  have hsum : ∀ g : ι → Phase, tally q g = ∑ u, (q (g u)).toNat := by
    intro g
    rw [tally, Finset.card_filter]
    exact Finset.sum_congr rfl fun u _ => by cases q (g u) <;> rfl
  have hrest : ∑ u ∈ Finset.univ.erase t, (q (Function.update f t p u)).toNat =
      ∑ u ∈ Finset.univ.erase t, (q (f u)).toNat :=
    Finset.sum_congr rfl fun u hu => by rw [Function.update_of_ne (Finset.ne_of_mem_erase hu)]
  rw [hsum, hsum, ← Finset.add_sum_erase _ _ (Finset.mem_univ t),
    ← Finset.add_sum_erase _ _ (Finset.mem_univ t), hrest, Function.update_self]
  omega

omit [DecidableEq ι] in
/-- Waking the sleepers moves no thread in or out of phases that do not look at sleep. -/
theorem tally_wake {q : Phase → Bool} (h : ∀ p : Phase, q p.wake = q p) (f : ι → Phase) :
    tally q (fun t => (f t).wake) = tally q f := by
  simp only [tally, h]

omit [DecidableEq ι] in
theorem tally_pos {q : Phase → Bool} {f : ι → Phase} :
    0 < tally q f ↔ ∃ t, q (f t) = true := by
  rw [tally, Finset.card_pos]
  constructor
  · rintro ⟨t, ht⟩
    exact ⟨t, (Finset.mem_filter.mp ht).2⟩
  · rintro ⟨t, ht⟩
    exact ⟨t, Finset.mem_filter.mpr ⟨Finset.mem_univ t, ht⟩⟩

/-! ## 3. What every reachable state satisfies -/

omit [DecidableEq ι] in
/-- The invariant of the lock. -/
structure Sane (s : RWLock ι) : Prop where
  readers : s.readers = tally Phase.reads s.phase
  waiting : s.waitingWriters = tally Phase.waitsToWrite s.phase
  writer : s.writer.toNat = tally Phase.writes s.phase
  exclusive : s.writer = true → s.readers = 0
  readAsleep : ∀ t, s.phase t = .readAsleep → s.writer = true ∨ 0 < s.waitingWriters
  writeAsleep : ∀ t, s.phase t = .writeAsleep → s.writer = true ∨ 0 < s.readers

theorem sane_init : Sane (init : RWLock ι) where
  readers := by simp [tally, init, Phase.reads]
  waiting := by simp [tally, init, Phase.waitsToWrite]
  writer := by simp [tally, init, Phase.writes]
  exclusive h := by cases h
  readAsleep t h := by cases h
  writeAsleep t h := by cases h

section Steps
variable {s : RWLock ι} {t : ι}

omit [Fintype ι] in
theorem phase_goto (p : Phase) (u : ι) :
    (s.goto t p).phase u = if u = t then p else s.phase u := Function.update_apply _ _ _ _

/-- A thread that was not counted goes to phase `p`. -/
theorem tally_goto {q : Phase → Bool} (h : q (s.phase t) = false) (p : Phase) :
    tally q (s.goto t p).phase = tally q s.phase + (q p).toNat := by
  have hup := tally_update q s.phase t p
  rw [h] at hup
  exact hup

/-- A thread that was counted goes to phase `p`. -/
theorem tally_goto_counted {q : Phase → Bool} (h : q (s.phase t) = true) (p : Phase) :
    tally q (s.goto t p).phase + 1 = tally q s.phase + (q p).toNat := by
  have hup := tally_update q s.phase t p
  rw [h] at hup
  exact hup

/-- A thread that holds nothing and is not a waiting writer. -/
theorem Phase.uncounted {p : Phase} (h : p = .idle ∨ p = .readAwake) :
    p.reads = false ∧ p.waitsToWrite = false ∧ p.writes = false := by
  rcases h with rfl | rfl <;> exact ⟨rfl, rfl, rfl⟩

/-- The loop of `acquire_read`. -/
theorem Sane.readLoop (h : Sane s) (ht : s.phase t = .idle ∨ s.phase t = .readAwake) :
    Sane (s.readLoop t) := by
  obtain ⟨hr, hw, hx⟩ := Phase.uncounted ht
  unfold RWLock.readLoop
  split
  · rename_i hb
    have hb' : s.writer = true ∨ 0 < s.waitingWriters := by simpa using hb
    refine ⟨?_, ?_, ?_, h.exclusive, fun u _ => hb', fun u hu => ?_⟩
    · rw [tally_goto hr]
      exact h.readers
    · rw [tally_goto hw]
      exact h.waiting
    · rw [tally_goto hx]
      exact h.writer
    · rw [phase_goto] at hu
      split at hu
      · cases hu
      · exact h.writeAsleep u hu
  · rename_i hb
    have hb' : s.writer = false ∧ s.waitingWriters = 0 := by simpa using hb
    refine ⟨?_, ?_, ?_, fun hwr => ?_, fun u hu => ?_, fun u hu => ?_⟩
    · exact (congrArg (· + 1) h.readers).trans (tally_goto hr .reading).symm
    · exact h.waiting.trans (tally_goto hw .reading).symm
    · exact h.writer.trans (tally_goto hx .reading).symm
    · exact absurd (hb'.1.symm.trans hwr) (by decide)
    · change (s.goto t .reading).phase u = _ at hu
      rw [phase_goto] at hu
      split at hu
      · cases hu
      · exact h.readAsleep u hu
    · exact .inr (Nat.succ_pos _)

/-- The loop of `acquire_write`, for a thread that is counted as a waiting writer. -/
theorem Sane.writeLoop (h : Sane s) (ht : s.phase t = .writeAwake) : Sane (s.writeLoop t) := by
  have hr : (s.phase t).reads = false := by rw [ht]; rfl
  have hx : (s.phase t).writes = false := by rw [ht]; rfl
  have hw : (s.phase t).waitsToWrite = true := by rw [ht]; rfl
  unfold RWLock.writeLoop
  split
  · rename_i hb
    have hb' : s.writer = true ∨ 0 < s.readers := by simpa using hb
    refine ⟨?_, ?_, ?_, h.exclusive, fun u hu => ?_, fun u _ => hb'⟩
    · rw [tally_goto hr]
      exact h.readers
    · have := tally_goto_counted hw .writeAsleep
      exact h.waiting.trans (Nat.add_right_cancel this).symm
    · rw [tally_goto hx]
      exact h.writer
    · rw [phase_goto] at hu
      split at hu
      · cases hu
      · exact h.readAsleep u hu
  · rename_i hb
    have hb' : s.writer = false ∧ s.readers = 0 := by simpa using hb
    have hcount := tally_goto_counted hw .writing
    refine ⟨?_, ?_, ?_, fun _ => hb'.2, fun u _ => .inl rfl, fun u _ => .inl rfl⟩
    · exact h.readers.trans (tally_goto hr .writing).symm
    · have hwait := h.waiting
      simp only [Phase.waitsToWrite, Bool.toNat_false, Nat.add_zero] at hcount
      change s.waitingWriters - 1 = tally Phase.waitsToWrite (s.goto t .writing).phase
      omega
    · have hone : tally Phase.writes s.phase = 0 := by
        rw [← h.writer, hb'.1]
        rfl
      have hnew := tally_goto hx .writing
      rw [hone] at hnew
      exact hnew.symm

/-- `acquire_write` raises the counter and goes through the loop. -/
theorem Sane.acquireWrite (h : Sane s) (ht : s.phase t = .idle) : Sane (s.acquireWrite t) := by
  have hr : (s.phase t).reads = false := by rw [ht]; rfl
  have hw : (s.phase t).waitsToWrite = false := by rw [ht]; rfl
  have hx : (s.phase t).writes = false := by rw [ht]; rfl
  -- the state in which the thread stands before the loop
  have hloop : Sane ({ s.goto t .writeAwake with waitingWriters := s.waitingWriters + 1 }) := by
    refine ⟨?_, ?_, ?_, h.exclusive, fun u _ => .inr (Nat.succ_pos _), fun u hu => ?_⟩
    · exact h.readers.trans (tally_goto hr .writeAwake).symm
    · exact (congrArg (· + 1) h.waiting).trans (tally_goto hw .writeAwake).symm
    · exact h.writer.trans (tally_goto hx .writeAwake).symm
    · change (s.goto t .writeAwake).phase u = _ at hu
      rw [phase_goto] at hu
      split at hu
      · cases hu
      · exact h.writeAsleep u hu
  have hphase : ({ s.goto t .writeAwake with
      waitingWriters := s.waitingWriters + 1 } : RWLock ι).phase t = .writeAwake := by
    change (s.goto t .writeAwake).phase t = _
    rw [phase_goto, if_pos rfl]
  have hsame := hloop.writeLoop hphase
  have heq : { s.goto t .writeAwake with
      waitingWriters := s.waitingWriters + 1 }.writeLoop t = s.acquireWrite t := by
    unfold RWLock.acquireWrite RWLock.writeLoop goto
    simp only [Function.update_idem]
  rwa [heq] at hsame

omit [DecidableEq ι] in
/-- `notify_all` leaves no thread asleep. -/
theorem Sane.notifyAll (h1 : s.readers = tally Phase.reads s.phase)
    (h2 : s.waitingWriters = tally Phase.waitsToWrite s.phase)
    (h3 : s.writer.toNat = tally Phase.writes s.phase) (h4 : s.writer = true → s.readers = 0) :
    Sane s.notifyAll := by
  refine ⟨?_, ?_, ?_, h4, fun u hu => ?_, fun u hu => ?_⟩
  · rw [RWLock.notifyAll, tally_wake fun p => by cases p <;> rfl]
    exact h1
  · rw [RWLock.notifyAll, tally_wake fun p => by cases p <;> rfl]
    exact h2
  · rw [RWLock.notifyAll, tally_wake fun p => by cases p <;> rfl]
    exact h3
  · change (s.phase u).wake = _ at hu
    cases hp : s.phase u <;> rw [hp] at hu <;> cases hu
  · change (s.phase u).wake = _ at hu
    cases hp : s.phase u <;> rw [hp] at hu <;> cases hu

theorem Sane.releaseRead (h : Sane s) (ht : s.phase t = .reading) : Sane (s.releaseRead t) := by
  have hr : (s.phase t).reads = true := by rw [ht]; rfl
  have hw : (s.phase t).waitsToWrite = false := by rw [ht]; rfl
  have hx : (s.phase t).writes = false := by rw [ht]; rfl
  have hread : s.readers - 1 = tally Phase.reads (s.goto t .idle).phase := by
    have hcount := tally_goto_counted hr .idle
    rw [← h.readers] at hcount
    simp only [Phase.reads, Bool.toNat_false, Nat.add_zero] at hcount
    exact Nat.sub_eq_of_eq_add hcount.symm
  have hwait := h.waiting.trans (tally_goto hw .idle).symm
  have hwrite := h.writer.trans (tally_goto hx .idle).symm
  have hex : s.writer = true → s.readers - 1 = 0 := fun hwr => by rw [h.exclusive hwr]
  unfold RWLock.releaseRead
  dsimp only
  split
  · exact .notifyAll hread hwait hwrite hex
  · rename_i hpos
    refine ⟨hread, hwait, hwrite, hex, fun u hu => ?_, fun u hu => .inr (Nat.pos_of_ne_zero hpos)⟩
    change (s.goto t .idle).phase u = _ at hu
    rw [phase_goto] at hu
    split at hu
    · cases hu
    · exact h.readAsleep u hu

theorem Sane.releaseWrite (h : Sane s) (ht : s.phase t = .writing) : Sane (s.releaseWrite t) := by
  have hr : (s.phase t).reads = false := by rw [ht]; rfl
  have hw : (s.phase t).waitsToWrite = false := by rw [ht]; rfl
  have hx : (s.phase t).writes = true := by rw [ht]; rfl
  refine .notifyAll (h.readers.trans (tally_goto hr .idle).symm)
    (h.waiting.trans (tally_goto hw .idle).symm) ?_ nofun
  -- the one writer was this thread
  have hcount := tally_goto_counted hx .idle
  rw [← h.writer] at hcount
  have hle : s.writer.toNat ≤ 1 := Bool.toNat_le s.writer
  simp only [Phase.writes, Bool.toNat_false, Nat.add_zero] at hcount
  change 0 = tally Phase.writes (s.goto t .idle).phase
  omega

end Steps

/-- **A monitor step keeps the invariant.** -/
theorem Sane.step {s s' : RWLock ι} (h : Sane s) (hs : Step s s') : Sane s' := by
  cases hs with
  | acquireRead ht => exact h.readLoop (.inl ht)
  | resumeRead ht => exact h.readLoop (.inr ht)
  | releaseRead ht => exact h.releaseRead ht
  | acquireWrite ht => exact h.acquireWrite ht
  | resumeWrite ht => exact h.writeLoop ht
  | releaseWrite ht => exact h.releaseWrite ht

theorem sane_of_reachable {s : RWLock ι} (h : Reachable s) : Sane s := by
  induction h with
  | init => exact sane_init
  | step _ hs ih => exact ih.step hs

/-! ## 4. The lock is correct -/

omit [DecidableEq ι] in
/-- At most one thread of a phase that is counted at most once. -/
theorem eq_of_tally_le_one {q : Phase → Bool} {f : ι → Phase} (h : tally q f ≤ 1) {t u : ι}
    (ht : q (f t) = true) (hu : q (f u) = true) : t = u :=
  Finset.card_le_one.mp h t (Finset.mem_filter.mpr ⟨Finset.mem_univ t, ht⟩) u
    (Finset.mem_filter.mpr ⟨Finset.mem_univ u, hu⟩)

omit [Fintype ι] in
/-- A thread starts to read only when no writer is counted as waiting. -/
theorem waitingWriters_of_reads {s s' : RWLock ι} (hs : Step s s') {t : ι}
    (h : s.phase t ≠ .reading) (h' : s'.phase t = .reading) : s.waitingWriters = 0 := by
  have hloop : ∀ u, (s.readLoop u).phase t = .reading → s.waitingWriters = 0 := by
    intro u hu
    unfold readLoop at hu
    split at hu
    · rw [phase_goto] at hu
      split at hu
      · cases hu
      · exact absurd hu h
    · rename_i hb
      simp only [Bool.or_eq_true, decide_eq_true_eq, not_or, Nat.not_lt, Nat.le_zero] at hb
      exact hb.2
  have hwrite : ∀ (r : RWLock ι) u, r.phase = s.phase → (r.writeLoop u).phase t ≠ .reading := by
    intro r u hr hu
    unfold writeLoop at hu
    split at hu
    · rw [phase_goto, hr] at hu
      split at hu
      · cases hu
      · exact h hu
    · change (r.goto u .writing).phase t = _ at hu
      rw [phase_goto, hr] at hu
      split at hu
      · cases hu
      · exact h hu
  have hidle : ∀ u, (s.goto u .idle).phase t ≠ .reading := by
    intro u hu
    rw [phase_goto] at hu
    split at hu
    · cases hu
    · exact h hu
  cases hs with
  | acquireRead _ => exact hloop _ h'
  | resumeRead _ => exact hloop _ h'
  | releaseRead _ =>
    unfold releaseRead at h'
    dsimp only at h'
    split at h'
    · exact absurd (Phase.wake_reading h') (hidle _)
    · exact absurd h' (hidle _)
  | acquireWrite _ => exact absurd h' (hwrite _ _ rfl)
  | resumeWrite _ => exact absurd h' (hwrite _ _ rfl)
  | releaseWrite _ => exact absurd (Phase.wake_reading h') (hidle _)

/-- No thread holds the lock. -/
def Free (s : RWLock ι) : Prop := ∀ t, s.phase t ≠ .reading ∧ s.phase t ≠ .writing

/-- Threads wait inside `acquire_read` or `acquire_write`, and none of them will wake up. -/
def Stuck (s : RWLock ι) : Prop :=
  (∃ t, (s.phase t).waits = true) ∧ ∀ t, (s.phase t).waits = true → (s.phase t).asleep = true

/-- **`_RWLock` is a writer-preferring read-write lock.**  In every state that any interleaving of
any number of threads reaches: at most one thread writes, and none reads meanwhile; the counters
are the numbers of readers and of waiting writers; no thread starts to read while a writer waits;
and a free lock with threads that wait has one that is about to go through its loop. -/
theorem rwLock_correct {s : RWLock ι} (h : Reachable s) :
    (∀ t u, s.phase t = .writing → s.phase u = .writing → t = u) ∧
    (∀ t u, s.phase t = .writing → s.phase u ≠ .reading) ∧
    s.readers = (Finset.univ.filter fun t => s.phase t = .reading).card ∧
    s.waitingWriters = (Finset.univ.filter fun t => (s.phase t).waitsToWrite = true).card ∧
    (∀ s', Step s s' → ∀ t, s.phase t ≠ .reading → s'.phase t = .reading →
      ∀ u, (s.phase u).waitsToWrite = false) ∧
    ¬ (Free s ∧ Stuck s) := by
  have hs := sane_of_reachable h
  have hwrites : ∀ t, s.phase t = .writing → s.writer = true := by
    intro t ht
    have hpos : 0 < tally Phase.writes s.phase := tally_pos.mpr ⟨t, Phase.writes_iff.mpr ht⟩
    rw [← hs.writer] at hpos
    cases hw : s.writer with
    | true => rfl
    | false =>
      rw [hw] at hpos
      cases hpos
  have hreads : ∀ t, s.phase t = .reading → 0 < s.readers := by
    intro t ht
    rw [hs.readers]
    exact tally_pos.mpr ⟨t, Phase.reads_iff.mpr ht⟩
  refine ⟨fun t u ht hu => ?_, fun t u ht hu => ?_, ?_, hs.waiting, fun s' hstep t h1 h2 u => ?_,
    fun hstuck => ?_⟩
  · have hle : tally Phase.writes s.phase ≤ 1 := hs.writer ▸ Bool.toNat_le s.writer
    exact eq_of_tally_le_one hle (Phase.writes_iff.mpr ht) (Phase.writes_iff.mpr hu)
  · have hpos := hreads u hu
    rw [hs.exclusive (hwrites t ht)] at hpos
    exact Nat.lt_irrefl _ hpos
  · rw [hs.readers, tally]
    exact congrArg _ (Finset.filter_congr fun t _ => Phase.reads_iff)
  · have hzero := waitingWriters_of_reads hstep h1 h2
    rw [hs.waiting] at hzero
    rw [Bool.eq_false_iff]
    exact fun hu => absurd (tally_pos.mpr ⟨u, hu⟩) (by omega)
  · obtain ⟨hfree, ⟨t, ht⟩, hall⟩ := hstuck
    -- nobody holds the lock, so its fields say so
    have hnowriter : s.writer = false := by
      rw [Bool.eq_false_iff]
      intro hw
      have hcount := hs.writer
      rw [hw] at hcount
      obtain ⟨u, hu⟩ := tally_pos.mp (lt_of_lt_of_eq Nat.one_pos hcount)
      exact (hfree u).2 (Phase.writes_iff.mp hu)
    have hnoreader : s.readers = 0 := by
      by_contra hr
      rw [hs.readers] at hr
      obtain ⟨u, hu⟩ := tally_pos.mp (Nat.pos_of_ne_zero hr)
      exact (hfree u).1 (Phase.reads_iff.mp hu)
    -- so no writer sleeps
    have hwriters : ∀ u, (s.phase u).waitsToWrite = false := by
      intro u
      rw [Bool.eq_false_iff]
      intro hu
      rcases Phase.asleep_iff.mp (hall u (Phase.waits_of_waitsToWrite hu)) with hph | hph
      · rcases hs.writeAsleep u hph with hc | hc
        · rw [hnowriter] at hc
          cases hc
        · omega
      · rw [hph] at hu
        cases hu
    -- and a sleeping reader needs a writer that waits
    have hph : s.phase t = .readAsleep := by
      refine (Phase.asleep_iff.mp (hall t ht)).resolve_left fun hp => ?_
      have hno := hwriters t
      rw [hp] at hno
      cases hno
    rcases hs.readAsleep t hph with hc | hc
    · rw [hnowriter] at hc
      cases hc
    · rw [hs.waiting] at hc
      obtain ⟨u, hu⟩ := tally_pos.mp hc
      rw [hwriters u] at hu
      cases hu

/-- A reader, a writer that waits for it and a reader held back by the writer. -/
theorem rwLock_correct_contended :
    ∃ s : RWLock (Fin 3), Reachable s ∧ s.phase 0 = .reading ∧ s.phase 1 = .writeAsleep ∧
      s.phase 2 = .readAsleep ∧ s.readers = (Finset.univ.filter fun t => s.phase t = .reading).card ∧
      ¬ (Free s ∧ Stuck s) := by
  have h : Reachable (((init : RWLock (Fin 3)).acquireRead 0).acquireWrite 1 |>.acquireRead 2) :=
    ((Reachable.init.step (.acquireRead rfl)).step (.acquireWrite rfl)).step (.acquireRead rfl)
  obtain ⟨-, -, hr, -, -, hfree⟩ := rwLock_correct h
  exact ⟨_, h, rfl, rfl, rfl, hr, hfree⟩

end RWLock

end RyuDB
