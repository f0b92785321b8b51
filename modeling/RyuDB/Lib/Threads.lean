/-
# Threads over a shared memory

Threads run one program, each at a place of its own, and take turns in any order: a schedule is a list
of threads, and a step of a thread reads and writes the shared memory and moves the thread on.  A
thread that has finished, or that waits, has no step, and a turn given to it is lost.

`run_invariant` is the rule for what holds at the end of every schedule.  `length_le` is the rule for
progress: when every step lowers a measure, no schedule of steps is longer than the measure at its start,
whoever is given the turns.  `length_le_of_retry` is the measure for threads that read a value and try
again when another thread was faster: only a thread that gets on can make others try again.

The rows of a loop are dealt out in strides: of `n` threads, thread `t` has the rows `t`, `t + n`,
`t + 2 * n`, ...  `before_next` says which rows are behind a thread once it moves to its next row.
-/
import Mathlib.Algebra.BigOperators.Group.Finset.Piecewise
import Mathlib.Algebra.Order.BigOperators.Group.Finset
import Mathlib.Data.Fintype.Card
import RyuDB.Lib.Run

namespace Threads

/-- The shared memory, and where every thread is. -/
structure State (ι σ τ : Type) where
  mem : σ
  pc : ι → τ

variable {ι σ τ : Type} [DecidableEq ι]

/-- A turn of the thread `t`. -/
def act (step : ι → σ → τ → Option (σ × τ)) (c : State ι σ τ) (t : ι) : State ι σ τ :=
  match step t c.mem (c.pc t) with
  | none => c
  | some (m, p) => ⟨m, Function.update c.pc t p⟩

/-- The thread has a step. -/
def Ready (step : ι → σ → τ → Option (σ × τ)) (c : State ι σ τ) (t : ι) : Prop :=
  (step t c.mem (c.pc t)).isSome = true

/-- No thread has a step. -/
def Stopped (step : ι → σ → τ → Option (σ × τ)) (c : State ι σ τ) : Prop :=
  ∀ t, step t c.mem (c.pc t) = none

instance (step : ι → σ → τ → Option (σ × τ)) (c : State ι σ τ) : DecidablePred (Ready step c) :=
  fun t => inferInstanceAs (Decidable ((step t c.mem (c.pc t)).isSome = true))

instance [Fintype ι] (step : ι → σ → τ → Option (σ × τ)) (c : State ι σ τ) :
    Decidable (Stopped step c) :=
  inferInstanceAs (Decidable (∀ t, step t c.mem (c.pc t) = none))

variable {step : ι → σ → τ → Option (σ × τ)} {c : State ι σ τ} {t : ι}

theorem act_none (h : step t c.mem (c.pc t) = none) : act step c t = c := by
  rw [act, h]

theorem act_some {m : σ} {p : τ} (h : step t c.mem (c.pc t) = some (m, p)) :
    act step c t = ⟨m, Function.update c.pc t p⟩ := by
  rw [act, h]

/-- **What every step keeps, every schedule keeps.** -/
theorem run_invariant {P : State ι σ τ → Prop} (h : ∀ c t m p, P c →
    step t c.mem (c.pc t) = some (m, p) → P ⟨m, Function.update c.pc t p⟩) (hc : P c) (l : List ι) :
    P (Run.run (act step) c l) := by
  have hl : Run.Along (act step) (fun _ _ => True) c l :=
    Run.Along.of_forall (p := fun _ => True) fun _ _ => trivial
  refine Run.Along.invariant (fun c t hc _ => ?_) hc hl
  cases hs : step t c.mem (c.pc t) with
  | none =>
    rw [act_none hs]
    exact hc
  | some q =>
    rw [act_some hs]
    exact h c t q.1 q.2 hc hs

/-- **A measure that every step lowers bounds every schedule of steps.** -/
theorem length_le {P : State ι σ τ → Prop} {μ : State ι σ τ → Nat} (h : ∀ c t m p, P c →
    step t c.mem (c.pc t) = some (m, p) → P ⟨m, Function.update c.pc t p⟩ ∧
      μ ⟨m, Function.update c.pc t p⟩ < μ c) (hc : P c) {l : List ι}
    (hl : Run.Along (act step) (Ready step) c l) : l.length ≤ μ c := by
  induction l generalizing c with
  | nil => exact Nat.zero_le _
  | cons t l ih =>
    obtain ⟨⟨m, p⟩, hs⟩ := Option.isSome_iff_exists.mp hl.1
    obtain ⟨hP, hlt⟩ := h c t m p hc hs
    have hact := act_some hs
    have hrest := ih (c := act step c t) (by rw [hact]; exact hP) hl.2
    rw [hact] at hrest
    rw [List.length_cons]
    omega

/-- A sum over the threads after one of them has moved. -/
theorem sum_update [Fintype ι] (f : τ → Nat) (pc : ι → τ) (t : ι) (p : τ) :
    (∑ u, f (Function.update pc t p u)) + f (pc t) = (∑ u, f (pc u)) + f p := by
  have hmoved : ∀ u ∈ Finset.univ.erase t, f (Function.update pc t p u) = f (pc u) := fun u hu => by
    rw [Function.update_of_ne (Finset.ne_of_mem_erase hu)]
  rw [← Finset.add_sum_erase _ _ (Finset.mem_univ t), ← Finset.add_sum_erase _ _ (Finset.mem_univ t),
    Finset.sum_congr rfl hmoved, Function.update_self]
  omega

/-- The threads that read something which has changed since. -/
def stales [Fintype ι] (stale : ι → σ → τ → Bool) (c : State ι σ τ) : Finset ι :=
  Finset.univ.filter fun t => stale t c.mem (c.pc t) = true

/-- What is left to do, counted so often that every step outweighs the retries it causes. -/
def potential [Fintype ι] (left : τ → Nat) (stale : ι → σ → τ → Bool) (c : State ι σ τ) : Nat :=
  (Fintype.card ι + 1) * (∑ t, left (c.pc t)) + (stales stale c).card

/-- **Threads that retry.**  Every step gets its thread on, or changes nothing and reads again what has
changed since the thread read it. -/
theorem length_le_of_retry [Fintype ι] {P : State ι σ τ → Prop} {left : τ → Nat}
    {stale : ι → σ → τ → Bool} (h : ∀ c t m p, P c → step t c.mem (c.pc t) = some (m, p) →
      P ⟨m, Function.update c.pc t p⟩ ∧ (left p < left (c.pc t) ∨ m = c.mem ∧
        left p = left (c.pc t) ∧ stale t c.mem (c.pc t) = true ∧ stale t c.mem p = false))
    (hc : P c) {l : List ι} (hl : Run.Along (act step) (Ready step) c l) :
    l.length ≤ potential left stale c := by
  refine length_le (P := P) (μ := potential left stale) (fun c t m p hP hs => ?_) hc hl
  obtain ⟨hP', hmove⟩ := h c t m p hP hs
  refine ⟨hP', ?_⟩
  have hsum := sum_update left c.pc t p
  unfold potential
  rcases hmove with hlt | ⟨rfl, heq, hold, hnew⟩
  · have hcard : (stales stale ⟨m, Function.update c.pc t p⟩).card ≤ Fintype.card ι :=
      Finset.card_le_univ _
    have hmul : (Fintype.card ι + 1) * ((∑ u, left (Function.update c.pc t p u)) + 1) ≤
        (Fintype.card ι + 1) * ∑ u, left (c.pc u) := Nat.mul_le_mul_left _ (by omega)
    rw [Nat.mul_add, Nat.mul_one] at hmul
    simp only
    omega
  · have hstale : stales stale c = insert t (stales stale ⟨c.mem, Function.update c.pc t p⟩) := by
      ext u
      simp only [stales, Finset.mem_filter, Finset.mem_insert, Finset.mem_univ, true_and]
      by_cases hu : u = t
      · simp [hu, hold]
      · simp [hu]
    have hnot : t ∉ stales stale ⟨c.mem, Function.update c.pc t p⟩ := by
      simp [stales, hnew]
    rw [hstale, Finset.card_insert_of_notMem hnot]
    have hleft : (∑ u, left (Function.update c.pc t p u)) = ∑ u, left (c.pc u) := by omega
    rw [hleft]
    omega

/-! ## Rows in strides -/

/-- The rows behind a thread that goes from its row `i` to the next one. -/
theorem before_next {n i r : Nat} (hn : 0 < n) (h : r % n = i % n) :
    r < i + n ↔ r < i ∨ r = i := by
  constructor
  · intro hlt
    by_cases hle : r ≤ i
    · omega
    · -- between two rows of a thread there is none
      have hmod : (r - i) % n = 0 := Nat.sub_mod_eq_zero_of_mod_eq h
      rw [Nat.mod_eq_of_lt (by omega)] at hmod
      omega
  · rintro (hlt | rfl) <;> omega

end Threads
