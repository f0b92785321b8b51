/-
# Runs of a deterministic system

A system is a step function; a run is a list of actions.  `Along ok s l` says that every action of
the run `l` from `s` is allowed in the state in which it is taken.  The one rule about runs is
`Along.invariant`: what allowed steps preserve holds at the end of every run of allowed steps.  A
run's states are the ends of its prefixes, and a prefix of an allowed run is allowed
(`Along.append`), so the rule speaks about every state reached.  `Along.imp` turns one
run of allowed steps into a run of steps allowed in another sense.  `exists_last` finds the last
state at which a counter stood at a value.

A channel that carries heads, bodies without a label, and other messages is such a run for its
receiver, who remembers one head: what it holds after a message is a function `slot` of what it
held before.  `Paired P` says of the messages under way that every body will arrive while the
receiver holds a head that `P` relates to it.  A sender that puts a body right behind its head keeps
this, whatever else is on the channel.
-/
import Mathlib.Logic.Basic
import Mathlib.Data.List.Basic
import Mathlib.Data.List.Induction

namespace Run

variable {σ α : Type} {step : σ → α → σ} {ok : σ → α → Prop}

/-- The state at the end of a run. -/
def run (step : σ → α → σ) (s : σ) (l : List α) : σ := l.foldl step s

/-- Every action of the run is allowed where it is taken. -/
def Along (step : σ → α → σ) (ok : σ → α → Prop) : σ → List α → Prop
  | _, [] => True
  | s, a :: l => ok s a ∧ Along step ok (step s a) l

instance Along.decidable [∀ s, DecidablePred (ok s)] :
    ∀ (s : σ) (l : List α), Decidable (Along step ok s l)
  | _, [] => .isTrue trivial
  | s, a :: l =>
    have : Decidable (Along step ok (step s a) l) := Along.decidable _ l
    inferInstanceAs (Decidable (ok s a ∧ Along step ok (step s a) l))

@[simp] theorem run_nil (s : σ) : run step s [] = s := rfl

@[simp] theorem run_cons (s : σ) (a : α) (l : List α) :
    run step s (a :: l) = run step (step s a) l := rfl

theorem run_append (s : σ) (l l' : List α) :
    run step s (l ++ l') = run step (run step s l) l' := List.foldl_append

theorem Along.append {s : σ} {l l' : List α} :
    Along step ok s (l ++ l') ↔ Along step ok s l ∧ Along step ok (run step s l) l' := by
  induction l generalizing s with
  | nil => simp [Along]
  | cons a l ih => simp [Along, ih, and_assoc]

theorem Along.last {s : σ} {l : List α} {a : α} (h : Along step ok s (l ++ [a])) :
    ok (run step s l) a := (Along.append.mp h).2.1

theorem Along.mono {ok' : σ → α → Prop} (h : ∀ s a, ok s a → ok' s a) {s : σ} {l : List α}
    (hl : Along step ok s l) : Along step ok' s l := by
  induction l generalizing s with
  | nil => trivial
  | cons a l ih => exact ⟨h s a hl.1, ih hl.2⟩

theorem Along.of_forall {p : α → Prop} {s : σ} {l : List α} (h : ∀ a ∈ l, p a) :
    Along step (fun _ a => p a) s l := by
  induction l generalizing s with
  | nil => trivial
  | cons a l ih =>
    exact ⟨h a List.mem_cons_self, ih fun b hb => h b (List.mem_cons_of_mem _ hb)⟩

theorem Along.and {ok' : σ → α → Prop} {s : σ} {l : List α} (h : Along step ok s l)
    (h' : Along step ok' s l) : Along step (fun s a => ok s a ∧ ok' s a) s l := by
  induction l generalizing s with
  | nil => trivial
  | cons a l ih => exact ⟨⟨h.1, h'.1⟩, ih h.2 h'.2⟩

/-- **The invariant rule.** -/
theorem Along.invariant {P : σ → Prop} (h : ∀ s a, P s → ok s a → P (step s a)) {s : σ}
    (hs : P s) {l : List α} (hl : Along step ok s l) : P (run step s l) := by
  induction l generalizing s with
  | nil => exact hs
  | cons a l ih => exact ih (h s a hs hl.1) hl.2

/-- What allowed steps preserve and what it implies about them, along a whole run. -/
theorem Along.imp {P : σ → Prop} {ok' : σ → α → Prop}
    (h : ∀ s a, P s → ok s a → ok' s a ∧ P (step s a)) {s : σ} (hs : P s) {l : List α}
    (hl : Along step ok s l) : Along step ok' s l := by
  induction l generalizing s with
  | nil => trivial
  | cons a l ih =>
    obtain ⟨ha, hs'⟩ := h s a hs hl.1
    exact ⟨ha, ih hs' hl.2⟩

/-- **A counter that climbs by at most one passes every value.**  Between a start below `k` and an end
not below `k` there is a last state at `k`, and above it from there on. -/
theorem exists_last {f : σ → Int} {k : Int} {s : σ} {l : List α} (h0 : f s ≤ k)
    (hend : k ≤ f (run step s l)) (hl : Along step (fun s a => f (step s a) ≤ f s + 1) s l) :
    ∃ l₁ l₂, l = l₁ ++ l₂ ∧ f (run step s l₁) = k ∧
      ∀ l₃, l₃ ≠ [] → l₃ <+: l₂ → k < f (run step s (l₁ ++ l₃)) := by
  induction l using List.reverseRecOn with
  | nil =>
    refine ⟨[], [], rfl, Int.le_antisymm h0 hend, fun l₃ hne hpre => ?_⟩
    exact absurd (List.prefix_nil.mp hpre) hne
  | append_singleton l a ih =>
    obtain ⟨hl, ha, -⟩ := Along.append.mp hl
    by_cases hk : f (run step s (l ++ [a])) = k
    · refine ⟨l ++ [a], [], (List.append_nil _).symm, hk, fun l₃ hne hpre => ?_⟩
      exact absurd (List.prefix_nil.mp hpre) hne
    · -- the last step leads above `k`, so the state before it was not below
      rw [run_append, run_cons, run_nil] at hend hk
      obtain ⟨l₁, l₂, rfl, hl₁, habove⟩ := ih (by omega) hl
      refine ⟨l₁, l₂ ++ [a], by rw [List.append_assoc], hl₁, fun l₃ hne hpre => ?_⟩
      rcases List.prefix_concat_iff.mp hpre with rfl | hpre
      · rw [← List.append_assoc, run_append, run_cons, run_nil]
        omega
      · exact habove l₃ hne hpre

end Run

/-! ## Bodies that follow their heads on a channel -/

namespace Pairing

variable {ι μ β : Type*} (slot : Option μ → ι → Option μ) (body : ι → Option β)

/-- What the receiver holds after `l`. -/
def held (s : Option μ) (l : List ι) : Option μ := l.foldl slot s

theorem held_snoc (s : Option μ) (l : List ι) (i : ι) :
    held slot s (l ++ [i]) = slot (held slot s l) i := by
  rw [held, List.foldl_append]
  rfl

/-- Every body of `l` arrives while the receiver holds a head that `P` relates to it. -/
def Paired (P : μ → β → Prop) : Option μ → List ι → Prop
  | _, [] => True
  | s, i :: l => (∀ b, body i = some b → ∃ m, s = some m ∧ P m b) ∧ Paired P (slot s i) l

variable {slot body} {P : μ → β → Prop}

theorem Paired.mono {Q : μ → β → Prop} (h : ∀ m b, P m b → Q m b) : ∀ {s : Option μ} {l : List ι},
    Paired slot body P s l → Paired slot body Q s l
  | _, [], _ => trivial
  | _, _ :: _, hp =>
    ⟨fun b hb => (hp.1 b hb).imp fun m hm => ⟨hm.1, h m b hm.2⟩, hp.2.mono h⟩

/-- A message behind `l` meets what the receiver holds after `l`. -/
theorem Paired.snoc {i : ι} : ∀ {s : Option μ} {l : List ι}, Paired slot body P s l →
    (∀ b, body i = some b → ∃ m, held slot s l = some m ∧ P m b) →
    Paired slot body P s (l ++ [i])
  | _, [], _, h => ⟨h, trivial⟩
  | _, _ :: _, hp, h => ⟨hp.1, hp.2.snoc h⟩

/-- Anything but a body may be sent at any time. -/
theorem Paired.snoc_other {s : Option μ} {l : List ι} {i : ι} (hp : Paired slot body P s l)
    (hi : body i = none) : Paired slot body P s (l ++ [i]) :=
  hp.snoc fun b hb => by
    rw [hi] at hb
    cases hb

end Pairing
