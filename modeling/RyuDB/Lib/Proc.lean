/-
# Procedures with state and exceptions

`Proc ε σ α` is a procedure that reads and writes a state `σ` and either returns an `α` or
raises an `ε`.  The state survives a raise: what was written before it stays written, as in a
language whose exceptions do not roll anything back.  That is why the state is paired with the
outcome and not only with the returned value.

Two rules carry the proofs.  `bind_ok` and `bind_error` take a finished run of a sequence apart
into the runs of its parts.  `Keeps` is the frame rule: a procedure that moves the state only
along a reflexive and transitive relation `R`, whatever it returns or raises; it is closed under
sequencing, branching and loops, so a long procedure is framed by framing its parts.
-/
import Mathlib.Logic.Basic

universe u

/-- A procedure over the state `σ` that returns an `α` or raises an `ε`. -/
def Proc (ε σ α : Type) : Type := σ → Except ε α × σ

namespace Proc

variable {ε σ α β : Type}

/-! ## 1. The operations -/

/-- Return a value and leave the state alone. -/
def ret (a : α) : Proc ε σ α := fun s => (.ok a, s)

/-- Run `x`, and `f` on its result if it did not raise. -/
def seq (x : Proc ε σ α) (f : α → Proc ε σ β) : Proc ε σ β := fun s =>
  match x s with
  | (.ok a, s') => f a s'
  | (.error e, s') => (.error e, s')

instance : Monad (Proc ε σ) where
  pure := ret
  bind := seq

/-- Raise. -/
def raise (e : ε) : Proc ε σ α := fun s => (.error e, s)

/-- The current state. -/
def get : Proc ε σ σ := fun s => (.ok s, s)

/-- Change the state. -/
def modify (f : σ → σ) : Proc ε σ Unit := fun s => (.ok (), f s)

/-- A computation that may raise but does not touch the state. -/
def lift (x : Except ε α) : Proc ε σ α := fun s => (x, s)

/-- `try: x except BaseException: <h>; raise`. -/
def onError (x : Proc ε σ α) (h : σ → σ) : Proc ε σ α := fun s =>
  match x s with
  | (.ok a, s') => (.ok a, s')
  | (.error e, s') => (.error e, h s')

/-- `try: x except Exception as e: ...`: what `x` returned or raised, as a value. -/
def attempt (x : Proc ε σ α) : Proc ε σ (Except ε α) := fun s => (.ok (x s).1, (x s).2)

/-- Run `f` on the elements of a list from left to right, stopping at the first raise. -/
def each (f : α → Proc ε σ Unit) : List α → Proc ε σ Unit
  | [] => ret ()
  | a :: l => seq (f a) fun _ => each f l

/-- Run `f` on the elements of a list from left to right and collect the results. -/
def collect (f : α → Proc ε σ β) : List α → Proc ε σ (List β)
  | [] => ret []
  | a :: l => seq (f a) fun b => seq (collect f l) fun bs => ret (b :: bs)

/-! ## 2. Taking a run apart -/

@[simp] theorem pure_apply (a : α) (s : σ) : (pure a : Proc ε σ α) s = (.ok a, s) := rfl
@[simp] theorem ret_apply (a : α) (s : σ) : (ret a : Proc ε σ α) s = (.ok a, s) := rfl
@[simp] theorem raise_apply (e : ε) (s : σ) : (raise e : Proc ε σ α) s = (.error e, s) := rfl
@[simp] theorem get_apply (s : σ) : (get : Proc ε σ σ) s = (.ok s, s) := rfl
@[simp] theorem modify_apply (f : σ → σ) (s : σ) :
    (modify f : Proc ε σ Unit) s = (.ok (), f s) := rfl
@[simp] theorem lift_apply (x : Except ε α) (s : σ) : (lift x : Proc ε σ α) s = (x, s) := rfl

theorem bind_apply (x : Proc ε σ α) (f : α → Proc ε σ β) (s : σ) :
    (x >>= f) s = seq x f s := rfl

/-- A sequence returned exactly when both its parts did. -/
theorem bind_ok {x : Proc ε σ α} {f : α → Proc ε σ β} {s s' : σ} {b : β} :
    (x >>= f) s = (.ok b, s') ↔ ∃ a s₁, x s = (.ok a, s₁) ∧ f a s₁ = (.ok b, s') := by
  rw [bind_apply, seq]
  cases hx : x s with
  | mk r s₁ =>
    cases r with
    | error e => simp
    | ok a =>
      constructor
      · intro h
        exact ⟨a, s₁, rfl, h⟩
      · rintro ⟨a', s', heq, h⟩
        cases heq
        exact h

/-- A sequence raised exactly when one of its parts did. -/
theorem bind_error {x : Proc ε σ α} {f : α → Proc ε σ β} {s s' : σ} {e : ε} :
    (x >>= f) s = (.error e, s') ↔
      x s = (.error e, s') ∨ ∃ a s₁, x s = (.ok a, s₁) ∧ f a s₁ = (.error e, s') := by
  rw [bind_apply, seq]
  cases hx : x s with
  | mk r s₁ =>
    cases r with
    | error e' => simp
    | ok a =>
      constructor
      · intro h
        exact Or.inr ⟨a, s₁, rfl, h⟩
      · rintro (heq | ⟨a', s', heq, h⟩)
        · cases heq
        · cases heq
          exact h

/-- The continuation runs in the state the first part left. -/
theorem bind_of_ok {x : Proc ε σ α} {f : α → Proc ε σ β} {s s₁ : σ} {a : α}
    (h : x s = (.ok a, s₁)) : (x >>= f) s = f a s₁ := by
  rw [bind_apply, seq, h]

theorem bind_of_error {x : Proc ε σ α} {f : α → Proc ε σ β} {s s₁ : σ} {e : ε}
    (h : x s = (.error e, s₁)) : (x >>= f) s = (.error e, s₁) := by
  rw [bind_apply, seq, h]

@[simp] theorem lift_bind_ok (a : α) (f : α → Proc ε σ β) (s : σ) :
    ((lift (.ok a) : Proc ε σ α) >>= f) s = f a s := rfl

@[simp] theorem lift_bind_error (e : ε) (f : α → Proc ε σ β) (s : σ) :
    ((lift (.error e) : Proc ε σ α) >>= f) s = (.error e, s) := rfl

@[simp] theorem get_bind (f : σ → Proc ε σ β) (s : σ) :
    ((get : Proc ε σ σ) >>= f) s = f s s := rfl

@[simp] theorem modify_bind (g : σ → σ) (f : Unit → Proc ε σ β) (s : σ) :
    ((modify g : Proc ε σ Unit) >>= f) s = f () (g s) := rfl

/-- A guarded procedure that raised ran its handler. -/
theorem onError_error {x : Proc ε σ α} {h : σ → σ} {s s' : σ} {e : ε}
    (hx : onError x h s = (.error e, s')) : ∃ s₁, x s = (.error e, s₁) ∧ s' = h s₁ := by
  unfold onError at hx
  rcases hr : x s with ⟨r, s₁⟩
  rw [hr] at hx
  cases r with
  | ok a => cases hx
  | error e' =>
    cases hx
    exact ⟨s₁, rfl, rfl⟩

/-- A guarded procedure that returned did not run its handler. -/
theorem onError_ok {x : Proc ε σ α} {h : σ → σ} {s s' : σ} {a : α}
    (hx : onError x h s = (.ok a, s')) : x s = (.ok a, s') := by
  unfold onError at hx
  rcases hr : x s with ⟨r, s₁⟩
  rw [hr] at hx
  cases r with
  | ok b => exact hx
  | error e => cases hx

/-- A loop that raised finished its turns up to one, and that one raised. -/
theorem collect_error {f : α → Proc ε σ β} {e : ε} {s' : σ} : ∀ {l : List α} {s : σ},
    collect f l s = (.error e, s') → ∃ done a rest bs s₁, l = done ++ a :: rest ∧
      collect f done s = (.ok bs, s₁) ∧ f a s₁ = (.error e, s')
  | [], _, h => by cases h
  | a :: l, s, h => by
    rcases bind_error.mp h with h | ⟨b, s₁, hb, h⟩
    · exact ⟨[], a, l, [], s, rfl, rfl, h⟩
    · rcases bind_error.mp h with h | ⟨bs, s₂, -, h⟩
      · obtain ⟨done, a', rest, bs, s₂, hl, hdone, ha⟩ := collect_error h
        refine ⟨a :: done, a', rest, b :: bs, s₂, by rw [hl, List.cons_append], ?_, ha⟩
        exact bind_ok.mpr ⟨b, s₁, hb, bind_ok.mpr ⟨bs, s₂, hdone, rfl⟩⟩
      · cases h

/-! ## 3. The frame rule -/

/-- `x` moves the state only along `R`, whether it returns or raises. -/
def Keeps (R : σ → σ → Prop) (x : Proc ε σ α) : Prop := ∀ s, R s (x s).2

section Keeps

variable {R : σ → σ → Prop}

theorem Keeps.apply {x : Proc ε σ α} (h : Keeps R x) {s s' : σ} {r : Except ε α}
    (hx : x s = (r, s')) : R s s' := by
  have hs := h s
  rw [hx] at hs
  exact hs

theorem Keeps.pure (hr : ∀ s, R s s) (a : α) : Keeps R (pure a : Proc ε σ α) := hr

theorem Keeps.raise (hr : ∀ s, R s s) (e : ε) : Keeps R (raise e : Proc ε σ α) := hr

theorem Keeps.get (hr : ∀ s, R s s) : Keeps R (get : Proc ε σ σ) := hr

theorem Keeps.lift (hr : ∀ s, R s s) (x : Except ε α) : Keeps R (lift x : Proc ε σ α) := hr

/-- The frame of a sequence is the frame of its parts. -/
theorem Keeps.bind (ht : ∀ a b c, R a b → R b c → R a c) {x : Proc ε σ α}
    {f : α → Proc ε σ β} (hx : Keeps R x) (hf : ∀ a, Keeps R (f a)) : Keeps R (x >>= f) := by
  intro s
  rw [bind_apply, seq]
  cases h : x s with
  | mk r s₁ =>
    have h₁ : R s s₁ := hx.apply h
    cases r with
    | ok a => exact ht _ _ _ h₁ (hf a s₁)
    | error e => exact h₁

/-- A pure computation in front: the rest runs only on what it returned. -/
theorem Keeps.lift_bind (hr : ∀ s, R s s) {x : Except ε α} {f : α → Proc ε σ β}
    (hf : ∀ a, x = .ok a → Keeps R (f a)) : Keeps R ((Proc.lift x : Proc ε σ α) >>= f) := by
  cases x with
  | error e => exact hr
  | ok a => exact hf a rfl

/-- The frame of a guarded procedure, whose handler is in the frame too. -/
theorem Keeps.onError (ht : ∀ a b c, R a b → R b c → R a c) {x : Proc ε σ α} {h : σ → σ}
    (hx : Keeps R x) (hh : ∀ s, R s (h s)) : Keeps R (onError x h) := by
  intro s
  unfold Proc.onError
  cases hrun : x s with
  | mk r s₁ =>
    have h₁ : R s s₁ := hx.apply hrun
    cases r with
    | ok a => exact h₁
    | error e => exact ht _ _ _ h₁ (hh s₁)

theorem Keeps.attempt {x : Proc ε σ α} (hx : Keeps R x) : Keeps R (attempt x) := hx

/-- The frame of a loop is the frame of its body. -/
theorem Keeps.each (hr : ∀ s, R s s) (ht : ∀ a b c, R a b → R b c → R a c)
    {f : α → Proc ε σ Unit} (hf : ∀ a, Keeps R (f a)) : ∀ l : List α, Keeps R (each f l)
  | [] => hr
  | a :: l => Keeps.bind ht (hf a) fun _ => Keeps.each hr ht hf l

theorem Keeps.collect (hr : ∀ s, R s s) (ht : ∀ a b c, R a b → R b c → R a c)
    {f : α → Proc ε σ β} (hf : ∀ a, Keeps R (f a)) : ∀ l : List α, Keeps R (collect f l)
  | [] => hr
  | a :: l => Keeps.bind ht (hf a) fun b =>
      Keeps.bind ht (Keeps.collect hr ht hf l) fun bs => Keeps.pure hr (b :: bs)

end Keeps

end Proc
