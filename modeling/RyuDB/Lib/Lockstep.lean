/-
# Two procedures side by side

`Lockstep R E P x y`: started in states that `R` relates, `x` and `y` both return or both raise,
with results that `P` relates or exceptions that `E` relates, and end in states that `R` relates.
The relation is closed under everything a procedure is built from, so two long procedures are
compared by comparing their parts, and a part that is the same on both sides and does not look at
the difference of the states is compared by computation.
-/
import RyuDB.Lib.Proc

namespace Proc

variable {ε σ α β γ δ : Type} {E : ε → ε → Prop}

/-! ## 1. Outcomes -/

/-- Both return related values, or both raise related exceptions. -/
def Agree (E : ε → ε → Prop) (P : α → β → Prop) : Except ε α → Except ε β → Prop
  | .ok a, .ok b => P a b
  | .error e, .error e' => E e e'
  | _, _ => False

theorem Agree.refl (hE : ∀ e, E e e) {P : α → α → Prop} (hP : ∀ a, P a a) :
    ∀ x : Except ε α, Agree E P x x
  | .ok a => hP a
  | .error e => hE e

theorem Agree.of_eq (hE : ∀ e, E e e) {x y : Except ε α} (h : x = y) : Agree E Eq x y :=
  h ▸ Agree.refl hE (fun _ => rfl) x

theorem Agree.mono {P Q : α → β → Prop} (h : ∀ a b, P a b → Q a b) {x : Except ε α}
    {y : Except ε β} (hxy : Agree E P x y) : Agree E Q x y := by
  cases x <;> cases y
  · exact hxy
  · exact hxy
  · exact hxy
  · exact h _ _ hxy

theorem Agree.weaken {E' : ε → ε → Prop} (h : ∀ e e', E e e' → E' e e') {P : α → β → Prop}
    {x : Except ε α} {y : Except ε β} (hxy : Agree E P x y) : Agree E' P x y := by
  cases x <;> cases y
  · exact h _ _ hxy
  · exact hxy
  · exact hxy
  · exact hxy

theorem Agree.bind {P : α → β → Prop} {Q : γ → δ → Prop} {x : Except ε α} {y : Except ε β}
    {f : α → Except ε γ} {g : β → Except ε δ} (hxy : Agree E P x y)
    (hfg : ∀ a b, P a b → Agree E Q (f a) (g b)) : Agree E Q (x >>= f) (y >>= g) := by
  cases x <;> cases y
  · exact hxy
  · exact hxy.elim
  · exact hxy.elim
  · exact hfg _ _ hxy

/-! ## 2. Procedures -/

/-- `x` and `y` run side by side. -/
def Lockstep (R : σ → σ → Prop) (E : ε → ε → Prop) (P : α → β → Prop) (x : Proc ε σ α)
    (y : Proc ε σ β) : Prop :=
  ∀ s s', R s s' → Agree E P (x s).1 (y s').1 ∧ R (x s).2 (y s').2

namespace Lockstep

variable {R : σ → σ → Prop} {P : α → β → Prop} {Q : γ → δ → Prop}

theorem mono {x : Proc ε σ α} {y : Proc ε σ β} {P' : α → β → Prop} (h : Lockstep R E P x y)
    (hP : ∀ a b, P a b → P' a b) : Lockstep R E P' x y :=
  fun s s' hs => ⟨(h s s' hs).1.mono hP, (h s s' hs).2⟩

theorem pure {a : α} {b : β} (h : P a b) :
    Lockstep R E P (pure a : Proc ε σ α) (pure b : Proc ε σ β) :=
  fun _ _ hs => ⟨h, hs⟩

theorem raise {e e' : ε} (h : E e e') :
    Lockstep R E P (raise e : Proc ε σ α) (raise e' : Proc ε σ β) :=
  fun _ _ hs => ⟨h, hs⟩

theorem get : Lockstep R E R (get : Proc ε σ σ) Proc.get := fun _ _ hs => ⟨hs, hs⟩

theorem modify {f g : σ → σ} (h : ∀ s s', R s s' → R (f s) (g s')) :
    Lockstep R E Eq (modify f : Proc ε σ Unit) (Proc.modify g) :=
  fun s s' hs => ⟨rfl, h s s' hs⟩

theorem lift {x : Except ε α} {y : Except ε β} (h : Agree E P x y) :
    Lockstep R E P (lift x : Proc ε σ α) (Proc.lift y : Proc ε σ β) :=
  fun _ _ hs => ⟨h, hs⟩

/-- Sequences run side by side when their parts do. -/
theorem bind {x : Proc ε σ α} {y : Proc ε σ β} {f : α → Proc ε σ γ} {g : β → Proc ε σ δ}
    (hxy : Lockstep R E P x y) (hfg : ∀ a b, P a b → Lockstep R E Q (f a) (g b)) :
    Lockstep R E Q (x >>= f) (y >>= g) := by
  intro s s' hs
  obtain ⟨hr, hstate⟩ := hxy s s' hs
  rw [bind_apply, bind_apply, seq, seq]
  rcases hx : x s with ⟨r, s₁⟩
  rcases hy : y s' with ⟨r', s₁'⟩
  rw [hx, hy] at hr hstate
  cases r <;> cases r'
  · exact ⟨hr, hstate⟩
  · exact hr.elim
  · exact hr.elim
  · exact hfg _ _ hr s₁ s₁' hstate

/-- Guarded procedures, whose handlers keep the states related. -/
theorem onError {x : Proc ε σ α} {y : Proc ε σ β} {h h' : σ → σ} (hxy : Lockstep R E P x y)
    (hh : ∀ s s', R s s' → R (h s) (h' s')) : Lockstep R E P (onError x h) (Proc.onError y h') := by
  intro s s' hs
  obtain ⟨hr, hstate⟩ := hxy s s' hs
  unfold Proc.onError
  rcases hx : x s with ⟨r, s₁⟩
  rcases hy : y s' with ⟨r', s₁'⟩
  rw [hx, hy] at hr hstate
  cases r <;> cases r'
  · exact ⟨hr, hh _ _ hstate⟩
  · exact hr.elim
  · exact hr.elim
  · exact ⟨hr, hstate⟩

/-- Loops over one list. -/
theorem each {f g : α → Proc ε σ Unit} : ∀ {l : List α},
    (∀ a ∈ l, Lockstep R E Eq (f a) (g a)) → Lockstep R E Eq (each f l) (Proc.each g l)
  | [], _ => fun _ _ hs => ⟨rfl, hs⟩
  | a :: _, h => (h a List.mem_cons_self).bind fun _ _ _ =>
      each fun b hb => h b (List.mem_cons_of_mem a hb)

theorem collect {f g : α → Proc ε σ γ} : ∀ {l : List α},
    (∀ a ∈ l, Lockstep R E Eq (f a) (g a)) → Lockstep R E Eq (collect f l) (Proc.collect g l)
  | [], _ => fun _ _ hs => ⟨rfl, hs⟩
  | a :: _, h => (h a List.mem_cons_self).bind fun _ _ hb =>
      (collect fun c hc => h c (List.mem_cons_of_mem a hc)).bind fun _ _ hbs =>
        hb ▸ hbs ▸ pure rfl

end Lockstep

end Proc
