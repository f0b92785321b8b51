/-
# Three-valued logic

The values of SQL's logic are true, false and unknown, here `some true`, `some false` and `none`.  The
connectives are Kleene's: a conjunction is false as soon as one side is, a disjunction true as soon as
one side is, and where neither side decides the result is unknown.

    and   true   false  unknown        or    true   false  unknown
    true  true   false  unknown        true  true   true   true
    false false  false  false          false true   false  unknown
    unkn. unkn.  false  unknown        unkn. true   unkn.  unknown
-/
import Mathlib.Data.List.Basic

namespace Kleene

/-! ## 1. The connectives -/

/-- The negation; that of an unknown value is unknown. -/
def not : Option Bool → Option Bool := Option.map Bool.not

def and : Option Bool → Option Bool → Option Bool
  | some false, _ => some false
  | _, some false => some false
  | some true, some true => some true
  | _, _ => none

def or : Option Bool → Option Bool → Option Bool
  | some true, _ => some true
  | _, some true => some true
  | some false, some false => some false
  | _, _ => none

@[simp] theorem not_eq_true {a : Option Bool} : not a = some true ↔ a = some false := by
  rcases a with - | _ | _ <;> decide

@[simp] theorem not_eq_false {a : Option Bool} : not a = some false ↔ a = some true := by
  rcases a with - | _ | _ <;> decide

@[simp] theorem and_eq_true {a b : Option Bool} :
    and a b = some true ↔ a = some true ∧ b = some true := by
  rcases a with - | _ | _ <;> rcases b with - | _ | _ <;> decide

@[simp] theorem and_eq_false {a b : Option Bool} :
    and a b = some false ↔ a = some false ∨ b = some false := by
  rcases a with - | _ | _ <;> rcases b with - | _ | _ <;> decide

@[simp] theorem or_eq_true {a b : Option Bool} :
    or a b = some true ↔ a = some true ∨ b = some true := by
  rcases a with - | _ | _ <;> rcases b with - | _ | _ <;> decide

@[simp] theorem or_eq_false {a b : Option Bool} :
    or a b = some false ↔ a = some false ∧ b = some false := by
  rcases a with - | _ | _ <;> rcases b with - | _ | _ <;> decide

theorem and_comm (a b : Option Bool) : and a b = and b a := by
  rcases a with - | _ | _ <;> rcases b with - | _ | _ <;> rfl

theorem or_comm (a b : Option Bool) : or a b = or b a := by
  rcases a with - | _ | _ <;> rcases b with - | _ | _ <;> rfl

/-! ## 2. Comparisons and lists -/

section Compare
variable {α : Type*}

/-- A comparison; with an unknown value it is unknown. -/
def compare (r : α → α → Bool) (a b : Option α) : Option Bool := a.bind fun x => b.map (r x)

theorem compare_eq_some {r : α → α → Bool} {a b : Option α} {t : Bool} :
    compare r a b = some t ↔ ∃ x y, a = some x ∧ b = some y ∧ r x y = t := by
  simp [compare, Option.bind_eq_some_iff]

/-- The disjunction of a list; that of no value is false. -/
def any (l : List (Option Bool)) : Option Bool := l.foldr or (some false)

theorem any_eq_true {l : List (Option Bool)} : any l = some true ↔ some true ∈ l := by
  induction l with
  | nil => decide
  | cons a l ih => rw [any, List.foldr_cons, or_eq_true, List.mem_cons, ← any, ih, eq_comm]

theorem any_eq_false {l : List (Option Bool)} : any l = some false ↔ ∀ a ∈ l, a = some false := by
  induction l with
  | nil => decide
  | cons a l ih => rw [any, List.foldr_cons, or_eq_false, List.forall_mem_cons, ← any, ih]

end Compare

end Kleene
