/-
# Postfix programs on a stack

An expression tree is compiled to a list of instructions: a leaf is pushed, a node is applied to the
two topmost values, the right operand on top.

* `exec_compile`: the program of a tree leaves its value on whatever stack it starts from.
* `execWithin_compile`: with a bounded stack it does so exactly when the tree is not too deep.

Leaves, operators and values are arbitrary, and so is what an operator computes.
-/
import Mathlib.Data.List.Basic
import Mathlib.Order.MinMax

namespace Postfix

variable {Leaf Op V : Type}

/-! ## 1. Trees and programs -/

/-- An expression: leaves and binary operators. -/
inductive Tree (Leaf Op : Type) where
  | leaf (x : Leaf)
  | node (o : Op) (l r : Tree Leaf Op)

/-- An instruction of the machine. -/
inductive Instr (Leaf Op : Type) where
  | push (x : Leaf)
  | apply (o : Op)
  deriving DecidableEq

/-- The value of a tree. -/
def Tree.eval (value : Leaf → V) (app : Op → V → V → V) : Tree Leaf Op → V
  | .leaf x => value x
  | .node o l r => app o (l.eval value app) (r.eval value app)

/-- Operands first, the operator behind them. -/
def Tree.compile : Tree Leaf Op → List (Instr Leaf Op)
  | .leaf x => [.push x]
  | .node o l r => l.compile ++ r.compile ++ [.apply o]

/-- The stack the program of a tree needs. -/
def Tree.depth : Tree Leaf Op → Nat
  | .leaf _ => 1
  | .node _ l r => max l.depth (r.depth + 1)

/-! ## 2. The machine -/

section Machine

variable (value : Leaf → V) (app : Op → V → V → V)

/-- One instruction on a stack, the top first; an operator without two operands is stuck. -/
def step : Instr Leaf Op → List V → Option (List V)
  | .push x, st => some (value x :: st)
  | .apply o, b :: a :: st => some (app o a b :: st)
  | .apply _, _ => none

/-- One instruction on a stack of `cap` places; pushing on a full one is stuck. -/
def stepWithin (cap : Nat) : Instr Leaf Op → List V → Option (List V)
  | .push x, st => if st.length < cap then some (value x :: st) else none
  | .apply o, st => step value app (.apply o) st

/-- A whole program, one instruction after the other. -/
def exec (f : Instr Leaf Op → List V → Option (List V)) :
    List (Instr Leaf Op) → List V → Option (List V)
  | [], st => some st
  | c :: cs, st => (f c st).bind (exec f cs)

variable {value app}

/-- The program of a tree pushes its value, whatever follows. -/
theorem exec_compile_append (t : Tree Leaf Op) (rest : List (Instr Leaf Op)) (st : List V) :
    exec (step value app) (t.compile ++ rest) st =
      exec (step value app) rest (t.eval value app :: st) := by
  induction t generalizing rest st with
  | leaf x => rfl
  | node o l r ihl ihr =>
    rw [Tree.compile, List.append_assoc, List.append_assoc, ihl, ihr]
    rfl

/-- **A compiled tree leaves exactly one value.** -/
theorem exec_compile (t : Tree Leaf Op) :
    exec (step value app) t.compile [] = some [t.eval value app] := by
  have h := @exec_compile_append _ _ _ value app t [] []
  rwa [List.append_nil] at h

/-- A tree that fits runs as without the bound; one that does not gets stuck. -/
theorem execWithin_compile_append (cap : Nat) (t : Tree Leaf Op) (rest : List (Instr Leaf Op))
    (st : List V) :
    exec (stepWithin value app cap) (t.compile ++ rest) st =
      if st.length + t.depth ≤ cap then exec (stepWithin value app cap) rest (t.eval value app :: st)
      else none := by
  induction t generalizing rest st with
  | leaf x =>
    simp only [Tree.compile, List.cons_append, List.nil_append, exec, stepWithin, Tree.depth,
      Nat.succ_le_iff]
    split <;> rfl
  | node o l r ihl ihr =>
    rw [Tree.compile, List.append_assoc, List.append_assoc, ihl, ihr, List.length_cons, Tree.depth]
    by_cases h1 : st.length + l.depth ≤ cap
    · rw [if_pos h1]
      by_cases h2 : st.length + 1 + r.depth ≤ cap
      · have hfit : st.length + max l.depth (r.depth + 1) ≤ cap := by omega
        rw [if_pos h2, if_pos hfit]
        rfl
      · have hfit : ¬ st.length + max l.depth (r.depth + 1) ≤ cap := by omega
        rw [if_neg h2, if_neg hfit]
    · have hfit : ¬ st.length + max l.depth (r.depth + 1) ≤ cap := by omega
      rw [if_neg h1, if_neg hfit]

/-- **The bounded machine** evaluates exactly the trees that are not deeper than its stack. -/
theorem execWithin_compile (cap : Nat) (t : Tree Leaf Op) :
    exec (stepWithin value app cap) t.compile [] =
      if t.depth ≤ cap then some [t.eval value app] else none := by
  have h := @execWithin_compile_append _ _ _ value app cap t [] []
  rw [List.append_nil, List.length_nil, Nat.zero_add] at h
  exact h

end Machine

end Postfix
