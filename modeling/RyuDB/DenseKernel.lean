/-
# The dense kernel

`dense_kernel` gives every group a cell for each aggregate.  A block fills its own array of cells with the
initial values, accumulates its rows in it, and at the end adds the array to the global one; a
`__syncthreads` stands after the first and after the second part.  `probe_agg_kernel` does the same; which
group a row counts for, if any, is a parameter here.

Every access to shared or global memory is a step of its own, a barrier is a counter of the threads that
have come to it, and the threads of all blocks take steps in any order.

* `dense_kernel_groups`: when no thread has a step, then no thread waits at a barrier, the global array
  holds the accumulators of every group, and `seen` marks the groups that have a row.

What makes it work is that the arrays are only read when nobody writes them any more, and that is what
the barriers are for.  The invariant therefore says for each thread how far it is, and for each cell
which part of the rows it holds: in the array of a block the rows whose aggregates are through, and in
the global one those of the blocks that have added theirs.

A barrier is a counter here, and a thread that waits has no step.  So that no thread waits for ever is
a theorem and not part of the model.
-/
import Mathlib.Data.Fintype.Prod
import RyuDB.HashKernel

namespace RyuDB.Kernels

/-! ## 1. The kernel -/

/-- A launch with an array of cells: `dim` threads in each block, and the group of a row, if it counts. -/
structure DenseLaunch extends Launch where
  blocks : Nat
  dim : Nat
  threads_eq : threads = dim * blocks
  groups : Nat
  group : Nat → Option Nat
  group_lt : ∀ i g, group i = some g → g < groups

/-- The memory: the array of each block, the global one, the marks, and how many threads of a block have
come to each barrier. -/
structure DenseMem (blocks : Nat) where
  sh : Fin blocks → Nat → Double
  acc : Nat → Double
  seen : Nat → Bool
  arrived₁ : Fin blocks → Nat
  arrived₂ : Fin blocks → Nat

/-- A new content of one cell of a block. -/
def DenseMem.setSh {blocks : Nat} (m : DenseMem blocks) (b : Fin blocks) (k : Nat) (v : Double) :
    DenseMem blocks :=
  { m with sh := Function.update m.sh b (Function.update (m.sh b) k v) }

/-- Where a thread is: filling the cells of its block, at the first barrier, at the head of the loop over
its rows, in the update of an aggregate, before it marks the group, at the second barrier, before it reads a
cell of its block, or adding what it read to the global cell. -/
inductive DensePc where
  | fill (k : Nat)
  | wait₁
  | row (i : Nat)
  | agg (i g a : Nat) (assumed : Option Double)
  | mark (i g : Nat)
  | wait₂
  | load (k : Nat)
  | reduce (k : Nat) (val : Double) (assumed : Option Double)

namespace DenseLaunch

variable (L : DenseLaunch)

/-- A thread: its block and its place in it. -/
abbrev Thread : Type := Fin L.blocks × Fin L.dim

/-- The number of cells. -/
def cells : Nat := L.groups * L.nagg

/-- The cell of an aggregate of a group. -/
def cell (g a : Nat) : Nat := g * L.nagg + a

/-- One step of a thread. -/
def step (t : L.Thread) (m : DenseMem L.blocks) : DensePc → Option (DenseMem L.blocks × DensePc)
  | .fill k =>
    if k < L.cells then
      some (m.setSh t.1 k (L.kind (k % L.nagg)).init, .fill (k + L.dim))
    else some ({ m with arrived₁ := Function.update m.arrived₁ t.1 (m.arrived₁ t.1 + 1) }, .wait₁)
  | .wait₁ => if m.arrived₁ t.1 = L.dim then some (m, .row (t.1 * L.dim + t.2)) else none
  | .row i =>
    if i < L.n then
      match L.group i with
      | none => some (m, .row (i + L.threads))
      | some g => some (m, .agg i g 0 none)
    else some ({ m with arrived₂ := Function.update m.arrived₂ t.1 (m.arrived₂ t.1 + 1) }, .wait₂)
  | .agg i g a assumed =>
    if a < L.nagg then
      match access (L.kind a) (L.val a i) (m.sh t.1 (L.cell g a)) assumed with
      | (v, none) => some (m.setSh t.1 (L.cell g a) v, .agg i g (a + 1) none)
      | (v, some w) => some (m.setSh t.1 (L.cell g a) v, .agg i g a (some w))
    else some (m, .mark i g)
  | .mark i g => some ({ m with seen := Function.update m.seen g true }, .row (i + L.threads))
  | .wait₂ => if m.arrived₂ t.1 = L.dim then some (m, .load t.2) else none
  | .load k => if k < L.cells then some (m, .reduce k (m.sh t.1 k) none) else none
  | .reduce k val assumed =>
    match access (L.kind (k % L.nagg)) val (m.acc k) assumed with
    | (v, none) => some ({ m with acc := Function.update m.acc k v }, .load (k + L.dim))
    | (v, some w) => some ({ m with acc := Function.update m.acc k v }, .reduce k val (some w))

/-- The start: the host has filled `acc` with the initial values and cleared `seen`; the arrays of the
blocks hold whatever was there. -/
def start (sh : Fin L.blocks → Nat → Double) : Threads.State L.Thread (DenseMem L.blocks) DensePc where
  mem := ⟨sh, fun k => (L.kind (k % L.nagg)).init, fun _ => false, fun _ => 0, fun _ => 0⟩
  pc t := .fill t.2

/-- The state after a schedule. -/
def run (sh : Fin L.blocks → Nat → Double) (l : List L.Thread) :
    Threads.State L.Thread (DenseMem L.blocks) DensePc :=
  Run.run (Threads.act L.step) (L.start sh) l

variable {L}

theorem dim_pos : 0 < L.dim := by
  have h := L.pos
  rw [L.threads_eq] at h
  exact Nat.pos_of_mul_pos_right h

theorem blocks_pos : 0 < L.blocks := by
  have h := L.pos
  rw [L.threads_eq] at h
  exact Nat.pos_of_mul_pos_left h

variable (L)

/-- The thread that has the row in its stride. -/
def owner (i : Nat) : L.Thread :=
  (⟨i / L.dim % L.blocks, Nat.mod_lt _ blocks_pos⟩, ⟨i % L.dim, Nat.mod_lt _ dim_pos⟩)

/-- The place in its block of the thread that fills and adds the cell. -/
def lane (k : Nat) : Fin L.dim := ⟨k % L.dim, Nat.mod_lt _ dim_pos⟩

variable {L}

theorem mod_of_owner {i j : Nat} (h : L.owner i = L.owner j) : i % L.threads = j % L.threads := by
  obtain ⟨h₁, h₂⟩ := Prod.mk.inj h
  have hb : i / L.dim % L.blocks = j / L.dim % L.blocks := congrArg Fin.val h₁
  have ht : i % L.dim = j % L.dim := congrArg Fin.val h₂
  rw [L.threads_eq, Nat.mod_mul, Nat.mod_mul, hb, ht]

theorem owner_next (i : Nat) : L.owner (i + L.threads) = L.owner i := by
  unfold owner
  rw [L.threads_eq]
  refine Prod.ext (Fin.ext ?_) (Fin.ext ?_)
  · change (i + L.dim * L.blocks) / L.dim % L.blocks = _
    rw [Nat.add_mul_div_left _ _ dim_pos, Nat.add_mod_right]
  · change (i + L.dim * L.blocks) % L.dim = _
    rw [Nat.add_mul_mod_self_left]

/-- The first row of a thread. -/
theorem owner_first (t : L.Thread) : L.owner (t.1 * L.dim + t.2) = t := by
  have ht := t.2.isLt
  refine Prod.ext (Fin.ext ?_) (Fin.ext ?_)
  · change (t.1 * L.dim + t.2) / L.dim % L.blocks = t.1
    rw [Nat.mul_comm, Nat.mul_add_div dim_pos, Nat.div_eq_of_lt ht, Nat.add_zero,
      Nat.mod_eq_of_lt t.1.isLt]
  · change (t.1 * L.dim + t.2) % L.dim = t.2
    rw [Nat.mul_comm, Nat.mul_add_mod, Nat.mod_eq_of_lt ht]

theorem lane_next (k : Nat) : L.lane (k + L.dim) = L.lane k := by
  unfold lane
  simp

theorem lane_first (t : Fin L.dim) : L.lane t = t := Fin.ext (Nat.mod_eq_of_lt t.isLt)

/-- The cells of different aggregates and groups are different. -/
theorem cell_div {g a : Nat} (ha : a < L.nagg) : L.cell g a / L.nagg = g := by
  unfold cell
  rw [Nat.mul_comm, Nat.mul_add_div (by omega), Nat.div_eq_of_lt ha, Nat.add_zero]

theorem cell_mod {g a : Nat} (ha : a < L.nagg) : L.cell g a % L.nagg = a := by
  unfold cell
  rw [Nat.mul_comm, Nat.mul_add_mod, Nat.mod_eq_of_lt ha]

theorem cell_lt {g a : Nat} (hg : g < L.groups) (ha : a < L.nagg) : L.cell g a < L.cells := by
  have hle : (g + 1) * L.nagg ≤ L.groups * L.nagg := Nat.mul_le_mul_right _ hg
  unfold cell cells
  rw [Nat.add_mul, Nat.one_mul] at hle
  omega

theorem cell_div_mod (k : Nat) : L.cell (k / L.nagg) (k % L.nagg) = k := by
  unfold cell
  rw [Nat.mul_comm]
  exact Nat.div_add_mod k L.nagg

theorem nagg_pos {k : Nat} (hk : k < L.cells) : 0 < L.nagg := by
  unfold cells at hk
  exact Nat.pos_of_mul_pos_left (Nat.lt_of_le_of_lt (Nat.zero_le k) hk)

/-- What a step can be. -/
inductive Moves (L : DenseLaunch) (t : L.Thread) (m : DenseMem L.blocks) :
    DensePc → DenseMem L.blocks → DensePc → Prop
  | fill {k : Nat} (hk : k < L.cells) :
      Moves L t m (.fill k) (m.setSh t.1 k (L.kind (k % L.nagg)).init) (.fill (k + L.dim))
  | arrive₁ {k : Nat} (hk : ¬ k < L.cells) : Moves L t m (.fill k)
      { m with arrived₁ := Function.update m.arrived₁ t.1 (m.arrived₁ t.1 + 1) } .wait₁
  | go₁ (h : m.arrived₁ t.1 = L.dim) : Moves L t m .wait₁ m (.row (t.1 * L.dim + t.2))
  | pass {i : Nat} (hi : i < L.n) (hg : L.group i = none) :
      Moves L t m (.row i) m (.row (i + L.threads))
  | begin {i g : Nat} (hi : i < L.n) (hg : L.group i = some g) :
      Moves L t m (.row i) m (.agg i g 0 none)
  | arrive₂ {i : Nat} (hi : ¬ i < L.n) : Moves L t m (.row i)
      { m with arrived₂ := Function.update m.arrived₂ t.1 (m.arrived₂ t.1 + 1) } .wait₂
  | retry {i g a : Nat} {v : Option Double} (ha : a < L.nagg)
      (hv : v ≠ some (m.sh t.1 (L.cell g a))) :
      Moves L t m (.agg i g a v) m (.agg i g a (some (m.sh t.1 (L.cell g a))))
  | apply {i g a : Nat} {v : Option Double} (ha : a < L.nagg) : Moves L t m (.agg i g a v)
      (m.setSh t.1 (L.cell g a) ((L.kind a).op (m.sh t.1 (L.cell g a)) (L.val a i)))
      (.agg i g (a + 1) none)
  | close {i g a : Nat} {v : Option Double} (ha : ¬ a < L.nagg) :
      Moves L t m (.agg i g a v) m (.mark i g)
  | mark {i g : Nat} : Moves L t m (.mark i g) { m with seen := Function.update m.seen g true }
      (.row (i + L.threads))
  | go₂ (h : m.arrived₂ t.1 = L.dim) : Moves L t m .wait₂ m (.load t.2)
  | load {k : Nat} (hk : k < L.cells) : Moves L t m (.load k) m (.reduce k (m.sh t.1 k) none)
  | retryAll {k : Nat} {val : Double} {v : Option Double} (hv : v ≠ some (m.acc k)) :
      Moves L t m (.reduce k val v) m (.reduce k val (some (m.acc k)))
  | applyAll {k : Nat} {val : Double} {v : Option Double} : Moves L t m (.reduce k val v)
      { m with acc := Function.update m.acc k ((L.kind (k % L.nagg)).op (m.acc k) val) }
      (.load (k + L.dim))

theorem setSh_self {blocks : Nat} (m : DenseMem blocks) (b : Fin blocks) (k : Nat) :
    m.setSh b k (m.sh b k) = m := by
  unfold DenseMem.setSh
  rw [Function.update_eq_self, Function.update_eq_self]

theorem setSh_sh {blocks : Nat} (m : DenseMem blocks) (b b' : Fin blocks) (k k' : Nat) (v : Double) :
    (m.setSh b k v).sh b' k' = if b' = b ∧ k' = k then v else m.sh b' k' := by
  change Function.update m.sh b (Function.update (m.sh b) k v) b' k' = _
  by_cases hb : b' = b
  · subst hb
    rw [Function.update_self]
    by_cases hk : k' = k
    · rw [hk, Function.update_self, if_pos ⟨rfl, rfl⟩]
    · rw [Function.update_of_ne hk, if_neg fun h => hk h.2]
  · rw [Function.update_of_ne hb, if_neg fun h => hb h.1]

variable {c : Threads.State L.Thread (DenseMem L.blocks) DensePc} {t : L.Thread}
  {m m' : DenseMem L.blocks} {p p' : DensePc}

/-- **Every step is one of these.** -/
theorem moves_of_step (h : L.step t m p = some (m', p')) : Moves L t m p m' p' := by
  cases p with
  | fill k =>
    simp only [step] at h
    split at h <;> rename_i hk <;> cases h
    · exact .fill hk
    · exact .arrive₁ hk
  | wait₁ =>
    simp only [step] at h
    split at h
    · rename_i hd
      cases h
      exact .go₁ hd
    · cases h
  | row i =>
    simp only [step] at h
    split at h
    · rename_i hi
      split at h <;> rename_i hg <;> cases h
      · exact .pass hi hg
      · exact .begin hi hg
    · rename_i hi
      cases h
      exact .arrive₂ hi
  | agg i g a v =>
    simp only [step] at h
    split at h
    · rename_i ha
      rcases access_cases (L.kind a) (L.val a i) (m.sh t.1 (L.cell g a)) v with hacc | ⟨hacc, hv⟩
      · rw [hacc] at h
        cases h
        exact .apply ha
      · rw [hacc] at h
        simp only [setSh_self] at h
        cases h
        exact .retry ha hv
    · rename_i ha
      cases h
      exact .close ha
  | mark i g =>
    cases h
    exact .mark
  | wait₂ =>
    simp only [step] at h
    split at h
    · rename_i hd
      cases h
      exact .go₂ hd
    · cases h
  | load k =>
    simp only [step] at h
    split at h
    · rename_i hk
      cases h
      exact .load hk
    · cases h
  | reduce k val v =>
    simp only [step] at h
    rcases access_cases (L.kind (k % L.nagg)) val (m.acc k) v with hacc | ⟨hacc, hv⟩
    · rw [hacc] at h
      cases h
      exact .applyAll
    · rw [hacc] at h
      simp only [Function.update_eq_self] at h
      cases h
      exact .retryAll hv

/-! ## 2. What a thread knows -/

end DenseLaunch

namespace DensePc

/-- The part of the kernel a thread is in: the barriers are parts of their own. -/
def stage : DensePc → Nat
  | .fill _ => 0
  | .wait₁ => 1
  | .row _ | .agg _ _ _ _ | .mark _ _ => 2
  | .wait₂ => 3
  | .load _ | .reduce _ _ _ => 4

/-- The thread has filled the cell. -/
def filled : DensePc → Nat → Bool
  | .fill k', k => decide (k < k')
  | _, _ => true

/-- The aggregate of the row is through. -/
def did : DensePc → Nat → Nat → Bool
  | .fill _, _, _ | .wait₁, _, _ => false
  | .row i', i, _ => decide (i < i')
  | .agg i' _ b _, i, a => decide (i < i') || decide (i = i') && decide (a < b)
  | .mark i' _, i, _ => decide (i < i') || decide (i = i')
  | .wait₂, _, _ | .load _, _, _ | .reduce _ _ _, _, _ => true

/-- The row is through. -/
def marked : DensePc → Nat → Bool
  | .fill _, _ | .wait₁, _ => false
  | .row i', i | .agg i' _ _ _, i | .mark i' _, i => decide (i < i')
  | .wait₂, _ | .load _, _ | .reduce _ _ _, _ => true

/-- The thread has added the cell of its block to the global one. -/
def reduced : DensePc → Nat → Bool
  | .load k', k | .reduce k' _ _, k => decide (k < k')
  | _, _ => false

end DensePc

namespace DenseLaunch

variable (L : DenseLaunch)

/-- What a thread knows where it is. -/
def Knows (m : DenseMem L.blocks) (t : L.Thread) : DensePc → Prop
  | .fill k => L.lane k = t.2
  | .wait₁ => True
  | .row i => m.arrived₁ t.1 = L.dim ∧ L.owner i = t
  | .agg i g a _ => m.arrived₁ t.1 = L.dim ∧ L.owner i = t ∧ i < L.n ∧ L.group i = some g ∧ a ≤ L.nagg
  | .mark i g => m.arrived₁ t.1 = L.dim ∧ L.owner i = t ∧ i < L.n ∧ L.group i = some g
  | .wait₂ => m.arrived₁ t.1 = L.dim
  | .load k => m.arrived₁ t.1 = L.dim ∧ m.arrived₂ t.1 = L.dim ∧ L.lane k = t.2
  | .reduce k val _ => m.arrived₁ t.1 = L.dim ∧ m.arrived₂ t.1 = L.dim ∧ L.lane k = t.2 ∧
      k < L.cells ∧ val = m.sh t.1 k

/-- The threads of a block that have come as far as the stage. -/
def reached (pc : L.Thread → DensePc) (b : Fin L.blocks) (stage : Nat) : Finset (Fin L.dim) :=
  Finset.univ.filter fun u => stage ≤ (pc (b, u)).stage

/-- The rows of a group. -/
def rowsOf (g : Nat) : Finset Nat := (Finset.range L.n).filter fun i => L.group i = some g

/-- The rows of a group in a block whose aggregate is through. -/
def part (pc : L.Thread → DensePc) (b : Fin L.blocks) (g a : Nat) : Finset Nat :=
  (L.rowsOf g).filter fun i => (L.owner i).1 = b ∧ (pc (L.owner i)).did i a = true

/-- The rows of a group that are in the global cell: those of the blocks that have added theirs. -/
def kept (pc : L.Thread → DensePc) (k : Nat) : Finset Nat :=
  (L.rowsOf (k / L.nagg)).filter fun i => (pc ((L.owner i).1, L.lane k)).reduced k = true

/-- **What holds whenever the threads are stopped.** -/
structure Inv (c : Threads.State L.Thread (DenseMem L.blocks) DensePc) : Prop where
  knows : ∀ t, L.Knows c.mem t (c.pc t)
  count₁ : ∀ b, c.mem.arrived₁ b = (L.reached c.pc b 1).card
  count₂ : ∀ b, c.mem.arrived₂ b = (L.reached c.pc b 3).card
  shared : ∀ b, ∀ k < L.cells, (c.pc (b, L.lane k)).filled k = true → c.mem.sh b k =
    (L.kind (k % L.nagg)).folded (L.val (k % L.nagg)) (L.part c.pc b (k / L.nagg) (k % L.nagg))
  total : ∀ k < L.cells, c.mem.acc k =
    (L.kind (k % L.nagg)).folded (L.val (k % L.nagg)) (L.kept c.pc k)
  seen : ∀ g, c.mem.seen g = true ↔ ∃ i ∈ L.rowsOf g, (c.pc (L.owner i)).marked i = true

variable {L} {c : Threads.State L.Thread (DenseMem L.blocks) DensePc} {t : L.Thread}
  {m m' : DenseMem L.blocks} {p p' : DensePc}

/-! ## 3. Barriers -/

theorem reached_le (pc : L.Thread → DensePc) (b : Fin L.blocks) (n : Nat) :
    (L.reached pc b n).card ≤ L.dim := by
  have h := Finset.card_le_univ (L.reached pc b n)
  rwa [Fintype.card_fin] at h

/-- **A full barrier**: every thread of the block has come to it. -/
theorem stage_of_full {pc : L.Thread → DensePc} {b : Fin L.blocks} {n : Nat}
    (h : (L.reached pc b n).card = L.dim) (u : Fin L.dim) : n ≤ (pc (b, u)).stage := by
  have huniv : L.reached pc b n = Finset.univ := by
    rw [← Finset.card_eq_iff_eq_univ, Fintype.card_fin]
    exact h
  have hmem : u ∈ L.reached pc b n := by
    rw [huniv]
    exact Finset.mem_univ u
  exact (Finset.mem_filter.mp hmem).2

/-- A thread that has not come to a barrier keeps it closed. -/
theorem reached_lt {pc : L.Thread → DensePc} {n : Nat} (h : (pc t).stage < n) :
    (L.reached pc t.1 n).card < L.dim := by
  refine Nat.lt_of_le_of_ne (reached_le pc t.1 n) fun heq => ?_
  have hle : n ≤ (pc t).stage := stage_of_full heq t.2
  omega

/-- The threads that have come to a barrier after one more has. -/
theorem reached_insert {pc : L.Thread → DensePc} {n : Nat} (h : (pc t).stage < n)
    (h' : n ≤ p'.stage) : (L.reached (Function.update pc t p') t.1 n).card =
      (L.reached pc t.1 n).card + 1 := by
  have hset : L.reached (Function.update pc t p') t.1 n = insert t.2 (L.reached pc t.1 n) := by
    ext u
    simp only [reached, Finset.mem_filter, Finset.mem_univ, true_and, Finset.mem_insert]
    by_cases hu : u = t.2
    · subst hu
      rw [Function.update_self]
      simp [h']
    · have hne : (t.1, u) ≠ t := fun heq => hu (congrArg Prod.snd heq)
      rw [Function.update_of_ne hne]
      simp [hu]
  rw [hset, Finset.card_insert_of_notMem]
  simp only [reached, Finset.mem_filter, Finset.mem_univ, true_and]
  exact Nat.not_le.mpr h

/-- A step that passes no barrier changes no such set. -/
theorem reached_same {pc : L.Thread → DensePc} {n : Nat} {b : Fin L.blocks}
    (h : n ≤ p'.stage ↔ n ≤ (pc t).stage) :
    L.reached (Function.update pc t p') b n = L.reached pc b n := by
  refine Finset.filter_congr fun u _ => ?_
  by_cases hu : (b, u) = t
  · rw [hu, Function.update_self, h]
  · rw [Function.update_of_ne hu]

/-- A step of a thread leaves the barriers of other blocks alone. -/
theorem reached_other {pc : L.Thread → DensePc} {n : Nat} {b : Fin L.blocks} (hb : b ≠ t.1) :
    L.reached (Function.update pc t p') b n = L.reached pc b n := by
  refine Finset.filter_congr fun u _ => ?_
  rw [Function.update_of_ne]
  rintro rfl
  exact hb rfl

/-! ## 4. What a step gets through -/

theorem mem_rowsOf {i g : Nat} : i ∈ L.rowsOf g ↔ i < L.n ∧ L.group i = some g := by
  rw [rowsOf, Finset.mem_filter, Finset.mem_range]

/-- A thread that goes on to its next row leaves the row behind. -/
theorem lt_next {i r : Nat} (h : L.owner r = L.owner i) : r < i + L.threads ↔ r < i ∨ r = i :=
  Threads.before_next L.pos (mod_of_owner h)

/-- A thread that goes on to its next cell leaves the cell behind. -/
theorem lt_next_cell {k j : Nat} (h : L.lane j = L.lane k) : j < k + L.dim ↔ j < k ∨ j = k :=
  Threads.before_next dim_pos (congrArg Fin.val h)

/-- No row of a thread is before its first one. -/
theorem not_lt_first {r : Nat} (h : L.owner r = t) : ¬ r < t.1 * L.dim + t.2 := by
  intro hlt
  have hfirst : t.1 * L.dim + t.2 < L.threads := by
    have hle : (t.1 + 1) * L.dim ≤ L.blocks * L.dim := Nat.mul_le_mul_right _ t.1.isLt
    have ht := t.2.isLt
    rw [Nat.add_mul, Nat.one_mul] at hle
    rw [L.threads_eq, Nat.mul_comm L.dim]
    omega
  have hmod := mod_of_owner (h.trans (owner_first t).symm)
  rw [Nat.mod_eq_of_lt hfirst, Nat.mod_eq_of_lt (Nat.lt_trans hlt hfirst)] at hmod
  omega

/-- No cell of a thread is before its first one. -/
theorem not_lt_lane {k : Nat} {u : Fin L.dim} (h : L.lane k = u) : ¬ k < u := by
  have hle := Nat.mod_le k L.dim
  rw [← h]
  exact Nat.not_lt.mpr hle

/-- **The aggregates that are through**: an update that ends adds one. -/
theorem Moves.did (h : Moves L t m p m' p') (ht : L.Knows m t p) {g a r : Nat}
    (hr : r ∈ L.rowsOf g) (ho : L.owner r = t) (ha : a < L.nagg) : p'.did r a = true ↔
      p.did r a = true ∨ ∃ v, p = .agg r g a v ∧ p' = .agg r g (a + 1) none := by
  obtain ⟨hn, hg⟩ := mem_rowsOf.mp hr
  cases h with
  | go₁ h => simp [DensePc.did, not_lt_first ho]
  | @pass i hi hnone =>
    have hne : r ≠ i := by
      rintro rfl
      cases hnone.symm.trans hg
    simp [DensePc.did, lt_next (ho.trans ht.2.symm), hne]
  | @arrive₂ i hi => simp [DensePc.did, show r < i by omega]
  | @retry i g' b v hb hv =>
    refine ⟨Or.inl, ?_⟩
    rintro (h | ⟨_, heq, heq'⟩)
    · exact h
    · cases heq
      simp at heq'
  | @apply i g' b v hb =>
    simp only [DensePc.did, Bool.or_eq_true, Bool.and_eq_true, decide_eq_true_eq]
    constructor
    · rintro (hlt | ⟨rfl, hlt⟩)
      · exact Or.inl (Or.inl hlt)
      · rcases Nat.lt_succ_iff_lt_or_eq.mp hlt with hlt | rfl
        · exact Or.inl (Or.inr ⟨rfl, hlt⟩)
        · obtain rfl : g' = g := Option.some.inj (ht.2.2.2.1.symm.trans hg)
          exact Or.inr ⟨v, rfl, rfl⟩
    · rintro ((hlt | ⟨rfl, hlt⟩) | ⟨w, heq, -⟩)
      · exact Or.inl hlt
      · exact Or.inr ⟨rfl, by omega⟩
      · cases heq
        exact Or.inr ⟨rfl, by omega⟩
  | @close i g' b v hb => simp [DensePc.did, show a < b by omega]
  | @mark i g' => simp [DensePc.did, lt_next (ho.trans ht.2.1.symm)]
  | _ => simp [DensePc.did]

/-- **The rows that are through**: a mark adds one. -/
theorem Moves.marked (h : Moves L t m p m' p') (ht : L.Knows m t p) {g r : Nat}
    (hr : r ∈ L.rowsOf g) (ho : L.owner r = t) :
    p'.marked r = true ↔ p.marked r = true ∨ p = .mark r g := by
  obtain ⟨hn, hg⟩ := mem_rowsOf.mp hr
  cases h with
  | go₁ h => simp [DensePc.marked, not_lt_first ho]
  | @pass i hi hnone =>
    have hne : r ≠ i := by
      rintro rfl
      cases hnone.symm.trans hg
    simp [DensePc.marked, lt_next (ho.trans ht.2.symm), hne]
  | @arrive₂ i hi => simp [DensePc.marked, show r < i by omega]
  | @mark i g' =>
    have hgrp : r = i → g' = g := by
      rintro rfl
      exact Option.some.inj (ht.2.2.2.symm.trans hg)
    simp only [DensePc.marked, decide_eq_true_eq, lt_next (ho.trans ht.2.1.symm)]
    constructor
    · rintro (hlt | rfl)
      · exact Or.inl hlt
      · exact Or.inr (by rw [hgrp rfl])
    · rintro (hlt | heq)
      · exact Or.inl hlt
      · cases heq
        exact Or.inr rfl
  | _ => simp [DensePc.marked]

/-- **The cells that are filled.** -/
theorem Moves.filled (h : Moves L t m p m' p') (ht : L.Knows m t p) {k : Nat} (hk : k < L.cells)
    (hl : L.lane k = t.2) :
    p'.filled k = true ↔ p.filled k = true ∨ p = .fill k ∧ p' = .fill (k + L.dim) := by
  cases h with
  | @fill k' hk' =>
    simp only [DensePc.filled, decide_eq_true_eq, lt_next_cell (hl.trans ht.symm)]
    constructor
    · rintro (hlt | rfl)
      · exact Or.inl hlt
      · exact Or.inr ⟨rfl, rfl⟩
    · rintro (hlt | ⟨heq, -⟩)
      · exact Or.inl hlt
      · cases heq
        exact Or.inr rfl
  | @arrive₁ k' hk' => simp [DensePc.filled, show k < k' by omega]
  | _ => simp [DensePc.filled]

/-- **The cells that are added to the global ones.** -/
theorem Moves.reduced (h : Moves L t m p m' p') (ht : L.Knows m t p) {k : Nat}
    (hl : L.lane k = t.2) : p'.reduced k = true ↔
      p.reduced k = true ∨ ∃ val v, p = .reduce k val v ∧ p' = .load (k + L.dim) := by
  cases h with
  | go₂ h => simp [DensePc.reduced, not_lt_lane hl]
  | @applyAll k' val v =>
    simp only [DensePc.reduced, decide_eq_true_eq, lt_next_cell (hl.trans ht.2.2.1.symm)]
    constructor
    · rintro (hlt | rfl)
      · exact Or.inl hlt
      · exact Or.inr ⟨val, v, rfl, rfl⟩
    · rintro (hlt | ⟨_, _, heq, -⟩)
      · exact Or.inl hlt
      · cases heq
        exact Or.inr rfl
  | _ => simp [DensePc.reduced]

/-! ## 5. A step keeps the invariant -/

/-- What the thread knows after its step. -/
theorem Moves.knows (h : Moves L t m p m' p') (ht : L.Knows m t p) : L.Knows m' t p' := by
  cases h with
  | fill hk => exact (lane_next _).trans ht
  | arrive₁ hk => trivial
  | go₁ h => exact ⟨h, owner_first t⟩
  | pass hi hg => exact ⟨ht.1, (owner_next _).trans ht.2⟩
  | begin hi hg => exact ⟨ht.1, ht.2, hi, hg, Nat.zero_le _⟩
  | arrive₂ hi => exact ht.1
  | retry ha hv => exact ht
  | apply ha =>
    obtain ⟨h₁, ho, hi, hg, -⟩ := ht
    exact ⟨h₁, ho, hi, hg, ha⟩
  | close ha =>
    obtain ⟨h₁, ho, hi, hg, -⟩ := ht
    exact ⟨h₁, ho, hi, hg⟩
  | mark => exact ⟨ht.1, (owner_next _).trans ht.2.1⟩
  | go₂ h => exact ⟨ht, h, lane_first t.2⟩
  | load hk => exact ⟨ht.1, ht.2.1, ht.2.2, hk, rfl⟩
  | retryAll hv => exact ht
  | applyAll => exact ⟨ht.1, ht.2.1, (lane_next _).trans ht.2.2.1⟩

/-- A full barrier stays full, and behind the second one nothing changes the array of the block. -/
structure Keeps (L : DenseLaunch) (m m' : DenseMem L.blocks) : Prop where
  full₁ : ∀ b, m.arrived₁ b = L.dim → m'.arrived₁ b = L.dim
  full₂ : ∀ b, m.arrived₂ b = L.dim → m'.arrived₂ b = L.dim
  still : ∀ b k, m.arrived₂ b = L.dim → m'.sh b k = m.sh b k

/-- **What a thread knows does not become wrong** while others go on. -/
theorem Knows.mono (h : L.Knows m t p) (hk : Keeps L m m') : L.Knows m' t p := by
  cases p with
  | fill k => exact h
  | wait₁ => trivial
  | row i => exact ⟨hk.full₁ _ h.1, h.2⟩
  | agg i g a v => exact ⟨hk.full₁ _ h.1, h.2⟩
  | mark i g => exact ⟨hk.full₁ _ h.1, h.2⟩
  | wait₂ => exact hk.full₁ _ h
  | load k => exact ⟨hk.full₁ _ h.1, hk.full₂ _ h.2.1, h.2.2⟩
  | reduce k val v =>
    obtain ⟨h₁, h₂, hl, hlt, hval⟩ := h
    exact ⟨hk.full₁ _ h₁, hk.full₂ _ h₂, hl, hlt, hval.trans (hk.still _ k h₂).symm⟩

theorem Inv.not_full₁ (h : L.Inv c) (hs : (c.pc t).stage < 1) : c.mem.arrived₁ t.1 ≠ L.dim := by
  rw [h.count₁]
  exact Nat.ne_of_lt (reached_lt hs)

theorem Inv.not_full₂ (h : L.Inv c) (hs : (c.pc t).stage < 3) : c.mem.arrived₂ t.1 ≠ L.dim := by
  rw [h.count₂]
  exact Nat.ne_of_lt (reached_lt hs)

theorem Inv.keeps (h : L.Inv c) (hm : Moves L t c.mem (c.pc t) m' p') : Keeps L c.mem m' := by
  have hsh : (c.pc t).stage < 3 → ∀ k v b j, c.mem.arrived₂ b = L.dim →
      (c.mem.setSh t.1 k v).sh b j = c.mem.sh b j := by
    intro hs k v b j hb
    rw [setSh_sh, if_neg]
    rintro ⟨rfl, -⟩
    exact h.not_full₂ hs hb
  have harr : ∀ (arr : Fin L.blocks → Nat) b, arr t.1 ≠ L.dim → arr b = L.dim →
      Function.update arr t.1 (arr t.1 + 1) b = L.dim := by
    intro arr b hne hb
    rw [Function.update_of_ne]
    · exact hb
    · rintro rfl
      exact hne hb
  generalize hp : c.pc t = p at hm
  cases hm with
  | fill hk => exact ⟨fun _ => id, fun _ => id, hsh (by rw [hp]; exact Nat.succ_pos 2) _ _⟩
  | apply ha =>
    exact ⟨fun _ => id, fun _ => id, hsh (by rw [hp]; exact Nat.lt_succ_self 2) _ _⟩
  | arrive₁ hk =>
    have hne := h.not_full₁ (t := t) (by rw [hp]; exact Nat.one_pos)
    exact ⟨fun b => harr _ b hne, fun _ => id, fun _ _ _ => rfl⟩
  | arrive₂ hi =>
    have hne := h.not_full₂ (t := t) (by rw [hp]; exact Nat.lt_succ_self 2)
    exact ⟨fun _ => id, fun b => harr _ b hne, fun _ _ _ => rfl⟩
  | _ => exact ⟨fun _ => id, fun _ => id, fun _ _ _ => rfl⟩

/-- A barrier counts the threads that have come to it. -/
theorem counted {arr arr' : Fin L.blocks → Nat} {pc : L.Thread → DensePc} {n : Nat}
    (hc : ∀ b, arr b = (L.reached pc b n).card)
    (h : (arr' = arr ∧ (n ≤ p'.stage ↔ n ≤ (pc t).stage)) ∨
      (arr' = Function.update arr t.1 (arr t.1 + 1) ∧ (pc t).stage < n ∧ n ≤ p'.stage)) (b : Fin L.blocks) :
    arr' b = (L.reached (Function.update pc t p') b n).card := by
  rcases h with ⟨rfl, hsame⟩ | ⟨rfl, hlt, hle⟩
  · rw [reached_same hsame]
    exact hc b
  · by_cases hb : b = t.1
    · subst hb
      rw [Function.update_self, reached_insert hlt hle, hc]
    · rw [Function.update_of_ne hb, reached_other hb]
      exact hc b

theorem Inv.counts (h : L.Inv c) (hm : Moves L t c.mem (c.pc t) m' p') :
    (∀ b, m'.arrived₁ b = (L.reached (Function.update c.pc t p') b 1).card) ∧
      ∀ b, m'.arrived₂ b = (L.reached (Function.update c.pc t p') b 3).card := by
  generalize hp : c.pc t = p at hm
  cases hm with
  | arrive₁ hk =>
    exact ⟨counted h.count₁ (Or.inr ⟨rfl, by simp [hp, DensePc.stage], by simp [DensePc.stage]⟩),
      counted h.count₂ (Or.inl ⟨rfl, by simp [hp, DensePc.stage]⟩)⟩
  | arrive₂ hi =>
    exact ⟨counted h.count₁ (Or.inl ⟨rfl, by simp [hp, DensePc.stage]⟩),
      counted h.count₂ (Or.inr ⟨rfl, by simp [hp, DensePc.stage], by simp [DensePc.stage]⟩)⟩
  | _ =>
    exact ⟨counted h.count₁ (Or.inl ⟨rfl, by simp [hp, DensePc.stage]⟩),
      counted h.count₂ (Or.inl ⟨rfl, by simp [hp, DensePc.stage]⟩)⟩

/-- Rows of other threads are not touched. -/
theorem part_congr {pc : L.Thread → DensePc} {b : Fin L.blocks} {g a : Nat}
    (h : ∀ r ∈ L.rowsOf g, L.owner r = t → (p'.did r a = true ↔ (pc t).did r a = true)) :
    L.part (Function.update pc t p') b g a = L.part pc b g a := by
  refine Finset.filter_congr fun r hr => and_congr_right fun _ => ?_
  by_cases ho : L.owner r = t
  · rw [ho, Function.update_self]
    exact h r hr ho
  · rw [Function.update_of_ne ho]

/-- One more row is in the array of the block. -/
theorem part_insert {pc : L.Thread → DensePc} {g a i : Nat} (hi : i ∈ L.rowsOf g)
    (ho : L.owner i = t) (h : ∀ r ∈ L.rowsOf g, L.owner r = t →
      (p'.did r a = true ↔ (pc t).did r a = true ∨ r = i)) :
    L.part (Function.update pc t p') t.1 g a = insert i (L.part pc t.1 g a) := by
  ext r
  simp only [part, Finset.mem_filter, Finset.mem_insert]
  by_cases hr : L.owner r = t
  · rw [hr, Function.update_self]
    constructor
    · rintro ⟨hmem, hb, hdid⟩
      rcases (h r hmem hr).mp hdid with hdid | rfl
      · exact Or.inr ⟨hmem, hb, hdid⟩
      · exact Or.inl rfl
    · rintro (rfl | ⟨hmem, hb, hdid⟩)
      · exact ⟨hi, rfl, (h r hi hr).mpr (Or.inr rfl)⟩
      · exact ⟨hmem, hb, (h r hmem hr).mpr (Or.inl hdid)⟩
  · rw [Function.update_of_ne hr]
    constructor
    · exact Or.inr
    · rintro (rfl | h)
      · exact absurd ho hr
      · exact h

/-- Before the first barrier is open, no row is through. -/
theorem Inv.part_empty (h : L.Inv c) (hs : (c.pc t).stage < 1) (g a : Nat) :
    L.part c.pc t.1 g a = ∅ := by
  refine Finset.filter_eq_empty_iff.mpr fun r _ hdid => ?_
  obtain ⟨hb, hdid⟩ := hdid
  have hk := h.knows (L.owner r)
  have hfull : c.mem.arrived₁ (L.owner r).1 = L.dim := by
    generalize c.pc (L.owner r) = q at hk hdid
    cases q with
    | fill k => cases hdid
    | wait₁ => cases hdid
    | wait₂ => exact hk
    | _ => exact hk.1
  rw [hb] at hfull
  exact h.not_full₁ hs hfull

/-- What the filled cells of a block hold after a step. -/
theorem Inv.shared_step (h : L.Inv c) (hm : Moves L t c.mem (c.pc t) m' p') (b : Fin L.blocks) {k : Nat}
    (hk : k < L.cells) (hfull : (Function.update c.pc t p' (b, L.lane k)).filled k = true) :
    m'.sh b k = (L.kind (k % L.nagg)).folded (L.val (k % L.nagg))
      (L.part (Function.update c.pc t p') b (k / L.nagg) (k % L.nagg)) := by
  have ht := h.knows t
  have ha : k % L.nagg < L.nagg := Nat.mod_lt _ (nagg_pos hk)
  have hdid := fun r (hr : r ∈ L.rowsOf (k / L.nagg)) ho => hm.did ht hr ho ha
  -- a thread that has not filled the cell of its block has filled it with this step
  have hold : (c.pc (b, L.lane k)).filled k = true ∨
      (b, L.lane k) = t ∧ c.pc t = .fill k ∧ p' = .fill (k + L.dim) := by
    by_cases hbt : (b, L.lane k) = t
    · rw [hbt, Function.update_self] at hfull
      rw [hbt]
      exact ((hm.filled ht hk (congrArg Prod.snd hbt)).mp hfull).imp_right fun h => ⟨rfl, h⟩
    · rw [Function.update_of_ne hbt] at hfull
      exact Or.inl hfull
  generalize hp : c.pc t = p at hm hdid hold
  cases hm with
  | @fill k' hk' =>
    have hsame : L.part (Function.update c.pc t (.fill (k' + L.dim))) b (k / L.nagg) (k % L.nagg) =
        L.part c.pc b (k / L.nagg) (k % L.nagg) :=
      part_congr fun r _ _ => by simp [hp, DensePc.did]
    rw [hsame, setSh_sh]
    split
    · rename_i heq
      obtain ⟨rfl, rfl⟩ := heq
      have hs : (c.pc t).stage < 1 := by
        rw [hp]
        exact Nat.one_pos
      rw [h.part_empty hs]
      rfl
    · rename_i hne
      rcases hold with hold | ⟨hbt, heq, -⟩
      · exact h.shared b k hk hold
      · cases heq
        exact absurd ⟨congrArg Prod.fst hbt, rfl⟩ hne
  | @apply i g a v ha' =>
    obtain ⟨h₁, ho, hi, hg, -⟩ : L.Knows c.mem t (.agg i g a v) := hp ▸ ht
    have hold : (c.pc (b, L.lane k)).filled k = true := hold.resolve_right fun h => by cases h.2.1
    rw [setSh_sh]
    split
    · rename_i heq
      obtain ⟨rfl, rfl⟩ := heq
      rw [cell_div ha', cell_mod ha'] at *
      have hmem : i ∈ L.rowsOf g := mem_rowsOf.mpr ⟨hi, hg⟩
      have hnot : i ∉ L.part c.pc t.1 g a := by
        intro hin
        obtain ⟨-, -, hd⟩ := Finset.mem_filter.mp hin
        rw [ho, hp] at hd
        simp [DensePc.did] at hd
      rw [part_insert hmem ho, AggKind.folded_insert _ _ hnot]
      · have hcell := h.shared t.1 (L.cell g a) hk hold
        rw [cell_div ha', cell_mod ha'] at hcell
        rw [hcell]
      · intro r hr hro
        rw [hdid r hr hro, hp]
        refine or_congr_right ⟨?_, ?_⟩
        · rintro ⟨w, heq, -⟩
          cases heq
          rfl
        · rintro rfl
          exact ⟨v, rfl, rfl⟩
    · rename_i hne
      rw [h.shared b k hk hold]
      by_cases hb : b = t.1
      · rw [part_congr]
        intro r hr hro
        rw [hdid r hr hro, hp]
        refine or_iff_left ?_
        rintro ⟨w, heq, -⟩
        cases heq
        exact hne ⟨hb, (cell_div_mod k).symm⟩
      · -- the rows of the thread are in another block
        refine congrArg _ (Finset.filter_congr fun r _ => ?_)
        by_cases hro : L.owner r = t
        · simp [hro, Ne.symm hb]
        · rw [Function.update_of_ne hro]
  | retry ha' hv =>
    rw [part_congr fun r _ _ => by rw [hp]; rfl]
    exact h.shared b k hk (hold.resolve_right fun h => by cases h.2.1)
  | _ =>
    rw [part_congr fun r hr ho => (hdid r hr ho).trans (by simp [hp])]
    exact h.shared b k hk (hold.resolve_right fun h => by simp at h)

/-- Behind the second barrier, the rows of the block are through. -/
theorem Inv.part_full (h : L.Inv c) {b : Fin L.blocks} (hb : c.mem.arrived₂ b = L.dim) {g a : Nat} :
    L.part c.pc b g a = (L.rowsOf g).filter fun r => (L.owner r).1 = b := by
  refine Finset.filter_congr fun r _ => and_iff_left_of_imp ?_
  rintro rfl
  rw [h.count₂] at hb
  have hs : 3 ≤ (c.pc (L.owner r)).stage := stage_of_full hb (L.owner r).2
  generalize c.pc (L.owner r) = q at hs
  cases q <;> simp [DensePc.stage] at hs <;> rfl

/-- What the global cells hold after a step. -/
theorem Inv.total_step (h : L.Inv c) (hm : Moves L t c.mem (c.pc t) m' p') {k : Nat} (hk : k < L.cells) :
    m'.acc k = (L.kind (k % L.nagg)).folded (L.val (k % L.nagg))
      (L.kept (Function.update c.pc t p') k) := by
  have ht := h.knows t
  have hred := fun (hl : L.lane k = t.2) => hm.reduced ht hl
  have hsame : (L.lane k = t.2 → (p'.reduced k = true ↔ (c.pc t).reduced k = true)) →
      L.kept (Function.update c.pc t p') k = L.kept c.pc k := by
    intro hr
    refine Finset.filter_congr fun r _ => ?_
    by_cases hrt : ((L.owner r).1, L.lane k) = t
    · rw [hrt, Function.update_self]
      exact hr (congrArg Prod.snd hrt)
    · rw [Function.update_of_ne hrt]
  generalize hp : c.pc t = p at hm hred hsame
  cases hm with
  | @applyAll k' val v =>
    obtain ⟨-, h₂, hl', hk', rfl⟩ : L.Knows c.mem t (.reduce k' val v) := hp ▸ ht
    change Function.update c.mem.acc k' _ k = _
    by_cases hkk : k = k'
    · subst hkk
      have hfilled : (c.pc (t.1, L.lane k)).filled k = true := by
        rw [hl', hp]
        rfl
      have hunion : L.kept (Function.update c.pc t (.load (k + L.dim))) k =
          L.kept c.pc k ∪ L.part c.pc t.1 (k / L.nagg) (k % L.nagg) := by
        rw [h.part_full h₂, kept, kept, ← Finset.filter_or]
        refine Finset.filter_congr fun r _ => ?_
        by_cases hrt : (L.owner r).1 = t.1
        · have heq : ((L.owner r).1, L.lane k) = t := Prod.ext hrt hl'
          rw [heq, Function.update_self]
          simp [DensePc.reduced, dim_pos, hrt]
        · have hne : ((L.owner r).1, L.lane k) ≠ t := by
            rintro rfl
            exact hrt rfl
          rw [Function.update_of_ne hne]
          simp [hrt]
      have hdisj : Disjoint (L.kept c.pc k) (L.part c.pc t.1 (k / L.nagg) (k % L.nagg)) := by
        rw [h.part_full h₂]
        refine Finset.disjoint_filter.mpr fun r _ hr hrt => ?_
        have heq : ((L.owner r).1, L.lane k) = t := Prod.ext hrt hl'
        rw [heq, hp] at hr
        simp [DensePc.reduced] at hr
      rw [Function.update_self, hunion, AggKind.folded_union _ _ hdisj, h.total k hk,
        h.shared t.1 k hk hfilled]
    · rw [Function.update_of_ne hkk, hsame]
      · exact h.total k hk
      · intro hl
        rw [hred hl]
        refine or_iff_left ?_
        rintro ⟨_, _, heq, -⟩
        cases heq
        exact hkk rfl
  | _ =>
    rw [hsame fun hl => (hred hl).trans (by simp)]
    exact h.total k hk

/-- Which groups are marked after a step. -/
theorem Inv.seen_step (h : L.Inv c) (hm : Moves L t c.mem (c.pc t) m' p') (g : Nat) :
    m'.seen g = true ↔
      ∃ r ∈ L.rowsOf g, (Function.update c.pc t p' (L.owner r)).marked r = true := by
  have ht := h.knows t
  have hnew : (∃ r ∈ L.rowsOf g, (Function.update c.pc t p' (L.owner r)).marked r = true) ↔
      c.mem.seen g = true ∨ ∃ r ∈ L.rowsOf g, L.owner r = t ∧ c.pc t = .mark r g := by
    rw [h.seen, ← exists_or]
    refine exists_congr fun r => ?_
    rw [← and_or_left]
    refine and_congr_right fun hr => ?_
    by_cases ho : L.owner r = t
    · rw [ho, Function.update_self, hm.marked ht hr ho]
      simp
    · rw [Function.update_of_ne ho]
      simp [ho]
  rw [hnew]
  generalize hp : c.pc t = p at hm
  cases hm with
  | @mark i g' =>
    obtain ⟨-, ho, hi, hg⟩ : L.Knows c.mem t (.mark i g') := hp ▸ ht
    change Function.update c.mem.seen g' true g = true ↔ _
    by_cases hgg : g = g'
    · subst hgg
      rw [Function.update_self]
      exact iff_of_true rfl (Or.inr ⟨i, mem_rowsOf.mpr ⟨hi, hg⟩, ho, rfl⟩)
    · rw [Function.update_of_ne hgg]
      refine (or_iff_left ?_).symm
      rintro ⟨r, -, -, heq⟩
      cases heq
      exact hgg rfl
  | _ => simp [DenseMem.setSh]

/-- **A step keeps the invariant.** -/
theorem Inv.step (h : L.Inv c) (hm : Moves L t c.mem (c.pc t) m' p') :
    L.Inv ⟨m', Function.update c.pc t p'⟩ where
  knows u := by
    by_cases hu : u = t
    · subst hu
      change L.Knows m' u (Function.update c.pc u p' u)
      rw [Function.update_self]
      exact hm.knows (h.knows u)
    · change L.Knows m' u (Function.update c.pc t p' u)
      rw [Function.update_of_ne hu]
      exact (h.knows u).mono (h.keeps hm)
  count₁ := (h.counts hm).1
  count₂ := (h.counts hm).2
  shared b _ hk hf := h.shared_step hm b hk hf
  total _ hk := h.total_step hm hk
  seen g := h.seen_step hm g

theorem inv_start (sh : Fin L.blocks → Nat → Double) : L.Inv (L.start sh) where
  knows t := lane_first t.2
  count₁ b := by simp [reached, start, DensePc.stage]
  count₂ b := by simp [reached, start, DensePc.stage]
  shared b k hk hf := by
    have hlt : k < k % L.dim := of_decide_eq_true hf
    exact absurd (Nat.mod_le k L.dim) (Nat.not_le.mpr hlt)
  total k hk := by
    have hnone : L.kept (L.start sh).pc k = ∅ :=
      Finset.filter_eq_empty_iff.mpr fun r _ h => by cases h
    rw [hnone]
    rfl
  seen g := by
    refine iff_of_false (by simp [start]) ?_
    rintro ⟨r, -, hr⟩
    cases hr

/-- **Every schedule keeps the invariant.** -/
theorem inv_run (sh : Fin L.blocks → Nat → Double) (l : List L.Thread) : L.Inv (L.run sh l) :=
  Threads.run_invariant (fun _ _ _ _ h hs => h.step (moves_of_step hs)) (inv_start sh) l

/-! ## 6. No thread waits for ever -/

/-- A thread without a step waits at a barrier, or is through. -/
theorem place_of_stopped (h : L.step t m p = none) : p = .wait₁ ∧ m.arrived₁ t.1 ≠ L.dim ∨
    p = .wait₂ ∧ m.arrived₂ t.1 ≠ L.dim ∨ ∃ k, p = .load k ∧ L.cells ≤ k := by
  cases p with
  | fill k =>
    simp only [DenseLaunch.step] at h
    split at h <;> cases h
  | wait₁ =>
    simp only [DenseLaunch.step] at h
    split at h
    · cases h
    · rename_i hne
      exact Or.inl ⟨rfl, hne⟩
  | row i =>
    simp only [DenseLaunch.step] at h
    split at h
    · split at h <;> cases h
    · cases h
  | agg i g a v =>
    simp only [DenseLaunch.step] at h
    split at h
    · split at h <;> cases h
    · cases h
  | mark i g => cases h
  | wait₂ =>
    simp only [DenseLaunch.step] at h
    split at h
    · cases h
    · rename_i hne
      exact Or.inr (Or.inl ⟨rfl, hne⟩)
  | load k =>
    simp only [DenseLaunch.step] at h
    split at h
    · cases h
    · rename_i hk
      exact Or.inr (Or.inr ⟨k, rfl, Nat.not_lt.mp hk⟩)
  | reduce k val v =>
    simp only [DenseLaunch.step] at h
    split at h <;> cases h

/-- Every thread has come to the barrier. -/
theorem reached_all {pc : L.Thread → DensePc} {b : Fin L.blocks} {n : Nat}
    (h : ∀ u, n ≤ (pc (b, u)).stage) : (L.reached pc b n).card = L.dim := by
  have huniv : L.reached pc b n = Finset.univ :=
    Finset.filter_true_of_mem fun u _ => h u
  rw [huniv, Finset.card_univ, Fintype.card_fin]

/-- **The barriers open**: when no thread has a step, all are through. -/
theorem Inv.finished (h : L.Inv c) (hstop : Threads.Stopped L.step c) (t : L.Thread) :
    ∃ k, c.pc t = .load k ∧ L.cells ≤ k := by
  have hfirst : ∀ b, c.mem.arrived₁ b = L.dim := by
    intro b
    rw [h.count₁]
    refine reached_all fun u => ?_
    rcases place_of_stopped (hstop (b, u)) with ⟨hp, -⟩ | ⟨hp, -⟩ | ⟨k, hp, -⟩ <;>
      simp [hp, DensePc.stage]
  have hsecond : ∀ b, c.mem.arrived₂ b = L.dim := by
    intro b
    rw [h.count₂]
    refine reached_all fun u => ?_
    rcases place_of_stopped (hstop (b, u)) with ⟨-, hne⟩ | ⟨hp, -⟩ | ⟨k, hp, -⟩
    · exact absurd (hfirst b) hne
    · simp [hp, DensePc.stage]
    · simp [hp, DensePc.stage]
  rcases place_of_stopped (hstop t) with ⟨-, hne⟩ | ⟨-, hne⟩ | hk
  · exact absurd (hfirst t.1) hne
  · exact absurd (hsecond t.1) hne
  · exact hk

/-- The global cells at the end. -/
theorem Inv.acc_eq (h : L.Inv c) (hstop : Threads.Stopped L.step c) {g a : Nat} (hg : g < L.groups)
    (ha : a < L.nagg) :
    c.mem.acc (L.cell g a) = (L.kind a).folded (L.val a) (L.rowsOf g) := by
  have hcell := cell_lt hg ha
  have hall : L.kept c.pc (L.cell g a) = L.rowsOf g := by
    unfold kept
    rw [cell_div ha]
    refine Finset.filter_true_of_mem fun r _ => ?_
    obtain ⟨k, hk, hle⟩ := h.finished hstop ((L.owner r).1, L.lane (L.cell g a))
    rw [hk]
    exact decide_eq_true (Nat.lt_of_lt_of_le hcell hle)
  rw [h.total _ hcell, hall, cell_mod ha]

/-- The marks at the end. -/
theorem Inv.seen_iff (h : L.Inv c) (hstop : Threads.Stopped L.step c) (g : Nat) :
    c.mem.seen g = true ↔ (L.rowsOf g).Nonempty := by
  rw [h.seen]
  refine exists_congr fun r => and_iff_left ?_
  obtain ⟨k, hk, -⟩ := h.finished hstop (L.owner r)
  rw [hk]
  rfl

/-! ## 7. Progress -/

/-- The steps a row can take, retries apart. -/
def rowSteps (L : DenseLaunch) : Nat := 4 + 2 * L.nagg

/-- The steps that are left to a thread, retries apart: three for each cell it adds, and before the barriers
those of its rows and of the cells it fills. -/
def left (L : DenseLaunch) : DensePc → Nat
  | .fill k => (L.cells - k) + (L.n * L.rowSteps + 4 + L.cells * 3)
  | .wait₁ => L.n * L.rowSteps + 3 + L.cells * 3
  | .row i => (L.n - i) * L.rowSteps + 2 + L.cells * 3
  | .agg i _ a none => (L.n - i) * L.rowSteps - (1 + 2 * a) + 2 + L.cells * 3
  | .agg i _ a (some _) => (L.n - i) * L.rowSteps - (2 + 2 * a) + 2 + L.cells * 3
  | .mark i _ => (L.n - i) * L.rowSteps - (3 + 2 * L.nagg) + 2 + L.cells * 3
  | .wait₂ => 1 + L.cells * 3
  | .load k => (L.cells - k) * 3
  | .reduce k _ none => (L.cells - k) * 3 - 1
  | .reduce k _ (some _) => (L.cells - k) * 3 - 2

/-- The thread will find the cell changed. -/
def stale (L : DenseLaunch) (t : L.Thread) (m : DenseMem L.blocks) : DensePc → Bool
  | .agg _ g a (some v) => decide (v ≠ m.sh t.1 (L.cell g a))
  | .reduce k _ (some v) => decide (v ≠ m.acc k)
  | _ => false

/-- The steps of the rows from the next one on. -/
theorem rows_next {i : Nat} (hi : i < L.n) :
    (L.n - (i + L.threads)) * L.rowSteps + L.rowSteps ≤ (L.n - i) * L.rowSteps := by
  have hle : L.n - (i + L.threads) + 1 ≤ L.n - i := by
    have := L.pos
    omega
  have hmul := Nat.mul_le_mul_right L.rowSteps hle
  rwa [Nat.add_mul, Nat.one_mul] at hmul

/-- **A step gets its thread on, or reads again what another thread has changed.** -/
theorem Moves.left (h : Moves L t m p m' p') (ht : L.Knows m t p) : L.left p' < L.left p ∨
    m' = m ∧ L.left p' = L.left p ∧ L.stale t m p = true ∧ L.stale t m p' = false := by
  have hdim : 0 < L.dim := dim_pos
  have hR : L.rowSteps = 4 + 2 * L.nagg := rfl
  cases h with
  | fill hk =>
    simp only [DenseLaunch.left]
    omega
  | arrive₁ hk =>
    simp only [DenseLaunch.left]
    omega
  | go₁ h =>
    have hle : (L.n - (t.1 * L.dim + t.2)) * L.rowSteps ≤ L.n * L.rowSteps :=
      Nat.mul_le_mul_right _ (Nat.sub_le _ _)
    simp only [DenseLaunch.left]
    omega
  | pass hi hg =>
    have hnext := rows_next hi
    simp only [DenseLaunch.left]
    omega
  | begin hi hg =>
    have hnext := rows_next hi
    simp only [DenseLaunch.left]
    omega
  | arrive₂ hi =>
    simp only [DenseLaunch.left]
    omega
  | @retry i g a v ha hv =>
    have hnext := rows_next ht.2.2.1
    cases v with
    | none =>
      simp only [DenseLaunch.left]
      omega
    | some v => exact Or.inr ⟨rfl, rfl, by simpa [stale] using hv, by simp [stale]⟩
  | @apply i g a v ha =>
    have hnext := rows_next ht.2.2.1
    cases v <;> simp only [DenseLaunch.left] <;> omega
  | @close i g a v ha =>
    have hnext := rows_next ht.2.2.1
    have hle := ht.2.2.2.2
    cases v <;> simp only [DenseLaunch.left] <;> omega
  | mark =>
    have hnext := rows_next ht.2.2.1
    simp only [DenseLaunch.left]
    omega
  | go₂ h =>
    simp only [DenseLaunch.left]
    omega
  | load hk =>
    simp only [DenseLaunch.left]
    omega
  | @retryAll k val v hv =>
    have hk := ht.2.2.2.1
    cases v with
    | none =>
      simp only [DenseLaunch.left]
      omega
    | some v => exact Or.inr ⟨rfl, rfl, by simpa [stale] using hv, by simp [stale]⟩
  | @applyAll k val v =>
    have hk := ht.2.2.2.1
    cases v <;> simp only [DenseLaunch.left] <;> omega

/-- At the start all cells and rows are left. -/
theorem potential_start (sh : Fin L.blocks → Nat → Double) :
    Threads.potential L.left L.stale (L.start sh) ≤
      (L.threads + 1) * (L.threads * (L.cells * 4 + L.n * L.rowSteps + 4)) := by
  have hnone : Threads.stales L.stale (L.start sh) = ∅ :=
    Finset.filter_eq_empty_iff.mpr fun t _ h => by cases h
  have hcard : Fintype.card L.Thread = L.threads := by
    rw [Fintype.card_prod, Fintype.card_fin, Fintype.card_fin, L.threads_eq, Nat.mul_comm]
  have hsum : (∑ t, L.left ((L.start sh).pc t)) ≤
      ∑ _t : L.Thread, (L.cells * 4 + L.n * L.rowSteps + 4) := by
    refine Finset.sum_le_sum fun t _ => ?_
    change (L.cells - t.2) + (L.n * L.rowSteps + 4 + L.cells * 3) ≤ _
    omega
  unfold Threads.potential
  rw [hnone, Finset.card_empty, Nat.add_zero, hcard]
  refine Nat.mul_le_mul_left _ (hsum.trans ?_)
  simp [hcard]

end DenseLaunch

/-- **Any interleaving of all blocks.**  When no thread of `dense_kernel` has a step, then none is left waiting
at a barrier, the global cells hold the accumulators of every group, whatever was in the arrays of the
blocks, and `seen` marks the groups that have a row. -/
theorem dense_kernel_groups (L : DenseLaunch) (sh : Fin L.blocks → Nat → Double) (l : List L.Thread)
    (hstop : Threads.Stopped L.step (L.run sh l)) :
    (∀ t, (L.run sh l).pc t ≠ .wait₁ ∧ (L.run sh l).pc t ≠ .wait₂) ∧
      (∀ g < L.groups, ∀ a < L.nagg,
        (L.run sh l).mem.acc (L.cell g a) = (L.kind a).folded (L.val a) (L.rowsOf g)) ∧
      ∀ g, (L.run sh l).mem.seen g = true ↔ ∃ i < L.n, L.group i = some g := by
  have hinv := DenseLaunch.inv_run sh l
  refine ⟨fun t => ?_, fun g hg a ha => hinv.acc_eq hstop hg ha, fun g => ?_⟩
  · obtain ⟨k, hk, -⟩ := hinv.finished hstop t
    rw [hk]
    exact ⟨by simp, by simp⟩
  · rw [hinv.seen_iff hstop]
    exact exists_congr fun i => DenseLaunch.mem_rowsOf

/-- **No interleaving goes on for ever**: a schedule that gives every turn to a thread with a step is not longer
than this bound, so that with `dense_kernel_groups` every fair schedule comes to the end of the kernel. -/
theorem dense_kernel_stops (L : DenseLaunch) (sh : Fin L.blocks → Nat → Double) {l : List L.Thread}
    (hl : Run.Along (Threads.act L.step) (Threads.Ready L.step) (L.start sh) l) :
    l.length ≤ (L.threads + 1) *
      (L.threads * (L.groups * L.nagg * 4 + L.n * (4 + 2 * L.nagg) + 4)) := by
  refine le_trans (Threads.length_le_of_retry (P := L.Inv) (fun c t m p h hs => ?_)
    (DenseLaunch.inv_start sh) hl) (DenseLaunch.potential_start sh)
  have hm := DenseLaunch.moves_of_step hs
  exact ⟨h.step hm, hm.left (h.knows t)⟩

theorem small_five : 5 + 4 ≤ 2 ^ 31 := by decide

/-- Two blocks of two threads, five rows in two groups, one of which counts for none, and a maximum. -/
def fiveRows : DenseLaunch where
  threads := 4
  pos := pos_four
  n := 5
  small := small_five
  nagg := 1
  kind _ := .max
  eval i _ := [5, 4, 3, 8, 9].getD i 0
  blocks := 2
  dim := 2
  threads_eq := rfl
  groups := 2
  group i := (some ([1, 1, 2, 0, 1].getD i 2)).filter fun g => g < 2
  group_lt i g h := by simpa using (Option.mem_filter_iff.mp h).2

/-- All threads in turn, so that they meet at their barriers and at the cells. -/
def rounds (n : Nat) : List fiveRows.Thread :=
  (List.replicate n [((0 : Fin 2), (0 : Fin 2)), (1, 1), (0, 1), (1, 0)]).flatten

/-- **Both blocks have rows of one group**, and its maximum is that of all of them. -/
theorem dense_kernel_groups_five :
    (fiveRows.run (fun _ _ => ofRat 7) (rounds 20)).mem.acc (fiveRows.cell 1 0) = ofRat 9 := by
  have h := dense_kernel_groups fiveRows (fun _ _ => ofRat 7) (rounds 20) (by decide +kernel)
  rw [h.2.1 1 (by decide) 0 (by decide)]
  decide +kernel

theorem dense_kernel_stops_five : (rounds 4).length ≤ 5 * (4 * 42) :=
  dense_kernel_stops fiveRows (fun _ _ => ofRat 7) (l := rounds 4) (by decide +kernel)

end RyuDB.Kernels
