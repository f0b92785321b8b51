/-
# The layout of a plan

`layoutPlan` draws a plan from left to right: a node's column is its depth, a leaf takes the next row
from a counter that all leaves share, and an inner node stands between its first and its last child.

* `layoutPlan_apart`: the boxes do not meet, those of a column keep the vertical gap, all lie inside the
  reported size, and parents and children stand as described.

What carries it is that a subtree takes a range of the counter for itself (`place_spec`).  Coordinates
are rational here and doubles in the source.  A leaf stands at a whole number of rows, and each level
above it halves once more, so a centre is a fraction with a power of two below it and fits a double up to
about 43 nested levels.  Above that it is rounded.  The facts about order survive, since rounding does not
exchange two numbers: a parent stands between its children and the boxes in the reported size, and the
columns are whole numbers anyway.  A centre is then the midpoint as the code's own arithmetic computes it,
and a gap is kept up to that rounding.
-/
import Mathlib.Algebra.Order.Field.Rat
import Mathlib.Order.CompletePartialOrder
import Mathlib.Order.Interval.Set.Basic
import Mathlib.Tactic.Linarith
import Mathlib.Tactic.Ring
import Mathlib.Tactic.NormNum

namespace RyuDB

namespace PlanLayout

/-! ## 1. The layout -/

/-- `PlanNode`: what a node holds besides its children is not looked at. -/
inductive PlanNode (α : Type) where
  | mk (data : α) (children : List (PlanNode α))

/-- `LaidOutNode`. -/
inductive LaidOutNode (α : Type) where
  | mk (node : PlanNode α) (x y w h : ℚ) (children : List (LaidOutNode α))

variable {α : Type}

namespace PlanNode

def children : PlanNode α → List (PlanNode α)
  | mk _ cs => cs

end PlanNode

namespace LaidOutNode

def node : LaidOutNode α → PlanNode α
  | mk n _ _ _ _ _ => n

def x : LaidOutNode α → ℚ
  | mk _ x _ _ _ _ => x

def y : LaidOutNode α → ℚ
  | mk _ _ y _ _ _ => y

def w : LaidOutNode α → ℚ
  | mk _ _ _ w _ _ => w

def h : LaidOutNode α → ℚ
  | mk _ _ _ _ h _ => h

def children : LaidOutNode α → List (LaidOutNode α)
  | mk _ _ _ _ _ cs => cs

end LaidOutNode

/-- `BOX_W`. -/
def boxW : ℚ := 176

/-- `BOX_H`. -/
def boxH : ℚ := 66

/-- `H_GAP`. -/
def hGap : ℚ := 56

/-- `V_GAP`. -/
def vGap : ℚ := 28

/-- `leafCursor` and `maxDepth`. -/
structure Cursor where
  leafCursor : Nat
  maxDepth : Nat

mutual

/-- `place`. -/
def place : PlanNode α → Nat → Cursor → LaidOutNode α × Cursor
  | .mk data cs, depth, s =>
    let r := placeAll cs (depth + 1) { s with maxDepth := max s.maxDepth depth }
    let x := depth * (boxW + hGap)
    match r.1.head?, r.1.getLast? with
    | some first, some last => (.mk (.mk data cs) x ((first.y + last.y) / 2) boxW boxH r.1, r.2)
    | _, _ =>
      (.mk (.mk data cs) x (r.2.leafCursor * (boxH + vGap)) boxW boxH r.1,
        { r.2 with leafCursor := r.2.leafCursor + 1 })

/-- `node.children.map((c) => place(c, depth))`. -/
def placeAll : List (PlanNode α) → Nat → Cursor → List (LaidOutNode α) × Cursor
  | [], _, s => ([], s)
  | n :: ns, depth, s =>
    let r := place n depth s
    let rs := placeAll ns depth r.2
    (r.1 :: rs.1, rs.2)

end

/-- `Layout`. -/
structure Layout (α : Type) where
  root : LaidOutNode α
  width : ℚ
  height : ℚ

/-- `layoutPlan`. -/
def layoutPlan (root : PlanNode α) : Layout α :=
  let r := place root 0 ⟨0, 0⟩
  { root := r.1
    width := (r.2.maxDepth + 1) * boxW + r.2.maxDepth * hGap
    height := (max r.2.leafCursor 1 : Nat) * boxH + ((max r.2.leafCursor 1 : Nat) - 1) * vGap }

mutual

/-- `flatten`: the nodes, a parent before its children. -/
def flatten : LaidOutNode α → List (LaidOutNode α)
  | .mk n x y w h cs => .mk n x y w h cs :: flattenAll cs

def flattenAll : List (LaidOutNode α) → List (LaidOutNode α)
  | [] => []
  | t :: ts => flatten t ++ flattenAll ts

end

theorem mem_flatten_self (t : LaidOutNode α) : t ∈ flatten t := by
  cases t
  simp [flatten]

theorem mem_flattenAll {t : LaidOutNode α} {ts : List (LaidOutNode α)} (h : t ∈ ts) :
    t ∈ flattenAll ts := by
  induction ts with
  | nil => simp at h
  | cons u us ih =>
    rw [flattenAll, List.mem_append]
    rcases List.mem_cons.mp h with rfl | h
    · exact .inl (mem_flatten_self t)
    · exact .inr (ih h)

/-! ## 2. What a layout is to be -/

namespace LaidOutNode

/-- The points of a box, its edges included. -/
def area (b : LaidOutNode α) : Set (ℚ × ℚ) := Set.Icc (b.x, b.y) (b.x + b.w, b.y + b.h)

/-- Two boxes of one column keep the vertical gap. -/
def Spaced (b c : LaidOutNode α) : Prop :=
  b.x = c.x → b.y + b.h + vGap ≤ c.y ∨ c.y + c.h + vGap ≤ b.y

/-- A node stands one column left of its children and in the middle between the first and the last; the
children are those of the plan. -/
structure Tidy (b : LaidOutNode α) : Prop where
  nodes : b.children.map node = b.node.children
  columns : ∀ c ∈ b.children, c.x = b.x + (b.w + hGap)
  centred : ∀ first ∈ b.children.head?, ∀ last ∈ b.children.getLast?,
    b.y + b.h / 2 = ((first.y + first.h / 2) + (last.y + last.h / 2)) / 2

end LaidOutNode

open LaidOutNode

/-! ## 3. The range of a subtree -/

/-- The box of a node whose subtree takes the rows from `lo` to `hi` and the columns from `depth` to
`maxDepth`. -/
structure Placed (lo hi depth maxDepth : Nat) (b : LaidOutNode α) : Prop where
  top : lo * (boxH + vGap) ≤ b.y
  bottom : b.y + (boxH + vGap) ≤ hi * (boxH + vGap)
  column : ∃ k : Nat, depth ≤ k ∧ k ≤ maxDepth ∧ b.x = k * (boxW + hGap)
  wide : b.w = boxW
  high : b.h = boxH
  tidy : b.Tidy

theorem row_pos : (0 : ℚ) < boxH + vGap := by norm_num [boxH, vGap]

theorem rows_mono {m n : Nat} (h : m ≤ n) : (m : ℚ) * (boxH + vGap) ≤ n * (boxH + vGap) :=
  mul_le_mul_of_nonneg_right (by exact_mod_cast h) row_pos.le

theorem columns_inj {m n : Nat} (h : (m : ℚ) * (boxW + hGap) = n * (boxW + hGap)) : m = n := by
  have hpos : (boxW + hGap : ℚ) ≠ 0 := by norm_num [boxW, hGap]
  exact_mod_cast mul_right_cancel₀ hpos h

theorem Placed.mono {lo hi depth maxDepth lo' hi' depth' maxDepth' : Nat} {b : LaidOutNode α}
    (h : Placed lo hi depth maxDepth b) (hlo : lo' ≤ lo) (hhi : hi ≤ hi') (hd : depth' ≤ depth)
    (hm : maxDepth ≤ maxDepth') : Placed lo' hi' depth' maxDepth' b where
  top := (rows_mono hlo).trans h.top
  bottom := h.bottom.trans (rows_mono hhi)
  column := by
    obtain ⟨k, hk, hk', hx⟩ := h.column
    exact ⟨k, hd.trans hk, hk'.trans hm, hx⟩
  wide := h.wide
  high := h.high
  tidy := h.tidy

/-- Boxes of subtrees with ranges one behind the other. -/
theorem Placed.spaced {lo mid hi d m d' m' : Nat} {b c : LaidOutNode α} (hb : Placed lo mid d m b)
    (hc : Placed mid hi d' m' c) : Spaced b c := by
  intro _
  left
  have := hb.bottom
  have := hc.top
  rw [hb.high]
  linarith

/-- A box behind a column is not in it. -/
theorem Placed.behind {lo hi depth m : Nat} {b : LaidOutNode α} (h : Placed lo hi (depth + 1) m b) :
    b.x ≠ depth * (boxW + hGap) := by
  intro heq
  obtain ⟨k, hk, -, hx⟩ := h.column
  have := columns_inj (hx.symm.trans heq)
  omega

/-- A placed box takes at least a row. -/
theorem Placed.lt {lo hi depth m : Nat} {b : LaidOutNode α} (h : Placed lo hi depth m b) : lo < hi := by
  have htop := h.top
  have hbottom := h.bottom
  have hrow := row_pos
  by_contra hge
  have := rows_mono (Nat.le_of_not_lt hge)
  linarith

/-- The box of a leaf takes the row of the counter. -/
theorem placed_leaf {lo depth m : Nat} {data : α} {cs : List (PlanNode α)} (hd : depth ≤ m)
    (hnodes : ([] : List (LaidOutNode α)).map node = cs) :
    Placed lo (lo + 1) depth m
      (.mk (.mk data cs) (depth * (boxW + hGap)) (lo * (boxH + vGap)) boxW boxH []) where
  top := le_rfl
  bottom := by
    simp only [y]
    push_cast
    linarith
  column := ⟨depth, le_rfl, hd, rfl⟩
  wide := rfl
  high := rfl
  tidy := ⟨hnodes, by simp [children], by simp [children]⟩

/-- The box of a parent between its first and its last child. -/
theorem placed_parent {lo hi depth m : Nat} {data : α} {cs : List (PlanNode α)}
    {kids : List (LaidOutNode α)} {first last : LaidOutNode α} (hd : depth ≤ m)
    (hnodes : kids.map node = cs) (hx : ∀ c ∈ kids, c.x = ((depth + 1 : Nat) : ℚ) * (boxW + hGap))
    (hhead : kids.head? = some first) (hlast : kids.getLast? = some last)
    (hfirst : Placed lo hi (depth + 1) m first) (hend : Placed lo hi (depth + 1) m last) :
    Placed lo hi depth m (.mk (.mk data cs) (depth * (boxW + hGap)) ((first.y + last.y) / 2) boxW boxH
      kids) where
  top := by
    have := hfirst.top
    have := hend.top
    simp only [y] at *
    linarith
  bottom := by
    have := hfirst.bottom
    have := hend.bottom
    simp only [y] at *
    linarith
  column := ⟨depth, le_rfl, hd, rfl⟩
  wide := rfl
  high := rfl
  tidy := by
    refine ⟨hnodes, fun c hc => ?_, fun f hf l hl => ?_⟩
    · rw [hx c hc]
      simp only [x, w]
      push_cast
      ring
    · obtain rfl : first = f := Option.some.inj (hhead.symm.trans hf)
      obtain rfl : last = l := Option.some.inj (hlast.symm.trans hl)
      rw [hfirst.high, hend.high]
      simp only [y, h]
      ring

mutual

/-- **A subtree takes a range of the counter**: its boxes are placed in it and spaced. -/
theorem place_spec : ∀ (n : PlanNode α) (depth : Nat) (s : Cursor),
    s.leafCursor < (place n depth s).2.leafCursor ∧
    max s.maxDepth depth ≤ (place n depth s).2.maxDepth ∧
    (∀ b ∈ flatten (place n depth s).1,
      Placed s.leafCursor (place n depth s).2.leafCursor depth (place n depth s).2.maxDepth b) ∧
    (flatten (place n depth s).1).Pairwise Spaced ∧
    (place n depth s).1.x = depth * (boxW + hGap) ∧ (place n depth s).1.node = n
  | .mk data cs, depth, s => by
    obtain ⟨hle, hlt, hdepth, hplaced, hspaced, hx, hnodes⟩ :=
      placeAll_spec cs (depth + 1) { s with maxDepth := max s.maxDepth depth }
    rw [place]
    generalize placeAll cs (depth + 1) { s with maxDepth := max s.maxDepth depth } = r at *
    obtain ⟨kids, s'⟩ := r
    dsimp only at *
    have hd : depth ≤ s'.maxDepth := (le_max_right _ _).trans hdepth
    cases kids with
    | nil =>
      have hsame : s'.leafCursor = s.leafCursor := by
        by_contra hne
        exact absurd (hlt (Nat.lt_of_le_of_ne hle (Ne.symm hne))) (by simp)
      simp only [List.head?_nil, hsame]
      refine ⟨Nat.lt_succ_self _, hdepth, ?_, ?_, rfl, rfl⟩
      · intro b hb
        obtain rfl : b = _ := by simpa [flatten, flattenAll] using hb
        exact placed_leaf hd hnodes
      · simp [flatten, flattenAll]
    | cons first rest =>
      obtain ⟨last, hlast⟩ : ∃ last, (first :: rest).getLast? = some last :=
        ⟨_, List.getLast?_eq_some_getLast (List.cons_ne_nil _ _)⟩
      have hfirst := hplaced first (mem_flattenAll List.mem_cons_self)
      have hend := hplaced last (mem_flattenAll (List.mem_of_getLast? hlast))
      simp only [List.head?_cons, hlast]
      refine ⟨hfirst.lt, hdepth, ?_, ?_, rfl, rfl⟩
      · intro b hb
        rw [flatten] at hb
        rcases List.mem_cons.mp hb with rfl | hb
        · exact placed_parent hd hnodes hx rfl hlast hfirst hend
        · exact (hplaced b hb).mono le_rfl le_rfl (Nat.le_succ depth) le_rfl
      · rw [flatten]
        exact List.pairwise_cons.mpr
          ⟨fun b hb heq => absurd heq.symm (hplaced b hb).behind, hspaced⟩

/-- Subtrees side by side take ranges one behind the other. -/
theorem placeAll_spec : ∀ (ns : List (PlanNode α)) (depth : Nat) (s : Cursor),
    s.leafCursor ≤ (placeAll ns depth s).2.leafCursor ∧
    (s.leafCursor < (placeAll ns depth s).2.leafCursor → (placeAll ns depth s).1 ≠ []) ∧
    s.maxDepth ≤ (placeAll ns depth s).2.maxDepth ∧
    (∀ b ∈ flattenAll (placeAll ns depth s).1,
      Placed s.leafCursor (placeAll ns depth s).2.leafCursor depth (placeAll ns depth s).2.maxDepth b) ∧
    (flattenAll (placeAll ns depth s).1).Pairwise Spaced ∧
    (∀ t ∈ (placeAll ns depth s).1, t.x = depth * (boxW + hGap)) ∧
    (placeAll ns depth s).1.map node = ns
  | [], depth, s => by simp [placeAll, flattenAll]
  | n :: ns, depth, s => by
    obtain ⟨hlt, hdepth, hplaced, hspaced, hx, hnode⟩ := place_spec n depth s
    obtain ⟨hle', -, hdepth', hplaced', hspaced', hx', hnodes'⟩ :=
      placeAll_spec ns depth (place n depth s).2
    rw [placeAll]
    dsimp only
    refine ⟨by omega, fun _ => by simp, by omega, ?_, ?_, ?_, by simp [hnode, hnodes']⟩
    · intro b hb
      rw [flattenAll] at hb
      rcases List.mem_append.mp hb with hb | hb
      · exact (hplaced b hb).mono le_rfl hle' le_rfl hdepth'
      · exact (hplaced' b hb).mono hlt.le le_rfl le_rfl le_rfl
    · rw [flattenAll]
      exact List.pairwise_append.mpr ⟨hspaced, hspaced', fun b hb c hc =>
        (hplaced b hb).spaced (hplaced' c hc)⟩
    · intro t ht
      rcases List.mem_cons.mp ht with rfl | ht
      · exact hx
      · exact hx' t ht

end

/-! ## 4. The plan -/

/-- Boxes of different columns do not meet, nor do spaced boxes of one column. -/
theorem disjoint_of_spaced {lo hi d m lo' hi' d' m' : Nat} {b c : LaidOutNode α}
    (hb : Placed lo hi d m b) (hc : Placed lo' hi' d' m' c) (hs : Spaced b c) :
    Disjoint b.area c.area := by
  rw [Set.disjoint_left]
  rintro ⟨px, py⟩ ⟨⟨hbx, hby⟩, ⟨hbx', hby'⟩⟩ ⟨⟨hcx, hcy⟩, ⟨hcx', hcy'⟩⟩
  dsimp only at *
  have hgap : (0 : ℚ) < vGap := by norm_num [vGap]
  by_cases heq : b.x = c.x
  · rcases hs heq with h | h <;> linarith
  · obtain ⟨k, -, -, hk⟩ := hb.column
    obtain ⟨l, -, -, hl⟩ := hc.column
    have hne : k ≠ l := fun h => heq (by rw [hk, hl, h])
    rw [hb.wide, hk] at hbx'
    rw [hc.wide, hl] at hcx'
    rw [hk] at hbx
    rw [hl] at hcx
    simp only [boxW, hGap] at *
    rcases Nat.lt_or_gt_of_ne hne with h | h
    · have : (k : ℚ) + 1 ≤ l := by exact_mod_cast h
      linarith
    · have : (l : ℚ) + 1 ≤ k := by exact_mod_cast h
      linarith

/-- **The plan layout never overlaps.**  For every plan, the boxes are pairwise disjoint, those of one
column are at least the vertical gap apart, all lie inside the reported width and height, and every node
is laid out with its own children, which stand one column to its right and around its middle. -/
theorem layoutPlan_apart (root : PlanNode α) :
    (layoutPlan root).root.node = root ∧
    (flatten (layoutPlan root).root).Pairwise (fun b c => Disjoint b.area c.area ∧ Spaced b c) ∧
    ∀ b ∈ flatten (layoutPlan root).root,
      (0 ≤ b.x ∧ b.x + b.w ≤ (layoutPlan root).width) ∧
      (0 ≤ b.y ∧ b.y + b.h ≤ (layoutPlan root).height) ∧ b.Tidy := by
  obtain ⟨hlt, -, hplaced, hspaced, -, hnode⟩ := place_spec root 0 ⟨0, 0⟩
  unfold layoutPlan
  dsimp only at *
  refine ⟨hnode, hspaced.imp_of_mem fun hb hc hs =>
    ⟨disjoint_of_spaced (hplaced _ hb) (hplaced _ hc) hs, hs⟩, fun b hb => ?_⟩
  have hp := hplaced b hb
  obtain ⟨k, -, hk, hx⟩ := hp.column
  have hk' : (k : ℚ) ≤ (place root 0 ⟨0, 0⟩).2.maxDepth := by exact_mod_cast hk
  have hk0 : (0 : ℚ) ≤ k := Nat.cast_nonneg k
  have htop := hp.top
  have hbottom := hp.bottom
  rw [max_eq_left hlt]
  rw [hp.wide, hp.high, hx]
  simp only [boxW, boxH, hGap, vGap, Nat.cast_zero, zero_mul] at *
  exact ⟨⟨by linarith, by linarith⟩, ⟨htop, by linarith⟩, hp.tidy⟩

end PlanLayout

end RyuDB
