/-
# The SQL diff

`diffLines` compares two texts line by line: a table with the length of a longest common subsequence
for every pair of suffixes, filled from the end, and a walk through it that keeps equal lines and
otherwise leaves the side whose table entry is greater.

* `diffLines_faithful`: the diff holds the lines of both texts, numbered from 1, and keeps as many lines
  as any common subsequence has.

`Subsequence.lcs` is the length of a longest common subsequence of two lists, by the recursion on
their heads, and `Subsequence.isGreatest_lcs` says it without the recursion; the table of the source
is compared with it.

`splitLines` drops the empty line behind a last line feed; `LinesOf` says which lines a text has.
-/
import Mathlib.Data.List.Range
import Mathlib.Order.Bounds.Basic
import RyuDB.JsText

/-! ## 1. Longest common subsequences -/

namespace Subsequence

variable {α : Type*} [DecidableEq α]

/-- The length of a longest common subsequence. -/
def lcs : List α → List α → Nat
  | [], _ => 0
  | _ :: _, [] => 0
  | x :: xs, y :: ys =>
    if x = y then lcs xs ys + 1 else max (lcs xs (y :: ys)) (lcs (x :: xs) ys)
termination_by xs ys => xs.length + ys.length

@[simp] theorem lcs_nil_left (ys : List α) : lcs [] ys = 0 := by
  rw [lcs]

@[simp] theorem lcs_nil_right (xs : List α) : lcs xs [] = 0 := by
  cases xs <;> rw [lcs]

theorem lcs_cons_same (x : α) (xs ys : List α) : lcs (x :: xs) (x :: ys) = lcs xs ys + 1 := by
  rw [lcs, if_pos rfl]

theorem lcs_cons_ne {x y : α} (h : x ≠ y) (xs ys : List α) :
    lcs (x :: xs) (y :: ys) = max (lcs xs (y :: ys)) (lcs (x :: xs) ys) := by
  rw [lcs, if_neg h]

/-- No common subsequence is longer. -/
theorem length_le_lcs {l xs ys : List α} (hx : l.Sublist xs) (hy : l.Sublist ys) :
    l.length ≤ lcs xs ys := by
  induction xs, ys using lcs.induct generalizing l with
  | case1 ys =>
    rw [List.sublist_nil.mp hx]
    exact Nat.zero_le _
  | case2 x xs =>
    rw [List.sublist_nil.mp hy]
    exact Nat.zero_le _
  | case3 xs y ys ih =>
    rw [lcs_cons_same]
    have htail := ih hx.tail hy.tail
    rw [List.length_tail] at htail
    omega
  | case4 x xs y ys hne ihx ihy =>
    rw [lcs_cons_ne hne]
    rcases List.sublist_cons_iff.mp hx with hx' | ⟨r, rfl, -⟩
    · exact (ihx hx' hy).trans (Nat.le_max_left _ _)
    · -- `l` starts with `x`, which is not `y`
      rcases List.sublist_cons_iff.mp hy with hy' | ⟨r', heq, -⟩
      · exact (ihy hx hy').trans (Nat.le_max_right _ _)
      · exact absurd (List.cons.inj heq).1 hne

/-- A common subsequence as long as `lcs` says is a longest one. -/
theorem isGreatest_lcs {l xs ys : List α} (hx : l.Sublist xs) (hy : l.Sublist ys)
    (hl : l.length = lcs xs ys) :
    IsGreatest {k | ∃ l' : List α, l'.Sublist xs ∧ l'.Sublist ys ∧ l'.length = k} (lcs xs ys) := by
  refine ⟨⟨l, hx, hy, hl⟩, ?_⟩
  rintro k ⟨l', hx', hy', rfl⟩
  exact length_le_lcs hx' hy'

end Subsequence

namespace RyuDB

namespace Diff

open Subsequence Js

/-! ## 2. Lines -/

/-- `splitLines`. -/
def splitLines (s : List Char) : List (List Char) :=
  if s = [] then []
  else
    let lines := splitLineBreaks s
    if lines.getLast? = some [] ∧ s.getLast? = some '\n' then lines.dropLast else lines

/-- The lines of a text: each is ended by a line feed, with or without a carriage return before it, and
the last one may be ended by nothing. -/
inductive LinesOf : List Char → List (List Char) → Prop where
  | nil : LinesOf [] []
  | last {line : List Char} (hne : line ≠ []) (h : '\n' ∉ line) : LinesOf line [line]
  | lf {line rest : List Char} {lines : List (List Char)} (h : '\n' ∉ line)
      (hcr : line.getLast? ≠ some '\r') (hrest : LinesOf rest lines) :
      LinesOf (line ++ '\n' :: rest) (line :: lines)
  | crlf {line rest : List Char} {lines : List (List Char)} (h : '\n' ∉ line)
      (hrest : LinesOf rest lines) : LinesOf (line ++ '\r' :: '\n' :: rest) (line :: lines)

/-- The lines behind a line that is ended. -/
theorem splitLines_of_split {s rest line : List Char} (hs : s ≠ [])
    (hsplit : splitLineBreaks s = line :: splitLineBreaks rest)
    (hlast : s.getLast? = some '\n' ↔ rest = [] ∨ rest.getLast? = some '\n') :
    splitLines s = line :: splitLines rest := by
  unfold splitLines
  rw [if_neg hs]
  dsimp only
  rw [hsplit]
  by_cases hr : rest = []
  · subst hr
    rw [if_pos rfl, if_pos ⟨by simp [splitLineBreaks], hlast.mpr (.inl rfl)⟩]
    simp [splitLineBreaks]
  · obtain ⟨l, ls, hls⟩ := List.exists_cons_of_ne_nil (splitLineBreaks_ne_nil rest)
    rw [if_neg hr, hls, List.getLast?_cons_cons, List.dropLast_cons_cons]
    have hiff : s.getLast? = some '\n' ↔ rest.getLast? = some '\n' := by simp [hlast, hr]
    simp only [hiff]
    split_ifs <;> rfl

theorem getLast?_append_cons (l rest : List Char) (c : Char) :
    (l ++ c :: rest).getLast? = (c :: rest).getLast? := by
  rw [List.getLast?_append, List.getLast?_eq_some_getLast (List.cons_ne_nil c rest), Option.some_or]

theorem getLast?_newline_cons (rest : List Char) :
    ('\n' :: rest).getLast? = some '\n' ↔ rest = [] ∨ rest.getLast? = some '\n' := by
  cases rest with
  | nil => simp
  | cons c cs => simp [List.getLast?_cons_cons]

theorem splitLines_lf {line : List Char} (h : '\n' ∉ line) (hcr : line.getLast? ≠ some '\r')
    (rest : List Char) : splitLines (line ++ '\n' :: rest) = line :: splitLines rest :=
  splitLines_of_split (by simp) (splitLineBreaks_lf h hcr rest)
    (by rw [getLast?_append_cons, getLast?_newline_cons])

theorem splitLines_crlf {line : List Char} (h : '\n' ∉ line) (rest : List Char) :
    splitLines (line ++ '\r' :: '\n' :: rest) = line :: splitLines rest :=
  splitLines_of_split (by simp) (splitLineBreaks_crlf h rest)
    (by rw [getLast?_append_cons, List.getLast?_cons_cons, getLast?_newline_cons])

theorem splitLines_last {line : List Char} (hne : line ≠ []) (h : '\n' ∉ line) :
    splitLines line = [line] := by
  have hlast : line.getLast? ≠ some '\n' := fun hl => h (List.mem_of_getLast? hl)
  simp [splitLines, hne, splitLineBreaks_line h, hlast]

/-- **`splitLines` gives the lines of the text.** -/
theorem linesOf_iff {s : List Char} {lines : List (List Char)} :
    LinesOf s lines ↔ lines = splitLines s := by
  constructor
  · intro h
    induction h with
    | nil => rfl
    | last hne h => rw [splitLines_last hne h]
    | lf h hcr hrest ih => rw [splitLines_lf h hcr, ih]
    | crlf h hrest ih => rw [splitLines_crlf h, ih]
  · rintro rfl
    induction hn : s.length using Nat.strong_induction_on generalizing s with
    | h n ih =>
      rcases line_cases s with hno | ⟨line, rest, hline, ⟨hcr, rfl⟩ | rfl⟩
      · by_cases hs : s = []
        · subst hs
          exact .nil
        · rw [splitLines_last hs hno]
          exact .last hs hno
      · rw [splitLines_lf hline hcr]
        exact .lf hline hcr (ih rest.length (by simp at hn; omega) rfl)
      · rw [splitLines_crlf hline]
        exact .crlf hline (ih rest.length (by simp at hn; omega) rfl)

/-! ## 3. The table -/

section Table

variable {α : Type} [DecidableEq α]

/-- `dp[i]` from `dp[i + 1]`, for the line `x` of the left side. -/
def lcsRow (x : α) : List α → List Nat → List Nat
  | y :: ys, d :: ds =>
    let row := lcsRow x ys ds
    (if x = y then ds.headD 0 + 1 else max d (row.headD 0)) :: row
  | _, _ => [0]

/-- `lcsTable`. -/
def lcsTable : List α → List α → List (List Nat)
  | [], b => [List.replicate (b.length + 1) 0]
  | x :: xs, b => lcsRow x b ((lcsTable xs b).headD []) :: lcsTable xs b

/-- `dp[i][j]`. -/
def entry (dp : List (List Nat)) (i j : Nat) : Nat := (dp.getD i []).getD j 0

theorem length_lcsRow (x : α) (ys : List α) (below : List Nat) (h : below.length = ys.length + 1) :
    (lcsRow x ys below).length = ys.length + 1 := by
  induction ys generalizing below with
  | nil => simp [lcsRow]
  | cons y ys ih =>
    obtain ⟨d, ds, rfl⟩ := List.exists_cons_of_length_eq_add_one h
    simp [lcsRow, ih ds (by simpa using h)]

/-- A row over the row of the shorter left side. -/
theorem lcsRow_getD {x : α} {xs ys : List α} {below : List Nat} (hlen : below.length = ys.length + 1)
    (h : ∀ j, below.getD j 0 = lcs xs (ys.drop j)) (j : Nat) :
    (lcsRow x ys below).getD j 0 = lcs (x :: xs) (ys.drop j) := by
  induction ys generalizing below j with
  | nil => cases j <;> simp [lcsRow]
  | cons y ys ih =>
    obtain ⟨d, ds, rfl⟩ := List.exists_cons_of_length_eq_add_one hlen
    have hds : ∀ j, ds.getD j 0 = lcs xs (ys.drop j) := fun j => by simpa using h (j + 1)
    have hrow := fun j => @ih ds (by simpa using hlen) hds j
    cases j with
    | succ j => simpa [lcsRow] using hrow j
    | zero =>
      have hd : d = lcs xs (y :: ys) := by simpa using h 0
      have hhead : ds.headD 0 = lcs xs ys := by simpa [List.head?_eq_getElem?] using hds 0
      have hnext : (lcsRow x ys ds).headD 0 = lcs (x :: xs) ys := by
        simpa [List.head?_eq_getElem?] using hrow 0
      by_cases hxy : x = y
      · subst hxy
        simp only [lcsRow, if_pos, List.getD_cons_zero, List.drop_zero, lcs_cons_same, hhead]
      · simp only [lcsRow, if_neg hxy, List.getD_cons_zero, List.drop_zero, lcs_cons_ne hxy, hnext, hd]

/-- **The table holds the lengths** for every pair of suffixes. -/
theorem entry_lcsTable (xs ys : List α) (i j : Nat) :
    entry (lcsTable xs ys) i j = lcs (xs.drop i) (ys.drop j) ∧
      ((lcsTable xs ys).headD []).length = ys.length + 1 := by
  unfold entry
  induction xs generalizing i j with
  | nil =>
    refine ⟨?_, by simp [lcsTable]⟩
    cases i with
    | zero =>
      rw [lcsTable, List.getD_cons_zero, List.drop_zero, lcs_nil_left, List.getD_eq_getElem?_getD,
        List.getElem?_replicate]
      split <;> rfl
    | succ i => simp [lcsTable]
  | cons x xs ih =>
    have hlen := (ih 0 0).2
    refine ⟨?_, by simpa [lcsTable] using length_lcsRow x ys _ hlen⟩
    cases i with
    | succ i => simpa [lcsTable] using (ih i j).1
    | zero =>
      have hbelow : ∀ j, ((lcsTable xs ys).headD []).getD j 0 = lcs xs (ys.drop j) := fun j => by
        have := (ih 0 j).1
        cases htable : lcsTable xs ys <;> simp_all
      simpa [lcsTable] using lcsRow_getD hlen hbelow j

end Table

/-! ## 4. The entries of a diff -/

inductive DiffOp where
  | eq
  | add
  | del
  deriving DecidableEq, Repr

/-- `DiffLine`. -/
structure DiffLine (α : Type) where
  op : DiffOp
  aLine : Option Nat
  bLine : Option Nat
  text : α
  deriving DecidableEq, Repr

section Entries

variable {α : Type}

/-- The lines left on the left side. -/
def dels : List α → Nat → List (DiffLine α)
  | [], _ => []
  | x :: xs, aLine => ⟨.del, some (aLine + 1), none, x⟩ :: dels xs (aLine + 1)

/-- The lines left on the right side. -/
def adds : List α → Nat → List (DiffLine α)
  | [], _ => []
  | y :: ys, bLine => ⟨.add, none, some (bLine + 1), y⟩ :: adds ys (bLine + 1)

/-- The entries of the left side, with number and text. -/
def leftSide (d : List (DiffLine α)) : List (Option Nat × α) :=
  (d.filter fun e => e.op ≠ .add).map fun e => (e.aLine, e.text)

/-- The entries of the right side, with number and text. -/
def rightSide (d : List (DiffLine α)) : List (Option Nat × α) :=
  (d.filter fun e => e.op ≠ .del).map fun e => (e.bLine, e.text)

/-- The entries on both sides. -/
def kept (d : List (DiffLine α)) : List α := (d.filter fun e => e.op = .eq).map DiffLine.text

/-- Lines numbered from `k + 1` on. -/
def numberFrom (k : Nat) (xs : List α) : List (Option Nat × α) :=
  (xs.zipIdx (k + 1)).map fun p => (some p.2, p.1)

theorem numberFrom_cons (k : Nat) (x : α) (xs : List α) :
    numberFrom k (x :: xs) = (some (k + 1), x) :: numberFrom (k + 1) xs := by
  simp [numberFrom]

theorem leftSide_cons (e : DiffLine α) (d : List (DiffLine α)) :
    leftSide (e :: d) = if e.op = .add then leftSide d else (e.aLine, e.text) :: leftSide d := by
  by_cases h : e.op = .add <;> simp [leftSide, h]

theorem rightSide_cons (e : DiffLine α) (d : List (DiffLine α)) :
    rightSide (e :: d) = if e.op = .del then rightSide d else (e.bLine, e.text) :: rightSide d := by
  by_cases h : e.op = .del <;> simp [rightSide, h]

theorem kept_cons (e : DiffLine α) (d : List (DiffLine α)) :
    kept (e :: d) = if e.op = .eq then e.text :: kept d else kept d := by
  by_cases h : e.op = .eq <;> simp [kept, h]

theorem leftSide_append (d e : List (DiffLine α)) : leftSide (d ++ e) = leftSide d ++ leftSide e := by
  simp [leftSide]

theorem rightSide_append (d e : List (DiffLine α)) :
    rightSide (d ++ e) = rightSide d ++ rightSide e := by
  simp [rightSide]

theorem kept_append (d e : List (DiffLine α)) : kept (d ++ e) = kept d ++ kept e := by
  simp [kept]

/-- What is left over belongs to one side. -/
theorem dels_sides (xs : List α) (k : Nat) :
    leftSide (dels xs k) = numberFrom k xs ∧ rightSide (dels xs k) = [] ∧ kept (dels xs k) = [] := by
  induction xs generalizing k with
  | nil => simp [dels, leftSide, rightSide, kept, numberFrom]
  | cons x xs ih =>
    obtain ⟨hl, hr, hk⟩ := ih (k + 1)
    simp [dels, leftSide_cons, rightSide_cons, kept_cons, numberFrom_cons, hl, hr, hk]

theorem adds_sides (ys : List α) (k : Nat) :
    leftSide (adds ys k) = [] ∧ rightSide (adds ys k) = numberFrom k ys ∧ kept (adds ys k) = [] := by
  induction ys generalizing k with
  | nil => simp [adds, leftSide, rightSide, kept, numberFrom]
  | cons y ys ih =>
    obtain ⟨hl, hr, hk⟩ := ih (k + 1)
    simp [adds, leftSide_cons, rightSide_cons, kept_cons, numberFrom_cons, hl, hr, hk]

end Entries

/-! ## 5. The walk -/

section Walk

variable {α : Type} [DecidableEq α]

/-- The loops of `diffLines` from the state `i`, `j`, `aLine`, `bLine`. -/
def walk (A B : List α) (dp : List (List Nat)) (i j aLine bLine : Nat) : List (DiffLine α) :=
  if h : i < A.length ∧ j < B.length then
    if A[i] = B[j] then
      ⟨.eq, some (aLine + 1), some (bLine + 1), A[i]⟩ ::
        walk A B dp (i + 1) (j + 1) (aLine + 1) (bLine + 1)
    else if entry dp (i + 1) j ≥ entry dp i (j + 1) then
      ⟨.del, some (aLine + 1), none, A[i]⟩ :: walk A B dp (i + 1) j (aLine + 1) bLine
    else
      ⟨.add, none, some (bLine + 1), B[j]⟩ :: walk A B dp i (j + 1) aLine (bLine + 1)
  else dels (A.drop i) aLine ++ adds (B.drop j) bLine
termination_by A.length - i + (B.length - j)

/-- The walk from `i`, `j` holds the lines from there on. -/
theorem walk_sides (A B : List α) (dp : List (List Nat)) (i j aLine bLine : Nat) :
    leftSide (walk A B dp i j aLine bLine) = numberFrom aLine (A.drop i) ∧
      rightSide (walk A B dp i j aLine bLine) = numberFrom bLine (B.drop j) := by
  induction i, j, aLine, bLine using walk.induct A B dp with
  | case1 i j aLine bLine h heq ih =>
    rw [walk, dif_pos h, if_pos heq, List.drop_eq_getElem_cons h.1, List.drop_eq_getElem_cons h.2,
      numberFrom_cons, numberFrom_cons, ← ih.1, ← ih.2]
    exact ⟨leftSide_cons _ _, by rw [rightSide_cons, if_neg (by simp), heq]⟩
  | case2 i j aLine bLine h hne hge ih =>
    rw [walk, dif_pos h, if_neg hne, if_pos hge, List.drop_eq_getElem_cons h.1, numberFrom_cons,
      ← ih.1, ← ih.2]
    exact ⟨leftSide_cons _ _, rightSide_cons _ _⟩
  | case3 i j aLine bLine h hne hlt ih =>
    rw [walk, dif_pos h, if_neg hne, if_neg hlt, List.drop_eq_getElem_cons h.2, numberFrom_cons,
      ← ih.1, ← ih.2]
    exact ⟨leftSide_cons _ _, rightSide_cons _ _⟩
  | case4 i j aLine bLine h =>
    rw [walk, dif_neg h, leftSide_append, rightSide_append, (dels_sides _ _).1, (dels_sides _ _).2.1,
      (adds_sides _ _).1, (adds_sides _ _).2.1, List.append_nil, List.nil_append]
    exact ⟨rfl, rfl⟩

/-- **The walk keeps as many lines as the table promises**: leaving the side with the greater entry
loses none, and neither does keeping an equal line. -/
theorem length_kept_walk (A B : List α) (i j aLine bLine : Nat) :
    (kept (walk A B (lcsTable A B) i j aLine bLine)).length = lcs (A.drop i) (B.drop j) := by
  induction i, j, aLine, bLine using walk.induct A B (lcsTable A B) with
  | case1 i j aLine bLine h heq ih =>
    rw [walk, dif_pos h, if_pos heq, kept_cons, if_pos rfl, List.length_cons, ih,
      List.drop_eq_getElem_cons h.1, List.drop_eq_getElem_cons h.2, ← heq, lcs_cons_same]
  | case2 i j aLine bLine h hne hge ih =>
    have hlcs : lcs (A.drop i) (B.drop j) =
        max (lcs (A.drop (i + 1)) (B.drop j)) (lcs (A.drop i) (B.drop (j + 1))) := by
      rw [List.drop_eq_getElem_cons h.1, List.drop_eq_getElem_cons h.2, lcs_cons_ne hne]
    rw [walk, dif_pos h, if_neg hne, if_pos hge, kept_cons, if_neg (by simp), ih, hlcs]
    rw [(entry_lcsTable A B _ _).1, (entry_lcsTable A B _ _).1] at hge
    exact (max_eq_left hge).symm
  | case3 i j aLine bLine h hne hlt ih =>
    have hlcs : lcs (A.drop i) (B.drop j) =
        max (lcs (A.drop (i + 1)) (B.drop j)) (lcs (A.drop i) (B.drop (j + 1))) := by
      rw [List.drop_eq_getElem_cons h.1, List.drop_eq_getElem_cons h.2, lcs_cons_ne hne]
    rw [walk, dif_pos h, if_neg hne, if_neg hlt, kept_cons, if_neg (by simp), ih, hlcs]
    rw [(entry_lcsTable A B _ _).1, (entry_lcsTable A B _ _).1] at hlt
    exact (max_eq_right (by omega)).symm
  | case4 i j aLine bLine h =>
    rw [walk, dif_neg h, kept_append, (dels_sides _ _).2.2, (adds_sides _ _).2.2]
    rcases Nat.lt_or_ge i A.length with hi | hi
    · rw [List.drop_eq_nil_of_le (Nat.le_of_not_lt fun hj => h ⟨hi, hj⟩)]
      simp
    · rw [List.drop_eq_nil_of_le hi]
      simp

/-- What is kept is on both sides. -/
theorem kept_sublist (A B : List α) (dp : List (List Nat)) (i j aLine bLine : Nat) :
    (kept (walk A B dp i j aLine bLine)).Sublist (A.drop i) ∧
      (kept (walk A B dp i j aLine bLine)).Sublist (B.drop j) := by
  induction i, j, aLine, bLine using walk.induct A B dp with
  | case1 i j aLine bLine h heq ih =>
    rw [walk, dif_pos h, if_pos heq, kept_cons, if_pos rfl, List.drop_eq_getElem_cons h.1,
      List.drop_eq_getElem_cons h.2, ← heq]
    exact ⟨ih.1.cons_cons _, ih.2.cons_cons _⟩
  | case2 i j aLine bLine h hne hge ih =>
    rw [walk, dif_pos h, if_neg hne, if_pos hge, kept_cons, if_neg (by simp),
      List.drop_eq_getElem_cons h.1]
    exact ⟨ih.1.cons _, ih.2⟩
  | case3 i j aLine bLine h hne hlt ih =>
    rw [walk, dif_pos h, if_neg hne, if_neg hlt, kept_cons, if_neg (by simp),
      List.drop_eq_getElem_cons h.2]
    exact ⟨ih.1, ih.2.cons _⟩
  | case4 i j aLine bLine h =>
    rw [walk, dif_neg h, kept_append, (dels_sides _ _).2.2, (adds_sides _ _).2.2]
    simp

end Walk

/-! ## 6. The diff -/

/-- `diffLines`. -/
def diffLines (a b : List Char) : List (DiffLine (List Char)) :=
  walk (splitLines a) (splitLines b) (lcsTable (splitLines a) (splitLines b)) 0 0 0 0

/-- **The SQL diff.**  For every two texts, the entries that are not added are the lines of the left
text, the ones that are not deleted those of the right text, in order and numbered from 1, and no common
subsequence of the lines is longer than the list of the equal entries. -/
theorem diffLines_faithful (a b : List Char) :
    LinesOf a (splitLines a) ∧ LinesOf b (splitLines b) ∧
      leftSide (diffLines a b) = numberFrom 0 (splitLines a) ∧
      rightSide (diffLines a b) = numberFrom 0 (splitLines b) ∧
      IsGreatest {k | ∃ l : List (List Char),
          l.Sublist (splitLines a) ∧ l.Sublist (splitLines b) ∧ l.length = k}
        ((diffLines a b).countP fun e => e.op = .eq) := by
  have hsides := walk_sides (splitLines a) (splitLines b) (lcsTable (splitLines a) (splitLines b)) 0 0 0 0
  have hsub := kept_sublist (splitLines a) (splitLines b) (lcsTable (splitLines a) (splitLines b)) 0 0 0 0
  have hlen := length_kept_walk (splitLines a) (splitLines b) 0 0 0 0
  rw [List.drop_zero, List.drop_zero] at hsides hsub hlen
  have hcount : ((diffLines a b).countP fun e => e.op = .eq) = lcs (splitLines a) (splitLines b) := by
    rw [← hlen, List.countP_eq_length_filter, kept, List.length_map, diffLines]
  refine ⟨linesOf_iff.mpr rfl, linesOf_iff.mpr rfl, hsides.1, hsides.2, ?_⟩
  rw [hcount]
  exact isGreatest_lcs hsub.1 hsub.2 hlen

end Diff

end RyuDB
