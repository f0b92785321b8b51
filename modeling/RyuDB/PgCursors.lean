/-
# The pages of a cursor

A cursor is a frozen result and a position, the number of rows in front of it.  FETCH and MOVE choose a
window of the result (`cursorWindow`), send its rows or only count them, and leave a new position.

* `cursor_pages`: over any sequence of them the position stays in the result and every window lies
  inside; consecutive forward fetches send a slice of the result; when a backward fetch undoes a
  forward one; what FORWARD ALL and BACKWARD ALL send.

The counts of FORWARD and BACKWARD are not negative here (`Direction.Counted`); those of ABSOLUTE and
RELATIVE are any integers.
-/
import RyuDB.PgPortals

namespace RyuDB

namespace Pg

variable {σ V Tree : Type}

/-! ## 1. Windows -/

/-- The window lies in a result of `total` rows and leaves a position in it. -/
structure Window.Inside (w : Window) (total : Int) : Prop where
  start : 0 ≤ w.start
  length : 0 ≤ w.length
  stop : w.start + w.length ≤ total
  offset_nonneg : 0 ≤ w.newOffset
  offset_le : w.newOffset ≤ total

/-- FORWARD and BACKWARD have no negative count. -/
def Direction.Counted : Direction → Prop
  | .forward (some n) => 0 ≤ n
  | .backward (some n) => 0 ≤ n
  | _ => True

/-- NEXT, FORWARD and FORWARD ALL. -/
def Direction.forth : Direction → Bool
  | .next => true
  | .forward _ => true
  | .forwardAll => true
  | _ => false

/-- The count an Execute limits. -/
def capCount (maxrows : Nat) (n : Int) : Int := if maxrows = 0 then n else min n maxrows

theorem capCount_nonneg {n : Int} (maxrows : Nat) (h : 0 ≤ n) : 0 ≤ capCount maxrows n := by
  unfold capCount
  split <;> omega

section Inside

variable {offset total : Int}

theorem inside_forth {k : Int} (h0 : 0 ≤ offset) (hk : 0 ≤ k) (h : k ≤ total - offset) :
    Window.Inside ⟨offset, k, offset + k, false⟩ total := by
  constructor <;> dsimp only <;> omega

theorem inside_back {k : Int} (h1 : offset ≤ total) (hk : 0 ≤ k) (h : k ≤ offset) :
    Window.Inside ⟨offset - k, k, offset - k, true⟩ total := by
  constructor <;> dsimp only <;> omega

/-- ABSOLUTE and RELATIVE select one row, or none and a position at one of the ends. -/
theorem inside_at {pos stay : Int} (h0 : 0 ≤ offset) (h1 : offset ≤ total) :
    Window.Inside (if pos < 1 ∨ pos > total then ⟨offset, 0, max 0 (min total stay), false⟩
      else ⟨pos - 1, 1, pos, false⟩) total := by
  split
  · constructor <;> dsimp only <;> omega
  · constructor <;> dsimp only <;> omega

/-- The one row of FIRST and LAST, if there is one. -/
def oneRow (maxrows : Nat) (total : Int) : Int :=
  if maxrows = 0 then if total > 0 then 1 else 0
  else min (if total > 0 then 1 else 0) (capCount maxrows 1)

theorem oneRow_bounds (maxrows : Nat) (h : 0 ≤ total) :
    0 ≤ oneRow maxrows total ∧ oneRow maxrows total ≤ total := by
  have hcap := capCount_nonneg maxrows (n := 1) (by decide)
  unfold oneRow
  split <;> split <;> omega

/-- **Positions stay valid**: from a position in the result, every window lies inside and leaves a
position in the result. -/
theorem cursorWindow_inside {d : Direction} (maxrows : Nat) (hd : d.Counted) (h0 : 0 ≤ offset)
    (h1 : offset ≤ total) : (cursorWindow d offset total maxrows).Inside total := by
  have htotal : 0 ≤ total := h0.trans h1
  have hone := capCount_nonneg maxrows (n := 1) (by decide)
  cases d with
  | next => exact inside_forth h0 (le_min hone (by omega)) (min_le_right _ _)
  | prior => exact inside_back h1 (le_min hone h0) (min_le_right _ _)
  | forward count =>
    have hcount : 0 ≤ capCount maxrows (count.getD 1) := by
      cases count with
      | none => exact hone
      | some n => exact capCount_nonneg maxrows hd
    exact inside_forth h0 (le_min hcount (by omega)) (min_le_right _ _)
  | backward count =>
    have hcount : 0 ≤ capCount maxrows (count.getD 1) := by
      cases count with
      | none => exact hone
      | some n => exact capCount_nonneg maxrows hd
    exact inside_back h1 (le_min hcount h0) (min_le_right _ _)
  | forwardAll =>
    simp only [cursorWindow]
    split <;> constructor <;> dsimp only <;> omega
  | backwardAll =>
    simp only [cursorWindow]
    split <;> constructor <;> dsimp only <;> omega
  | first =>
    obtain ⟨hlo, hhi⟩ := oneRow_bounds maxrows htotal
    have hfirst : cursorWindow .first offset total maxrows =
        ⟨0, oneRow maxrows total, oneRow maxrows total, false⟩ := by
      have hmin : min (if total > 0 then 1 else 0) total = if total > 0 then 1 else 0 := by
        split <;> omega
      simp only [cursorWindow, hmin]
      rfl
    rw [hfirst]
    constructor <;> dsimp only <;> omega
  | last =>
    obtain ⟨hlo, hhi⟩ := oneRow_bounds maxrows htotal
    have hlast : cursorWindow .last offset total maxrows =
        ⟨max 0 (total - oneRow maxrows total), oneRow maxrows total, total, false⟩ := rfl
    rw [hlast]
    constructor <;> dsimp only <;> omega
  | absolute n => exact inside_at h0 h1
  | relative n => exact inside_at h0 h1

end Inside

/-- A forward window begins at the position and ends at the new one. -/
theorem cursorWindow_forth {d : Direction} (hd : d.forth = true) (offset total : Int)
    (maxrows : Nat) : (cursorWindow d offset total maxrows).start = offset ∧
      (cursorWindow d offset total maxrows).newOffset =
        offset + (cursorWindow d offset total maxrows).length ∧
      (cursorWindow d offset total maxrows).reverse = false := by
  cases d with
  | next => exact ⟨rfl, rfl, rfl⟩
  | forward count => exact ⟨rfl, rfl, rfl⟩
  | forwardAll => exact ⟨rfl, (add_sub_cancel _ _).symm, rfl⟩
  | _ => cases hd

/-- What a backward window is. -/
theorem cursorWindow_backward (n offset total : Int) (maxrows : Nat) :
    cursorWindow (.backward (some n)) offset total maxrows =
      ⟨offset - min (capCount maxrows n) offset, min (capCount maxrows n) offset,
        offset - min (capCount maxrows n) offset, true⟩ := rfl

theorem cursorWindow_forward (n offset total : Int) (maxrows : Nat) :
    cursorWindow (.forward (some n)) offset total maxrows =
      ⟨offset, min (capCount maxrows n) (total - offset),
        offset + min (capCount maxrows n) (total - offset), false⟩ := rfl

/-! ## 2. One statement -/

/-- A FETCH or MOVE with the row limit of its Execute. -/
structure FetchStmt where
  sql : String
  maxrows : Nat
  move : Bool
  deriving DecidableEq, Repr

/-- The rows of a window, in the order they are sent. -/
def page (f : Frame V) (w : Window) : List (Row V) :=
  let page := (f.rows.drop w.start.toNat).take w.length.toNat
  if w.reverse then page.reverse else page

/-- A backward window sends the rows of the forward window over the same slice in reverse. -/
theorem page_back (f : Frame V) (start k offset stop : Int) :
    page f ⟨start, k, offset, true⟩ = (page f ⟨start, k, stop, false⟩).reverse := rfl

/-- Every cursor is at a position in its result. -/
def Seated (c : Conn σ V) : Prop :=
  ∀ name f offset, c.cursors.get? name = some (f, offset) → 0 ≤ offset ∧ offset ≤ f.rows.length

section Statement

variable (B : Backend σ V Tree)

/-- The cells of rows as they are sent. -/
def cellsOf (f : Frame V) (rows : List (Row V)) : List (List (Option String)) :=
  rows.map fun r => f.columns.map fun col => (r col).map B.valToText

/-- The statement moves the cursor `name` along `d`. -/
def FetchStmt.Reads (s : FetchStmt) (d : Direction) (name : String) : Prop :=
  parseFetch B.chars s.sql = .ok (d, name)

/-- Its count, if it has one with FORWARD or BACKWARD, is not negative. -/
def FetchStmt.Counted (s : FetchStmt) : Prop :=
  ∀ d name, s.Reads B d name → d.Counted

def FetchStmt.run (s : FetchStmt) : Act σ V Unit := fetch B s.sql s.maxrows s.move

/-- The connection after the statement. -/
def FetchStmt.next (c : Conn σ V) (s : FetchStmt) : Conn σ V := (s.run B c).2

theorem rowsOf_page (f : Frame V) (rows : List (Row V)) :
    rowsOf ((Reply.rowDescription f.columns :: dataRows B f.columns rows).map Event.sent) =
      cellsOf B f rows := by
  rw [List.map_cons]
  simp [rowsOf, dataRows, cellsOf, List.filterMap_map, Function.comp_def]

/-- **The effect of a statement on an open cursor**: it succeeds, leaves the window's position and,
unless it is a MOVE, sends the window's rows. -/
theorem FetchStmt.run_eq {s : FetchStmt} {c : Conn σ V} {d : Direction} {name : String}
    {f : Frame V} {offset : Int} (hs : s.Reads B d name)
    (hc : c.cursors.get? name = some (f, offset))
    (hw : 0 ≤ (cursorWindow d offset f.rows.length s.maxrows).start) :
    (s.run B c).1 = .ok () ∧
      (s.next B c).cursors = c.cursors.set name
        (f, (cursorWindow d offset f.rows.length s.maxrows).newOffset) ∧
      rowsOf (s.next B c).log = rowsOf c.log ++ if s.move then [] else
        cellsOf B f (page f (cursorWindow d offset f.rows.length s.maxrows)) := by
  set w := cursorWindow d offset f.rows.length s.maxrows with hwdef
  have hfetch : s.run B c = if s.move
      then (do
        Proc.modify fun c => { c with cursors := c.cursors.set name (f, w.newOffset) }
        send (.commandComplete ("MOVE " ++ toString w.length.toNat)) : Act σ V Unit) c
      else sendPage B f w name c := by
    unfold FetchStmt.run fetch
    rw [show parseFetch B.chars s.sql = .ok (d, name) from hs, Proc.lift_bind_ok, Proc.get_bind]
    dsimp only
    rw [hc]
    dsimp only
    split
    · rfl
    · rfl
  unfold FetchStmt.next
  rw [hfetch]
  cases hm : s.move with
  | true =>
    rw [if_pos rfl, if_pos rfl]
    refine ⟨rfl, rfl, ?_⟩
    exact (rowsOf_append c.log _).trans rfl
  | false =>
    rw [if_neg Bool.false_ne_true, if_neg Bool.false_ne_true]
    have hrows : windowRows f w = .ok (page f w) := by
      unfold windowRows page
      rw [if_neg (by omega)]
    have hsend : sendPage B f w name c = (.ok (), { c with
        cursors := c.cursors.set name (f, w.newOffset)
        log := (c.log ++ (Reply.rowDescription f.columns ::
          dataRows B f.columns (page f w)).map Event.sent) ++
            [.sent (.commandComplete ("FETCH " ++ toString w.length.toNat))] }) := by
      unfold sendPage
      rw [hrows, Proc.lift_bind_ok, Proc.bind_of_ok (each_send _ c)]
      rfl
    rw [hsend]
    refine ⟨rfl, rfl, ?_⟩
    dsimp only
    rw [rowsOf_append, rowsOf_append, rowsOf_page]
    exact List.append_nil _

/-- A statement that cannot be read, or names no open cursor, leaves the cursors alone. -/
theorem FetchStmt.next_cursors {s : FetchStmt} {c : Conn σ V}
    (h : ∀ d name f offset, s.Reads B d name → c.cursors.get? name ≠ some (f, offset)) :
    (s.next B c).cursors = c.cursors := by
  unfold FetchStmt.next FetchStmt.run fetch
  cases hp : parseFetch B.chars s.sql with
  | error e => rfl
  | ok parts =>
    rw [Proc.lift_bind_ok, Proc.get_bind]
    cases hc : c.cursors.get? parts.2 with
    | none => rfl
    | some at_ => exact absurd hc (h parts.1 parts.2 at_.1 at_.2 hp)

end Statement

/-! ## 3. Sequences of statements -/

section Sequences

variable (B : Backend σ V Tree)

/-- What the theorem says of one statement: the cursors stay seated, and an open cursor that the
statement moves selects a window of its result and sends the rows of that window. -/
def Paged (c : Conn σ V) (s : FetchStmt) : Prop :=
  Seated c ∧ Seated (s.next B c) ∧ ∀ d name f offset, s.Reads B d name →
    c.cursors.get? name = some (f, offset) →
      (cursorWindow d offset f.rows.length s.maxrows).Inside f.rows.length ∧
      (s.run B c).1 = .ok () ∧
      (s.next B c).cursors.get? name =
        some (f, (cursorWindow d offset f.rows.length s.maxrows).newOffset) ∧
      rowsOf (s.next B c).log = rowsOf c.log ++ if s.move then [] else
        cellsOf B f (page f (cursorWindow d offset f.rows.length s.maxrows))

/-- The step lemma. -/
theorem paged_step {c : Conn σ V} {s : FetchStmt} (hc : Seated c) (hs : s.Counted B) :
    Paged B c s ∧ Seated (s.next B c) := by
  have hopen : ∀ d name f offset, s.Reads B d name → c.cursors.get? name = some (f, offset) →
      (cursorWindow d offset f.rows.length s.maxrows).Inside f.rows.length := by
    intro d name f offset hr hn
    obtain ⟨h0, h1⟩ := hc name f offset hn
    exact cursorWindow_inside s.maxrows (hs d name hr) h0 h1
  have hseat : Seated (s.next B c) := by
    by_cases hno : ∀ d name f offset, s.Reads B d name → c.cursors.get? name ≠ some (f, offset)
    · intro name f offset hn
      rw [FetchStmt.next_cursors B hno] at hn
      exact hc name f offset hn
    · push Not at hno
      obtain ⟨d, name, f, offset, hr, hn⟩ := hno
      have hw := hopen d name f offset hr hn
      intro name' f' offset' hn'
      rw [(FetchStmt.run_eq B hr hn hw.start).2.1, Dict.get?_set] at hn'
      split at hn'
      · cases hn'
        exact ⟨hw.offset_nonneg, hw.offset_le⟩
      · exact hc name' f' offset' hn'
  refine ⟨⟨hc, hseat, fun d name f offset hr hn => ?_⟩, hseat⟩
  have hw := hopen d name f offset hr hn
  obtain ⟨hok, hcur, hrows⟩ := FetchStmt.run_eq B hr hn hw.start
  refine ⟨hw, hok, ?_, hrows⟩
  rw [hcur, Dict.get?_set, if_pos rfl]

/-- The run lemma. -/
theorem paged_run {c : Conn σ V} {ss : List FetchStmt} (hc : Seated c)
    (hs : ∀ s ∈ ss, s.Counted B) : Run.Along (FetchStmt.next B) (Paged B) c ss := by
  have hcounted : Run.Along (FetchStmt.next B) (fun _ s => s.Counted B) c ss :=
    Run.Along.of_forall hs
  exact Run.Along.imp (fun _ _ hc hs => paged_step B hc hs) hc hcounted

theorem seated_run {c : Conn σ V} {ss : List FetchStmt} (hc : Seated c)
    (hs : ∀ s ∈ ss, s.Counted B) : Seated (Run.run (FetchStmt.next B) c ss) := by
  have hcounted : Run.Along (FetchStmt.next B) (fun _ s => s.Counted B) c ss :=
    Run.Along.of_forall hs
  have hstep : ∀ (c : Conn σ V) (s : FetchStmt), Seated c → s.Counted B → Seated (s.next B c) :=
    fun _ _ hc hs => (paged_step B hc hs).2
  exact Run.Along.invariant hstep hc hcounted

/-- A FETCH that moves the cursor `name` forwards. -/
def FetchStmt.Forth (name : String) (s : FetchStmt) : Prop :=
  s.move = false ∧ ∃ d, s.Reads B d name ∧ d.forth = true ∧ d.Counted

/-- Two adjacent slices are one. -/
theorem slice_append {α : Type} (l : List α) {a k b : Int} (h0 : 0 ≤ a) (hk : 0 ≤ k)
    (hb : a + k ≤ b) : (l.drop a.toNat).take k.toNat ++
      (l.drop (a + k).toNat).take (b - (a + k)).toNat = (l.drop a.toNat).take (b - a).toNat := by
  have hab : (a + k).toNat = a.toNat + k.toNat := Int.toNat_add h0 hk
  have hlen : (b - a).toNat = k.toNat + (b - (a + k)).toNat := by omega
  rw [hab, ← List.drop_drop, hlen, List.take_add]

/-- Consecutive forward fetches send one slice of the result, from the old position to the new. -/
theorem forth_run {name : String} {f : Frame V} {ss : List FetchStmt} {c : Conn σ V}
    {offset : Int} (hc : c.cursors.get? name = some (f, offset)) (h0 : 0 ≤ offset)
    (h1 : offset ≤ f.rows.length) (hs : ∀ s ∈ ss, s.Forth B name) :
    ∃ stop : Int, offset ≤ stop ∧ stop ≤ f.rows.length ∧
      (Run.run (FetchStmt.next B) c ss).cursors.get? name = some (f, stop) ∧
      rowsOf (Run.run (FetchStmt.next B) c ss).log = rowsOf c.log ++
        cellsOf B f ((f.rows.drop offset.toNat).take (stop - offset).toNat) := by
  induction ss generalizing c offset with
  | nil =>
    refine ⟨offset, le_refl _, h1, hc, ?_⟩
    rw [sub_self, Int.toNat_zero, List.take_zero]
    exact (List.append_nil _).symm
  | cons s ss ih =>
    obtain ⟨hmove, d, hr, hforth, hd⟩ := hs s List.mem_cons_self
    have hw := cursorWindow_inside s.maxrows hd h0 h1
    obtain ⟨hstart, hnew, hrev⟩ := cursorWindow_forth hforth offset f.rows.length s.maxrows
    obtain ⟨-, hcur, hrows⟩ := FetchStmt.run_eq B hr hc hw.start
    obtain ⟨-, hlen, -, -, hle⟩ := hw
    generalize cursorWindow d offset f.rows.length s.maxrows = w at *
    have hc' : (s.next B c).cursors.get? name = some (f, offset + w.length) := by
      rw [hcur, Dict.get?_set, if_pos rfl, hnew]
    rw [hnew] at hle
    obtain ⟨stop, hstop, htotal, hlast, hsent⟩ := ih hc' (add_nonneg h0 hlen) hle
      fun s' h => hs s' (List.mem_cons_of_mem _ h)
    rw [Run.run_cons]
    refine ⟨stop, le_trans (le_add_of_nonneg_right hlen) hstop, htotal, hlast, ?_⟩
    have hpage : page f w = (f.rows.drop offset.toNat).take w.length.toNat := by
      unfold page
      rw [hrev, hstart]
      rfl
    rw [hsent, hrows, hmove, if_neg Bool.false_ne_true, List.append_assoc, hpage]
    unfold cellsOf
    rw [← List.map_append, slice_append f.rows h0 hlen hstop]

/-- The second of two statements sends the rows of the first in reverse and takes the cursor back to
`offset`. -/
def TurnedBack (c : Conn σ V) (name : String) (f : Frame V) (offset : Int)
    (s₁ s₂ : FetchStmt) : Prop :=
  (∃ rows, rowsOf (s₁.next B c).log = rowsOf c.log ++ rows ∧
    rowsOf (s₂.next B (s₁.next B c)).log = rowsOf (s₁.next B c).log ++ rows.reverse) ∧
  (s₂.next B (s₁.next B c)).cursors.get? name = some (f, offset)

/-- FORWARD `n` and BACKWARD `n`: the backward fetch takes as many rows as the forward one.  The
forward fetch takes no more than are left; the backward one no more than there are, which are as many
if the forward fetch began at the first row. -/
theorem turnedBack_iff {c : Conn σ V} {name : String} {f : Frame V} {offset n : Int}
    {s₁ s₂ : FetchStmt} (hc : c.cursors.get? name = some (f, offset)) (h0 : 0 ≤ offset)
    (h1 : offset ≤ f.rows.length) (hn : 0 ≤ n) (hr₁ : s₁.Reads B (.forward (some n)) name)
    (hr₂ : s₂.Reads B (.backward (some n)) name) (hm₁ : s₁.move = false) (hm₂ : s₂.move = false) :
    TurnedBack B c name f offset s₁ s₂ ↔
      capCount s₂.maxrows n = min (capCount s₁.maxrows n) (f.rows.length - offset) ∨
      offset = 0 ∧ min (capCount s₁.maxrows n) (f.rows.length - offset) ≤
        capCount s₂.maxrows n := by
  have hcap₁ := capCount_nonneg s₁.maxrows hn
  have hcap₂ := capCount_nonneg s₂.maxrows hn
  have hw₁ := cursorWindow_inside (d := .forward (some n)) s₁.maxrows hn h0 h1
  obtain ⟨-, hcur₁, hrows₁⟩ := FetchStmt.run_eq B hr₁ hc hw₁.start
  rw [cursorWindow_forward] at hcur₁ hrows₁ hw₁
  generalize htake : min (capCount s₁.maxrows n) (f.rows.length - offset) = k at *
  have hk : 0 ≤ k := hw₁.length
  have hstop : offset + k ≤ f.rows.length := hw₁.stop
  have hc₁ : (s₁.next B c).cursors.get? name = some (f, offset + k) := by
    rw [hcur₁, Dict.get?_set, if_pos rfl]
  have hw₂ := cursorWindow_inside (d := .backward (some n)) s₂.maxrows hn
    (add_nonneg h0 hk) hstop
  obtain ⟨-, hcur₂, hrows₂⟩ := FetchStmt.run_eq B hr₂ hc₁ hw₂.start
  rw [cursorWindow_backward] at hcur₂ hrows₂
  rw [hm₁, if_neg Bool.false_ne_true] at hrows₁
  rw [hm₂, if_neg Bool.false_ne_true] at hrows₂
  have hc₂ : (s₂.next B (s₁.next B c)).cursors.get? name =
      some (f, offset + k - min (capCount s₂.maxrows n) (offset + k)) := by
    rw [hcur₂, Dict.get?_set, if_pos rfl]
  constructor
  · rintro ⟨-, hback⟩
    rw [hc₂] at hback
    have hsame : offset + k - min (capCount s₂.maxrows n) (offset + k) = offset :=
      (Prod.mk.inj (Option.some.inj hback)).2
    omega
  · intro hcond
    have hsame : min (capCount s₂.maxrows n) (offset + k) = k := by omega
    rw [hsame, add_sub_cancel_right] at hc₂ hrows₂
    refine ⟨⟨_, hrows₁, ?_⟩, hc₂⟩
    rw [hrows₂, cellsOf, page_back f offset k offset (offset + k), List.map_reverse]
    rfl

/-- FORWARD ALL without a row limit sends all later rows. -/
theorem forwardAll_rows {c : Conn σ V} {name : String} {f : Frame V} {offset : Int}
    {s : FetchStmt} (hc : c.cursors.get? name = some (f, offset)) (h0 : 0 ≤ offset)
    (hr : s.Reads B .forwardAll name) (hlimit : s.maxrows = 0) (hmove : s.move = false) :
    rowsOf (s.next B c).log = rowsOf c.log ++ cellsOf B f (f.rows.drop offset.toNat) ∧
      (s.next B c).cursors.get? name = some (f, (f.rows.length : Int)) := by
  have hw : cursorWindow .forwardAll offset f.rows.length s.maxrows =
      ⟨offset, f.rows.length - offset, f.rows.length, false⟩ := by
    simp only [cursorWindow, hlimit, if_true]
  obtain ⟨-, hcur, hrows⟩ := FetchStmt.run_eq B hr hc (by rw [hw]; exact h0)
  rw [hw] at hcur hrows
  rw [hrows, hcur, Dict.get?_set, if_pos rfl, hmove, if_neg Bool.false_ne_true]
  refine ⟨?_, rfl⟩
  have hall : (f.rows.drop offset.toNat).length ≤ ((f.rows.length : Int) - offset).toNat := by
    rw [List.length_drop]
    omega
  unfold page
  dsimp only
  rw [if_neg Bool.false_ne_true, List.take_of_length_le hall]

/-- **The pages of a cursor.**  Along any FETCH and MOVE statements every cursor stays at a position in
its result and every page lies inside.  After them, and from any open cursor, forward fetches send
adjacent slices that make up the rows from the first position to the last, the whole result if these are
its ends; FORWARD `n` is undone by BACKWARD `n` exactly when that takes as many rows; and FORWARD ALL
sends all later rows. -/
theorem cursor_pages {c : Conn σ V} {ss : List FetchStmt} (hc : Seated c)
    (hs : ∀ s ∈ ss, s.Counted B) :
    Run.Along (FetchStmt.next B) (Paged B) c ss ∧
    ∀ name f offset, (Run.run (FetchStmt.next B) c ss).cursors.get? name = some (f, offset) →
      (∀ ss', (∀ s ∈ ss', s.Forth B name) → ∃ stop : Int, offset ≤ stop ∧ stop ≤ f.rows.length ∧
        (Run.run (FetchStmt.next B) c (ss ++ ss')).cursors.get? name = some (f, stop) ∧
        rowsOf (Run.run (FetchStmt.next B) c (ss ++ ss')).log =
          rowsOf (Run.run (FetchStmt.next B) c ss).log ++
            cellsOf B f ((f.rows.drop offset.toNat).take (stop - offset).toNat) ∧
        (offset = 0 → stop = f.rows.length →
          rowsOf (Run.run (FetchStmt.next B) c (ss ++ ss')).log =
            rowsOf (Run.run (FetchStmt.next B) c ss).log ++ cellsOf B f f.rows)) ∧
      (∀ n s₁ s₂, 0 ≤ n → s₁.Reads B (.forward (some n)) name →
        s₂.Reads B (.backward (some n)) name → s₁.move = false → s₂.move = false →
        (TurnedBack B (Run.run (FetchStmt.next B) c ss) name f offset s₁ s₂ ↔
          capCount s₂.maxrows n = min (capCount s₁.maxrows n) (f.rows.length - offset) ∨
          offset = 0 ∧ min (capCount s₁.maxrows n) (f.rows.length - offset) ≤
            capCount s₂.maxrows n)) ∧
      (∀ s : FetchStmt, s.Reads B .forwardAll name → s.maxrows = 0 → s.move = false →
        rowsOf (s.next B (Run.run (FetchStmt.next B) c ss)).log =
          rowsOf (Run.run (FetchStmt.next B) c ss).log ++
            cellsOf B f (f.rows.drop offset.toNat)) := by
  refine ⟨paged_run B hc hs, fun name f offset hopen => ?_⟩
  obtain ⟨h0, h1⟩ := seated_run B hc hs name f offset hopen
  refine ⟨fun ss' hforth => ?_, fun n s₁ s₂ hn hr₁ hr₂ hm₁ hm₂ =>
    turnedBack_iff B hopen h0 h1 hn hr₁ hr₂ hm₁ hm₂,
    fun s hr hlimit hmove => (forwardAll_rows B hopen h0 hr hlimit hmove).1⟩
  obtain ⟨stop, hle, htotal, hlast, hsent⟩ := forth_run B hopen h0 h1 hforth
  rw [← Run.run_append] at hlast hsent
  refine ⟨stop, hle, htotal, hlast, hsent, ?_⟩
  rintro rfl rfl
  have hwhole : (f.rows.drop (0 : Int).toNat).take ((f.rows.length : Int) - 0).toNat = f.rows := by
    rw [Int.toNat_zero, List.drop_zero, sub_zero, Int.toNat_natCast, List.take_length]
  rw [hsent, hwhole]

end Sequences

/-! ## 4. A cursor of three rows -/

/-- Three rows of one column. -/
def threeRows : Frame Nat where
  columns := ["k"]
  rows := [1, 2, 3].map fun n c => if c = "k" then some n else none
  supported := by
    intro r hr c hc
    obtain ⟨n, -, rfl⟩ := List.mem_map.mp hr
    exact if_neg (by simpa using hc)

/-- A connection with a cursor over them. -/
def cursorAt (offset : Int) : Conn (Site Nat) Nat :=
  { backend := twoTableSite, cursors := (∅ : Dict String (Frame Nat × Int)).set "c"
      (threeRows, offset) }

def fetchForward : FetchStmt := ⟨"FETCH FORWARD 2 FROM c", 0, false⟩

def fetchBackward : FetchStmt := ⟨"FETCH BACKWARD 2 FROM c", 0, false⟩

theorem fetchForward_reads : fetchForward.Reads twoTableServer (.forward (some 2)) "c" := by
  unfold FetchStmt.Reads
  decide

theorem fetchBackward_reads : fetchBackward.Reads twoTableServer (.backward (some 2)) "c" := by
  unfold FetchStmt.Reads
  decide

theorem cursorAt_seated {offset : Int} (h0 : 0 ≤ offset) (h1 : offset ≤ 3) :
    Seated (cursorAt offset) := by
  intro name f offset' h
  unfold cursorAt at h
  rw [Dict.get?_set] at h
  split at h
  · cases h
    exact ⟨h0, h1⟩
  · cases h

theorem fetches_counted : ∀ s ∈ [fetchForward, fetchBackward], s.Counted twoTableServer := by
  intro s hs d name hr
  unfold FetchStmt.Reads at hr
  rcases List.mem_pair.mp hs with rfl | rfl
  · rw [show parseFetch _ _ = _ from fetchForward_reads] at hr
    cases hr
    exact (by decide : (0 : Int) ≤ 2)
  · rw [show parseFetch _ _ = _ from fetchBackward_reads] at hr
    cases hr
    exact (by decide : (0 : Int) ≤ 2)

theorem cursor_pages_threeRows :
    Run.Along (FetchStmt.next twoTableServer) (Paged twoTableServer) (cursorAt 0)
      [fetchForward, fetchBackward] ∧
    TurnedBack twoTableServer (cursorAt 0) "c" threeRows 0 fetchForward fetchBackward := by
  have hseat : Seated (cursorAt 0) := cursorAt_seated (by decide) (by decide)
  refine ⟨(cursor_pages twoTableServer hseat fetches_counted).1, ?_⟩
  refine (((cursor_pages twoTableServer hseat (List.forall_mem_nil _)).2 "c" threeRows 0
    rfl).2.1 2 _ _ (by decide) fetchForward_reads fetchBackward_reads rfl rfl).mpr ?_
  exact .inl (by decide)

/-- **FORWARD 2 before the last row, then BACKWARD 2.**  The first sends the last row, the second the
last two, and the cursor ends one row before the position where it was. -/
theorem backward_passes_start : ¬ TurnedBack twoTableServer (cursorAt 2) "c" threeRows 2
      fetchForward fetchBackward ∧
    rowsOf (Run.run (FetchStmt.next twoTableServer) (cursorAt 2)
      [fetchForward, fetchBackward]).log = [[some "3"], [some "3"], [some "2"]] := by
  refine ⟨fun hback => ?_, by decide⟩
  rw [turnedBack_iff twoTableServer (n := 2) rfl (by decide) (by decide) (by decide)
    fetchForward_reads fetchBackward_reads rfl rfl] at hback
  revert hback
  decide

end Pg

end RyuDB
