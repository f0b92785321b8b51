/-
# Executes with a row limit

A driver pages a large result by executing one portal again and again with a row limit.  `_execute`
keeps nothing of a portal between two Executes but the frame of a Describe, which the next Execute
takes; `_emit_result` cuts the result off at the limit and reports the end.

* `execute_slices`: when the rows of such a sequence are adjacent slices of one result, the end of
  which is reported with its last row.
-/
import RyuDB.PgCursors

namespace RyuDB

namespace Pg

variable {σ V Tree : Type}

/-! ## 1. One Execute -/

/-- A CommandComplete. -/
def Event.isComplete : Event → Bool
  | .sent (.commandComplete _) => true
  | _ => false

section Execute

variable (B : Backend σ V Tree) (name full : String)

/-- The portal `name` stands for the query `full`. -/
structure QueryPortal (c : Conn σ V) : Prop where
  bound : ∃ p, c.portals.get? name = some p ∧ p.full B = .ok full ∧
    firstKeyword B.chars p.sql ≠ "ROLLBACK"
  text : blank full = false
  keyword : firstKeyword B.chars full ∉ cursorHeads

/-- The query of the portal returns rows: those a Describe left behind, or those it returns now. -/
def Returns (c : Conn σ V) (f : Frame V) : Prop :=
  c.portalCache.get? name = some f ∨
  c.portalCache.get? name = none ∧ ∃ s, B.run c.backend full = (.ok (.frame f), s)

variable {B name full}

theorem rowsOf_showResult (sql : String) (f : Frame V) (describe : Bool) (maxrows : Nat) :
    rowsOf ((showResult B sql (.frame f) describe maxrows).map Event.sent) = shown B maxrows f := by
  cases describe with
  | false => exact rowsOf_showFrame sql f maxrows
  | true => exact rowsOf_showFrame sql f maxrows

theorem complete_showResult (sql : String) (f : Frame V) (describe : Bool) (maxrows : Nat) :
    ((showResult B sql (.frame f) describe maxrows).map Event.sent).any Event.isComplete = true := by
  unfold showResult
  rw [List.any_map, List.any_append, Bool.or_eq_true]
  exact .inr rfl

theorem shown_eq (hmax : B.maxRows = 0) {maxrows : Nat} (hlimit : maxrows ≠ 0) (f : Frame V) :
    shown B maxrows f = cellsOf B f (f.rows.take maxrows) := by
  unfold shown cellsOf capRows
  rw [if_pos hmax, if_neg hlimit]

/-- Behind the gate a portal shows its frame, cut off at the limit. -/
theorem executePortal_shows {c : Conn σ V} {p : Portal} {maxrows : Nat} {f : Frame V}
    {cached : Option (Frame V)} (hfull : p.full B = .ok full) (htext : blank full = false)
    (hkey : firstKeyword B.chars full ∉ cursorHeads)
    (hf : cached = some f ∨ cached = none ∧ ∃ s, B.run c.backend full = (.ok (.frame f), s)) :
    ∃ c₁ describe, executePortal B p maxrows cached c = (.ok (), settled B p.sql
        { c₁ with log := c₁.log ++ (showResult B p.sql (.frame f) describe maxrows).map .sent }) ∧
      rowsOf c₁.log = rowsOf c.log ∧ Plain (fun _ => True) c c₁ := by
  unfold executePortal
  rw [hfull, Proc.lift_bind_ok, if_neg hkey]
  rcases hf with rfl | ⟨rfl, s, hrun⟩
  · exact ⟨c, false, emitResult_apply B c p.sql _ false maxrows, rfl, Plain.refl c⟩
  · dsimp only
    rw [if_neg (by rw [htext]; exact Bool.false_ne_true)]
    have hexec : exec B full c =
        (.ok (.frame f), { c with backend := s, log := c.log ++ [.ran full true] }) := by
      unfold exec
      rw [hrun]
      rfl
    have hplain : Plain (fun _ => True) c (exec B full c).2 := keeps_exec B trivial c
    rw [hexec] at hplain
    rw [Proc.bind_of_ok hexec]
    refine ⟨_, true, emitResult_apply B _ p.sql _ true maxrows, ?_, hplain⟩
    dsimp only
    rw [rowsOf_append]
    exact List.append_nil _

/-- An Execute keeps the portal and leaves nothing in the cache for it. -/
theorem QueryPortal.next {c : Conn σ V} (hq : QueryPortal B name full c) (maxrows : Nat) :
    QueryPortal B name full (step B c (.execute name maxrows)) where
  bound := by
    obtain ⟨p, hp, hrest⟩ := hq.bound
    refine ⟨p, ?_, hrest⟩
    rw [step_portals]
    exact hp
  text := hq.text
  keyword := hq.keyword

/-- In a sound transaction an Execute shows the frame of its portal. -/
theorem execute_shows {c : Conn σ V} {maxrows : Nat} {f : Frame V} {p : Portal}
    (hp : c.portals.get? name = some p) (hfull : p.full B = .ok full)
    (htext : blank full = false) (hkey : firstKeyword B.chars full ∉ cursorHeads)
    (hf : Returns B name full c f) (hopen : c.failed = false) :
    ∃ (c₁ : Conn σ V) (describe : Bool), step B c (.execute name maxrows) = settled B p.sql
        { c₁ with log := c₁.log ++ (showResult B p.sql (.frame f) describe maxrows).map .sent } ∧
      rowsOf c₁.log = [] ∧ c₁.failed = false := by
  have hpass : ¬ (({ c with portalCache := c.portalCache.erase name, log := [] } :
      Conn σ V).failed = true ∧ firstKeyword B.chars p.sql ≠ "ROLLBACK") := fun h =>
    Bool.false_ne_true (hopen.symm.trans h.1)
  have hhandle : handle B (.execute name maxrows) { c with log := [] } =
      executePortal B p maxrows (c.portalCache.get? name)
        { c with portalCache := c.portalCache.erase name, log := [] } := by
    rw [handle, execute_some B { c with log := [] } maxrows hp,
      Proc.bind_of_ok (gate_open B hpass), if_pos rfl]
  obtain ⟨c₁, describe, hrun, hrows, hplain⟩ := executePortal_shows (B := B) (p := p)
    (c := { c with portalCache := c.portalCache.erase name, log := [] }) hfull htext hkey hf
  rw [hrun] at hhandle
  exact ⟨c₁, describe, step_ok B c hhandle, hrows, hplain.failed.trans hopen⟩

/-- **An Execute in a sound transaction** sends the first rows of the frame, up to the limit, and
reports the end. -/
theorem execute_open {c : Conn σ V} {maxrows : Nat} {f : Frame V}
    (hq : QueryPortal B name full c) (hf : Returns B name full c f) (hmax : B.maxRows = 0)
    (hlimit : maxrows ≠ 0) (hopen : c.failed = false) :
    rowsOf (step B c (.execute name maxrows)).log = cellsOf B f (f.rows.take maxrows) ∧
      (step B c (.execute name maxrows)).log.any Event.isComplete = true ∧
      (step B c (.execute name maxrows)).failed = false := by
  obtain ⟨p, hp, hfull, hkw⟩ := hq.bound
  obtain ⟨c₁, describe, hstep, hrows, hfailed⟩ :=
    execute_shows hp hfull hq.text hq.keyword hf hopen
  rw [hstep]
  refine ⟨?_, ?_, ?_⟩
  · rw [rowsOf_settled, rowsOf_append, hrows, rowsOf_showResult, shown_eq hmax hlimit]
    rfl
  · unfold settled
    rw [if_neg hkw]
    split
    · rw [List.any_append, complete_showResult, Bool.or_true]
    · rw [List.any_append, complete_showResult, Bool.or_true]
  · unfold settled
    rw [if_neg hkw]
    split
    · exact hfailed
    · exact hfailed

/-- In an aborted transaction the gate answers. -/
theorem execute_shut {c : Conn σ V} (maxrows : Nat) (hq : QueryPortal B name full c)
    (hshut : c.failed = true) :
    rowsOf (step B c (.execute name maxrows)).log = [] ∧
      (step B c (.execute name maxrows)).log.any Event.isComplete = false ∧
      (step B c (.execute name maxrows)).failed = true := by
  obtain ⟨p, hp, hfull, hkw⟩ := hq.bound
  have hgate := gate_shut B
    (c := { c with portalCache := c.portalCache.erase name, log := [] }) ⟨hshut, hkw⟩
  have hhandle : handle B (.execute name maxrows) { c with log := [] } = (.ok (),
      { c with portalCache := c.portalCache.erase name, log := [.sent gateError] }) := by
    rw [handle, execute_some B { c with log := [] } maxrows hp, Proc.bind_of_ok hgate,
      if_neg Bool.false_ne_true]
    rfl
  rw [step_ok B c hhandle]
  exact ⟨rfl, rfl, hshut⟩

end Execute

/-! ## 2. Sequences of Executes -/

section Sequences

variable (B : Backend σ V Tree) (name : String)

/-- What successive Executes of the portal with these limits send. -/
def executeLogs (c : Conn σ V) : List Nat → List (List Event)
  | [] => []
  | m :: ms => (step B c (.execute name m)).log :: executeLogs (step B c (.execute name m)) ms

/-- From `pos` on the rows are adjacent slices of the frame, and the end is reported with its last
row. -/
def Sliced (f : Frame V) : Nat → List (List Event) → Prop
  | _, [] => True
  | pos, es :: rest => ∃ stop, pos ≤ stop ∧ stop ≤ f.rows.length ∧
      rowsOf es = cellsOf B f ((f.rows.drop pos).take (stop - pos)) ∧
      (es.any Event.isComplete = true → stop = f.rows.length) ∧ Sliced f stop rest

/-- The Executes, with their limits and the frames that the portal returns, page the frame of the
first. -/
def Delivered (c : Conn σ V) : List (Nat × Frame V) → Prop
  | [] => True
  | e :: es => Sliced B e.2 0 (executeLogs B name c ((e :: es).map Prod.fst))

/-- The first limit is no less than the number of rows, and no later Execute returns a row. -/
def Ample : List (Nat × Frame V) → Prop
  | [] => True
  | e :: es => e.2.rows.length ≤ e.1 ∧ ∀ e' ∈ es, e'.2.rows = []

/-- The next Execute of the portal. -/
def executeNext (c : Conn σ V) (e : Nat × Frame V) : Conn σ V := step B c (.execute name e.1)

variable {B name} {full : String}

/-- In an aborted transaction nothing is sent and nothing reported. -/
theorem sliced_shut {f : Frame V} {pos : Nat} (hpos : pos ≤ f.rows.length) {ms : List Nat}
    {c : Conn σ V} (hq : QueryPortal B name full c) (hshut : c.failed = true) :
    Sliced B f pos (executeLogs B name c ms) := by
  induction ms generalizing c with
  | nil => trivial
  | cons m ms ih =>
    obtain ⟨hrows, hcomplete, hfailed⟩ := execute_shut m hq hshut
    refine ⟨pos, le_refl _, hpos, ?_, fun h => ?_, ih (hq.next m) hfailed⟩
    · rw [hrows, Nat.sub_self, List.take_zero]
      rfl
    · rw [hcomplete] at h
      cases h

theorem cellsOf_eq_nil {f : Frame V} {rows : List (Row V)} : cellsOf B f rows = [] ↔ rows = [] :=
  List.map_eq_nil_iff

/-- Behind the last row an Execute adds no row only if its portal returns none. -/
theorem sliced_end {f : Frame V} (hmax : B.maxRows = 0) {es : List (Nat × Frame V)}
    {c : Conn σ V} (hq : QueryPortal B name full c) (hopen : c.failed = false)
    (hlimit : ∀ e ∈ es, e.1 ≠ 0)
    (hret : Run.Along (executeNext B name) (fun c e => Returns B name full c e.2) c es) :
    Sliced B f f.rows.length (executeLogs B name c (es.map Prod.fst)) ↔
      ∀ e ∈ es, e.2.rows = [] := by
  induction es generalizing c with
  | nil => exact ⟨fun _ _ h => (List.not_mem_nil h).elim, fun _ => trivial⟩
  | cons e es ih =>
    obtain ⟨hnow, hlater⟩ := hret
    obtain ⟨hrows, -, hfailed⟩ :=
      execute_open hq hnow hmax (hlimit e List.mem_cons_self) hopen
    have hrest := ih (hq.next e.1) hfailed (fun e' h => hlimit e' (List.mem_cons_of_mem _ h)) hlater
    have hempty : cellsOf B e.2 (e.2.rows.take e.1) = [] ↔ e.2.rows = [] := by
      rw [cellsOf_eq_nil, List.take_eq_nil_iff, or_iff_right (hlimit e List.mem_cons_self)]
    rw [List.forall_mem_cons]
    constructor
    · rintro ⟨stop, hle, hge, hsent, -, hsliced⟩
      obtain rfl : stop = f.rows.length := le_antisymm hge hle
      rw [hrows, Nat.sub_self, List.take_zero] at hsent
      exact ⟨hempty.mp hsent, hrest.mp hsliced⟩
    · rintro ⟨hnone, hnones⟩
      refine ⟨f.rows.length, le_refl _, le_refl _, ?_, fun _ => rfl, hrest.mpr hnones⟩
      rw [hrows, hempty.mpr hnone, Nat.sub_self, List.take_zero]
      rfl

/-- **Executes with a row limit.**  The rows that successive Executes of a portal over a query send are
adjacent slices of one result, whose end is reported only with its last row, exactly when the first
limit is no less than the number of rows and no later Execute returns a row, or the transaction is
aborted and nothing is sent at all. -/
theorem execute_slices {c : Conn σ V} {es : List (Nat × Frame V)} (hmax : B.maxRows = 0)
    (hq : QueryPortal B name full c) (hlimit : ∀ e ∈ es, e.1 ≠ 0)
    (hret : Run.Along (executeNext B name) (fun c e => Returns B name full c e.2) c es) :
    Delivered B name c es ↔ c.failed = true ∨ Ample es := by
  cases es with
  | nil => exact ⟨fun _ => .inr trivial, fun _ => trivial⟩
  | cons e es =>
    cases hopen : c.failed with
    | true => exact ⟨fun _ => .inl rfl, fun _ => sliced_shut (Nat.zero_le _) hq hopen⟩
    | false =>
      obtain ⟨hnow, hlater⟩ := hret
      obtain ⟨hrows, hcomplete, hfailed⟩ :=
        execute_open hq hnow hmax (hlimit e List.mem_cons_self) hopen
      have hend := sliced_end (f := e.2) hmax (hq.next e.1) hfailed
        (fun e' h => hlimit e' (List.mem_cons_of_mem _ h)) hlater
      have hall : (e.2.rows.drop 0).take (e.2.rows.length - 0) = e.2.rows := by
        rw [List.drop_zero, Nat.sub_zero, List.take_length]
      rw [or_iff_right Bool.false_ne_true]
      constructor
      · rintro ⟨stop, -, -, hsent, hdone, hsliced⟩
        -- the end is reported, so the slice is the whole result
        obtain rfl := hdone hcomplete
        refine ⟨?_, hend.mp hsliced⟩
        rw [hrows, hall] at hsent
        have hlen := congrArg List.length hsent
        rw [cellsOf, cellsOf, List.length_map, List.length_map, List.length_take] at hlen
        omega
      · rintro ⟨hfits, hnones⟩
        refine ⟨e.2.rows.length, Nat.zero_le _, le_refl _, ?_, fun _ => rfl, hend.mpr hnones⟩
        rw [hrows, hall, List.take_of_length_le hfits]

end Sequences

/-! ## 3. Three rows -/

/-- A server without a row cap. -/
def uncappedServer : Backend (Site Nat) Nat String := { twoTableServer with maxRows := 0 }

/-- The table `t` with three rows. -/
def threeKeys : Disk Nat :=
  { twoTables with parquet := (∅ : Dict _ _).set ⟨"d", "t.parquet"⟩ (keyParquet [1, 2, 3]) }

/-- A connection whose unnamed portal is bound to `SELECT k FROM t`. -/
def boundConn : Conn (Site Nat) Nat :=
  Run.run (step uncappedServer)
    { backend := ⟨Engine.start natHost (some "d") threeKeys, none, []⟩ }
    [.parse "" "SELECT k FROM t" [], .bind "" "" [] [] []]

theorem boundConn_returns : Returns uncappedServer "" "SELECT k FROM t" boundConn
    (keyFrame [1, 2, 3]) := .inr ⟨by decide, _, rfl⟩

/-- The same connection after a Describe of the portal; another connection has deleted the rows since. -/
def describedConn : Conn (Site Nat) Nat :=
  { step uncappedServer boundConn (.describePortal "") with
    backend := ⟨Engine.start natHost (some "d")
      { threeKeys with parquet := (∅ : Dict _ _).set ⟨"d", "t.parquet"⟩ (keyParquet []) }, none, []⟩ }

theorem describedConn_query : QueryPortal uncappedServer "" "SELECT k FROM t" describedConn where
  bound := ⟨⟨"SELECT k FROM t", [], []⟩, by decide, by decide, by decide⟩
  text := by decide
  keyword := by decide

/-- The first Execute takes the frame of the Describe, and the next two find no row. -/
theorem execute_slices_threeKeys :
    Delivered uncappedServer "" describedConn
      [(3, keyFrame [1, 2, 3]), (2, keyFrame []), (1, keyFrame [])] := by
  have hret : Run.Along (executeNext uncappedServer "")
      (fun c e => Returns uncappedServer "" "SELECT k FROM t" c e.2) describedConn
      [(3, keyFrame [1, 2, 3]), (2, keyFrame []), (1, keyFrame [])] :=
    ⟨.inl rfl, .inr ⟨by decide, _, rfl⟩, .inr ⟨by decide, _, rfl⟩, trivial⟩
  exact (execute_slices rfl describedConn_query (by decide) hret).mpr
    (.inr ⟨by decide, by decide⟩)

/-- **Two Executes with the limit 2.**  Both send the first two rows and report the end; the third row
is never sent. -/
theorem limit_loses_row :
    Run.Along (executeNext uncappedServer "")
      (fun c e => Returns uncappedServer "" "SELECT k FROM t" c e.2) boundConn
      [(2, keyFrame [1, 2, 3]), (2, keyFrame [1, 2, 3])] ∧
    ¬ Delivered uncappedServer "" boundConn
      [(2, keyFrame [1, 2, 3]), (2, keyFrame [1, 2, 3])] ∧
    (executeLogs uncappedServer "" boundConn [2, 2]).map rowsOf =
      [[[some "1"], [some "2"]], [[some "1"], [some "2"]]] ∧
    (executeLogs uncappedServer "" boundConn [2, 2]).all (·.any Event.isComplete) = true := by
  refine ⟨⟨boundConn_returns, .inr ⟨by decide, _, rfl⟩, trivial⟩, ?_, by decide, by decide⟩
  rintro ⟨stop, -, -, hsent, hdone, -⟩
  obtain rfl := hdone (by decide)
  revert hsent
  decide

end Pg

end RyuDB
