/-
# The rows of a portal

A Describe of a portal runs its statement to learn the columns and leaves the result in
`_portal_cache`; the next Execute of that name pops it and does not run the statement again.  Bind
and Close change what stands under a name and leave the cache alone.

Wanted: the rows an Execute sends are the result of the statement and parameters that are bound to
the name now, run by this Execute or at some moment since the Bind.  It holds in a run in which every
Execute finds the cache empty for its name or filled by a Describe since the last Bind or Close of
the name (`portal_rows`).  `Track` is the connection with, for every name, the states in which
messages arrived since the Bind and whether a Describe filled the cache since.
-/
import RyuDB.PgFrame
import RyuDB.PgEngine
import RyuDB.Lib.Run

namespace RyuDB

namespace Pg

variable {σ V Tree : Type}

/-! ## 1. What is wanted -/

/-- The connection, the moments since the binding of each portal, and the names for which a Describe
filled the cache since. -/
structure Track (σ V : Type) where
  conn : Conn σ V
  moments : String → List σ := fun _ => []
  fresh : String → Bool := fun _ => false

/-- The message puts something new, or nothing, under the name of a portal. -/
def rebinds (name : String) : Message → Bool
  | .bind portal _ fmts _ rfmts => portal = name && !(1 ∈ rfmts) && !(1 ∈ fmts)
  | .closePortal portal => portal = name
  | _ => false

/-- A RowDescription. -/
def Event.isRowDescription : Event → Bool
  | .sent (.rowDescription _) => true
  | _ => false

variable (B : Backend σ V Tree)

/-- The message is a Describe of the portal that is answered by a RowDescription. -/
def describes (c : Conn σ V) (name : String) : Message → Bool
  | .describePortal portal =>
    portal = name && (step B c (.describePortal portal)).log.any Event.isRowDescription
  | _ => false

/-- One message. -/
def Track.next (t : Track σ V) (m : Message) : Track σ V where
  conn := step B t.conn m
  moments := fun name => if rebinds name m then [] else t.moments name ++ [t.conn.backend]
  fresh := fun name => !rebinds name m && (t.fresh name || describes B t.conn name m)

/-- The data rows among the events. -/
def rowsOf (es : List Event) : List (List (Option String)) :=
  es.filterMap fun e =>
    match e with
    | .sent (.dataRow cells) => some cells
    | _ => none

/-- The data rows that show a frame. -/
def shown (maxrows : Nat) (f : Frame V) : List (List (Option String)) :=
  (capRows B.maxRows (capRows maxrows f.rows)).map fun r =>
    f.columns.map fun c => (r c).map B.valToText

/-- The rows an Execute sends are those of running the portal's statement: now, as an Execute with
nothing cached does, or at a moment since the Bind. -/
def Matches (t : Track σ V) (m : Message) : Prop :=
  ∀ name maxrows, m = .execute name maxrows →
    rowsOf (step B t.conn m).log = rowsOf (step B
      { t.conn with portalCache := t.conn.portalCache.erase name } m).log ∨
    ∃ p full, t.conn.portals.get? name = some p ∧ p.full B = .ok full ∧
      ∃ s ∈ t.moments name, ∃ f, (B.run s full).1 = .ok (.frame f) ∧
        rowsOf (step B t.conn m).log = shown B maxrows f

/-- An Execute finds the cache empty for its name, or filled since the last Bind or Close. -/
def Uncrossed (t : Track σ V) (m : Message) : Prop :=
  ∀ name maxrows, m = .execute name maxrows →
    t.conn.portalCache.get? name = none ∨ t.fresh name = true

/-! ## 2. What a message does to the cache -/

section Cache

variable {B}

/-- The cache does not change. -/
def SameCache (c c' : Conn σ V) : Prop := c'.portalCache = c.portalCache

theorem SameCache.trans (a b c : Conn σ V) (h₁ : SameCache a b) (h₂ : SameCache b c) :
    SameCache a c := Eq.trans h₂ h₁

theorem sameCache_step {c : Conn σ V} {m : Message}
    (h : SameCache { c with log := [] } (handle B m { c with log := [] }).2) :
    (step B c m).portalCache = c.portalCache :=
  step_frame (R := SameCache) SameCache.trans (fun e c => recover_portalCache B c e) h

/-- A Describe of a portal caches the result of its statement and answers with a RowDescription, or
does neither. -/
theorem describePortal_cases (c : Conn σ V) (name : String) :
    (∃ p full f, c.portals.get? name = some p ∧ p.full B = .ok full ∧
      (B.run c.backend full).1 = .ok (.frame f) ∧
      (step B c (.describePortal name)).portalCache = c.portalCache.set name f ∧
      (step B c (.describePortal name)).log.any Event.isRowDescription = true) ∨
    (step B c (.describePortal name)).portalCache = c.portalCache ∧
      (step B c (.describePortal name)).log.any Event.isRowDescription = false := by
  have hhandle : handle B (.describePortal name) { c with log := [] } =
      (Proc.lift (((c.portals.get? name).getD ⟨"", [], []⟩).full B) >>= fun full =>
        describeOutput B full name) { c with log := [] } := rfl
  cases hf : ((c.portals.get? name).getD ⟨"", [], []⟩).full B with
  | error e =>
    rw [hf] at hhandle
    rw [step_error B c hhandle]
    refine .inr ⟨recover_portalCache B _ e, ?_⟩
    rw [recover_apply, ready_apply]
    cases B.inTxn c.backend <;> rfl
  | ok full =>
    rw [hf, Proc.lift_bind_ok] at hhandle
    by_cases hrows : blank full = false ∧ firstKeyword B.chars full ∈ rowHeads
    · rw [describeOutput_rows B _ name hrows.1 hrows.2] at hhandle
      rcases hr : (B.run c.backend full).1 with e | r
      · rw [hr] at hhandle
        rw [step_ok B c hhandle]
        exact .inr ⟨rfl, rfl⟩
      · cases r with
        | frame f =>
          rw [hr] at hhandle
          rw [step_ok B c hhandle]
          cases hp : c.portals.get? name with
          | none =>
            -- an unbound name is read as the empty statement
            rw [hp] at hf
            cases hf
            exact absurd hrows.1 (by decide)
          | some p =>
            rw [hp] at hf
            exact .inl ⟨p, full, f, rfl, hf, hr, rfl, rfl⟩
        | count n =>
          rw [hr] at hhandle
          rw [step_ok B c hhandle]
          exact .inr ⟨rfl, rfl⟩
        | none =>
          rw [hr] at hhandle
          rw [step_ok B c hhandle]
          exact .inr ⟨rfl, rfl⟩
    · have hno : describeOutput B full name { c with log := [] } =
          (.ok (), { c with log := [.sent .noData] }) := by
        unfold describeOutput
        by_cases hb : blank full = true
        · rw [if_pos hb]
          rfl
        · rw [if_neg hb, if_neg fun hk => hrows ⟨Bool.eq_false_iff.mpr hb, hk⟩]
          rfl
      rw [hno] at hhandle
      rw [step_ok B c hhandle]
      exact .inr ⟨rfl, rfl⟩

/-- An Execute takes at most the entry of its own name out of the cache. -/
theorem execute_cache {c : Conn σ V} {name q : String} {maxrows : Nat} {f : Frame V}
    (h : (step B c (.execute name maxrows)).portalCache.get? q = some f) :
    c.portalCache.get? q = some f := by
  cases hp : c.portals.get? name with
  | none =>
    rw [step_ok B c (m := .execute name maxrows)
      (execute_none B { c with log := [] } maxrows hp)] at h
    exact h
  | some p =>
    have hcache : (step B c (.execute name maxrows)).portalCache = c.portalCache.erase name := by
      have hi := keeps_gated (S := fun _ => True) B maxrows (c.portalCache.get? name)
        (fun _ (_ : p.full B = _) _ _ => trivial)
        { c with portalCache := c.portalCache.erase name, log := [] }
      rcases hh : handle B (.execute name maxrows) { c with log := [] } with ⟨r, c'⟩
      have hh' := hh
      rw [handle, execute_some B { c with log := [] } maxrows hp] at hh'
      rw [hh'] at hi
      cases r with
      | ok u =>
        rw [step_ok B c hh]
        exact hi.portalCache
      | error e =>
        rw [step_error B c hh, recover_portalCache]
        exact hi.portalCache
    rw [hcache, Dict.get?_erase] at h
    split at h
    · cases h
    · exact h

end Cache

/-! ## 3. What the cache holds -/

section Runs

variable {B}

/-- What a Describe cached since the Bind is the result of the statement that is bound. -/
def Track.Sound (B : Backend σ V Tree) (t : Track σ V) : Prop :=
  ∀ name f, t.fresh name = true → t.conn.portalCache.get? name = some f →
    ∃ p full, t.conn.portals.get? name = some p ∧ p.full B = .ok full ∧
      ∃ s ∈ t.moments name, (B.run s full).1 = .ok (.frame f)

/-- A message that does not rebind a name leaves the portal under it. -/
theorem portals_of_not_rebinds {c : Conn σ V} {m : Message} {name : String}
    (h : rebinds name m = false) : (step B c m).portals.get? name = c.portals.get? name := by
  rw [step_portals]
  cases m with
  | bind portal stmtName fmts params rfmts =>
    rw [portalsAfter]
    split
    · rfl
    · rename_i hb
      rw [Dict.get?_set, if_neg]
      rintro rfl
      simp only [not_or] at hb
      simp [rebinds, hb.1, hb.2] at h
  | closePortal portal =>
    rw [portalsAfter, Dict.get?_erase, if_neg]
    rintro rfl
    simp [rebinds] at h
  | _ => rfl

/-- Only a Describe that is answered by a RowDescription puts something into the cache. -/
theorem cache_of_not_describes {c : Conn σ V} {m : Message} {name : String} {f : Frame V}
    (hd : describes B c name m = false)
    (h : (step B c m).portalCache.get? name = some f) : c.portalCache.get? name = some f := by
  have hsame : (step B c m).portalCache = c.portalCache → c.portalCache.get? name = some f := by
    intro hc
    rw [← hc]
    exact h
  cases m with
  | query sql =>
    refine hsame (sameCache_step ?_)
    obtain ⟨c₁, e, hi, hq | hq⟩ := simpleQuery_inner B { c with log := [] } sql
    · rw [handle, hq]
      exact hi.portalCache
    · rw [handle, hq]
      exact hi.portalCache
  | parse stmt sql oids => exact h
  | bind portal stmtName fmts params rfmts =>
    refine hsame (sameCache_step ?_)
    rw [handle, bind]
    split
    · rfl
    · split
      · rfl
      · rfl
  | describeStatement stmt =>
    refine hsame (sameCache_step ?_)
    rw [handle, describeStatement, Proc.get_bind]
    split
    · rfl
    · rfl
  | describePortal portal =>
    rcases describePortal_cases (B := B) c portal with ⟨p, full, g, -, -, -, hc, hlog⟩ | ⟨hc, -⟩
    · rw [hc, Dict.get?_set] at h
      split at h
      · rename_i hn
        rw [describes, hlog, hn] at hd
        simp at hd
      · exact h
    · exact hsame hc
  | execute portal maxrows => exact execute_cache h
  | sync => exact h
  | closeStatement stmt => exact h
  | closePortal portal => exact h
  | flush => exact h
  | unsupported t => exact h
  | malformed message =>
    refine hsame (sameCache_step ?_)
    rfl

theorem Track.Sound.next {t : Track σ V} (h : t.Sound B) (m : Message) :
    (t.next B m).Sound B := by
  intro name f hfresh hcache
  change (!rebinds name m && (t.fresh name || describes B t.conn name m)) = true at hfresh
  change (step B t.conn m).portalCache.get? name = some f at hcache
  rw [Bool.and_eq_true, Bool.not_eq_true'] at hfresh
  obtain ⟨hre, hfresh⟩ := hfresh
  have hmoments : (t.next B m).moments name = t.moments name ++ [t.conn.backend] := by
    change (if rebinds name m then _ else _) = _
    rw [hre]
    rfl
  have hportal : (t.next B m).conn.portals.get? name = t.conn.portals.get? name :=
    portals_of_not_rebinds hre
  rw [hmoments, hportal]
  cases hd : describes B t.conn name m with
  | false =>
    rw [hd, Bool.or_false] at hfresh
    obtain ⟨p, full, hp, hf, s, hs, hr⟩ := h name f hfresh (cache_of_not_describes hd hcache)
    exact ⟨p, full, hp, hf, s, List.mem_append_left _ hs, hr⟩
  | true =>
    cases m with
    | describePortal portal =>
      rw [describes, Bool.and_eq_true, decide_eq_true_eq] at hd
      obtain ⟨rfl, hlog⟩ := hd
      rcases describePortal_cases (B := B) t.conn portal with
        ⟨p, full, g, hp, hf, hr, hc, -⟩ | ⟨-, hno⟩
      · rw [hc, Dict.get?_set, if_pos rfl] at hcache
        cases hcache
        exact ⟨p, full, hp, hf, t.conn.backend, by simp, hr⟩
      · rw [hno] at hlog
        cases hlog
    | _ => cases hd

/-! ## 4. The rows of an Execute -/

theorem rowsOf_append (xs ys : List Event) : rowsOf (xs ++ ys) = rowsOf xs ++ rowsOf ys :=
  List.filterMap_append

theorem rowsOf_showFrame (sql : String) (f : Frame V) (maxrows : Nat) :
    rowsOf ((showResult B sql (.frame f) false maxrows).map Event.sent) = shown B maxrows f := by
  unfold showResult
  dsimp only
  rw [if_neg (by decide), List.nil_append, List.map_append, rowsOf_append]
  simp [rowsOf, dataRows, shown, List.filterMap_map, Function.comp_def]

theorem rowsOf_settled (sql : String) (c : Conn σ V) :
    rowsOf (settled B sql c).log = rowsOf c.log := by
  unfold settled
  split
  · rw [rowsOf_append]
    exact List.append_nil _
  · split
    · rfl
    · rfl

/-- What a portal shows when something is cached: the cached frame, unless the cache is not asked. -/
theorem executePortal_cached (c : Conn σ V) (p : Portal) (maxrows : Nat) (f : Frame V) :
    executePortal B p maxrows (some f) c = executePortal B p maxrows none c ∨
    executePortal B p maxrows (some f) c = emitResult B p.sql (.frame f) false maxrows c := by
  unfold executePortal
  cases hf : p.full B with
  | error e => exact .inl (by rw [Proc.lift_bind_error, Proc.lift_bind_error])
  | ok full =>
    simp only [Proc.lift_bind_ok]
    split
    · exact .inl rfl
    · exact .inr rfl

/-- An Execute uses what is cached only behind the gate, and not for a cursor statement. -/
theorem execute_rows {c : Conn σ V} {name : String} (maxrows : Nat) {p : Portal} {f : Frame V}
    (hp : c.portals.get? name = some p) (hc : c.portalCache.get? name = some f) :
    rowsOf (step B c (.execute name maxrows)).log = rowsOf (step B
      { c with portalCache := c.portalCache.erase name } (.execute name maxrows)).log ∨
    rowsOf (step B c (.execute name maxrows)).log = shown B maxrows f := by
  have hnow : handle B (.execute name maxrows) { c with log := [] } =
      (gate B p.sql >>= fun go => if go then executePortal B p maxrows (some f) else pure ())
        { c with portalCache := c.portalCache.erase name, log := [] } := by
    rw [handle, execute_some B { c with log := [] } maxrows hp, hc]
  have herased : handle B (.execute name maxrows)
      { c with portalCache := c.portalCache.erase name, log := [] } =
      (gate B p.sql >>= fun go => if go then executePortal B p maxrows none else pure ())
        { c with portalCache := c.portalCache.erase name, log := [] } := by
    rw [handle, execute_some B { c with portalCache := c.portalCache.erase name, log := [] }
      maxrows hp]
    simp only [Dict.get?_erase, if_true, Dict.erase_erase]
  have hsame : handle B (.execute name maxrows) { c with log := [] } =
      handle B (.execute name maxrows)
        { c with portalCache := c.portalCache.erase name, log := [] } →
      rowsOf (step B c (.execute name maxrows)).log = rowsOf (step B
        { c with portalCache := c.portalCache.erase name } (.execute name maxrows)).log := by
    intro h
    rw [step, step, h]
  by_cases hg : c.failed = true ∧ firstKeyword B.chars p.sql ≠ "ROLLBACK"
  · have hgate := gate_shut B
      (c := { c with portalCache := c.portalCache.erase name, log := [] }) hg
    refine .inl (hsame ?_)
    rw [hnow, herased, Proc.bind_of_ok hgate, Proc.bind_of_ok hgate,
      if_neg Bool.false_ne_true, if_neg Bool.false_ne_true]
  · have hgate := gate_open B
      (c := { c with portalCache := c.portalCache.erase name, log := [] }) hg
    rw [Proc.bind_of_ok hgate, if_pos rfl] at hnow herased
    rcases executePortal_cached (B := B)
      { c with portalCache := c.portalCache.erase name, log := [] } p maxrows f with h | h
    · exact .inl (hsame (by rw [hnow, herased, h]))
    · right
      rw [h, emitResult_apply] at hnow
      rw [step_ok B c hnow, rowsOf_settled]
      exact rowsOf_showFrame p.sql f maxrows

/-- With nothing cached an Execute runs its statement now. -/
theorem execute_uncached {c : Conn σ V} {name : String} {maxrows : Nat}
    (hc : c.portals.get? name = none ∨ c.portalCache.get? name = none) :
    rowsOf (step B c (.execute name maxrows)).log = rowsOf (step B
      { c with portalCache := c.portalCache.erase name } (.execute name maxrows)).log := by
  cases hp : c.portals.get? name with
  | none =>
    have h₁ : handle B (.execute name maxrows) { c with log := [] } = _ :=
      execute_none B { c with log := [] } maxrows hp
    have h₂ : handle B (.execute name maxrows)
        { c with portalCache := c.portalCache.erase name, log := [] } = _ :=
      execute_none B { c with portalCache := c.portalCache.erase name, log := [] } maxrows hp
    rw [step_ok B c h₁, step_ok B { c with portalCache := c.portalCache.erase name } h₂]
  | some p =>
    have hc : c.portalCache.get? name = none := hc.resolve_left (by rw [hp]; exact nofun)
    have h : handle B (.execute name maxrows) { c with log := [] } =
        handle B (.execute name maxrows)
          { c with portalCache := c.portalCache.erase name, log := [] } := by
      rw [handle, execute_some B { c with log := [] } maxrows hp, execute_some B
        { c with portalCache := c.portalCache.erase name, log := [] } maxrows hp]
      simp only [hc, Dict.get?_erase, if_true, Dict.erase_erase]
    rw [step, step, h]

/-- **The rows of a portal.**  In every run from a new connection in which every Execute finds the
cache empty for its name or filled since the last Bind or Close of the name, the rows of every
Execute are those of the statement and parameters bound to its portal, run now or at a moment since
the Bind. -/
theorem portal_rows (s : σ) (ms : List Message)
    (h : Run.Along (Track.next B) Uncrossed { conn := { backend := s } } ms) :
    Run.Along (Track.next B) (Matches B) { conn := { backend := s } } ms := by
  refine Run.Along.imp (P := Track.Sound B) ?_ (fun name f hf => by cases hf) h
  intro t m hs hm
  refine ⟨?_, hs.next m⟩
  rintro name maxrows rfl
  cases hp : t.conn.portals.get? name with
  | none => exact .inl (execute_uncached (.inl hp))
  | some p =>
    cases hc : t.conn.portalCache.get? name with
    | none => exact .inl (execute_uncached (.inr hc))
    | some f =>
      rcases execute_rows maxrows hp hc with hrows | hrows
      · exact .inl hrows
      · have hfresh : t.fresh name = true :=
          (hm name maxrows rfl).resolve_left (by rw [hc]; exact nofun)
        obtain ⟨p', full, hp', hf, s, hs, hr⟩ := hs name f hfresh hc
        rw [hp] at hp'
        cases hp'
        exact .inr ⟨p, full, rfl, hf, s, hs, f, hr, hrows⟩

end Runs

/-- Parse, Bind, Describe, Execute. -/
def describedRun : List Message :=
  [.parse "" "SELECT k FROM t" [], .bind "" "" [] [] [], .describePortal "", .execute "" 0]

theorem portal_rows_described : Run.Along (Track.next twoTableServer) (Matches twoTableServer)
    { conn := { backend := twoTableSite } } describedRun :=
  portal_rows twoTableSite describedRun ⟨nofun, nofun, nofun, fun name maxrows h => by
    cases h
    exact .inr (by decide), trivial⟩

/-- The unnamed portal is bound to `a` and described, then bound to `b` and executed. -/
def crossedRun : List Message :=
  [.parse "a" "SELECT k FROM t" [], .parse "b" "SELECT k FROM u" [], .bind "" "a" [] [] [],
    .describePortal "", .bind "" "b" [] [] [], .execute "" 0]

/-- **A portal that is bound again shows the rows of its old statement.** -/
theorem rebound_portal_shows_old_rows : ¬ Run.Along (Track.next twoTableServer)
    (Matches twoTableServer) { conn := { backend := twoTableSite } } crossedRun := by
  rintro ⟨-, -, -, -, -, h, -⟩
  rcases h "" 0 rfl with h | ⟨p, full, -, -, s, hs, -⟩
  · exact absurd h (by decide)
  · cases hs

end Pg

end RyuDB
