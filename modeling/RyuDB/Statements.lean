/-
# Statement splitting and the lexical structure of SQL

`_split_statements` reads the text of a simple query character by character, with an open quote and a
depth of parentheses, and cuts it at the semicolons outside both.  Standard SQL is read differently in
two places: a backslash is an ordinary character of a string, and the text of a comment has no quotes,
parentheses or semicolons.

A `Lexis` is one way of reading SQL; `standard` is the reading of the standard and `scanner` the one
`_split_statements` has.

* `splitStatements_lexical`: the statements come back exactly when all but the last are complete for the
  scanner too, and the last has no semicolon at its top level there.
* `splitStatements_tame`: statements with no backslash in a string and none of the scanner's characters in
  a comment come back as they were.
-/
import Mathlib.Data.List.TakeWhile
import RyuDB.PgText

namespace RyuDB

namespace Pg

/-! ## 1. Ways of reading SQL -/

/-- Where a reader is: outside everything, perhaps after a character that may begin a comment; in a
string, perhaps after a backslash that takes the next character; in a quoted identifier; in a line
comment; in a block comment with `n` open around it, perhaps after a character of a bracket. -/
inductive Mode where
  | plain
  | dash
  | slash
  | single
  | escaped
  | double
  | line
  | block (n : Nat)
  | star (n : Nat)
  | opening (n : Nat)
  deriving DecidableEq, Repr

/-- Outside strings, quoted identifiers and comments. -/
def Mode.outside : Mode → Bool
  | .plain | .dash | .slash => true
  | _ => false

/-- Inside a comment. -/
def Mode.comment : Mode → Bool
  | .line | .block _ | .star _ | .opening _ => true
  | _ => false

/-- A way of reading SQL. -/
structure Lexis where
  /-- A backslash in a string takes the next character with it. -/
  escapes : Bool
  /-- There are comments. -/
  comments : Bool
  /-- Block comments nest. -/
  nested : Bool
  /-- A closing parenthesis needs an open one. -/
  paired : Bool

/-- The reading of the standard, where nested block comments are optional. -/
def standard (nested : Bool) : Lexis where
  escapes := false
  comments := true
  nested := nested
  paired := true

/-- The reading of `_split_statements`. -/
def scanner : Lexis where
  escapes := true
  comments := false
  nested := false
  paired := false

namespace Lexis

variable (L : Lexis)

/-- The mode after a character outside everything. -/
def token (c : Char) : Mode :=
  if c = Char.ofNat 39 then .single
  else if c = Char.ofNat 34 then .double
  else if L.comments ∧ c = '-' then .dash
  else if L.comments ∧ c = '/' then .slash
  else .plain

/-- The mode after a character. -/
def next : Mode → Char → Mode
  | .plain, c => L.token c
  | .dash, c => if c = '-' then .line else L.token c
  | .slash, c => if c = '*' then .block 0 else L.token c
  | .single, c =>
    if c = Char.ofNat 39 then .plain
    else if L.escapes ∧ c = Char.ofNat 92 then .escaped
    else .single
  | .escaped, _ => .single
  | .double, c => if c = Char.ofNat 34 then .plain else .double
  | .line, c => if c = '\n' ∨ c = '\r' then .plain else .line
  | .block n, c =>
    if c = '*' then .star n
    else if L.nested ∧ c = '/' then .opening n
    else .block n
  | .star n, c =>
    if c = '/' then
      match n with
      | 0 => .plain
      | n + 1 => .block n
    else if c = '*' then .star n
    else .block n
  | .opening n, c =>
    if c = '*' then .block (n + 1)
    else if c = '/' then .opening n
    else .block n

end Lexis

/-- A mode and the number of open parentheses. -/
structure Place where
  mode : Mode
  depth : Int
  deriving DecidableEq, Repr

/-- Between two statements. -/
def Place.start : Place := ⟨.plain, 0⟩

namespace Lexis

variable (L : Lexis)

/-- One character of a statement.  A semicolon outside everything is none. -/
def step (p : Place) (c : Char) : Option Place :=
  if p.mode.outside then
    if c = '(' then some ⟨.plain, p.depth + 1⟩
    else if c = ')' then
      if L.paired ∧ p.depth ≤ 0 then none else some ⟨.plain, p.depth - 1⟩
    else if c = ';' ∧ p.depth = 0 then none
    else some ⟨L.next p.mode c, p.depth⟩
  else some ⟨L.next p.mode c, p.depth⟩

/-- The characters of a statement. -/
def read : Place → List Char → Option Place
  | p, [] => some p
  | p, c :: cs => (L.step p c).bind fun q => read q cs

/-- The text has no semicolon at its top level. -/
def Whole (s : String) : Prop := (L.read .start s.toList).isSome

/-- The text is a complete statement: no semicolon at its top level, no open string, identifier or
comment at its end, and its parentheses balanced. -/
def Complete (s : String) : Prop :=
  ∃ p, L.read .start s.toList = some p ∧ p.mode.outside ∧ p.depth = 0

instance (s : String) : Decidable (L.Whole s) := inferInstanceAs (Decidable (_ = true))

instance (s : String) : Decidable (L.Complete s) :=
  decidable_of_iff (((L.read .start s.toList).any fun p => p.mode.outside && p.depth == 0) = true) <| by
    simp [Complete, Option.any_eq_true]

variable {L}

theorem Complete.whole {s : String} (h : L.Complete s) : L.Whole s := by
  obtain ⟨p, hp, -⟩ := h
  simp [Whole, hp]

theorem read_append {p q : Place} {s : List Char} (h : L.read p s = some q) (t : List Char) :
    L.read p (s ++ t) = L.read q t := by
  induction s generalizing p with
  | nil =>
    obtain rfl : p = q := by simpa [read] using h
    rfl
  | cons c cs ih =>
    rw [read, Option.bind_eq_some_iff] at h
    obtain ⟨r, hr, h⟩ := h
    rw [List.cons_append, read, hr, Option.bind_some]
    exact ih h

end Lexis

/-! ## 2. Blanks -/

theorem strip_eq_nil {u : List Char} : strip u = [] ↔ ∀ c ∈ u, isSpace c := by
  simp only [strip, List.reverse_eq_nil_iff, List.dropWhile_eq_nil_iff, List.mem_reverse]
  constructor
  · intro h c hc
    rw [← List.takeWhile_append_dropWhile (p := isSpace) (l := u), List.mem_append] at hc
    rcases hc with hc | hc
    · exact List.mem_takeWhile_imp hc
    · exact h c hc
  · intro h c hc
    exact h c ((List.dropWhile_sublist _).mem hc)

/-- A text that is not blank and goes on with a semicolon is a different statement. -/
theorem strip_append_semicolon {u : List Char} (hu : strip u ≠ []) (w : List Char) :
    strip (u ++ ';' :: w) ≠ strip u := by
  have hx : u.dropWhile isSpace ≠ [] := by
    intro h
    simp [strip, h] at hu
  have hleft : (u ++ ';' :: w).dropWhile isSpace = u.dropWhile isSpace ++ ';' :: w := by
    rw [List.dropWhile_append, if_neg (by simpa using hx)]
  have hright : (strip u).length ≤ (u.dropWhile isSpace).length := by
    rw [strip, List.length_reverse, ← @List.length_reverse _ (u.dropWhile isSpace)]
    exact (List.dropWhile_sublist _).length_le
  have hlong : (u.dropWhile isSpace).length < (strip (u ++ ';' :: w)).length := by
    rw [strip, hleft, List.reverse_append, List.reverse_cons, List.append_assoc, List.dropWhile_append]
    have hsemi : isSpace ';' = false := by decide
    split_ifs <;> simp [hsemi]
  intro heq
  rw [heq] at hlong
  omega

theorem endStatement_blank {u : List Char} (h : strip u = []) : endStatement u = [] := if_pos h

theorem endStatement_cons {u : List Char} (h : strip u ≠ []) :
    endStatement u = [.ofList (strip u)] := if_neg h

/-- The lists that begin with a statement and with the same statement gone on are different. -/
theorem endStatement_ne {u : List Char} (hu : strip u ≠ []) (w : List Char) (xs ys : List String) :
    endStatement (u ++ ';' :: w) ++ xs ≠ endStatement u ++ ys := by
  have hlong : strip (u ++ ';' :: w) ≠ [] := by
    intro h
    have := strip_eq_nil.mp h ';' (by simp)
    revert this
    decide
  rw [endStatement_cons hu, endStatement_cons hlong, List.singleton_append, List.singleton_append]
  intro h
  exact strip_append_semicolon hu w (String.ofList_inj.mp (List.cons.inj h).1)

/-- No way of reading sees anything in a blank. -/
theorem Lexis.step_blank (L : Lexis) {c : Char} (hc : isSpace c) (n : Int) :
    L.step ⟨.plain, n⟩ c = some ⟨.plain, n⟩ := by
  have hne : ∀ d : Char, isSpace d = false → c ≠ d := by
    rintro d hd rfl
    simp [hd] at hc
  simp [step, next, token, Mode.outside, hne '(' (by decide), hne ')' (by decide), hne ';' (by decide),
    hne (Char.ofNat 39) (by decide), hne (Char.ofNat 34) (by decide), hne '-' (by decide),
    hne '/' (by decide)]

theorem Lexis.read_blank (L : Lexis) {s : List Char} (hs : strip s = []) (n : Int) :
    L.read ⟨.plain, n⟩ s = some ⟨.plain, n⟩ := by
  rw [strip_eq_nil] at hs
  induction s with
  | nil => rfl
  | cons c cs ih =>
    rw [read, L.step_blank (hs c (by simp)), Option.bind_some]
    exact ih fun d hd => hs d (by simp [hd])

/-- The statement before a top-level semicolon is not blank for one way of reading, if another way
reads over the semicolon. -/
theorem Lexis.not_blank {L : Lexis} {u v : List Char} (h : (L.read .start (u ++ ';' :: v)).isSome) :
    strip u ≠ [] := by
  intro hu
  rw [Place.start, read_append (L.read_blank hu 0)] at h
  simp [read, step, Mode.outside] at h

/-! ## 3. The loop -/

/-- The modes of the loop. -/
def Mode.scanned : Mode → Bool
  | .plain | .single | .escaped | .double => true
  | _ => false

/-- The loop of `_split_statements` from a place of its reading. -/
def resume (p : Place) (cs cur : List Char) : List String :=
  match p.mode with
  | .single => splitLoop cs (some (Char.ofNat 39)) p.depth cur
  | .double => splitLoop cs (some (Char.ofNat 34)) p.depth cur
  | .escaped =>
    match cs with
    | [] => endStatement cur
    | c :: cs => splitLoop cs (some (Char.ofNat 39)) p.depth (cur ++ [c])
  | _ => splitLoop cs none p.depth cur

theorem resume_nil (p : Place) (cur : List Char) : resume p [] cur = endStatement cur := by
  unfold resume
  split <;> simp [splitLoop]

theorem splitLoop_close (q : Char) (depth : Int) (cs cur : List Char) :
    splitLoop (q :: cs) (some q) depth cur = splitLoop cs none depth (cur ++ [q]) := by
  cases cs <;> simp [splitLoop]

theorem splitLoop_quoted {q c : Char} (hq : c ≠ q) (he : ¬(c = Char.ofNat 92 ∧ q = Char.ofNat 39))
    (depth : Int) (cs cur : List Char) :
    splitLoop (c :: cs) (some q) depth cur = splitLoop cs (some q) depth (cur ++ [c]) := by
  cases cs <;> simp [splitLoop, hq, he]

/-- A character that ends no statement. -/
theorem resume_step {p q : Place} {c : Char} (hp : p.mode.scanned) (h : scanner.step p c = some q)
    (cs cur : List Char) : q.mode.scanned ∧ resume p (c :: cs) cur = resume q cs (cur ++ [c]) := by
  obtain ⟨mode, depth⟩ := p
  cases mode with
  | plain =>
    simp only [Lexis.step, Lexis.next, Lexis.token, Mode.outside, scanner] at h
    simp only [resume, splitLoop]
    by_cases hquote : c = Char.ofNat 39 ∨ c = Char.ofNat 34
    · rcases hquote with rfl | rfl
      · obtain rfl : _ = q := by simpa using h
        simp [Mode.scanned]
      · obtain rfl : _ = q := by simpa using h
        simp [Mode.scanned]
    rw [if_neg hquote]
    obtain ⟨h39, h34⟩ := not_or.mp hquote
    by_cases hopen : c = '('
    · obtain rfl : _ = q := by simpa [hopen] using h
      simp [Mode.scanned, hopen]
    by_cases hclose : c = ')'
    · obtain rfl : _ = q := by simpa [hclose] using h
      simp [Mode.scanned, hclose]
    by_cases hsemi : c = ';' ∧ depth = 0
    · simp [hsemi] at h
    · obtain rfl : _ = q := by simpa [hopen, hclose, hsemi, h39, h34] using h
      simp [Mode.scanned, hopen, hclose, hsemi]
  | single =>
    by_cases h39 : c = Char.ofNat 39
    · subst h39
      obtain rfl : _ = q := by simpa [Lexis.step, Lexis.next, Mode.outside] using h
      simp [Mode.scanned, resume, splitLoop_close]
    by_cases h92 : c = Char.ofNat 92
    · subst h92
      obtain rfl : _ = q := by simpa [Lexis.step, Lexis.next, Mode.outside, scanner] using h
      cases cs <;> simp [Mode.scanned, resume, splitLoop]
    · obtain rfl : _ = q := by simpa [Lexis.step, Lexis.next, Mode.outside, h39, h92] using h
      exact ⟨rfl, splitLoop_quoted h39 (fun h => h92 h.1) depth cs cur⟩
  | double =>
    by_cases h34 : c = Char.ofNat 34
    · subst h34
      obtain rfl : _ = q := by simpa [Lexis.step, Lexis.next, Mode.outside] using h
      simp [Mode.scanned, resume, splitLoop_close]
    · obtain rfl : _ = q := by simpa [Lexis.step, Lexis.next, Mode.outside, h34] using h
      exact ⟨rfl, splitLoop_quoted h34 (fun h => absurd h.2 (by decide)) depth cs cur⟩
  | escaped =>
    obtain rfl : _ = q := by simpa [Lexis.step, Lexis.next, Mode.outside] using h
    simp [resume, Mode.scanned]
  | _ => simp [Mode.scanned] at hp

/-- The semicolon that ends a statement. -/
theorem resume_cut {p : Place} {c : Char} (hp : p.mode.scanned) (h : scanner.step p c = none)
    (cs cur : List Char) :
    c = ';' ∧ p = .start ∧ resume p (c :: cs) cur = endStatement cur ++ resume .start cs [] := by
  obtain ⟨mode, depth⟩ := p
  have hout : mode.outside := by
    by_contra hin
    simp [Lexis.step, hin] at h
  obtain rfl : mode = .plain := by cases mode <;> simp_all [Mode.scanned, Mode.outside]
  have hc : c = ';' ∧ depth = 0 := by
    simp only [Lexis.step, Mode.outside, scanner] at h
    split_ifs at h with h₁ h₂ h₃ h₄ <;> simp_all
  obtain ⟨rfl, rfl⟩ := hc
  refine ⟨rfl, rfl, ?_⟩
  simp [resume, splitLoop, Place.start]

/-- A text the scanner reads over is added to the statement. -/
theorem resume_read {s : List Char} {p q : Place} (hp : p.mode.scanned)
    (h : scanner.read p s = some q) (cs cur : List Char) :
    q.mode.scanned ∧ resume p (s ++ cs) cur = resume q cs (cur ++ s) := by
  induction s generalizing p cur with
  | nil =>
    obtain rfl : p = q := by simpa [Lexis.read] using h
    simpa using hp
  | cons c s ih =>
    rw [Lexis.read, Option.bind_eq_some_iff] at h
    obtain ⟨r, hr, h⟩ := h
    obtain ⟨hscanned, hstep⟩ := resume_step hp hr (s ++ cs) cur
    obtain ⟨hq, hrest⟩ := ih hscanned h (cur ++ [c])
    exact ⟨hq, by rw [List.cons_append, hstep, hrest, List.append_assoc, List.singleton_append]⟩

/-- A text the scanner does not read over has a semicolon at which it ends a statement. -/
theorem resume_read_none {s : List Char} {p : Place} (hp : p.mode.scanned)
    (h : scanner.read p s = none) (cs cur : List Char) :
    ∃ u v, s = u ++ ';' :: v ∧
      resume p (s ++ cs) cur = endStatement (cur ++ u) ++ resume .start (v ++ cs) [] := by
  induction s generalizing p cur with
  | nil => simp [Lexis.read] at h
  | cons c s ih =>
    rw [Lexis.read] at h
    cases hr : scanner.step p c with
    | none =>
      obtain ⟨rfl, -, hcut⟩ := resume_cut hp hr (s ++ cs) cur
      exact ⟨[], s, rfl, by simpa using hcut⟩
    | some r =>
      rw [hr, Option.bind_some] at h
      obtain ⟨hscanned, hstep⟩ := resume_step hp hr (s ++ cs) cur
      obtain ⟨u, v, rfl, hrest⟩ := ih hscanned h (cur ++ [c])
      refine ⟨c :: u, v, rfl, ?_⟩
      rw [List.cons_append, hstep, hrest, List.append_assoc, List.singleton_append]

/-- The first statement of what is left begins with what is collected. -/
theorem resume_first {p : Place} (hp : p.mode.scanned) (cs cur : List Char) :
    ∃ w xs, resume p cs cur = endStatement (cur ++ w) ++ xs := by
  cases h : scanner.read p cs with
  | none =>
    obtain ⟨u, v, -, hcut⟩ := resume_read_none hp h [] cur
    exact ⟨u, resume .start v [], by simpa using hcut⟩
  | some q =>
    have hrest := (resume_read hp h [] cur).2
    rw [resume_nil, List.append_nil] at hrest
    exact ⟨cs, [], by simpa using hrest⟩

/-! ## 4. Statements joined with semicolons -/

/-- The statements that are not blank, without the blanks around them. -/
def nonBlank (stmts : List String) : List String :=
  (stmts.filter fun s => !blank s).map fun s => .ofList (strip s.toList)

theorem nonBlank_cons (s : String) (stmts : List String) :
    nonBlank (s :: stmts) = endStatement s.toList ++ nonBlank stmts := by
  by_cases h : strip s.toList = []
  · have hb : blank s := by simpa [blank, strip_eq_nil] using h
    simp [nonBlank, hb, endStatement_blank h]
  · have hb : blank s = false := by simpa [blank, strip_eq_nil] using h
    simp [nonBlank, hb, endStatement_cons h]

theorem splitStatements_resume (sql : String) : splitStatements sql = resume .start sql.toList [] := rfl

/-- The only statement of a text. -/
theorem splitStatements_last {L : Lexis} {s : String} (hs : L.Whole s) :
    splitStatements s = nonBlank [s] ↔ scanner.Whole s := by
  have hwant : nonBlank [s] = endStatement s.toList := by
    rw [nonBlank_cons]
    simp [nonBlank]
  rw [splitStatements_resume, hwant, Lexis.Whole]
  cases h : scanner.read .start s.toList with
  | some q =>
    have hrest := (resume_read rfl h [] []).2
    rw [List.append_nil, resume_nil, List.nil_append] at hrest
    simp [hrest]
  | none =>
    obtain ⟨u, v, huv, hcut⟩ := resume_read_none rfl h [] []
    have hu : strip u ≠ [] := L.not_blank (by rwa [← huv])
    rw [List.append_nil, List.nil_append] at hcut
    have hne := endStatement_ne hu v [] (resume .start (v ++ []) [])
    rw [← huv, List.append_nil, ← hcut] at hne
    simpa using hne.symm

/-- The first of several statements. -/
theorem splitStatements_cons {L : Lexis} {s : String} (hs : L.Whole s) (t : String)
    (stmts : List String) :
    splitStatements (";".intercalate (s :: t :: stmts)) = nonBlank (s :: t :: stmts) ↔
      scanner.Complete s ∧
        splitStatements (";".intercalate (t :: stmts)) = nonBlank (t :: stmts) := by
  have htext : (";".intercalate (s :: t :: stmts)).toList =
      s.toList ++ ';' :: (";".intercalate (t :: stmts)).toList := by
    simp
  rw [splitStatements_resume, splitStatements_resume, htext, nonBlank_cons]
  generalize (";".intercalate (t :: stmts)).toList = rest
  cases h : scanner.read .start s.toList with
  | none =>
    obtain ⟨u, v, huv, hcut⟩ := resume_read_none rfl h (';' :: rest) []
    have hu : strip u ≠ [] := L.not_blank (by rwa [← huv])
    have hne := endStatement_ne hu v (nonBlank (t :: stmts)) (resume .start (v ++ ';' :: rest) [])
    rw [← huv] at hne
    rw [hcut, List.nil_append]
    exact ⟨fun heq => absurd heq.symm hne, fun ⟨hc, _⟩ => by simp [Lexis.Complete, h] at hc⟩
  | some q =>
    obtain ⟨hq, hrest⟩ := resume_read rfl h (';' :: rest) []
    rw [hrest, List.nil_append]
    cases hstep : scanner.step q ';' with
    | none =>
      obtain ⟨-, rfl, hcut⟩ := resume_cut hq hstep rest s.toList
      have hcomplete : scanner.Complete s := ⟨.start, h, rfl, rfl⟩
      rw [hcut, List.append_cancel_left_eq]
      simp [hcomplete]
    | some r =>
      have hstart : q ≠ .start := by
        rintro rfl
        simp [Lexis.step, Place.start, Mode.outside] at hstep
      have hs : strip s.toList ≠ [] := by
        intro hb
        rw [Place.start, scanner.read_blank hb] at h
        exact hstart (Option.some.inj h).symm
      obtain ⟨hr, hgo⟩ := resume_step hq hstep rest s.toList
      obtain ⟨w, xs, hfirst⟩ := resume_first hr rest (s.toList ++ [';'])
      rw [hgo, hfirst, List.append_assoc, List.singleton_append]
      refine ⟨fun heq => absurd heq (endStatement_ne hs w xs _), fun ⟨hc, _⟩ => ?_⟩
      obtain ⟨p, hp, hout, hdepth⟩ := hc
      obtain rfl : p = q := Option.some.inj (hp.symm.trans h)
      obtain ⟨mode, depth⟩ := p
      obtain rfl : depth = 0 := hdepth
      obtain rfl : mode = .plain := by cases mode <;> simp_all [Mode.scanned, Mode.outside]
      exact absurd rfl hstart

/-- A simple query of complete statements is split at the semicolons between them exactly when the
scanner too finds every statement but the last complete, and no semicolon at the top level of the
last. -/
theorem splitStatements_lexical (nested : Bool) (stmts : List String)
    (h : ∀ s ∈ stmts, (standard nested).Complete s) :
    splitStatements (";".intercalate stmts) = nonBlank stmts ↔
      (∀ s ∈ stmts.dropLast, scanner.Complete s) ∧ ∀ s ∈ stmts.getLast?, scanner.Whole s := by
  induction stmts with
  | nil => simp [splitStatements, splitLoop, nonBlank, endStatement, strip]
  | cons s stmts ih =>
    have hs := (h s (by simp)).whole
    cases stmts with
    | nil => simpa using splitStatements_last hs
    | cons t stmts =>
      rw [splitStatements_cons hs, ih fun x hx => h x (by simp [hx])]
      simp [and_assoc]

/-- A semicolon in a string, parentheses and a comment. -/
theorem splitStatements_lexical_comment :
    splitStatements (";".intercalate ["SELECT 'a;b'", "SELECT (2)", "SELECT 1 /* last */"]) =
      nonBlank ["SELECT 'a;b'", "SELECT (2)", "SELECT 1 /* last */"] :=
  (splitStatements_lexical true _ (by decide +kernel)).mpr (by decide +kernel)

/-- After a backslash that ends a string, the text of the next string is a statement of its own; so is
the text of a comment. -/
theorem string_content_runs :
    ∃ s t : String, (standard true).Complete s ∧ (standard true).Complete t ∧
      splitStatements (";".intercalate [s]) = ["SELECT '\\', '", "DROP TABLE t", "'"] ∧
      splitStatements (";".intercalate [t]) = ["SELECT 1 /*", "DROP TABLE t", "*/"] ∧
      splitStatements (";".intercalate [s]) ≠ nonBlank [s] ∧
      splitStatements (";".intercalate [t]) ≠ nonBlank [t] :=
  ⟨"SELECT '\\', ';DROP TABLE t;'", "SELECT 1 /*;DROP TABLE t;*/", by decide +kernel⟩

/-! ## 5. Statements that are read alike -/

/-- The mode of the scanner where the standard's is known. -/
def Mode.seen : Mode → Mode
  | .single => .single
  | .double => .double
  | _ => .plain

/-- A character that both read alike: not a backslash in a string, nor one of the scanner's characters
in a comment. -/
def Mode.tame : Mode → Char → Prop
  | .plain, _ | .dash, _ | .slash, _ | .double, _ => True
  | .single, c => c ≠ Char.ofNat 92
  -- not a place of the standard's reading
  | .escaped, _ => False
  | .line, c | .block _, c | .star _, c | .opening _, c =>
    c ∉ [Char.ofNat 39, Char.ofNat 34, '(', ')', ';']

/-- All characters of a text are read alike. -/
def Tame (nested : Bool) : Place → List Char → Prop
  | _, [] => True
  | p, c :: cs => p.mode.tame c ∧ ∀ q, (standard nested).step p c = some q → Tame nested q cs

theorem token_seen (L : Lexis) (c : Char) : (L.token c).seen = scanner.token c := by
  unfold Lexis.token
  split_ifs <;> simp_all [Mode.seen, scanner]

/-- Outside everything both see a quote as a quote, and anything else as plain text. -/
theorem next_seen (L : Lexis) {m : Mode} (hm : m.outside) (c : Char) :
    (L.next m c).seen = scanner.token c := by
  cases m with
  | plain => exact token_seen L c
  | dash =>
    rw [Lexis.next]
    split_ifs with h
    · subst h
      decide
    · exact token_seen L c
  | slash =>
    rw [Lexis.next]
    split_ifs with h
    · subst h
      decide
    · exact token_seen L c
  | _ => simp [Mode.outside] at hm

/-- A comment goes on, or it ends. -/
theorem comment_seen (L : Lexis) {m : Mode} (hm : m.comment) (c : Char) : (L.next m c).seen = .plain := by
  cases m <;> simp [Mode.comment] at hm <;> simp only [Lexis.next] <;> split_ifs <;>
    first | rfl | (split <;> rfl)

theorem step_outside {nested : Bool} {p q : Place} {c : Char} (hp : p.mode.outside)
    (h : (standard nested).step p c = some q) :
    scanner.step ⟨.plain, p.depth⟩ c = some ⟨q.mode.seen, q.depth⟩ := by
  rw [Lexis.step, if_pos hp] at h
  rw [Lexis.step, if_pos (show Mode.plain.outside from rfl)]
  by_cases hopen : c = '('
  · obtain rfl : _ = q := by simpa [hopen] using h
    simp [hopen, Mode.seen]
  by_cases hclose : c = ')'
  · have hdepth : ¬((standard nested).paired ∧ p.depth ≤ 0) := by
      intro hneg
      simp [hclose, hneg] at h
    obtain rfl : _ = q := by simpa [hclose, hdepth] using h
    simp [hclose, Mode.seen, scanner]
  by_cases hsemi : c = ';' ∧ p.depth = 0
  · simp [hsemi] at h
  · obtain rfl : _ = q := by simpa [hopen, hclose, hsemi] using h
    rw [next_seen _ hp, if_neg hopen, if_neg hclose, if_neg hsemi]
    rfl

theorem step_comment {nested : Bool} {p q : Place} {c : Char} (hp : p.mode.comment)
    (hc : c ∉ [Char.ofNat 39, Char.ofNat 34, '(', ')', ';'])
    (h : (standard nested).step p c = some q) :
    scanner.step ⟨.plain, p.depth⟩ c = some ⟨q.mode.seen, q.depth⟩ := by
  have hin : p.mode.outside = false := by
    obtain ⟨mode, depth⟩ := p
    cases mode <;> simp_all [Mode.comment, Mode.outside]
  obtain rfl : _ = q := by simpa [Lexis.step, hin] using h
  simp only [List.mem_cons, List.not_mem_nil, or_false, not_or] at hc
  have htoken : scanner.token c = .plain := by simp [Lexis.token, scanner, hc]
  rw [comment_seen _ hp]
  simp [Lexis.step, Mode.outside, hc, Lexis.next, htoken]

theorem step_seen {nested : Bool} {p q : Place} {c : Char} (hc : p.mode.tame c)
    (h : (standard nested).step p c = some q) :
    scanner.step ⟨p.mode.seen, p.depth⟩ c = some ⟨q.mode.seen, q.depth⟩ := by
  obtain ⟨mode, depth⟩ := p
  cases mode with
  | plain | dash | slash => exact step_outside rfl h
  | line | block | star | opening => exact step_comment rfl hc h
  | escaped => exact hc.elim
  | single =>
    obtain rfl : _ = q := by simpa [Lexis.step, Lexis.next, Mode.outside, standard] using h
    have hc : c ≠ Char.ofNat 92 := hc
    by_cases h39 : c = Char.ofNat 39 <;>
      simp [Lexis.step, Lexis.next, Mode.outside, Mode.seen, scanner, hc, h39]
  | double =>
    obtain rfl : _ = q := by simpa [Lexis.step, Lexis.next, Mode.outside] using h
    by_cases h34 : c = Char.ofNat 34 <;>
      simp [Lexis.step, Lexis.next, Mode.outside, Mode.seen, h34]

theorem read_seen {nested : Bool} {s : List Char} {p q : Place} (ht : Tame nested p s)
    (h : (standard nested).read p s = some q) :
    scanner.read ⟨p.mode.seen, p.depth⟩ s = some ⟨q.mode.seen, q.depth⟩ := by
  induction s generalizing p with
  | nil =>
    obtain rfl : p = q := by simpa [Lexis.read] using h
    rfl
  | cons c s ih =>
    rw [Lexis.read, Option.bind_eq_some_iff] at h
    obtain ⟨r, hr, h⟩ := h
    rw [Lexis.read, step_seen ht.1 hr, Option.bind_some]
    exact ih (ht.2 r hr) h

/-- A complete statement that is read alike is complete for the scanner. -/
theorem Lexis.Complete.scanner {nested : Bool} {s : String} (h : (standard nested).Complete s)
    (ht : Tame nested .start s.toList) : scanner.Complete s := by
  obtain ⟨p, hp, hout, hdepth⟩ := h
  refine ⟨⟨p.mode.seen, p.depth⟩, read_seen ht hp, ?_, hdepth⟩
  obtain ⟨mode, depth⟩ := p
  cases mode <;> simp_all [Mode.outside, Mode.seen]

/-- Complete statements without a backslash in a string, and without quotes, parentheses and semicolons
in comments, come back as they were. -/
theorem splitStatements_tame {nested : Bool} {stmts : List String}
    (h : ∀ s ∈ stmts, (standard nested).Complete s) (ht : ∀ s ∈ stmts, Tame nested .start s.toList) :
    splitStatements (";".intercalate stmts) = nonBlank stmts := by
  refine (splitStatements_lexical nested stmts h).mpr ⟨fun s hs => ?_, fun s hs => ?_⟩
  · have hmem := List.mem_of_mem_dropLast hs
    exact (h s hmem).scanner (ht s hmem)
  · have hmem := List.mem_of_mem_getLast? hs
    exact ((h s hmem).scanner (ht s hmem)).whole

end Pg

end RyuDB
