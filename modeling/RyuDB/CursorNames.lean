/-
# The names of cursors

DECLARE and CLOSE find the cursor's name with one regular expression and take the quotes and backticks off
its ends; FETCH and MOVE take the last word of the statement as it stands.  So a quoted name is declared
under its content and looked up with its quotes, and a semicolon after the name is part of the word for
FETCH and an error for CLOSE.

`\w` is a parameter: `WordChars` are the letters, digits and underscores of a regular expression, which are
no blanks, quotes, backticks or semicolons.

* `Spelled.consistent_iff`: FETCH, MOVE and CLOSE mean the declared cursor exactly when the name is plain,
  is not ALL, and has no semicolon after it.
* `Spelled.names_agree`: the same for two names, which then never mean the same cursor.
* `declared_cursor`, `move_declared`, `close_declared`: what the connection then does with the cursor.
-/
import Mathlib.Data.List.DropRight
import Mathlib.Data.List.SplitBy
import RyuDB.Statements
import RyuDB.PgWire

namespace RyuDB

namespace Pg

/-! ## 1. The readings of the three statements -/

/-- The characters of `\w`. -/
structure WordChars where
  word : Char → Bool
  not_space : ∀ c, word c → isSpace c = false
  not_mark : ∀ c, word c → c ∉ [Char.ofNat 34, Char.ofNat 96, ';']

/-- `re.sub(r"^\s*(verbs)\s+", "", sql)`. -/
def dropVerbs (verbs : List String) (sql : String) : List Char :=
  let s := lstrip sql
  let verb := s.takeWhile fun c => !isSpace c
  let rest := s.drop verb.length
  if upper (.ofList verb) ∈ verbs ∧ rest ≠ [] then rest.dropWhile isSpace
  else sql.toList

theorem dropVerb_eq (sql : String) : dropVerb sql = dropVerbs ["FETCH", "MOVE"] sql := rfl

/-- A text as a regular expression without case compares it. -/
def caseless (cs : List Char) : String :=
  .ofList (cs.map fun c => if c = 'İ' then 'I' else upperChar c)

section Readings

variable (W : WordChars)

/-- The group `("(?:[^"]|"")"|BACKTICK[^BACKTICK]+BACKTICK|\w+)` behind blanks, and the text after it.
The first alternative has one character between its quotes, or two quotes. -/
def nameToken (text : List Char) : Option (List Char × List Char) :=
  match text.dropWhile isSpace with
  | [] => none
  | c :: cs =>
    if c = Char.ofNat 34 then
      match cs with
      | a :: b :: rest =>
        if a ≠ Char.ofNat 34 then
          if b = Char.ofNat 34 then some ([c, a, b], rest) else none
        else
          match rest with
          | d :: rest =>
            if b = Char.ofNat 34 ∧ d = Char.ofNat 34 then some ([c, a, b, d], rest) else none
          | [] => none
      | _ => none
    else if c = Char.ofNat 96 then
      let inner := cs.takeWhile fun d => d ≠ Char.ofNat 96
      match cs.dropWhile fun d => d ≠ Char.ofNat 96 with
      | d :: rest => if inner = [] then none else some (c :: (inner ++ [d]), rest)
      | [] => none
    else if W.word c then some ((c :: cs).takeWhile W.word, (c :: cs).dropWhile W.word)
    else none

/-- `s.strip('"BACKTICK')`. -/
def unquote (cs : List Char) : List Char :=
  let mark := fun c => c = Char.ofNat 34 ∨ c = Char.ofNat 96
  ((cs.dropWhile mark).reverse.dropWhile mark).reverse

/-- `re.search(r"\bkw\b", text)`: the text after the match.  The flag says that the character before is of
`\w`. -/
def afterWord (kw : String) : Bool → List Char → Option (List Char)
  | _, [] => none
  | inWord, c :: cs =>
    let rest := (c :: cs).drop kw.length
    if inWord = false ∧ caseless ((c :: cs).take kw.length) = kw ∧ rest.head?.all fun d => !W.word d then
      some rest
    else afterWord kw (W.word c) cs

/-- `re.search(r"\bWITH\s+HOLD\b", text)`. -/
def withHold : Bool → List Char → Bool
  | _, [] => false
  | inWord, c :: cs =>
    let gap := (c :: cs).drop 4
    let hold := gap.dropWhile isSpace
    (!inWord && caseless ((c :: cs).take 4) == "WITH" && gap.head?.any isSpace &&
        caseless (hold.take 4) == "HOLD" && (hold.drop 4).head?.all fun d => !W.word d) ||
      withHold (W.word c) cs

/-- What `_declare` reads: the cursor's name and its query. -/
def declareParts (sql : String) : Except Failure (String × String) :=
  match nameToken W (dropVerbs ["DECLARE"] sql) with
  | none => .error (.pg "42601" "expected a cursor name after DECLARE")
  | some (token, rest) =>
    let body := rest.dropWhile isSpace
    if withHold W false body then .error (.pg "0A000" "WITH HOLD cursors are not supported")
    else
      match afterWord W "CURSOR" false body with
      | none => .error (.pg "42601" "expected CURSOR in DECLARE")
      | some after =>
        match afterWord W "FOR" false after with
        | none => .error (.pg "42601" "expected FOR <query> in DECLARE CURSOR")
        | some query =>
          if strip query = [] then
            .error (.pg "42601" "expected a query after FOR in DECLARE CURSOR")
          else .ok (.ofList (unquote token), .ofList (strip query))

/-- What `_close_stmt` reads: ALL, or the cursor's name. -/
def closeTarget (sql : String) : Except Failure (Option String) :=
  let rest := strip (dropVerbs ["CLOSE"] sql)
  if upper (.ofList rest) = "ALL" then .ok none
  else
    match nameToken W rest with
    | some (token, tail) =>
      if tail.all isSpace then .ok (some (.ofList (unquote token)))
      else .error (.pg "42601" "expected a cursor name or ALL after CLOSE")
    | none => .error (.pg "42601" "expected a cursor name or ALL after CLOSE")

end Readings

/-! ## 2. Words -/

theorem isChain_of_forall {t : List Char} {b : Bool} (h : ∀ c ∈ t, isSpace c = b) :
    t.IsChain fun a c => isSpace a == isSpace c :=
  (List.pairwise_of_forall_mem_list fun a ha c hc => by simp [h a ha, h c hc]).isChain

theorem words_blanks {t : List Char} (ht : ∀ c ∈ t, isSpace c) : words t = [] := by
  cases t with
  | nil => rfl
  | cons c cs =>
    rw [words, List.splitBy_of_isChain (by simp) (isChain_of_forall ht)]
    simpa using ht

/-- A text without blanks is one word. -/
theorem words_word {w : List Char} (hne : w ≠ []) (hw : ∀ c ∈ w, isSpace c = false) :
    words w = [.ofList w] := by
  obtain ⟨c, hc⟩ := List.exists_mem_of_ne_nil w hne
  have hfilter : w.all isSpace = false := by
    rw [List.all_eq_false]
    exact ⟨c, hc, by simp [hw c hc]⟩
  rw [words, List.splitBy_of_isChain hne (isChain_of_forall hw)]
  simp [hfilter]

/-- Where a blank meets something else, the words are apart. -/
theorem words_append {u v : List Char} (h : ∀ x ∈ u.getLast?, ∀ y ∈ v.head?, isSpace x ≠ isSpace y) :
    words (u ++ v) = words u ++ words v := by
  have hsplit := List.splitBy_append (r := fun a b => isSpace a == isSpace b) (l := u) (m := v)
    fun x hx y hy => by simpa using h x hx y hy
  simp only [words, hsplit, List.filter_append, List.map_append]

/-- Blanks after a word are no word. -/
theorem words_append_blanks {u t : List Char} (hu : ∀ c ∈ u.getLast?, isSpace c = false)
    (ht : ∀ c ∈ t, isSpace c) : words (u ++ t) = words u := by
  rw [words_append, words_blanks ht, List.append_nil]
  intro x hx y hy
  simp [hu x hx, ht y (List.mem_of_mem_head? hy)]

/-- Neither are blanks before one. -/
theorem words_dropWhile (cs : List Char) : words (cs.dropWhile isSpace) = words cs := by
  have hblank : ∀ c ∈ cs.takeWhile isSpace, isSpace c := fun c hc => List.mem_takeWhile_imp hc
  have happend := words_append (u := cs.takeWhile isSpace) (v := cs.dropWhile isSpace) <| by
    intro x hx y hy
    have hnot := List.head?_dropWhile_not isSpace cs
    rw [Option.mem_def.mp hy] at hnot
    simp [hblank x (List.mem_of_mem_getLast? hx), hnot]
  rw [List.takeWhile_append_dropWhile, words_blanks hblank, List.nil_append] at happend
  exact happend.symm

theorem getLast?_filter {α : Type} {p : α → Bool} {xs : List α} (hne : xs ≠ [])
    (hp : p (xs.getLast hne)) : (xs.filter p).getLast? = some (xs.getLast hne) := by
  obtain ⟨init, l, rfl⟩ : ∃ init l, xs = init ++ [l] :=
    ⟨xs.dropLast, xs.getLast hne, (List.dropLast_append_getLast hne).symm⟩
  rw [List.getLast_append_singleton] at hp
  simp [List.filter_append, hp]

/-- The last word ends where the text does. -/
theorem words_getLast {u : List Char} {l : Char} (hl : u.getLast? = some l) (hspace : isSpace l = false) :
    ∃ w, (words u).getLast? = some w ∧ w.toList.getLast? = some l := by
  have hne : u ≠ [] := by
    rintro rfl
    simp at hl
  have hsplit := List.splitBy_ne_nil (r := fun a b => isSpace a == isSpace b) |>.mpr hne
  have hlast := List.getLast_getLast_splitBy (fun a b => isSpace a == isSpace b) hne
  rw [List.getLast?_eq_some_getLast hne, Option.some.injEq] at hl
  rw [hl] at hlast
  have hnil := List.ne_nil_of_mem_splitBy (List.getLast_mem hsplit)
  have hfilter : ((u.splitBy fun a b => isSpace a == isSpace b).getLast hsplit).all isSpace = false := by
    rw [List.all_eq_false]
    exact ⟨l, hlast ▸ List.getLast_mem hnil, by simp [hspace]⟩
  refine ⟨.ofList ((u.splitBy fun a b => isSpace a == isSpace b).getLast hsplit), ?_, ?_⟩
  · rw [words, List.getLast?_map, getLast?_filter hsplit (by simp [hfilter]), Option.map_some]
  · rw [String.toList_ofList, List.getLast?_eq_some_getLast hnil, hlast]

theorem strip_dropWhile (cs : List Char) : strip (cs.dropWhile isSpace) = strip cs := by
  rw [strip, strip, List.dropWhile_idempotent]

theorem dropWhile_word {w : List Char} (hw : ∀ c ∈ w, isSpace c = false) : w.dropWhile isSpace = w := by
  cases w with
  | nil => rfl
  | cons c cs => simp [hw c (by simp)]

theorem strip_word {w t : List Char} (hne : w ≠ []) (hw : ∀ c ∈ w, isSpace c = false)
    (ht : ∀ c ∈ t, isSpace c) : strip (w ++ t) = w := by
  have hleft : (w ++ t).dropWhile isSpace = w ++ t := by
    rw [List.dropWhile_append, dropWhile_word hw, if_neg (by simpa using hne)]
  rw [strip, hleft, List.reverse_append,
    List.dropWhile_append_of_pos fun c hc => ht c (List.mem_reverse.mp hc),
    dropWhile_word fun c hc => hw c (List.mem_reverse.mp hc), List.reverse_reverse]

/-- What ends with a semicolon still does without its leading blanks. -/
theorem dropWhile_semicolon (u t : List Char) :
    ∃ v, (u ++ ';' :: t).dropWhile isSpace = v ++ ';' :: t := by
  have hsemi : isSpace ';' = false := by decide
  rw [List.dropWhile_append]
  split_ifs
  · exact ⟨[], by simp [hsemi]⟩
  · exact ⟨_, rfl⟩

theorem strip_semicolon (u : List Char) {t : List Char} (ht : ∀ c ∈ t, isSpace c) :
    ∃ v, strip (u ++ ';' :: t) = v ++ [';'] := by
  have hsemi : isSpace ';' = false := by decide
  obtain ⟨v, hv⟩ := dropWhile_semicolon u t
  refine ⟨v, ?_⟩
  rw [strip, hv, List.reverse_append, List.reverse_cons, List.append_assoc,
    List.dropWhile_append_of_pos fun c hc => ht c (List.mem_reverse.mp hc)]
  simp [hsemi]

/-- The last semicolon of a text of blanks and semicolons. -/
theorem last_semicolon {t : List Char} (ht : ∀ c ∈ t, isSpace c ∨ c = ';')
    (hsemi : ¬∀ c ∈ t, isSpace c) : ∃ u v, t = u ++ ';' :: v ∧ ∀ c ∈ v, isSpace c := by
  induction t with
  | nil => simp at hsemi
  | cons c cs ih =>
    by_cases hcs : ∀ d ∈ cs, isSpace d
    · rcases ht c (by simp) with hc | rfl
      · exact absurd (fun d hd => (List.mem_cons.mp hd).elim (· ▸ hc) (hcs d)) hsemi
      · exact ⟨[], cs, rfl, hcs⟩
    · obtain ⟨u, v, rfl, hv⟩ := ih (fun d hd => ht d (by simp [hd])) hcs
      exact ⟨c :: u, v, rfl, hv⟩

/-! ## 3. The name behind a verb -/

/-- A verb, a blank and what is written behind it. -/
def behind (verb : String) (cs : List Char) : String := .ofList (verb.toList ++ ' ' :: cs)

theorem dropVerbs_behind {verb : String} {verbs : List String} (hne : verb.toList ≠ [])
    (hblank : verb.toList.any isSpace = false) (hmem : upper verb ∈ verbs) (cs : List Char) :
    dropVerbs verbs (behind verb cs) = cs.dropWhile isSpace := by
  have hword : ∀ c ∈ verb.toList, isSpace c = false := by simpa using hblank
  have hstrip : lstrip (behind verb cs) = verb.toList ++ ' ' :: cs := by
    rw [lstrip, behind, String.toList_ofList]
    cases h : verb.toList with
    | nil => exact absurd h hne
    | cons c rest => simp [hword c (h ▸ List.mem_cons_self)]
  have hspace : isSpace ' ' = true := by decide
  have htake : (verb.toList ++ ' ' :: cs).takeWhile (fun c => !isSpace c) = verb.toList := by
    rw [List.takeWhile_append_of_pos fun c hc => by simp [hword c hc]]
    simp [hspace]
  simp only [dropVerbs, hstrip, htake, String.ofList_toList, List.drop_left]
  simp [hmem, hspace]

theorem eq_of_bind_pair {x : Except Failure Direction} {d : Direction} {last name : String}
    (h : (do return (← x, last)) = (.ok (d, name) : Except Failure (Direction × String))) :
    last = name := by
  cases x with
  | error e => cases h
  | ok d' => exact (Prod.mk.inj (Except.ok.inj h)).2

/-- The name a FETCH or MOVE looks up is its last word. -/
theorem parseFetch_name {C : Chars} {sql : String} {d : Direction} {name : String}
    (h : parseFetch C sql = .ok (d, name)) : (words (dropVerb sql)).getLast? = some name := by
  unfold parseFetch at h
  split at h
  · cases h
  · next last before hrev =>
    rw [← List.head?_reverse, hrev]
    exact congrArg some (eq_of_bind_pair h)

/-- A cursor's name alone is a FETCH or MOVE of the next row. -/
theorem parseFetch_word {C : Chars} {sql name : String} (h : words (dropVerb sql) = [name]) :
    parseFetch C sql = .ok (.next, name) := by
  delta parseFetch
  simp only [h, List.reverse_cons, List.reverse_nil, List.nil_append]
  rfl

theorem nameToken_spec {W : WordChars} {text token tail : List Char}
    (h : nameToken W text = some (token, tail)) :
    text.dropWhile isSpace = token ++ tail ∧
      ∃ l, token.getLast? = some l ∧ l ≠ ';' ∧ isSpace l = false := by
  unfold nameToken at h
  split at h
  · cases h
  · next c cs htext =>
    have hquote : Char.ofNat 34 ≠ ';' ∧ isSpace (Char.ofNat 34) = false := by decide
    have htick : Char.ofNat 96 ≠ ';' ∧ isSpace (Char.ofNat 96) = false := by decide
    rw [htext]
    split_ifs at h with h34 h96 hword
    · split at h
      · next a b rest =>
        split_ifs at h with ha hb
        · cases h
          exact ⟨rfl, b, rfl, hb ▸ hquote⟩
        · split at h
          · next d rest =>
            split_ifs at h with hd
            cases h
            exact ⟨rfl, d, rfl, hd.2 ▸ hquote⟩
          · cases h
      · cases h
    · dsimp only at h
      split at h
      · next d rest hdrop =>
        split_ifs at h
        cases h
        have hd : d = Char.ofNat 96 := by
          have hnot := List.head?_dropWhile_not (fun d => decide (d ≠ Char.ofNat 96)) cs
          rw [hdrop] at hnot
          simpa using hnot
        refine ⟨?_, d, by rw [← List.cons_append, List.getLast?_concat], hd ▸ htick⟩
        rw [List.cons_append, List.append_assoc, List.singleton_append, ← hdrop,
          List.takeWhile_append_dropWhile]
      · cases h
    · cases h
      have hne : (c :: cs).takeWhile W.word ≠ [] := by simp [hword]
      refine ⟨List.takeWhile_append_dropWhile.symm, _, List.getLast?_eq_some_getLast hne, ?_⟩
      have hl := List.mem_takeWhile_imp (List.getLast_mem hne)
      have hmark := W.not_mark _ hl
      simp only [List.mem_cons, List.not_mem_nil, or_false, not_or] at hmark
      exact ⟨hmark.2.2, W.not_space _ hl⟩

theorem nameToken_dropWhile (W : WordChars) (text : List Char) :
    nameToken W (text.dropWhile isSpace) = nameToken W text := by
  rw [nameToken, nameToken, List.dropWhile_idempotent]

theorem nameToken_word {W : WordChars} {w rest : List Char} (hne : w ≠ []) (hw : ∀ c ∈ w, W.word c)
    (hrest : ∀ c ∈ rest.head?, W.word c = false) : nameToken W (w ++ rest) = some (w, rest) := by
  obtain ⟨c, cs, rfl⟩ := List.exists_cons_of_ne_nil hne
  have hc := hw c (by simp)
  have hmark := W.not_mark c hc
  simp only [List.mem_cons, List.not_mem_nil, or_false, not_or] at hmark
  have hdrop : (c :: cs ++ rest).dropWhile isSpace = c :: (cs ++ rest) := by
    simp [W.not_space c hc]
  have htake : rest.takeWhile W.word = [] := by
    cases rest with
    | nil => rfl
    | cons d ds => simp [hrest d (by simp)]
  have hleave : rest.dropWhile W.word = rest := by
    cases rest with
    | nil => rfl
    | cons d ds => simp [hrest d (by simp)]
  simp only [nameToken, hdrop, if_neg hmark.1, if_neg hmark.2.1, if_pos hc]
  rw [← List.cons_append, List.takeWhile_append_of_pos hw, List.dropWhile_append_of_pos hw, htake,
    hleave, List.append_nil]

theorem unquote_word {W : WordChars} {w : List Char} (hw : ∀ c ∈ w, W.word c) : unquote w = w := by
  have hdrop : ∀ v : List Char, (∀ c ∈ v, W.word c) →
      v.dropWhile (fun c => c = Char.ofNat 34 ∨ c = Char.ofNat 96) = v := by
    intro v hv
    cases v with
    | nil => rfl
    | cons c cs =>
      have hmark := W.not_mark c (hv c (by simp))
      simp only [List.mem_cons, List.not_mem_nil, or_false, not_or] at hmark
      simp [hmark]
  rw [unquote, hdrop w hw, hdrop _ fun c hc => hw c (List.mem_reverse.mp hc), List.reverse_reverse]

/-- No declared name ends with a quote. -/
theorem unquote_getLast (cs : List Char) : (unquote cs).getLast? ≠ some (Char.ofNat 34) := by
  intro h
  rw [unquote, List.getLast?_reverse] at h
  have hnot := List.head?_dropWhile_not
    (fun c : Char => decide (c = Char.ofNat 34 ∨ c = Char.ofNat 96))
    (cs.dropWhile fun c => decide (c = Char.ofNat 34 ∨ c = Char.ofNat 96)).reverse
  rw [h] at hnot
  simp at hnot

/-! ## 4. Spellings

`Spelled` is a name as a client writes it.  `Consistent` is what the client expects: that the
statements mean the cursor which DECLARE keeps under its identifier.  A quoted name fails for FETCH
and MOVE, which keep the closing quote, and a name followed by a semicolon fails for CLOSE. -/

/-- How an identifier is written: as it is, or between double quotes with its own quotes doubled. -/
inductive Spelling where
  | plain (name : List Char)
  | quoted (name : List Char)
  deriving DecidableEq, Repr

/-- The identifier a spelling means; a plain one may be folded. -/
def Spelling.identifier (fold : List Char → List Char) : Spelling → List Char
  | .plain name => fold name
  | .quoted name => name

/-- The characters between the quotes. -/
def doubled (name : List Char) : List Char :=
  name.flatMap fun c => if c = Char.ofNat 34 then [c, c] else [c]

def Spelling.text : Spelling → List Char
  | .plain name => name
  | .quoted name => Char.ofNat 34 :: (doubled name ++ [Char.ofNat 34])

/-- A spelling and the blanks and semicolons after it. -/
structure Spelled (W : WordChars) where
  spelling : Spelling
  trail : List Char
  proper : ∀ name, spelling = .plain name → name ≠ [] ∧ ∀ c ∈ name, W.word c
  trailing : ∀ c ∈ trail, isSpace c ∨ c = ';'

namespace Spelled

variable {C : Chars} {W : WordChars} (s : Spelled W)

/-- The name with what follows it. -/
def text : List Char := s.spelling.text ++ s.trail

/-- The name under which DECLARE keeps the cursor of a query. -/
def declared (query : List Char) : Option String :=
  (declareParts W (behind "DECLARE" (s.text ++ " CURSOR FOR ".toList ++ query))).toOption.map Prod.fst

/-- A statement with this spelling declares or looks up the cursor `name`.  A FETCH or MOVE may have a
direction in front of it. -/
inductive Means (C : Chars) (s : Spelled W) (name : String) : Prop where
  | declare (query : List Char) (h : s.declared query = some name)
  | fetch (verb : String) (hverb : verb ∈ ["FETCH", "MOVE"]) (before : List Char)
      (hbefore : ∀ c ∈ before.getLast?, isSpace c) (d : Direction)
      (h : parseFetch C (behind verb (before ++ s.text)) = .ok (d, name))
  | close (h : closeTarget W (behind "CLOSE" s.text) = .ok (some name))

/-- FETCH, MOVE and CLOSE are accepted with this spelling, and all statements mean the cursor `name`. -/
structure Consistent (C : Chars) (s : Spelled W) (name : String) : Prop where
  fetch : parseFetch C (behind "FETCH" s.text) = .ok (.next, name)
  move : parseFetch C (behind "MOVE" s.text) = .ok (.next, name)
  close : closeTarget W (behind "CLOSE" s.text) = .ok (some name)
  means : ∀ n, s.Means C n → n = name

/-- The name is plain, is not ALL, and no semicolon follows it. -/
def Plain : Prop :=
  ∃ name, s.spelling = .plain name ∧ upper (.ofList name) ≠ "ALL" ∧ ∀ c ∈ s.trail, isSpace c

variable {s}

theorem declared_token {query : List Char} {name : String} (h : s.declared query = some name) :
    ∃ token tail, nameToken W (s.text ++ " CURSOR FOR ".toList ++ query) = some (token, tail) ∧
      name = .ofList (unquote token) := by
  rw [declared] at h
  delta declareParts at h
  dsimp only at h
  rw [dropVerbs_behind (by decide) (by decide) (by decide), nameToken_dropWhile] at h
  split at h
  · simp [Except.toOption] at h
  · next token tail htoken =>
    refine ⟨token, tail, htoken, ?_⟩
    split at h
    · simp [Except.toOption] at h
    split at h
    · simp [Except.toOption] at h
    split at h
    · simp [Except.toOption] at h
    split at h
    · simp [Except.toOption] at h
    · simpa [Except.toOption] using h.symm

theorem plain_not_space {w : List Char} (hs : s.spelling = .plain w) : ∀ c ∈ w, isSpace c = false :=
  fun c hc => W.not_space c ((s.proper w hs).2 c hc)

/-- A plain name is declared as it is written. -/
theorem declared_plain {w query : List Char} {name : String} (hs : s.spelling = .plain w)
    (h : s.declared query = some name) : name = .ofList w := by
  obtain ⟨token, tail, htoken, rfl⟩ := declared_token h
  obtain ⟨hne, hw⟩ := s.proper w hs
  rw [text, hs, Spelling.text, List.append_assoc, List.append_assoc, nameToken_word hne hw] at htoken
  · obtain ⟨rfl, -⟩ := Prod.mk.inj (Option.some.inj htoken)
    rw [unquote_word hw]
  · -- what follows the name is a blank or a semicolon
    intro c hc
    by_contra hword
    rw [Bool.not_eq_false] at hword
    have hspace := W.not_space c hword
    have hmark := W.not_mark c hword
    cases ht : s.trail with
    | nil =>
      rw [ht] at hc
      obtain rfl : ' ' = c := by simpa using hc
      exact absurd hspace (by decide)
    | cons d ds =>
      rw [ht] at hc
      obtain rfl : d = c := by simpa using hc
      rcases s.trailing d (ht ▸ List.mem_cons_self) with hd | rfl
      · simp [hspace] at hd
      · simp at hmark

theorem dropVerb_text {verb : String} (hverb : verb ∈ ["FETCH", "MOVE"]) (cs : List Char) :
    words (dropVerb (behind verb cs)) = words cs := by
  have hsub : verb.toList ≠ [] ∧ verb.toList.any isSpace = false ∧
      upper verb ∈ ["FETCH", "MOVE"] := by
    simp only [List.mem_cons, List.not_mem_nil, or_false] at hverb
    rcases hverb with rfl | rfl <;> decide
  rw [dropVerb_eq, dropVerbs_behind hsub.1 hsub.2.1 hsub.2.2, words_dropWhile]

/-- FETCH looks a name in quotes up with its closing quote, and no cursor is declared with one. -/
theorem quoted_not_consistent {body query : List Char} {name : String}
    (hs : s.spelling = .quoted body) (ht : ∀ c ∈ s.trail, isSpace c)
    (hd : s.declared query = some name) : ¬s.Consistent C name := by
  intro hc
  obtain ⟨token, tail, -, rfl⟩ := declared_token hd
  have hquote : isSpace (Char.ofNat 34) = false := by decide
  have hend : s.spelling.text.getLast? = some (Char.ofNat 34) := by
    rw [hs, Spelling.text, ← List.cons_append, List.getLast?_concat]
  have hwords := words_append_blanks (u := s.spelling.text) (by simp [hend, hquote]) ht
  have hlook := parseFetch_name hc.fetch
  rw [dropVerb_text (by simp), text, hwords] at hlook
  obtain ⟨w, hw, hlast⟩ := words_getLast hend hquote
  obtain rfl : w = .ofList (unquote token) := Option.some.inj (hw.symm.trans hlook)
  rw [String.toList_ofList] at hlast
  exact unquote_getLast token hlast

/-- CLOSE takes no name with a semicolon after it. -/
theorem semicolon_not_consistent {name : String} (ht : ¬∀ c ∈ s.trail, isSpace c) :
    ¬s.Consistent C name := by
  intro hc
  obtain ⟨u, v, htrail, hv⟩ := last_semicolon s.trailing ht
  obtain ⟨x, hx⟩ := strip_semicolon (s.spelling.text ++ u) hv
  have htext : s.text = s.spelling.text ++ u ++ ';' :: v := by
    rw [text, htrail, List.append_assoc]
  have hclose := hc.close
  rw [closeTarget, dropVerbs_behind (by decide) (by decide) (by decide), strip_dropWhile, htext, hx] at hclose
  split_ifs at hclose with hall
  · cases hclose
  split at hclose
  · next token tail htoken =>
    split_ifs at hclose with hblank
    rw [List.all_eq_true] at hblank
    obtain ⟨hsplit, l, hl, hsemi, -⟩ := nameToken_spec htoken
    obtain ⟨y, hy⟩ := dropWhile_semicolon x []
    rw [hsplit] at hy
    have hlast : (token ++ tail).getLast? = some ';' := by rw [hy, List.getLast?_concat]
    cases tail with
    | nil =>
      rw [List.append_nil, hl] at hlast
      exact hsemi (Option.some.inj hlast)
    | cons d ds =>
      rw [List.getLast?_append_of_ne_nil _ (by simp)] at hlast
      have := hblank ';' (List.mem_of_getLast? hlast)
      revert this
      decide
  · cases hclose

/-- CLOSE takes ALL for all cursors. -/
theorem all_not_consistent {w : List Char} {name : String} (hs : s.spelling = .plain w)
    (hall : upper (.ofList w) = "ALL") (ht : ∀ c ∈ s.trail, isSpace c) : ¬s.Consistent C name := by
  intro hc
  have hclose := hc.close
  have hstrip := strip_word (s.proper w hs).1 (plain_not_space hs) ht
  rw [closeTarget, dropVerbs_behind (by decide) (by decide) (by decide), strip_dropWhile, text, hs,
    Spelling.text, hstrip] at hclose
  simp [hall] at hclose

theorem plain_consistent {w : List Char} (hs : s.spelling = .plain w)
    (hall : upper (.ofList w) ≠ "ALL") (ht : ∀ c ∈ s.trail, isSpace c) :
    s.Consistent C (.ofList w) := by
  obtain ⟨hne, hw⟩ := s.proper w hs
  have hspace := plain_not_space hs
  have hwords : words s.text = [.ofList w] := by
    rw [text, hs, Spelling.text, words_append_blanks (fun c hc => hspace c (List.mem_of_getLast? hc)) ht,
      words_word hne hspace]
  have hstrip := strip_word hne hspace ht
  have hclose : closeTarget W (behind "CLOSE" s.text) = .ok (some (.ofList w)) := by
    rw [closeTarget, dropVerbs_behind (by decide) (by decide) (by decide), strip_dropWhile, text, hs,
      Spelling.text, hstrip]
    have htoken : nameToken W w = some (w, []) := by
      simpa using nameToken_word hne hw (show ∀ c ∈ ([] : List Char).head?, W.word c = false by simp)
    simp [hall, htoken, unquote_word hw]
  refine ⟨parseFetch_word ?_, parseFetch_word ?_, hclose, fun n hn => ?_⟩
  · rw [dropVerb_text (by simp), hwords]
  · rw [dropVerb_text (by simp), hwords]
  · cases hn with
    | declare query h => exact declared_plain hs h
    | fetch verb hverb before hbefore d h =>
      have hlast := parseFetch_name h
      rw [dropVerb_text hverb, words_append, hwords, List.getLast?_concat] at hlast
      · exact (Option.some.inj hlast).symm
      · intro x hx y hy
        have hy : isSpace y = false := by
          obtain ⟨a, as, rfl⟩ := List.exists_cons_of_ne_nil hne
          rw [text, hs] at hy
          obtain rfl : a = y := by simpa [Spelling.text] using hy
          exact hspace a (by simp)
        simp [hbefore x hx, hy]
    | close h =>
      rw [hclose] at h
      exact (Option.some.inj (Except.ok.inj h)).symm

/-- All statements mean the declared cursor exactly when the name is plain, is not ALL, and no semicolon
follows it. -/
theorem consistent_iff {query : List Char} {name : String} (hd : s.declared query = some name) :
    s.Consistent C name ↔ s.Plain := by
  constructor
  · intro hc
    by_cases ht : ∀ c ∈ s.trail, isSpace c
    · cases hs : s.spelling with
      | plain w => exact ⟨w, hs, fun hall => all_not_consistent hs hall ht hc, ht⟩
      | quoted body => exact absurd hc (quoted_not_consistent hs ht hd)
    · exact absurd hc (semicolon_not_consistent ht)
  · rintro ⟨w, hs, hall, ht⟩
    rw [declared_plain hs hd]
    exact plain_consistent hs hall ht

/-- For two spellings that DECLARE accepts, with whatever folding of plain names: all statements mean the
cursor that DECLARE made, and spellings of different identifiers never mean the same one, exactly when both
names are plain, neither is ALL, and no semicolon follows either. -/
theorem names_agree (C : Chars) (fold : List Char → List Char) {s₁ s₂ : Spelled W}
    {query₁ query₂ : List Char} {name₁ name₂ : String} (h₁ : s₁.declared query₁ = some name₁)
    (h₂ : s₂.declared query₂ = some name₂) :
    (s₁.Consistent C name₁ ∧ s₂.Consistent C name₂ ∧
        (s₁.spelling.identifier fold ≠ s₂.spelling.identifier fold →
          ∀ n, s₁.Means C n → ¬s₂.Means C n)) ↔
      s₁.Plain ∧ s₂.Plain := by
  constructor
  · rintro ⟨hc₁, hc₂, -⟩
    exact ⟨(consistent_iff h₁).mp hc₁, (consistent_iff h₂).mp hc₂⟩
  · rintro ⟨hp₁, hp₂⟩
    have hc₁ : s₁.Consistent C name₁ := (consistent_iff h₁).mpr hp₁
    have hc₂ : s₂.Consistent C name₂ := (consistent_iff h₂).mpr hp₂
    refine ⟨hc₁, hc₂, fun hne n hm₁ hm₂ => hne ?_⟩
    obtain ⟨w₁, hs₁, -⟩ := hp₁
    obtain ⟨w₂, hs₂, -⟩ := hp₂
    have hname : name₁ = name₂ := (hc₁.means n hm₁).symm.trans (hc₂.means n hm₂)
    rw [declared_plain hs₁ h₁, declared_plain hs₂ h₂, String.ofList_inj] at hname
    rw [hs₁, hs₂, hname]

end Spelled

/-! ## 5. The connection -/

section Connection

variable {σ V Tree : Type} {W : WordChars} {B : Backend σ V Tree} {s : Spelled W}

/-- A DECLARE that returns leaves its cursor, at the start, under the declared name. -/
theorem declared_cursor (hB : B.declareParts = declareParts W) {query : List Char} {c c' : Conn σ V}
    (h : declare B (behind "DECLARE" (s.text ++ " CURSOR FOR ".toList ++ query)) c = (.ok (), c')) :
    ∃ name f, s.declared query = some name ∧ c'.cursors.get? name = some (f, 0) := by
  obtain ⟨parts, c₁, hparts, h⟩ := Proc.bind_ok.mp h
  obtain ⟨hread, rfl⟩ := Prod.mk.inj hparts
  rw [Proc.get_bind] at h
  split_ifs at h
  · cases h
  obtain ⟨result, c₂, -, h⟩ := Proc.bind_ok.mp h
  have hname : s.declared query = some parts.1 := by
    rw [hB] at hread
    rw [Spelled.declared, hread]
    rfl
  cases result with
  | frame f =>
    rw [openCursor, Proc.get_bind] at h
    split_ifs at h
    · cases h
    · rw [Proc.modify_bind] at h
      cases h
      exact ⟨parts.1, f, hname, by simp⟩
  | count n => cases h
  | none => cases h

/-- A MOVE with a plain name moves the cursor that was declared with it. -/
theorem move_declared {query : List Char} {name : String} (hp : s.Plain)
    (hd : s.declared query = some name) {c : Conn σ V} {f : Frame V} {offset : Int}
    (hc : c.cursors.get? name = some (f, offset)) (maxrows : Nat) :
    ∃ c', fetch B (behind "MOVE" s.text) maxrows true c = (.ok (), c') ∧
      c'.cursors.get? name =
        some (f, (cursorWindow .next offset f.rows.length maxrows).newOffset) := by
  have hmove := ((Spelled.consistent_iff (C := B.chars) hd).mpr hp).move
  unfold fetch
  simp only [hmove, Proc.lift_bind_ok, Proc.get_bind, hc, if_true, Proc.modify_bind]
  exact ⟨_, rfl, by simp⟩

/-- A CLOSE with a plain name closes the cursor that was declared with it, and no other. -/
theorem close_declared (hB : B.closeTarget = closeTarget W) {query : List Char} {name : String}
    (hp : s.Plain) (hd : s.declared query = some name) {c : Conn σ V} {f : Frame V} {offset : Int}
    (hc : c.cursors.get? name = some (f, offset)) :
    ∃ c', closeStmt B (behind "CLOSE" s.text) c = (.ok (), c') ∧
      ∀ other, c'.cursors.get? other = if other = name then none else c.cursors.get? other := by
  have hclose := ((Spelled.consistent_iff (C := B.chars) hd).mpr hp).close
  unfold closeStmt
  simp only [hB, hclose, Proc.lift_bind_ok, Proc.get_bind, hc, Option.isSome_some, if_true,
    Proc.modify_bind]
  refine ⟨_, rfl, fun other => ?_⟩
  simp

end Connection

/-- ASCII letters, digits and the underscore. -/
def asciiWords : WordChars where
  word c := let n := c.toNat; (48 ≤ n && n ≤ 57) || (65 ≤ n && n ≤ 90) || n = 95 || (97 ≤ n && n ≤ 122)
  not_space c hc := by
    simp only [Bool.or_eq_true, Bool.and_eq_true, decide_eq_true_eq] at hc
    simp only [isSpace, Bool.or_eq_false_iff, Bool.and_eq_false_iff, decide_eq_false_iff_not]
    omega
  not_mark c hc := by
    simp only [List.mem_cons, List.not_mem_nil, or_false, not_or]
    refine ⟨?_, ?_, ?_⟩ <;> rintro rfl <;> revert hc <;> decide

/-- `c` and `d` as plain names, and `c` in quotes. -/
def plainName (c : Char) (hc : asciiWords.word c) : Spelled asciiWords where
  spelling := .plain [c]
  trail := []
  proper name h := by
    cases h
    exact ⟨by simp, by simpa using hc⟩
  trailing := by simp

def quotedName (name : List Char) : Spelled asciiWords where
  spelling := .quoted name
  trail := []
  proper _ h := by cases h
  trailing := by simp

theorem names_agree_two :
    ((plainName 'c' rfl).Consistent ⟨Char.isAlpha, fun _ => none⟩ "c" ∧
        (plainName 'd' rfl).Consistent ⟨Char.isAlpha, fun _ => none⟩ "d" ∧
        ((plainName 'c' rfl).spelling.identifier id ≠ (plainName 'd' rfl).spelling.identifier id →
          ∀ n, (plainName 'c' rfl).Means ⟨Char.isAlpha, fun _ => none⟩ n →
            ¬(plainName 'd' rfl).Means ⟨Char.isAlpha, fun _ => none⟩ n)) ↔
      (plainName 'c' rfl).Plain ∧ (plainName 'd' rfl).Plain :=
  Spelled.names_agree ⟨Char.isAlpha, fun _ => none⟩ id
    (show (plainName 'c' rfl).declared "SELECT 1".toList = some "c" by decide +kernel)
    (show (plainName 'd' rfl).declared "SELECT 2".toList = some "d" by decide +kernel)

/-- DECLARE accepts `c` in quotes as the cursor c, and FETCH asks for a cursor whose name has the quotes.
A quote and a backtick in quotes are one cursor. -/
theorem quoted_cursor_lost :
    (quotedName ['c']).declared "SELECT 1".toList = some "c" ∧
      parseFetch ⟨Char.isAlpha, fun _ => none⟩ (behind "FETCH" (quotedName ['c']).text) =
        .ok (.next, "\"c\"") ∧
      ¬(quotedName ['c']).Consistent ⟨Char.isAlpha, fun _ => none⟩ "c" ∧
      (quotedName [Char.ofNat 34]).declared "SELECT 1".toList = some "" ∧
      (quotedName [Char.ofNat 96]).declared "SELECT 1".toList = some "" := by
  have hdeclared : (quotedName ['c']).declared "SELECT 1".toList = some "c" := by decide +kernel
  refine ⟨hdeclared, by decide +kernel, fun h => ?_, by decide +kernel, by decide +kernel⟩
  have hspelled : (quotedName ['c']).spelling = .quoted ['c'] := rfl
  exact Spelled.quoted_not_consistent hspelled (by simp [quotedName]) hdeclared h

end Pg

end RyuDB
