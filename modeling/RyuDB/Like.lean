/-
# LIKE

`_like` translates the pattern into a regular expression between `^` and `$` (`_like_to_regex`), with
`.*` for `%`, `.` for `_` and every other character escaped, and searches the column for it.  The dot of
the engine does not accept a newline.

Wanted (`LikeMatch`): the string can be split along the pattern, with any sequence for `%` and any one
character for `_`; a NULL string or a NULL pattern gives NULL, and NOT LIKE the negation.
`like_three_valued` says that the column is right exactly at the strings that are NULL, or that the
pattern, which must not be NULL then, does not match or matches without a wildcard for a newline: those
have as many newlines as the pattern.  A NULL pattern becomes the text `None`.
-/
import Mathlib.Data.List.Infix
import RyuDB.Frame
import RyuDB.Lib.Kleene
import RyuDB.Lib.Regex

namespace RyuDB.Sql

open Regex

/-! ## 1. The expression -/

/-- The characters `re.escape` puts a backslash in front of. -/
def escaped : List Char := "()[]{}?*+-|^$\\.&~# \t\n\r\x0b\x0c".toList

/-- `re.escape` of one character. -/
def reEscape (c : Char) : List Char := if c ∈ escaped then ['\\', c] else [c]

/-- The text of a character of the pattern. -/
def likeChar (ch : Char) : List Char :=
  if ch = '%' then ['.', '*'] else if ch = '_' then ['.'] else reEscape ch

/-- `_like_to_regex`. -/
def likeToRegex (pattern : List Char) : List Char := '^' :: (pattern.flatMap likeChar ++ ['$'])

/-- `Like`, where the operand is a column and the pattern a literal. -/
structure LikeExpr where
  pattern : Option String
  negated : Bool
  caseSensitive : Bool

/-- `s.str.contains(regex, regex=True, na=False)` on one row. -/
def strContains (regex : List Char) : Option String → Except DbError Bool
  | none => .ok false
  | some s =>
    match parse regex with
    | some ps => .ok (search ps true s.toList)
    | none => .error (.value "invalid regular expression")

/-- `_like`; `lowerColumn` is `s.str.lower` and `lowerText` is `str.lower`. -/
def like (lowerColumn lowerText : String → String) (e : LikeExpr) (s : List (Option String)) :
    Except DbError (List (Option Bool)) := do
  let pat := e.pattern.getD "None"
  let s := if e.caseSensitive then s else s.map (Option.map lowerColumn)
  let pat := if e.caseSensitive then pat else lowerText pat
  let m ← s.mapM (strContains (likeToRegex pat.toList))
  let m := List.zipWith (fun t x => if x.isSome then some t else none) m s
  .ok (if e.negated then m.map (Option.map Bool.not) else m)

/-! ## 2. What is wanted -/

/-- **The string can be split along the pattern.** -/
inductive LikeMatch : List Char → List Char → Prop where
  | nil : LikeMatch [] []
  | percent {p s₁ s₂ : List Char} (rest : LikeMatch p s₂) : LikeMatch ('%' :: p) (s₁ ++ s₂)
  | underscore {p s : List Char} {c : Char} (rest : LikeMatch p s) : LikeMatch ('_' :: p) (c :: s)
  | char {p s : List Char} {c : Char} (hp : c ≠ '%') (hu : c ≠ '_') (rest : LikeMatch p s) :
    LikeMatch (c :: p) (c :: s)

/-- The test for `LikeMatch`. -/
def likeTest : List Char → List Char → Bool
  | [], s => s.isEmpty
  | ch :: p, s =>
    if ch = '%' then s.tails.any (likeTest p)
    else
      match s with
      | [] => false
      | c :: s => (ch = '_' || ch = c) && likeTest p s

theorem likeTest_iff : ∀ (p s : List Char), likeTest p s = true ↔ LikeMatch p s
  | [], s => by
    cases s with
    | nil => exact ⟨fun _ => .nil, fun _ => rfl⟩
    | cons c s => exact ⟨fun h => (nomatch h), fun h => (nomatch h)⟩
  | ch :: p, s => by
    rw [likeTest.eq_def]
    by_cases hp : ch = '%'
    · subst hp
      simp only [if_true, List.any_eq_true, List.mem_tails, likeTest_iff p]
      constructor
      · rintro ⟨s₂, ⟨s₁, rfl⟩, h⟩
        exact .percent h
      · intro h
        cases h with
        | percent h => exact ⟨_, ⟨_, rfl⟩, h⟩
        | char hne => exact absurd rfl hne
    · simp only [if_neg hp]
      cases s with
      | nil =>
        refine ⟨fun h => (nomatch h), fun h => ?_⟩
        generalize hs : ([] : List Char) = s at h
        cases h with
        | percent => exact absurd rfl hp
        | underscore => cases hs
        | char => cases hs
      | cons c s =>
        simp only [Bool.and_eq_true, Bool.or_eq_true, decide_eq_true_eq, likeTest_iff p]
        constructor
        · rintro ⟨rfl | rfl, h⟩
          · exact .underscore h
          · by_cases hu : ch = '_'
            · subst hu
              exact .underscore h
            · exact .char hp hu h
        · intro h
          generalize hs : c :: s = t at h
          cases h with
          | percent => exact absurd rfl hp
          | underscore h =>
            cases hs
            exact ⟨.inl rfl, h⟩
          | char _ _ h =>
            cases hs
            exact ⟨.inr rfl, h⟩

instance (p s : List Char) : Decidable (LikeMatch p s) := decidable_of_iff _ (likeTest_iff p s)

/-- The pattern and the strings as they are compared. -/
def LikeExpr.folded (e : LikeExpr) (lower : String → String) (s : String) : List Char :=
  (if e.caseSensitive then s else lower s).toList

/-- **`x LIKE pattern`, or `x NOT LIKE pattern`, in three-valued logic.** -/
def sqlLike (lowerColumn lowerText : String → String) (e : LikeExpr) (x : Option String) :
    Option Bool :=
  let m := e.pattern.bind fun p => x.map fun s =>
    decide (LikeMatch (e.folded lowerText p) (e.folded lowerColumn s))
  if e.negated then Kleene.not m else m

/-! ## 3. The regular expression -/

/-- The tokens of a character of the pattern. -/
def likeTokens (ch : Char) : List Token :=
  if ch = '%' then [.atom .dot, .star] else if ch = '_' then [.atom .dot] else [.atom (.lit ch)]

/-- The item of a character of the pattern. -/
def likeItem (ch : Char) : Item :=
  if ch = '%' then ⟨.dot, true⟩ else if ch = '_' then ⟨.dot, false⟩ else ⟨.lit ch, false⟩

theorem escaped_not_alphanum : ∀ c ∈ escaped, c.isAlphanum = false := by
  have hall : escaped.all (fun c => !c.isAlphanum) = true := by decide
  intro c hc
  simpa using List.all_eq_true.mp hall c hc

/-- What the engine reads in its own way is escaped. -/
theorem token_of_not_escaped {c : Char} (h : c ∉ escaped) : c ≠ '\\' ∧
    token c = some (.atom (.lit c)) := by
  have hne : ∀ d ∈ escaped, c ≠ d := fun d hd he => h (he ▸ hd)
  have hrefused : c ∉ refused := by
    have hall : refused.all (fun d => escaped.contains d) = true := by decide
    exact fun hc => h (List.contains_iff_mem.mp (List.all_eq_true.mp hall c hc))
  refine ⟨hne _ (by decide), ?_⟩
  rw [token, if_neg (hne _ (by decide)), if_neg (hne _ (by decide)), if_neg (hne _ (by decide)),
    if_neg (hne _ (by decide)), if_neg hrefused]

/-- An escaped character is read as itself. -/
theorem tokens_reEscape (c : Char) (rest : List Char) :
    tokens false (reEscape c ++ rest) = (tokens false rest).map (.atom (.lit c) :: ·) := by
  rw [reEscape]
  split
  · rename_i hc
    have halnum : ¬ c.isAlphanum = true := Bool.eq_false_iff.mp (escaped_not_alphanum c hc)
    rw [List.cons_append, List.singleton_append, tokens, if_pos rfl, tokens, if_neg halnum]
  · rename_i hc
    obtain ⟨hb, ht⟩ := token_of_not_escaped hc
    rw [List.singleton_append, tokens, if_neg hb, ht, Option.bind_some]

theorem tokens_likeChar (ch : Char) (rest : List Char) :
    tokens false (likeChar ch ++ rest) = (tokens false rest).map (likeTokens ch ++ ·) := by
  rw [likeChar, likeTokens]
  split
  · cases h : tokens false rest <;> simp [tokens, token, h]
  · split
    · cases h : tokens false rest <;> simp [tokens, token, h]
    · exact tokens_reEscape ch rest

theorem tokens_like : ∀ pattern : List Char,
    tokens false (pattern.flatMap likeChar ++ ['$']) =
      some (pattern.flatMap likeTokens ++ [.eol])
  | [] => rfl
  | ch :: pattern => by
    rw [List.flatMap_cons, List.flatMap_cons, List.append_assoc, tokens_likeChar,
      tokens_like pattern, Option.map_some, List.append_assoc]

/-- An atom without a star behind it. -/
theorem pieces_atom (a : Atom) : ∀ {ts : List Token}, ts.head? ≠ some .star →
    pieces (.atom a :: ts) = (pieces ts).map (.item ⟨a, false⟩ :: ·)
  | [], _ => rfl
  | .star :: _, h => absurd rfl h
  | .atom _ :: _, _ => rfl
  | .bol :: _, _ => rfl
  | .eol :: _, _ => rfl

theorem likeTokens_head (pattern : List Char) :
    (pattern.flatMap likeTokens ++ [Token.eol]).head? ≠ some .star := by
  cases pattern with
  | nil => decide
  | cons ch pattern =>
    rw [List.flatMap_cons, likeTokens]
    split
    · simp
    · split <;> simp

theorem pieces_like : ∀ pattern : List Char,
    pieces (pattern.flatMap likeTokens ++ [.eol]) =
      some ((pattern.map likeItem).map .item ++ [.eol])
  | [] => rfl
  | ch :: pattern => by
    have ih := pieces_like pattern
    have hhead := likeTokens_head pattern
    rw [List.flatMap_cons, List.append_assoc, List.map_cons, List.map_cons, likeTokens, likeItem]
    split
    · rw [List.cons_append, List.singleton_append, pieces, ih]
      rfl
    · split
      · rw [List.singleton_append, pieces_atom _ hhead, ih]
        rfl
      · rw [List.singleton_append, pieces_atom _ hhead, ih]
        rfl

/-- **The text of the expression is read as the items of the pattern between the anchors.** -/
theorem parse_likeToRegex (pattern : List Char) :
    parse (likeToRegex pattern) =
      some (.bol :: ((pattern.map likeItem).map .item ++ [.eol])) := by
  have htokens : tokens false (likeToRegex pattern) =
      some (.bol :: (pattern.flatMap likeTokens ++ [.eol])) := by
    rw [likeToRegex, tokens, if_neg (by decide), tokens_like]
    rfl
  rw [parse, htokens, Option.bind_some, pieces, pieces_like]
  rfl

/-! ## 4. The language -/

/-- A wildcard only adds newlines. -/
theorem LikeMatch.count_le {p s : List Char} (h : LikeMatch p s) : p.count '\n' ≤ s.count '\n' := by
  induction h with
  | nil => exact le_rfl
  | percent _ ih =>
    rw [List.count_append, List.count_cons_of_ne (by decide)]
    omega
  | @underscore p s c _ ih =>
    rw [List.count_cons_of_ne (by decide)]
    exact ih.trans (List.count_le_count_cons)
  | @char p s c _ _ _ ih =>
    rw [List.count_cons, List.count_cons]
    omega

/-- What the items of the pattern take is in the language, and no wildcard takes a newline. -/
theorem likeMatch_of_full : ∀ {p s : List Char}, Full (p.map likeItem) s →
    LikeMatch p s ∧ s.count '\n' = p.count '\n'
  | [], s, h => by
    cases h
    exact ⟨.nil, rfl⟩
  | ch :: p, s, h => by
    rw [List.map_cons, likeItem] at h
    split at h
    · rename_i hp
      subst hp
      cases h with
      | @star _ _ s₁ s₂ hs h =>
        obtain ⟨hm, hc⟩ := likeMatch_of_full h
        have hnone : s₁.count '\n' = 0 := List.count_eq_zero.mpr fun hmem =>
          absurd (hs _ hmem) (by decide)
        refine ⟨.percent hm, ?_⟩
        rw [List.count_append, hnone, Nat.zero_add, hc, List.count_cons_of_ne (by decide)]
    · split at h
      · rename_i hu
        subst hu
        cases h with
        | @one _ _ c s ha h =>
          obtain ⟨hm, hc⟩ := likeMatch_of_full h
          have hne : c ≠ '\n' := of_decide_eq_true ha
          refine ⟨.underscore hm, ?_⟩
          rw [List.count_cons_of_ne hne, hc, List.count_cons_of_ne (by decide)]
      · rename_i hp hu
        cases h with
        | one ha h =>
          obtain ⟨hm, hc⟩ := likeMatch_of_full h
          obtain rfl := of_decide_eq_true ha
          refine ⟨.char hp hu hm, ?_⟩
          rw [List.count_cons, List.count_cons, hc]

/-- With no newline beyond those of the pattern the wildcards take none. -/
theorem full_of_likeMatch {p s : List Char} (h : LikeMatch p s) :
    s.count '\n' = p.count '\n' → Full (p.map likeItem) s := by
  induction h with
  | nil => exact fun _ => .nil
  | @percent p s₁ s₂ h ih =>
    intro hc
    have hle := h.count_le
    rw [List.count_append, List.count_cons_of_ne (by decide)] at hc
    have hnone : s₁.count '\n' = 0 := by omega
    refine .star (fun c hmem => decide_eq_true fun he => ?_) (ih (by omega))
    exact List.count_eq_zero.mp hnone (he ▸ hmem)
  | @underscore p s c h ih =>
    intro hc
    have hle := h.count_le
    have hwild : ('_' :: p).count '\n' = p.count '\n' := List.count_cons_of_ne (by decide)
    rw [hwild] at hc
    have hne : c ≠ '\n' := by
      rintro rfl
      rw [List.count_cons_self] at hc
      omega
    rw [List.count_cons_of_ne hne] at hc
    exact .one (decide_eq_true hne) (ih hc)
  | @char p s c hp hu h ih =>
    intro hc
    rw [List.count_cons, List.count_cons, Nat.add_right_cancel_iff] at hc
    rw [List.map_cons, likeItem, if_neg hp, if_neg hu]
    exact .one (decide_eq_true rfl) (ih hc)

/-- **The expression accepts the strings of the language that have no newline beyond those of the
pattern.** -/
theorem search_likeToRegex (p s : List Char) : ∃ ps, parse (likeToRegex p) = some ps ∧
    (search ps true s = true ↔ LikeMatch p s ∧ s.count '\n' = p.count '\n') :=
  ⟨_, parse_likeToRegex p, (search_anchored _ s).trans
    ⟨likeMatch_of_full, fun h => full_of_likeMatch h.1 h.2⟩⟩

/-! ## 5. The column -/

section Column
variable (lowerColumn lowerText : String → String)

/-- The result of `like` on one row. -/
def likeMask (e : LikeExpr) (x : Option String) : Option Bool :=
  let p := e.folded lowerText (e.pattern.getD "None")
  let m := x.map fun s =>
    decide (LikeMatch p (e.folded lowerColumn s) ∧
      (e.folded lowerColumn s).count '\n' = p.count '\n')
  if e.negated then m.map Bool.not else m

theorem strContains_like (p : List Char) (x : Option String) :
    strContains (likeToRegex p) x = .ok ((x.map fun s =>
      decide (LikeMatch p s.toList ∧ s.toList.count '\n' = p.count '\n')).getD false) := by
  cases x with
  | none => rfl
  | some s =>
    obtain ⟨ps, hps, hsearch⟩ := search_likeToRegex p s.toList
    rw [strContains, hps]
    refine congrArg Except.ok (Bool.eq_iff_iff.mpr ?_)
    rw [hsearch, Option.map_some, Option.getD_some, decide_eq_true_eq]

/-- `like` never raises, and works row by row. -/
theorem like_eq (e : LikeExpr) (s : List (Option String)) :
    like lowerColumn lowerText e s = .ok (s.map (likeMask lowerColumn lowerText e)) := by
  have hcolumn : (if e.caseSensitive then s else s.map (Option.map lowerColumn)) =
      s.map (Option.map fun t => if e.caseSensitive then t else lowerColumn t) := by
    cases e.caseSensitive with
    | false => rfl
    | true => simp
  have hcontains : strContains (likeToRegex (e.folded lowerText (e.pattern.getD "None"))) = fun x =>
      pure ((x.map fun t => decide
        (LikeMatch (e.folded lowerText (e.pattern.getD "None")) t.toList ∧
          t.toList.count '\n' = (e.folded lowerText (e.pattern.getD "None")).count '\n')).getD
            false) := funext fun x => strContains_like _ x
  have hpattern : (if e.caseSensitive then e.pattern.getD "None"
      else lowerText (e.pattern.getD "None")).toList =
      e.folded lowerText (e.pattern.getD "None") := rfl
  unfold like
  simp only [hcolumn, hpattern, hcontains, List.mapM_pure, pure_bind, List.zipWith_map_left,
    List.zipWith_map_right, List.zipWith_self]
  refine congrArg Except.ok ?_
  cases hn : e.negated with
  | false =>
    rw [if_neg Bool.false_ne_true]
    refine List.map_congr_left fun x _ => ?_
    rw [likeMask, hn]
    cases x <;> rfl
  | true =>
    rw [if_pos rfl, List.map_map]
    refine List.map_congr_left fun x _ => ?_
    rw [likeMask, hn]
    cases x <;> rfl

/-- **A row is right**: the string is NULL, or the pattern is not and, if it matches the string, has as
many newlines. -/
def LikeExpr.Right (e : LikeExpr) (x : Option String) : Prop :=
  ∀ s, x = some s → ∃ p, e.pattern = some p ∧
    (LikeMatch (e.folded lowerText p) (e.folded lowerColumn s) →
      (e.folded lowerColumn s).count '\n' = (e.folded lowerText p).count '\n')

theorem likeMask_eq_iff (e : LikeExpr) (x : Option String) :
    likeMask lowerColumn lowerText e x = sqlLike lowerColumn lowerText e x ↔
      e.Right lowerColumn lowerText x := by
  cases x with
  | none =>
    refine iff_of_true ?_ fun s h => nomatch h
    rw [likeMask, sqlLike]
    cases e.pattern <;> cases e.negated <;> rfl
  | some s =>
    have hright : e.Right lowerColumn lowerText (some s) ↔ ∃ p, e.pattern = some p ∧
        (LikeMatch (e.folded lowerText p) (e.folded lowerColumn s) →
          (e.folded lowerColumn s).count '\n' = (e.folded lowerText p).count '\n') :=
      ⟨fun h => h s rfl, fun h t ht => Option.some.inj ht ▸ h⟩
    rw [hright, likeMask, sqlLike]
    cases e.pattern with
    | none => cases e.negated <;> simp [Kleene.not]
    | some p =>
      simp only [Option.getD_some, Option.map_some, Option.bind_some, Option.some.injEq,
        exists_eq_left']
      cases e.negated with
      | false => simp
      | true => simpa [Kleene.not] using not_imp_not

end Column

/-- **LIKE accepts exactly its language, and NOT LIKE the rest, at the strings that are right**: those
that are NULL, and, for a pattern that is not NULL, those that it does not match or that have as many
newlines as it. -/
theorem like_three_valued (lowerColumn lowerText : String → String) (e : LikeExpr)
    (s : List (Option String)) :
    like lowerColumn lowerText e s = .ok (s.map (sqlLike lowerColumn lowerText e)) ↔
      ∀ x ∈ s, e.Right lowerColumn lowerText x := by
  rw [like_eq]
  constructor
  · intro h x hx
    exact (likeMask_eq_iff _ _ e x).mp (List.map_inj_left.mp (Except.ok.inj h) x hx)
  · intro h
    exact congrArg Except.ok
      (List.map_congr_left fun x hx => (likeMask_eq_iff _ _ e x).mpr (h x hx))

/-- **A newline and a NULL pattern.**  `%` does not take the newline of `a\nb`, `_` not that of a lone
one, and a NULL pattern matches the text `None`. -/
theorem newline_not_taken :
    like id id ⟨some "a%", false, true⟩ [some "a\nb"] = .ok [some false] ∧
      sqlLike id id ⟨some "a%", false, true⟩ (some "a\nb") = some true ∧
    like id id ⟨some "_", true, true⟩ [some "\n"] = .ok [some true] ∧
      sqlLike id id ⟨some "_", true, true⟩ (some "\n") = some false ∧
    like id id ⟨none, false, true⟩ [some "None", some "a"] = .ok [some true, some false] ∧
      sqlLike id id ⟨none, false, true⟩ (some "None") = none := by
  refine ⟨?_, ?_, ?_, ?_, ?_, ?_⟩ <;> decide

end RyuDB.Sql
