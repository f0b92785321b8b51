/-
# Texts in the browser

The string operations that the front end's text formats are written in: splitting a text into lines at
`/\r?\n/`, joining lines, trimming.  A text is a list of characters.

* `splitLineBreaks_line`, `splitLineBreaks_lf`, `splitLineBreaks_crlf`: what the split does to a text
  that begins with a line.
* `joinLines_split`: the join is the inverse of the split, or shorter.
-/
import Mathlib.Data.List.DropRight
import Mathlib.Data.List.Infix

namespace RyuDB

namespace Js

/-- The characters `\s` matches and `trim` removes. -/
def isSpace (c : Char) : Bool :=
  let n := c.toNat
  (9 ≤ n && n ≤ 13) || n = 32 || n = 0xa0 || n = 0x1680 || (0x2000 ≤ n && n ≤ 0x200a) ||
    n = 0x2028 || n = 0x2029 || n = 0x202f || n = 0x205f || n = 0x3000 || n = 0xfeff

/-- `s.trim()`. -/
def trim (s : List Char) : List Char :=
  ((s.dropWhile isSpace).reverse.dropWhile isSpace).reverse

/-- `lines.join("\n")`. -/
def joinLines (lines : List (List Char)) : List Char := List.intercalate ['\n'] lines

/-- One more character in front of the first line. -/
def consHead (c : Char) : List (List Char) → List (List Char)
  | [] => [[c]]
  | l :: ls => (c :: l) :: ls

/-- `s.split(/\r?\n/)`. -/
def splitLineBreaks : List Char → List (List Char)
  | [] => [[]]
  | c :: cs =>
    if c = '\n' then [] :: splitLineBreaks cs
    -- the line feed that follows ends the line
    else if c = '\r' ∧ cs.head? = some '\n' then splitLineBreaks cs
    else consHead c (splitLineBreaks cs)

theorem splitLineBreaks_ne_nil (s : List Char) : splitLineBreaks s ≠ [] := by
  induction s with
  | nil => simp [splitLineBreaks]
  | cons c cs ih =>
    unfold splitLineBreaks
    split_ifs
    · simp
    · exact ih
    · cases h : splitLineBreaks cs <;> simp [consHead]

theorem splitLineBreaks_newline (s : List Char) : splitLineBreaks ('\n' :: s) = [] :: splitLineBreaks s := by
  simp [splitLineBreaks]

/-- A character that is neither a line feed nor a carriage return before one. -/
theorem splitLineBreaks_char {c : Char} {s : List Char} (hc : c ≠ '\n')
    (hcr : c = '\r' → s.head? ≠ some '\n') : splitLineBreaks (c :: s) = consHead c (splitLineBreaks s) := by
  rw [splitLineBreaks, if_neg hc, if_neg fun h => hcr h.1 h.2]

/-- A text without a line feed is one line. -/
theorem splitLineBreaks_line {line : List Char} (h : '\n' ∉ line) : splitLineBreaks line = [line] := by
  induction line with
  | nil => rfl
  | cons c cs ih =>
    rw [List.mem_cons, not_or] at h
    rw [splitLineBreaks_char (Ne.symm h.1), ih h.2, consHead]
    intro _ hhead
    exact h.2 (List.mem_of_mem_head? hhead)

/-- A line feed ends the line before it. -/
theorem splitLineBreaks_lf {line : List Char} (h : '\n' ∉ line) (hcr : line.getLast? ≠ some '\r')
    (rest : List Char) :
    splitLineBreaks (line ++ '\n' :: rest) = line :: splitLineBreaks rest := by
  induction line with
  | nil => exact splitLineBreaks_newline rest
  | cons c cs ih =>
    rw [List.mem_cons, not_or] at h
    cases cs with
    | nil =>
      have hc : c ≠ '\r' := by simpa using hcr
      rw [List.cons_append, List.nil_append, splitLineBreaks_char (Ne.symm h.1) fun e => absurd e hc,
        splitLineBreaks_newline, consHead]
    | cons d ds =>
      have hd : d ≠ '\n' := fun e => h.2 (e ▸ List.mem_cons_self)
      have hcr' : (d :: ds).getLast? ≠ some '\r' := by
        rwa [List.getLast?_cons_cons] at hcr
      rw [List.cons_append, splitLineBreaks_char (Ne.symm h.1), ih h.2 hcr', consHead]
      intro _ hhead
      exact hd (Option.some.inj hhead)

/-- A carriage return and a line feed end the line before them. -/
theorem splitLineBreaks_crlf {line : List Char} (h : '\n' ∉ line) (rest : List Char) :
    splitLineBreaks (line ++ '\r' :: '\n' :: rest) = line :: splitLineBreaks rest := by
  induction line with
  | nil => simp [splitLineBreaks]
  | cons c cs ih =>
    rw [List.mem_cons, not_or] at h
    rw [List.cons_append, splitLineBreaks_char (Ne.symm h.1), ih h.2, consHead]
    intro _ hhead
    cases cs with
    | nil => simp at hhead
    | cons d ds =>
      obtain rfl : d = '\n' := Option.some.inj hhead
      exact h.2 List.mem_cons_self

/-- Every text is one line, or begins with a line that a line feed ends, with or without a carriage
return before it. -/
theorem line_cases (s : List Char) :
    '\n' ∉ s ∨ ∃ line rest, '\n' ∉ line ∧
      (line.getLast? ≠ some '\r' ∧ s = line ++ '\n' :: rest ∨ s = line ++ '\r' :: '\n' :: rest) := by
  induction s with
  | nil => exact .inl (by simp)
  | cons c cs ih =>
    by_cases hc : c = '\n'
    · exact .inr ⟨[], cs, by simp, .inl ⟨by simp, by simp [hc]⟩⟩
    rcases ih with hno | ⟨line, rest, hline, hlf | hcrlf⟩
    · exact .inl (by simp [hno, Ne.symm hc])
    · obtain ⟨hcr, rfl⟩ := hlf
      by_cases hret : c = '\r' ∧ line = []
      · obtain ⟨rfl, rfl⟩ := hret
        exact .inr ⟨[], rest, by simp, .inr (by simp)⟩
      · refine .inr ⟨c :: line, rest, by simp [hline, Ne.symm hc], .inl ⟨?_, by simp⟩⟩
        cases line with
        | nil => simpa using fun e => hret ⟨e, rfl⟩
        | cons d ds => rwa [List.getLast?_cons_cons]
    · subst hcrlf
      exact .inr ⟨c :: line, rest, by simp [hline, Ne.symm hc], .inr (by simp)⟩

/-! ## Texts line by line -/

theorem consHead_split_append (c : Char) (s : List Char) (lines : List (List Char)) :
    consHead c (splitLineBreaks s ++ lines) = consHead c (splitLineBreaks s) ++ lines := by
  cases h : splitLineBreaks s with
  | nil => exact absurd h (splitLineBreaks_ne_nil s)
  | cons l ls => rfl

/-- A line feed behind a text that does not end with a carriage return. -/
theorem splitLineBreaks_append_lf {s : List Char} (hcr : s.getLast? ≠ some '\r') (rest : List Char) :
    splitLineBreaks (s ++ '\n' :: rest) = splitLineBreaks s ++ splitLineBreaks rest := by
  induction s with
  | nil => exact splitLineBreaks_newline rest
  | cons c cs ih =>
    have hcr' : cs.getLast? ≠ some '\r' := by
      cases cs with
      | nil => simp
      | cons d ds => rwa [List.getLast?_cons_cons] at hcr
    by_cases hc : c = '\n'
    · subst hc
      rw [List.cons_append, splitLineBreaks_newline, splitLineBreaks_newline, ih hcr', List.cons_append]
    by_cases hret : c = '\r' ∧ cs.head? = some '\n'
    · have hret' : c = '\r' ∧ (cs ++ '\n' :: rest).head? = some '\n' := ⟨hret.1, by simp [hret.2]⟩
      rw [List.cons_append, splitLineBreaks, if_neg hc, if_pos hret', ih hcr', splitLineBreaks, if_neg hc,
        if_pos hret]
    · have hret' : ¬(c = '\r' ∧ (cs ++ '\n' :: rest).head? = some '\n') := by
        rintro ⟨rfl, hhead⟩
        cases cs with
        | nil => exact hcr rfl
        | cons d ds => exact hret ⟨rfl, hhead⟩
      rw [List.cons_append, splitLineBreaks, if_neg hc, if_neg hret', ih hcr', splitLineBreaks, if_neg hc,
        if_neg hret, consHead_split_append]

/-- A carriage return and a line feed behind any text. -/
theorem splitLineBreaks_append_crlf (s rest : List Char) :
    splitLineBreaks (s ++ '\r' :: '\n' :: rest) = splitLineBreaks s ++ splitLineBreaks rest := by
  induction s with
  | nil => exact splitLineBreaks_crlf List.not_mem_nil rest
  | cons c cs ih =>
    by_cases hc : c = '\n'
    · subst hc
      rw [List.cons_append, splitLineBreaks_newline, splitLineBreaks_newline, ih, List.cons_append]
    have hhead : (cs ++ '\r' :: '\n' :: rest).head? = some '\n' ↔ cs.head? = some '\n' := by
      cases cs <;> simp
    rw [List.cons_append, splitLineBreaks, splitLineBreaks, if_neg hc, if_neg hc, ih]
    simp only [hhead]
    split_ifs
    · rfl
    · exact consHead_split_append c cs _

theorem joinLines_cons {lines : List (List Char)} (h : lines ≠ []) (line : List Char) :
    joinLines (line :: lines) = line ++ '\n' :: joinLines lines := by
  rw [joinLines, List.intercalate_cons_of_ne_nil h, List.append_assoc, List.singleton_append, joinLines]

theorem joinLines_concat {lines : List (List Char)} (h : lines ≠ []) (line : List Char) :
    joinLines (lines ++ [line]) = joinLines lines ++ '\n' :: line := by
  induction lines with
  | nil => exact absurd rfl h
  | cons l ls ih =>
    by_cases hls : ls = []
    · subst hls
      simp [joinLines]
    · rw [List.cons_append, joinLines_cons (by simp), ih hls, joinLines_cons hls, List.append_assoc,
        List.cons_append]

/-- Fewer lines are not longer. -/
theorem length_joinLines_le {lines lines' : List (List Char)} (h : lines <+: lines') :
    (joinLines lines).length ≤ (joinLines lines').length := by
  induction lines' using List.reverseRecOn with
  | nil => rw [List.prefix_nil.mp h]
  | append_singleton ls l ih =>
    rcases List.prefix_concat_iff.mp h with rfl | hls
    · exact le_rfl
    · refine (ih hls).trans ?_
      by_cases hne : ls = []
      · simp [hne, joinLines]
      · simp [joinLines_concat hne]

/-- Chunks that do not end with a carriage return, joined and ended by a line feed, split as each does. -/
theorem splitLineBreaks_joinLines {chunks : List (List Char)} (hne : chunks ≠ [])
    (hcr : ∀ chunk ∈ chunks, chunk.getLast? ≠ some '\r') (rest : List Char) :
    splitLineBreaks (joinLines chunks ++ '\n' :: rest)
      = chunks.flatMap splitLineBreaks ++ splitLineBreaks rest := by
  induction chunks with
  | nil => exact absurd rfl hne
  | cons chunk chunks ih =>
    by_cases hmore : chunks = []
    · subst hmore
      simpa [joinLines] using splitLineBreaks_append_lf (hcr chunk (by simp)) rest
    · rw [joinLines_cons hmore, List.append_assoc, List.cons_append,
        splitLineBreaks_append_lf (hcr chunk (by simp)), ih hmore fun c hc => hcr c (by simp [hc]),
        List.flatMap_cons, List.append_assoc]

/-- **A text without a carriage return before a line feed is its lines joined**; one with is longer. -/
theorem joinLines_split (s : List Char) :
    ¬ ['\r', '\n'] <:+: s ∧ joinLines (splitLineBreaks s) = s ∨
      ['\r', '\n'] <:+: s ∧ (joinLines (splitLineBreaks s)).length < s.length := by
  induction s with
  | nil => exact .inl ⟨by decide, rfl⟩
  | cons c cs ih =>
    by_cases hret : c = '\r' ∧ cs.head? = some '\n'
    · obtain ⟨rfl, hhead⟩ := hret
      obtain ⟨ds, rfl⟩ := List.head?_eq_some_iff.mp hhead
      refine .inr ⟨⟨[], ds, rfl⟩, ?_⟩
      have hsplit : splitLineBreaks ('\r' :: '\n' :: ds) = splitLineBreaks ('\n' :: ds) :=
        (splitLineBreaks_append_crlf [] ds).trans (splitLineBreaks_newline ds).symm
      rw [hsplit, List.length_cons]
      rcases ih with ⟨-, heq⟩ | ⟨-, hlt⟩
      · rw [heq]
        exact Nat.lt_succ_self _
      · exact hlt.trans (Nat.lt_succ_self _)
    · have hlater : ['\r', '\n'] <:+: c :: cs ↔ ['\r', '\n'] <:+: cs := by
        rw [List.infix_cons_iff, or_iff_right]
        rintro ⟨t, ht⟩
        obtain ⟨rfl, rfl⟩ := List.cons.inj ht
        exact hret ⟨rfl, rfl⟩
      have hjoin : joinLines (splitLineBreaks (c :: cs)) = c :: joinLines (splitLineBreaks cs) := by
        by_cases hc : c = '\n'
        · rw [hc, splitLineBreaks_newline, joinLines_cons (splitLineBreaks_ne_nil cs), List.nil_append]
        · rw [splitLineBreaks, if_neg hc, if_neg hret]
          cases h : splitLineBreaks cs with
          | nil => exact absurd h (splitLineBreaks_ne_nil cs)
          | cons l ls => exact List.intercalate_cons_cons_left
      rw [hlater, hjoin, List.length_cons, List.length_cons, Nat.succ_lt_succ_iff, List.cons_inj_right]
      exact ih

/-- A line holds no line feed. -/
theorem newline_notMem_line {s line : List Char} (h : line ∈ splitLineBreaks s) : '\n' ∉ line := by
  induction s generalizing line with
  | nil => simp_all [splitLineBreaks]
  | cons c cs ih =>
    rw [splitLineBreaks] at h
    split_ifs at h with hc hret
    · rcases List.mem_cons.mp h with rfl | h
      · exact List.not_mem_nil
      · exact ih h
    · exact ih h
    · cases hs : splitLineBreaks cs with
      | nil => exact absurd hs (splitLineBreaks_ne_nil cs)
      | cons l ls =>
        rw [hs, consHead, List.mem_cons] at h
        rw [hs] at ih
        rcases h with rfl | h
        · rw [List.mem_cons, not_or]
          exact ⟨Ne.symm hc, ih (by simp)⟩
        · exact ih (by simp [h])

theorem trim_eq (s : List Char) : trim s = (s.dropWhile isSpace).rdropWhile isSpace := rfl

/-- A trimmed text is trimmed. -/
theorem trim_trim (s : List Char) : trim (trim s) = trim s := by
  have hstart : (trim s).dropWhile isSpace = trim s := by
    rw [List.dropWhile_eq_self_iff]
    intro hl
    have hfront : trim s <+: s.dropWhile isSpace := List.rdropWhile_prefix isSpace _
    rw [hfront.getElem hl]
    exact List.dropWhile_get_zero_not _ _ (hl.trans_le hfront.length_le)
  rw [trim_eq (trim s), hstart, trim_eq, List.rdropWhile_idempotent]

end Js

end RyuDB
