/-
# Worksheet bundles

All worksheets export as one text: a header comment, the number of worksheets, and for each a line
`-- @@worksheet: name` with the SQL behind it.  The import reads the text line by line and begins a
worksheet at every line of that form.

Nothing in the format is escaped.  The import trims names, splits at `/\r?\n/` and joins with line
feeds, and drops blank lines at the end of a section.

* `parseBundle_serializeBundle`: where no SQL contains a separator line, the bundle comes back, up to one
  newline at the end of each SQL, exactly when every name is trimmed and on one line, and every SQL is free
  of carriage returns at line ends and of blank lines at its end.

The condition is exact, so it says which worksheets a user may lose something of: a name with spaces
at its ends, SQL from a file with carriage returns, SQL that ends in blank lines.
-/
import Mathlib.Data.List.Forall2
import RyuDB.JsText

namespace RyuDB

namespace Bundle

open Js

/-! ## 1. The format -/

structure WorksheetDoc where
  name : List Char
  sql : List Char
  deriving DecidableEq

def bundleHeader : List Char := "-- ryudb worksheet bundle".toList

/-- The characters `.` does not match. -/
def isTerminator (c : Char) : Bool :=
  c = '\n' || c = '\r' || c.toNat = 0x2028 || c.toNat = 0x2029

/-- A text on one line. -/
def OneLine (s : List Char) : Prop := ∀ c ∈ s, isTerminator c = false

/-- What the group of `HEADER_RE` matches in a line, `/^--\s*@@worksheet:\s*(.*)$/`.  The spaces are
taken greedily; a line terminator behind them leaves no match. -/
def headerName : List Char → Option (List Char)
  | '-' :: '-' :: rest =>
    let marked := rest.dropWhile isSpace
    if "@@worksheet:".toList <+: marked then
      let name := (marked.drop 12).dropWhile isSpace
      if name.any isTerminator then none else some name
    else none
  | _ => none

/-- `HEADER_RE.test(line)`. -/
def isSeparator (line : List Char) : Bool := (headerName line).isSome

def ensureTrailingNewline (s : List Char) : List Char :=
  if s = [] then [] else if s.getLast? = some '\n' then s else s ++ ['\n']

def trimTrailingBlank (lines : List (List Char)) : List (List Char) :=
  lines.rdropWhile fun line => trim line = []

/-- The separator line of a name. -/
def separatorLine (name : List Char) : List Char := "-- @@worksheet: ".toList ++ name

def countLine (n : Nat) : List Char := "-- ".toList ++ Nat.toDigits 10 n ++ " worksheet(s)".toList

/-- `serializeBundle`. -/
def serializeBundle (worksheets : List WorksheetDoc) : List Char :=
  joinLines (bundleHeader :: countLine worksheets.length ::
    worksheets.flatMap fun w => [separatorLine w.name, ensureTrailingNewline w.sql]) ++ ['\n']

/-- The variables of the loop of `parseBundle`. -/
structure Scan where
  docs : List WorksheetDoc
  curName : Option (List Char)
  curLines : List (List Char)

/-- The SQL of a section. -/
def sectionSql (lines : List (List Char)) : List Char := joinLines (trimTrailingBlank lines)

/-- `flush`. -/
def Scan.flush (s : Scan) : Scan :=
  match s.curName with
  | some name => ⟨s.docs ++ [⟨name, sectionSql s.curLines⟩], none, []⟩
  | none => ⟨s.docs, none, []⟩

/-- The loop's body. -/
def Scan.step (s : Scan) (line : List Char) : Scan :=
  match headerName line with
  | some name => { s.flush with curName := some (trim name) }
  | none => if s.curName.isSome then { s with curLines := s.curLines ++ [line] } else s

/-- `parseBundle`. -/
def parseBundle (text : List Char) : List WorksheetDoc :=
  let lines := splitLineBreaks text
  if bundleHeader <+: text ∨ lines.any isSeparator then
    (lines.foldl Scan.step ⟨[], none, []⟩).flush.docs
  else [⟨[], sectionSql lines⟩]

/-! ## 2. What survives -/

/-- A text without one newline at its end. -/
def chomp (s : List Char) : List Char := if s.getLast? = some '\n' then s.dropLast else s

/-- The worksheet came back: the same name, and the same SQL except for one trailing newline. -/
def SameDoc (w d : WorksheetDoc) : Prop := d.name = w.name ∧ chomp d.sql = chomp w.sql

/-- The name is trimmed and on one line. -/
def NameKept (name : List Char) : Prop := trim name = name ∧ OneLine name

/-- The last line of a text. -/
def lastLine (s : List Char) : List Char := (splitLineBreaks s).getLast (splitLineBreaks_ne_nil s)

/-- But for a newline at its end, the SQL has no carriage return before a line feed or at its end, and
it is empty or ends with a line that is not blank. -/
def SqlKept (sql : List Char) : Prop :=
  ¬ ['\r', '\n'] <:+: chomp sql ∧ (chomp sql).getLast? ≠ some '\r' ∧
    (chomp sql = [] ∨ trim (lastLine (chomp sql)) ≠ [])

/-- No line of the SQL is a separator. -/
def NoSeparator (sql : List Char) : Prop := ∀ line ∈ splitLineBreaks sql, headerName line = none

/-! ## 3. Separator lines -/

theorem at_mem_of_headerName {line name : List Char} (h : headerName line = some name) : '@' ∈ line := by
  unfold headerName at h
  split at h
  · rename_i rest
    dsimp only at h
    split_ifs at h with hmark
    have hat : '@' ∈ rest.dropWhile isSpace := hmark.subset (by decide)
    simp [List.dropWhile_subset isSpace hat]
  · cases h

theorem headerName_none {line : List Char} (h : '@' ∉ line) : headerName line = none := by
  cases hname : headerName line with
  | none => rfl
  | some name => exact absurd (at_mem_of_headerName hname) h

/-- The group matches no line terminator. -/
theorem headerName_oneLine {line name : List Char} (h : headerName line = some name) :
    OneLine name := by
  unfold headerName at h
  split at h
  · dsimp only at h
    split_ifs at h with hmark hterm
    obtain rfl := Option.some.inj h
    simpa [OneLine] using hterm
  · cases h

/-- The separator line of a name on one line is read as that name, without spaces before it. -/
theorem headerName_separatorLine {name : List Char} (h : OneLine name) :
    headerName (separatorLine name) = some (name.dropWhile isSpace) := by
  have hterm : (name.dropWhile isSpace).any isTerminator = false := by
    rw [List.any_eq_false]
    intro c hc
    simp [h c (List.dropWhile_subset isSpace hc)]
  have hmarked : (" @@worksheet: ".toList ++ name).dropWhile isSpace
      = "@@worksheet:".toList ++ ' ' :: name := by
    rw [show " @@worksheet: ".toList = ' ' :: '@' :: "@worksheet: ".toList from rfl, List.cons_append,
      List.dropWhile_cons_of_pos (by decide), List.cons_append, List.dropWhile_cons_of_neg (by decide)]
    rfl
  have hgroup : (("@@worksheet:".toList ++ ' ' :: name).drop 12).dropWhile isSpace
      = name.dropWhile isSpace := by
    rw [List.drop_left' (by decide), List.dropWhile_cons_of_pos (by decide)]
  have hline : separatorLine name = '-' :: '-' :: (" @@worksheet: ".toList ++ name) := rfl
  rw [hline, headerName, hmarked, if_pos (List.prefix_append _ _), hgroup]
  exact if_neg (by simp [hterm])

theorem trim_dropWhile (s : List Char) : trim (s.dropWhile isSpace) = trim s := by
  rw [trim_eq, trim_eq, List.dropWhile_idempotent]

theorem OneLine.trim {s : List Char} (h : OneLine s) : OneLine (Js.trim s) :=
  fun c hc => h c (List.dropWhile_subset isSpace ((List.rdropWhile_prefix isSpace _).subset hc))

theorem OneLine.append {s t : List Char} (hs : OneLine s) (ht : OneLine t) : OneLine (s ++ t) := by
  intro c hc
  rcases List.mem_append.mp hc with hc | hc
  · exact hs c hc
  · exact ht c hc

theorem OneLine.newline_notMem {s : List Char} (h : OneLine s) : '\n' ∉ s :=
  fun hc => absurd (h _ hc) (by decide)

theorem OneLine.getLast {s : List Char} (h : OneLine s) : s.getLast? ≠ some '\r' :=
  fun hc => absurd (h _ (List.mem_of_getLast? hc)) (by decide)

theorem oneLine_of_any {s : List Char} (h : s.any isTerminator = false) : OneLine s := by
  simpa [OneLine] using h

theorem oneLine_bundleHeader : OneLine bundleHeader := oneLine_of_any (by decide)

theorem oneLine_separatorLine {name : List Char} (h : OneLine name) : OneLine (separatorLine name) :=
  .append (oneLine_of_any (by decide)) h

theorem oneLine_countLine (n : Nat) : OneLine (countLine n) := by
  refine .append (.append (oneLine_of_any (by decide)) fun c hc => ?_) (oneLine_of_any (by decide))
  have hdigit : c.isDigit := Nat.isDigit_of_mem_toDigits (by decide) (by decide) hc
  have hrange : c.toNat ≤ 57 ∧ 48 ≤ c.toNat := by
    simp only [Char.isDigit, Bool.and_eq_true, decide_eq_true_eq] at hdigit
    exact ⟨hdigit.2, hdigit.1⟩
  simp only [isTerminator, Bool.or_eq_false_iff, decide_eq_false_iff_not]
  refine ⟨⟨⟨?_, ?_⟩, by omega⟩, by omega⟩ <;> rintro rfl <;> simp at hrange

theorem headerName_countLine (n : Nat) : headerName (countLine n) = none := by
  refine headerName_none fun h => ?_
  simp only [countLine, List.mem_append] at h
  rcases h with (h | h) | h
  · exact absurd h (by decide)
  · exact absurd (Nat.isDigit_of_mem_toDigits (by decide) (by decide) h) (by decide)
  · exact absurd h (by decide)

/-! ## 4. The SQL of one worksheet -/

theorem ensureTrailingNewline_eq {sql : List Char} (h : sql ≠ []) :
    ensureTrailingNewline sql = chomp sql ++ ['\n'] := by
  unfold ensureTrailingNewline chomp
  rw [if_neg h]
  split_ifs with hlast
  · obtain ⟨s, rfl⟩ := List.getLast?_eq_some_iff.mp hlast
    rw [List.dropLast_concat]
  · rfl

theorem ensureTrailingNewline_getLast (sql : List Char) :
    (ensureTrailingNewline sql).getLast? ≠ some '\r' := by
  by_cases h : sql = []
  · simp [h, ensureTrailingNewline]
  · simp [ensureTrailingNewline_eq h]

/-- A blank line behind a section is dropped. -/
theorem sectionSql_blank (lines : List (List Char)) : sectionSql (lines ++ [[]]) = sectionSql lines := by
  rw [sectionSql, trimTrailingBlank, List.rdropWhile_concat_pos _ _ _ (by decide)]
  rfl

theorem trimTrailingBlank_isFront (lines : List (List Char)) : trimTrailingBlank lines <+: lines :=
  List.rdropWhile_prefix _ _

theorem length_sectionSql_le (lines : List (List Char)) :
    (sectionSql lines).length ≤ (joinLines lines).length :=
  length_joinLines_le (trimTrailingBlank_isFront lines)

/-- The lines of a section end with one that is not blank. -/
theorem trimTrailingBlank_cases (lines : List (List Char)) :
    trimTrailingBlank lines = [] ∨
      ∃ front last, trimTrailingBlank lines = front ++ [last] ∧ trim last ≠ [] := by
  by_cases hnil : trimTrailingBlank lines = []
  · exact .inl hnil
  · refine .inr ⟨_, _, (List.dropLast_append_getLast hnil).symm, ?_⟩
    have hlast : ¬ decide (trim ((trimTrailingBlank lines).getLast hnil) = []) :=
      List.rdropWhile_last_not _ _ hnil
    simpa using hlast

/-- The SQL of a section does not end with a newline. -/
theorem sectionSql_getLast (s : List Char) : (sectionSql (splitLineBreaks s)).getLast? ≠ some '\n' := by
  rcases trimTrailingBlank_cases (splitLineBreaks s) with hnil | ⟨front, last, hlines, hblank⟩
  · simp [sectionSql, hnil, joinLines]
  have hmem : last ∈ splitLineBreaks s :=
    (trimTrailingBlank_isFront _).subset (by simp [hlines])
  have hne : last ≠ [] := by
    rintro rfl
    exact hblank rfl
  have hend : (sectionSql (splitLineBreaks s)).getLast? = last.getLast? := by
    rw [sectionSql, hlines]
    by_cases hone : front = []
    · simp [hone, joinLines]
    · rw [joinLines_concat hone, List.getLast?_append_of_ne_nil _ (List.cons_ne_nil _ _),
        List.getLast?_cons, List.getLast?_eq_some_getLast hne]
      rfl
  rw [hend]
  exact fun h => newline_notMem_line hmem (List.mem_of_getLast? h)

theorem chomp_of_getLast {s : List Char} (h : s.getLast? ≠ some '\n') : chomp s = s := if_neg h

/-- The lines of a section are joined to the text again when it has no carriage return before a line
feed and no blank line at its end. -/
theorem sectionSql_split {base : List Char} :
    sectionSql (splitLineBreaks base) = base ↔
      ¬ ['\r', '\n'] <:+: base ∧ (base = [] ∨ trim (lastLine base) ≠ []) := by
  have hlines : splitLineBreaks base = (splitLineBreaks base).dropLast ++ [lastLine base] :=
    (List.dropLast_append_getLast _).symm
  generalize (splitLineBreaks base).dropLast = front at hlines
  constructor
  · intro h
    have hle : base.length ≤ (joinLines (splitLineBreaks base)).length :=
      (congrArg List.length h).ge.trans (length_sectionSql_le _)
    rcases joinLines_split base with ⟨hcr, hjoin⟩ | ⟨-, hlt⟩
    · refine ⟨hcr, or_iff_not_imp_left.mpr fun hne hblank => ?_⟩
      -- a blank last line is dropped, and the join without it is shorter
      have hfront : sectionSql front = base := by
        rw [← h, hlines, sectionSql, sectionSql, trimTrailingBlank, trimTrailingBlank,
          List.rdropWhile_concat_pos _ _ _ (by simpa using hblank)]
      have hshort := length_sectionSql_le front
      rw [hfront] at hshort
      by_cases hone : front = []
      · subst hone
        exact hne hfront.symm
      · rw [hlines, joinLines_concat hone] at hjoin
        rw [← hjoin, List.length_append, List.length_cons] at hshort
        omega
    · exact absurd hle (by omega)
  · rintro ⟨hcr, hend⟩
    have hjoin : joinLines (splitLineBreaks base) = base := by
      rcases joinLines_split base with ⟨-, hjoin⟩ | ⟨h, -⟩
      · exact hjoin
      · exact absurd h hcr
    rcases hend with rfl | hlast
    · rfl
    · have hkeep : trimTrailingBlank (splitLineBreaks base) = splitLineBreaks base := by
        rw [hlines, trimTrailingBlank, List.rdropWhile_concat_neg _ _ _ (by simpa using hlast)]
      rw [sectionSql, hkeep, hjoin]

/-- **The SQL of a section that the bundle wrote.** -/
theorem sectionSql_kept (sql : List Char) :
    chomp (sectionSql (splitLineBreaks (ensureTrailingNewline sql))) = chomp sql ↔ SqlKept sql := by
  rw [chomp_of_getLast (sectionSql_getLast _)]
  by_cases hsql : sql = []
  · subst hsql
    exact iff_of_true rfl ⟨by decide, by decide, .inl rfl⟩
  rw [ensureTrailingNewline_eq hsql, SqlKept]
  generalize chomp sql = base
  by_cases hcr : base.getLast? = some '\r'
  · -- the newline behind a carriage return swallows it
    obtain ⟨front, rfl⟩ := List.getLast?_eq_some_iff.mp hcr
    refine iff_of_false (fun h => ?_) fun h => h.2.1 hcr
    rw [List.append_assoc, List.singleton_append, splitLineBreaks_append_crlf, splitLineBreaks,
      sectionSql_blank] at h
    have hshort := length_sectionSql_le (splitLineBreaks front)
    rw [h, List.length_append, List.length_singleton] at hshort
    rcases joinLines_split front with ⟨-, hjoin⟩ | ⟨-, hlt⟩
    · rw [hjoin] at hshort
      omega
    · omega
  · rw [splitLineBreaks_append_lf hcr, splitLineBreaks, sectionSql_blank, sectionSql_split]
    simp [hcr]

/-! ## 5. The scan -/

/-- The lines of one worksheet's section. -/
def sectionLines (w : WorksheetDoc) : List (List Char) :=
  separatorLine w.name :: splitLineBreaks (ensureTrailingNewline w.sql)

/-- The lines of a bundle of names that are on one line. -/
theorem splitLineBreaks_serializeBundle {worksheets : List WorksheetDoc}
    (hnames : ∀ w ∈ worksheets, OneLine w.name) :
    splitLineBreaks (serializeBundle worksheets)
      = bundleHeader :: countLine worksheets.length :: (worksheets.flatMap sectionLines ++ [[]]) := by
  have hline : ∀ {s : List Char}, OneLine s → splitLineBreaks s = [s] :=
    fun h => splitLineBreaks_line h.newline_notMem
  rw [serializeBundle, splitLineBreaks_joinLines (by simp), List.flatMap_cons, List.flatMap_cons,
    hline oneLine_bundleHeader, hline (oneLine_countLine _), List.flatMap_assoc, splitLineBreaks]
  · have hsections : (worksheets.flatMap fun w =>
        [separatorLine w.name, ensureTrailingNewline w.sql].flatMap splitLineBreaks)
        = worksheets.flatMap sectionLines := by
      refine List.flatMap_congr fun w hw => ?_
      simp [sectionLines, hline (oneLine_separatorLine (hnames w hw))]
    rw [hsections]
    rfl
  · intro chunk hchunk
    simp only [List.mem_cons, List.mem_flatMap, List.not_mem_nil, or_false] at hchunk
    rcases hchunk with rfl | rfl | ⟨w, hw, rfl | rfl⟩
    · exact oneLine_bundleHeader.getLast
    · exact (oneLine_countLine _).getLast
    · exact (oneLine_separatorLine (hnames w hw)).getLast
    · exact ensureTrailingNewline_getLast w.sql

/-- Behind a separator, lines that are no separators join the section. -/
theorem foldl_section {lines : List (List Char)} (h : ∀ line ∈ lines, headerName line = none)
    (docs : List WorksheetDoc) (name : List Char) (cur : List (List Char)) :
    lines.foldl Scan.step ⟨docs, some name, cur⟩ = ⟨docs, some name, cur ++ lines⟩ := by
  induction lines generalizing cur with
  | nil => simp
  | cons line lines ih =>
    have hstep : Scan.step ⟨docs, some name, cur⟩ line = ⟨docs, some name, cur ++ [line]⟩ := by
      simp [Scan.step, h line (by simp)]
    rw [List.foldl_cons, hstep, ih fun l hl => h l (by simp [hl]), List.append_assoc,
      List.singleton_append]

/-- The documents that a scan holds once it is flushed are one for each separator. -/
theorem length_flush_foldl (lines : List (List Char)) (s : Scan) :
    (lines.foldl Scan.step s).flush.docs.length
      = s.flush.docs.length + lines.countP isSeparator := by
  induction lines generalizing s with
  | nil => rfl
  | cons line lines ih =>
    rw [List.foldl_cons, ih, List.countP_cons]
    cases hname : headerName line with
    | some name =>
      simp only [Scan.step, hname, Scan.flush, isSeparator, List.length_append]
      simp
      omega
    | none =>
      have hstep : (s.step line).flush.docs.length = s.flush.docs.length := by
        cases hcur : s.curName <;> simp [Scan.step, hname, Scan.flush, hcur]
      simp [hstep, isSeparator, hname]

/-- Every document of a scan has a name that is trimmed and on one line. -/
theorem nameKept_foldl (lines : List (List Char)) {s : Scan}
    (hs : ∀ d ∈ s.flush.docs, NameKept d.name) :
    ∀ d ∈ (lines.foldl Scan.step s).flush.docs, NameKept d.name := by
  induction lines generalizing s with
  | nil => exact hs
  | cons line lines ih =>
    refine ih fun d hd => ?_
    cases hname : headerName line with
    | some name =>
      simp only [Scan.step, hname, Scan.flush, List.mem_append, List.mem_singleton] at hd
      rcases hd with hd | rfl
      · exact hs d hd
      · exact ⟨trim_trim name, (headerName_oneLine hname).trim⟩
    | none =>
      cases hcur : s.curName with
      | none =>
        simp only [Scan.step, hname, hcur, Option.isSome_none, if_neg Bool.false_ne_true] at hd
        exact hs d hd
      | some name =>
        simp only [Scan.step, hname, hcur, Option.isSome_some, if_true, Scan.flush, List.mem_append,
          List.mem_singleton] at hd hs
        rcases hd with hd | rfl
        · exact hs d (.inl hd)
        · exact hs ⟨name, sectionSql s.curLines⟩ (.inr rfl)

/-- The scan of sections whose names survive and whose SQL has no separator. -/
theorem flush_foldl_sections {worksheets : List WorksheetDoc}
    (hnames : ∀ w ∈ worksheets, NameKept w.name)
    (hsql : ∀ w ∈ worksheets, NoSeparator (ensureTrailingNewline w.sql)) (s : Scan) :
    ((worksheets.flatMap sectionLines ++ [[]]).foldl Scan.step s).flush.docs
      = s.flush.docs ++ worksheets.map fun w =>
          ⟨w.name, sectionSql (splitLineBreaks (ensureTrailingNewline w.sql))⟩ := by
  induction worksheets generalizing s with
  | nil =>
    have hblank : headerName [] = none := rfl
    cases hcur : s.curName <;> simp [Scan.step, hblank, Scan.flush, hcur, sectionSql_blank]
  | cons w worksheets ih =>
    have hsep : s.step (separatorLine w.name) = ⟨s.flush.docs, some w.name, []⟩ := by
      obtain ⟨htrim, hline⟩ := hnames w (by simp)
      cases hcur : s.curName <;>
        simp [Scan.step, headerName_separatorLine hline, Scan.flush, hcur, trim_dropWhile, htrim]
    rw [List.flatMap_cons, sectionLines, List.cons_append, List.cons_append, List.foldl_cons, hsep,
      List.append_assoc, List.foldl_append, foldl_section (hsql w (by simp)), List.nil_append,
      ih (fun v hv => hnames v (by simp [hv])) fun v hv => hsql v (by simp [hv])]
    simp [Scan.flush]

/-! ## 6. The round trip -/

theorem serializeBundle_begins (worksheets : List WorksheetDoc) :
    bundleHeader <+: serializeBundle worksheets := by
  rw [serializeBundle, joinLines_cons (by simp), List.append_assoc]
  exact List.prefix_append _ _

/-- The text of a bundle is read as one. -/
theorem parseBundle_eq {worksheets : List WorksheetDoc} (hnames : ∀ w ∈ worksheets, OneLine w.name) :
    parseBundle (serializeBundle worksheets)
      = ((worksheets.flatMap sectionLines ++ [[]]).foldl Scan.step ⟨[], none, []⟩).flush.docs := by
  have hskip : ∀ line, headerName line = none → Scan.step ⟨[], none, []⟩ line = ⟨[], none, []⟩ := by
    intro line hline
    simp [Scan.step, hline]
  rw [parseBundle, if_pos (.inl (serializeBundle_begins worksheets)), splitLineBreaks_serializeBundle hnames, List.foldl_cons,
    List.foldl_cons, hskip _ (by decide), hskip _ (headerName_countLine _)]

/-- The names of a bundle that is read are trimmed and on one line. -/
theorem nameKept_parseBundle (worksheets : List WorksheetDoc) :
    ∀ d ∈ parseBundle (serializeBundle worksheets), NameKept d.name := by
  rw [parseBundle, if_pos (.inl (serializeBundle_begins worksheets))]
  exact nameKept_foldl _ (by simp [Scan.flush])

/-- A bundle has a separator for each worksheet, and with no more it has none in its SQL. -/
theorem noSeparator_of_count {worksheets : List WorksheetDoc}
    (hnames : ∀ w ∈ worksheets, OneLine w.name) :
    worksheets.length ≤ (worksheets.flatMap sectionLines).countP isSeparator ∧
      ((worksheets.flatMap sectionLines).countP isSeparator = worksheets.length →
        ∀ w ∈ worksheets, NoSeparator (ensureTrailingNewline w.sql)) := by
  induction worksheets with
  | nil => simp
  | cons w worksheets ih =>
    obtain ⟨hle, hall⟩ := ih fun v hv => hnames v (by simp [hv])
    have hsep : isSeparator (separatorLine w.name) := by
      simp [isSeparator, headerName_separatorLine (hnames w (by simp))]
    rw [List.flatMap_cons, List.countP_append, sectionLines, List.countP_cons_of_pos hsep,
      List.length_cons]
    refine ⟨by omega, fun heq v hv => ?_⟩
    rcases List.mem_cons.mp hv with rfl | hv
    · intro line hline
      have hzero : (splitLineBreaks (ensureTrailingNewline v.sql)).countP isSeparator = 0 := by omega
      simpa [isSeparator] using List.countP_eq_zero.mp hzero line hline
    · exact hall (by omega) v hv

/-- A bundle of which every section is read as it was written. -/
theorem parseBundle_sections {worksheets : List WorksheetDoc}
    (hnames : ∀ w ∈ worksheets, NameKept w.name)
    (hsql : ∀ w ∈ worksheets, NoSeparator (ensureTrailingNewline w.sql)) :
    parseBundle (serializeBundle worksheets) = worksheets.map fun w =>
      ⟨w.name, sectionSql (splitLineBreaks (ensureTrailingNewline w.sql))⟩ := by
  rw [parseBundle_eq fun w hw => (hnames w hw).2, flush_foldl_sections hnames hsql]
  rfl

/-- The newline at the end of a kept SQL makes no separator. -/
theorem noSeparator_ensureTrailingNewline {sql : List Char} (h : NoSeparator sql)
    (hcr : (chomp sql).getLast? ≠ some '\r') : NoSeparator (ensureTrailingNewline sql) := by
  unfold ensureTrailingNewline
  split_ifs with hnil hlast
  · exact hnil ▸ h
  · exact h
  · intro line hline
    rw [chomp_of_getLast hlast] at hcr
    rw [splitLineBreaks_append_lf hcr, List.mem_append] at hline
    rcases hline with hline | hline
    · exact h line hline
    · obtain rfl : line = [] := by simpa [splitLineBreaks] using hline
      rfl

/-- **The round trip.**  Where no SQL contains a separator line, the bundle comes back exactly when
every name and every SQL is of the kind that the format keeps.  A separator line in the SQL begins a
worksheet of its own, whatever else the SQL is like, so it is excluded beforehand. -/
theorem parseBundle_serializeBundle (worksheets : List WorksheetDoc)
    (hsep : ∀ w ∈ worksheets, NoSeparator w.sql) :
    List.Forall₂ SameDoc worksheets (parseBundle (serializeBundle worksheets)) ↔
      ∀ w ∈ worksheets, NameKept w.name ∧ SqlKept w.sql := by
  constructor
  · intro h
    have hnames : ∀ w ∈ worksheets, NameKept w.name := by
      intro w hw
      obtain ⟨i, hi, rfl⟩ := List.getElem_of_mem hw
      have hi' : i < (parseBundle (serializeBundle worksheets)).length := h.length_eq ▸ hi
      have hsame : SameDoc worksheets[i] (parseBundle (serializeBundle worksheets))[i] :=
        (List.forall₂_iff_get.mp h).2 i hi hi'
      exact hsame.1 ▸ nameKept_parseBundle worksheets _ (List.getElem_mem hi')
    have hline : ∀ w ∈ worksheets, OneLine w.name := fun w hw => (hnames w hw).2
    have hcount : (worksheets.flatMap sectionLines).countP isSeparator = worksheets.length := by
      have hlength := h.length_eq
      rw [parseBundle_eq hline, length_flush_foldl, List.countP_append] at hlength
      have hblank : [[]].countP isSeparator = 0 := rfl
      simp [Scan.flush, hblank] at hlength
      exact hlength.symm
    rw [parseBundle_sections hnames ((noSeparator_of_count hline).2 hcount),
      List.forall₂_map_right_iff, List.forall₂_same] at h
    exact fun w hw => ⟨hnames w hw, (sectionSql_kept w.sql).mp (h w hw).2⟩
  · intro h
    have hsql : ∀ w ∈ worksheets, NoSeparator (ensureTrailingNewline w.sql) := fun w hw =>
      noSeparator_ensureTrailingNewline (hsep w hw) (h w hw).2.2.1
    rw [parseBundle_sections (fun w hw => (h w hw).1) hsql, List.forall₂_map_right_iff, List.forall₂_same]
    exact fun w hw => ⟨rfl, (sectionSql_kept w.sql).mpr (h w hw).2⟩

/-- Two worksheets, one of several lines, one empty. -/
def queries : List WorksheetDoc :=
  [⟨"Q1 Revenue".toList, "SELECT 1\n\nFROM t\n".toList⟩, ⟨"Empty".toList, []⟩]

theorem parseBundle_serializeBundle_queries :
    List.Forall₂ SameDoc queries (parseBundle (serializeBundle queries)) ↔
      ∀ w ∈ queries, NameKept w.name ∧ SqlKept w.sql := by
  refine parseBundle_serializeBundle queries ?_
  unfold NoSeparator
  decide

/-- A SQL with line ends of two characters. -/
def windowsLines : List WorksheetDoc := [⟨"Q".toList, "SELECT 1\r\nFROM t".toList⟩]

/-- **A carriage return is lost.** -/
theorem carriage_return_lost :
    (∀ w ∈ windowsLines, NoSeparator w.sql) ∧
      ¬ List.Forall₂ SameDoc windowsLines (parseBundle (serializeBundle windowsLines)) := by
  have hread : parseBundle (serializeBundle windowsLines)
      = [⟨"Q".toList, "SELECT 1\nFROM t".toList⟩] := by decide
  constructor
  · unfold NoSeparator
    decide
  · rw [hread]
    simp [windowsLines, SameDoc, chomp]

end Bundle

end RyuDB
