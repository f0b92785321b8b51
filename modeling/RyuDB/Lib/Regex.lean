/-
# A small regular expression engine

The fragment has literal characters, an escape for them, the dot, the star behind one of these, and the
anchors `^` and `$`.  The dot accepts every character but a newline, and the anchors stand for the two
ends of the text.

* `parse` reads the text of an expression into its pieces; what is outside of the fragment is refused.
* `search` finds a match that starts anywhere.
* `Full` says that the pieces take the whole text, each its part of it; `search_anchored` is the rule for
  an expression between `^` and `$`.
-/
import Mathlib.Data.List.Basic

namespace Regex

/-! ## 1. Expressions -/

/-- What takes one character. -/
inductive Atom where
  | lit (c : Char)
  | dot
  deriving DecidableEq, Repr

def Atom.accepts : Atom → Char → Bool
  | .lit d, c => c = d
  | .dot, c => c ≠ '\n'

/-- An atom, alone or under a star. -/
structure Item where
  atom : Atom
  starred : Bool
  deriving DecidableEq, Repr

inductive Piece where
  | item (i : Item)
  | bol
  | eol
  deriving DecidableEq, Repr

/-! ## 2. Reading an expression -/

inductive Token where
  | atom (a : Atom)
  | star
  | bol
  | eol
  deriving DecidableEq, Repr

/-- The characters outside of the fragment. -/
def refused : List Char := ['+', '?', '{', '}', '[', ']', '|', '(', ')']

/-- The token of a character without a backslash. -/
def token (c : Char) : Option Token :=
  if c = '.' then some (.atom .dot)
  else if c = '*' then some .star
  else if c = '^' then some .bol
  else if c = '$' then some .eol
  else if c ∈ refused then none
  else some (.atom (.lit c))

/-- The tokens; `escaped` when the character before was a backslash.  A backslash before a letter or a
digit would be a class or a reference. -/
def tokens : Bool → List Char → Option (List Token)
  | false, [] => some []
  | true, [] => none
  | true, c :: s =>
    if c.isAlphanum then none else (tokens false s).map (.atom (.lit c) :: ·)
  | false, c :: s =>
    if c = '\\' then tokens true s
    else (token c).bind fun t => (tokens false s).map (t :: ·)

/-- The pieces; a star needs an atom in front of it. -/
def pieces : List Token → Option (List Piece)
  | [] => some []
  | .atom a :: .star :: ts => (pieces ts).map (.item ⟨a, true⟩ :: ·)
  | .atom a :: ts => (pieces ts).map (.item ⟨a, false⟩ :: ·)
  | .bol :: ts => (pieces ts).map (.bol :: ·)
  | .eol :: ts => (pieces ts).map (.eol :: ·)
  | .star :: _ => none

def parse (s : List Char) : Option (List Piece) := (tokens false s).bind pieces

/-! ## 3. Matching -/

/-- A star takes characters as long as what follows does not match the rest. -/
def starFrom (a : Atom) (next : Bool → List Char → Bool) : Bool → List Char → Bool
  | start, [] => next start []
  | start, c :: s => next start (c :: s) || (a.accepts c && starFrom a next false s)

/-- The pieces match a beginning of the text; `start` when the text stands at its own beginning. -/
def matchAt : List Piece → Bool → List Char → Bool
  | [], _, _ => true
  | .bol :: ps, start, s => start && matchAt ps start s
  | .eol :: ps, start, s => s.isEmpty && matchAt ps start s
  | .item ⟨a, true⟩ :: ps, start, s => starFrom a (matchAt ps) start s
  | .item ⟨_, false⟩ :: _, _, [] => false
  | .item ⟨a, false⟩ :: ps, _, c :: s => a.accepts c && matchAt ps false s

/-- `re.search`: a match that starts here or later. -/
def search (ps : List Piece) : Bool → List Char → Bool
  | start, [] => matchAt ps start []
  | start, c :: s => matchAt ps start (c :: s) || search ps false s

/-- The items take the whole text, each its part of it. -/
inductive Full : List Item → List Char → Prop where
  | nil : Full [] []
  | one {a : Atom} {is : List Item} {c : Char} {s : List Char} (h : a.accepts c = true)
      (rest : Full is s) : Full (⟨a, false⟩ :: is) (c :: s)
  | star {a : Atom} {is : List Item} {s₁ s₂ : List Char} (h : ∀ c ∈ s₁, a.accepts c = true)
      (rest : Full is s₂) : Full (⟨a, true⟩ :: is) (s₁ ++ s₂)

/-- A star followed by what takes the rest. -/
theorem starFrom_iff {a : Atom} {next : Bool → List Char → Bool} {P : List Char → Prop}
    (hnext : ∀ start s, next start s = true ↔ P s) : ∀ (start : Bool) (s : List Char),
    starFrom a next start s = true ↔
      ∃ s₁ s₂, s = s₁ ++ s₂ ∧ (∀ c ∈ s₁, a.accepts c = true) ∧ P s₂
  | start, [] => by
    rw [starFrom, hnext]
    constructor
    · exact fun h => ⟨[], [], rfl, fun _ hc => (nomatch hc), h⟩
    · rintro ⟨s₁, s₂, heq, -, h⟩
      rwa [(List.append_eq_nil_iff.mp heq.symm).2] at h
  | start, c :: s => by
    rw [starFrom, Bool.or_eq_true, hnext, Bool.and_eq_true, starFrom_iff hnext false s]
    constructor
    · rintro (h | ⟨hc, s₁, s₂, rfl, hs, h⟩)
      · exact ⟨[], c :: s, rfl, fun _ hc => (nomatch hc), h⟩
      · exact ⟨c :: s₁, s₂, rfl, List.forall_mem_cons.mpr ⟨hc, hs⟩, h⟩
    · rintro ⟨s₁, s₂, heq, hs, h⟩
      cases s₁ with
      | nil =>
        rw [List.nil_append] at heq
        exact .inl (heq ▸ h)
      | cons d s₁ =>
        obtain ⟨rfl, rfl⟩ := List.cons.inj heq
        obtain ⟨hc, hs⟩ := List.forall_mem_cons.mp hs
        exact .inr ⟨hc, s₁, s₂, rfl, hs, h⟩

/-- Before the end of the text the items take all that is left. -/
theorem matchAt_eol : ∀ (is : List Item) (start : Bool) (s : List Char),
    matchAt (is.map .item ++ [.eol]) start s = true ↔ Full is s
  | [], start, s => by
    cases s with
    | nil => exact ⟨fun _ => .nil, fun _ => rfl⟩
    | cons c s => exact ⟨fun h => (nomatch h), fun h => (nomatch h)⟩
  | ⟨a, true⟩ :: is, start, s => by
    rw [List.map_cons, List.cons_append, matchAt, starFrom_iff (matchAt_eol is)]
    constructor
    · rintro ⟨s₁, s₂, rfl, hs, h⟩
      exact .star hs h
    · rintro (- | - | ⟨hs, h⟩)
      exact ⟨_, _, rfl, hs, h⟩
  | ⟨a, false⟩ :: is, start, s => by
    cases s with
    | nil => exact ⟨fun h => (nomatch h), fun h => (nomatch h)⟩
    | cons c s =>
      rw [List.map_cons, List.cons_append, matchAt, Bool.and_eq_true, matchAt_eol is]
      constructor
      · exact fun h => .one h.1 h.2
      · rintro (- | ⟨hc, h⟩)
        exact ⟨hc, h⟩

/-- A match from the beginning starts nowhere else. -/
theorem search_bol (ps : List Piece) : ∀ s : List Char, search (.bol :: ps) false s = false
  | [] => rfl
  | c :: s => by
    rw [search, search_bol ps s, matchAt, Bool.false_and, Bool.or_false]

/-- **Between the anchors the items take the whole text.** -/
theorem search_anchored (is : List Item) (s : List Char) :
    search (.bol :: (is.map .item ++ [.eol])) true s = true ↔ Full is s := by
  have hstart : search (.bol :: (is.map .item ++ [.eol])) true s =
      matchAt (is.map .item ++ [.eol]) true s := by
    cases s with
    | nil => rw [search, matchAt, Bool.true_and]
    | cons c s => rw [search, search_bol, Bool.or_false, matchAt, Bool.true_and]
  rw [hstart, matchAt_eol]

end Regex
