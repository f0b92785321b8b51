/-
# The parameters of a portal

`_substitute_params` parses the text of a portal, puts a literal in the place of every placeholder and
prints the tree.  The value of a placeholder is looked up by its own name, but its type is the OID at
the position where the loop that numbered the parameters ended.

* `params_substituted`: when every placeholder gets the literal of its own parameter, typed by its own
  OID, and the rest of the tree stays.

A `Node` is what the Postgres dialect parses: placeholders, literals and all other nodes with their
arguments.  Parsing and printing are parameters (`Sqlglot`); the walk over the tree is written out.
-/
import RyuDB.PgEngine

namespace RyuDB

namespace Pg

/-! ## 1. Trees -/

/-- A node of a parsed statement. -/
inductive Node where
  | param (name : String)
  | literal (value : Literal)
  | node (kind : String) (args : List Node)

mutual

/-- `node.replace` on all placeholders below a node. -/
def Node.fillIn (f : String → Literal) : Node → Node
  | .param name => .literal (f name)
  | .literal value => .literal value
  | .node kind args => .node kind (fillArgs f args)

def fillArgs (f : String → Literal) : List Node → List Node
  | [] => []
  | a :: as => a.fillIn f :: fillArgs f as

end

/-- `node.replace` on all placeholders of a statement; a node without a parent stays. -/
def Node.fill (t : Node) (f : String → Literal) : Node :=
  match t with
  | .param name => .param name
  | t => t.fillIn f

mutual

/-- `tree.find_all(exp.Parameter)`, by name. -/
def Node.placeholders : Node → List String
  | .param name => [name]
  | .literal _ => []
  | .node _ args => placeholdersOf args

def placeholdersOf : List Node → List String
  | [] => []
  | a :: as => a.placeholders ++ placeholdersOf as

end

/-- The SQL parser with its Postgres dialect.  The `repr` of a float is never the text of an integer. -/
structure Sqlglot (C : Chars) where
  parseOne : String → Except Failure Node
  sql : Node → String
  reprFloat : String → Option String
  rollback : ∀ text tree f, firstKeyword C text = "ROLLBACK" → parseOne text = .ok tree →
    firstKeyword C (sql (tree.fill f)) = "ROLLBACK"
  reprFloat_ne : ∀ s t (n : Int), reprFloat s = some t → t ≠ toString n

variable {C : Chars}

/-- The dialect whose parameters are replaced node by node. -/
def Sqlglot.dialect (G : Sqlglot C) : Dialect Node C where
  parseOne := G.parseOne
  fill := Node.fill
  sql := G.sql
  reprFloat := G.reprFloat
  rollback := G.rollback

/-! ## 2. Substitution -/

mutual

/-- Every placeholder `$N` with a parameter `N` became its literal, and nothing else changed.  What
becomes of a placeholder with a number beyond the parameters is left open. -/
inductive Replaced (count : Nat) (lit : Nat → Literal) : Node → Node → Prop
  | bound {i : Nat} (h : i < count) :
      Replaced count lit (.param (toString (i + 1))) (.literal (lit i))
  | unbound {k : Nat} (h : ∀ i < count, i + 1 ≠ k) (t : Node) :
      Replaced count lit (.param (toString k)) t
  | named {name : String} (h : ∀ k : Nat, name ≠ toString k) :
      Replaced count lit (.param name) (.param name)
  | literal (value : Literal) : Replaced count lit (.literal value) (.literal value)
  | node {kind : String} {as bs : List Node} (h : ReplacedArgs count lit as bs) :
      Replaced count lit (.node kind as) (.node kind bs)

inductive ReplacedArgs (count : Nat) (lit : Nat → Literal) : List Node → List Node → Prop
  | nil : ReplacedArgs count lit [] []
  | cons {a b : Node} {as bs : List Node} (h : Replaced count lit a b)
      (hs : ReplacedArgs count lit as bs) : ReplacedArgs count lit (a :: as) (b :: bs)

end

/-- What is put in the place of a placeholder is right. -/
def Right (count : Nat) (lit : Nat → Literal) (f : String → Literal) (name : String) : Prop :=
  ∃ k : Nat, name = toString k ∧ ∀ i < count, i + 1 = k → f name = lit i

theorem replaced_param_literal {count : Nat} {lit : Nat → Literal} {f : String → Literal}
    {name : String} : Replaced count lit (.param name) (.literal (f name)) ↔
      Right count lit f name := by
  constructor
  · intro h
    generalize hl : f name = l at h
    cases h with
    | @bound i hi =>
      refine ⟨i + 1, rfl, fun j _ hj => ?_⟩
      rw [Nat.succ_inj.mp hj]
      exact hl
    | @unbound k hk => exact ⟨k, rfl, fun i hi h => absurd h (hk i hi)⟩
  · rintro ⟨k, rfl, h⟩
    by_cases hk : ∃ i < count, i + 1 = k
    · obtain ⟨i, hi, rfl⟩ := hk
      rw [h i hi rfl]
      exact .bound hi
    · exact .unbound (fun i hi he => hk ⟨i, hi, he⟩) _

mutual

theorem replaced_fillIn {count : Nat} {lit : Nat → Literal} {f : String → Literal} : (t : Node) →
    (Replaced count lit t (t.fillIn f) ↔ ∀ name ∈ t.placeholders, Right count lit f name)
  | .param name => by
    rw [Node.fillIn, replaced_param_literal, Node.placeholders, List.forall_mem_singleton]
  | .literal value => by
    simp only [Node.fillIn, Node.placeholders, List.not_mem_nil, false_implies, implies_true, iff_true]
    exact .literal value
  | .node kind args => by
    rw [Node.fillIn, Node.placeholders, ← replaced_fillArgs args]
    constructor
    · rintro (_ | _ | _ | _ | h)
      exact h
    · exact .node

theorem replaced_fillArgs {count : Nat} {lit : Nat → Literal} {f : String → Literal} :
    (as : List Node) → (ReplacedArgs count lit as (fillArgs f as) ↔
      ∀ name ∈ placeholdersOf as, Right count lit f name)
  | [] => by
    simp only [fillArgs, placeholdersOf, List.not_mem_nil, false_implies, implies_true, iff_true]
    exact .nil
  | a :: as => by
    rw [fillArgs, placeholdersOf, List.forall_mem_append, ← replaced_fillIn a,
      ← replaced_fillArgs as]
    constructor
    · rintro (_ | ⟨h, hs⟩)
      exact ⟨h, hs⟩
    · exact fun h => .cons h.1 h.2

end

/-! ## 3. Types -/

/-- The types of parameters that `_param_literal_node` tells apart. -/
inductive OidKind where
  | int
  | float
  | bool
  | text
  deriving DecidableEq

/-- The type of an OID; none declared is read as 0. -/
def oidKind (oid : Int) : OidKind :=
  if oid ∈ [21, 23, 20] then .int else if oid ∈ [700, 701] then .float
  else if oid = 16 then .bool else .text

/-- A type of numbers. -/
def OidKind.numeric : OidKind → Bool
  | .int => true
  | .float => true
  | _ => false

section Types

variable (G : Sqlglot C)

/-- The literal of a text by the type of its OID. -/
theorem paramLiteralNode_some (s : String) (oid : Int) :
    paramLiteralNode G.dialect (some s) oid = match oidKind oid with
      | .int => ((pyInt C s).map fun n => Literal.number (toString n)).getD .null
      | .float => ((G.reprFloat s).map Literal.number).getD .null
      | .bool => .boolean (s ∈ ["t", "true", "TRUE", "1"])
      | .text => .string s := by
  unfold paramLiteralNode oidKind
  dsimp only
  split
  · cases pyInt C s <;> rfl
  · split
    · cases hf : G.reprFloat s with
      | none => simp only [Sqlglot.dialect, hf, Option.map_none, Option.getD_none]
      | some t => simp only [Sqlglot.dialect, hf, Option.map_some, Option.getD_some]
    · split <;> rfl

/-- Two OIDs make one literal of a value: it is NULL, their types are the same, or they are the two
types of numbers and the value is no number. -/
def SameLiteral (value : Option String) (oid oid' : Int) : Prop :=
  ∀ s ∈ value, oidKind oid = oidKind oid' ∨ (oidKind oid).numeric = true ∧
    (oidKind oid').numeric = true ∧ pyInt C s = none ∧ G.reprFloat s = none

theorem sameLiteral_iff (value : Option String) (oid oid' : Int) :
    paramLiteralNode G.dialect value oid = paramLiteralNode G.dialect value oid' ↔
      SameLiteral G value oid oid' := by
  cases value with
  | none => simp [SameLiteral, paramLiteralNode]
  | some s =>
    rw [paramLiteralNode_some, paramLiteralNode_some]
    simp only [SameLiteral, Option.mem_some_iff, forall_eq']
    have hne := fun t (n : Int) h => G.reprFloat_ne s t n h
    cases oidKind oid <;> cases oidKind oid' <;> cases pyInt C s <;>
      cases hf : G.reprFloat s <;> simp [OidKind.numeric] <;>
      first
        | exact fun h => hne _ _ hf h.symm
        | exact fun h => hne _ _ hf h

variable (params : List (Option String)) (oids : List Int)

/-- The literal of a parameter, typed by its own OID. -/
def ownLiteral (i : Nat) : Literal :=
  paramLiteralNode G.dialect (params.getD i none) (oids.getD i 0)

/-- The literal `_substitute_params` makes for a placeholder. -/
def lastLiteral (idx : String) : Literal :=
  paramLiteralNode G.dialect (byIndex params idx) (oids.getD (params.length - 1) 0)

theorem byIndex_number {i : Nat} (hi : i < params.length) :
    byIndex params (toString (i + 1)) = params.getD i none := by
  have hfind : ((List.range params.length).find? fun j =>
      toString (j + 1) = toString (i + 1)) = some i := by
    rw [List.find?_range_eq_some]
    refine ⟨by simp, List.mem_range.mpr hi, fun j hj => ?_⟩
    have hne : toString (j + 1) ≠ toString (i + 1) := fun h => by
      have := toString_number_inj.mp h
      omega
    simpa using hne
  rw [byIndex, hfind]

/-- A placeholder has a number, and its parameter the same literal under the last OID. -/
theorem right_iff (name : String) :
    Right params.length (ownLiteral G params oids) (lastLiteral G params oids) name ↔
      ∃ k : Nat, name = toString k ∧ ∀ i < params.length, i + 1 = k → SameLiteral G
        (params.getD i none) (oids.getD (params.length - 1) 0) (oids.getD i 0) := by
  refine exists_congr fun k => and_congr_right fun hk => forall₃_congr fun i hi he => ?_
  subst he
  rw [hk, lastLiteral, byIndex_number params hi, ownLiteral, sameLiteral_iff]

/-- When the placeholders of a statement get the literals of their own parameters: they have numbers,
and the OID of the last parameter makes the same literal as their own. -/
def OidsAgree (t : Node) : Prop :=
  params = [] ∨ match t with
    | .param name => ∀ i < params.length, name ≠ toString (i + 1)
    | t => ∀ name ∈ t.placeholders, ∃ k : Nat, name = toString k ∧ ∀ i < params.length,
      i + 1 = k → SameLiteral G (params.getD i none) (oids.getD (params.length - 1) 0)
        (oids.getD i 0)

/-- A statement in which nothing is replaced. -/
theorem replaced_self {count : Nat} {lit : Nat → Literal} (name : String) :
    Replaced count lit (.param name) (.param name) ↔ ∀ i < count, name ≠ toString (i + 1) := by
  constructor
  · intro h i hi he
    cases h with
    | unbound hk => exact hk i hi (toString_number_inj.mp he).symm
    | named h' => exact h' (i + 1) he
  · intro h
    by_cases hk : ∃ k : Nat, name = toString k
    · obtain ⟨k, rfl⟩ := hk
      exact .unbound (fun i hi he => h i hi (he ▸ rfl)) _
    · exact .named fun k he => hk ⟨k, he⟩

/-- The tree that is printed. -/
def filled (t : Node) : Node := t.fill (lastLiteral G params oids)

theorem replaced_filled (hp : params ≠ []) (t : Node) :
    Replaced params.length (ownLiteral G params oids) t (filled G params oids t) ↔
      OidsAgree G params oids t := by
  cases t with
  | param name =>
    simp only [OidsAgree, hp, false_or]
    exact replaced_self name
  | literal value =>
    simp only [OidsAgree, hp, false_or, Node.placeholders, List.not_mem_nil, false_implies,
      implies_true, iff_true]
    exact .literal value
  | node kind args =>
    simp only [OidsAgree, hp, false_or]
    refine (replaced_fillIn (.node kind args)).trans (forall₂_congr fun name _ => ?_)
    exact right_iff G params oids name

mutual

/-- Without parameters there is nothing to replace. -/
theorem replaced_zero (lit : Nat → Literal) : (t : Node) → Replaced 0 lit t t
  | .param name => (replaced_self name).mpr fun _ hi => absurd hi (Nat.not_lt_zero _)
  | .literal value => .literal value
  | .node _ args => .node (replacedArgs_zero lit args)

theorem replacedArgs_zero (lit : Nat → Literal) : (as : List Node) → ReplacedArgs 0 lit as as
  | [] => .nil
  | a :: as => .cons (replaced_zero lit a) (replacedArgs_zero lit as)

end

/-- **Positional and typed.**  The text of a portal whose parameters are filled in parses to the tree in
which every placeholder is the literal of its own parameter, typed by its own OID, exactly when the OIDs
agree with the last one. -/
theorem params_substituted {sql : String} {t : Node} (ht : G.parseOne sql = .ok t)
    (hround : G.parseOne (G.sql (filled G params oids t)) = .ok (filled G params oids t)) :
    (∃ out t', substituteParams G.dialect sql params oids = .ok out ∧ G.parseOne out = .ok t' ∧
      Replaced params.length (ownLiteral G params oids) t t') ↔ OidsAgree G params oids t := by
  by_cases hp : params = []
  · subst hp
    refine iff_of_true ⟨sql, t, ?_, ht, replaced_zero _ t⟩ (.inl rfl)
    rw [substituteParams, if_pos rfl]
  · have hout : substituteParams G.dialect sql params oids =
        .ok (G.sql (filled G params oids t)) := by
      unfold substituteParams
      rw [if_neg hp, show G.dialect.parseOne sql = .ok t from ht]
      rfl
    rw [hout, ← replaced_filled G params oids hp t]
    constructor
    · rintro ⟨out, t', ho, hparse, h⟩
      cases ho
      rw [hround] at hparse
      cases hparse
      exact h
    · exact fun h => ⟨_, _, rfl, hround, h⟩

end Types

/-! ## 4. Two placeholders -/

/-- A float is written with a point. -/
theorem point_notMem_int (n : Int) : '.' ∉ (toString n).toList := by
  have hnat : ∀ m : Nat, '.' ∉ m.repr.toList := by
    intro m h
    rw [Nat.toList_repr] at h
    exact absurd (Nat.isDigit_of_mem_toDigits (by decide) (by decide) h) (by decide)
  cases n with
  | ofNat m => exact hnat m
  | negSucc m =>
    change '.' ∉ ("-" ++ (m + 1).repr).toList
    rw [String.toList_append, List.mem_append, not_or]
    exact ⟨by decide, hnat _⟩

/-- `SELECT $2, $1` with these arguments. -/
def selectPair (a b : Node) : Node := .node "SELECT" [a, b]

/-- A literal as it is printed. -/
def Literal.text : Literal → String
  | .null => "NULL"
  | .number t => t
  | .boolean b => if b then "TRUE" else "FALSE"
  | .string t => "'" ++ t ++ "'"

/-- The text of an argument. -/
def Node.text : Node → String
  | .param name => "$" ++ name
  | .literal value => value.text
  | .node kind _ => kind

/-- The text of a statement with two arguments. -/
def printPair : Node → String
  | .node "SELECT" [a, b] => "SELECT " ++ a.text ++ ", " ++ b.text
  | t => t.text

/-- The statements that are read. -/
def pairTrees : List Node :=
  [selectPair (.param "2") (.param "1"), selectPair (.literal (.number "7")) (.literal (.number "5")),
    selectPair (.literal (.string "x")) (.literal (.string "5"))]

/-- A parser for these statements. -/
def pairParser : Sqlglot asciiChars where
  parseOne text :=
    match pairTrees.find? fun t => printPair t = text with
    | some t => .ok t
    | none => .error (.db (.parse "invalid expression"))
  sql := printPair
  reprFloat s := if s = "5" then some "5.0" else if s = "7" then some "7.0" else none
  rollback text tree f hk h := by
    split at h
    · rename_i t hfind
      have hfound := List.find?_some hfind
      have htext : printPair t = text := of_decide_eq_true hfound
      have hheads : ∀ t ∈ pairTrees, firstKeyword asciiChars (printPair t) ≠ "ROLLBACK" := by
        decide
      rw [← htext] at hk
      exact absurd hk (hheads t (List.mem_of_find?_eq_some hfind))
    · cases h
  reprFloat_ne s t n h := by
    rintro rfl
    have hpoint := point_notMem_int n
    split at h
    · rw [← Option.some.inj h] at hpoint
      exact hpoint (by decide)
    · split at h
      · rw [← Option.some.inj h] at hpoint
        exact hpoint (by decide)
      · cases h

/-- Two parameters of one type, the second before the first. -/
theorem params_substituted_ints : ∃ out t',
    substituteParams pairParser.dialect "SELECT $2, $1" [some "5", some "7"] [20, 20] = .ok out ∧
    pairParser.parseOne out = .ok t' ∧ Replaced 2
      (ownLiteral pairParser [some "5", some "7"] [20, 20]) (selectPair (.param "2") (.param "1")) t' := by
  refine (params_substituted pairParser [some "5", some "7"] [20, 20]
    (t := selectPair (.param "2") (.param "1")) rfl rfl).mpr (.inr ?_)
  intro name hname
  have hsame : ∀ i < 2, SameLiteral pairParser ([some "5", some "7"].getD i none)
      ([20, 20].getD (2 - 1) 0) ([20, 20].getD i 0) := by
    intro i hi s _
    have hkinds : ∀ i < 2, oidKind ([20, 20].getD (2 - 1) 0) = oidKind ([20, 20].getD i 0) := by
      decide
    exact .inl (hkinds i hi)
  rcases List.mem_cons.mp hname with rfl | hname
  · exact ⟨2, rfl, fun i hi _ => hsame i hi⟩
  · rw [List.mem_singleton.mp hname]
    exact ⟨1, rfl, fun i hi _ => hsame i hi⟩

/-- **The last OID types them all.**  With the types int8 and text, `$1` becomes the string `'5'` and not
the number 5. -/
theorem last_oid_types_all :
    substituteParams pairParser.dialect "SELECT $2, $1" [some "5", some "x"] [20, 25] =
      .ok "SELECT 'x', '5'" ∧
    ownLiteral pairParser [some "5", some "x"] [20, 25] 0 = .number "5" ∧
    ¬ ∃ out t', substituteParams pairParser.dialect "SELECT $2, $1" [some "5", some "x"] [20, 25] =
        .ok out ∧ pairParser.parseOne out = .ok t' ∧ Replaced 2
          (ownLiteral pairParser [some "5", some "x"] [20, 25])
          (selectPair (.param "2") (.param "1")) t' := by
  have hout : substituteParams pairParser.dialect "SELECT $2, $1" [some "5", some "x"] [20, 25] =
      .ok "SELECT 'x', '5'" := rfl
  have hparse : pairParser.parseOne "SELECT 'x', '5'" =
      .ok (selectPair (.literal (.string "x")) (.literal (.string "5"))) := rfl
  have hown : ownLiteral pairParser [some "5", some "x"] [20, 25] 0 = .number "5" := by decide
  refine ⟨hout, hown, ?_⟩
  rintro ⟨out, t', ho, ht, h⟩
  rw [hout] at ho
  cases ho
  rw [hparse] at ht
  cases ht
  have hall := (replaced_filled pairParser [some "5", some "x"] [20, 25] (by decide)
    (selectPair (.param "2") (.param "1"))).mp h
  rcases hall with hnil | hall
  · cases hnil
  · obtain ⟨k, hk, hsame⟩ := hall "1" (by decide)
    obtain rfl : 1 = k := toString_number_inj.mp hk
    have hkind := hsame 0 (by decide) rfl "5" rfl
    exact absurd hkind (by decide)

end Pg

end RyuDB
