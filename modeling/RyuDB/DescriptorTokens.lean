/-
# The tokens of an argument

`_to_postfix` writes the program of a tree: running it leaves exactly one value, the argument's.  The
tokens of all aggregates share the arrays, and a slot keeps where its own begin, so what is proved of a
list of tokens is carried through the routing and the loop over the aggregates.

* `toPostfix_spec`: the tokens are a compiled tree with the value and the depth of the argument.
* `instr?_route`: the kernel reads back what was routed.
* `Carries.evalAgg`: a slot leaves one value, and on the kernel's eight places it does so exactly when
  the argument is not deeper.
-/
import RyuDB.Descriptors

namespace RyuDB.Descriptors

/-! ## 1. Bindings only grow -/

section Bound

variable {R : Reader} {ch : Child}

theorem bindNamed_spec {name : String} {B B' : Bindings R ch} {j : Nat}
    (h : bindNamed name B = some (j, B')) : B.cols <+: B'.cols ∧
      ∃ c a, ch.get? name = some c ∧ c.array R = some a ∧ B'.cols[j]? = some a := by
  unfold bindNamed at h
  split at h
  · rename_i j' hj
    cases h
    exact ⟨List.prefix_rfl, B.bound name j hj⟩
  · split at h
    · cases h
    · rename_i c hc
      split at h
      · cases h
      · rename_i a ha
        cases h
        exact ⟨List.prefix_append _ _, c, a, hc, ha, by simp [Bindings.add]⟩

theorem getElem?_later {cols cols' : List (Nat → ℚ)} {j : Nat} {a : Nat → ℚ}
    (h : cols <+: cols') (hj : cols[j]? = some a) : cols'[j]? = some a := by
  obtain ⟨rest, rfl⟩ := h
  obtain ⟨hlt, -⟩ := List.getElem?_eq_some_iff.mp hj
  rw [List.getElem?_append_left hlt, hj]

/-- What is loaded from the array of a column, now and later. -/
theorem colVal_later {cols cols' : List (Nat → ℚ)} {j : Nat} {a : Nat → ℚ} (i : Nat)
    (h : cols <+: cols') (hj : cols[j]? = some a) : colVal cols' i j = a i := by
  rw [colVal, getElem?_later h hj]
  rfl

/-- A bare reference to a column is that column. -/
theorem ref_of_bare {n : String} {t : Option String} {c : Column} (i : Nat)
    (hb : (Expr.col n t).bare ch) (hc : ch.get? n = some c) : ref ch i n t = c.operand i := by
  have hmem : n ∈ ch.keys := (Dict.mem_keys _ n).mpr ⟨c, hc⟩
  have hres : Sql.resolve ch.keys n t = some n := by
    cases t with
    | none => exact if_pos hmem
    | some t => rw [Sql.resolve, if_neg hb, if_pos hmem]
  rw [ref, hres, Option.bind_some, hc, Option.bind_some]

end Bound

/-! ## 2. Arguments -/

section Arguments

variable {R : Reader} {ch : Child}

/-- The instruction a token stands for. -/
def decode : Token → Postfix.Instr Load Nat
  | (.col, idx, _) => .push (.col idx)
  | (.lit, _, q) => .push (.lit q)
  | (.op, code, _) => .apply code

theorem litToDouble_eq : ∀ v : PyValue, litToDouble R v = v.num? R
  | .none => rfl
  | .bool _ => rfl
  | .int _ => rfl
  | .str _ => rfl

/-- Both tables have the same operators, and the kernel computes what the operator does. -/
theorem arith_of_topCode {op : String} {k : Nat} (h : topCode op = some k) :
    ∃ o, arith op = some o ∧ ∀ a b, topApply k a b = o.apply a b := by
  unfold topCode at h
  split at h
  · cases h
    exact ⟨.add, rfl, fun _ _ => rfl⟩
  · cases h
    exact ⟨.sub, rfl, fun _ _ => rfl⟩
  · cases h
    exact ⟨.mul, rfl, fun _ _ => rfl⟩
  · cases h
    exact ⟨.div, rfl, fun _ _ => rfl⟩
  · cases h

/-- With the arrays of `cols`, a tree has the value of an argument on every row. -/
def Computes (R : Reader) (ch : Child) (cols : List (Nat → ℚ)) (e : Expr)
    (t : Postfix.Tree Load Nat) : Prop :=
  e.bare ch → e.numeric ch → ∀ cols', cols <+: cols' → ∀ i,
    e.num R ch i = some (t.eval (Load.read cols' i) topApply)

theorem Computes.mono {cols cols' : List (Nat → ℚ)} {e : Expr} {t : Postfix.Tree Load Nat}
    (h : Computes R ch cols e t) (hpre : cols <+: cols') : Computes R ch cols' e t :=
  fun hb hn _ hpre' => h hb hn _ (hpre.trans hpre')

theorem numeric_binOp {op : String} {l r : Expr} :
    (Expr.binOp op l r).numeric ch ↔ l.numeric ch ∧ r.numeric ch := by
  simp only [Expr.numeric, Expr.columns, List.mem_append, or_imp, forall_and]

/-- **The tokens of an argument** are the program of a tree with its value and its depth. -/
theorem toPostfix_spec {e : Expr} {B B' : Bindings R ch} {toks : List Token}
    (h : toPostfix R e B = some (toks, B')) : B.cols <+: B'.cols ∧
      ∃ t : Postfix.Tree Load Nat, toks.map decode = t.compile ∧ t.depth = e.depth ∧
        Computes R ch B'.cols e t := by
  induction e generalizing B B' toks with
  | col name table =>
    obtain ⟨⟨j, B1⟩, hj, heq⟩ := Option.map_eq_some_iff.mp h
    cases heq
    obtain ⟨hpre, c, a, hc, ha, hcol⟩ := bindNamed_spec hj
    refine ⟨hpre, .leaf (.col j), rfl, rfl, fun hb hn cols' hpre' i => ?_⟩
    obtain ⟨value, hvalue⟩ := hn name (List.mem_singleton.mpr rfl)
    cases hc.symm.trans hvalue
    cases ha
    rw [Expr.num, ref_of_bare i hb hc, Postfix.Tree.eval, Load.read, colVal_later i hpre' hcol]
    rfl
  | lit v =>
    obtain ⟨q, hq, heq⟩ := Option.map_eq_some_iff.mp h
    cases heq
    refine ⟨List.prefix_rfl, .leaf (.lit q), rfl, rfl, fun _ _ _ _ i => ?_⟩
    rw [Expr.num, ← litToDouble_eq, hq]
    rfl
  | binOp op l r ihl ihr =>
    obtain ⟨code, hcode, h⟩ := Option.bind_eq_some_iff.mp h
    obtain ⟨⟨ls, B1⟩, hls, h⟩ := Option.bind_eq_some_iff.mp h
    obtain ⟨⟨rs, B2⟩, hrs, h⟩ := Option.bind_eq_some_iff.mp h
    cases h
    obtain ⟨hpre1, tl, hl, hdl, hvl⟩ := ihl hls
    obtain ⟨hpre2, tr, hr, hdr, hvr⟩ := ihr hrs
    obtain ⟨o, ho, happ⟩ := arith_of_topCode hcode
    refine ⟨hpre1.trans hpre2, .node code tl tr, ?_, ?_, fun hb hn cols' hpre' i => ?_⟩
    · rw [List.map_append, List.map_append, hl, hr]
      rfl
    · rw [Postfix.Tree.depth, Expr.depth, hdl, hdr]
    · obtain ⟨hnl, hnr⟩ := numeric_binOp.mp hn
      rw [Expr.num, ho, hvl hb.1 hnl cols' (hpre2.trans hpre') i, hvr hb.2 hnr cols' hpre' i,
        Postfix.Tree.eval, happ]
      rfl
  | and l r => cases h
  | or l r => cases h
  | other => cases h

/-- An argument that has a number reads numeric columns. -/
theorem numeric_of_num {e : Expr} {i : Nat} {q : ℚ} (hb : e.bare ch)
    (h : e.num R ch i = some q) : e.numeric ch := by
  induction e generalizing q with
  | col name table =>
    intro n hn
    obtain rfl := List.mem_singleton.mp hn
    obtain ⟨o, ho, hq⟩ := Option.bind_eq_some_iff.mp h
    obtain ⟨c, hres, hoc⟩ := Option.bind_eq_some_iff.mp ho
    obtain ⟨m, hm, hc⟩ := Option.bind_eq_some_iff.mp hres
    clear hres
    have hmem : m ∈ ch.keys := (Dict.mem_keys _ m).mpr ⟨c, hc⟩
    have hname : m = n := by
      cases table with
      | none =>
        rw [Sql.resolve] at hm
        split at hm
        · exact (Option.some.inj hm).symm
        · cases hm
      | some t =>
        rw [Sql.resolve, if_neg hb] at hm
        split at hm
        · exact (Option.some.inj hm).symm
        · cases hm
    subst hname
    cases c with
    | numeric value => exact ⟨value, hc⟩
    | datetime time =>
      cases hoc
      cases hq
    | text => cases hoc
  | lit v =>
    intro n hn
    cases hn
  | binOp op l r ihl ihr =>
    obtain ⟨o, -, h⟩ := Option.bind_eq_some_iff.mp h
    obtain ⟨a, ha, h⟩ := Option.bind_eq_some_iff.mp h
    obtain ⟨b, hb', -⟩ := Option.map_eq_some_iff.mp h
    exact numeric_binOp.mpr ⟨ihl hb.1 ha, ihr hb.2 hb'⟩
  | and l r => cases h
  | or l r => cases h
  | other => cases h

end Arguments

/-! ## 3. Token arrays -/

/-- The arrays hold a program from a place on. -/
def Segment (A : TokenArrays) (start : Nat) (prog : List (Postfix.Instr Load Nat)) : Prop :=
  ∀ k c, prog[k]? = some c → A.instr? (start + k) = some c

section Arrays

variable {A : TokenArrays}

theorem instr?_lt {idx : Nat} {c : Postfix.Instr Load Nat} (h : A.instr? idx = some c) :
    idx < A.kind.length := by
  obtain ⟨kind, hkind, -⟩ := Option.bind_eq_some_iff.mp h
  exact (List.getElem?_eq_some_iff.mp hkind).1

/-- A routed token leaves the tokens before it. -/
theorem instr?_route_lt (t : Token) {idx : Nat} (h : idx < A.kind.length) :
    (A.route t).instr? idx = A.instr? idx := by
  have hcol : idx < A.col.length := A.col_length ▸ h
  have hlit : idx < A.lit.length := A.lit_length ▸ h
  have hop : idx < A.op.length := A.op_length ▸ h
  simp only [TokenArrays.instr?, TokenArrays.route, List.getElem?_append_left h,
    List.getElem?_append_left hcol, List.getElem?_append_left hlit, List.getElem?_append_left hop]

/-- **Routing.**  Whichever array the second slot of a token went to, the kernel reads it back. -/
theorem instr?_route (A : TokenArrays) (t : Token) :
    (A.route t).instr? A.kind.length = some (decode t) := by
  have hkind : (A.kind ++ [t.1])[A.kind.length]? = some t.1 := by simp
  have hcol : (A.col ++ [if t.1 = .op then 0 else t.2.1])[A.kind.length]? =
      some (if t.1 = .op then 0 else t.2.1) := by rw [← A.col_length]; simp
  have hlit : (A.lit ++ [t.2.2])[A.kind.length]? = some t.2.2 := by rw [← A.lit_length]; simp
  have hop : (A.op ++ [if t.1 = .op then t.2.1 else 0])[A.kind.length]? =
      some (if t.1 = .op then t.2.1 else 0) := by rw [← A.op_length]; simp
  simp only [TokenArrays.instr?, TokenArrays.route, hcol, hlit, hop, hkind]
  obtain ⟨kind, x, q⟩ := t
  cases kind <;> rfl

theorem Segment.route {start : Nat} {prog : List (Postfix.Instr Load Nat)}
    (h : Segment A start prog) (t : Token) : Segment (A.route t) start prog := by
  intro k c hk
  have hc := h k c hk
  rw [instr?_route_lt t (instr?_lt hc), hc]

/-- Routing more tokens keeps every segment. -/
theorem Segment.foldl {start : Nat} {prog : List (Postfix.Instr Load Nat)} (toks : List Token)
    (h : Segment A start prog) : Segment (toks.foldl TokenArrays.route A) start prog := by
  induction toks generalizing A with
  | nil => exact h
  | cons t toks ih => exact ih (h.route t)

/-- The tokens routed into the arrays stand behind what was there. -/
theorem segment_foldl (A : TokenArrays) (toks : List Token) :
    Segment (toks.foldl TokenArrays.route A) A.kind.length (toks.map decode) := by
  induction toks generalizing A with
  | nil =>
    intro k c hk
    cases hk
  | cons t toks ih =>
    have hnew : (A.route t).kind.length = A.kind.length + 1 := by simp [TokenArrays.route]
    have hlast : Segment (A.route t) A.kind.length [decode t] := by
      intro k c hk
      obtain ⟨hlt, rfl⟩ := List.getElem?_eq_some_iff.mp hk
      obtain rfl : k = 0 := by simpa using hlt
      exact instr?_route A t
    intro k c hk
    cases k with
    | zero => exact (hlast.foldl toks) 0 c hk
    | succ k =>
      have hc := ih (A.route t) k c hk
      rwa [hnew, Nat.add_assoc, Nat.add_comm 1 k] at hc

/-- The loop over a segment runs its program. -/
theorem evalLoop_segment {f : Postfix.Instr Load Nat → List ℚ → Option (List ℚ)} {start : Nat}
    {prog : List (Postfix.Instr Load Nat)} (h : Segment A start prog) (st : List ℚ) :
    evalLoop f A prog.length start st = Postfix.exec f prog st := by
  induction prog generalizing start st with
  | nil => rfl
  | cons c prog ih =>
    have hc : A.instr? start = some c := h 0 c rfl
    have htail : Segment A (start + 1) prog := by
      intro k c' hk
      have hk' := h (k + 1) c' hk
      rwa [Nat.add_comm k 1, ← Nat.add_assoc] at hk'
    rw [List.length_cons, evalLoop, hc, Postfix.exec, Option.bind_some]
    exact congrArg _ (funext fun st' => ih htail st')

end Arrays

/-! ## 4. The loop over the aggregates -/

section Aggregates

variable {R : Reader} {ch : Child}

/-- The slot of an aggregate holds the program of its argument. -/
def Carries (R : Reader) (L : Lowered R ch) (a : Agg) (s : Slot) : Prop :=
  ∀ e, a.arg = some e → ∃ t : Postfix.Tree Load Nat,
    s.len = t.compile.length ∧ Segment L.arrays s.start t.compile ∧ t.depth = e.depth ∧
      Computes R ch L.bindings.cols e t

/-- A later state of the loop keeps the arrays of an earlier one. -/
structure Grows (L L' : Lowered R ch) : Prop where
  cols : L.bindings.cols <+: L'.bindings.cols
  segments : ∀ start prog, Segment L.arrays start prog → Segment L'.arrays start prog

theorem Carries.mono {L L' : Lowered R ch} {a : Agg} {s : Slot} (hg : Grows L L')
    (h : Carries R L a s) : Carries R L' a s := by
  intro e he
  obtain ⟨t, hlen, hseg, hdepth, hval⟩ := h e he
  exact ⟨t, hlen, hg.segments _ _ hseg, hdepth, hval.mono hg.cols⟩

/-- One aggregate. -/
theorem lowerAgg_spec {L L' : Lowered R ch} {a : Agg} (h : lowerAgg R L a = some L') :
    Grows L L' ∧ ∃ s, L'.slots = L.slots ++ [s] ∧ Carries R L' a s := by
  unfold lowerAgg at h
  split at h
  · rename_i ha
    split at h
    · cases h
      refine ⟨⟨List.prefix_rfl, fun _ _ hs => hs⟩, _, rfl, fun e he => ?_⟩
      cases ha.symm.trans he
    · cases h
  · rename_i e ha
    obtain ⟨⟨toks, B⟩, htoks, h⟩ := Option.bind_eq_some_iff.mp h
    obtain ⟨kind, -, h⟩ := Option.bind_eq_some_iff.mp h
    cases h
    obtain ⟨hpre, t, ht, hdepth, hval⟩ := toPostfix_spec htoks
    refine ⟨⟨hpre, fun _ _ hs => hs.foldl toks⟩, _, rfl, fun e' he' => ?_⟩
    cases ha.symm.trans he'
    refine ⟨t, ?_, ?_, hdepth, hval⟩
    · rw [← ht, List.length_map]
    · rw [← ht]
      exact segment_foldl _ toks

/-- All aggregates: the slots stand in their order. -/
theorem foldlM_lowerAgg {aggs : List Agg} {L L' : Lowered R ch}
    (h : aggs.foldlM (lowerAgg R) L = some L') :
    Grows L L' ∧ ∃ slots, L'.slots = L.slots ++ slots ∧ List.Forall₂ (Carries R L') aggs slots := by
  induction aggs generalizing L with
  | nil =>
    cases h
    exact ⟨⟨List.prefix_rfl, fun _ _ hs => hs⟩, [], (List.append_nil _).symm, .nil⟩
  | cons a aggs ih =>
    obtain ⟨L1, h1, h⟩ := Option.bind_eq_some_iff.mp h
    obtain ⟨hg1, s, hs, hcarries⟩ := lowerAgg_spec h1
    obtain ⟨hg, slots, hslots, hall⟩ := ih h
    refine ⟨⟨hg1.cols.trans hg.cols, fun _ _ hseg => hg.segments _ _ (hg1.segments _ _ hseg)⟩,
      s :: slots, ?_, .cons (hcarries.mono hg) hall⟩
    rw [hslots, hs, List.append_assoc, List.singleton_append]

theorem lowerAggs_spec {aggs : List Agg} {B : Bindings R ch} {L : Lowered R ch}
    (h : lowerAggs R aggs B = some L) : B.cols <+: L.bindings.cols ∧
      ∃ slots rest, L.slots = slots ++ rest ∧ List.Forall₂ (Carries R L) aggs slots := by
  obtain ⟨L1, h1, h⟩ := Option.bind_eq_some_iff.mp h
  obtain ⟨hg, slots, hslots, hall⟩ := foldlM_lowerAgg h1
  rw [List.nil_append] at hslots
  split at h
  · cases h
    exact ⟨hg.cols, slots, _, by rw [hslots], hall.imp fun _ _ hc => hc⟩
  · cases h
    exact ⟨hg.cols, slots, [], by rw [hslots, List.append_nil], hall⟩

/-- A slot leaves exactly one value. -/
theorem Carries.evalAgg {L : Lowered R ch} {a : Agg} {s : Slot} {e : Expr} (h : Carries R L a s)
    (he : a.arg = some e) (i : Nat) : ∃ v, L.evalAgg i s = some [v] ∧
      L.evalAggEight i s = (if e.depth ≤ 8 then some [v] else none) ∧
      (e.bare ch → e.numeric ch → e.num R ch i = some v) := by
  obtain ⟨t, hlen, hseg, hdepth, hval⟩ := h e he
  refine ⟨t.eval (Load.read L.bindings.cols i) topApply, ?_, ?_, fun hb hn =>
    hval hb hn _ List.prefix_rfl i⟩
  · rw [Lowered.evalAgg, hlen, evalLoop_segment hseg, Postfix.exec_compile]
  · rw [Lowered.evalAggEight, hlen, evalLoop_segment hseg, Postfix.execWithin_compile, hdepth]

end Aggregates

end RyuDB.Descriptors
