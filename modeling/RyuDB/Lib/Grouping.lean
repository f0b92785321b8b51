/-
# Groups and their codes

Rows are grouped by a key.  A program that works with numbers gives each key a code and groups by
the codes; the groups are the same as long as two rows have one code exactly when they have one
key (`perm_groups`).  The code of a key of several parts is a number in mixed radix, the last
part varying fastest:

    encode [s₀, s₁, s₂] [c₀, c₁, c₂] = c₀ * (s₁ * s₂) + (c₁ * s₂ + c₂)

`decode_encode` and `digits_encode` are the two ways to read the parts back.

The groups depend on a key only through which rows agree on it (`groups_congr`), and a coarser key with
as many groups has the same (`agree_of_length`).  A clause can ask for
several grouping sets: `rollup` gives the prefixes of its items, `cube` their sublists, and `cross` the
sets of several such items together.
-/
import Mathlib.Data.List.Dedup
import Mathlib.Data.List.Perm.Basic
import Mathlib.Data.Finset.Card
import Mathlib.Algebra.BigOperators.Group.List.Basic

namespace Grouping

/-! ## 1. Mixed radix -/

/-- The weight of each part: the product of the sizes behind it. -/
def strides : List Nat → List Nat
  | [] => []
  | _ :: sizes => sizes.prod :: strides sizes

/-- The code of the parts. -/
def encode : List Nat → List Nat → Nat
  | _ :: sizes, c :: codes => c * sizes.prod + encode sizes codes
  | _, _ => 0

/-- The parts of a code, from the remainder of the parts before. -/
def decode : List Nat → Nat → List Nat
  | [], _ => []
  | _ :: sizes, g => g / sizes.prod :: decode sizes (g % sizes.prod)

/-- The parts fit their sizes. -/
def Fits : List Nat → List Nat → Prop
  | [], [] => True
  | s :: sizes, c :: codes => c < s ∧ Fits sizes codes
  | _, _ => False

theorem encode_lt : ∀ {sizes codes : List Nat}, Fits sizes codes →
    encode sizes codes < sizes.prod
  | [], [], _ => Nat.one_pos
  | s :: sizes, c :: codes, h => by
    have ih := encode_lt h.2
    have hc : (c + 1) * sizes.prod ≤ s * sizes.prod := Nat.mul_le_mul_right _ h.1
    rw [encode, List.prod_cons]
    rw [Nat.add_mul, Nat.one_mul] at hc
    omega

theorem decode_encode : ∀ {sizes codes : List Nat}, Fits sizes codes →
    decode sizes (encode sizes codes) = codes
  | [], [], _ => rfl
  | s :: sizes, c :: codes, h => by
    have hlt := encode_lt h.2
    have hpos : 0 < sizes.prod := by omega
    have hdiv : (c * sizes.prod + encode sizes codes) / sizes.prod = c := by
      rw [Nat.mul_comm, Nat.mul_add_div hpos, Nat.div_eq_of_lt hlt, Nat.add_zero]
    have hmod : (c * sizes.prod + encode sizes codes) % sizes.prod = encode sizes codes := by
      rw [Nat.mul_comm, Nat.mul_add_mod, Nat.mod_eq_of_lt hlt]
    rw [encode, decode, hdiv, hmod, decode_encode h.2]

/-- The parts of a code, each from its own stride and size. -/
def digits : List Nat → Nat → List Nat
  | [], _ => []
  | s :: sizes, g => g / sizes.prod % s :: digits sizes g

/-- A part is not changed by a multiple of all sizes. -/
theorem digits_add : ∀ (sizes : List Nat) (k g : Nat), 0 < sizes.prod →
    digits sizes (k * sizes.prod + g) = digits sizes g
  | [], _, _, _ => rfl
  | s :: sizes, k, g, hpos => by
    rw [List.prod_cons] at hpos
    have hprod : 0 < sizes.prod := Nat.pos_of_mul_pos_left hpos
    have hsplit : k * (s * sizes.prod) + g = k * s * sizes.prod + g := by
      rw [Nat.mul_assoc]
    rw [digits, digits, List.prod_cons, hsplit]
    refine congrArg₂ _ ?_ (digits_add sizes (k * s) g hprod)
    rw [Nat.mul_comm (k * s), Nat.mul_add_div hprod, Nat.add_comm, Nat.add_mul_mod_self_right]

theorem digits_encode : ∀ {sizes codes : List Nat}, Fits sizes codes →
    digits sizes (encode sizes codes) = codes
  | [], [], _ => rfl
  | s :: sizes, c :: codes, h => by
    have hlt := encode_lt h.2
    have hpos : 0 < sizes.prod := by omega
    have hdiv : (c * sizes.prod + encode sizes codes) / sizes.prod = c := by
      rw [Nat.mul_comm, Nat.mul_add_div hpos, Nat.div_eq_of_lt hlt, Nat.add_zero]
    rw [encode, digits, hdiv, Nat.mod_eq_of_lt h.1, digits_add _ _ _ hpos, digits_encode h.2]

/-! ## 2. Groups by a code and by a key -/

section Groups

variable {ι α β γ : Type} [DecidableEq α] [DecidableEq β]

/-- **Groups by a code are groups by a key** when the code determines the key and the key the
code, on the rows at hand. -/
theorem perm_groups (dec : α → β) (out : β → List ι → γ) {rows : List ι} {code : ι → α}
    {key : ι → β} {codes : List α} (hnd : codes.Nodup)
    (hmem : ∀ c, c ∈ codes ↔ ∃ i ∈ rows, code i = c)
    (hdec : ∀ i ∈ rows, dec (code i) = key i)
    (hinj : ∀ i ∈ rows, ∀ j ∈ rows, key i = key j → code i = code j) :
    (codes.map fun c => out (dec c) (rows.filter fun i => code i = c)).Perm
      ((rows.map key).dedup.map fun k => out k (rows.filter fun i => key i = k)) := by
  -- a code stands for the key it decodes to
  have hrow : ∀ c ∈ codes, out (dec c) (rows.filter fun i => code i = c) =
      out (dec c) (rows.filter fun i => key i = dec c) := by
    intro c hc
    obtain ⟨j, hj, rfl⟩ := (hmem c).mp hc
    refine congrArg _ (List.filter_congr fun i hi => decide_eq_decide.mpr ?_)
    rw [hdec j hj]
    constructor
    · intro hcode
      rw [← hdec i hi, hcode, hdec j hj]
    · exact hinj i hi j hj
  have hkeys : (codes.map dec).Perm (rows.map key).dedup := by
    have hinjOn : ∀ a ∈ codes, ∀ b ∈ codes, dec a = dec b → a = b := by
      intro a ha b hb hab
      obtain ⟨i, hi, rfl⟩ := (hmem a).mp ha
      obtain ⟨j, hj, rfl⟩ := (hmem b).mp hb
      rw [hdec i hi, hdec j hj] at hab
      exact hinj i hi j hj hab
    rw [List.perm_ext_iff_of_nodup (List.Nodup.map_on hinjOn hnd) (List.nodup_dedup _)]
    intro k
    simp only [List.mem_map, List.mem_dedup, hmem]
    constructor
    · rintro ⟨c, ⟨i, hi, rfl⟩, rfl⟩
      exact ⟨i, hi, (hdec i hi).symm⟩
    · rintro ⟨i, hi, rfl⟩
      exact ⟨code i, ⟨i, hi, rfl⟩, hdec i hi⟩
  rw [List.map_congr_left hrow]
  have hcomp : (codes.map fun c => out (dec c) (rows.filter fun i => key i = dec c)) =
      (codes.map dec).map fun k => out k (rows.filter fun i => key i = k) := by
    rw [List.map_map]
    rfl
  rw [hcomp]
  exact hkeys.map _

omit [DecidableEq α] [DecidableEq β] in
/-- Two keys on which the same rows agree make the same groups, in the same order. -/
theorem groups_congr [DecidableEq α] [DecidableEq β] {rows : List ι} {k : ι → α} {k' : ι → β}
    (h : ∀ i ∈ rows, ∀ j ∈ rows, k i = k j ↔ k' i = k' j) :
    ((rows.map k).dedup.map fun x => rows.filter fun i => k i = x) =
      (rows.map k').dedup.map fun x => rows.filter fun i => k' i = x := by
  suffices hpart : ∀ l : List ι, (∀ i ∈ l, i ∈ rows) →
      ((l.map k).dedup.map fun x => rows.filter fun i => k i = x) =
        (l.map k').dedup.map fun x => rows.filter fun i => k' i = x from hpart rows fun _ hi => hi
  intro l
  induction l with
  | nil => exact fun _ => rfl
  | cons i l ih =>
    intro hl
    have hi := hl i List.mem_cons_self
    have hrest := ih fun j hj => hl j (List.mem_cons_of_mem _ hj)
    have hseen : k i ∈ l.map k ↔ k' i ∈ l.map k' := by
      simp only [List.mem_map]
      refine exists_congr fun j => and_congr_right fun hj => ?_
      exact h j (hl j (List.mem_cons_of_mem _ hj)) i hi
    rw [List.map_cons, List.map_cons]
    by_cases hmem : k i ∈ l.map k
    · rw [List.dedup_cons_of_mem hmem, List.dedup_cons_of_mem (hseen.mp hmem), hrest]
    · rw [List.dedup_cons_of_notMem hmem, List.dedup_cons_of_notMem fun h' => hmem (hseen.mpr h'),
        List.map_cons, List.map_cons, hrest]
      refine congrArg (· :: _) (List.filter_congr fun j hj => decide_eq_decide.mpr ?_)
      exact h j hj i hi

/-- A coarser key with as many groups makes the same groups. -/
theorem agree_of_length {rows : List ι} {k : ι → α} {k' : ι → β}
    (h : ∀ i ∈ rows, ∀ j ∈ rows, k i = k j → k' i = k' j)
    (hlen : (rows.map k).dedup.length = (rows.map k').dedup.length) :
    ∀ i ∈ rows, ∀ j ∈ rows, k' i = k' j → k i = k j := by
  intro i hi j hj hij
  classical
  -- the coarser key as a function of the finer one
  let f : α → β := fun a => if ha : ∃ m ∈ rows, k m = a then k' ha.choose else k' i
  have hf : ∀ m ∈ rows, f (k m) = k' m := by
    intro m hm
    have hex : ∃ m' ∈ rows, k m' = k m := ⟨m, hm, rfl⟩
    have hval : f (k m) = k' hex.choose := dif_pos hex
    rw [hval]
    exact h _ hex.choose_spec.1 m hm hex.choose_spec.2
  have himage : (rows.map k).toFinset.image f = (rows.map k').toFinset := by
    ext b
    simp only [Finset.mem_image, List.mem_toFinset, List.mem_map]
    constructor
    · rintro ⟨_, ⟨m, hm, rfl⟩, rfl⟩
      exact ⟨m, hm, (hf m hm).symm⟩
    · rintro ⟨m, hm, rfl⟩
      exact ⟨k m, ⟨m, hm, rfl⟩, hf m hm⟩
  have hcard : ((rows.map k).toFinset.image f).card = (rows.map k).toFinset.card := by
    rw [himage, List.card_toFinset, List.card_toFinset, hlen]
  have hinj := Finset.injOn_of_card_image_eq hcard
  refine hinj (List.mem_toFinset.mpr (List.mem_map_of_mem hi))
    (List.mem_toFinset.mpr (List.mem_map_of_mem hj)) ?_
  rw [hf i hi, hf j hj, hij]

end Groups

/-! ## 3. Grouping sets -/

section Sets

variable {α : Type}

/-- The sets of several items together: one of each, joined. -/
def cross : List (List (List α)) → List (List α)
  | [] => [[]]
  | sets :: rest => sets.flatMap fun s => (cross rest).map (s ++ ·)

/-- The prefixes of the items, the longest first. -/
def rollup : List (List α) → List (List α)
  | [] => [[]]
  | item :: items => (rollup items).map (item ++ ·) ++ [[]]

/-- The sublists of the items. -/
def cube : List (List α) → List (List α)
  | [] => [[]]
  | item :: items => cube items ++ (cube items).map (item ++ ·)

theorem length_cross : ∀ factors : List (List (List α)),
    (cross factors).length = (factors.map List.length).prod
  | [] => rfl
  | sets :: rest => by
    rw [cross, List.length_flatMap, List.map_cons, List.prod_cons, ← length_cross rest]
    simp only [List.length_map, List.map_const', List.sum_replicate_nat]

/-- Items with one set each have one set together. -/
theorem cross_singletons (sets : List (List α)) : cross (sets.map fun s => [s]) = [sets.flatten] := by
  induction sets with
  | nil => rfl
  | cons s sets ih => rw [List.map_cons, cross, ih, List.flatMap_singleton]; rfl

theorem cross_append (fs gs : List (List (List α))) :
    cross (fs ++ gs) = (cross fs).flatMap fun s => (cross gs).map (s ++ ·) := by
  induction fs with
  | nil => simp only [List.nil_append, cross, List.flatMap_singleton, List.map_id']
  | cons sets fs ih =>
    rw [List.cons_append, cross, cross, ih, List.flatMap_assoc]
    refine List.flatMap_congr fun s _ => ?_
    rw [List.map_flatMap, List.flatMap_map]
    refine List.flatMap_congr fun t _ => ?_
    rw [List.map_map]
    exact List.map_congr_left fun u _ => (List.append_assoc s t u).symm

/-- The prefixes by their lengths. -/
theorem rollup_eq_take : ∀ items : List (List α), rollup items =
    (List.range (items.length + 1)).reverse.map fun k => (items.take k).flatten
  | [] => rfl
  | item :: items => by
    rw [rollup, rollup_eq_take items, List.length_cons, List.range_succ_eq_map (n := items.length + 1),
      List.reverse_cons, List.map_append, List.map_reverse, List.map_reverse, List.map_reverse,
      List.map_map, List.map_map]
    rfl

/-- The items a number chooses: item `i` when bit `i` is set. -/
def chosen (items : List (List α)) (mask : Nat) : List α :=
  (List.range items.length).flatMap fun i => if mask.testBit i then items.getD i [] else []

theorem chosen_cons (item : List α) (items : List (List α)) (mask : Nat) :
    chosen (item :: items) mask =
      (if mask.testBit 0 then item else []) ++ chosen items (mask / 2) := by
  rw [chosen, List.length_cons, List.range_succ_eq_map, List.flatMap_cons, List.flatMap_map]
  refine congrArg₂ _ rfl (List.flatMap_congr fun i _ => ?_)
  rw [List.getD_cons_succ, Nat.testBit_succ]

/-- The even numbers and the odd numbers below a power of two. -/
theorem range_double (n : Nat) : (List.range (2 ^ (n + 1))).Perm
    ((List.range (2 ^ n)).map (2 * ·) ++ (List.range (2 ^ n)).map fun m => 2 * m + 1) := by
  have heven : ((List.range (2 ^ n)).map (2 * ·)).Nodup :=
    List.nodup_range.map fun a b h => by omega
  have hodd : ((List.range (2 ^ n)).map fun m => 2 * m + 1).Nodup :=
    List.nodup_range.map fun a b h => by omega
  have hboth : ((List.range (2 ^ n)).map (2 * ·) ++
      (List.range (2 ^ n)).map fun m => 2 * m + 1).Nodup := by
    refine List.nodup_append.mpr ⟨heven, hodd, fun a ha b hb hab => ?_⟩
    obtain ⟨x, -, rfl⟩ := List.mem_map.mp ha
    obtain ⟨y, -, hy⟩ := List.mem_map.mp hb
    omega
  rw [List.perm_ext_iff_of_nodup List.nodup_range hboth]
  intro a
  simp only [List.mem_append, List.mem_map, List.mem_range, Nat.pow_succ]
  constructor
  · intro ha
    rcases Nat.mod_two_eq_zero_or_one a with h | h
    · exact .inl ⟨a / 2, by omega, by omega⟩
    · exact .inr ⟨a / 2, by omega, by omega⟩
  · rintro (⟨m, hm, rfl⟩ | ⟨m, hm, rfl⟩) <;> omega

/-- **The numbers below a power of two choose all sublists**, each once. -/
theorem chosen_perm_cube : ∀ items : List (List α),
    ((List.range (2 ^ items.length)).map (chosen items)).Perm (cube items)
  | [] => .refl _
  | item :: items => by
    have ih := chosen_perm_cube items
    refine ((range_double items.length).map _).trans ?_
    rw [List.map_append, List.map_map, List.map_map, cube]
    have heven : ((List.range (2 ^ items.length)).map (chosen (item :: items) ∘ (2 * ·))) =
        (List.range (2 ^ items.length)).map (chosen items) := by
      refine List.map_congr_left fun m _ => ?_
      have hbit : (2 * m).testBit 0 = false := by simp
      rw [Function.comp_apply, chosen_cons, hbit, Nat.mul_div_cancel_left m Nat.two_pos]
      rfl
    have hodd : ((List.range (2 ^ items.length)).map
        (chosen (item :: items) ∘ fun m => 2 * m + 1)) =
          ((List.range (2 ^ items.length)).map (chosen items)).map (item ++ ·) := by
      rw [List.map_map]
      refine List.map_congr_left fun m _ => ?_
      have hbit : (2 * m + 1).testBit 0 = true := by simp
      have hhalf : (2 * m + 1) / 2 = m := by omega
      rw [Function.comp_apply, chosen_cons, hbit, hhalf]
      rfl
    rw [heven, hodd]
    exact ih.append (ih.map _)

end Sets

end Grouping
