/-
# Joins of two lists

A join of two lists under a test `m` on pairs.  The matched pairs stand first, in the order of a
nested loop, and an outer join appends the elements that found no partner:

    inner              -- the pairs
    inner ++ lone left                     -- left outer
    inner ++ lone right                    -- right outer
    inner ++ lone left ++ lone right       -- full outer

`JoinSpec` holds the test and the three ways an element of the result is built, so that one
statement covers every kind of join.  Four groups of laws follow: what a join does when the
inputs are filtered, when they are replaced by related lists, when the two sides are
exchanged, and when some elements can have no partner.
-/
import Mathlib.Data.List.Forall2
import Mathlib.Data.Multiset.Bind

universe u v w

/-- The test of a join and the elements it builds from a pair, and from an element alone. -/
structure JoinSpec (α : Type u) (β : Type v) (γ : Type w) where
  test : α → β → Bool
  pair : α → β → γ
  left : α → γ
  right : β → γ

namespace JoinSpec

variable {α : Type u} {β : Type v} {γ : Type w} (J : JoinSpec α β γ)

/-! ## 1. The joins -/

/-- The matched pairs. -/
def inner (as : List α) (bs : List β) : List γ :=
  as.flatMap fun a => (bs.filter (J.test a)).map (J.pair a)

/-- The elements of the left list without a partner. -/
def loneLeft (as : List α) (bs : List β) : List γ :=
  (as.filter fun a => !bs.any (J.test a)).map J.left

/-- The elements of the right list without a partner. -/
def loneRight (as : List α) (bs : List β) : List γ :=
  (bs.filter fun b => !as.any fun a => J.test a b).map J.right

/-- The join that keeps the lone elements of the sides it is told to keep. -/
def run (keepLeft keepRight : Bool) (as : List α) (bs : List β) : List γ :=
  J.inner as bs ++ (if keepLeft then J.loneLeft as bs else []) ++
    (if keepRight then J.loneRight as bs else [])

/-- The same join read from the other side. -/
def swap : JoinSpec β α γ where
  test b a := J.test a b
  pair b a := J.pair a b
  left := J.right
  right := J.left

/-- What holds of every element a join can build holds of its result. -/
theorem forall_mem_run {P : γ → Prop} (hp : ∀ a b, P (J.pair a b)) (hl : ∀ a, P (J.left a))
    (hr : ∀ b, P (J.right b)) (k k' : Bool) (as : List α) (bs : List β) :
    ∀ c ∈ J.run k k' as bs, P c := by
  intro c hc
  rw [run, List.mem_append, List.mem_append] at hc
  rcases hc with (hc | hc) | hc
  · obtain ⟨a, -, hc⟩ := List.mem_flatMap.mp hc
    obtain ⟨b, -, rfl⟩ := List.mem_map.mp hc
    exact hp a b
  · cases k with
    | false => cases hc
    | true =>
      obtain ⟨a, -, rfl⟩ := List.mem_map.mp hc
      exact hl a
  · cases k' with
    | false => cases hc
    | true =>
      obtain ⟨b, -, rfl⟩ := List.mem_map.mp hc
      exact hr b

/-! ## 2. Filtering an input -/

section Filter
variable {J} {p : γ → Bool}

/-- A filter on the result that only looks at the left element is a filter on the left list. -/
theorem inner_filter_left {q : α → Bool} (hp : ∀ a b, J.test a b = true → p (J.pair a b) = q a)
    (as : List α) (bs : List β) : (J.inner as bs).filter p = J.inner (as.filter q) bs := by
  induction as with
  | nil => rfl
  | cons a as ih =>
    have hhead : ((bs.filter (J.test a)).map (J.pair a)).filter p =
        if q a then (bs.filter (J.test a)).map (J.pair a) else [] := by
      rw [List.filter_map]
      have hconst : (bs.filter (J.test a)).filter (p ∘ J.pair a) =
          (bs.filter (J.test a)).filter fun _ => q a :=
        List.filter_congr fun b hb => hp a b (List.mem_filter.mp hb).2
      rw [hconst]
      cases q a <;> simp
    simp only [inner, List.flatMap_cons, List.filter_append, hhead] at ih ⊢
    rw [ih]
    cases hq : q a <;> simp [hq]

theorem inner_filter_right {q : β → Bool} (hp : ∀ a b, J.test a b = true → p (J.pair a b) = q b)
    (as : List α) (bs : List β) : (J.inner as bs).filter p = J.inner as (bs.filter q) := by
  induction as with
  | nil => rfl
  | cons a as ih =>
    have hhead : ((bs.filter (J.test a)).map (J.pair a)).filter p =
        ((bs.filter q).filter (J.test a)).map (J.pair a) := by
      rw [List.filter_map, List.filter_filter, List.filter_filter]
      refine congrArg _ (List.filter_congr fun b _ => ?_)
      by_cases hm : J.test a b = true
      · simp [hm, hp a b hm]
      · simp [hm]
    simp only [inner, List.flatMap_cons, List.filter_append, hhead] at ih ⊢
    rw [ih]

/-- A filter on the pairs is a further test. -/
theorem inner_filter_pair {J' : JoinSpec α β γ}
    (htest : ∀ a b, J'.test a b = (J.test a b && p (J.pair a b))) (hpair : J'.pair = J.pair)
    (as : List α) (bs : List β) : (J.inner as bs).filter p = J'.inner as bs := by
  rw [inner, inner, List.filter_flatMap]
  refine List.flatMap_congr fun a _ => ?_
  rw [List.filter_map, List.filter_filter, hpair]
  refine congrArg _ (List.filter_congr fun b _ => ?_)
  rw [Function.comp_apply, htest, Bool.and_comm]

theorem loneLeft_filter {q : α → Bool} (hp : ∀ a, p (J.left a) = q a) (as : List α)
    (bs : List β) : (J.loneLeft as bs).filter p = J.loneLeft (as.filter q) bs := by
  rw [loneLeft, loneLeft, List.filter_map, List.filter_filter, List.filter_filter]
  exact congrArg _ (List.filter_congr fun a _ => by simp [hp, Bool.and_comm])

theorem loneRight_filter {q : β → Bool} (hp : ∀ b, p (J.right b) = q b) (as : List α)
    (bs : List β) : (J.loneRight as bs).filter p = J.loneRight as (bs.filter q) := by
  rw [loneRight, loneRight, List.filter_map, List.filter_filter, List.filter_filter]
  exact congrArg _ (List.filter_congr fun b _ => by simp [hp, Bool.and_comm])

/-- **A filter on the left element of a join that pads no left side moves to the left list.** -/
theorem run_filter_left {q : α → Bool} (hpair : ∀ a b, J.test a b = true → p (J.pair a b) = q a)
    (hleft : ∀ a, p (J.left a) = q a) (k : Bool) (as : List α) (bs : List β) :
    (J.run k false as bs).filter p = J.run k false (as.filter q) bs := by
  cases k <;> simp [run, List.filter_append, inner_filter_left hpair, loneLeft_filter hleft]

/-- **A filter on the right element of a join that pads no right side moves to the right list.** -/
theorem run_filter_right {q : β → Bool} (hpair : ∀ a b, J.test a b = true → p (J.pair a b) = q b)
    (hright : ∀ b, p (J.right b) = q b) (k : Bool) (as : List α) (bs : List β) :
    (J.run false k as bs).filter p = J.run false k as (bs.filter q) := by
  cases k <;> simp [run, List.filter_append, inner_filter_right hpair, loneRight_filter hright]

end Filter

/-- **A join whose pairs are their left elements, each with one partner at most, is a filter.** -/
theorem inner_eq_filter {J : JoinSpec α β α} {as : List α} {bs : List β}
    (hp : ∀ a ∈ as, ∀ b ∈ bs, J.test a b = true → J.pair a b = a)
    (hone : ∀ a ∈ as, (bs.filter (J.test a)).length ≤ 1) :
    J.inner as bs = as.filter fun a => bs.any (J.test a) := by
  rw [inner]
  induction as with
  | nil => rfl
  | cons a as ih =>
    have hhead : (bs.filter (J.test a)).map (J.pair a) = if bs.any (J.test a) then [a] else [] := by
      have hle := hone a List.mem_cons_self
      match hf : bs.filter (J.test a) with
      | [] =>
        have hnone : bs.any (J.test a) = false :=
          List.any_eq_false.mpr (List.filter_eq_nil_iff.mp hf)
        rw [hnone]
        rfl
      | [b] =>
        have hb := List.mem_filter.mp (hf ▸ List.mem_singleton_self b)
        have hany : bs.any (J.test a) = true := List.any_eq_true.mpr ⟨b, hb⟩
        rw [hany, List.map_singleton, hp a List.mem_cons_self b hb.1 hb.2]
        rfl
      | _ :: _ :: _ =>
        rw [hf] at hle
        simp at hle
    rw [List.flatMap_cons, hhead, ih (fun a' h => hp a' (List.mem_cons_of_mem _ h))
      fun a' h => hone a' (List.mem_cons_of_mem _ h)]
    cases hany : bs.any (J.test a) <;> simp [hany]

/-- **A left join whose left elements have one partner at most** has one element for each of them. -/
theorem run_left_unique {as : List α} {bs : List β}
    (hone : ∀ a ∈ as, (bs.filter (J.test a)).length ≤ 1) :
    (J.run true false as bs).Perm (as.map fun a =>
      match bs.find? (J.test a) with
      | some b => J.pair a b
      | none => J.left a) := by
  have hrun : ∀ as : List α, J.run true false as bs = J.inner as bs ++ J.loneLeft as bs :=
    fun as => List.append_nil _
  rw [hrun]
  induction as with
  | nil => exact .refl _
  | cons a as ih =>
    have ih := ih fun a' h => hone a' (List.mem_cons_of_mem _ h)
    have hle := hone a List.mem_cons_self
    have hfind : bs.find? (J.test a) = (bs.filter (J.test a)).head? := List.head?_filter.symm
    have hinner : J.inner (a :: as) bs =
        (bs.filter (J.test a)).map (J.pair a) ++ J.inner as bs := List.flatMap_cons
    have hany : bs.any (J.test a) = !(bs.filter (J.test a)).isEmpty := by
      rw [Bool.eq_iff_iff, List.any_eq_true, Bool.not_eq_true', List.isEmpty_eq_false_iff_exists_mem]
      simp only [List.mem_filter]
    have hlone : J.loneLeft (a :: as) bs =
        (if (bs.filter (J.test a)).isEmpty then [J.left a] else []) ++ J.loneLeft as bs := by
      rw [loneLeft, List.filter_cons, hany, Bool.not_not]
      cases (bs.filter (J.test a)).isEmpty <;> rfl
    rw [hinner, hlone, List.map_cons, hfind]
    match hf : bs.filter (J.test a) with
    | [] => exact List.perm_middle.trans (ih.cons _)
    | [b] => exact ih.cons _
    | _ :: _ :: _ =>
      rw [hf] at hle
      simp at hle

/-! ## 3. Related inputs -/

section Related
variable {α' : Type u} {β' : Type v} {γ' : Type w} {J} {J' : JoinSpec α' β' γ'}
  {R : α → α' → Prop} {S : β → β' → Prop} {T : γ → γ' → Prop}

/-- Two specifications that agree on related elements. -/
structure Related (J : JoinSpec α β γ) (J' : JoinSpec α' β' γ') (R : α → α' → Prop)
    (S : β → β' → Prop) (T : γ → γ' → Prop) : Prop where
  test : ∀ a a' b b', R a a' → S b b' → J.test a b = J'.test a' b'
  pair : ∀ a a' b b', R a a' → S b b' → J.test a b = true → T (J.pair a b) (J'.pair a' b')
  left : ∀ a a', R a a' → T (J.left a) (J'.left a')
  right : ∀ b b', S b b' → T (J.right b) (J'.right b')

theorem forall₂_filter {p : α → Bool} {p' : α' → Bool} (hp : ∀ a a', R a a' → p a = p' a') :
    ∀ {as : List α} {as' : List α'}, List.Forall₂ R as as' →
      List.Forall₂ R (as.filter p) (as'.filter p')
  | _, _, .nil => .nil
  | a :: as, a' :: as', .cons h t => by
    have ih := forall₂_filter hp t
    have hpa := hp a a' h
    by_cases hq : p a = true
    · rw [List.filter_cons_of_pos hq, List.filter_cons_of_pos (hpa ▸ hq)]
      exact .cons h ih
    · rw [List.filter_cons_of_neg hq, List.filter_cons_of_neg (hpa ▸ hq)]
      exact ih

theorem forall₂_any {p : α → Bool} {p' : α' → Bool} (hp : ∀ a a', R a a' → p a = p' a') :
    ∀ {as : List α} {as' : List α'}, List.Forall₂ R as as' → as.any p = as'.any p'
  | _, _, .nil => rfl
  | a :: _, a' :: _, .cons h t => by
    rw [List.any_cons, List.any_cons, hp a a' h, forall₂_any hp t]

theorem forall₂_map {δ δ' : Type*} {U : δ → δ' → Prop} {f : α → δ} {f' : α' → δ'}
    (hf : ∀ a a', R a a' → U (f a) (f' a')) {as : List α} {as' : List α'}
    (h : List.Forall₂ R as as') : List.Forall₂ U (as.map f) (as'.map f') :=
  List.forall₂_map_left_iff.mpr (List.forall₂_map_right_iff.mpr (h.imp hf))

/-- A list is related to itself by equality of its own elements. -/
theorem forall₂_self (as : List α) : List.Forall₂ (fun a a' => a ∈ as ∧ a = a') as as :=
  List.forall₂_same.mpr fun _ ha => ⟨ha, rfl⟩

theorem Related.inner (hJ : Related J J' R S T) {bs : List β} {bs' : List β'}
    (hb : List.Forall₂ S bs bs') : ∀ {as : List α} {as' : List α'}, List.Forall₂ R as as' →
      List.Forall₂ T (J.inner as bs) (J'.inner as' bs')
  | _, _, .nil => .nil
  | a :: as, a' :: as', .cons h t => by
    -- the partners of `a` are related and all pass the test, which `pair` may use
    have hpartners : List.Forall₂ (fun b b' => J.test a b = true ∧ S b b')
        (bs.filter (J.test a)) (bs'.filter (J'.test a')) :=
      (List.forall₂_and_left _ _).mpr ⟨fun b hb => (List.mem_filter.mp hb).2,
        forall₂_filter (fun b b' hs => hJ.test a a' b b' h hs) hb⟩
    have hhead : List.Forall₂ T ((bs.filter (J.test a)).map (J.pair a))
        ((bs'.filter (J'.test a')).map (J'.pair a')) :=
      forall₂_map (fun b b' hs => hJ.pair a a' b b' h hs.2 hs.1) hpartners
    exact List.rel_append hhead (Related.inner hJ hb t)

/-- **Related inputs give related results, element by element.** -/
theorem Related.run (hJ : Related J J' R S T) {as : List α} {as' : List α'} {bs : List β}
    {bs' : List β'} (ha : List.Forall₂ R as as') (hb : List.Forall₂ S bs bs') (k k' : Bool) :
    List.Forall₂ T (J.run k k' as bs) (J'.run k k' as' bs') := by
  have hl : List.Forall₂ T (J.loneLeft as bs) (J'.loneLeft as' bs') := by
    refine forall₂_map hJ.left (forall₂_filter (fun a a' hr => ?_) ha)
    rw [forall₂_any (fun b b' hs => hJ.test a a' b b' hr hs) hb]
  have hr : List.Forall₂ T (J.loneRight as bs) (J'.loneRight as' bs') := by
    refine forall₂_map hJ.right (forall₂_filter (fun b b' hs => ?_) hb)
    rw [forall₂_any (fun a a' hr => hJ.test a a' b b' hr hs) ha]
  refine List.rel_append (List.rel_append (hJ.inner hb ha) ?_) ?_
  · cases k
    · exact .nil
    · exact hl
  · cases k'
    · exact .nil
    · exact hr

end Related

/-- **A join of images is the image of the join**, when the maps keep the test and the elements
that are built. -/
theorem run_map {α' : Type*} {β' : Type*} {γ' : Type*} {J' : JoinSpec α' β' γ'} {p : α → α'}
    {q : β → β'} {m : γ → γ'} (htest : ∀ a b, J'.test (p a) (q b) = J.test a b)
    (hpair : ∀ a b, J'.pair (p a) (q b) = m (J.pair a b)) (hleft : ∀ a, J'.left (p a) = m (J.left a))
    (hright : ∀ b, J'.right (q b) = m (J.right b)) (k k' : Bool) (as : List α) (bs : List β) :
    J'.run k k' (as.map p) (bs.map q) = (J.run k k' as bs).map m := by
  have hi : J'.inner (as.map p) (bs.map q) = (J.inner as bs).map m := by
    simp only [inner, List.flatMap_map, List.filter_map, List.map_map, List.map_flatMap,
      Function.comp_def, htest, hpair]
  have hl : J'.loneLeft (as.map p) (bs.map q) = (J.loneLeft as bs).map m := by
    simp only [loneLeft, List.filter_map, List.map_map, List.any_map, Function.comp_def, htest,
      hleft]
  have hr : J'.loneRight (as.map p) (bs.map q) = (J.loneRight as bs).map m := by
    simp only [loneRight, List.filter_map, List.map_map, List.any_map, Function.comp_def, htest,
      hright]
  rw [run, run, hi, hl, hr, List.map_append, List.map_append]
  cases k <;> cases k' <;> rfl

/-! ## 4. Reordered inputs and exchanged sides -/

theorem inner_perm {as as' : List α} {bs bs' : List β} (ha : as.Perm as') (hb : bs.Perm bs') :
    (J.inner as bs).Perm (J.inner as' bs') :=
  ha.flatMap fun _ _ => (hb.filter _).map _

theorem loneLeft_perm {as as' : List α} {bs bs' : List β} (ha : as.Perm as') (hb : bs.Perm bs') :
    (J.loneLeft as bs).Perm (J.loneLeft as' bs') := by
  have hany : ∀ a, bs.any (J.test a) = bs'.any (J.test a) := fun a => hb.any_eq
  rw [loneLeft, loneLeft, List.filter_congr fun a _ => congrArg _ (hany a)]
  exact (ha.filter _).map _

theorem inner_swap (as : List α) (bs : List β) : (J.inner as bs).Perm (J.swap.inner bs as) := by
  have hcell : ∀ a, (bs.filter (J.test a)).map (J.pair a) =
      bs.flatMap fun b => if J.test a b then [J.pair a b] else [] := by
    intro a
    induction bs with
    | nil => rfl
    | cons b bs ih => cases h : J.test a b <;> simp [h, ih]
  have hcell' : ∀ b, (as.filter fun a => J.test a b).map (fun a => J.pair a b) =
      as.flatMap fun a => if J.test a b then [J.pair a b] else [] := by
    intro b
    induction as with
    | nil => rfl
    | cons a as ih => cases h : J.test a b <;> simp [h, ih]
  rw [inner, inner]
  simp only [swap, hcell, hcell']
  rw [← Multiset.coe_eq_coe, ← Multiset.coe_bind, ← Multiset.coe_bind]
  simp only [← Multiset.coe_bind]
  exact Multiset.bind_bind _ _

/-- **Reordering the inputs and exchanging the sides changes the order of the result only.** -/
theorem run_swap {as as' : List α} {bs bs' : List β} (ha : as.Perm as') (hb : bs.Perm bs')
    (k k' : Bool) : (J.run k k' as bs).Perm (J.swap.run k' k bs' as') := by
  have hi : (J.inner as bs).Perm (J.swap.inner bs' as') :=
    (J.inner_swap as bs).trans (J.swap.inner_perm hb ha)
  have hl : (J.loneLeft as bs).Perm (J.swap.loneRight bs' as') := J.loneLeft_perm ha hb
  have hr : (J.loneRight as bs).Perm (J.swap.loneLeft bs' as') := J.swap.loneLeft_perm hb ha
  have hkl : (if k then J.loneLeft as bs else []).Perm
      (if k then J.swap.loneRight bs' as' else []) := by
    cases k
    · exact .nil
    · exact hl
  have hkr : (if k' then J.loneRight as bs else []).Perm
      (if k' then J.swap.loneLeft bs' as' else []) := by
    cases k'
    · exact .nil
    · exact hr
  rw [run, run, List.append_assoc, List.append_assoc]
  exact hi.append ((hkl.append hkr).trans List.perm_append_comm)

/-- Reordering the inputs changes the order of the result only. -/
theorem run_perm {as as' : List α} {bs bs' : List β} (ha : as.Perm as') (hb : bs.Perm bs')
    (k k' : Bool) : (J.run k k' as bs).Perm (J.run k k' as' bs') :=
  (J.run_swap ha hb k k').trans (J.swap.run_swap (.refl _) (.refl _) k' k)

/-- Two specifications that agree on the elements of the inputs give the same join. -/
theorem run_congr {J' : JoinSpec α β γ} {as : List α} {bs : List β}
    (ht : ∀ a ∈ as, ∀ b ∈ bs, J.test a b = J'.test a b)
    (hp : ∀ a ∈ as, ∀ b ∈ bs, J.test a b = true → J.pair a b = J'.pair a b)
    (hl : ∀ a ∈ as, J.left a = J'.left a) (hr : ∀ b ∈ bs, J.right b = J'.right b)
    (k k' : Bool) : J.run k k' as bs = J'.run k k' as bs := by
  have hJ : Related J J' (fun a a' => a ∈ as ∧ a = a') (fun b b' => b ∈ bs ∧ b = b') Eq :=
    { test := by
        rintro a _ b _ ⟨ha, rfl⟩ ⟨hb, rfl⟩
        exact ht a ha b hb
      pair := by
        rintro a _ b _ ⟨ha, rfl⟩ ⟨hb, rfl⟩
        exact hp a ha b hb
      left := by
        rintro a _ ⟨ha, rfl⟩
        exact hl a ha
      right := by
        rintro b _ ⟨hb, rfl⟩
        exact hr b hb }
  exact List.forall₂_eq_eq_eq ▸ hJ.run (forall₂_self as) (forall₂_self bs) k k'

/-- A pair that no other elements build is in a join exactly when it passes the test. -/
theorem pair_mem_run {as : List α} {bs : List β} {a : α} {b : β} (ha : a ∈ as) (hb : b ∈ bs)
    (hpair : ∀ a' ∈ as, ∀ b' ∈ bs, J.pair a' b' = J.pair a b → a' = a ∧ b' = b)
    (hleft : ∀ a' ∈ as, J.left a' ≠ J.pair a b) (hright : ∀ b' ∈ bs, J.right b' ≠ J.pair a b)
    (k k' : Bool) : J.pair a b ∈ J.run k k' as bs ↔ J.test a b = true := by
  rw [run, List.mem_append, List.mem_append]
  constructor
  · rintro ((h | h) | h)
    · obtain ⟨a', ha', h⟩ := List.mem_flatMap.mp h
      obtain ⟨b', hb', he⟩ := List.mem_map.mp h
      obtain ⟨hb', ht⟩ := List.mem_filter.mp hb'
      obtain ⟨rfl, rfl⟩ := hpair a' ha' b' hb' he
      exact ht
    · cases k with
      | false => cases h
      | true =>
        obtain ⟨a', ha', he⟩ := List.mem_map.mp h
        exact absurd he (hleft a' (List.mem_filter.mp ha').1)
    · cases k' with
      | false => cases h
      | true =>
        obtain ⟨b', hb', he⟩ := List.mem_map.mp h
        exact absurd he (hright b' (List.mem_filter.mp hb').1)
  · intro ht
    exact .inl (.inl (List.mem_flatMap.mpr
      ⟨a, ha, List.mem_map_of_mem (List.mem_filter.mpr ⟨hb, ht⟩)⟩))

/-! ## 5. Elements that cannot have a partner -/

section Strict
variable {J} {p : α → Bool} {q : β → Bool} {as : List α} {bs : List β}

/-- Elements outside `p` and `q` take no part in the pairs. -/
theorem inner_strict (h : ∀ a ∈ as, ∀ b ∈ bs, J.test a b = true → p a = true ∧ q b = true) :
    J.inner as bs = J.inner (as.filter p) (bs.filter q) := by
  have hright : ∀ a ∈ as, bs.filter (J.test a) = (bs.filter q).filter (J.test a) := by
    intro a ha
    rw [List.filter_filter]
    refine List.filter_congr fun b hb => ?_
    cases ht : J.test a b with
    | false => rfl
    | true => rw [(h a ha b hb ht).2, Bool.and_true]
  have hleft : ∀ a ∈ as, p a = false → bs.filter (J.test a) = [] := by
    intro a ha hp
    refine List.filter_eq_nil_iff.mpr fun b hb ht => ?_
    rw [(h a ha b hb ht).1] at hp
    cases hp
  clear h
  rw [inner, inner]
  induction as with
  | nil => rfl
  | cons a as ih =>
    have ih := ih (fun x hx => hright x (List.mem_cons_of_mem a hx))
      fun x hx => hleft x (List.mem_cons_of_mem a hx)
    cases hp : p a with
    | false =>
      rw [List.flatMap_cons, hleft a List.mem_cons_self hp, List.filter_cons_of_neg (by simp [hp]),
        ih]
      rfl
    | true =>
      rw [List.flatMap_cons, hright a List.mem_cons_self, List.filter_cons_of_pos hp, ih,
        List.flatMap_cons]

/-- Elements outside `p` are alone. -/
theorem loneLeft_strict (h : ∀ a ∈ as, ∀ b ∈ bs, J.test a b = true → p a = true ∧ q b = true) :
    (J.loneLeft as bs).Perm (J.loneLeft (as.filter p) (bs.filter q) ++
      (as.filter fun a => !p a).map J.left) := by
  have hin : (as.filter fun a => !bs.any (J.test a)).filter p =
      (as.filter p).filter fun a => !(bs.filter q).any (J.test a) := by
    rw [List.filter_filter, List.filter_filter]
    refine List.filter_congr fun a ha => ?_
    rw [Bool.and_comm]
    have hany : bs.any (J.test a) = (bs.filter q).any (J.test a) := by
      rw [Bool.eq_iff_iff, List.any_eq_true, List.any_eq_true]
      constructor
      · rintro ⟨b, hb, ht⟩
        exact ⟨b, List.mem_filter.mpr ⟨hb, (h a ha b hb ht).2⟩, ht⟩
      · rintro ⟨b, hb, ht⟩
        exact ⟨b, (List.mem_filter.mp hb).1, ht⟩
    rw [hany]
  have hout : (as.filter fun a => !bs.any (J.test a)).filter (fun a => !p a) =
      as.filter fun a => !p a := by
    rw [List.filter_filter]
    refine List.filter_congr fun a ha => ?_
    cases hp : p a with
    | true => rfl
    | false =>
      have hno : bs.any (J.test a) = false := by
        rw [List.any_eq_false]
        intro b hb ht
        rw [(h a ha b hb ht).1] at hp
        cases hp
      rw [hno]
      rfl
  rw [loneLeft, loneLeft, ← List.map_append, ← hin, ← hout]
  exact (List.filter_append_perm p _).symm.map _

/-- **Elements that can have no partner are dropped from the pairs and returned alone on the
sides that are kept.** -/
theorem run_strict (h : ∀ a ∈ as, ∀ b ∈ bs, J.test a b = true → p a = true ∧ q b = true)
    (k k' : Bool) : (J.run k k' as bs).Perm (J.run k k' (as.filter p) (bs.filter q) ++
      ((if k then (as.filter fun a => !p a).map J.left else []) ++
        if k' then (bs.filter fun b => !q b).map J.right else [])) := by
  have hl := loneLeft_strict h
  have hr : (J.loneRight as bs).Perm (J.loneRight (as.filter p) (bs.filter q) ++
      (bs.filter fun b => !q b).map J.right) :=
    loneLeft_strict (J := J.swap) fun b hb a ha ht => (h a ha b hb ht).symm
  rw [run, run, inner_strict h]
  cases k with
  | false =>
    cases k' with
    | false => simp
    | true => simpa using hr.append_left _
  | true =>
    cases k' with
    | false => simpa using hl.append_left _
    | true =>
      simp only [if_true, List.append_assoc]
      refine ((hl.append hr).trans ?_).append_left _
      rw [List.append_assoc]
      refine List.Perm.append_left _ ?_
      rw [← List.append_assoc, ← List.append_assoc]
      exact List.perm_append_comm.append_right _

end Strict

end JoinSpec
