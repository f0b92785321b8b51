/-
# Open addressing

A table of keys in which `empty` marks a free slot.  A key may be kept in `slot k 0`, `slot k 1`, ...,
as many as `limit`, and is put into the first of them that is free.  A slot never changes once it is
taken, so what an insertion has found taken stays taken while others go on (`Tried.mono`), and an
insertion needs to be atomic at its last slot only: `Filed.claim` says that writing a key to a free slot,
after all the slots before it were found taken by other keys, keeps every key where a lookup finds it.

A table that is `Filed` has each key once (`Filed.inj`), and `find` finds exactly what is there
(`find_iff`).
-/
import Mathlib.Logic.Function.Basic

universe u

namespace Probing

/-- Where keys may be kept. -/
structure Layout (κ : Type u) where
  empty : κ
  slot : κ → Nat → Nat
  limit : Nat

variable {κ : Type u} [DecidableEq κ] {L : Layout κ} {tbl tbl' : Nat → κ} {k : κ} {s n : Nat}

/-- The first `n` slots of the key are taken by other keys. -/
def Tried (L : Layout κ) (tbl : Nat → κ) (k : κ) (n : Nat) : Prop :=
  ∀ m < n, tbl (L.slot k m) ≠ L.empty ∧ tbl (L.slot k m) ≠ k

/-- Every key is in one of its slots, behind slots that other keys have taken. -/
def Filed (L : Layout κ) (tbl : Nat → κ) : Prop :=
  ∀ s, tbl s ≠ L.empty → ∃ n < L.limit, L.slot (tbl s) n = s ∧ Tried L tbl (tbl s) n

/-- No slot that was taken has changed. -/
def Extends (L : Layout κ) (tbl tbl' : Nat → κ) : Prop := ∀ s, tbl s ≠ L.empty → tbl' s = tbl s

/-- The slot of a key, from its slot `n` on. -/
def findFrom (L : Layout κ) (tbl : Nat → κ) (k : κ) : Nat → Nat → Option Nat
  | 0, _ => none
  | fuel + 1, n =>
    if tbl (L.slot k n) = L.empty then none
    else if tbl (L.slot k n) = k then some (L.slot k n)
    else findFrom L tbl k fuel (n + 1)

/-- The slot of a key. -/
def find (L : Layout κ) (tbl : Nat → κ) (k : κ) : Option Nat := findFrom L tbl k L.limit 0

omit [DecidableEq κ] in
theorem Extends.refl (L : Layout κ) (tbl : Nat → κ) : Extends L tbl tbl := fun _ _ => rfl

omit [DecidableEq κ] in
/-- **What was found taken stays taken.** -/
theorem Tried.mono (h : Tried L tbl k n) (he : Extends L tbl tbl') : Tried L tbl' k n := by
  intro m hm
  rw [he _ (h m hm).1]
  exact h m hm

omit [DecidableEq κ] in
theorem Tried.succ (h : Tried L tbl k n) (he : tbl (L.slot k n) ≠ L.empty)
    (hk : tbl (L.slot k n) ≠ k) : Tried L tbl k (n + 1) := by
  intro m hm
  rcases Nat.lt_succ_iff_lt_or_eq.mp hm with hlt | rfl
  · exact h m hlt
  · exact ⟨he, hk⟩

omit [DecidableEq κ] in
theorem filed_empty (L : Layout κ) : Filed L fun _ => L.empty := fun _ h => absurd rfl h

omit [DecidableEq κ] in
/-- **A key is kept once.** -/
theorem Filed.inj (h : Filed L tbl) {s s' : Nat} (hs : tbl s ≠ L.empty) (heq : tbl s' = tbl s) :
    s' = s := by
  obtain ⟨n, -, hslot, hn⟩ := h s hs
  obtain ⟨n', -, hslot', hn'⟩ := h s' (by rw [heq]; exact hs)
  rw [heq] at hslot' hn'
  rcases Nat.lt_trichotomy n n' with hlt | rfl | hlt
  · have hne := (hn' n hlt).2
    rw [hslot] at hne
    exact absurd rfl hne
  · exact hslot'.symm.trans hslot
  · have hne := (hn n' hlt).2
    rw [hslot'] at hne
    exact absurd heq hne

omit [DecidableEq κ] in
/-- A key whose slots are all taken by others is not kept. -/
theorem Filed.absent (h : Filed L tbl) (hk : k ≠ L.empty) (ht : Tried L tbl k L.limit) (s : Nat) :
    tbl s ≠ k := by
  rintro rfl
  obtain ⟨n, hn, hslot, -⟩ := h s hk
  have hne := (ht n hn).2
  rw [hslot] at hne
  exact hne rfl

omit [DecidableEq κ] in
theorem extends_claim (hs : tbl s = L.empty) : Extends L tbl (Function.update tbl s k) := by
  intro s' hs'
  rw [Function.update_of_ne]
  rintro rfl
  exact hs' hs

omit [DecidableEq κ] in
/-- **An insertion.**  The key is written to its first free slot. -/
theorem Filed.claim (h : Filed L tbl) (ht : Tried L tbl k n) (hn : n < L.limit)
    (he : tbl (L.slot k n) = L.empty) : Filed L (Function.update tbl (L.slot k n) k) := by
  have hext : Extends L tbl (Function.update tbl (L.slot k n) k) := extends_claim he
  intro s hs
  by_cases hsk : s = L.slot k n
  · subst hsk
    rw [Function.update_self]
    exact ⟨n, hn, rfl, ht.mono hext⟩
  · rw [Function.update_of_ne hsk] at hs ⊢
    obtain ⟨m, hm, hslot, hmt⟩ := h s hs
    exact ⟨m, hm, hslot, hmt.mono hext⟩

omit [DecidableEq κ] in
/-- A key with a free slot behind taken ones is not kept. -/
theorem Filed.fresh (h : Filed L tbl) (hk : k ≠ L.empty) (ht : Tried L tbl k n)
    (he : tbl (L.slot k n) = L.empty) (s : Nat) : tbl s ≠ k := by
  rintro rfl
  obtain ⟨m, -, hslot, hm⟩ := h s hk
  rcases Nat.lt_trichotomy n m with hlt | rfl | hlt
  · exact (hm n hlt).1 he
  · rw [hslot] at he
    exact hk he
  · have hne := (ht m hlt).2
    rw [hslot] at hne
    exact hne rfl

theorem findFrom_eq (h : Filed L tbl) (hk : k ≠ L.empty) {fuel n : Nat} (hlim : n + fuel = L.limit)
    (ht : Tried L tbl k n) : findFrom L tbl k fuel n = some s ↔ tbl s = k := by
  induction fuel generalizing n with
  | zero =>
    have hlim : n = L.limit := by omega
    subst hlim
    constructor
    · intro hs
      cases hs
    · intro hs
      exact absurd hs (h.absent hk ht s)
  | succ fuel ih =>
    unfold findFrom
    by_cases he : tbl (L.slot k n) = L.empty
    · rw [if_pos he]
      constructor
      · intro hs
        cases hs
      · intro hs
        exact absurd hs (h.fresh hk ht he s)
    · rw [if_neg he]
      by_cases hkey : tbl (L.slot k n) = k
      · rw [if_pos hkey, Option.some.injEq]
        constructor
        · rintro rfl
          exact hkey
        · intro hs
          exact (h.inj (hs ▸ hk) (hkey.trans hs.symm)).symm ▸ rfl
      · rw [if_neg hkey]
        exact ih (by omega) (ht.succ he hkey)

/-- **A lookup finds what is kept.** -/
theorem find_iff (h : Filed L tbl) (hk : k ≠ L.empty) : find L tbl k = some s ↔ tbl s = k :=
  findFrom_eq h hk (by omega) fun m hm => absurd hm (Nat.not_lt_zero m)

end Probing
