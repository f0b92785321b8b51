/-
# Insertion-ordered dictionaries

A `Dict κ α` is a finite map that remembers the order in which its keys were first written:
assigning to a key that is present keeps its place, assigning to a new key appends it.  The
entries are a list and the field `nodup` says that no key occurs twice, so a lookup reads the
only entry of its key and the list of keys is the domain of the map.

The laws below describe every operation by what `get?` reads afterwards, which is all that the
proofs about programs with dictionaries need.  Two operations serve dictionaries of lists, the
shape of a log kept per key: `push` appends one element to the list of a key and `lists` reads
that list, with `[]` for an absent key.

A memo table is a dictionary that keeps what a function returned under a key, and the key may say
less than the argument.  Two calls with one key then share an entry, so the table is right only as
long as every key stands for one argument.  `Memo.Right` says what the keys stand for, and
`Memo.Right.filter` is the rule for a change of the world, which must forget the keys that come to
stand for something else.
-/
import Mathlib.Data.List.Nodup
import Mathlib.Data.List.Perm.Basic

universe u v w

/-- A finite map whose entries stand in insertion order. -/
structure Dict (κ : Type u) (α : Type v) where
  entries : List (κ × α)
  nodup : (entries.map Prod.fst).Nodup

namespace Dict

variable {κ : Type u} {α : Type v} {β : Type w}

/-! ## 1. Operations -/

/-- The dictionary with no key. -/
def empty : Dict κ α := ⟨[], List.nodup_nil⟩

instance : EmptyCollection (Dict κ α) := ⟨empty⟩

/-- The keys in insertion order. -/
def keys (d : Dict κ α) : List κ := d.entries.map Prod.fst

variable [DecidableEq κ]

/-- The value of the first entry of `k` in a list of entries. -/
def find (k : κ) : List (κ × α) → Option α
  | [] => none
  | (j, a) :: l => if j = k then some a else find k l

/-- Overwrite the entry of `k` in place, or append a new one. -/
def put (k : κ) (a : α) : List (κ × α) → List (κ × α)
  | [] => [(k, a)]
  | (j, b) :: l => if j = k then (j, a) :: l else (j, b) :: put k a l

theorem fst_put (k : κ) (a : α) : ∀ l : List (κ × α),
    (put k a l).map Prod.fst = if k ∈ l.map Prod.fst then l.map Prod.fst
      else l.map Prod.fst ++ [k]
  | [] => rfl
  | (j, b) :: l => by
    have ih := fst_put k a l
    by_cases hj : j = k
    · simp [put, hj]
    · have hk : ¬ k = j := fun h => hj h.symm
      simp only [put, if_neg hj, List.map_cons, ih, List.mem_cons, hk, false_or]
      split <;> simp

/-- The value stored under `k`. -/
def get? (d : Dict κ α) (k : κ) : Option α := find k d.entries

/-- `d[k] = a`. -/
def set (d : Dict κ α) (k : κ) (a : α) : Dict κ α where
  entries := put k a d.entries
  nodup := by
    rw [fst_put]
    split
    · exact d.nodup
    · rename_i h
      exact List.Nodup.append d.nodup (List.nodup_singleton k) (by simpa using h)

/-- `d.pop(k, None)`. -/
def erase (d : Dict κ α) (k : κ) : Dict κ α where
  entries := d.entries.filter fun e => decide (e.1 ≠ k)
  nodup := d.nodup.sublist (List.filter_sublist.map _)

omit [DecidableEq κ] in
theorem fst_mapVal (f : α → β) (l : List (κ × α)) :
    (l.map fun e => (e.1, f e.2)).map Prod.fst = l.map Prod.fst := by
  simp [Function.comp_def]

/-- Apply a function to every value. -/
def mapVal (d : Dict κ α) (f : α → β) : Dict κ β where
  entries := d.entries.map fun e => (e.1, f e.2)
  nodup := by rw [fst_mapVal]; exact d.nodup

omit [DecidableEq κ] in
theorem keys_mapVal (d : Dict κ α) (f : α → β) : (d.mapVal f).keys = d.keys :=
  fst_mapVal f d.entries

/-- Keep the entries whose key and value pass a test. -/
def filter (d : Dict κ α) (p : κ → α → Bool) : Dict κ α where
  entries := d.entries.filter fun e => p e.1 e.2
  nodup := d.nodup.sublist (List.filter_sublist.map _)

/-! ## 2. What a lookup reads afterwards -/

@[simp] theorem get?_empty (k : κ) : (∅ : Dict κ α).get? k = none := rfl

theorem find_put (k j : κ) (a : α) : ∀ l : List (κ × α),
    find j (put k a l) = if j = k then some a else find j l
  | [] => by simp only [put, find, eq_comm]
  | (i, b) :: l => by
    have ih := find_put k j a l
    by_cases hi : i = k
    · subst hi
      by_cases hj : i = j
      · simp [put, find, hj]
      · have hj' : ¬ j = i := fun h => hj h.symm
        simp [put, find, hj, hj']
    · by_cases hij : i = j
      · subst hij
        simp [put, find, hi]
      · simp [put, find, hi, hij, ih]

@[simp] theorem get?_set (d : Dict κ α) (k j : κ) (a : α) :
    (d.set k a).get? j = if j = k then some a else d.get? j := find_put k j a d.entries

theorem put_fresh (k : κ) (a : α) : ∀ {l : List (κ × α)}, find k l = none →
    put k a l = l ++ [(k, a)]
  | [], _ => rfl
  | (j, b) :: l, h => by
    rw [find] at h
    split at h
    · cases h
    · rename_i hj
      rw [put, if_neg hj, put_fresh k a h, List.cons_append]

/-- A new key goes to the end. -/
theorem entries_set {d : Dict κ α} {k : κ} (h : d.get? k = none) (a : α) :
    (d.set k a).entries = d.entries ++ [(k, a)] := put_fresh k a h

theorem find_filter_key (q : κ → Bool) (j : κ) : ∀ l : List (κ × α),
    find j (l.filter fun e => q e.1) = if q j then find j l else none
  | [] => by simp [find]
  | (i, b) :: l => by
    have ih := find_filter_key q j l
    by_cases hij : i = j
    · subst hij
      cases hq : q i <;> simp [find, hq, ih]
    · cases hq : q i <;> simp [find, hq, hij, ih]

theorem erase_erase (d : Dict κ α) (k : κ) : (d.erase k).erase k = d.erase k := by
  simp only [erase, List.filter_filter, Bool.and_self]

@[simp] theorem get?_erase (d : Dict κ α) (k j : κ) :
    (d.erase k).get? j = if j = k then none else d.get? j := by
  have h := find_filter_key (fun i => decide (i ≠ k)) j d.entries
  simp only [get?, erase, h]
  by_cases hj : j = k <;> simp [hj]

theorem find_map (f : α → β) (j : κ) : ∀ l : List (κ × α),
    find j (l.map fun e => (e.1, f e.2)) = (find j l).map f
  | [] => rfl
  | (i, b) :: l => by
    have ih := find_map f j l
    by_cases hij : i = j <;> simp [find, hij, ih]

@[simp] theorem get?_mapVal (d : Dict κ α) (f : α → β) (j : κ) :
    (d.mapVal f).get? j = (d.get? j).map f := find_map f j d.entries

theorem find_eq_none {j : κ} : ∀ {l : List (κ × α)}, j ∉ l.map Prod.fst → find j l = none
  | [], _ => rfl
  | (i, b) :: l, h => by
    simp only [List.map_cons, List.mem_cons, not_or] at h
    have hij : ¬ i = j := fun e => h.1 e.symm
    simp [find, hij, find_eq_none h.2]

theorem find_filter (p : κ → α → Bool) (j : κ) : ∀ l : List (κ × α),
    (l.map Prod.fst).Nodup → find j (l.filter fun e => p e.1 e.2) = (find j l).filter (p j)
  | [], _ => rfl
  | (i, b) :: l, h => by
    simp only [List.map_cons, List.nodup_cons] at h
    have ih := find_filter p j l h.2
    by_cases hij : i = j
    · subst hij
      cases hp : p i b
      · have hn : find i (l.filter fun e => p e.1 e.2) = none := by
          rw [ih, find_eq_none h.1]; rfl
        simp [find, Option.filter, hp, hn]
      · simp [find, Option.filter, hp]
    · cases hp : p i b <;> simp [find, hp, hij, ih]

@[simp] theorem get?_filter (d : Dict κ α) (p : κ → α → Bool) (j : κ) :
    (d.filter p).get? j = (d.get? j).filter (p j) := find_filter p j d.entries d.nodup

theorem find_isSome_iff (k : κ) : ∀ l : List (κ × α),
    (find k l).isSome ↔ k ∈ l.map Prod.fst
  | [] => by simp [find]
  | (i, b) :: l => by
    have ih := find_isSome_iff k l
    by_cases hik : i = k
    · simp [find, hik]
    · have hki : ¬ k = i := fun h => hik h.symm
      simp only [find, if_neg hik, List.map_cons, List.mem_cons, hki, false_or, ih]

/-- The keys are the domain of the map. -/
theorem mem_keys (d : Dict κ α) (k : κ) : k ∈ d.keys ↔ ∃ a, d.get? k = some a := by
  rw [keys, ← find_isSome_iff, Option.isSome_iff_exists]
  rfl

theorem find_of_mem {k : κ} {a : α} : ∀ {l : List (κ × α)}, (l.map Prod.fst).Nodup →
    (k, a) ∈ l → find k l = some a
  | (i, b) :: l, h, hm => by
    simp only [List.map_cons, List.nodup_cons] at h
    rcases List.mem_cons.mp hm with heq | hm
    · cases heq
      simp [find]
    · have hki : ¬ i = k := fun e => h.1 (e ▸ List.mem_map_of_mem (f := Prod.fst) hm)
      simp [find, hki, find_of_mem h.2 hm]

theorem mem_of_find {k : κ} {a : α} : ∀ {l : List (κ × α)}, find k l = some a → (k, a) ∈ l
  | (i, b) :: l, h => by
    by_cases hik : i = k
    · simp only [find, if_pos hik, Option.some.injEq] at h
      subst hik h
      exact List.mem_cons_self
    · simp only [find, if_neg hik] at h
      exact List.mem_cons_of_mem _ (mem_of_find h)

/-- An entry is in the list exactly when the lookup of its key reads it. -/
theorem mem_entries (d : Dict κ α) (k : κ) (a : α) : (k, a) ∈ d.entries ↔ d.get? k = some a :=
  ⟨find_of_mem d.nodup, mem_of_find⟩

/-! ## 3. Dictionaries of lists -/

/-- The list of `k`, empty when `k` has none: `d.get(k) or []`. -/
def lists (d : Dict κ (List α)) (k : κ) : List α := (d.get? k).getD []

/-- `d.setdefault(k, []).append(a)`. -/
def push (d : Dict κ (List α)) (k : κ) (a : α) : Dict κ (List α) := d.set k (d.lists k ++ [a])

@[simp] theorem lists_empty (k : κ) : (∅ : Dict κ (List α)).lists k = [] := rfl

@[simp] theorem lists_push (d : Dict κ (List α)) (k j : κ) (a : α) :
    (d.push k a).lists j = if j = k then d.lists k ++ [a] else d.lists j := by
  unfold lists push
  by_cases h : j = k <;> simp [h, lists]

@[simp] theorem lists_erase (d : Dict κ (List α)) (k j : κ) :
    (d.erase k).lists j = if j = k then [] else d.lists j := by
  unfold lists
  by_cases h : j = k <;> simp [h]

/-- Filtering every list of the dictionary filters the list a lookup reads. -/
@[simp] theorem lists_mapVal_filter (d : Dict κ (List α)) (p : α → Bool) (j : κ) :
    (d.mapVal (List.filter p)).lists j = (d.lists j).filter p := by
  unfold lists
  cases h : d.get? j <;> simp [h]

/-- Dropping the keys whose list is empty is not visible to `lists`. -/
@[simp] theorem lists_filter_nonempty (d : Dict κ (List α)) (j : κ) :
    (d.filter fun _ l => !l.isEmpty).lists j = d.lists j := by
  unfold lists
  cases h : d.get? j with
  | none => simp [h]
  | some l => cases l <;> simp [h, Option.filter]

/-- The keys whose list is not empty. -/
def active (d : Dict κ (List α)) : List κ := (d.filter fun _ l => !l.isEmpty).keys

theorem mem_active (d : Dict κ (List α)) (k : κ) : k ∈ d.active ↔ d.lists k ≠ [] := by
  unfold active lists
  rw [mem_keys]
  cases h : d.get? k with
  | none => simp [h]
  | some l => cases l <;> simp [h, Option.filter]

omit [DecidableEq κ] in
theorem nodup_active (d : Dict κ (List α)) : d.active.Nodup := (d.filter _).nodup

end Dict

/-! ## 4. Memo tables -/

namespace Memo

variable {κ : Type u} {α : Type v} {γ : Type w} [DecidableEq κ]

/-- Return what is kept under `k`, or compute it from `a` and keep it. -/
def lookup (f : α → γ) (m : Dict κ γ) (k : κ) (a : α) : γ × Dict κ γ :=
  match m.get? k with
  | some c => (c, m)
  | none => (f a, m.set k (f a))

/-- Every entry was computed from what its key stands for. -/
def Right (f : α → γ) (means : κ → Option α) (m : Dict κ γ) : Prop :=
  ∀ k c, m.get? k = some c → ∃ a, means k = some a ∧ c = f a

variable {f : α → γ} {means means' : κ → Option α} {m : Dict κ γ} {k : κ} {a : α}

theorem right_empty : Right f means (∅ : Dict κ γ) := by
  intro k c h
  cases h

theorem lookup_of_get? {c : γ} (h : m.get? k = some c) : lookup f m k a = (c, m) := by
  rw [lookup, h]

theorem lookup_of_none (h : m.get? k = none) : lookup f m k a = (f a, m.set k (f a)) := by
  rw [lookup, h]

/-- **A call whose argument is what the key stands for** gets the value of the function. -/
theorem Right.value (h : Right f means m) (hk : means k = some a) : (lookup f m k a).1 = f a := by
  cases hc : m.get? k with
  | none => rw [lookup_of_none hc]
  | some c =>
    obtain ⟨b, hb, rfl⟩ := h k c hc
    rw [hk] at hb
    cases hb
    rw [lookup_of_get? hc]

/-- Such a call keeps the table right. -/
theorem Right.lookup (h : Right f means m) (hk : means k = some a) :
    Right f means (lookup f m k a).2 := by
  cases hc : m.get? k with
  | some c =>
    rw [lookup_of_get? hc]
    exact h
  | none =>
    rw [lookup_of_none hc]
    intro j c hj
    rw [Dict.get?_set] at hj
    split at hj
    · rename_i heq
      cases hj
      exact ⟨a, heq ▸ hk, rfl⟩
    · exact h j c hj

/-- **What is not forgotten must stand for what it stood for.** -/
theorem Right.filter (h : Right f means m) {p : κ → Bool}
    (hp : ∀ k a, m.get? k ≠ none → p k = true → means k = some a → means' k = some a) :
    Right f means' (m.filter fun k _ => p k) := by
  intro k c hk
  rw [Dict.get?_filter, Option.filter_eq_some_iff] at hk
  obtain ⟨a, ha, rfl⟩ := h k c hk.1
  exact ⟨a, hp k a (by rw [hk.1]; simp) hk.2 ha, rfl⟩

end Memo
