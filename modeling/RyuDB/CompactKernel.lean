/-
# Compaction, and the hash strategy as a whole

After `hash_kernel` the groups lie scattered in the table.  `compact_kernel` gives every claimed slot the
next place in two output arrays, with an `atomicAdd` on one counter, and copies the key and the
accumulators there; the host reads the first `distinct` places back (`fusedAggHash`).

The places go to the slots in the order in which the threads come to the counter, so the output has no
order of its own; `fused_agg_hash` says that, however both kernels were interleaved, it is the groups of
the passing rows in some order, which is what the lowering of a query relies on.

A schedule is any list of turns, so nothing about the speed of threads is assumed.  What a thread
knows is what it has read; what is shared changes under it.  The invariant says which slot has which
place, by a function that is extended whenever a slot gets a place, so two threads that take places at
the same time cannot get one.

The second half puts the two kernels together with what the lowering says about groups, for any
number of threads, any order of their steps and any contents of memory that is not initialised.
-/
import RyuDB.HashKernel

namespace RyuDB.Kernels

/-! ## 1. The kernel -/

/-- What `compact_kernel` reads.  Its slot index is an `int` as well. -/
structure CompactLaunch where
  threads : Nat
  pos : 0 < threads
  capacity : Nat
  small : capacity + threads ≤ 2 ^ 31
  nagg : Nat
  key : Nat → Int
  acc : Nat → Nat → Double

/-- What it writes: `out_keys`, `out_acc` and `counter`. -/
structure Packed where
  keys : Nat → Int
  acc : Nat → Nat → Double
  counter : Nat

/-- A place of the output: the key and the accumulators. -/
def Packed.row (m : Packed) (nagg j : Nat) : Int × List Double :=
  (m.keys j, (List.range nagg).map (m.acc j))

/-- Where a thread is: at the head of the loop over its slots, before it writes the key of a slot to its
place, or before it writes an accumulator. -/
inductive CompactPc where
  | slot (s : Nat)
  | writeKey (s idx : Nat)
  | writeAcc (s idx a : Nat)

namespace CompactLaunch

variable (L : CompactLaunch)

/-- One step of a thread. -/
def step (m : Packed) : CompactPc → Option (Packed × CompactPc)
  | .slot s =>
    if s < L.capacity then
      if L.key s = hashEmpty then some (m, .slot (s + L.threads))
      else some ({ m with counter := m.counter + 1 }, .writeKey s m.counter)
    else none
  | .writeKey s idx => some ({ m with keys := Function.update m.keys idx (L.key s) }, .writeAcc s idx 0)
  | .writeAcc s idx a =>
    if a < L.nagg then
      some ({ m with acc := Function.update m.acc idx (Function.update (m.acc idx) a (L.acc s a)) },
        .writeAcc s idx (a + 1))
    else some (m, .slot (s + L.threads))

/-- The counter is zero; the output arrays hold whatever was there. -/
def start (keys : Nat → Int) (acc : Nat → Nat → Double) :
    Threads.State (Fin L.threads) Packed CompactPc where
  mem := ⟨keys, acc, 0⟩
  pc t := .slot t

/-- The state after a schedule. -/
def run (keys : Nat → Int) (acc : Nat → Nat → Double) (l : List (Fin L.threads)) :
    Threads.State (Fin L.threads) Packed CompactPc :=
  Run.run (Threads.act fun _ => L.step) (L.start keys acc) l

/-- Every thread is through. -/
abbrev Finished (c : Threads.State (Fin L.threads) Packed CompactPc) : Prop :=
  Threads.Stopped (fun _ => L.step) c

/-- The thread that has the slot in its stride. -/
def owner (s : Nat) : Fin L.threads := ⟨s % L.threads, Nat.mod_lt _ L.pos⟩

/-- What a step can be. -/
inductive Moves (m : Packed) : CompactPc → Packed → CompactPc → Prop
  | skip {s : Nat} (hs : s < L.capacity) (hk : L.key s = hashEmpty) :
      Moves m (.slot s) m (.slot (s + L.threads))
  | take {s : Nat} (hs : s < L.capacity) (hk : L.key s ≠ hashEmpty) :
      Moves m (.slot s) { m with counter := m.counter + 1 } (.writeKey s m.counter)
  | writeKey {s idx : Nat} : Moves m (.writeKey s idx)
      { m with keys := Function.update m.keys idx (L.key s) } (.writeAcc s idx 0)
  | writeAcc {s idx a : Nat} (ha : a < L.nagg) : Moves m (.writeAcc s idx a)
      { m with acc := Function.update m.acc idx (Function.update (m.acc idx) a (L.acc s a)) }
      (.writeAcc s idx (a + 1))
  | close {s idx a : Nat} (ha : ¬ a < L.nagg) : Moves m (.writeAcc s idx a) m (.slot (s + L.threads))

variable {L}

theorem moves_of_step {m m' : Packed} {p p' : CompactPc} (h : L.step m p = some (m', p')) :
    L.Moves m p m' p' := by
  cases p with
  | slot s =>
    simp only [step] at h
    split at h
    · rename_i hs
      split at h <;> rename_i hk <;> cases h
      · exact .skip hs hk
      · exact .take hs hk
    · cases h
  | writeKey s idx =>
    cases h
    exact .writeKey
  | writeAcc s idx a =>
    simp only [step] at h
    split at h <;> rename_i ha <;> cases h
    · exact .writeAcc ha
    · exact .close ha

end CompactLaunch

/-! ## 2. What has been written -/

namespace CompactPc

/-- The slot a thread is at. -/
def current : CompactPc → Nat
  | .slot s | .writeKey s _ | .writeAcc s _ _ => s

/-- The place the thread writes to. -/
def index? : CompactPc → Option Nat
  | .slot _ => none
  | .writeKey _ idx | .writeAcc _ idx _ => some idx

/-- The slot has a place. -/
def taken (p : CompactPc) (s : Nat) : Prop := s < p.current ∨ s = p.current ∧ p.index? ≠ none

/-- The key of the slot is written. -/
def keyed (p : CompactPc) (s : Nat) : Prop := s < p.current ∨ ∃ idx a, p = .writeAcc s idx a

/-- The accumulator of the slot is written. -/
def did (p : CompactPc) (s a : Nat) : Prop :=
  s < p.current ∨ ∃ idx b, p = .writeAcc s idx b ∧ a < b

end CompactPc

namespace CompactLaunch

variable (L : CompactLaunch)

/-- The claimed slots of the table. -/
def occupied (s : Nat) : Prop := s < L.capacity ∧ L.key s ≠ hashEmpty

/-- What a thread knows where it is. -/
def Knows (t : Fin L.threads) (p : CompactPc) : Prop :=
  L.owner p.current = t ∧ (p.index? ≠ none → L.occupied p.current)

/-- Claimed slots with a place. -/
def placed (pc : Fin L.threads → CompactPc) (s : Nat) : Prop :=
  L.occupied s ∧ (pc (L.owner s)).taken s

/-- **Every slot with a place has one of its own**, `f`, below the counter, and what has been written is
there. -/
structure Inv (f : Nat → Nat) (c : Threads.State (Fin L.threads) Packed CompactPc) : Prop where
  knows : ∀ t, L.Knows t (c.pc t)
  index : ∀ t idx, (c.pc t).index? = some idx → f (c.pc t).current = idx
  inj : ∀ s s', L.placed c.pc s → L.placed c.pc s' → f s = f s' → s = s'
  onto : ∀ j, j < c.mem.counter ↔ ∃ s, L.placed c.pc s ∧ f s = j
  keys : ∀ s, L.occupied s → (c.pc (L.owner s)).keyed s → c.mem.keys (f s) = L.key s
  accs : ∀ s, L.occupied s → ∀ a < L.nagg, (c.pc (L.owner s)).did s a →
    c.mem.acc (f s) a = L.acc s a

variable {L} {c : Threads.State (Fin L.threads) Packed CompactPc} {t : Fin L.threads}
  {m m' : Packed} {p p' : CompactPc} {f : Nat → Nat}

/-- A thread that goes on to its next slot leaves the slot behind. -/
theorem lt_next {s s₀ : Nat} (h : L.owner s = L.owner s₀) :
    s < s₀ + L.threads ↔ s < s₀ ∨ s = s₀ :=
  Threads.before_next L.pos (congrArg Fin.val h)

theorem owner_next (s : Nat) : L.owner (s + L.threads) = L.owner s := by
  unfold owner
  simp

/-- What is said of a slot changes only through the thread that has it. -/
theorem transfer {R : CompactPc → Nat → Prop} (pc : Fin L.threads → CompactPc) {P : Nat → Prop}
    (h : ∀ s, L.owner s = t → (R p' s ↔ R (pc t) s ∨ P s)) (hP : ∀ s, P s → L.owner s = t) (s : Nat) :
    R (Function.update pc t p' (L.owner s)) s ↔ R (pc (L.owner s)) s ∨ P s := by
  by_cases ho : L.owner s = t
  · rw [ho, Function.update_self]
    exact h s ho
  · rw [Function.update_of_ne ho]
    exact ⟨Or.inl, fun hor => hor.resolve_right fun hp => ho (hP s hp)⟩

/-- What a thread knows after its step. -/
theorem Moves.knows (h : L.Moves m p m' p') (ht : L.Knows t p) : L.Knows t p' := by
  cases h with
  | skip hs hk => exact ⟨(owner_next _).trans ht.1, fun h => absurd rfl h⟩
  | take hs hk => exact ⟨ht.1, fun _ => ⟨hs, hk⟩⟩
  | writeKey => exact ⟨ht.1, fun _ => ht.2 (by simp [CompactPc.index?])⟩
  | writeAcc ha => exact ⟨ht.1, fun _ => ht.2 (by simp [CompactPc.index?])⟩
  | close ha => exact ⟨(owner_next _).trans ht.1, fun h => absurd rfl h⟩

/-- What a step adds to what has been done. -/
structure Adds (L : CompactLaunch) (t : Fin L.threads) (p p' : CompactPc)
    (takes keys : Nat → Prop) (accs : Nat → Nat → Prop) : Prop where
  taken : ∀ s, L.owner s = t → (p'.taken s ↔ p.taken s ∨ takes s)
  keyed : ∀ s, L.owner s = t → (p'.keyed s ↔ p.keyed s ∨ keys s)
  did : ∀ s, L.owner s = t → ∀ a < L.nagg, (p'.did s a ↔ p.did s a ∨ accs s a)

theorem adds_skip {s₀ : Nat} (h : L.owner s₀ = t) :
    Adds L t (.slot s₀) (.slot (s₀ + L.threads)) (· = s₀) (· = s₀) fun s _ => s = s₀ where
  taken s hs := by
    have hlt := lt_next (hs.trans h.symm)
    simp [CompactPc.taken, CompactPc.current, CompactPc.index?, hlt]
  keyed s hs := by
    have hlt := lt_next (hs.trans h.symm)
    simp [CompactPc.keyed, CompactPc.current, hlt]
  did s hs a _ := by
    have hlt := lt_next (hs.trans h.symm)
    simp [CompactPc.did, CompactPc.current, hlt]

theorem adds_take (s₀ idx : Nat) : Adds L t (.slot s₀) (.writeKey s₀ idx) (· = s₀) (fun _ => False)
    fun _ _ => False where
  taken s _ := by simp [CompactPc.taken, CompactPc.current, CompactPc.index?]
  keyed s _ := by simp [CompactPc.keyed, CompactPc.current]
  did s _ a _ := by simp [CompactPc.did, CompactPc.current]

theorem adds_writeKey (s₀ idx : Nat) : Adds L t (.writeKey s₀ idx) (.writeAcc s₀ idx 0)
    (fun _ => False) (· = s₀) fun _ _ => False where
  taken s _ := by simp [CompactPc.taken, CompactPc.current, CompactPc.index?]
  keyed s _ := by simp [CompactPc.keyed, CompactPc.current, eq_comm]
  did s _ a _ := by simp [CompactPc.did, CompactPc.current]

theorem adds_writeAcc (s₀ idx b : Nat) : Adds L t (.writeAcc s₀ idx b) (.writeAcc s₀ idx (b + 1))
    (fun _ => False) (fun _ => False) fun s a => s = s₀ ∧ a = b where
  taken s _ := by simp [CompactPc.taken, CompactPc.current, CompactPc.index?]
  keyed s _ := by simp [CompactPc.keyed, CompactPc.current]
  did s _ a _ := by
    simp only [CompactPc.did, CompactPc.current, CompactPc.writeAcc.injEq]
    constructor
    · rintro (h | ⟨idx', b', ⟨rfl, rfl, rfl⟩, hb⟩)
      · exact Or.inl (Or.inl h)
      · rcases Nat.lt_succ_iff_lt_or_eq.mp hb with hb | rfl
        · exact Or.inl (Or.inr ⟨idx, b, ⟨rfl, rfl, rfl⟩, hb⟩)
        · exact Or.inr ⟨rfl, rfl⟩
    · rintro ((h | ⟨idx', b', ⟨rfl, rfl, rfl⟩, hb⟩) | ⟨rfl, rfl⟩)
      · exact Or.inl h
      · exact Or.inr ⟨idx, b + 1, ⟨rfl, rfl, rfl⟩, by omega⟩
      · exact Or.inr ⟨idx, a + 1, ⟨rfl, rfl, rfl⟩, by omega⟩

theorem adds_close {s₀ idx b : Nat} (h : L.owner s₀ = t) (hb : ¬ b < L.nagg) :
    Adds L t (.writeAcc s₀ idx b) (.slot (s₀ + L.threads)) (fun _ => False) (fun _ => False)
      fun _ _ => False where
  taken s hs := by
    have hlt := lt_next (hs.trans h.symm)
    simp [CompactPc.taken, CompactPc.current, CompactPc.index?, hlt]
  keyed s hs := by
    have hlt := lt_next (hs.trans h.symm)
    simp [CompactPc.keyed, CompactPc.current, hlt, eq_comm]
  did s hs a ha := by
    have hlt := lt_next (hs.trans h.symm)
    have hab : a < b := by omega
    simp [CompactPc.did, CompactPc.current, hlt, hab, eq_comm]

/-! ## 3. A step keeps the invariant -/

theorem Inv.knows_step (h : L.Inv f c) (hp : L.Knows t p') (u : Fin L.threads) :
    L.Knows u (Function.update c.pc t p' u) := by
  by_cases hu : u = t
  · rw [hu, Function.update_self]
    exact hp
  · rw [Function.update_of_ne hu]
    exact h.knows u

/-- A thread that has a place keeps it. -/
theorem Inv.index_step (h : L.Inv f c) (hp : ∀ idx, p'.index? = some idx → f p'.current = idx)
    (u : Fin L.threads) (idx : Nat) (hu : (Function.update c.pc t p' u).index? = some idx) :
    f (Function.update c.pc t p' u).current = idx := by
  by_cases hut : u = t
  · rw [hut, Function.update_self] at hu ⊢
    exact hp idx hu
  · rw [Function.update_of_ne hut] at hu ⊢
    exact h.index u idx hu

/-- No slot is given a place. -/
theorem Inv.placed_step {takes keys : Nat → Prop} {accs : Nat → Nat → Prop}
    (ha : Adds L t (c.pc t) p' takes keys accs) (hno : ∀ s, L.occupied s → ¬ takes s) (s : Nat) :
    L.placed (Function.update c.pc t p') s ↔ L.placed c.pc s := by
  unfold placed
  refine and_congr_right fun hocc => ?_
  by_cases ho : L.owner s = t
  · rw [ho, Function.update_self, ha.taken s ho]
    exact ⟨fun h => h.resolve_right (hno s hocc), Or.inl⟩
  · rw [Function.update_of_ne ho]

/-- **A step that moves on.** -/
theorem Inv.idle (h : L.Inv f c) {takes keys : Nat → Prop} {accs : Nat → Nat → Prop}
    (ha : Adds L t (c.pc t) p' takes keys accs) (hp : L.Knows t p') (hnone : p'.index? = none)
    (htakes : ∀ s, L.occupied s → ¬ takes s) (hkeys : ∀ s, L.occupied s → ¬ keys s)
    (haccs : ∀ s, L.occupied s → ∀ a, ¬ accs s a) :
    L.Inv f ⟨c.mem, Function.update c.pc t p'⟩ where
  knows := h.knows_step hp
  index := h.index_step fun idx hidx => by
    rw [hnone] at hidx
    cases hidx
  inj s s' hs hs' := h.inj s s' ((placed_step ha htakes s).mp hs) ((placed_step ha htakes s').mp hs')
  onto j := by
    rw [h.onto j]
    exact exists_congr fun s => and_congr_left' (placed_step ha htakes s).symm
  keys s hocc hkeyed := by
    refine h.keys s hocc ?_
    change (Function.update c.pc t p' (L.owner s)).keyed s at hkeyed
    by_cases ho : L.owner s = t
    · rw [ho, Function.update_self, ha.keyed s ho] at hkeyed
      rw [ho]
      exact hkeyed.resolve_right (hkeys s hocc)
    · rwa [Function.update_of_ne ho] at hkeyed
  accs s hocc a hlt hdid := by
    refine h.accs s hocc a hlt ?_
    change (Function.update c.pc t p' (L.owner s)).did s a at hdid
    by_cases ho : L.owner s = t
    · rw [ho, Function.update_self, ha.did s ho a hlt] at hdid
      rw [ho]
      exact hdid.resolve_right (haccs s hocc a)
    · rwa [Function.update_of_ne ho] at hdid

theorem keyed_taken {s : Nat} (h : p.keyed s) : p.taken s := by
  rcases h with h | ⟨idx, a, rfl⟩
  · exact Or.inl h
  · exact Or.inr ⟨rfl, by simp [CompactPc.index?]⟩

theorem did_taken {s a : Nat} (h : p.did s a) : p.taken s := by
  rcases h with h | ⟨idx, b, rfl, -⟩
  · exact Or.inl h
  · exact Or.inr ⟨rfl, by simp [CompactPc.index?]⟩

/-- **A slot takes the next place.** -/
theorem Inv.take {s₀ : Nat} (h : L.Inv f c) (hpc : c.pc t = .slot s₀) (hocc : L.occupied s₀) :
    L.Inv (Function.update f s₀ c.mem.counter) ⟨{ c.mem with counter := c.mem.counter + 1 },
      Function.update c.pc t (.writeKey s₀ c.mem.counter)⟩ := by
  have hown : L.owner s₀ = t := by
    have hk := (h.knows t).1
    rwa [hpc] at hk
  have ha : Adds L t (c.pc t) (.writeKey s₀ c.mem.counter) (· = s₀) (fun _ => False)
      fun _ _ => False := by
    rw [hpc]
    exact adds_take s₀ _
  have hfresh : ¬ L.placed c.pc s₀ := by
    rintro ⟨-, htaken⟩
    rw [hown, hpc] at htaken
    simp [CompactPc.taken, CompactPc.current, CompactPc.index?] at htaken
  have hplaced : ∀ s, L.placed (Function.update c.pc t (.writeKey s₀ c.mem.counter)) s ↔
      L.placed c.pc s ∨ s = s₀ := by
    intro s
    have htaken := transfer (R := CompactPc.taken) c.pc (P := (· = s₀)) ha.taken
      (fun s hs => hs ▸ hown) s
    unfold placed
    rw [htaken]
    constructor
    · rintro ⟨hs, ht | rfl⟩
      · exact Or.inl ⟨hs, ht⟩
      · exact Or.inr rfl
    · rintro (⟨hs, ht⟩ | rfl)
      · exact ⟨hs, Or.inl ht⟩
      · exact ⟨hocc, Or.inr rfl⟩
  -- the slots that had a place keep theirs, which is not the new one
  have hold : ∀ s, L.placed c.pc s →
      Function.update f s₀ c.mem.counter s = f s ∧ f s < c.mem.counter := by
    intro s hs
    refine ⟨Function.update_of_ne ?_ _ _, (h.onto _).mpr ⟨s, hs, rfl⟩⟩
    rintro rfl
    exact hfresh hs
  refine ⟨h.knows_step ⟨hown, fun _ => hocc⟩, fun u idx hu => ?_, fun s s' hs hs' heq => ?_,
    fun j => ?_, fun s hs hkeyed => ?_, fun s hs a hlt hdid => ?_⟩
  · by_cases hut : u = t
    · simp only [hut, Function.update_self, CompactPc.index?, Option.some.injEq] at hu
      simp only [hut, Function.update_self, CompactPc.current]
      exact hu
    · simp only [Function.update_of_ne hut] at hu ⊢
      have hne : (c.pc u).current ≠ s₀ := by
        intro heq
        exact hut (((h.knows u).1.symm.trans (congrArg L.owner heq)).trans hown)
      rw [Function.update_of_ne hne]
      exact h.index u idx hu
  · rcases (hplaced s).mp hs with hp | hp <;> rcases (hplaced s').mp hs' with hp' | hp'
    · rw [(hold s hp).1, (hold s' hp').1] at heq
      exact h.inj s s' hp hp' heq
    · rw [hp', (hold s hp).1, Function.update_self] at heq
      have := (hold s hp).2
      omega
    · rw [hp, (hold s' hp').1, Function.update_self] at heq
      have := (hold s' hp').2
      omega
    · exact hp.trans hp'.symm
  · change j < c.mem.counter + 1 ↔ _
    constructor
    · intro hj
      rcases Nat.lt_succ_iff_lt_or_eq.mp hj with hj | rfl
      · obtain ⟨s, hs, hfs⟩ := (h.onto j).mp hj
        exact ⟨s, (hplaced s).mpr (Or.inl hs), (hold s hs).1.trans hfs⟩
      · exact ⟨s₀, (hplaced s₀).mpr (Or.inr rfl), Function.update_self _ _ _⟩
    · rintro ⟨s, hs, hfs⟩
      rcases (hplaced s).mp hs with hs | rfl
      · rw [(hold s hs).1] at hfs
        have := (hold s hs).2
        omega
      · rw [Function.update_self] at hfs
        omega
  · have hk : (c.pc (L.owner s)).keyed s := by
      have := (transfer (R := CompactPc.keyed) c.pc (P := fun _ => False) ha.keyed
        (fun _ hf => hf.elim) s).mp hkeyed
      exact this.resolve_right id
    change c.mem.keys (Function.update f s₀ c.mem.counter s) = L.key s
    rw [(hold s ⟨hs, keyed_taken hk⟩).1]
    exact h.keys s hs hk
  · have hd : (c.pc (L.owner s)).did s a := by
      have := (transfer (R := fun p s => p.did s a) c.pc (P := fun _ => False)
        (fun s hs => ha.did s hs a hlt) (fun _ hf => hf.elim) s).mp hdid
      exact this.resolve_right id
    change c.mem.acc (Function.update f s₀ c.mem.counter s) a = L.acc s a
    rw [(hold s ⟨hs, did_taken hd⟩).1]
    exact h.accs s hs a hlt hd

/-- A thread that writes to a place writes for the slot that has it. -/
theorem Inv.writer (h : L.Inv f c) {s i : Nat} (hcur : (c.pc t).current = s)
    (hidx : (c.pc t).index? = some i) : L.owner s = t ∧ L.placed c.pc s ∧ f s = i := by
  have hown : L.owner s = t := hcur ▸ (h.knows t).1
  refine ⟨hown, ⟨hcur ▸ (h.knows t).2 (by rw [hidx]; simp), ?_⟩, hcur ▸ h.index t i hidx⟩
  rw [hown]
  exact Or.inr ⟨hcur.symm, by rw [hidx]; simp⟩

/-- **A key is written.** -/
theorem Inv.writeKey {s₀ idx : Nat} (h : L.Inv f c) (hpc : c.pc t = .writeKey s₀ idx) :
    L.Inv f ⟨{ c.mem with keys := Function.update c.mem.keys idx (L.key s₀) },
      Function.update c.pc t (.writeAcc s₀ idx 0)⟩ := by
  obtain ⟨hown, hplaced, rfl⟩ := h.writer (t := t) (s := s₀) (i := idx) (by rw [hpc]; rfl)
    (by rw [hpc]; rfl)
  have ha : Adds L t (c.pc t) (.writeAcc s₀ (f s₀) 0) (fun _ => False) (· = s₀)
      fun _ _ => False := by
    rw [hpc]
    exact adds_writeKey s₀ _
  have hsame := placed_step ha fun _ _ => id
  refine ⟨h.knows_step ⟨hown, fun _ => hplaced.1⟩, h.index_step fun idx hidx => ?_,
    fun s s' hs hs' => h.inj s s' ((hsame s).mp hs) ((hsame s').mp hs'), fun j => ?_,
    fun s hs hkeyed => ?_, fun s hs a hlt hdid => ?_⟩
  · exact Option.some.inj hidx
  · rw [h.onto j]
    exact exists_congr fun s => and_congr_left' (hsame s).symm
  · change Function.update c.mem.keys (f s₀) (L.key s₀) (f s) = L.key s
    rcases (transfer (R := CompactPc.keyed) c.pc (P := (· = s₀)) ha.keyed
      (fun s hs => hs ▸ hown) s).mp hkeyed with hk | rfl
    · by_cases heq : s = s₀
      · rw [heq, Function.update_self]
      · rw [Function.update_of_ne fun hf => heq (h.inj s s₀ ⟨hs, keyed_taken hk⟩ hplaced hf)]
        exact h.keys s hs hk
    · rw [Function.update_self]
  · refine h.accs s hs a hlt ?_
    exact ((transfer (R := fun p s => p.did s a) c.pc (P := fun _ => False)
      (fun s hs => ha.did s hs a hlt) (fun _ hf => hf.elim) s).mp hdid).resolve_right id

/-- **An accumulator is written.** -/
theorem Inv.writeAcc {s₀ idx b : Nat} (h : L.Inv f c) (hpc : c.pc t = .writeAcc s₀ idx b) :
    L.Inv f ⟨{ c.mem with
        acc := Function.update c.mem.acc idx (Function.update (c.mem.acc idx) b (L.acc s₀ b)) },
      Function.update c.pc t (.writeAcc s₀ idx (b + 1))⟩ := by
  obtain ⟨hown, hplaced, rfl⟩ := h.writer (t := t) (s := s₀) (i := idx) (by rw [hpc]; rfl)
    (by rw [hpc]; rfl)
  have ha : Adds L t (c.pc t) (.writeAcc s₀ (f s₀) (b + 1)) (fun _ => False) (fun _ => False)
      fun s a => s = s₀ ∧ a = b := by
    rw [hpc]
    exact adds_writeAcc s₀ _ b
  have hsame := placed_step ha fun _ _ => id
  refine ⟨h.knows_step ⟨hown, fun _ => hplaced.1⟩, h.index_step fun idx hidx => ?_,
    fun s s' hs hs' => h.inj s s' ((hsame s).mp hs) ((hsame s').mp hs'), fun j => ?_,
    fun s hs hkeyed => ?_, fun s hs a hlt hdid => ?_⟩
  · exact Option.some.inj hidx
  · rw [h.onto j]
    exact exists_congr fun s => and_congr_left' (hsame s).symm
  · refine h.keys s hs ?_
    exact ((transfer (R := CompactPc.keyed) c.pc (P := fun _ => False) ha.keyed
      (fun _ hf => hf.elim) s).mp hkeyed).resolve_right id
  · change Function.update c.mem.acc (f s₀) (Function.update (c.mem.acc (f s₀)) b (L.acc s₀ b)) (f s) a
      = L.acc s a
    rcases (transfer (R := fun p s => p.did s a) c.pc (P := fun s => s = s₀ ∧ a = b)
      (fun s hs => ha.did s hs a hlt) (fun s hs => hs.1 ▸ hown) s).mp hdid with hd | ⟨rfl, rfl⟩
    · by_cases heq : s = s₀
      · subst heq
        rw [Function.update_self]
        by_cases hab : a = b
        · rw [hab, Function.update_self]
        · rw [Function.update_of_ne hab]
          exact h.accs s hs a hlt hd
      · rw [Function.update_of_ne fun hf => heq (h.inj s s₀ ⟨hs, did_taken hd⟩ hplaced hf)]
        exact h.accs s hs a hlt hd
    · rw [Function.update_self, Function.update_self]

/-- **One step.** -/
theorem Inv.step (h : L.Inv f c) (hm : L.Moves c.mem (c.pc t) m' p') :
    ∃ f', L.Inv f' ⟨m', Function.update c.pc t p'⟩ := by
  have hk := h.knows t
  have hk' := hm.knows hk
  generalize hpc : c.pc t = p at hm hk
  cases hm with
  | @skip s hs hkey =>
    have hne : ∀ s', L.occupied s' → ¬ s' = s := by
      rintro s' hocc rfl
      exact hocc.2 hkey
    have hown : L.owner s = t := hk.1
    have ha := adds_skip hown
    rw [← hpc] at ha
    exact ⟨f, h.idle ha hk' rfl hne hne fun s' hs' _ => hne s' hs'⟩
  | take hs hkey => exact ⟨_, h.take hpc ⟨hs, hkey⟩⟩
  | writeKey => exact ⟨f, h.writeKey hpc⟩
  | writeAcc => exact ⟨f, h.writeAcc hpc⟩
  | @close s idx b hb =>
    have hown : L.owner s = t := hk.1
    have ha := @adds_close L t s idx b hown hb
    rw [← hpc] at ha
    exact ⟨f, h.idle ha hk' rfl (fun _ _ => id) (fun _ _ => id) fun _ _ _ => id⟩

theorem inv_start (keys : Nat → Int) (acc : Nat → Nat → Double) : L.Inv id (L.start keys acc) := by
  have hlt : ∀ s, ¬ s < s % L.threads := fun s => Nat.not_lt.mpr (Nat.mod_le _ _)
  have hnone : ∀ s, ¬ L.placed (L.start keys acc).pc s := by
    rintro s ⟨-, h | ⟨-, h⟩⟩
    · exact hlt s h
    · exact h rfl
  refine ⟨fun t => ⟨Fin.ext (Nat.mod_eq_of_lt t.isLt), fun h => absurd rfl h⟩,
    fun t idx h => (by cases h), fun s _ hs => absurd hs (hnone s), fun j => ?_,
    fun s _ h => ?_, fun s _ a _ h => ?_⟩
  · constructor
    · intro hj
      cases hj
    · rintro ⟨s, hs, -⟩
      exact absurd hs (hnone s)
  · rcases h with h | ⟨idx, a, h⟩
    · exact absurd h (hlt s)
    · cases h
  · rcases h with h | ⟨idx, b, h, -⟩
    · exact absurd h (hlt s)
    · cases h

/-- **Every schedule.** -/
theorem inv_run (keys : Nat → Int) (acc : Nat → Nat → Double) (l : List (Fin L.threads)) :
    ∃ f, L.Inv f (L.run keys acc l) :=
  Threads.run_invariant (P := fun c => ∃ f, L.Inv f c)
    (fun _ _ _ _ ⟨_, h⟩ hs => h.step (moves_of_step hs)) ⟨id, inv_start keys acc⟩ l

/-! ## 4. The output -/

theorem slot_of_stopped (h : L.step m p = none) : ∃ s, p = .slot s ∧ L.capacity ≤ s := by
  cases p with
  | slot s =>
    refine ⟨s, rfl, Nat.not_lt.mp fun hs => ?_⟩
    simp only [step, if_pos hs] at h
    split at h <;> cases h
  | writeKey s idx => cases h
  | writeAcc s idx a =>
    simp only [step] at h
    split at h <;> cases h

/-- **The output is what the table holds, in some order.** -/
theorem Inv.packed (h : L.Inv f c) (hstop : L.Finished c) :
    ((List.range c.mem.counter).map (c.mem.row L.nagg)).Perm
      (((List.range L.capacity).filter fun s => L.key s ≠ hashEmpty).map fun s =>
        (L.key s, (List.range L.nagg).map (L.acc s))) := by
  have hall : ∀ s, L.occupied s → s < (c.pc (L.owner s)).current := by
    intro s hs
    obtain ⟨s', hpc, hle⟩ := slot_of_stopped (hstop (L.owner s))
    rw [hpc]
    exact Nat.lt_of_lt_of_le hs.1 hle
  have hplaced : ∀ s, L.occupied s → L.placed c.pc s := fun s hs => ⟨hs, Or.inl (hall s hs)⟩
  have hmem : ∀ s, s ∈ (List.range L.capacity).filter (fun s => L.key s ≠ hashEmpty) ↔
      L.occupied s := by
    intro s
    simp [occupied]
  have hplaces : (List.range c.mem.counter).Perm
      (((List.range L.capacity).filter fun s => L.key s ≠ hashEmpty).map f) := by
    have hnd : (((List.range L.capacity).filter fun s => L.key s ≠ hashEmpty).map f).Nodup := by
      refine List.Nodup.map_on (fun s hs s' hs' => ?_) (List.nodup_range.filter _)
      exact h.inj s s' (hplaced s ((hmem s).mp hs)) (hplaced s' ((hmem s').mp hs'))
    refine (List.perm_ext_iff_of_nodup List.nodup_range hnd).mpr fun j => ?_
    rw [List.mem_range, h.onto j, List.mem_map]
    constructor
    · rintro ⟨s, hs, hfs⟩
      exact ⟨s, (hmem s).mpr hs.1, hfs⟩
    · rintro ⟨s, hs, hfs⟩
      exact ⟨s, hplaced s ((hmem s).mp hs), hfs⟩
  refine (hplaces.map _).trans ?_
  rw [List.map_map]
  refine List.Perm.of_eq (List.map_congr_left fun s hs => ?_)
  have hocc := (hmem s).mp hs
  have haccs : ∀ a ∈ List.range L.nagg, c.mem.acc (f s) a = L.acc s a := fun a ha =>
    h.accs s hocc a (List.mem_range.mp ha) (Or.inl (hall s hocc))
  change (c.mem.keys (f s), (List.range L.nagg).map (c.mem.acc (f s))) = _
  rw [h.keys s hocc (Or.inl (hall s hocc)), List.map_congr_left haccs]

end CompactLaunch

/-! ## 5. The hash strategy of `fused_agg` -/

/-- The groups that a table holds. -/
theorem HashLaunch.Grouped.table {H : HashLaunch} {m : Mem} (h : H.Grouped m) (hk : H.Keyed) :
    (((List.range H.capacity).filter fun s => m.key s ≠ hashEmpty).map fun s =>
      (m.key s, (List.range H.nagg).map (m.acc s))).Perm
    (H.keys.map fun k => (k, (List.range H.nagg).map fun a =>
      (H.kind a).folded (H.val a) (H.rowsOf k))) := by
  have hmem : ∀ s, s ∈ (List.range H.capacity).filter (fun s => m.key s ≠ hashEmpty) ↔
      m.key s ≠ hashEmpty := by
    intro s
    simp only [List.mem_filter, List.mem_range, decide_eq_true_eq]
    exact ⟨And.right, fun hs => ⟨h.inside s hs, hs⟩⟩
  have hkeys : (((List.range H.capacity).filter fun s => m.key s ≠ hashEmpty).map m.key).Perm
      H.keys := by
    have hnd : (((List.range H.capacity).filter fun s => m.key s ≠ hashEmpty).map m.key).Nodup := by
      refine List.Nodup.map_on (fun s hs s' hs' heq => ?_) (List.nodup_range.filter _)
      exact h.once s' s ((hmem s').mp hs') heq
    refine (List.perm_ext_iff_of_nodup hnd (List.nodup_dedup _)).mpr fun k => ?_
    rw [List.mem_map]
    constructor
    · rintro ⟨s, hs, rfl⟩
      exact h.fromRows s ((hmem s).mp hs)
    · intro hkmem
      obtain ⟨s, rfl⟩ := h.there k hkmem
      obtain ⟨i, hlt, hi⟩ := HashLaunch.mem_keys.mp hkmem
      exact ⟨s, (hmem s).mpr (hk i hlt _ hi), rfl⟩
  refine (List.Perm.of_eq ?_).trans (hkeys.map _)
  rw [List.map_map]
  refine List.map_congr_left fun s _ => ?_
  have haccs : ∀ a ∈ List.range H.nagg, m.acc s a =
      (H.kind a).folded (H.val a) (H.rowsOf (m.key s)) := fun a ha =>
    h.sums s a (List.mem_range.mp ha)
  rw [List.map_congr_left haccs]
  rfl

/-- The launch of `compact_kernel` on what a run of `hash_kernel` left. -/
def compactLaunch (H : HashLaunch) (m : Mem) (G : Grid H.capacity) : CompactLaunch where
  threads := G.threads
  pos := G.pos
  capacity := H.capacity
  small := G.small
  nagg := H.nagg
  key := m.key
  acc := m.acc

/-- What `fused_agg` returns: the flag, `n_out`, and the rows of the output. -/
structure HashOut where
  overflow : Bool
  nOut : Nat
  rows : List (Int × List Double)

/-- The hash branch of `fused_agg`, for one schedule of each kernel; the output arrays are not
initialised. -/
def fusedAggHash (H : HashLaunch) (l : List (Fin H.threads)) (G : Grid H.capacity)
    (l' : List (Fin G.threads)) (keys : Nat → Int) (acc : Nat → Nat → Double) : HashOut :=
  let m := (H.run l).mem
  if m.overflow = false ∧ 0 < m.distinct then
    let o := ((compactLaunch H m G).run keys acc l').mem
    ⟨m.overflow, m.distinct, (List.range m.distinct).map (o.row H.nagg)⟩
  else ⟨m.overflow, m.distinct, []⟩

/-- The groups of a launch with their accumulators. -/
def HashLaunch.groups (H : HashLaunch) : List (Int × List Double) :=
  H.keys.map fun k => (k, (List.range H.nagg).map fun a => (H.kind a).folded (H.val a) (H.rowsOf k))

/-- **Any interleaving of both kernels.** -/
theorem fusedAggHash_rows {H : HashLaunch} (hk : H.Keyed) {l : List (Fin H.threads)}
    (hstop : H.Finished (H.run l)) {G : Grid H.capacity}
    {l' : List (Fin G.threads)} {keys : Nat → Int} {acc : Nat → Nat → Double}
    (hstop' : (compactLaunch H (H.run l).mem G).Finished
      ((compactLaunch H (H.run l).mem G).run keys acc l'))
    (hdown : (fusedAggHash H l G l' keys acc).overflow = false) :
    (fusedAggHash H l G l' keys acc).rows.Perm H.groups := by
  have hover : (fusedAggHash H l G l' keys acc).overflow = (H.run l).mem.overflow := by
    unfold fusedAggHash
    simp only
    split <;> rfl
  rw [hover] at hdown
  have hg := (HashLaunch.inv_run hk l).grouped hk hstop hdown
  by_cases hpos' : 0 < (H.run l).mem.distinct
  · obtain ⟨f, hinv⟩ := CompactLaunch.inv_run (L := compactLaunch H (H.run l).mem G)
      keys acc l'
    have hpacked := (hinv.packed hstop').trans (hg.table hk)
    have hlen := hpacked.length_eq
    rw [List.length_map, List.length_range, List.length_map, ← hg.distinct] at hlen
    rw [hlen] at hpacked
    unfold fusedAggHash
    simp only
    rw [if_pos ⟨hdown, hpos'⟩]
    exact hpacked
  · have hnone : H.keys = [] := by
      have := hg.distinct
      exact List.eq_nil_of_length_eq_zero (by omega)
    unfold fusedAggHash HashLaunch.groups
    simp only
    rw [if_neg fun h => hpos' h.2, hnone]
    exact List.Perm.refl _

/-! ## 6. The groups of a query -/

/-- `eval_agg` on its `double stack[8]`.  What has no value is `none`: a ninth place and an operator without
its operands are undefined behaviour of the source, and a division by zero leaves the rationals. -/
def evalEight (arr : String → ℚ) : List Fused.Token → List ℚ → Option (List ℚ)
  | [], st => some st
  | .col n :: ts, st => if st.length < 8 then evalEight arr ts (arr n :: st) else none
  | .lit q :: ts, st => if st.length < 8 then evalEight arr ts (q :: st) else none
  | .op o :: ts, b :: a :: st => if o = .div ∧ b = 0 then none else evalEight arr ts (o.apply a b :: st)
  | .op _ :: _, _ => none

/-- The value at the bottom of the stack; an empty program leaves none and counts as zero. -/
def evalAggEight (arr : String → ℚ) (toks : List Fused.Token) : Option ℚ :=
  (evalEight arr toks []).map fun st => st.getLast?.getD 0

/-- A program that stays within the eight places computes what it computes on a stack without bound. -/
theorem evalEight_eq {arr : String → ℚ} {ts : List Fused.Token} {st out : List ℚ}
    (h : evalEight arr ts st = some out) : Fused.evalTokens arr ts st = out := by
  induction ts generalizing st with
  | nil => exact Option.some.inj h
  | cons tok ts ih =>
    cases tok with
    | col n =>
      simp only [evalEight] at h
      split at h
      · exact ih h
      · cases h
    | lit q =>
      simp only [evalEight] at h
      split at h
      · exact ih h
      · cases h
    | op o =>
      match st, h with
      | b :: a :: st, h =>
        simp only [evalEight] at h
        split at h
        · cases h
        · exact ih h

theorem evalAggEight_eq {arr : String → ℚ} {toks : List Fused.Token}
    (h : (evalAggEight arr toks).isSome = true) :
    evalAggEight arr toks = some (Fused.evalAgg arr toks) := by
  unfold evalAggEight at h ⊢
  cases he : evalEight arr toks [] with
  | none =>
    rw [he] at h
    cases h
  | some st =>
    rw [Option.map_some, Fused.evalAgg, evalEight_eq he]

/-- The launch for the aggregates of a query: the visible ones, and a hidden count with an average. -/
def launchOf (D : Fused.Device) (ch : Fused.Child) (aggs : List (Fused.Func × List Fused.Token))
    (G : Grid ch.length) : Launch where
  threads := G.threads
  pos := G.pos
  n := ch.length
  small := G.small
  nagg := aggs.length + if aggs.any fun a => a.1.isAvg then 1 else 0
  kind a := ((aggs[a]?).map fun x => kindOf x.1).getD .count
  eval i a := ((aggs[a]?).bind fun x => evalAggEight (ch.bound D i) x.2).getD 0

/-- The programs of the aggregates have a value at each of these rows. -/
def Evaluates (D : Fused.Device) (ch : Fused.Child) (aggs : List (Fused.Func × List Fused.Token))
    (rows : List Nat) : Prop :=
  ∀ i ∈ rows, ∀ x ∈ aggs, (evalAggEight (ch.bound D i) x.2).isSome = true

instance (D : Fused.Device) (ch : Fused.Child) (aggs : List (Fused.Func × List Fused.Token))
    (rows : List Nat) : Decidable (Evaluates D ch aggs rows) :=
  inferInstanceAs (Decidable (∀ i ∈ rows, ∀ x ∈ aggs, _))

theorem Evaluates.mono {D : Fused.Device} {ch : Fused.Child}
    {aggs : List (Fused.Func × List Fused.Token)} {rows rows' : List Nat}
    (h : Evaluates D ch aggs rows) (hsub : ∀ i ∈ rows', i ∈ rows) : Evaluates D ch aggs rows' :=
  fun i hi => h i (hsub i hi)

/-- What an aggregate does to a cell depends on the values at the rows only. -/
theorem folded_congr {kind : AggKind} {v w : Nat → Double} {rows : List Nat}
    (h : ∀ i ∈ rows, v i = w i) : kind.folded v rows.toFinset = kind.folded w rows.toFinset :=
  Finset.fold_congr fun i hi => h i (List.mem_toFinset.mp hi)

/-- **The cells of a group are its accumulators.** -/
theorem cells_slots (D : Fused.Device) (ch : Fused.Child)
    (aggs : List (Fused.Func × List Fused.Token)) (G : Grid ch.length)
    {rows : List Nat} (hnd : rows.Nodup) (hne : rows ≠ []) (heval : Evaluates D ch aggs rows) :
    let L := launchOf D ch aggs G
    ((List.range L.nagg).map fun a => (L.kind a).folded (L.val a) rows.toFinset) =
      (Fused.slots D ch aggs rows).map ofRat := by
  intro L
  have hvisible : ((List.range aggs.length).map fun a => (L.kind a).folded (L.val a) rows.toFinset) =
      (aggs.map fun a => Fused.accumulate a.1
        (rows.map fun i => Fused.evalAgg (ch.bound D i) a.2)).map ofRat := by
    refine List.ext_getElem (by simp) fun a h₁ h₂ => ?_
    have ha : a < aggs.length := by simpa using h₁
    have hkind : L.kind a = kindOf aggs[a].1 := by
      change ((aggs[a]?).map fun x => kindOf x.1).getD .count = _
      rw [List.getElem?_eq_getElem ha]
      rfl
    have hval : ∀ i ∈ rows, L.val a i = (kindOf aggs[a].1).brings
        (Fused.evalAgg (ch.bound D i) aggs[a].2) := by
      intro i hi
      change (L.kind a).brings
        (((aggs[a]?).bind fun x => evalAggEight (ch.bound D i) x.2).getD 0) = _
      rw [hkind, List.getElem?_eq_getElem ha, Option.bind_some,
        evalAggEight_eq (heval i hi _ (List.getElem_mem ha)), Option.getD_some]
    simp only [List.getElem_map, List.getElem_range]
    rw [folded_congr hval, hkind]
    exact folded_accumulate _ _ hnd hne
  unfold Fused.slots
  change (List.range (aggs.length + if aggs.any fun a => a.1.isAvg then 1 else 0)).map _ = _
  split
  · -- the hidden count
    have hkind : L.kind aggs.length = .count := by
      change ((aggs[aggs.length]?).map fun x => kindOf x.1).getD .count = _
      rw [List.getElem?_eq_none (Nat.le_refl _)]
      rfl
    have hcount := folded_accumulate .count (fun i => L.eval i aggs.length) hnd hne
    rw [List.range_succ, List.map_append, hvisible, List.map_append]
    refine congrArg₂ _ rfl ?_
    simp only [List.map_cons, List.map_nil]
    have hval : L.val aggs.length = fun i =>
        (kindOf .count).brings (L.eval i aggs.length) := by
      funext i
      change (L.kind aggs.length).brings _ = _
      rw [hkind]
      rfl
    rw [hkind, hval]
    refine (congrArg (fun v => [v]) hcount).trans ?_
    simp [Fused.accumulate]
  · rw [Nat.add_zero, hvisible, List.append_nil]

section Query

variable {L : Launch} {capacity : Nat} {hcap : 0 < capacity} {pass : Nat → Bool} {code : Nat → Int}

/-- The keys of a launch of `hash_kernel` without a row of key `-1`. -/
theorem keys_hashLaunch (h : ∀ i < L.n, pass i = true → code i ≠ hashEmpty) :
    (hashLaunch L capacity hcap pass code).keys =
      (((List.range L.n).filter pass).map code).dedup := by
  unfold HashLaunch.keys
  refine congrArg List.dedup ?_
  rw [← List.filterMap_eq_map, ← List.filterMap_eq_filter, List.filterMap_filterMap]
  refine List.filterMap_congr fun i hi => ?_
  change (hashPrep pass code i).sought = _
  unfold hashPrep
  by_cases hp : pass i = true
  · simp [Prep.sought, hp, Option.guard, h i (List.mem_range.mp hi) hp]
  · simp [Prep.sought, hp, Option.guard]

/-- The rows of a key. -/
theorem rowsOf_hashLaunch {k : Int} (hk : k ≠ hashEmpty) :
    (hashLaunch L capacity hcap pass code).rowsOf k =
      (((List.range L.n).filter pass).filter fun i => code i = k).toFinset := by
  ext i
  rw [HashLaunch.mem_rowsOf, List.mem_toFinset, List.mem_filter, List.mem_filter, List.mem_range]
  change i < L.n ∧ hashPrep pass code i = .key k ↔ _
  unfold hashPrep
  by_cases hp : pass i = true
  · by_cases hc : code i = hashEmpty
    · have hne : ¬ hashEmpty = k := fun h => hk h.symm
      simp [hp, hc, hne]
    · simp [hp, hc]
  · simp [hp]

end Query

/-- **The hash strategy of the lowering is what the kernels compute.**  Whatever the order in which the
threads of both kernels took their steps: if the outcome of the table is the one assumed of the device, then
`fused_agg` reports an overflow where the lowering expects one, and otherwise returns the groups it expects,
in some order, with their accumulators. -/
theorem fused_agg_hash (D : Fused.Device) (ch : Fused.Child)
    (preds : List (String × Fused.Cmp × ℚ)) (aggs : List (Fused.Func × List Fused.Token))
    (code : Nat → Int) {capacity : Nat} (hcap : 0 < capacity) (G : Grid ch.length)
    (l : List (Fin G.threads)) (G' : Grid capacity) (l' : List (Fin G'.threads))
    (keys : Nat → Int) (acc : Nat → Nat → Double) :
    let pass := fun i => Fused.passPred (ch.bound D i) preds
    let H := hashLaunch (launchOf D ch aggs G) capacity hcap pass code
    let rows := (List.range ch.length).filter pass
    Evaluates D ch aggs rows →
    H.Finished (H.run l) →
    (compactLaunch H (H.run l).mem G').Finished
      ((compactLaunch H (H.run l).mem G').run keys acc l') →
    D.overflow capacity (rows.map code).dedup = (H.run l).mem.overflow →
    match Fused.hashGroups D capacity code rows with
    | none => (fusedAggHash H l G' l' keys acc).overflow = true
    | some gs => (fusedAggHash H l G' l' keys acc).overflow = false ∧
        (fusedAggHash H l G' l' keys acc).rows.Perm
          (gs.map fun g => (g.1, (Fused.slots D ch aggs g.2).map ofRat)) := by
  intro pass H rows heval hstop hstop' hD
  have hk : H.Keyed := hashLaunch_keyed _ hcap pass code
  have hinv : H.Inv (H.run l) := HashLaunch.inv_run hk l
  have hover : (fusedAggHash H l G' l' keys acc).overflow = (H.run l).mem.overflow := by
    unfold fusedAggHash
    simp only
    split <;> rfl
  unfold Fused.hashGroups
  simp only
  rw [hD]
  split
  · rename_i gs hnone
    split at hnone
    · rename_i hcond
      rw [hover]
      -- a row of key `-1` raises the flag
      by_cases hm : (-1 : Int) ∈ (rows.map code).dedup
      · obtain ⟨i, hi, hcode⟩ := List.mem_map.mp (List.mem_dedup.mp hm)
        obtain ⟨hlt, hp⟩ := List.mem_filter.mp hi
        refine (hinv.overflow_iff hk hstop).mpr ⟨i, List.mem_range.mp hlt, Or.inl ?_⟩
        change hashPrep pass code i = .reject
        unfold hashPrep
        rw [if_pos hp, if_pos (show code i = hashEmpty from hcode)]
      · simpa [hm] using hcond
    · cases hnone
  · rename_i gs hsome
    split at hsome
    · cases hsome
    · rename_i hcond
      cases hsome
      simp only [Bool.or_eq_true, decide_eq_true_eq, not_or, Bool.not_eq_true] at hcond
      obtain ⟨hno, hdown⟩ := hcond
      rw [← hover] at hdown
      refine ⟨hdown, (fusedAggHash_rows hk hstop hstop' hdown).trans (List.Perm.of_eq ?_)⟩
      have hcodes : ∀ i < (launchOf D ch aggs G).n, pass i = true → code i ≠ hashEmpty := by
        intro i hi hp hc
        refine hno (List.mem_dedup.mpr (List.mem_map.mpr ⟨i, List.mem_filter.mpr ⟨?_, hp⟩, hc⟩))
        exact List.mem_range.mpr hi
      unfold HashLaunch.groups
      rw [keys_hashLaunch hcodes, List.map_map]
      refine List.map_congr_left fun k hkmem => ?_
      have hkne : k ≠ hashEmpty := by
        rintro rfl
        exact hno hkmem
      have hne : (rows.filter fun i => code i = k) ≠ [] := by
        obtain ⟨i, hi, hcode⟩ := List.mem_map.mp (List.mem_dedup.mp hkmem)
        exact List.ne_nil_of_mem (List.mem_filter.mpr ⟨hi, by simpa using hcode⟩)
      have hnd : (rows.filter fun i => code i = k).Nodup := (List.nodup_range.filter _).filter _
      have hcells := cells_slots D ch aggs G hnd hne (heval.mono fun i hi => (List.mem_filter.mp hi).1)
      refine congrArg (Prod.mk k) ?_
      rw [rowsOf_hashLaunch hkne]
      exact hcells

/-- A device on which no table overflows. -/
def roomyDevice : Fused.Device where
  real _ _ := 0
  toSeconds _ k := k
  literalSeconds q := q.num
  overflow _ _ := false
  available := true

/-- A frame of three rows. -/
def threeRowFrame : Fused.Child := ⟨3, ∅⟩

/-- Two threads that take turns. -/
def inTurns (n : Nat) : List (Fin 2) := (List.replicate n [0, 1]).flatten

theorem small_four : 4 + 2 ≤ 2 ^ 31 := by decide

/-- Two threads over three rows. -/
def twoOverThree : Grid 3 := ⟨2, Nat.two_pos, small_three⟩

/-- Two threads over four slots. -/
def twoOverFour : Grid 4 := ⟨2, Nat.two_pos, small_four⟩

/-- A count, and the sum of a product of literals. -/
def twoAggs : List (Fused.Func × List Fused.Token) :=
  [(.count, []), (.sum, [.lit 2, .lit 3, .op .mul])]

/-- A table of four slots for the keys 7, 7 and 9. -/
def threeRowsCount : HashLaunch :=
  hashLaunch (launchOf roomyDevice threeRowFrame twoAggs twoOverThree) 4 pos_four
    (fun _ => true) fun i => [7, 7, 9].getD i 0

/-- **The rows of each key are counted and summed.** -/
theorem fused_agg_hash_three :
    (fusedAggHash threeRowsCount (inTurns 24) twoOverFour (inTurns 12) (fun _ => 0)
      (fun _ _ => 0)).rows.Perm [(7, [ofRat 2, ofRat 12]), (9, [ofRat 1, ofRat 6])] := by
  have h := fused_agg_hash roomyDevice threeRowFrame [] twoAggs
    (fun i => [7, 7, 9].getD i 0) pos_four twoOverThree (inTurns 24) twoOverFour (inTurns 12)
    (fun _ => 0) (fun _ _ => 0) (by decide +kernel) (by decide +kernel) (by decide +kernel)
    (by decide +kernel)
  exact h.2.trans (List.Perm.of_eq (by decide +kernel))

end RyuDB.Kernels
