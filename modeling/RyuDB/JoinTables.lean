/-
# Dimension tables and the chain of joins

A star join streams the fact rows past one hash table for each dimension.  `build_ht_kernel` fills a table
from the key and payload columns of a dimension: the thread that claims the slot of a key writes its payload
there, and a thread that finds its key there leaves it.  `probe_agg_kernel` and `probe_hash_agg_kernel` look
the rows up without atomics: the payload found in one table is the key for the next, and a miss drops the row,
or goes on with the mark `-1` where the join preserves the fact side (`chain`).

* `build_ht_finds`: however the threads were interleaved, when the flag is down a lookup finds exactly the keys
  of the dimension, with a payload of one of their rows.
* `chain_joinDims`: over dimensions whose keys are unique, the chain computes the joins of the fact rows with
  the dimensions, inner and outer, one after the other.
-/
import RyuDB.HashKernel

namespace RyuDB.Kernels

/-! ## 1. `build_ht_kernel` -/

/-- A launch of `build_ht_kernel`. -/
structure BuildLaunch where
  threads : Nat
  pos : 0 < threads
  n : Nat
  key : Nat → Int
  payload : Nat → Int
  capacity : Nat
  capacity_pos : 0 < capacity

/-- What it writes: `ht_key`, `ht_payload` and the overflow flag. -/
structure DimTable where
  key : Nat → Int
  payload : Nat → Int
  overflow : Bool

/-- Where a thread is: at the head of the loop over its rows, before the compare-and-swap on a slot, before
it writes the payload to the slot it claimed, or before it raises the flag. -/
inductive BuildPc where
  | row (r : Nat)
  | probe (r slot p : Nat)
  | write (r slot : Nat)
  | reject (r : Nat)

/-- The row a thread is at. -/
def BuildPc.current : BuildPc → Nat
  | .row r | .probe r _ _ | .write r _ | .reject r => r

namespace BuildLaunch

variable (L : BuildLaunch)

/-- One step of a thread. -/
def step (m : DimTable) : BuildPc → Option (DimTable × BuildPc)
  | .row r =>
    if r < L.n then
      if L.key r = hashEmpty then some (m, .reject r)
      else some (m, .probe r (home L.capacity (L.key r)) 0)
    else none
  | .probe r slot p =>
    if p < 64 then
      if m.key slot = hashEmpty then
        some ({ m with key := Function.update m.key slot (L.key r) }, .write r slot)
      else if m.key slot = L.key r then some (m, .row (r + L.threads))
      else some (m, .probe r (nextSlot L.capacity slot) (p + 1))
    else some (m, .reject r)
  | .write r slot =>
    some ({ m with payload := Function.update m.payload slot (L.payload r) }, .row (r + L.threads))
  | .reject r => some ({ m with overflow := true }, .row (r + L.threads))

/-- Every slot is free, and the payloads are whatever was there. -/
def start (payload : Nat → Int) : Threads.State (Fin L.threads) DimTable BuildPc where
  mem := ⟨fun _ => hashEmpty, payload, false⟩
  pc t := .row t

/-- The state after a schedule. -/
def run (payload : Nat → Int) (l : List (Fin L.threads)) :
    Threads.State (Fin L.threads) DimTable BuildPc :=
  Run.run (Threads.act fun _ => L.step) (L.start payload) l

/-- Every thread is through. -/
abbrev Finished (c : Threads.State (Fin L.threads) DimTable BuildPc) : Prop :=
  Threads.Stopped (fun _ => L.step) c

/-- The thread that has the row in its stride. -/
def owner (r : Nat) : Fin L.threads := ⟨r % L.threads, Nat.mod_lt _ L.pos⟩

/-- The row cannot be put into the table. -/
def Refused (m : DimTable) (r : Nat) : Prop :=
  L.key r = hashEmpty ∨ Probing.Tried (layout L.capacity) m.key (L.key r) 64

/-- The key of the row is in the table, or the flag says that it could not be put there. -/
def Settled (m : DimTable) (r : Nat) : Prop :=
  (L.Refused m r ∧ m.overflow = true) ∨ ∃ s, m.key s = L.key r ∧ L.key r ≠ hashEmpty

/-- The slot has the payload of a row with its key. -/
def Paid (m : DimTable) (s : Nat) : Prop :=
  ∃ r < L.n, L.key r = m.key s ∧ m.payload s = L.payload r

/-- What a thread knows where it is. -/
def Knows (m : DimTable) (t : Fin L.threads) : BuildPc → Prop
  | .row r => L.owner r = t
  | .probe r slot p => L.owner r = t ∧ r < L.n ∧ L.key r ≠ hashEmpty ∧ p ≤ 64 ∧
      slot = slotAt L.capacity (L.key r) p ∧ Probing.Tried (layout L.capacity) m.key (L.key r) p
  | .write r slot => L.owner r = t ∧ r < L.n ∧ L.key r ≠ hashEmpty ∧ m.key slot = L.key r
  | .reject r => L.owner r = t ∧ r < L.n ∧ L.Refused m r

/-- **What holds whenever the threads are stopped.** -/
structure Inv (c : Threads.State (Fin L.threads) DimTable BuildPc) : Prop where
  filed : Probing.Filed (layout L.capacity) c.mem.key
  knows : ∀ t, L.Knows c.mem t (c.pc t)
  settled : ∀ r < L.n, r < (c.pc (L.owner r)).current → L.Settled c.mem r
  paid : ∀ s, c.mem.key s ≠ hashEmpty → (∃ t r, c.pc t = .write r s) ∨ L.Paid c.mem s
  raised : c.mem.overflow = true → ∃ r < L.n, L.Refused c.mem r

variable {L} {c : Threads.State (Fin L.threads) DimTable BuildPc} {t : Fin L.threads}
  {m m' : DimTable} {p p' : BuildPc}

/-- What a step can be. -/
inductive Moves (L : BuildLaunch) (m : DimTable) : BuildPc → DimTable → BuildPc → Prop
  | refuse {r : Nat} (hr : r < L.n) (hk : L.key r = hashEmpty) : Moves L m (.row r) m (.reject r)
  | begin {r : Nat} (hr : r < L.n) (hk : L.key r ≠ hashEmpty) :
      Moves L m (.row r) m (.probe r (home L.capacity (L.key r)) 0)
  | claim {r slot p : Nat} (hp : p < 64) (he : m.key slot = hashEmpty) : Moves L m (.probe r slot p)
      { m with key := Function.update m.key slot (L.key r) } (.write r slot)
  | found {r slot p : Nat} (hp : p < 64) (he : m.key slot ≠ hashEmpty) (hk : m.key slot = L.key r) :
      Moves L m (.probe r slot p) m (.row (r + L.threads))
  | collide {r slot p : Nat} (hp : p < 64) (he : m.key slot ≠ hashEmpty) (hk : m.key slot ≠ L.key r) :
      Moves L m (.probe r slot p) m (.probe r (nextSlot L.capacity slot) (p + 1))
  | crowded {r slot p : Nat} (hp : ¬ p < 64) : Moves L m (.probe r slot p) m (.reject r)
  | write {r slot : Nat} : Moves L m (.write r slot)
      { m with payload := Function.update m.payload slot (L.payload r) } (.row (r + L.threads))
  | raise {r : Nat} : Moves L m (.reject r) { m with overflow := true } (.row (r + L.threads))

theorem moves_of_step (h : L.step m p = some (m', p')) : Moves L m p m' p' := by
  cases p with
  | row r =>
    simp only [step] at h
    split at h
    · rename_i hr
      split at h <;> rename_i hk <;> cases h
      · exact .refuse hr hk
      · exact .begin hr hk
    · cases h
  | probe r slot p =>
    simp only [step] at h
    split at h
    · rename_i hp
      split at h
      · rename_i he
        cases h
        exact .claim hp he
      · rename_i he
        split at h <;> rename_i hk <;> cases h
        · exact .found hp he hk
        · exact .collide hp he hk
    · rename_i hp
      cases h
      exact .crowded hp
  | write r slot =>
    cases h
    exact .write
  | reject r =>
    cases h
    exact .raise

/-- The keys that are there stay, and the flag stays up. -/
structure Grows (L : BuildLaunch) (m m' : DimTable) : Prop where
  keys : Probing.Extends (layout L.capacity) m.key m'.key
  flag : m.overflow = true → m'.overflow = true

theorem Moves.grows (h : Moves L m p m' p') : Grows L m m' := by
  cases h with
  | claim hp he => exact ⟨Probing.extends_claim he, id⟩
  | raise => exact ⟨Probing.Extends.refl _ _, fun _ => rfl⟩
  | _ => exact ⟨Probing.Extends.refl _ _, id⟩

theorem Refused.mono {r : Nat} (h : L.Refused m r) (hg : Grows L m m') : L.Refused m' r :=
  h.imp_right fun ht => ht.mono hg.keys

theorem Settled.mono {r : Nat} (h : L.Settled m r) (hg : Grows L m m') : L.Settled m' r := by
  rcases h with ⟨h, hup⟩ | ⟨s, hs, hne⟩
  · exact Or.inl ⟨h.mono hg, hg.flag hup⟩
  · exact Or.inr ⟨s, (hg.keys s (by rw [hs]; exact hne)).trans hs, hne⟩

/-- **What a thread knows does not become wrong** while others go on. -/
theorem Knows.mono (h : L.Knows m t p) (hg : Grows L m m') : L.Knows m' t p := by
  cases p with
  | row r => exact h
  | probe r slot p =>
    obtain ⟨ho, hr, hne, hle, hslot, ht⟩ := h
    exact ⟨ho, hr, hne, hle, hslot, ht.mono hg.keys⟩
  | write r slot =>
    obtain ⟨ho, hr, hne, hs⟩ := h
    exact ⟨ho, hr, hne, (hg.keys slot (by rw [hs]; exact hne)).trans hs⟩
  | reject r =>
    obtain ⟨ho, hr, href⟩ := h
    exact ⟨ho, hr, href.mono hg⟩

theorem Knows.owner (h : L.Knows m t p) : L.owner p.current = t := by
  cases p with
  | row r => exact h
  | probe r slot p => exact h.1
  | write r slot => exact h.1
  | reject r => exact h.1

theorem owner_next (r : Nat) : L.owner (r + L.threads) = L.owner r := by
  unfold BuildLaunch.owner
  simp

/-- What the thread knows after its step. -/
theorem Moves.knows (h : Moves L m p m' p') (ht : L.Knows m t p) : L.Knows m' t p' := by
  cases h with
  | refuse hr hk => exact ⟨ht, hr, Or.inl hk⟩
  | begin hr hk => exact ⟨ht, hr, hk, by omega, rfl, fun m hm => absurd hm (Nat.not_lt_zero m)⟩
  | @claim r slot p hp he =>
    obtain ⟨ho, hr, hne, -⟩ := ht
    exact ⟨ho, hr, hne, Function.update_self slot (L.key r) m.key⟩
  | found hp he hk => exact (owner_next _).trans ht.1
  | collide hp he hk =>
    obtain ⟨ho, hr, hne, -, rfl, htried⟩ := ht
    exact ⟨ho, hr, hne, by omega, rfl, htried.succ he hk⟩
  | crowded hp =>
    obtain ⟨ho, hr, hne, hle, -, htried⟩ := ht
    obtain rfl : _ = 64 := Nat.le_antisymm hle (Nat.not_lt.mp hp)
    exact ⟨ho, hr, Or.inr htried⟩
  | write => exact (owner_next _).trans ht.1
  | raise => exact (owner_next _).trans ht.1

/-- A row that is left behind is settled. -/
theorem Moves.leaves (h : Moves L m p m' p') (ht : L.Knows m t p) :
    p'.current = p.current ∨ p'.current = p.current + L.threads ∧ L.Settled m' p.current := by
  cases h with
  | @found r slot p hp he hk => exact Or.inr ⟨rfl, Or.inr ⟨slot, hk, ht.2.2.1⟩⟩
  | @write r slot => exact Or.inr ⟨rfl, Or.inr ⟨slot, ht.2.2.2, ht.2.2.1⟩⟩
  | @raise r =>
    have hg : Grows L m { m with overflow := true } := Moves.grows (.raise (r := r))
    exact Or.inr ⟨rfl, Or.inl ⟨ht.2.2.mono hg, rfl⟩⟩
  | _ => exact Or.inl rfl

theorem Moves.filed (h : Moves L m p m' p') (ht : L.Knows m t p)
    (hf : Probing.Filed (layout L.capacity) m.key) :
    Probing.Filed (layout L.capacity) m'.key := by
  cases h with
  | claim hp he =>
    obtain ⟨-, -, -, -, rfl, htried⟩ := ht
    exact hf.claim htried hp he
  | _ => exact hf

/-- A claimed slot has a payload, or a thread that is about to write one. -/
theorem Inv.paid_step (h : L.Inv c) (hm : Moves L c.mem (c.pc t) m' p') (s : Nat)
    (hs : m'.key s ≠ hashEmpty) :
    (∃ u r, Function.update c.pc t p' u = .write r s) ∨ L.Paid m' s := by
  have ht := h.knows t
  -- a thread that was about to write still is, unless it is the one that moved
  have hothers : (∀ r, c.pc t ≠ .write r s) → (∃ u r, c.pc u = .write r s) →
      ∃ u r, Function.update c.pc t p' u = .write r s := by
    rintro hnot ⟨u, r, hu⟩
    refine ⟨u, r, ?_⟩
    rw [Function.update_of_ne]
    · exact hu
    · rintro rfl
      exact hnot r hu
  generalize hp : c.pc t = p at hm ht
  cases hm with
  | @claim r slot n hn he =>
    change Function.update c.mem.key slot (L.key r) s ≠ hashEmpty at hs
    by_cases hss : s = slot
    · exact Or.inl ⟨t, r, by rw [Function.update_self, hss]⟩
    · rw [Function.update_of_ne hss] at hs
      rcases h.paid s hs with hw | ⟨q, hq, hkey, hpay⟩
      · exact Or.inl (hothers (fun r hr => by rw [hp] at hr; cases hr) hw)
      · exact Or.inr ⟨q, hq, hkey.trans (Function.update_of_ne hss _ _).symm, hpay⟩
  | @write r slot =>
    change c.mem.key s ≠ hashEmpty at hs
    by_cases hss : s = slot
    · subst hss
      exact Or.inr ⟨r, ht.2.1, ht.2.2.2.symm, Function.update_self _ _ _⟩
    · rcases h.paid s hs with hw | ⟨q, hq, hkey, hpay⟩
      · refine Or.inl (hothers (fun q hq => ?_) hw)
        rw [hp] at hq
        cases hq
        exact hss rfl
      · exact Or.inr ⟨q, hq, hkey, (Function.update_of_ne hss _ _).trans hpay⟩
  | _ =>
    rcases h.paid s hs with hw | hpaid
    · exact Or.inl (hothers (fun r hr => by rw [hp] at hr; cases hr) hw)
    · exact Or.inr hpaid

/-- **One step.** -/
theorem Inv.step (h : L.Inv c) (hm : Moves L c.mem (c.pc t) m' p') :
    L.Inv ⟨m', Function.update c.pc t p'⟩ where
  filed := hm.filed (h.knows t) h.filed
  knows u := by
    by_cases hu : u = t
    · subst hu
      change L.Knows m' u (Function.update c.pc u p' u)
      rw [Function.update_self]
      exact hm.knows (h.knows u)
    · change L.Knows m' u (Function.update c.pc t p' u)
      rw [Function.update_of_ne hu]
      exact (h.knows u).mono hm.grows
  settled r hr hlt := by
    change r < (Function.update c.pc t p' (L.owner r)).current at hlt
    by_cases ho : L.owner r = t
    · rw [ho, Function.update_self] at hlt
      have hown := (h.knows t).owner
      have hmod : r % L.threads = (c.pc t).current % L.threads :=
        congrArg Fin.val (ho.trans hown.symm)
      rcases hm.leaves (h.knows t) with heq | ⟨hnext, hset⟩
      · rw [heq, ← ho] at hlt
        exact (h.settled r hr hlt).mono hm.grows
      · rw [hnext] at hlt
        rcases (Threads.before_next L.pos hmod).mp hlt with hlt | rfl
        · rw [← ho] at hlt
          exact (h.settled r hr hlt).mono hm.grows
        · exact hset
    · rw [Function.update_of_ne ho] at hlt
      exact (h.settled r hr hlt).mono hm.grows
  paid s hs := h.paid_step hm s hs
  raised hup := by
    by_cases hold : c.mem.overflow = true
    · obtain ⟨r, hr, href⟩ := h.raised hold
      exact ⟨r, hr, href.mono hm.grows⟩
    · have ht := h.knows t
      generalize c.pc t = p at hm ht
      have hg := hm.grows
      cases hm with
      | raise => exact ⟨_, ht.2.1, ht.2.2.mono hg⟩
      | _ => exact absurd hup hold

theorem inv_start (payload : Nat → Int) : L.Inv (L.start payload) where
  filed := Probing.filed_empty _
  knows t := Fin.ext (Nat.mod_eq_of_lt t.isLt)
  settled r _ hlt := by
    change r < r % L.threads at hlt
    exact absurd hlt (Nat.not_lt.mpr (Nat.mod_le _ _))
  paid s hs := absurd rfl hs
  raised hup := by cases hup

/-- **Every schedule.** -/
theorem inv_run (payload : Nat → Int) (l : List (Fin L.threads)) : L.Inv (L.run payload l) :=
  Threads.run_invariant (P := L.Inv) (fun _ _ _ _ h hs => h.step (moves_of_step hs))
    (inv_start payload) l

theorem row_of_stopped (h : L.step m p = none) : ∃ r, p = .row r ∧ L.n ≤ r := by
  cases p with
  | row r =>
    refine ⟨r, rfl, Nat.not_lt.mp fun hr => ?_⟩
    simp only [BuildLaunch.step, if_pos hr] at h
    split at h <;> cases h
  | probe r slot p =>
    simp only [BuildLaunch.step] at h
    split at h
    · split at h
      · cases h
      · split at h <;> cases h
    · cases h
  | write r slot => cases h
  | reject r => cases h

/-- The dimension as rows of key and payload. -/
def dim (L : BuildLaunch) : List (Int × Int) := (List.range L.n).map fun r => (L.key r, L.payload r)

end BuildLaunch

/-! ## 2. Lookups -/

/-- The lookup of the probing kernels: the payload of a key. -/
def DimTable.probe (m : DimTable) (capacity : Nat) (k : Int) : Option Int :=
  (Probing.find (layout capacity) m.key k).map m.payload

/-- The table holds the dimension: no key is the mark of a free slot, and a lookup of another key returns a
payload of one of its rows, or nothing when it has none. -/
structure Holds (m : DimTable) (capacity : Nat) (dim : List (Int × Int)) : Prop where
  marked : ∀ d ∈ dim, d.1 ≠ hashEmpty
  hit : ∀ k v, k ≠ hashEmpty → m.probe capacity k = some v → (k, v) ∈ dim
  miss : ∀ k, k ≠ hashEmpty → (m.probe capacity k = none ↔ ∀ d ∈ dim, d.1 ≠ k)

namespace BuildLaunch

variable {L : BuildLaunch} {c : Threads.State (Fin L.threads) DimTable BuildPc}

/-- The flag is up at the end exactly when a row could not be put into the table. -/
theorem Inv.overflow_iff (h : L.Inv c) (hstop : L.Finished c) :
    c.mem.overflow = true ↔ ∃ r < L.n, L.Refused c.mem r := by
  refine ⟨h.raised, fun ⟨r, hr, href⟩ => ?_⟩
  obtain ⟨q, hq, hle⟩ := row_of_stopped (hstop (L.owner r))
  rcases h.settled r hr (by rw [hq]; exact Nat.lt_of_lt_of_le hr hle) with ⟨-, hup⟩ | ⟨s, hs, hne⟩
  · exact hup
  · rcases href with href | href
    · exact absurd href hne
    · exact absurd hs (h.filed.absent hne href s)

/-- When no row was refused, the table holds the dimension. -/
theorem Inv.holds (h : L.Inv c) (hstop : L.Finished c)
    (hdown : c.mem.overflow = false) : Holds c.mem L.capacity L.dim := by
  have hnot : ¬ ∃ r < L.n, L.Refused c.mem r := fun hr => by
    rw [(h.overflow_iff hstop).mpr hr] at hdown
    cases hdown
  have hthere : ∀ r < L.n, ∃ s, c.mem.key s = L.key r := by
    intro r hr
    obtain ⟨q, hq, hle⟩ := row_of_stopped (hstop (L.owner r))
    rcases h.settled r hr (by rw [hq]; exact Nat.lt_of_lt_of_le hr hle) with ⟨href, -⟩ | ⟨s, hs, -⟩
    · exact absurd ⟨r, hr, href⟩ hnot
    · exact ⟨s, hs⟩
  have hpaid : ∀ s, c.mem.key s ≠ hashEmpty → L.Paid c.mem s := by
    intro s hs
    rcases h.paid s hs with ⟨t, r, ht⟩ | hp
    · obtain ⟨q, hq, -⟩ := row_of_stopped (hstop t)
      rw [hq] at ht
      cases ht
    · exact hp
  refine ⟨?_, fun k v hk hv => ?_, fun k hk => ?_⟩
  · intro d hd heq
    obtain ⟨r, hr, rfl⟩ := List.mem_map.mp hd
    exact hnot ⟨r, List.mem_range.mp hr, Or.inl heq⟩
  · obtain ⟨s, hs, rfl⟩ := Option.map_eq_some_iff.mp hv
    have hkey := (Probing.find_iff h.filed hk).mp hs
    obtain ⟨r, hr, hrk, hpay⟩ := hpaid s (by rw [hkey]; exact hk)
    exact List.mem_map.mpr ⟨r, List.mem_range.mpr hr, by rw [hrk, hkey, hpay]⟩
  · unfold DimTable.probe
    rw [Option.map_eq_none_iff]
    constructor
    · intro hnone d hd heq
      obtain ⟨r, hr, rfl⟩ := List.mem_map.mp hd
      obtain ⟨s, hs⟩ := hthere r (List.mem_range.mp hr)
      have hfind := (Probing.find_iff h.filed hk).mpr (hs.trans heq)
      rw [hnone] at hfind
      cases hfind
    · intro hno
      cases hfind : Probing.find (layout L.capacity) c.mem.key k with
      | none => rfl
      | some s =>
        have hkey := (Probing.find_iff h.filed hk).mp hfind
        obtain ⟨r, hr, hrk, -⟩ := hpaid s (by rw [hkey]; exact hk)
        exact absurd (hrk.trans hkey) (hno _ (List.mem_map_of_mem (List.mem_range.mpr hr)))

end BuildLaunch

/-- **Any interleaving fills the table.**  When every thread of `build_ht_kernel` has finished, the flag is up
exactly if the key of some row is `-1` or finds all its slots taken by other keys; and if the flag is down,
lookups find the dimension, whatever the payload array held before. -/
theorem build_ht_finds (L : BuildLaunch) (payload : Nat → Int) (l : List (Fin L.threads))
    (hstop : L.Finished (L.run payload l)) :
    let m := (L.run payload l).mem
    (m.overflow = true ↔ ∃ r < L.n, L.Refused m r) ∧
      (m.overflow = false → Holds m L.capacity L.dim) := by
  have hinv := BuildLaunch.inv_run payload l
  exact ⟨hinv.overflow_iff hstop, hinv.holds hstop⟩

/-- Three rows of a dimension, two of them with one key. -/
def threeKeys : BuildLaunch where
  threads := 2
  pos := Nat.two_pos
  n := 3
  key r := [5, 5, 9].getD r 0
  payload r := [10, 20, 30].getD r 0
  capacity := 4
  capacity_pos := pos_four

/-- The second thread finds its key before the first one has written the payload. -/
def early : List (Fin 2) := [0, 0, 1, 1, 0, 0, 0, 0, 0, 0, 1]

/-- **A key that is there twice** has one payload. -/
theorem build_ht_finds_early :
    Holds (threeKeys.run (fun _ => 77) early).mem 4 [(5, 10), (5, 20), (9, 30)] :=
  (build_ht_finds threeKeys (fun _ => 77) early (by decide +kernel)).2 (by decide +kernel)

/-! ## 3. The chain -/

/-- A join of the chain: its table, and whether it preserves the fact side (`left_per_stage`). -/
structure Stage where
  capacity : Nat
  table : DimTable
  left : Bool

/-- The walk of a fact row past the tables, with its key: `none` when the row is dropped. -/
def chain : List Stage → Int → Option Int
  | [], key => some key
  | st :: rest, key =>
    if key = hashEmpty then (if st.left then chain rest key else none)
    else
      match st.table.probe st.capacity key with
      | none => if st.left then chain rest hashEmpty else none
      | some v => chain rest v

/-- A key as SQL sees it: the mark stands for NULL. -/
def nullable (k : Int) : Option Int := if k = hashEmpty then none else some k

/-- The join of one row with a dimension on its key, inner or with the row preserved: the payloads of the rows
it is joined with. -/
def joinDim (left : Bool) (dim : List (Int × Int)) (k : Option Int) : List (Option Int) :=
  let matched := (dim.filter fun d => k = some d.1).map fun d => nullable d.2
  if left && matched.isEmpty then [none] else matched

/-- The joins with one dimension after the other, each on the payload of the one before. -/
def joinDims : List (Bool × List (Int × Int)) → Option Int → List (Option Int)
  | [], k => [k]
  | (left, dim) :: rest, k => (joinDim left dim k).flatMap (joinDims rest)

/-- A key in a dimension that has it once. -/
theorem filter_unique {dim : List (Int × Int)} (hnd : (dim.map Prod.fst).Nodup) {k v : Int}
    (h : (k, v) ∈ dim) : (dim.filter fun d => some k = some d.1) = [(k, v)] := by
  induction dim with
  | nil => cases h
  | cons d dim ih =>
    rw [List.map_cons, List.nodup_cons] at hnd
    rw [List.filter_cons]
    rcases List.mem_cons.mp h with rfl | hmem
    · rw [if_pos (by simp), List.filter_eq_nil_iff.mpr]
      intro d hd heq
      simp only [Option.some.injEq, decide_eq_true_eq] at heq
      exact hnd.1 (List.mem_map.mpr ⟨d, hd, heq.symm⟩)
    · have hne : ¬ k = d.1 := by
        rintro rfl
        exact hnd.1 (List.mem_map.mpr ⟨_, hmem, rfl⟩)
      rw [if_neg (by simpa using hne)]
      exact ih hnd.2 hmem

/-- One join, looked up. -/
theorem joinDim_probe {m : DimTable} {capacity : Nat} {dim : List (Int × Int)}
    (h : Holds m capacity dim) (hnd : (dim.map Prod.fst).Nodup) (left : Bool) {k : Int}
    (hk : k ≠ hashEmpty) : joinDim left dim (some k) =
      match m.probe capacity k with
      | none => if left then [none] else []
      | some v => [nullable v] := by
  unfold joinDim
  cases hp : m.probe capacity k with
  | none =>
    have hnone : (dim.filter fun d => some k = some d.1) = [] := by
      refine List.filter_eq_nil_iff.mpr fun d hd heq => ?_
      simp only [Option.some.injEq, decide_eq_true_eq] at heq
      exact (h.miss k hk).mp hp d hd heq.symm
    rw [hnone]
    cases left <;> rfl
  | some v =>
    rw [filter_unique hnd (h.hit k v hk hp)]
    simp

/-- A NULL is joined with no row. -/
theorem joinDim_null (left : Bool) (dim : List (Int × Int)) :
    joinDim left dim none = if left then [none] else [] := by
  have hnone : (dim.filter fun d => none = some d.1) = [] := by simp
  unfold joinDim
  rw [hnone]
  cases left <;> rfl

/-- The tables of a chain hold dimensions whose keys are unique. -/
def Tables (stages : List Stage) (dims : List (Bool × List (Int × Int))) : Prop :=
  List.Forall₂ (fun st d => d.1 = st.left ∧ Holds st.table st.capacity d.2 ∧
    (d.2.map Prod.fst).Nodup) stages dims

/-- **The chain computes the joins.** -/
theorem chain_joinDims {stages : List Stage} {dims : List (Bool × List (Int × Int))}
    (h : Tables stages dims) (k : Int) :
    joinDims dims (nullable k) = ((chain stages k).map nullable).toList := by
  induction h generalizing k with
  | nil => rfl
  | @cons st d stages dims hst _ ih =>
    obtain ⟨left, dim⟩ := d
    obtain ⟨rfl, hholds, hnd⟩ := hst
    have hnull : joinDims dims none = ((chain stages hashEmpty).map nullable).toList := ih hashEmpty
    unfold joinDims chain
    by_cases hk : k = hashEmpty
    · rw [if_pos hk, nullable, if_pos hk, joinDim_null, hk]
      cases st.left <;> simp [hnull]
    · rw [if_neg hk, nullable, if_neg hk, joinDim_probe hholds hnd st.left hk]
      cases st.table.probe st.capacity k with
      | none => cases st.left <;> simp [hnull]
      | some v => simpa using ih v

end RyuDB.Kernels
