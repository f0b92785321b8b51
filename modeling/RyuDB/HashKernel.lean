/-
# The hash kernel

`hash_kernel` groups by one 64-bit key in a table of keys with `capacity` slots: every thread takes its
rows in strides, finds or claims the slot of the key with a compare-and-swap on each slot it tries, counts
the slot if it claimed it, and updates the accumulators of the slot.  A key that is `-1`, and a key that
finds none of 64 slots, raises the overflow flag instead.  `probe_hash_agg_kernel` ends its rows in the
same way; what a row does before it touches the table is a parameter here (`Prep`).

Every access to shared memory is a step of its own, and the threads take steps in any order.  Two things
about numbers are taken as given: doubles are exact (see `RyuDB.Accumulators`), and the rows are few enough
for the `int` that counts them (`Grid.small`); the steps of a thread are then those of the source
(`Launch.next_row_int`).

* `hash_kernel_groups`: however the steps were interleaved, when every thread has finished and the flag is
  down, the table holds every key of a passing row in one slot and nothing else, `distinct` is the number of
  these keys, and the accumulators of a slot are those of the rows with its key.
* `hash_kernel_stops`: no schedule of steps is longer than a bound: the threads cannot keep each other
  busy, although MIN and MAX may have to try again.
-/
import RyuDB.Accumulators
import RyuDB.Lib.Probing
import Mathlib.Data.Fintype.Card

namespace RyuDB.Kernels

/-! ## 1. The launch -/

/-- The threads of a launch over `n` rows or slots.  The index of a thread is an `int`, to which the stride
is added once more behind the last row; `small` keeps that sum in range.  Neither `fused.py` nor the host
code of `fused.cu` checks it: with more rows the index would become negative and the loop start again. -/
structure Grid (n : Nat) where
  threads : Nat
  pos : 0 < threads
  small : n + threads ≤ 2 ^ 31

/-- What the kernels read and do not write: the number of threads, the rows, and for each aggregate its
kind and what `eval_agg` computes for a row.  The threads and the rows are those of a `Grid`. -/
structure Launch where
  threads : Nat
  pos : 0 < threads
  n : Nat
  small : n + threads ≤ 2 ^ 31
  nagg : Nat
  kind : Nat → AggKind
  eval : Nat → Nat → ℚ

namespace Launch

variable (L : Launch)

/-- The thread that has the row in its stride. -/
def owner (i : Nat) : Fin L.threads := ⟨i % L.threads, Nat.mod_lt _ L.pos⟩

/-- What the row brings to the aggregate. -/
def val (a i : Nat) : Double := (L.kind a).brings (L.eval i a)

/-- **The row index does not wrap**: `i += gridDim.x * blockDim.x` in 32 bits is the sum. -/
theorem next_row_int {i : Nat} (hi : i < L.n) :
    (BitVec.ofNat 32 i + BitVec.ofNat 32 L.threads).toInt = ((i + L.threads : Nat) : Int) := by
  have hs := L.small
  have hnat : (BitVec.ofNat 32 (i + L.threads)).toNat = i + L.threads := by
    rw [BitVec.toNat_ofNat, Nat.mod_eq_of_lt (by omega)]
  rw [← BitVec.ofNat_add, BitVec.toInt_eq_toNat_of_lt (by omega), hnat]

end Launch

/-- `HASH_EMPTY`. -/
def hashEmpty : Int := -1

/-- The finalizer of MurmurHash3. -/
def murmur (k : Int) : BitVec 64 :=
  let h := BitVec.ofInt 64 k
  let h := h ^^^ (h >>> 33)
  let h := h * 0xff51afd7ed558ccd#64
  let h := h ^^^ (h >>> 33)
  let h := h * 0xc4ceb9fe1a85ec53#64
  h ^^^ (h >>> 33)

/-- The first slot of a key. -/
def home (capacity : Nat) (k : Int) : Nat := (murmur k &&& BitVec.ofNat 64 (capacity - 1)).toNat

/-- The slot behind a slot. -/
def nextSlot (capacity slot : Nat) : Nat := (slot + 1) &&& (capacity - 1)

/-- The slot of a key after some collisions. -/
def slotAt (capacity : Nat) (k : Int) : Nat → Nat
  | 0 => home capacity k
  | p + 1 => nextSlot capacity (slotAt capacity k p)

/-- Linear probing over at most 64 slots. -/
def layout (capacity : Nat) : Probing.Layout Int where
  empty := hashEmpty
  slot := slotAt capacity
  limit := 64

/-- No slot lies outside the table. -/
theorem slotAt_lt {capacity : Nat} (h : 0 < capacity) (k : Int) (p : Nat) :
    slotAt capacity k p < capacity := by
  have hmask : ∀ x : Nat, x &&& (capacity - 1) < capacity := fun x => by
    have hle : x &&& (capacity - 1) ≤ capacity - 1 := Nat.and_le_right
    omega
  cases p with
  | zero =>
    unfold slotAt home
    rw [BitVec.toNat_and]
    have hle : (murmur k).toNat &&& (BitVec.ofNat 64 (capacity - 1)).toNat ≤
        (BitVec.ofNat 64 (capacity - 1)).toNat := Nat.and_le_right
    have hmod : (BitVec.ofNat 64 (capacity - 1)).toNat ≤ capacity - 1 := by
      rw [BitVec.toNat_ofNat]
      exact Nat.mod_le _ _
    omega
  | succ p => exact hmask _

/-- What a row does before it touches the table: nothing, raise the flag, or look for a key. -/
inductive Prep where
  | skip
  | reject
  | key (k : Int)
  deriving DecidableEq

theorem pos_four : 0 < 4 := by decide

/-- The key that is looked for. -/
def Prep.sought : Prep → Option Int
  | .key k => some k
  | _ => none

theorem Prep.sought_eq_some {p : Prep} {k : Int} : p.sought = some k ↔ p = .key k := by
  cases p with
  | skip => simp [sought]
  | reject => simp [sought]
  | key k' => simp [sought]

/-- A launch that groups in a table. -/
structure HashLaunch extends Launch where
  capacity : Nat
  capacity_pos : 0 < capacity
  prep : Nat → Prep

/-! ## 2. The kernel -/

/-- The shared memory. -/
structure Mem where
  key : Nat → Int
  acc : Nat → Nat → Double
  distinct : Nat
  overflow : Bool

/-- Where a thread is: at the head of the loop over its rows; before the compare-and-swap on a slot; before
the increment of `distinct`; before it raises the flag; or in the update of an aggregate. -/
inductive Pc where
  | row (i : Nat)
  | probe (i : Nat) (k : Int) (slot p : Nat)
  | count (i gid : Nat)
  | reject (i : Nat)
  | agg (i gid a : Nat) (assumed : Option Double)

/-- A new content of one accumulator. -/
def Mem.setAcc (m : Mem) (gid a : Nat) (v : Double) : Mem :=
  { m with acc := Function.update m.acc gid (Function.update (m.acc gid) a v) }

namespace HashLaunch

variable (L : HashLaunch)

/-- One step of a thread. -/
def step (m : Mem) : Pc → Option (Mem × Pc)
  | .row i =>
    if i < L.n then
      match L.prep i with
      | .skip => some (m, .row (i + L.threads))
      | .reject => some (m, .reject i)
      | .key k => some (m, .probe i k (home L.capacity k) 0)
    else none
  | .probe i k slot p =>
    if p < 64 then
      if m.key slot = hashEmpty then
        some ({ m with key := Function.update m.key slot k }, .count i slot)
      else if m.key slot = k then some (m, .agg i slot 0 none)
      else some (m, .probe i k (nextSlot L.capacity slot) (p + 1))
    else some (m, .reject i)
  | .count i gid => some ({ m with distinct := m.distinct + 1 }, .agg i gid 0 none)
  | .reject i => some ({ m with overflow := true }, .row (i + L.threads))
  | .agg i gid a assumed =>
    if a < L.nagg then
      match access (L.kind a) (L.val a i) (m.acc gid a) assumed with
      | (v, none) => some (m.setAcc gid a v, .agg i gid (a + 1) none)
      | (v, some w) => some (m.setAcc gid a v, .agg i gid a (some w))
    else some (m, .row (i + L.threads))

/-- The table the host hands over: every slot is free, and every accumulator has its initial value. -/
def start : Threads.State (Fin L.threads) Mem Pc where
  mem := ⟨fun _ => hashEmpty, fun _ a => (L.kind a).init, 0, false⟩
  pc t := .row t

/-- The state after a schedule. -/
def run (l : List (Fin L.threads)) : Threads.State (Fin L.threads) Mem Pc :=
  Run.run (Threads.act fun _ => L.step) L.start l

/-- Every thread is through. -/
abbrev Finished (c : Threads.State (Fin L.threads) Mem Pc) : Prop :=
  Threads.Stopped (fun _ => L.step) c

/-- What a step can be. -/
inductive Moves (m : Mem) : Pc → Mem → Pc → Prop
  | skip {i : Nat} (hi : i < L.n) (hp : L.prep i = .skip) :
      Moves m (.row i) m (.row (i + L.threads))
  | refuse {i : Nat} (hi : i < L.n) (hp : L.prep i = .reject) : Moves m (.row i) m (.reject i)
  | begin {i : Nat} {k : Int} (hi : i < L.n) (hp : L.prep i = .key k) :
      Moves m (.row i) m (.probe i k (home L.capacity k) 0)
  | claim {i slot p : Nat} {k : Int} (hp : p < 64) (he : m.key slot = hashEmpty) :
      Moves m (.probe i k slot p) { m with key := Function.update m.key slot k } (.count i slot)
  | found {i slot p : Nat} {k : Int} (hp : p < 64) (he : m.key slot ≠ hashEmpty)
      (hk : m.key slot = k) : Moves m (.probe i k slot p) m (.agg i slot 0 none)
  | collide {i slot p : Nat} {k : Int} (hp : p < 64) (he : m.key slot ≠ hashEmpty)
      (hk : m.key slot ≠ k) :
      Moves m (.probe i k slot p) m (.probe i k (nextSlot L.capacity slot) (p + 1))
  | crowded {i slot p : Nat} {k : Int} (hp : ¬ p < 64) : Moves m (.probe i k slot p) m (.reject i)
  | count {i gid : Nat} :
      Moves m (.count i gid) { m with distinct := m.distinct + 1 } (.agg i gid 0 none)
  | raise {i : Nat} : Moves m (.reject i) { m with overflow := true } (.row (i + L.threads))
  | retry {i gid a : Nat} {v : Option Double} (ha : a < L.nagg) (hv : v ≠ some (m.acc gid a)) :
      Moves m (.agg i gid a v) m (.agg i gid a (some (m.acc gid a)))
  | apply {i gid a : Nat} {v : Option Double} (ha : a < L.nagg) : Moves m (.agg i gid a v)
      (m.setAcc gid a ((L.kind a).op (m.acc gid a) (L.val a i))) (.agg i gid (a + 1) none)
  | close {i gid a : Nat} {v : Option Double} (ha : ¬ a < L.nagg) :
      Moves m (.agg i gid a v) m (.row (i + L.threads))

theorem setAcc_self (m : Mem) (gid a : Nat) : m.setAcc gid a (m.acc gid a) = m := by
  unfold Mem.setAcc
  rw [Function.update_eq_self, Function.update_eq_self]

variable {L}

/-- **Every step is one of these.** -/
theorem moves_of_step {m m' : Mem} {p p' : Pc} (h : L.step m p = some (m', p')) :
    L.Moves m p m' p' := by
  cases p with
  | row i =>
    simp only [step] at h
    split at h
    · rename_i hi
      split at h <;> rename_i hp <;> cases h
      · exact .skip hi hp
      · exact .refuse hi hp
      · exact .begin hi hp
    · cases h
  | probe i k slot p =>
    simp only [step] at h
    split at h
    · rename_i hp
      split at h
      · rename_i he
        cases h
        exact .claim hp he
      · rename_i he
        split at h
        · rename_i hk
          cases h
          exact .found hp he hk
        · rename_i hk
          cases h
          exact .collide hp he hk
    · rename_i hp
      cases h
      exact .crowded hp
  | count i gid =>
    cases h
    exact .count
  | reject i =>
    cases h
    exact .raise
  | agg i gid a v =>
    simp only [step] at h
    split at h
    · rename_i ha
      rcases access_cases (L.kind a) (L.val a i) (m.acc gid a) v with hacc | ⟨hacc, hv⟩
      · rw [hacc] at h
        cases h
        exact .apply ha
      · rw [hacc] at h
        simp only [setAcc_self] at h
        cases h
        exact .retry ha hv
    · rename_i ha
      cases h
      exact .close ha

end HashLaunch

/-! ## 3. What a thread knows -/

namespace Pc

/-- The row a thread is at. -/
def current : Pc → Nat
  | .row i | .probe i _ _ _ | .count i _ | .reject i | .agg i _ _ _ => i

/-- The aggregate of this row is through. -/
def through : Pc → Nat → Bool
  | .agg _ _ b _, a => decide (a < b)
  | _, _ => false

/-- The aggregate of the row `i` is through, or the row is. -/
def did (p : Pc) (i a : Nat) : Bool := decide (i < p.current) || decide (i = p.current) && p.through a

theorem did_iff {p : Pc} {i a : Nat} : p.did i a = true ↔
    i < p.current ∨ i = p.current ∧ p.through a = true := by
  simp [did]

/-- Before the increment of `distinct`. -/
def counting : Pc → Bool
  | .count _ _ => true
  | _ => false

end Pc

namespace HashLaunch

variable (L : HashLaunch)

/-- No row looks for the key that marks a free slot. -/
def Keyed : Prop := ∀ i < L.n, ∀ k, L.prep i = .key k → k ≠ hashEmpty

/-- The row cannot be grouped: its key is rejected, or all its slots belong to other keys. -/
def Refused (m : Mem) (i : Nat) : Prop :=
  L.prep i = .reject ∨ ∃ k, L.prep i = .key k ∧ Probing.Tried (layout L.capacity) m.key k 64

/-- What has become of a row that is through. -/
def Settled (m : Mem) (i : Nat) : Prop :=
  L.prep i = .skip ∨ (L.Refused m i ∧ m.overflow = true) ∨ ∃ s, L.prep i = .key (m.key s)

/-- What a thread knows where it is. -/
def Knows (m : Mem) (t : Fin L.threads) : Pc → Prop
  | .row i => L.owner i = t
  | .probe i k slot p => L.owner i = t ∧ i < L.n ∧ L.prep i = .key k ∧ p ≤ 64 ∧
      slot = slotAt L.capacity k p ∧ Probing.Tried (layout L.capacity) m.key k p
  | .count i gid => L.owner i = t ∧ i < L.n ∧ L.prep i = .key (m.key gid)
  | .reject i => L.owner i = t ∧ i < L.n ∧ L.Refused m i
  | .agg i gid a _ => L.owner i = t ∧ i < L.n ∧ a ≤ L.nagg ∧ L.prep i = .key (m.key gid)

/-- The rows that look for the key. -/
def rowsOf (k : Int) : Finset Nat := (Finset.range L.n).filter fun i => L.prep i = .key k

/-- Those of them whose aggregate is through. -/
def done (pc : Fin L.threads → Pc) (k : Int) (a : Nat) : Finset Nat :=
  (L.rowsOf k).filter fun i => (pc (L.owner i)).did i a = true

/-- **What holds whenever the threads are stopped.** -/
structure Inv (c : Threads.State (Fin L.threads) Mem Pc) : Prop where
  filed : Probing.Filed (layout L.capacity) c.mem.key
  source : ∀ s, c.mem.key s ≠ hashEmpty → (L.rowsOf (c.mem.key s)).Nonempty
  knows : ∀ t, L.Knows c.mem t (c.pc t)
  settled : ∀ i < L.n, i < (c.pc (L.owner i)).current → L.Settled c.mem i
  counted : c.mem.distinct + (Finset.univ.filter fun t => (c.pc t).counting = true).card =
    ((Finset.range L.capacity).filter fun s => c.mem.key s ≠ hashEmpty).card
  sums : ∀ s, ∀ a < L.nagg, c.mem.acc s a = (L.kind a).folded (L.val a) (L.done c.pc (c.mem.key s) a)
  raised : c.mem.overflow = true → ∃ i < L.n, L.Refused c.mem i

variable {L} {c : Threads.State (Fin L.threads) Mem Pc} {t : Fin L.threads} {m m' : Mem} {p p' : Pc}

/-- The keys that are there stay, and the flag stays up. -/
structure Grows (L : HashLaunch) (m m' : Mem) : Prop where
  keys : Probing.Extends (layout L.capacity) m.key m'.key
  flag : m.overflow = true → m'.overflow = true

theorem Grows.of_eq (hk : m'.key = m.key) (ho : m'.overflow = m.overflow) : Grows L m m' where
  keys s _ := by rw [hk]
  flag h := ho.trans h

theorem Refused.mono {i : Nat} (h : L.Refused m i) (hg : Grows L m m') : L.Refused m' i := by
  rcases h with h | ⟨k, hk, ht⟩
  · exact Or.inl h
  · exact Or.inr ⟨k, hk, ht.mono hg.keys⟩

/-- A key that a row looks for and that is there stays where it is. -/
theorem Grows.key (hg : Grows L m m') (hk : L.Keyed) {i s : Nat} (hi : i < L.n)
    (h : L.prep i = .key (m.key s)) : L.prep i = .key (m'.key s) := by
  rw [hg.keys s (hk i hi _ h)]
  exact h

theorem Settled.mono {i : Nat} (h : L.Settled m i) (hk : L.Keyed) (hi : i < L.n)
    (hg : Grows L m m') : L.Settled m' i := by
  rcases h with h | ⟨h, ho⟩ | ⟨s, hs⟩
  · exact Or.inl h
  · exact Or.inr (Or.inl ⟨h.mono hg, hg.flag ho⟩)
  · exact Or.inr (Or.inr ⟨s, hg.key hk hi hs⟩)

/-- **What a thread knows does not become wrong** while others go on. -/
theorem Knows.mono (h : L.Knows m t p) (hk : L.Keyed) (hg : Grows L m m') : L.Knows m' t p := by
  cases p with
  | row i => exact h
  | probe i k slot p =>
    obtain ⟨ht, hi, hp, hle, hslot, htried⟩ := h
    exact ⟨ht, hi, hp, hle, hslot, htried.mono hg.keys⟩
  | count i gid =>
    obtain ⟨ht, hi, hp⟩ := h
    exact ⟨ht, hi, hg.key hk hi hp⟩
  | reject i =>
    obtain ⟨ht, hi, hr⟩ := h
    exact ⟨ht, hi, hr.mono hg⟩
  | agg i gid a v =>
    obtain ⟨ht, hi, ha, hp⟩ := h
    exact ⟨ht, hi, ha, hg.key hk hi hp⟩

/-- The thread is at a row of its own. -/
theorem Knows.owner (h : L.Knows m t p) : L.owner p.current = t := by
  cases p with
  | row i => exact h
  | probe i k slot p => exact h.1
  | count i gid => exact h.1
  | reject i => exact h.1
  | agg i gid a v => exact h.1

/-- A step of a thread grows the memory. -/
theorem Moves.grows (h : L.Moves m p m' p') : Grows L m m' := by
  cases h with
  | claim hp he => exact ⟨Probing.extends_claim he, id⟩
  | raise => exact ⟨Probing.Extends.refl _ _, fun _ => rfl⟩
  | _ => exact Grows.of_eq rfl rfl

theorem owner_next (i : Nat) : L.owner (i + L.threads) = L.owner i := by
  unfold Launch.owner
  simp

/-- What the thread knows after its step. -/
theorem Moves.knows (h : L.Moves m p m' p') (ht : L.Knows m t p) : L.Knows m' t p' := by
  cases h with
  | skip hi hp => exact (owner_next _).trans ht
  | refuse hi hp => exact ⟨ht, hi, Or.inl hp⟩
  | begin hi hp =>
    exact ⟨ht, hi, hp, by omega, rfl, fun m hm => absurd hm (Nat.not_lt_zero m)⟩
  | claim hp he =>
    obtain ⟨ho, hi, hprep, -, -, -⟩ := ht
    refine ⟨ho, hi, hprep.trans (congrArg Prep.key ?_)⟩
    exact (Function.update_self _ _ m.key).symm
  | found hp he hkey =>
    obtain ⟨ho, hi, hprep, -, -, -⟩ := ht
    exact ⟨ho, hi, Nat.zero_le _, by rw [hkey]; exact hprep⟩
  | collide hp he hkey =>
    obtain ⟨ho, hi, hprep, -, rfl, htried⟩ := ht
    exact ⟨ho, hi, hprep, by omega, rfl, htried.succ he hkey⟩
  | crowded hp =>
    obtain ⟨ho, hi, hprep, hle, -, htried⟩ := ht
    obtain rfl : _ = 64 := Nat.le_antisymm hle (Nat.not_lt.mp hp)
    exact ⟨ho, hi, Or.inr ⟨_, hprep, htried⟩⟩
  | count =>
    obtain ⟨ho, hi, hprep⟩ := ht
    exact ⟨ho, hi, Nat.zero_le _, hprep⟩
  | raise => exact (owner_next _).trans ht.1
  | retry ha hv => exact ht
  | apply ha =>
    obtain ⟨ho, hi, -, hprep⟩ := ht
    exact ⟨ho, hi, ha, hprep⟩
  | close ha => exact (owner_next _).trans ht.1

/-! ## 4. A step keeps the invariant -/

theorem mod_of_owner {i j : Nat} (h : L.owner i = L.owner j) : i % L.threads = j % L.threads :=
  congrArg Fin.val h

/-- A thread that goes on to its next row leaves the row behind. -/
theorem did_next {i r a : Nat} (h : L.owner r = L.owner i) :
    (Pc.row (i + L.threads)).did r a = true ↔ r < i ∨ r = i := by
  rw [← Threads.before_next L.pos (mod_of_owner h), Pc.did_iff]
  simp only [Pc.through, Bool.false_eq_true, and_false, or_false]
  rfl

/-- **What a step gets through**: a row is left behind when it has no key or cannot be grouped, or when
its aggregates are through, and an aggregate is through when its update ends. -/
inductive Gets (L : HashLaunch) (m : Mem) (p p' : Pc) (m' : Mem) : Prop
  | nothing (h : ∀ r a, L.owner r = L.owner p.current → a < L.nagg →
      (p'.did r a = true ↔ p.did r a = true)) (hacc : m'.acc = m.acc)
  | row (h : ∀ r a, L.owner r = L.owner p.current →
      (p'.did r a = true ↔ p.did r a = true ∨ r = p.current)) (hacc : m'.acc = m.acc)
      (hno : ∀ s, L.prep p.current ≠ .key (m.key s)) (hkey : m'.key = m.key)
  | one {gid b : Nat} (hb : b < L.nagg) (hi : p.current < L.n) (h : ∀ r a, L.owner r = L.owner p.current →
      (p'.did r a = true ↔ p.did r a = true ∨ r = p.current ∧ a = b))
      (hnot : p.did p.current b = false) (hgid : L.prep p.current = .key (m.key gid))
      (hm : m' = m.setAcc gid b ((L.kind b).op (m.acc gid b) (L.val b p.current)))

theorem Refused.no_key {i : Nat} (h : L.Refused m i) (hk : L.Keyed) (hi : i < L.n)
    (hf : Probing.Filed (layout L.capacity) m.key) (s : Nat) : L.prep i ≠ .key (m.key s) := by
  intro heq
  rcases h with h | ⟨k, hp, ht⟩
  · rw [h] at heq
    cases heq
  · rw [hp] at heq
    cases heq
    exact hf.absent (hk i hi _ hp) ht s rfl

theorem Moves.gets (h : L.Moves m p m' p') (hk : L.Keyed) (ht : L.Knows m t p)
    (hf : Probing.Filed (layout L.capacity) m.key) : Gets L m p p' m' := by
  cases h with
  | skip hi hp =>
    refine .row (fun r a hr => (did_next hr).trans ?_) rfl (fun s heq => ?_) rfl
    · simp [Pc.did_iff, Pc.through]
    · cases hp.symm.trans heq
  | raise =>
    refine .row (fun r a hr => (did_next hr).trans ?_) rfl (Refused.no_key ht.2.2 hk ht.2.1 hf) rfl
    simp [Pc.did_iff, Pc.through]
  | close ha =>
    refine .nothing (fun r a hr hlt => (did_next hr).trans ?_) rfl
    have hlt' : a < _ := Nat.lt_of_lt_of_le hlt (Nat.not_lt.mp ha)
    simp [Pc.did_iff, Pc.through, hlt', Pc.current]
  | apply ha =>
    refine .one ha ht.2.1 (fun r a hr => ?_) ?_ ht.2.2.2 rfl
    · simp only [Pc.did_iff, Pc.through, decide_eq_true_eq, Pc.current]
      omega
    · simp [Pc.did, Pc.through]
  | _ =>
    refine .nothing (fun r a hr hlt => ?_) rfl
    simp [Pc.did_iff, Pc.through, Pc.current]

/-- Rows of other threads are not touched. -/
theorem done_congr {pc : Fin L.threads → Pc} {k : Int} {a : Nat} (h : ∀ r ∈ L.rowsOf k,
    L.owner r = t → (p'.did r a = true ↔ (pc t).did r a = true)) :
    L.done (Function.update pc t p') k a = L.done pc k a := by
  refine Finset.filter_congr fun r hr => ?_
  by_cases ho : L.owner r = t
  · rw [ho, Function.update_self]
    exact h r hr ho
  · rw [Function.update_of_ne ho]

/-- One more row is through. -/
theorem done_insert {pc : Fin L.threads → Pc} {k : Int} {a i : Nat} (hi : i ∈ L.rowsOf k)
    (ho : L.owner i = t) (h : ∀ r, L.owner r = t →
      (p'.did r a = true ↔ (pc t).did r a = true ∨ r = i)) :
    L.done (Function.update pc t p') k a = insert i (L.done pc k a) := by
  ext r
  simp only [done, Finset.mem_filter, Finset.mem_insert]
  by_cases hr : L.owner r = t
  · rw [hr, Function.update_self, h r hr]
    constructor
    · rintro ⟨hmem, hdid | rfl⟩
      · exact Or.inr ⟨hmem, hdid⟩
      · exact Or.inl rfl
    · rintro (rfl | ⟨hmem, hdid⟩)
      · exact ⟨hi, Or.inr rfl⟩
      · exact ⟨hmem, Or.inl hdid⟩
  · rw [Function.update_of_ne hr]
    constructor
    · exact Or.inr
    · rintro (rfl | h)
      · exact absurd ho hr
      · exact h

theorem mem_rowsOf {i : Nat} {k : Int} : i ∈ L.rowsOf k ↔ i < L.n ∧ L.prep i = .key k := by
  rw [rowsOf, Finset.mem_filter, Finset.mem_range]

theorem Moves.filed (h : L.Moves m p m' p') (ht : L.Knows m t p)
    (hf : Probing.Filed (layout L.capacity) m.key) :
    Probing.Filed (layout L.capacity) m'.key := by
  cases h with
  | claim hp he =>
    obtain ⟨-, -, -, -, rfl, htried⟩ := ht
    exact hf.claim htried hp he
  | _ => exact hf

/-- A key comes from the row that claimed its slot. -/
theorem Moves.source (h : L.Moves m p m' p') (ht : L.Knows m t p)
    (hs : ∀ s, m.key s ≠ hashEmpty → (L.rowsOf (m.key s)).Nonempty) :
    ∀ s, m'.key s ≠ hashEmpty → (L.rowsOf (m'.key s)).Nonempty := by
  cases h with
  | @claim i slot p k hp he =>
    obtain ⟨-, hi, hprep, -, -, -⟩ := ht
    intro s hne
    change Function.update m.key slot k s ≠ hashEmpty at hne
    change (L.rowsOf (Function.update m.key slot k s)).Nonempty
    by_cases hss : s = slot
    · rw [hss, Function.update_self]
      exact ⟨i, mem_rowsOf.mpr ⟨hi, hprep⟩⟩
    · rw [Function.update_of_ne hss] at hne ⊢
      exact hs s hne
  | _ => exact hs

/-- A row that is left behind is settled. -/
theorem Moves.leaves (h : L.Moves m p m' p') (ht : L.Knows m t p) :
    p'.current = p.current ∨ p'.current = p.current + L.threads ∧ L.Settled m' p.current := by
  cases h with
  | skip hi hp => exact Or.inr ⟨rfl, Or.inl hp⟩
  | @raise i =>
    have hg : Grows L m { m with overflow := true } := Moves.grows (.raise (i := i))
    exact Or.inr ⟨rfl, Or.inr (Or.inl ⟨ht.2.2.mono hg, rfl⟩)⟩
  | @close i gid a v ha => exact Or.inr ⟨rfl, Or.inr (Or.inr ⟨gid, ht.2.2.2⟩)⟩
  | _ => exact Or.inl rfl

/-- The number of slots that are claimed is the number of the increments that were made or are due. -/
def Balanced (L : HashLaunch) (m : Mem) (pc : Fin L.threads → Pc) : Prop :=
  m.distinct + (Finset.univ.filter fun t => (pc t).counting = true).card =
    ((Finset.range L.capacity).filter fun s => m.key s ≠ hashEmpty).card

theorem counting_update {pc : Fin L.threads → Pc} (h : p'.counting = (pc t).counting) :
    (Finset.univ.filter fun u => (Function.update pc t p' u).counting = true) =
      Finset.univ.filter fun u => (pc u).counting = true := by
  refine Finset.filter_congr fun u _ => ?_
  by_cases hu : u = t
  · rw [hu, Function.update_self, h]
  · rw [Function.update_of_ne hu]

theorem Moves.balanced {pc : Fin L.threads → Pc} (h : L.Moves m (pc t) m' p') (hk : L.Keyed)
    (ht : L.Knows m t (pc t)) (hb : Balanced L m pc) :
    Balanced L m' (Function.update pc t p') := by
  generalize hp : pc t = p at h ht
  cases h with
  | @claim i slot n k hn he =>
    obtain ⟨-, hi, hprep, -, rfl, -⟩ := ht
    have hslots : ((Finset.range L.capacity).filter fun s =>
        Function.update m.key (slotAt L.capacity k n) k s ≠ hashEmpty) =
          insert (slotAt L.capacity k n)
            ((Finset.range L.capacity).filter fun s => m.key s ≠ hashEmpty) := by
      ext s
      simp only [Finset.mem_filter, Finset.mem_insert, Finset.mem_range]
      by_cases hs : s = slotAt L.capacity k n
      · rw [hs, Function.update_self]
        simp [hk i hi k hprep, slotAt_lt L.capacity_pos k n]
      · rw [Function.update_of_ne hs]
        simp [hs]
    have hthreads : (Finset.univ.filter fun u =>
        (Function.update pc t (Pc.count i (slotAt L.capacity k n)) u).counting = true) =
          insert t (Finset.univ.filter fun u => (pc u).counting = true) := by
      ext u
      simp only [Finset.mem_filter, Finset.mem_insert, Finset.mem_univ, true_and]
      by_cases hu : u = t
      · rw [hu, Function.update_self]
        simp [Pc.counting]
      · rw [Function.update_of_ne hu]
        simp [hu]
    unfold Balanced at hb ⊢
    have hnot : t ∉ Finset.univ.filter fun u => (pc u).counting = true := by
      rw [Finset.mem_filter, hp]
      simp [Pc.counting]
    rw [hthreads, hslots, Finset.card_insert_of_notMem hnot,
      Finset.card_insert_of_notMem (by simp [he]), ← hb]
    rfl
  | @count i gid =>
    have hthreads : (Finset.univ.filter fun u => (pc u).counting = true) =
        insert t (Finset.univ.filter fun u =>
          (Function.update pc t (Pc.agg i gid 0 none) u).counting = true) := by
      ext u
      simp only [Finset.mem_filter, Finset.mem_insert, Finset.mem_univ, true_and]
      by_cases hu : u = t
      · rw [hu, hp]
        simp [Pc.counting]
      · rw [Function.update_of_ne hu]
        simp [hu]
    have hnot : t ∉ Finset.univ.filter fun u =>
        (Function.update pc t (Pc.agg i gid 0 none) u).counting = true := by
      rw [Finset.mem_filter, Function.update_self]
      simp [Pc.counting]
    unfold Balanced at hb ⊢
    rw [hthreads, Finset.card_insert_of_notMem hnot] at hb
    rw [← hb]
    change m.distinct + 1 + _ = _
    omega
  | _ =>
    unfold Balanced
    rw [counting_update (by rw [hp]; rfl)]
    exact hb

/-- Of a key that is not there and has a free slot, no row is through. -/
theorem Inv.done_fresh (h : L.Inv c) {k : Int} (hno : ∀ s, c.mem.key s ≠ k)
    (hfree : ¬ Probing.Tried (layout L.capacity) c.mem.key k 64) (a : Nat) :
    L.done c.pc k a = ∅ := by
  refine Finset.filter_eq_empty_iff.mpr fun i hi hdid => ?_
  obtain ⟨hlt, hprep⟩ := mem_rowsOf.mp hi
  rcases Pc.did_iff.mp hdid with hbehind | ⟨hat, hthrough⟩
  · rcases h.settled i hlt hbehind with hs | ⟨hr, -⟩ | ⟨s, hs⟩
    · cases hprep.symm.trans hs
    · rcases hr with hr | ⟨k', hk', htried⟩
      · cases hprep.symm.trans hr
      · cases hprep.symm.trans hk'
        exact hfree htried
    · cases hprep.symm.trans hs
      exact hno s rfl
  · have hknows := h.knows (L.owner i)
    cases hpc : c.pc (L.owner i) with
    | agg j gid b v =>
      rw [hpc] at hat hknows
      obtain rfl : i = j := hat
      cases hprep.symm.trans hknows.2.2.2
      exact hno gid rfl
    | _ =>
      rw [hpc] at hthrough
      cases hthrough

theorem rowsOf_empty (hk : L.Keyed) : L.rowsOf hashEmpty = ∅ :=
  Finset.filter_eq_empty_iff.mpr fun i hi hp => hk i (Finset.mem_range.mp hi) _ hp rfl

/-- **The accumulators of a slot are those of the rows with its key that are through.** -/
theorem Inv.sums_step (h : L.Inv c) (hk : L.Keyed) (hm : L.Moves c.mem (c.pc t) m' p') (s : Nat)
    {a : Nat} (ha : a < L.nagg) : m'.acc s a =
      (L.kind a).folded (L.val a) (L.done (Function.update c.pc t p') (m'.key s) a) := by
  have ht := h.knows t
  have hown : L.owner (c.pc t).current = t := ht.owner
  cases hm.gets hk ht h.filed with
  | nothing hdid hacc =>
    have hdone : ∀ k, L.done (Function.update c.pc t p') k a = L.done c.pc k a := fun k =>
      done_congr fun r _ hr => hdid r a (hr.trans hown.symm) ha
    rw [hdone, hacc]
    by_cases hkey : m'.key s = c.mem.key s
    · rw [hkey]
      exact h.sums s a ha
    · -- a slot that was claimed was free, and no row with its new key was through
      have hold : c.mem.key s = hashEmpty := not_not.mp fun hne => hkey (hm.grows.keys s hne)
      have hsum := h.sums s a ha
      rw [hold, done, rowsOf_empty hk] at hsum
      rw [hsum]
      generalize c.pc t = p at hm ht
      cases hm with
      | @claim i slot n k hn he =>
        obtain ⟨-, hi, hprep, -, rfl, htried⟩ := ht
        change ¬ Function.update c.mem.key _ k s = c.mem.key s at hkey
        change _ = (L.kind a).folded (L.val a) (L.done c.pc (Function.update c.mem.key _ k s) a)
        have hs : s = slotAt L.capacity k n := not_not.mp fun hne => hkey (Function.update_of_ne hne _ _)
        rw [hs, Function.update_self,
          h.done_fresh (fun s' => h.filed.fresh (hk i hi k hprep) htried he s') fun hall => (hall n hn).1 he]
        rfl
      | _ => exact absurd rfl hkey
  | row hdid hacc hno hkey =>
    rw [hacc, hkey, done_congr fun r hr hro => ?_]
    · exact h.sums s a ha
    · have hne : r ≠ (c.pc t).current := by
        rintro rfl
        exact hno s (mem_rowsOf.mp hr).2
      rw [hdid r a (hro.trans hown.symm)]
      simp [hne]
  | @one gid b hb hi hdid hnot hgid hset =>
    have hkey : m'.key = c.mem.key := by rw [hset]; rfl
    rw [hkey]
    by_cases hcell : s = gid ∧ a = b
    · obtain ⟨rfl, rfl⟩ := hcell
      have hrow : (c.pc t).current ∈ L.rowsOf (c.mem.key s) := mem_rowsOf.mpr ⟨hi, hgid⟩
      rw [done_insert hrow hown fun r hr => ?_]
      · rw [AggKind.folded_insert _ _ (by simp [done, hown, hnot]), ← h.sums s a ha, hset]
        simp [Mem.setAcc]
      · rw [hdid r a (hr.trans hown.symm)]
        simp
    · have hacc : m'.acc s a = c.mem.acc s a := by
        rw [hset]
        unfold Mem.setAcc
        by_cases hs : s = gid
        · subst hs
          simp only [Function.update_self]
          exact Function.update_of_ne (fun hab => hcell ⟨rfl, hab⟩) _ _
        · simp only
          rw [Function.update_of_ne hs]
      rw [hacc, done_congr fun r hr hro => ?_]
      · exact h.sums s a ha
      · rw [hdid r a (hro.trans hown.symm)]
        constructor
        · rintro (hd | ⟨rfl, rfl⟩)
          · exact hd
          · refine absurd ⟨?_, rfl⟩ hcell
            have heq := (mem_rowsOf.mp hr).2.symm.trans hgid
            exact h.filed.inj (hk _ hi _ hgid) (Prep.key.inj heq)
        · exact Or.inl

/-- **One step.** -/
theorem Inv.step (h : L.Inv c) (hk : L.Keyed) (hm : L.Moves c.mem (c.pc t) m' p') :
    L.Inv ⟨m', Function.update c.pc t p'⟩ where
  filed := hm.filed (h.knows t) h.filed
  source := hm.source (h.knows t) h.source
  knows u := by
    by_cases hu : u = t
    · subst hu
      change L.Knows m' u (Function.update c.pc u p' u)
      rw [Function.update_self]
      exact hm.knows (h.knows u)
    · change L.Knows m' u (Function.update c.pc t p' u)
      rw [Function.update_of_ne hu]
      exact (h.knows u).mono hk hm.grows
  settled i hi hlt := by
    change i < (Function.update c.pc t p' (L.owner i)).current at hlt
    by_cases ho : L.owner i = t
    · rw [ho, Function.update_self] at hlt
      have hown := (h.knows t).owner
      rcases hm.leaves (h.knows t) with heq | ⟨hnext, hset⟩
      · rw [heq, ← ho] at hlt
        exact (h.settled i hi hlt).mono hk hi hm.grows
      · rw [hnext] at hlt
        rcases (Threads.before_next L.pos (mod_of_owner (ho.trans hown.symm))).mp hlt with hlt | rfl
        · rw [← ho] at hlt
          exact (h.settled i hi hlt).mono hk hi hm.grows
        · exact hset
    · rw [Function.update_of_ne ho] at hlt
      exact (h.settled i hi hlt).mono hk hi hm.grows
  counted := hm.balanced hk (h.knows t) h.counted
  sums s a ha := h.sums_step hk hm s ha
  raised hup := by
    by_cases hold : c.mem.overflow = true
    · obtain ⟨i, hi, hr⟩ := h.raised hold
      exact ⟨i, hi, hr.mono hm.grows⟩
    · have ht := h.knows t
      generalize c.pc t = p at hm ht
      have hg := hm.grows
      cases hm with
      | raise => exact ⟨_, ht.2.1, ht.2.2.mono hg⟩
      | _ => exact absurd hup hold

theorem inv_start (hk : L.Keyed) : L.Inv L.start where
  filed := Probing.filed_empty _
  source s hs := absurd rfl hs
  knows t := Fin.ext (Nat.mod_eq_of_lt t.isLt)
  settled i _ hlt := by
    -- a thread starts at its first row
    change i < i % L.threads at hlt
    exact absurd hlt (Nat.not_lt.mpr (Nat.mod_le _ _))
  counted := by
    simp [start, Pc.counting]
  sums s a _ := by
    change (L.kind a).init = (L.kind a).folded _ (L.done _ hashEmpty a)
    rw [done, rowsOf_empty hk]
    rfl
  raised hup := by cases hup

/-- **Every schedule.** -/
theorem inv_run (hk : L.Keyed) (l : List (Fin L.threads)) : L.Inv (L.run l) :=
  Threads.run_invariant (P := L.Inv) (fun _ _ _ _ h hs => h.step hk (moves_of_step hs))
    (inv_start hk) l

/-! ## 5. The groups -/

/-- The keys the rows look for, each once. -/
def keys (L : HashLaunch) : List Int := ((List.range L.n).filterMap fun i => (L.prep i).sought).dedup

theorem mem_keys {k : Int} : k ∈ L.keys ↔ ∃ i < L.n, L.prep i = .key k := by
  rw [keys, List.mem_dedup, List.mem_filterMap]
  constructor
  · rintro ⟨i, hi, hk⟩
    exact ⟨i, List.mem_range.mp hi, Prep.sought_eq_some.mp hk⟩
  · rintro ⟨i, hi, hk⟩
    exact ⟨i, List.mem_range.mpr hi, Prep.sought_eq_some.mpr hk⟩

/-- The table holds the groups: each key in one slot of the table, their number, and in every slot the
accumulators of the rows with its key. -/
structure Grouped (L : HashLaunch) (m : Mem) : Prop where
  there : ∀ k ∈ L.keys, ∃ s, m.key s = k
  fromRows : ∀ s, m.key s ≠ hashEmpty → m.key s ∈ L.keys
  once : ∀ s s', m.key s ≠ hashEmpty → m.key s' = m.key s → s' = s
  inside : ∀ s, m.key s ≠ hashEmpty → s < L.capacity
  distinct : m.distinct = L.keys.length
  sums : ∀ s, ∀ a < L.nagg, m.acc s a = (L.kind a).folded (L.val a) (L.rowsOf (m.key s))

/-- A thread without a step is through with its rows. -/
theorem row_of_stopped (h : L.step m p = none) : ∃ i, p = .row i ∧ L.n ≤ i := by
  cases p with
  | row i =>
    refine ⟨i, rfl, Nat.not_lt.mp fun hi => ?_⟩
    simp only [step, if_pos hi] at h
    split at h <;> cases h
  | probe i k slot n =>
    simp only [step] at h
    split at h
    · split at h
      · cases h
      · split at h <;> cases h
    · cases h
  | count i gid => cases h
  | reject i => cases h
  | agg i gid a v =>
    simp only [step] at h
    split at h
    · split at h <;> cases h
    · cases h

/-- Every row is through. -/
theorem Inv.settled_of_stopped (h : L.Inv c) (hstop : L.Finished c) {i : Nat}
    (hi : i < L.n) : L.Settled c.mem i := by
  obtain ⟨j, hj, hle⟩ := row_of_stopped (hstop (L.owner i))
  refine h.settled i hi ?_
  rw [hj]
  exact Nat.lt_of_lt_of_le hi hle

theorem Inv.done_of_stopped (h : L.Finished c) (k : Int) (a : Nat) :
    L.done c.pc k a = L.rowsOf k := by
  refine Finset.filter_true_of_mem fun i hi => ?_
  obtain ⟨j, hj, hle⟩ := row_of_stopped (h (L.owner i))
  rw [hj, Pc.did_iff]
  exact Or.inl (Nat.lt_of_lt_of_le (mem_rowsOf.mp hi).1 hle)

theorem Inv.fromRows (h : L.Inv c) {s : Nat} (hs : c.mem.key s ≠ hashEmpty) :
    c.mem.key s ∈ L.keys := by
  obtain ⟨i, hi⟩ := h.source s hs
  exact mem_keys.mpr ⟨i, mem_rowsOf.mp hi⟩

theorem Inv.inside (h : L.Inv c) {s : Nat} (hs : c.mem.key s ≠ hashEmpty) : s < L.capacity := by
  obtain ⟨n, -, hslot, -⟩ := h.filed s hs
  rw [← hslot]
  exact slotAt_lt L.capacity_pos _ n

/-- When no row was refused, every key is there. -/
theorem Inv.there (h : L.Inv c) (hstop : L.Finished c) (hdown : c.mem.overflow = false)
    {k : Int} (hmem : k ∈ L.keys) : ∃ s, c.mem.key s = k := by
  obtain ⟨i, hi, hk⟩ := mem_keys.mp hmem
  rcases h.settled_of_stopped hstop hi with hs | ⟨-, hup⟩ | ⟨s, hs⟩
  · cases hk.symm.trans hs
  · rw [hdown] at hup
    cases hup
  · cases hk.symm.trans hs
    exact ⟨s, rfl⟩

/-- The claimed slots and the keys correspond. -/
theorem Inv.distinct (h : L.Inv c) (hk : L.Keyed) (hstop : L.Finished c)
    (hdown : c.mem.overflow = false) : c.mem.distinct = L.keys.length := by
  have hnone : (Finset.univ.filter fun t => (c.pc t).counting = true) = ∅ := by
    refine Finset.filter_eq_empty_iff.mpr fun t _ hcount => ?_
    obtain ⟨i, hi, -⟩ := row_of_stopped (hstop t)
    rw [hi] at hcount
    cases hcount
  have hcounted := h.counted
  rw [hnone, Finset.card_empty, Nat.add_zero] at hcounted
  have hnd : L.keys.Nodup := List.nodup_dedup _
  rw [hcounted, ← List.toFinset_card_of_nodup hnd]
  refine Finset.card_bij (fun s _ => c.mem.key s) (fun s hs => ?_) (fun s hs s' hs' heq => ?_)
    fun k hmem => ?_
  · exact List.mem_toFinset.mpr (h.fromRows (Finset.mem_filter.mp hs).2)
  · exact h.filed.inj (Finset.mem_filter.mp hs').2 heq
  · have hmem' := List.mem_toFinset.mp hmem
    obtain ⟨s, rfl⟩ := h.there hstop hdown hmem'
    obtain ⟨i, hlt, hi⟩ := mem_keys.mp hmem'
    have hne := hk i hlt _ hi
    exact ⟨s, Finset.mem_filter.mpr ⟨Finset.mem_range.mpr (h.inside hne), hne⟩, rfl⟩

theorem Inv.grouped (h : L.Inv c) (hk : L.Keyed) (hstop : L.Finished c)
    (hdown : c.mem.overflow = false) : L.Grouped c.mem where
  there _ hmem := h.there hstop hdown hmem
  fromRows _ hs := h.fromRows hs
  once _ _ hs heq := h.filed.inj hs heq
  inside _ hs := h.inside hs
  distinct := h.distinct hk hstop hdown
  sums s a ha := by rw [h.sums s a ha, Inv.done_of_stopped hstop]

/-- The flag is up at the end exactly when a row could not be grouped. -/
theorem Inv.overflow_iff (h : L.Inv c) (hk : L.Keyed) (hstop : L.Finished c) :
    c.mem.overflow = true ↔ ∃ i < L.n, L.Refused c.mem i := by
  refine ⟨h.raised, fun ⟨i, hi, hr⟩ => ?_⟩
  rcases h.settled_of_stopped hstop hi with hs | ⟨-, hup⟩ | ⟨s, hs⟩
  · rcases hr with hr | ⟨k, hr, -⟩ <;> cases hr.symm.trans hs
  · exact hup
  · exact absurd hs (hr.no_key hk hi h.filed s)

/-! ## 6. Progress -/

/-- The steps a row can take, retries apart. -/
def rowSteps (L : HashLaunch) : Nat := 70 + 2 * L.nagg

/-- The steps of the row that are behind a thread. -/
def behind : Pc → Nat
  | .row _ => 0
  | .probe _ _ _ p => 1 + p
  | .count _ _ => 66
  | .reject _ => 66
  | .agg _ _ a none => 67 + 2 * a
  | .agg _ _ a (some _) => 68 + 2 * a

/-- The steps that are left to a thread, retries apart. -/
def left (L : HashLaunch) (p : Pc) : Nat := (L.n - p.current) * L.rowSteps - behind p

/-- The thread will find the cell changed. -/
def stale (m : Mem) : Pc → Bool
  | .agg _ gid a (some v) => decide (v ≠ m.acc gid a)
  | _ => false

theorem Knows.behind_lt (h : L.Knows m t p) : behind p < L.rowSteps := by
  unfold rowSteps
  cases p with
  | probe i k slot n =>
    have hle := h.2.2.2.1
    simp only [behind]
    omega
  | agg i gid a v =>
    have hle := h.2.2.1
    cases v <;> simp only [behind] <;> omega
  | _ =>
    simp only [behind]
    omega

/-- A thread with a step has a row. -/
theorem Moves.current_lt (h : L.Moves m p m' p') (ht : L.Knows m t p) : p.current < L.n := by
  cases h with
  | skip hi => exact hi
  | refuse hi => exact hi
  | begin hi => exact hi
  | _ => exact ht.2.1

/-- Getting on with a row. -/
theorem left_lt (hi : p.current < L.n) (hc : p'.current = p.current) (hb : behind p < behind p')
    (hlt : behind p' < L.rowSteps) : L.left p' < L.left p := by
  have hrow : L.rowSteps ≤ (L.n - p.current) * L.rowSteps := Nat.le_mul_of_pos_left _ (by omega)
  unfold left
  rw [hc]
  omega

/-- Going on to the next row. -/
theorem left_next (hi : p.current < L.n) (hlt : behind p < L.rowSteps) :
    L.left (.row (p.current + L.threads)) < L.left p := by
  have hle : L.n - (p.current + L.threads) + 1 ≤ L.n - p.current := by
    have := L.pos
    omega
  have hmul := Nat.mul_le_mul_right L.rowSteps hle
  rw [Nat.add_mul, Nat.one_mul] at hmul
  change (L.n - (p.current + L.threads)) * L.rowSteps - 0 < (L.n - p.current) * L.rowSteps - behind p
  omega

/-- **A step gets its thread on, or reads again what another thread has changed.** -/
theorem Moves.left (h : L.Moves m p m' p') (ht : L.Knows m t p) :
    L.left p' < L.left p ∨ m' = m ∧ L.left p' = L.left p ∧ stale m p = true ∧ stale m p' = false := by
  have hi := h.current_lt ht
  have hlt := ht.behind_lt
  have hlt' := (h.knows ht).behind_lt
  cases h with
  | skip => exact Or.inl (left_next hi hlt)
  | raise => exact Or.inl (left_next hi hlt)
  | close => exact Or.inl (left_next hi hlt)
  | @retry i gid a v ha hv =>
    cases v with
    | none => exact Or.inl (left_lt hi rfl (by simp only [behind]; omega) hlt')
    | some v =>
      refine Or.inr ⟨rfl, rfl, ?_, ?_⟩
      · simpa [stale] using hv
      · simp [stale]
  | @apply i gid a v ha =>
    refine Or.inl (left_lt hi rfl ?_ hlt')
    cases v <;> simp only [behind] <;> omega
  | crowded =>
    have hle := ht.2.2.2.1
    exact Or.inl (left_lt hi rfl (by simp only [behind]; omega) hlt')
  | _ => exact Or.inl (left_lt hi rfl (by simp only [behind]; omega) hlt')

/-- At the start all rows are left. -/
theorem potential_start : Threads.potential L.left (fun _ => stale) L.start ≤
    (L.threads + 1) * (L.threads * (L.n * L.rowSteps)) := by
  have hnone : Threads.stales (fun _ => stale) L.start = ∅ :=
    Finset.filter_eq_empty_iff.mpr fun t _ h => by cases h
  have hsum : (∑ t, L.left (L.start.pc t)) ≤ ∑ _t : Fin L.threads, L.n * L.rowSteps := by
    refine Finset.sum_le_sum fun t _ => ?_
    change (L.n - t) * L.rowSteps - 0 ≤ _
    rw [Nat.sub_zero]
    exact Nat.mul_le_mul_right _ (Nat.sub_le _ _)
  unfold Threads.potential
  rw [hnone, Finset.card_empty, Nat.add_zero, Fintype.card_fin]
  refine Nat.mul_le_mul_left _ (hsum.trans ?_)
  simp

end HashLaunch

/-! ## 7. `hash_kernel` -/

/-- What `hash_kernel` does with a row: the predicate, then the key. -/
def hashPrep (pass : Nat → Bool) (key : Nat → Int) (i : Nat) : Prep :=
  if pass i then (if key i = hashEmpty then .reject else .key (key i)) else .skip

/-- A launch of `hash_kernel`. -/
def hashLaunch (L : Launch) (capacity : Nat) (hcap : 0 < capacity) (pass : Nat → Bool)
    (key : Nat → Int) : HashLaunch :=
  { L with capacity := capacity, capacity_pos := hcap, prep := hashPrep pass key }

theorem hashLaunch_keyed (L : Launch) {capacity : Nat} (hcap : 0 < capacity) (pass : Nat → Bool)
    (key : Nat → Int) : (hashLaunch L capacity hcap pass key).Keyed := by
  intro i _ k h
  change hashPrep pass key i = .key k at h
  unfold hashPrep at h
  split at h
  · split at h
    · cases h
    · rename_i hne
      cases h
      exact hne
  · cases h

/-- **Any interleaving groups the rows.**  When every thread of `hash_kernel` has finished, the overflow flag
is up exactly if the key of some passing row is `-1` or finds all its slots taken by other keys; and if the
flag is down, the table holds the groups of the passing rows. -/
theorem hash_kernel_groups (L : Launch) {capacity : Nat} (hcap : 0 < capacity) (pass : Nat → Bool)
    (key : Nat → Int) (l : List (Fin L.threads))
    (hstop : (hashLaunch L capacity hcap pass key).Finished
      ((hashLaunch L capacity hcap pass key).run l)) :
    let H := hashLaunch L capacity hcap pass key
    let m := (H.run l).mem
    (m.overflow = true ↔ ∃ i < L.n, H.Refused m i) ∧ (m.overflow = false → H.Grouped m) := by
  have hk := hashLaunch_keyed L hcap pass key
  have hinv := HashLaunch.inv_run hk l
  exact ⟨hinv.overflow_iff hk hstop, hinv.grouped hk hstop⟩

/-- **No interleaving goes on for ever.**  A schedule that gives every turn to a thread with a step is not
longer than this bound, although a compare-and-swap of MIN and MAX may fail: it fails only when another
thread got on. -/
theorem hash_kernel_stops (L : Launch) {capacity : Nat} (hcap : 0 < capacity) (pass : Nat → Bool)
    (key : Nat → Int) {l : List (Fin L.threads)}
    (hl : Run.Along (Threads.act fun _ => (hashLaunch L capacity hcap pass key).step)
      (Threads.Ready fun _ => (hashLaunch L capacity hcap pass key).step)
      (hashLaunch L capacity hcap pass key).start l) :
    l.length ≤ (L.threads + 1) * (L.threads * (L.n * (70 + 2 * L.nagg))) := by
  have hk := hashLaunch_keyed L hcap pass key
  refine le_trans (Threads.length_le_of_retry (P := HashLaunch.Inv _) (fun c t m p h hs => ?_)
    (HashLaunch.inv_start hk) hl) HashLaunch.potential_start
  exact ⟨h.step hk (HashLaunch.moves_of_step hs), (HashLaunch.moves_of_step hs).left (h.knows t)⟩

theorem small_three : 3 + 2 ≤ 2 ^ 31 := by decide

/-- Two threads, three rows with two keys, and a minimum. -/
def threeRows : Launch where
  threads := 2
  pos := Nat.two_pos
  n := 3
  small := small_three
  nagg := 1
  kind _ := .min
  eval i _ := [5, 4, 3].getD i 0

/-- Its table of four slots, for the keys 7, 7 and 9. -/
def threeRowsHash : HashLaunch :=
  hashLaunch threeRows 4 (by decide) (fun _ => true) fun i => [7, 7, 9].getD i 0

/-- The second thread changes the minimum between the first one's read and its swap. -/
def mixed : List (Fin 2) := [0, 0, 1, 1, 0, 0, 1, 1, 0, 0, 1, 0, 0, 0, 0, 0, 0, 0, 0]

/-- **A swap fails and a key collides**, and the groups are right. -/
theorem hash_kernel_groups_mixed : threeRowsHash.Grouped (threeRowsHash.run mixed).mem ∧
    (threeRowsHash.run mixed).mem.distinct = 2 ∧ (threeRowsHash.run mixed).mem.acc 1 0 = ofRat 4 :=
  ⟨(hash_kernel_groups threeRows (by decide) _ _ mixed (by decide +kernel)).2 (by decide +kernel),
    by decide +kernel, by decide +kernel⟩

theorem hash_kernel_stops_mixed : mixed.length ≤ 3 * (2 * (3 * 72)) := by
  have hready : Run.Along (Threads.act fun _ => threeRowsHash.step)
      (Threads.Ready fun _ => threeRowsHash.step)
      (⟨threeRowsHash.start.mem, threeRowsHash.start.pc⟩ : Threads.State (Fin 2) Mem Pc) mixed := by
    decide +kernel
  exact hash_kernel_stops threeRows (show 0 < 4 by decide) (fun _ => true)
    (fun i => [7, 7, 9].getD i 0) hready

end RyuDB.Kernels
