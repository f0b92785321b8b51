/-
# Decoding dictionary indices on the device

The values of a dictionary column are indices, in runs of the hybrid encoding.  `scan_runs_batched_kernel`
goes over the headers of a page with one thread and lists the runs in a table of 32768 entries;
`apply_runs_batched_kernel` finds the run of each value by binary search, and takes the value out of it.

A value in a packed run is read out of two bytes.  The host does not look at the width of the indices, and
from eleven bits on a value may lie in three.

* `scanLoop_runs`: the table lists the runs as far as they are needed, and the flag tells when it is full.
* `search_spec`: the binary search finds the last entry that begins at or before a value.
* `apply_runs_right_iff`: **the widths for which every page is decoded right.**
-/
import Mathlib.Tactic.IntervalCases
import RyuDB.Lib.Hybrid
import RyuDB.PageSkips

namespace RyuDB

namespace Pages

open Hybrid (Run)

/-! ## 1. The kernels -/

/-- The memory around a page, by the distance from its first byte. -/
abbrev Memory := Int → UInt8

structure RunEntry where
  outStart : Int
  count : Int
  isRle : Bool
  value : Int
  dataOff : Int
  deriving Inhabited

/-- `PQ_RUNS_CAP`. -/
def runsCap : Nat := 32768

/-- The loop over the bytes of a run's header: the number, and the position behind it. -/
def headerLoop (mem : Memory) : Nat → Nat → Nat → Int → Nat × Int
  | 0, _, h, pos => (h, pos)
  | k + 1, sh, h, pos =>
    let b := (mem pos).toNat
    let h := h ||| ((b % 128) <<< sh) % 2 ^ 64
    if b < 128 then (h, pos + 1) else headerLoop mem k (sh + 7) h (pos + 1)

/-- The loop over the bytes of a value: its bits after the first ones. -/
def valueLoop (mem : Memory) (pos : Int) : Nat → Nat
  | 0 => 0
  | b + 1 => valueLoop mem pos b ||| (mem (pos + b)).toNat <<< (8 * b)

/-- A run as the scan reads it: its entry, the position behind it, and the number of the next value. -/
def scanRun (mem : Memory) (bitwidth : Nat) (pos cur : Int) : RunEntry × Int × Int :=
  let (h, pos) := headerLoop mem 10 0 0 pos
  let cnt := int32 (h / 2 : Nat)
  if h % 2 = 0 then
    let vw := (bitwidth + 7) / 8
    let val := int32 (valueLoop mem pos vw)
    (⟨cur, cnt, true, val, 0⟩, pos + vw, int32 (cur + cnt))
  else
    let nvalsRun := int32 (cnt * 8)
    let nbytes := int32 (cnt * bitwidth)
    (⟨cur, nvalsRun, false, 0, pos⟩, pos + nbytes, int32 (cur + nvalsRun))

/-- The loop over the runs, with the entries that are left in the table: the entries, and the flag. -/
def scanLoop (mem : Memory) (bitwidth : Nat) (numValues : Int) : Nat → Int → Int → List RunEntry × Bool
  | 0, _, _ => ([], true)
  | left + 1, pos, cur =>
    if cur < numValues then
      let (e, pos, cur) := scanRun mem bitwidth pos cur
      let (es, overflow) := scanLoop mem bitwidth numValues left pos cur
      (e :: es, overflow)
    else ([], false)

/-- What the scan leaves for the second kernel. -/
structure Scanned where
  runs : List RunEntry
  bitwidth : Nat
  overflow : Bool

/-- `scan_runs_batched_kernel` on a page. -/
def scanRuns (mem : Memory) (numValues : Int) : Scanned :=
  let deflen := int32 (valueLoop mem 0 4)
  let bitwidth := (mem (4 + deflen)).toNat
  let (runs, overflow) := scanLoop mem bitwidth numValues runsCap (4 + deflen + 1) 0
  ⟨runs, bitwidth, overflow⟩

/-- The binary search over the entries from `lo` to `hi`. -/
def search (runs : List RunEntry) (i lo hi : Int) (ans : Nat) : Nat :=
  if lo ≤ hi then
    let mid := (lo + hi) / 2
    if (runs.getD mid.toNat default).outStart ≤ i then search runs i (mid + 1) hi mid.toNat
    else search runs i lo (mid - 1) ans
  else ans
termination_by (hi + 1 - lo).toNat

/-- A value of a packed run. -/
def unpackValue (mem : Memory) (bitwidth : Nat) (e : RunEntry) (i : Int) : Int :=
  let loc := int32 (i - e.outStart)
  let bit := int32 (loc * bitwidth)
  let byteoff := e.dataOff + bit.tdiv 8
  let bitin := (bit % 8).toNat
  let mask := if 32 ≤ bitwidth then 2 ^ 32 - 1 else 2 ^ bitwidth - 1
  let val := (mem byteoff).toNat >>> bitin
  let val := if 8 < bitin + bitwidth then val ||| (mem (byteoff + 1)).toNat <<< (8 - bitin) else val
  int32 (val &&& mask : Nat)

/-- `apply_runs_batched_kernel` on a page: the index of value `i`. -/
def applyRuns (mem : Memory) (sc : Scanned) (i : Int) : Int :=
  let e := sc.runs.getD (search sc.runs i 0 (sc.runs.length - 1) 0) default
  if e.isRle then e.value else unpackValue mem sc.bitwidth e i

/-! ## 2. Pages -/

/-- The bytes are in the memory from `pos` on. -/
def InMemory (mem : Memory) : Int → Bytes → Prop
  | _, [] => True
  | pos, b :: bs => mem pos = b ∧ InMemory mem (pos + 1) bs

variable {mem : Memory} {w : Nat}

theorem inMemory_append {pos : Int} {bs bs' : Bytes} :
    InMemory mem pos (bs ++ bs') ↔ InMemory mem pos bs ∧ InMemory mem (pos + bs.length) bs' := by
  induction bs generalizing pos with
  | nil => simp [InMemory]
  | cons b bs ih =>
    rw [List.cons_append, InMemory, InMemory, ih, and_assoc, List.length_cons]
    push_cast
    rw [add_assoc, add_comm (1 : Int)]

theorem InMemory.get {pos : Int} {bs : Bytes} (h : InMemory mem pos bs) {k : Nat} {b : UInt8}
    (hk : bs[k]? = some b) : mem (pos + k) = b := by
  induction bs generalizing pos k with
  | nil => cases hk
  | cons c bs ih =>
    cases k with
    | zero =>
      rw [List.getElem?_cons_zero, Option.some.injEq] at hk
      simpa [hk] using h.1
    | succ k =>
      have := ih h.2 hk
      rw [← this]
      congr 1
      push_cast
      ring

/-- The bytes of all runs. -/
def runsBytes (runs : List (Run w)) : Bytes := runs.flatMap Run.bytes

/-- The values of all runs. -/
def runsValues (runs : List (Run w)) : List Nat := runs.flatMap Run.values

/-- The data page of a dictionary column: its definition levels, and its indices of `w` bits. -/
structure DictPage (w : Nat) where
  defs : Bytes
  runs : List (Run w)

namespace DictPage

/-- The page as it is in the file, decompressed. -/
def bytes (pg : DictPage w) : Bytes :=
  Bytes.packLE 4 pg.defs.length ++ pg.defs ++ [UInt8.ofNat w] ++ runsBytes pg.runs

/-- The indices of the rows. -/
def indexes (pg : DictPage w) : List Nat := runsValues pg.runs

/-- No `int` overflows in the page. -/
structure Small (pg : DictPage w) : Prop where
  bits : pg.bytes.length * 8 < 2 ^ 31
  values : pg.indexes.length < 2 ^ 31

end DictPage

/-! ## 3. Headers and repeated values -/

/-- The loop reads these digits of a number of 64 bits behind what it has so far. -/
def HeaderDigits (k n : Nat) (ds : Bytes) : Prop :=
  ∀ {mem : Memory} {sh h : Nat} {pos : Int}, h < 2 ^ sh → n * 2 ^ sh < 2 ^ 64 → InMemory mem pos ds →
    headerLoop mem (k + 1) sh h pos = (h + n * 2 ^ sh, pos + ds.length)

theorem headerLoop_last (k n : Nat) (b : UInt8) (hb : b.toNat = n) (hlt : n < 128) :
    HeaderDigits k n [b] := by
  intro mem sh h pos hh hfit hmem
  rw [headerLoop, hmem.1]
  simp only [hb, hlt, if_true, Nat.mod_eq_of_lt hlt, or_shift hh hfit]
  simp

theorem headerLoop_more (k n : Nat) (b : UInt8) (bs : Bytes) (hb : b.toNat = n % 128 + 128)
    (ih : HeaderDigits k (n / 128) bs) : HeaderDigits (k + 1) n (b :: bs) := by
  intro mem sh h pos hh hfit hmem
  have hdigit : b.toNat % 128 = n % 128 := by omega
  have hmore : ¬b.toNat < 128 := by omega
  have hpow : 2 ^ (sh + 7) = 2 ^ sh * 128 := pow_add 2 sh 7
  have hsum : n % 128 * 2 ^ sh + n / 128 * 2 ^ (sh + 7) = n * 2 ^ sh := by
    calc n % 128 * 2 ^ sh + n / 128 * 2 ^ (sh + 7)
        = (n % 128 + 128 * (n / 128)) * 2 ^ sh := by rw [hpow]; ring
      _ = n * 2 ^ sh := by rw [Nat.mod_add_div]
  have hsmall : h + n % 128 * 2 ^ sh < 2 ^ (sh + 7) := by
    have hlt : n % 128 ≤ 127 := by omega
    have := Nat.mul_le_mul_right (2 ^ sh) hlt
    omega
  rw [headerLoop, hmem.1]
  simp only [hdigit, hmore, if_false, or_shift hh (d := n % 128) (by omega)]
  rw [ih hsmall (by omega) hmem.2, Nat.add_assoc, hsum, List.length_cons]
  push_cast
  rw [add_assoc, add_comm (1 : Int)]

/-- The header of a run is read as it was written. -/
theorem headerLoop_natural {n : Nat} (hn : n < 2 ^ 64) {pos : Int} (hmem : InMemory mem pos (Thrift.natural n)) :
    headerLoop mem 10 0 0 pos = (n, pos + (Thrift.natural n).length) := by
  have hread : HeaderDigits 9 n (Thrift.natural n) :=
    Thrift.digits_cases headerLoop_last headerLoop_more 9 n (lt_of_lt_of_le hn (by decide))
  have := @hread mem 0 0 pos (by decide) (by simpa using hn) hmem
  simpa using this

/-- The bytes of a number are put together. -/
theorem valueLoop_packLE {m n : Nat} {pos : Int} (hmem : InMemory mem pos (Bytes.packLE m n)) {k : Nat}
    (hk : k ≤ m) : valueLoop mem pos k = n % 256 ^ k := by
  induction k with
  | zero => simp [valueLoop, Nat.mod_one]
  | succ k ih =>
    have hbyte : (mem (pos + k)).toNat = n / 256 ^ k % 256 := by
      rw [hmem.get (Bytes.getElem?_packLE n hk), UInt8.toNat_ofNat']
      omega
    have hpow : 2 ^ (8 * k) = 256 ^ k := pow_mul 2 8 k
    have hlow : n % 256 ^ k < 2 ^ (8 * k) := by
      rw [hpow]
      exact Nat.mod_lt _ (by positivity)
    rw [valueLoop, ih (by omega), hbyte, Nat.shiftLeft_eq, Nat.or_comm, Nat.mul_comm,
      ← Nat.two_pow_add_eq_or_of_lt hlow, Nat.mod_pow_succ, hpow, Nat.add_comm]

theorem valueLoop_eq {m n : Nat} {pos : Int} (hmem : InMemory mem pos (Bytes.packLE m n)) (hn : n < 256 ^ m) :
    valueLoop mem pos m = n := by
  rw [valueLoop_packLE hmem (le_refl m), Nat.mod_eq_of_lt hn]

/-! ## 4. The scan -/

theorem int32_natCast {n : Nat} (hn : n < 2 ^ 31) : int32 n = n :=
  Int.bmod_eq_of_le_mul_two (by omega) (by omega)

/-- The entry of a run that begins at `pos`, with the value of number `cur`. -/
def entry (pos : Int) (cur : Nat) : Run w → RunEntry
  | .repeated count value => ⟨cur, count, true, int32 (value : Nat), 0⟩
  | .packed groups =>
    ⟨cur, (groups.length * 8 : Nat), false, 0, pos + (Thrift.natural (2 * groups.length + 1)).length⟩

@[simp] theorem entry_outStart (pos : Int) (cur : Nat) (r : Run w) : (entry pos cur r).outStart = cur := by
  cases r with
  | repeated count value => rfl
  | packed groups => rfl

/-- The entries of runs that lie one behind the other. -/
def table : Int → Nat → List (Run w) → List RunEntry
  | _, _, [] => []
  | pos, cur, r :: rs => entry pos cur r :: table (pos + r.bytes.length) (cur + r.size) rs

/-- The runs that begin before the value of number `n`. -/
def needed (n : Nat) : Nat → List (Run w) → List (Run w)
  | _, [] => []
  | cur, r :: rs => if cur < n then r :: needed n (cur + r.size) rs else []

/-- A value fits in its bytes. -/
theorem value_lt (value : Fin (2 ^ w)) : (value : Nat) < 256 ^ ((w + 7) / 8) := by
  refine lt_of_lt_of_le value.isLt ?_
  calc 2 ^ w ≤ 2 ^ (8 * ((w + 7) / 8)) := Nat.pow_le_pow_right (by omega) (by omega)
    _ = 256 ^ ((w + 7) / 8) := pow_mul 2 8 _

/-- A run is read as it was written. -/
theorem scanRun_eq (r : Run w) {pos : Int} {cur : Nat} (hmem : InMemory mem pos r.bytes)
    (hsize : cur + r.size < 2 ^ 31) (hbytes : r.bytes.length < 2 ^ 31) :
    scanRun mem w pos cur = (entry pos cur r, pos + r.bytes.length, ((cur + r.size : Nat) : Int)) := by
  cases r with
  | repeated count value =>
    rw [Run.size] at hsize
    rw [Run.bytes, inMemory_append] at hmem
    have hnext : int32 ((cur : Int) + count) = (cur + count : Nat) := by
      rw [← Nat.cast_add]
      exact int32_natCast hsize
    simp only [scanRun, headerLoop_natural (show 2 * count < 2 ^ 64 by omega) hmem.1,
      Nat.mul_mod_right, if_true, Nat.mul_div_cancel_left count two_pos,
      valueLoop_eq hmem.2 (value_lt value), int32_natCast (show count < 2 ^ 31 by omega), hnext]
    simp [entry, Run.bytes, Run.size, add_assoc]
  | packed groups =>
    rw [Run.size] at hsize
    rw [Run.bytes, inMemory_append] at hmem
    rw [Run.bytes, List.length_append, Run.packedBytes, Bytes.length_packLE] at hbytes
    have hhalf : (2 * groups.length + 1) / 2 = groups.length := by omega
    have hodd : (2 * groups.length + 1) % 2 ≠ 0 := by omega
    have hcount : int32 ((groups.length : Int) * 8) = (groups.length * 8 : Nat) := by
      rw [← int32_natCast (show groups.length * 8 < 2 ^ 31 by omega), Nat.cast_mul, Nat.cast_ofNat]
    have hlen : int32 ((groups.length : Int) * w) = (groups.length * w : Nat) := by
      rw [← int32_natCast (show groups.length * w < 2 ^ 31 by omega), Nat.cast_mul]
    have hnext : int32 ((cur : Int) + (groups.length * 8 : Nat)) = (cur + groups.length * 8 : Nat) := by
      rw [← Nat.cast_add]
      exact int32_natCast hsize
    simp only [scanRun, headerLoop_natural (show 2 * groups.length + 1 < 2 ^ 64 by omega) hmem.1, hodd,
      if_false, hhalf, int32_natCast (show groups.length < 2 ^ 31 by omega), hcount, hlen, hnext]
    simp [entry, Run.bytes, Run.packedBytes, Run.size, add_assoc]

theorem runsBytes_cons (r : Run w) (rs : List (Run w)) : runsBytes (r :: rs) = r.bytes ++ runsBytes rs :=
  List.flatMap_cons

theorem runsValues_cons (r : Run w) (rs : List (Run w)) : runsValues (r :: rs) = r.values ++ runsValues rs :=
  List.flatMap_cons

/-- The table lists the runs as far as they are needed, and the flag tells when it is full. -/
theorem scanLoop_runs {n : Nat} (runs : List (Run w)) {left : Nat} {pos : Int} {cur : Nat}
    (hmem : InMemory mem pos (runsBytes runs)) (hsize : cur + (runsValues runs).length < 2 ^ 31)
    (hbytes : (runsBytes runs).length < 2 ^ 31) (hn : n ≤ cur + (runsValues runs).length) :
    scanLoop mem w n left pos cur =
      (table pos cur ((needed n cur runs).take left), decide (left ≤ (needed n cur runs).length)) := by
  induction runs generalizing left pos cur with
  | nil =>
    cases left with
    | zero => simp [scanLoop, needed, table]
    | succ left =>
      have hdone : ¬((cur : Int) < n) := by
        simp [runsValues] at hn
        omega
      rw [scanLoop, if_neg hdone]
      simp [needed, table]
  | cons r rs ih =>
    rw [runsBytes_cons, List.length_append] at hbytes
    rw [runsBytes_cons, inMemory_append] at hmem
    rw [runsValues_cons, List.length_append, Run.length_values] at hsize hn
    cases left with
    | zero => simp [scanLoop, table]
    | succ left =>
      rw [scanLoop, needed]
      by_cases hlt : cur < n
      · have hrest := @ih left _ (cur + r.size) hmem.2 (by omega) (by omega) (by omega)
        rw [if_pos (by exact_mod_cast hlt), if_pos hlt, scanRun_eq r hmem.1 (by omega) (by omega)]
        simp only [hrest, List.take_succ_cons, table, List.length_cons, Nat.add_le_add_iff_right]
      · rw [if_neg (by exact_mod_cast hlt), if_neg hlt]
        simp [table]

/-- The runs that are needed come first, and they have the values. -/
theorem needed_append {n : Nat} (runs : List (Run w)) {cur : Nat}
    (hn : n ≤ cur + (runsValues runs).length) :
    ∃ rest, runs = needed n cur runs ++ rest ∧ n ≤ cur + (runsValues (needed n cur runs)).length := by
  induction runs generalizing cur with
  | nil => exact ⟨[], rfl, hn⟩
  | cons r rs ih =>
    rw [runsValues_cons, List.length_append, Run.length_values] at hn
    rw [needed]
    split_ifs with hlt
    · obtain ⟨rest, hrest, hle⟩ := @ih (cur + r.size) (by omega)
      refine ⟨rest, by rw [List.cons_append, ← hrest], ?_⟩
      rw [runsValues_cons, List.length_append, Run.length_values]
      omega
    · exact ⟨r :: rs, rfl, by simp [runsValues]; omega⟩

/-! ## 5. Finding a run -/

/-- Number `k` is the last entry that begins at or before `i`. -/
def IsLast (es : List RunEntry) (i : Int) (k : Nat) : Prop :=
  (∃ e, es[k]? = some e ∧ e.outStart ≤ i) ∧ ∀ k' e, k < k' → es[k']? = some e → i < e.outStart

/-- The entries before `lo` begin at or before `i`, those after `hi` after it. -/
theorem search_last {es : List RunEntry} {i : Int}
    (hsorted : es.Pairwise fun e e' => e.outStart ≤ e'.outStart)
    (hfirst : ∃ e, es[0]? = some e ∧ e.outStart ≤ i) (lo hi : Int) (ans : Nat) (hlo : 0 ≤ lo)
    (hlen : hi < es.length) (hle : lo ≤ hi + 1)
    (hbelow : ∀ (k : Nat) e, (k : Int) < lo → es[k]? = some e → e.outStart ≤ i)
    (habove : ∀ (k : Nat) e, hi < (k : Int) → es[k]? = some e → i < e.outStart)
    (hans : (ans : Int) + 1 = lo ∨ lo = 0 ∧ ans = 0) : IsLast es i (search es i lo hi ans) := by
  have hmono : ∀ (k k' : Nat) e e', k ≤ k' → es[k]? = some e → es[k']? = some e' → e.outStart ≤ e'.outStart := by
    intro k k' e e' hkk he he'
    obtain ⟨hk, rfl⟩ := List.getElem?_eq_some_iff.mp he
    obtain ⟨hk', rfl⟩ := List.getElem?_eq_some_iff.mp he'
    rcases Nat.eq_or_lt_of_le hkk with rfl | hlt
    · exact le_refl _
    · exact List.pairwise_iff_getElem.mp hsorted k k' hk hk' hlt
  fun_induction search es i lo hi ans with
  | case1 lo hi ans hrun mid hmid ih =>
    have hdef : mid = (lo + hi) / 2 := rfl
    have hget : es[mid.toNat]? = some (es.getD mid.toNat default) := by
      rw [List.getD_eq_getElem _ _ (by omega), List.getElem?_eq_getElem]
    refine ih (by omega) hlen (by omega) (fun k e hk he => ?_) habove (Or.inl (by omega))
    exact le_trans (hmono k mid.toNat e _ (by omega) he hget) hmid
  | case2 lo hi ans hrun mid hmid ih =>
    have hdef : mid = (lo + hi) / 2 := rfl
    have hget : es[mid.toNat]? = some (es.getD mid.toNat default) := by
      rw [List.getD_eq_getElem _ _ (by omega), List.getElem?_eq_getElem]
    refine ih hlo (by omega) (by omega) hbelow (fun k e hk he => ?_) hans
    exact lt_of_lt_of_le (not_le.mp hmid) (hmono mid.toNat k _ e (by omega) hget he)
  | case3 lo hi ans hrun =>
    refine ⟨?_, fun k e hk he => habove k e (by omega) he⟩
    rcases hans with hans | ⟨hzero, hans⟩
    · have hin : ans < es.length := by omega
      exact ⟨es[ans], List.getElem?_eq_getElem hin,
        hbelow ans _ (by omega) (List.getElem?_eq_getElem hin)⟩
    · rw [hans]
      exact hfirst

/-- The binary search finds the last entry that begins at or before a value. -/
theorem search_spec {es : List RunEntry} {i : Int}
    (hsorted : es.Pairwise fun e e' => e.outStart ≤ e'.outStart)
    (hfirst : ∃ e, es[0]? = some e ∧ e.outStart ≤ i) :
    IsLast es i (search es i 0 (es.length - 1) 0) :=
  search_last hsorted hfirst 0 (es.length - 1) 0 (le_refl 0) (by omega) (by omega)
    (fun k _ hk _ => by omega)
    (fun k e hk he => by
      have := (List.getElem?_eq_some_iff.mp he).1
      omega)
    (Or.inr ⟨rfl, rfl⟩)

theorem le_outStart {pos : Int} {cur : Nat} {rs : List (Run w)} {e : RunEntry}
    (he : e ∈ table pos cur rs) : (cur : Int) ≤ e.outStart := by
  induction rs generalizing pos cur with
  | nil => cases he
  | cons r rs ih =>
    rcases List.mem_cons.mp he with rfl | he
    · rw [entry_outStart]
    · have := ih he
      omega

theorem table_sorted (pos : Int) (cur : Nat) (rs : List (Run w)) :
    (table pos cur rs).Pairwise fun e e' => e.outStart ≤ e'.outStart := by
  induction rs generalizing pos cur with
  | nil => exact List.Pairwise.nil
  | cons r rs ih =>
    refine List.Pairwise.cons (fun e he => ?_) (ih _ _)
    have := le_outStart he
    rw [entry_outStart]
    omega

/-- The entry of value `i` is that of its run. -/
theorem table_last {rs : List (Run w)} {pos : Int} {cur i k : Nat} {e : RunEntry}
    (hmem : InMemory mem pos (runsBytes rs)) (hi : i < cur + (runsValues rs).length)
    (he : (table pos cur rs)[k]? = some e) (hle : e.outStart ≤ i)
    (hlast : ∀ k' e', k < k' → (table pos cur rs)[k']? = some e' → (i : Int) < e'.outStart) :
    ∃ (r : Run w) (p : Int) (c : Nat), e = entry p c r ∧ InMemory mem p r.bytes ∧ r.bytes.length ≤
      (runsBytes rs).length ∧ cur ≤ c ∧ c ≤ i ∧ i - c < r.size ∧
      (runsValues rs)[i - cur]? = r.values[i - c]? := by
  induction rs generalizing pos cur k with
  | nil => cases he
  | cons r rs ih =>
    rw [runsBytes_cons, inMemory_append] at hmem
    rw [runsValues_cons, List.length_append, Run.length_values] at hi
    rw [runsBytes_cons, List.length_append]
    cases k with
    | zero =>
      rw [table, List.getElem?_cons_zero, Option.some.injEq] at he
      subst he
      rw [entry_outStart] at hle
      have hin : i - cur < r.size := by
        cases rs with
        | nil =>
          simp [runsValues] at hi
          omega
        | cons r' rs =>
          have := hlast 1 _ Nat.one_pos rfl
          rw [entry_outStart] at this
          omega
      refine ⟨r, pos, cur, rfl, hmem.1, Nat.le_add_right _ _, le_refl _, by omega, hin, ?_⟩
      rw [runsValues_cons, List.getElem?_append_left (by rw [Run.length_values]; exact hin)]
    | succ k =>
      rw [table, List.getElem?_cons_succ] at he
      have hstart := le_outStart (List.mem_of_getElem? he)
      obtain ⟨r', p, c, hentry, hmem', hbytes, hcur, hc, hin, hval⟩ := ih hmem.2 (by omega) he
        fun k' e' hk he' => hlast (k' + 1) e' (by omega) he'
      refine ⟨r', p, c, hentry, hmem', by omega, by omega, hc, hin, ?_⟩
      rw [← hval, runsValues_cons, List.getElem?_append_right (by rw [Run.length_values]; omega),
        Run.length_values]
      congr 1
      omega

/-! ## 6. Values of packed runs -/

/-- Two bytes have no more bits than these. -/
theorem unpackValue_lt (mem : Memory) (bitwidth : Nat) (e : RunEntry) (i : Int) :
    ∃ v : Nat, unpackValue mem bitwidth e i = int32 v ∧
      v < 2 ^ (16 - (int32 (int32 (i - e.outStart) * bitwidth) % 8).toNat) := by
  refine ⟨_, rfl, lt_of_le_of_lt Nat.and_le_left ?_⟩
  generalize int32 (int32 (i - e.outStart) * bitwidth) = bit
  have hs : (bit % 8).toNat ≤ 8 := by omega
  generalize (bit % 8).toNat = s at hs
  have hpow : 2 ^ 16 = 2 ^ (16 - s) * 2 ^ s := by
    rw [← pow_add]
    congr 1
    omega
  have hb₀ := (mem (e.dataOff + bit.tdiv 8)).toNat_lt
  have hb₁ := (mem (e.dataOff + bit.tdiv 8 + 1)).toNat_lt
  split_ifs with htwo
  · rw [Hybrid.or_window hb₀ hs, Nat.div_lt_iff_lt_mul (Nat.two_pow_pos s), ← hpow]
    omega
  · rw [Nat.shiftRight_eq_div_pow, Nat.div_lt_iff_lt_mul (Nat.two_pow_pos s), ← hpow]
    omega

/-- The bytes of a packed run are those of one number. -/
theorem packed_byte {groups : List (Fin 8 → Fin (2 ^ w))} {p : Int}
    (hmem : InMemory mem p (Run.packedBytes groups)) {k : Nat} (hk : k < groups.length * w) :
    (mem (p + k)).toNat = Nat.ofDigits (2 ^ w) (Run.ungroup groups) / 256 ^ k % 256 := by
  rw [hmem.get (Bytes.getElem?_packLE _ hk), UInt8.toNat_ofNat']
  omega

theorem mask_eq (hw : w ≤ 32) : (if 32 ≤ w then 2 ^ 32 - 1 else 2 ^ w - 1) = 2 ^ w - 1 := by
  split_ifs with h
  · rw [le_antisymm hw h]
  · rfl

/-- Two bytes of a number. -/
theorem two_bytes (n q : Nat) :
    n / 256 ^ q % 256 + 256 * (n / 256 ^ (q + 1) % 256) = n / 256 ^ q % 256 ^ 2 := by
  rw [pow_succ 256 q, ← Nat.div_div_eq_div_mul, ← Nat.mod_mul]
  rfl

/-- A value whose bits lie in two bytes is taken out of them. -/
theorem unpackValue_packed {groups : List (Fin 8 → Fin (2 ^ w))} {p : Int} {c i : Nat} (hw : w ≤ 32)
    (hmem : InMemory mem p (Run.packed groups).bytes) (hbits : (Run.packed groups).bytes.length * 8 < 2 ^ 31)
    (hci : c ≤ i) (hi : i - c < (Run.packed groups).size) (hi31 : i < 2 ^ 31)
    (hfit : (i - c) * w % 8 + w ≤ 16) :
    ∃ v, (Run.packed groups).values[i - c]? = some v ∧
      unpackValue mem w (entry p c (.packed groups)) i = int32 (v : Nat) := by
  have hlen : i - c < (Run.ungroup groups).length := by
    rw [Run.length_ungroup]
    exact hi
  refine ⟨(Run.ungroup groups)[i - c], List.getElem?_eq_getElem hlen, ?_⟩
  rw [← Hybrid.packed_bits (fun v hv => Run.lt_of_mem_ungroup hv) hlen]
  rw [Run.bytes, inMemory_append] at hmem
  rw [Run.bytes, List.length_append, Run.packedBytes, Bytes.length_packLE] at hbits
  rw [Run.size] at hi
  have hend : (i - c) * w + w ≤ 8 * (groups.length * w) := by
    rw [← Nat.succ_mul]
    calc (i - c).succ * w ≤ groups.length * 8 * w := Nat.mul_le_mul_right w hi
      _ = 8 * (groups.length * w) := by ring
  have hloc : int32 ((i : Int) - c) = (i - c : Nat) := by
    rw [← Nat.cast_sub hci]
    exact int32_natCast (by omega)
  have hbit : int32 (((i - c : Nat) : Int) * w) = ((i - c) * w : Nat) := by
    rw [← Nat.cast_mul]
    exact int32_natCast (by omega)
  generalize (i - c) * w = bit at hend hbit hfit
  have hbyte : (bit : Int).tdiv 8 = (bit / 8 : Nat) := rfl
  have hin : ((bit : Int) % 8).toNat = bit % 8 := rfl
  simp only [unpackValue, entry, hloc, hbit, hbyte, hin, mask_eq hw, Nat.and_two_pow_sub_one_eq_mod]
  clear hloc hbit hbyte hin
  refine congrArg (fun n : Nat => int32 n) ?_
  rcases Nat.eq_zero_or_pos w with rfl | hpos
  · simp [Nat.mod_one]
  rw [packed_byte hmem.2 (by omega)]
  split_ifs with htwo
  · -- the value goes on in the next byte
    rw [add_assoc, ← Nat.cast_succ, packed_byte hmem.2 (by omega),
      Hybrid.or_window (Nat.mod_lt _ (by decide)) (by omega), two_bytes, Hybrid.window_bits hfit]
  · rw [Nat.shiftRight_eq_div_pow]
    exact @Hybrid.window_bits _ bit w 1 (by omega)

/-! ## 7. Which widths are decoded right

A value that begins at bit `k` of its byte lies in two bytes when `k + w` is at most 16.  Up to nine
bits this is so for every `k`; values of ten bits begin at even bits, those of twelve at bit 0 or 4,
and those of sixteen at bit 0. -/

/-- The values of this width lie in two bytes, wherever they begin. -/
def Fits (w : Nat) : Prop := w ≤ 10 ∨ w = 12 ∨ w = 16

instance : Decidable (Fits w) := inferInstanceAs (Decidable (_ ∨ _))

theorem fits_spec : ∀ w ≤ 32, (Fits w → ∀ s < 8, s * w % 8 + w ≤ 16) ∧
    (¬Fits w → ∃ s < 8, 16 < s * w % 8 + w) := by
  decide

/-- A page is decoded right: the flag is up, or every index is the one that was written. -/
def Decoded (pg : DictPage w) (mem : Memory) (n : Nat) : Prop :=
  (scanRuns mem n).overflow = false →
    ∀ i < n, ∃ v, pg.indexes[i]? = some v ∧ applyRuns mem (scanRuns mem n) i = int32 (v : Nat)

/-- What the scan finds in a page. -/
theorem scanRuns_page {pg : DictPage w} (hw : w ≤ 32) (hsmall : pg.Small) (hmem : InMemory mem 0 pg.bytes)
    {n : Nat} (hn : n ≤ pg.indexes.length) :
    ∃ pos, InMemory mem pos (runsBytes pg.runs) ∧
      scanRuns mem n = ⟨table pos 0 ((needed n 0 pg.runs).take runsCap), w,
        decide (runsCap ≤ (needed n 0 pg.runs).length)⟩ := by
  obtain ⟨hbits, hvalues⟩ := hsmall
  rw [DictPage.indexes] at hn hvalues
  simp only [DictPage.bytes, List.length_append, Bytes.length_packLE] at hbits
  rw [DictPage.bytes, inMemory_append, inMemory_append, inMemory_append] at hmem
  obtain ⟨⟨⟨hlen, -⟩, hwidth⟩, hruns⟩ := hmem
  have hdeflen : int32 (valueLoop mem 0 4) = pg.defs.length := by
    rw [valueLoop_eq hlen (by omega)]
    exact int32_natCast (by omega)
  have hbw : (mem (4 + pg.defs.length)).toNat = w := by
    have := hwidth.1
    simp only [List.length_append, Bytes.length_packLE, zero_add] at this
    push_cast at this
    rw [this, UInt8.toNat_ofNat']
    omega
  refine ⟨_, hruns, ?_⟩
  have hscan := @scanLoop_runs mem w n pg.runs runsCap _ 0 hruns (by omega) (by omega) (by omega)
  simp only [List.length_append, Bytes.length_packLE, List.length_singleton, zero_add] at hscan
  push_cast at hscan
  simp only [scanRuns, hdeflen, hbw, hscan]
  simp [add_assoc]

/-- The flag tells that the runs which are needed fill the table. -/
theorem overflow_iff {pg : DictPage w} (hw : w ≤ 32) (hsmall : pg.Small) (hmem : InMemory mem 0 pg.bytes)
    {n : Nat} (hn : n ≤ pg.indexes.length) :
    (scanRuns mem n).overflow = true ↔ runsCap ≤ (needed n 0 pg.runs).length := by
  obtain ⟨pos, -, hscan⟩ := scanRuns_page hw hsmall hmem hn
  rw [hscan, decide_eq_true_eq]

theorem table_zero {pos : Int} {rs : List (Run w)} (h : (runsValues rs) ≠ []) :
    ∃ e, (table pos 0 rs)[0]? = some e ∧ e.outStart = 0 := by
  cases rs with
  | nil => exact absurd rfl h
  | cons r rs => exact ⟨entry pos 0 r, rfl, entry_outStart pos 0 r⟩

theorem applyRuns_found {es : List RunEntry} {flag : Bool} {i : Int} {e : RunEntry}
    (he : es[search es i 0 (es.length - 1) 0]? = some e) :
    applyRuns mem ⟨es, w, flag⟩ i = if e.isRle then e.value else unpackValue mem w e i := by
  simp only [applyRuns, List.getD_eq_getElem?_getD, he, Option.getD_some]

/-- A page whose values lie in two bytes is decoded right. -/
theorem decoded_of_fits {pg : DictPage w} (hw : w ≤ 32) (hfits : Fits w) (hsmall : pg.Small)
    (hmem : InMemory mem 0 pg.bytes) {n : Nat} (hn : n ≤ pg.indexes.length) : Decoded pg mem n := by
  intro hdown i hi
  obtain ⟨pos, hruns, hscan⟩ := scanRuns_page hw hsmall hmem hn
  obtain ⟨hbits, hvalues⟩ := hsmall
  obtain ⟨rest, hrest, hcover⟩ := @needed_append w n pg.runs 0 (by simpa [DictPage.indexes] using hn)
  rw [hscan, decide_eq_false_iff_not, not_le] at hdown
  rw [hscan, List.take_of_length_le hdown.le]
  have hlen : (runsBytes (needed n 0 pg.runs)).length * 8 < 2 ^ 31 := by
    have : (runsBytes (needed n 0 pg.runs)).length ≤ pg.bytes.length := by
      rw [DictPage.bytes, hrest, runsBytes, runsBytes, List.flatMap_append]
      simp only [List.length_append]
      rw [← hrest]
      omega
    omega
  have hindexes : pg.indexes[i]? = (runsValues (needed n 0 pg.runs))[i]? := by
    rw [DictPage.indexes, hrest, runsValues, List.flatMap_append, ← hrest]
    exact List.getElem?_append_left (by rw [← runsValues]; omega)
  have hmem' : InMemory mem pos (runsBytes (needed n 0 pg.runs)) := by
    rw [hrest, runsBytes, List.flatMap_append, inMemory_append] at hruns
    exact hruns.1
  generalize needed n 0 pg.runs = rs at *
  obtain ⟨e₀, he₀, hzero⟩ := @table_zero w pos rs (List.ne_nil_of_length_pos (by omega))
  obtain ⟨⟨e, he, hle⟩, hlast⟩ := search_spec (table_sorted pos 0 rs)
    ⟨e₀, he₀, hzero.trans_le (Int.natCast_nonneg i)⟩
  obtain ⟨r, p, c, rfl, hr, hrlen, -, hc, hin, hval⟩ := table_last hmem' (by omega) he hle hlast
  rw [Nat.sub_zero] at hval
  rw [hindexes, hval, applyRuns_found he]
  cases r with
  | repeated count value =>
    refine ⟨(value : Nat), ?_, ?_⟩
    · exact List.getElem?_replicate_of_lt hin
    · simp only [entry, if_true]
  | packed groups =>
    have hfit : (i - c) * w % 8 + w ≤ 16 := by
      have := (fits_spec w hw).1 hfits ((i - c) % 8) (Nat.mod_lt _ (by decide))
      rwa [Nat.mod_mul_mod] at this
    obtain ⟨v, hv, hunpack⟩ := unpackValue_packed hw hr (by omega) hc hin (by omega) hfit
    exact ⟨v, hv, (if_neg Bool.false_ne_true).trans hunpack⟩

/-! ## 8. Every width -/

/-- A memory that begins with some bytes. -/
def memoryOf (bs : Bytes) : Memory := fun p => bs.getD p.toNat 0

theorem inMemory_memoryOf (bs : Bytes) : InMemory (memoryOf bs) 0 bs := by
  suffices h : ∀ rest pre, bs = pre ++ rest → InMemory (memoryOf bs) (pre.length : Int) rest from h bs [] rfl
  intro rest
  induction rest with
  | nil => exact fun _ _ => trivial
  | cons b rest ih =>
    intro pre hbs
    refine ⟨?_, ?_⟩
    · rw [memoryOf, Int.toNat_natCast, hbs, List.getD_eq_getElem?_getD,
        List.getElem?_append_right (le_refl _), Nat.sub_self]
      rfl
    · have := ih (pre ++ [b]) (by rw [hbs, List.append_assoc, List.singleton_append])
      simpa using this

/-- One group of eight values with all bits set. -/
def onesRun (w : Nat) : Run w := .packed [fun _ => ⟨2 ^ w - 1, Nat.sub_lt (Nat.two_pow_pos w) Nat.one_pos⟩]

/-- A page of it. -/
def ones (w : Nat) : DictPage w where
  defs := []
  runs := [onesRun w]

theorem indexes_ones (w : Nat) : (ones w).indexes = List.replicate 8 (2 ^ w - 1) := by
  simp [DictPage.indexes, ones, onesRun, runsValues, Run.values, Run.ungroup]

theorem small_ones (hw : w ≤ 32) : (ones w).Small := by
  refine ⟨?_, ?_⟩
  · have hlen : (Thrift.natural 3).length = 1 := by decide
    simp [DictPage.bytes, ones, onesRun, runsBytes, Run.bytes, Run.packedBytes, hlen]
    omega
  · rw [indexes_ones, List.length_replicate]
    decide

/-- A number below 2^16 is not all bits of a wider value. -/
theorem int32_ones_ne {k v : Nat} (hw : w ≤ 32) (hk : k < w) (hv : v < 2 ^ k) (h16 : v < 2 ^ 16) :
    int32 (v : Nat) ≠ int32 ((2 ^ w - 1 : Nat) : Int) := by
  intro heq
  have hhalf : 2 ^ k * 2 ≤ 2 ^ w := by
    rw [← pow_succ]
    exact Nat.pow_le_pow_right two_pos hk
  rw [int32_natCast (by omega)] at heq
  rcases Nat.eq_or_lt_of_le hw with rfl | hlt
  · have hminus : int32 ((2 ^ 32 - 1 : Nat) : Int) = -1 := by decide
    omega
  · have hle : 2 ^ w ≤ 2 ^ 31 := Nat.pow_le_pow_right two_pos (by omega)
    rw [int32_natCast (by omega)] at heq
    omega

/-- Of a width that does not fit, a value with all bits set is read wrong. -/
theorem not_decoded_ones (hw : w ≤ 32) (hfits : ¬Fits w) :
    ¬Decoded (ones w) (memoryOf (ones w).bytes) 8 := by
  intro hdec
  obtain ⟨s, hs, hwide⟩ := (fits_spec w hw).2 hfits
  have hn : 8 ≤ (ones w).indexes.length := by rw [indexes_ones, List.length_replicate]
  have hmem := inMemory_memoryOf (ones w).bytes
  obtain ⟨pos, -, hscan⟩ := scanRuns_page hw (small_ones hw) hmem hn
  have hdown : (scanRuns (memoryOf (ones w).bytes) (8 : Nat)).overflow = false := by
    rw [Bool.eq_false_iff, ne_eq, overflow_iff hw (small_ones hw) hmem hn]
    simp [ones, needed, runsCap]
  obtain ⟨v, hv, hread⟩ := hdec hdown s hs
  rw [indexes_ones, List.getElem?_replicate_of_lt hs, Option.some.injEq] at hv
  have htable : (needed 8 0 (ones w).runs).take runsCap = (ones w).runs := rfl
  rw [htable] at hscan
  -- the only entry is the one that is found
  obtain ⟨⟨e, he, -⟩, -⟩ := search_spec (table_sorted pos 0 (ones w).runs)
    ⟨_, rfl, (entry_outStart pos 0 _).trans_le (Int.natCast_nonneg s)⟩
  rw [hscan, applyRuns_found he] at hread
  have hentry := List.mem_singleton.mp (List.mem_of_getElem? he)
  have hpacked : ¬(entry pos 0 (onesRun w)).isRle = true := Bool.false_ne_true
  rw [hentry, ← hv, if_neg hpacked] at hread
  obtain ⟨v', hunpack, hlt⟩ := unpackValue_lt (memoryOf (ones w).bytes) w (entry pos 0 (onesRun w)) s
  have hsmall : s * w < 2 ^ 31 := by
    have := Nat.mul_le_mul hs.le hw
    omega
  rw [entry_outStart, Nat.cast_zero, sub_zero, int32_natCast (by omega), ← Nat.cast_mul,
    int32_natCast hsmall] at hlt
  replace hlt : v' < 2 ^ (16 - s * w % 8) := hlt
  have h16 : v' < 2 ^ 16 := lt_of_lt_of_le hlt (Nat.pow_le_pow_right two_pos (by omega))
  exact int32_ones_ne hw (show 16 - s * w % 8 < w by omega) hlt h16 (hunpack.symm.trans hread)

/-- **Which dictionary columns are decoded right.**  The pages with indices of `w` bits are all decoded right,
unless the flag is up, when `w` is at most ten, twelve or sixteen, and for no other `w`. -/
theorem apply_runs_right_iff (hw : w ≤ 32) :
    (∀ (pg : DictPage w) (mem : Memory) (n : Nat), pg.Small → InMemory mem 0 pg.bytes →
      n ≤ pg.indexes.length → Decoded pg mem n) ↔ w ≤ 10 ∨ w = 12 ∨ w = 16 := by
  constructor
  · intro h
    by_contra hfits
    refine not_decoded_ones hw hfits (h (ones w) _ 8 (small_ones hw) (inMemory_memoryOf _) ?_)
    rw [indexes_ones, List.length_replicate]
  · exact fun hfits pg mem n hsmall hmem hn => decoded_of_fits hw hfits hsmall hmem hn

/-- Of ten bits they are, and of eleven they are not. -/
theorem apply_runs_right_ten_eleven :
    (∀ (pg : DictPage 10) (mem : Memory) (n : Nat), pg.Small → InMemory mem 0 pg.bytes →
      n ≤ pg.indexes.length → Decoded pg mem n) ∧
    ¬∀ (pg : DictPage 11) (mem : Memory) (n : Nat), pg.Small → InMemory mem 0 pg.bytes →
      n ≤ pg.indexes.length → Decoded pg mem n :=
  ⟨(apply_runs_right_iff (by decide)).mpr (by decide), fun h =>
    absurd ((apply_runs_right_iff (by decide)).mp h) (by decide)⟩

end Pages

end RyuDB
