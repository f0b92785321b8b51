/-
# The hybrid of run lengths and bit packing

A sequence of values of `w` bits in runs.  A run repeats one value, or has groups of eight values of `w`
bits each, the first one in the lowest bits.  In front of a run stands a number in base 128: twice how often
its value is repeated, or twice the number of its groups and one more.

* `packed_bits`: in the number that a packed run is, each value is where its bits are.
* `window_bits`: some bytes of a number have all bits of a value, if they are enough.
-/
import Mathlib.Data.Nat.Digits.Lemmas
import RyuDB.Lib.Thrift

namespace Bytes

/-- A byte of a number. -/
theorem getElem?_packLE {k m : Nat} (n : Nat) (hk : k < m) :
    (packLE m n)[k]? = some (UInt8.ofNat (n / 256 ^ k % 256)) := by
  induction m generalizing k n with
  | zero => omega
  | succ m ih =>
    rw [packLE]
    cases k with
    | zero => simp
    | succ k =>
      rw [List.getElem?_cons_succ, ih (n / 256) (by omega), Nat.div_div_eq_div_mul, pow_succ']

end Bytes

namespace Hybrid

/-! ## 1. Runs -/

/-- A run of values of `w` bits. -/
inductive Run (w : Nat) where
  | repeated (count : Nat) (value : Fin (2 ^ w))
  | packed (groups : List (Fin 8 → Fin (2 ^ w)))

namespace Run

variable {w : Nat}

/-- The values of groups. -/
def ungroup (groups : List (Fin 8 → Fin (2 ^ w))) : List Nat :=
  groups.flatMap fun g => List.ofFn fun j => (g j : Nat)

/-- The values of a run. -/
def values : Run w → List Nat
  | repeated count value => List.replicate count value
  | packed groups => ungroup groups

/-- The number of values. -/
def size : Run w → Nat
  | repeated count _ => count
  | packed groups => groups.length * 8

/-- The bytes of packed groups. -/
def packedBytes (groups : List (Fin 8 → Fin (2 ^ w))) : Bytes :=
  Bytes.packLE (groups.length * w) (Nat.ofDigits (2 ^ w) (ungroup groups))

/-- The bytes of a run. -/
def bytes : Run w → Bytes
  | repeated count value => Thrift.natural (2 * count) ++ Bytes.packLE ((w + 7) / 8) value
  | packed groups => Thrift.natural (2 * groups.length + 1) ++ packedBytes groups

theorem length_ungroup (groups : List (Fin 8 → Fin (2 ^ w))) :
    (ungroup groups).length = groups.length * 8 := by
  induction groups with
  | nil => rfl
  | cons g groups ih =>
    rw [ungroup] at ih ⊢
    rw [List.flatMap_cons, List.length_append, ih, List.length_ofFn, List.length_cons]
    omega

@[simp] theorem length_values (r : Run w) : r.values.length = r.size := by
  cases r with
  | repeated count value => exact List.length_replicate
  | packed groups => exact length_ungroup groups

/-- Every value has `w` bits. -/
theorem lt_of_mem_ungroup {groups : List (Fin 8 → Fin (2 ^ w))} {v : Nat} (hv : v ∈ ungroup groups) :
    v < 2 ^ w := by
  obtain ⟨g, -, hg⟩ := List.mem_flatMap.mp hv
  obtain ⟨j, rfl⟩ := (List.mem_ofFn' _ _).mp hg
  exact (g j).isLt

end Run

/-! ## 2. Bits -/

/-- A value of `w` bits among others is read where its bits are. -/
theorem packed_bits {w : Nat} {vs : List Nat} (hvs : ∀ v ∈ vs, v < 2 ^ w) {j : Nat} (hj : j < vs.length) :
    Nat.ofDigits (2 ^ w) vs / 2 ^ (j * w) % 2 ^ w = vs[j] := by
  have hpow : 2 ^ (j * w) = (2 ^ w) ^ j := by rw [Nat.mul_comm, pow_mul]
  rw [hpow, Nat.ofDigits_div_pow_eq_ofDigits_drop j (Nat.two_pow_pos w) vs hvs,
    List.drop_eq_getElem_cons hj, Nat.ofDigits_cons, Nat.add_mul_mod_self_left]
  exact Nat.mod_eq_of_lt (hvs _ (List.getElem_mem hj))

/-- `w` bits of a number from `bit` on lie in `k` bytes of it, if these are enough. -/
theorem window_bits {n bit w k : Nat} (h : bit % 8 + w ≤ 8 * k) :
    n / 256 ^ (bit / 8) % 256 ^ k / 2 ^ (bit % 8) % 2 ^ w = n / 2 ^ bit % 2 ^ w := by
  have hbytes : ∀ m : Nat, 256 ^ m = 2 ^ (8 * m) := fun m => (pow_mul 2 8 m).symm
  have hsplit : 256 ^ k = 2 ^ (bit % 8) * 2 ^ (8 * k - bit % 8) := by
    rw [hbytes, ← pow_add]
    congr 1
    omega
  have hbit : 256 ^ (bit / 8) * 2 ^ (bit % 8) = 2 ^ bit := by
    rw [hbytes, ← pow_add]
    congr 1
    omega
  rw [hsplit, Nat.mod_mul_right_div_self, Nat.mod_mod_of_dvd _ (pow_dvd_pow 2 (by omega)),
    Nat.div_div_eq_div_mul, hbit]

/-- Two bytes put together, without the lowest bits. -/
theorem or_window {b₀ s : Nat} (hb : b₀ < 256) (hs : s ≤ 8) (b₁ : Nat) :
    b₀ >>> s ||| b₁ <<< (8 - s) = (b₀ + 256 * b₁) / 2 ^ s := by
  have hpow : 2 ^ 8 = 2 ^ s * 2 ^ (8 - s) := by
    rw [← pow_add, Nat.add_sub_cancel' hs]
  change b₀ < 2 ^ 8 at hb
  change _ = (b₀ + 2 ^ 8 * b₁) / 2 ^ s
  have hlow : b₀ / 2 ^ s < 2 ^ (8 - s) := by
    rw [Nat.div_lt_iff_lt_mul (Nat.two_pow_pos s), Nat.mul_comm, ← hpow]
    exact hb
  rw [Nat.shiftRight_eq_div_pow, Nat.shiftLeft_eq, Nat.or_comm, Nat.mul_comm b₁,
    ← Nat.two_pow_add_eq_or_of_lt hlow, hpow, Nat.mul_assoc,
    Nat.add_mul_div_left _ _ (Nat.two_pow_pos s), Nat.add_comm]

end Hybrid
