/-
# Numbers as bytes, and self-delimiting formats

Fixed-width unsigned integers are written least significant byte first: `packLE w n` writes the low
`w` bytes of `n`, `unpackLE` reads a list of bytes back, and `takeLE w` reads the integer at the
head of an input and returns the rest of it, or fails when the input is too short.

A `Wire α` writes values of `α` so that a reader finds the end of one by itself: reading a
written value in front of any bytes gives the value and leaves these bytes.  Numbers are written
in unary, lists with their length first, and a format moves along any map with a left inverse,
which is how records are written.
-/
import Mathlib.Tactic.Ring
import Mathlib.Data.UInt

/-! ## 1. Little-endian integers -/

/-- A byte string. -/
abbrev Bytes := List UInt8

namespace Bytes

/-- The low `w` bytes of `n`, least significant first. -/
def packLE : Nat → Nat → Bytes
  | 0, _ => []
  | w + 1, n => UInt8.ofNat (n % 256) :: packLE w (n / 256)

/-- The integer a byte string denotes, least significant byte first. -/
def unpackLE : Bytes → Nat
  | [] => 0
  | b :: bs => b.toNat + 256 * unpackLE bs

/-- The `w`-byte integer at the head of the input, and the rest. -/
def takeLE (w : Nat) (bs : Bytes) : Option (Nat × Bytes) :=
  if bs.length < w then none else some (unpackLE (bs.take w), bs.drop w)

@[simp] theorem length_packLE : ∀ w n : Nat, (packLE w n).length = w
  | 0, _ => rfl
  | w + 1, n => by simp [packLE, length_packLE w]

/-- What fits in `w` bytes reads back as itself. -/
theorem unpackLE_packLE : ∀ (w n : Nat), n < 256 ^ w → unpackLE (packLE w n) = n
  | 0, n, h => by simp only [pow_zero] at h; simp only [packLE, unpackLE]; omega
  | w + 1, n, h => by
    have hdiv : n / 256 < 256 ^ w := by
      rw [Nat.div_lt_iff_lt_mul (by omega)]
      calc n < 256 ^ (w + 1) := h
        _ = 256 ^ w * 256 := pow_succ _ _
    have hmod : (UInt8.ofNat (n % 256)).toNat = n % 256 := by
      simp
    rw [packLE, unpackLE, hmod, unpackLE_packLE w _ hdiv]
    omega

theorem takeLE_packLE {w n : Nat} (h : n < 256 ^ w) (rest : Bytes) :
    takeLE w (packLE w n ++ rest) = some (n, rest) := by
  have hlen : (packLE w n).length = w := length_packLE w n
  unfold takeLE
  rw [if_neg (by rw [List.length_append, hlen]; omega), List.take_left' hlen,
    List.drop_left' hlen, unpackLE_packLE w n h]

theorem takeLE_none {w : Nat} {bs : Bytes} (h : bs.length < w) : takeLE w bs = none := if_pos h

end Bytes

/-! ## 2. Formats -/

/-- A format whose values can be read back in front of anything. -/
structure Wire (α : Type) where
  put : α → Bytes
  get : Bytes → Option (α × Bytes)
  get_put : ∀ a rest, get (put a ++ rest) = some (a, rest)

namespace Wire

variable {α β : Type}

/-- Read a number written in unary. -/
def getNat : Bytes → Option (Nat × Bytes)
  | [] => none
  | b :: bs =>
    if b = 0 then some (0, bs)
    else match getNat bs with
      | none => none
      | some (n, rest) => some (n + 1, rest)

/-- A number in unary. -/
def putNat : Nat → Bytes
  | 0 => [0]
  | n + 1 => 1 :: putNat n

theorem getNat_putNat : ∀ (n : Nat) (rest : Bytes), getNat (putNat n ++ rest) = some (n, rest)
  | 0, _ => rfl
  | n + 1, rest => by
    have ih := getNat_putNat n rest
    rw [putNat, List.cons_append, getNat, if_neg (by decide), ih]

/-- Numbers. -/
def nat : Wire Nat := ⟨putNat, getNat, getNat_putNat⟩

/-- Read a given number of values. -/
def getMany (w : Wire α) : Nat → Bytes → Option (List α × Bytes)
  | 0, bs => some ([], bs)
  | n + 1, bs =>
    match w.get bs with
    | none => none
    | some (a, rest) =>
      match getMany w n rest with
      | none => none
      | some (l, rest) => some (a :: l, rest)

theorem getMany_put (w : Wire α) : ∀ (l : List α) (rest : Bytes),
    getMany w l.length (l.flatMap w.put ++ rest) = some (l, rest)
  | [], _ => rfl
  | a :: l, rest => by
    have ih := getMany_put w l rest
    rw [List.flatMap_cons, List.append_assoc, List.length_cons, getMany, w.get_put]
    simp only [ih]

/-- Lists, the length first. -/
def list (w : Wire α) : Wire (List α) where
  put l := putNat l.length ++ l.flatMap w.put
  get bs :=
    match getNat bs with
    | none => none
    | some (n, rest) => getMany w n rest
  get_put l rest := by
    rw [List.append_assoc, getNat_putNat]
    exact getMany_put w l rest

/-- Pairs. -/
def pair (v : Wire α) (w : Wire β) : Wire (α × β) where
  put a := v.put a.1 ++ w.put a.2
  get bs :=
    match v.get bs with
    | none => none
    | some (a, rest) =>
      match w.get rest with
      | none => none
      | some (b, rest) => some ((a, b), rest)
  get_put a rest := by
    rw [List.append_assoc, v.get_put]
    simp only [w.get_put]

/-- A format of `β` from one of `α`, along a map with a left inverse. -/
def map (w : Wire α) (f : α → β) (g : β → α) (h : ∀ b, f (g b) = b) : Wire β where
  put b := w.put (g b)
  get bs :=
    match w.get bs with
    | none => none
    | some (a, rest) => some (f a, rest)
  get_put b rest := by
    rw [w.get_put]
    simp only [h]

end Wire
