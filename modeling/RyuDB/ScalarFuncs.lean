/-
# DATEDIFF, and the slices of strings

DATEDIFF subtracts its arguments and divides the elapsed time by the length of the unit.  On columns
both are converted to `datetime64[ns]`, subtracted as 64-bit numbers and divided with floor; two scalars
are subtracted as timestamps, and their elapsed seconds, a float, are divided.  What is to be counted
are the boundaries of the unit between the two (`crossed`).

* `datediff_boundaries`: when the column path and the scalar path count them.

SUBSTR, LEFT and RIGHT clamp their bounds before they slice.

* `slices_sql`: where the slices are those of SQL.

The bounds are integers of any size here.  cuDF takes them as 32-bit numbers and raises on larger ones, so
`SUBSTR(s, 3000000000)` is an error in the source and the empty string here.

The float of an elapsed time (`TotalSeconds`) is given by what is documented of it: it is right for
whole seconds and never decreases.
-/
import RyuDB.Conditional
import Mathlib.Data.Fin.VecNotation
import Mathlib.Data.Rat.Floor
import Mathlib.Tactic.Linarith
import Mathlib.Tactic.Positivity
import Mathlib.Tactic.FieldSimp

namespace RyuDB.Sql

/-! ## 1. Points in time -/

/-- The resolution of a `datetime64` and of a `pd.Timestamp`. -/
inductive Resolution where
  | s
  | ms
  | us
  | ns
  deriving DecidableEq

/-- The nanoseconds of a tick. -/
def Resolution.nanos : Resolution → Int
  | .s => 1000000000
  | .ms => 1000000
  | .us => 1000
  | .ns => 1

/-- A point in time: a number of ticks since the epoch. -/
structure Stamp where
  ticks : Int
  res : Resolution

/-- Where it lies on the time line, in nanoseconds since the epoch. -/
def Stamp.instant (x : Stamp) : Int := x.ticks * x.res.nanos

/-- `.astype("datetime64[ns]")`, a 64-bit number. -/
def Stamp.toNanos (x : Stamp) : Int := x.instant.bmod (2 ^ 64)

/-- A `pd.Timestamp`, a `datetime` of the years 1 to 9999. -/
structure Timestamp extends Stamp where
  year_min : -62135596800 * 1000000000 ≤ toStamp.instant
  year_max : toStamp.instant < 253402300800 * 1000000000

/-- The elapsed seconds of a `pd.Timedelta`, given in nanoseconds, as a float. -/
structure TotalSeconds where
  seconds : Int → ℚ
  whole : ∀ k : Int, |k| ≤ 2 ^ 53 → seconds (k * 1000000000) = k
  mono : ∀ a b, a ≤ b → seconds a ≤ seconds b

/-- An argument of DATEDIFF. -/
inductive DateValue (n : Nat) where
  | scalar (value : Option Timestamp)
  | column (cells : Series n Stamp)

/-! ## 2. DATEDIFF -/

section Datediff
variable {n : Nat}

/-- `_as_dt_series`. -/
def asDtSeries : DateValue n → Series n Int
  | .scalar v => fun _ => v.map fun t => t.toNanos
  | .column cells => fun i => (cells i).map Stamp.toNanos

/-- `unit.rstrip("s")`. -/
def unitKey (unit : String) : String :=
  .ofList (unit.toList.reverse.dropWhile (· = 's')).reverse

/-- The seconds of a unit. -/
def unitFactor (unit : String) : Option Int :=
  if unitKey unit = "day" then some 86400
  else if unitKey unit = "hour" then some 3600
  else if unitKey unit = "minute" then some 60
  else if unitKey unit = "second" then some 1
  else none

/-- `unit in ("day", "days")`. -/
def isDay (unit : String) : Bool := decide (unit = "day") || decide (unit = "days")

/-- The elapsed time of two Series; `delta.dt.days` and `//` round down. -/
def columnDiff (factor : Int) (start stop : Series n Int) : Series n Int := fun i =>
  (start i).bind fun s => (stop i).map fun e =>
    (e - s).bmod (2 ^ 64) / (factor * 1000000000)

/-- A number of ticks fits in 64 bits. -/
def fits64 (x : Int) : Bool := decide (-(2 ^ 63) ≤ x) && decide (x < 2 ^ 63)

/-- Two timestamps and their difference fit in 64 bits, in the finer of the two resolutions. -/
def subFits (stop start : Timestamp) : Bool :=
  let tick := min stop.res.nanos start.res.nanos
  fits64 (stop.instant / tick) && fits64 (start.instant / tick) &&
    fits64 ((stop.instant - start.instant) / tick)

/-- `pd.Timestamp(end) - pd.Timestamp(start)`. -/
def timestampSub (stop start : Timestamp) : Except DbError Int :=
  if subFits stop start then .ok (stop.instant - start.instant)
  else .error (.value "Result is too large for storing in a timedelta")

/-- `DATEDIFF` of two scalars. -/
def scalarDiff (C : TotalSeconds) (unit : String) (factor : Int) (start stop : Timestamp) :
    Except DbError Int := do
  let delta ← timestampSub stop start
  if isDay unit then .ok (delta / (86400 * 1000000000))
  else .ok ⌊C.seconds delta / factor⌋

/-- `_datetime_func` of `datediff`. -/
def datediff (C : TotalSeconds) (start stop : DateValue n) (unit : String) :
    Except DbError (Value n Int) :=
  match unitFactor unit with
  | none => .error (.notImplemented ("unsupported DATEDIFF unit: " ++ unit))
  | some factor =>
    match start, stop with
    | .scalar s, .scalar e =>
      match s, e with
      | some s, some e => do
        let d ← scalarDiff C unit factor s e
        .ok (.scalar (some d))
      | _, _ => .ok (.scalar none)
    | _, _ => .ok (.column (columnDiff factor (asDtSeries start) (asDtSeries stop)))

/-! ## 3. Crossed boundaries -/

/-- The boundaries of a unit of `u` nanoseconds between two points of the time line. -/
def crossed (u s e : Int) : Int := e / u - s / u

theorem crossed_swap (u s e : Int) : crossed u e s = -crossed u s e := by
  rw [crossed, crossed, neg_sub]

theorem crossed_add (u a b c : Int) : crossed u a b + crossed u b c = crossed u a c := by
  rw [crossed, crossed, crossed, add_comm, sub_add_sub_cancel]

/-- The elapsed time misses a boundary when the end is earlier in its unit than the start. -/
theorem crossed_eq {u : Int} (hu : 0 < u) (s e : Int) :
    crossed u s e = (e - s) / u + if e % u < s % u then 1 else 0 := by
  have he := Int.mul_ediv_add_emod e u
  have hs := Int.mul_ediv_add_emod s u
  have hre := Int.emod_nonneg e hu.ne'
  have hrs := Int.emod_nonneg s hu.ne'
  have hre' := Int.emod_lt_of_pos e hu
  have hrs' := Int.emod_lt_of_pos s hu
  have hsplit : e - s = (e % u - s % u) + u * crossed u s e := by
    rw [crossed, mul_sub]
    omega
  have hdiv : (e - s) / u = (e % u - s % u) / u + crossed u s e := by
    rw [hsplit, Int.add_mul_ediv_left _ _ hu.ne']
  rw [hdiv]
  split
  · rename_i hlt
    have hneg : (e % u - s % u) / u = -1 := by
      rw [Int.ediv_eq_iff_of_pos hu]
      omega
    omega
  · rename_i hge
    have hzero : (e % u - s % u) / u = 0 := Int.ediv_eq_zero_of_lt (by omega) (by omega)
    omega

/-- The division of the elapsed time counts the boundaries unless it misses one. -/
theorem elapsed_eq_crossed_iff {u : Int} (hu : 0 < u) (s e : Int) :
    (e - s) / u = crossed u s e ↔ s % u ≤ e % u := by
  rw [crossed_eq hu]
  split <;> omega

/-- The difference of two 64-bit numbers is that of the points in time, wrapped. -/
theorem sub_toNanos (s e : Stamp) :
    (e.toNanos - s.toNanos).bmod (2 ^ 64) = (e.instant - s.instant).bmod (2 ^ 64) :=
  (Int.sub_bmod _ _ _).symm

/-- An elapsed time that does not fit in 64 bits counts nothing that is near. -/
theorem wrapped_eq_crossed_iff {u : Int} (hu : 0 < u) (hsmall : 2 * u ≤ 2 ^ 64) (s e : Int) :
    (e - s).bmod (2 ^ 64) / u = crossed u s e ↔ fits64 (e - s) = true ∧ s % u ≤ e % u := by
  have hfits : fits64 (e - s) = true ↔ -(2 ^ 63) ≤ e - s ∧ e - s < 2 ^ 63 := by
    simp only [fits64, Bool.and_eq_true, decide_eq_true_eq]
  have hlo : -(2 ^ 63) ≤ (e - s).bmod (2 ^ 64) := Int.le_bmod (by decide)
  have hhi : (e - s).bmod (2 ^ 64) < 2 ^ 63 := Int.bmod_lt (by decide)
  rw [hfits]
  constructor
  · intro h
    obtain ⟨k, hk⟩ : (2 ^ 64 : Int) ∣ (e - s) - (e - s).bmod (2 ^ 64) := Int.dvd_self_sub_bmod
    have hd := Int.mul_ediv_add_emod (e - s) u
    have hd' := Int.mul_ediv_add_emod ((e - s).bmod (2 ^ 64)) u
    have hr := Int.emod_nonneg (e - s) hu.ne'
    have hr' := Int.emod_nonneg ((e - s).bmod (2 ^ 64)) hu.ne'
    have hl := Int.emod_lt_of_pos (e - s) hu
    have hl' := Int.emod_lt_of_pos ((e - s).bmod (2 ^ 64)) hu
    -- the two are less than two units apart, so they are the same number
    have hsame : (e - s).bmod (2 ^ 64) = e - s := by
      rw [h, crossed_eq hu, mul_add] at hd'
      split at hd' <;> omega
    rw [hsame] at h hlo hhi
    exact ⟨⟨hlo, hhi⟩, (elapsed_eq_crossed_iff hu s e).mp h⟩
  · rintro ⟨⟨h1, h2⟩, h⟩
    rw [Int.bmod_eq_of_le (by omega) (by omega)]
    exact (elapsed_eq_crossed_iff hu s e).mpr h

/-- The float of an elapsed time that is less than a whole number of units reaches it. -/
def RoundsUp (C : TotalSeconds) (factor delta : Int) : Prop :=
  ((factor * (delta / (factor * 1000000000) + 1) : Int) : ℚ) ≤ C.seconds delta

/-- The division of the elapsed seconds is that of the elapsed time, or one more when the float was
rounded up to the next unit. -/
theorem floor_seconds (C : TotalSeconds) {factor delta : Int} (hf : 0 < factor)
    (hf' : factor ≤ 86400) (hlo : -(2 ^ 69) ≤ delta) (hhi : delta < 2 ^ 69) :
    (RoundsUp C factor delta → ⌊C.seconds delta / factor⌋ = delta / (factor * 1000000000) + 1) ∧
    (¬ RoundsUp C factor delta → ⌊C.seconds delta / factor⌋ = delta / (factor * 1000000000)) := by
  have hu : 0 < factor * 1000000000 := by omega
  have hd := Int.mul_ediv_add_emod delta (factor * 1000000000)
  have hr := Int.emod_nonneg delta hu.ne'
  have hl := Int.emod_lt_of_pos delta hu
  unfold RoundsUp
  generalize delta / (factor * 1000000000) = q at hd ⊢
  generalize delta % (factor * 1000000000) = r at hd hr hl
  have hd' : factor * q * 1000000000 + r = delta := by rw [← hd]; ring
  have hnext : factor * (q + 1) = factor * q + factor := by ring
  have hbelow : (factor * q : Int) ≤ C.seconds delta := by
    rw [← C.whole (factor * q) (by rw [abs_le]; constructor <;> omega)]
    exact C.mono _ _ (by omega)
  have habove : C.seconds delta ≤ (factor * (q + 1) : Int) := by
    rw [← C.whole (factor * (q + 1)) (by rw [abs_le]; constructor <;> omega)]
    exact C.mono _ _ (by omega)
  have hf'' : (0 : ℚ) < factor := by exact_mod_cast hf
  push_cast at hbelow habove ⊢
  constructor
  · intro h
    rw [Int.floor_eq_iff, le_div_iff₀ hf'', div_lt_iff₀ hf'']
    push_cast
    constructor <;> nlinarith
  · intro h
    rw [Int.floor_eq_iff, le_div_iff₀ hf'', div_lt_iff₀ hf'']
    constructor <;> nlinarith [not_le.mp h]

theorem unitFactor_range {unit : String} {factor : Int} (h : unitFactor unit = some factor) :
    0 < factor ∧ factor ≤ 86400 := by
  unfold unitFactor at h
  split at h
  · cases h
    decide
  · split at h
    · cases h
      decide
    · split at h
      · cases h
        decide
      · split at h
        · cases h
          decide
        · cases h

theorem isDay_factor {unit : String} {factor : Int} (hd : isDay unit = true)
    (h : unitFactor unit = some factor) : factor = 86400 := by
  rw [isDay, Bool.or_eq_true, decide_eq_true_eq, decide_eq_true_eq] at hd
  rcases hd with rfl | rfl
  · exact (Option.some.inj (show some 86400 = some factor from h)).symm
  · exact (Option.some.inj (show some 86400 = some factor from h)).symm

/-- What the scalar path needs to count the boundaries: the timestamps can be subtracted; days are not
missed; and the float of a smaller unit is rounded up exactly where a boundary would be missed. -/
def ScalarCounts (C : TotalSeconds) (unit : String) (factor : Int) (s e : Timestamp) : Prop :=
  subFits e s = true ∧
    if isDay unit then s.instant % (factor * 1000000000) ≤ e.instant % (factor * 1000000000)
    else (RoundsUp C factor (e.instant - s.instant) ↔
      e.instant % (factor * 1000000000) < s.instant % (factor * 1000000000))

theorem scalarDiff_iff (C : TotalSeconds) {unit : String} {factor : Int}
    (h : unitFactor unit = some factor) (s e : Timestamp) :
    scalarDiff C unit factor s e =
        .ok (crossed (factor * 1000000000) s.instant e.instant) ↔
      ScalarCounts C unit factor s e := by
  obtain ⟨hf, hf'⟩ := unitFactor_range h
  have hu : 0 < factor * 1000000000 := by omega
  unfold scalarDiff timestampSub ScalarCounts
  cases hsub : subFits e s with
  | false => simp [Bind.bind, Except.bind]
  | true =>
    simp only [if_true, true_and, Bind.bind, Except.bind]
    cases hday : isDay unit with
    | true =>
      have hfactor := isDay_factor hday h
      subst hfactor
      rw [if_pos rfl, if_pos rfl, Except.ok.injEq]
      exact elapsed_eq_crossed_iff hu _ _
    | false =>
      have hlo := s.year_min
      have hhi := s.year_max
      have hlo' := e.year_min
      have hhi' := e.year_max
      obtain ⟨hup, hdown⟩ := floor_seconds C hf hf' (show -(2 ^ 69) ≤ e.instant - s.instant by omega)
        (by omega)
      rw [if_neg Bool.false_ne_true, if_neg Bool.false_ne_true, Except.ok.injEq, crossed_eq hu]
      by_cases hr : RoundsUp C factor (e.instant - s.instant)
      · rw [hup hr]
        simp only [hr, true_iff]
        split <;> omega
      · rw [hdown hr]
        simp only [hr, false_iff]
        split <;> omega

variable (C : TotalSeconds) (start stop : DateValue n) (unit : String)

/-- The point in time of an argument in a row. -/
def DateValue.at : DateValue n → Fin n → Option Stamp
  | .scalar v, _ => v.map Timestamp.toStamp
  | .column cells, i => cells i

/-- The boundaries between two arguments in a row; there are none to count where one is NULL. -/
def crossedAt (factor : Int) (i : Fin n) : Option Int :=
  (start.at i).bind fun s => (stop.at i).map fun e =>
    crossed (factor * 1000000000) s.instant e.instant

/-- What DATEDIFF should return: a column if one of the arguments is one. -/
def countBoundaries (factor : Int) : Value n Int :=
  match start, stop with
  | .scalar s, .scalar e => .scalar (s.bind fun s => e.map fun e =>
      crossed (factor * 1000000000) s.instant e.instant)
  | _, _ => .column (crossedAt start stop factor)

/-- Where DATEDIFF counts the boundaries: a column path misses none and does not wrap. -/
def CountsBoundaries (factor : Int) : Prop :=
  match start, stop with
  | .scalar s, .scalar e => ∀ x ∈ s, ∀ y ∈ e, ScalarCounts C unit factor x y
  | _, _ => ∀ i, ∀ x ∈ start.at i, ∀ y ∈ stop.at i, fits64 (y.instant - x.instant) = true ∧
      x.instant % (factor * 1000000000) ≤ y.instant % (factor * 1000000000)

theorem asDtSeries_at (v : DateValue n) (i : Fin n) :
    asDtSeries v i = (v.at i).map Stamp.toNanos := by
  cases v with
  | scalar v => cases v <;> rfl
  | column cells => rfl

/-- One row of the column path. -/
theorem columnDiff_iff {factor : Int} (hf : 0 < factor) (hf' : factor ≤ 86400) (i : Fin n) :
    columnDiff factor (asDtSeries start) (asDtSeries stop) i = crossedAt start stop factor i ↔
      ∀ x ∈ start.at i, ∀ y ∈ stop.at i, fits64 (y.instant - x.instant) = true ∧
        x.instant % (factor * 1000000000) ≤ y.instant % (factor * 1000000000) := by
  rw [columnDiff, crossedAt, asDtSeries_at, asDtSeries_at]
  cases start.at i with
  | none => simp
  | some s =>
    cases stop.at i with
    | none => simp
    | some e =>
      simp only [Option.map_some, Option.bind_some, Option.some.injEq, Option.mem_some_iff,
        forall_eq']
      rw [sub_toNanos]
      exact wrapped_eq_crossed_iff (by omega) (by omega) _ _

/-- **DATEDIFF counts boundaries.**  Two scalars: when they can be subtracted, no day is missed, and
for a smaller unit the float of their distance is rounded up just where a boundary would be missed.
Otherwise: when in every row without NULL the distance fits in 64 bits and the start is not later in
its unit than the end.  The count of boundaries changes its sign with the order of its arguments, and
adds up over a point in between. -/
theorem datediff_boundaries {factor : Int} (h : unitFactor unit = some factor) :
    (datediff C start stop unit = .ok (countBoundaries start stop factor) ↔
      CountsBoundaries C start stop unit factor) ∧
    ∀ a b c, crossed (factor * 1000000000) b a = -crossed (factor * 1000000000) a b ∧
      crossed (factor * 1000000000) a b + crossed (factor * 1000000000) b c =
        crossed (factor * 1000000000) a c := by
  obtain ⟨hf, hf'⟩ := unitFactor_range h
  refine ⟨?_, fun a b c => ⟨crossed_swap _ a b, crossed_add _ a b c⟩⟩
  have hrows := fun i => columnDiff_iff start stop hf hf' i
  unfold datediff countBoundaries CountsBoundaries
  rw [h]
  cases start with
  | column s =>
    simp only [Except.ok.injEq, Value.column.injEq, funext_iff]
    exact forall_congr' hrows
  | scalar s =>
    cases stop with
    | column e =>
      simp only [Except.ok.injEq, Value.column.injEq, funext_iff]
      exact forall_congr' hrows
    | scalar e =>
      cases s with
      | none => simp
      | some s =>
        cases e with
        | none => simp
        | some e =>
          simp only [Option.bind_some, Option.map_some, Option.mem_some_iff, forall_eq']
          rw [← scalarDiff_iff C h]
          cases scalarDiff C unit factor s e with
          | error err => simp [Bind.bind, Except.bind]
          | ok d => simp [Bind.bind, Except.bind]

end Datediff

/-- Elapsed seconds without rounding. -/
def exactSeconds : TotalSeconds where
  seconds x := x / 1000000000
  whole k _ := by push_cast; field_simp
  mono a b h := by
    have h' : (a : ℚ) ≤ b := by exact_mod_cast h
    linarith

/-- A time of 1 January 1970, in seconds. -/
def timeOfDay (seconds : Int) : Stamp := ⟨seconds, .s⟩

/-- Midnight dates, in both orders and with a NULL. -/
theorem datediff_boundaries_dates :
    datediff exactSeconds (.column ![some (timeOfDay 0), some (timeOfDay 86400), none])
        (.column ![some (timeOfDay 172800), some (timeOfDay 0), some (timeOfDay 0)]) "days" =
      .ok (.column ![some 2, some (-1), none]) := by
  have hunit : unitFactor "days" = some 86400 := by decide
  refine ((datediff_boundaries exactSeconds _ _ "days" hunit).1.mpr ?_).trans ?_
  · have hrows : ∀ i : Fin 3, ∀ x ∈ ![some (timeOfDay 0), some (timeOfDay 86400), none] i,
        ∀ y ∈ ![some (timeOfDay 172800), some (timeOfDay 0), some (timeOfDay 0)] i,
        fits64 (y.instant - x.instant) = true ∧
          x.instant % (86400 * 1000000000) ≤ y.instant % (86400 * 1000000000) := by decide
    exact hrows
  · exact congrArg (fun c => Except.ok (Value.column c)) (funext (by decide))

/-- **Half past ten and a quarter past eleven** have the boundary of an hour between them, and less than
an hour: both paths count none.  Back from there, they count one boundary of a day where there is none. -/
theorem datediff_elapsed :
    datediff exactSeconds (.column ![some (timeOfDay 37800)]) (.column ![some (timeOfDay 40500)])
        "hour" = .ok (.column ![some 0]) ∧
    countBoundaries (.column ![some (timeOfDay 37800)]) (.column ![some (timeOfDay 40500)]) 3600 =
      .column ![some 1] ∧
    datediff exactSeconds (.column ![some (timeOfDay 40500)]) (.column ![some (timeOfDay 37800)])
        "day" = .ok (.column ![some (-1)]) ∧
    countBoundaries (.column ![some (timeOfDay 40500)]) (.column ![some (timeOfDay 37800)]) 86400 =
      .column ![some 0] := by
  refine ⟨?_, ?_, ?_, ?_⟩
  · exact congrArg (fun c => Except.ok (Value.column c)) (funext (by decide))
  · exact congrArg Value.column (funext (by decide))
  · exact congrArg (fun c => Except.ok (Value.column c)) (funext (by decide))
  · exact congrArg Value.column (funext (by decide))

/-! ## 4. SUBSTR, LEFT and RIGHT -/

section Slices
variable {n : Nat}

/-- A bound of a slice; beyond 32 bits cuDF refuses it, which is not modelled. -/
inductive IntArg where
  | scalar (value : Option Int)
  | column

/-- `_scalar_int`. -/
def scalarInt : IntArg → Except DbError (Option Int)
  | .scalar v => .ok v
  | .column =>
    .error (.notImplemented "SUBSTR/LEFT/RIGHT with a column-typed bound is not supported")

/-- `s.str.slice(start, stop)` of one string, with bounds that are not negative. -/
def strSlice (start : Nat) (stop : Option Nat) (s : String) : String :=
  .ofList (((stop.map s.toList.take).getD s.toList).drop start)

/-- `s.str.slice(None, None, -1)`. -/
def strReverse (s : String) : String := .ofList s.toList.reverse

/-- A Series of NULLs. -/
def nulls : Series n String := fun _ => none

/-- `_func` of `substr`. -/
def substr (v : Value n String) (start : IntArg) (length : Option IntArg) :
    Except DbError (Value n String) := do
  let start ← scalarInt start
  match start with
  | none => .ok (.column nulls)
  | some start =>
    let st := if start - 1 < 0 then 0 else start - 1
    match length with
    | none => .ok (.column fun r => (asSeries v r).map (strSlice st.toNat none))
    | some length => do
      let ln ← scalarInt length
      match ln with
      | none => .ok (.column nulls)
      | some ln =>
        let ln := if ln < 0 then 0 else ln
        .ok (.column fun r => (asSeries v r).map (strSlice st.toNat (some (st + ln).toNat)))

/-- `_func` of `left`. -/
def left (v : Value n String) (count : IntArg) : Except DbError (Value n String) := do
  let count ← scalarInt count
  match count with
  | none => .ok (.column nulls)
  | some count =>
    let count := if count < 0 then 0 else count
    .ok (.column fun r => (asSeries v r).map (strSlice 0 (some count.toNat)))

/-- `_func` of `right`. -/
def right (v : Value n String) (count : IntArg) : Except DbError (Value n String) := do
  let count ← scalarInt count
  match count with
  | none => .ok (.column nulls)
  | some count =>
    if count ≤ 0 then .ok (.column fun r => (asSeries v r).map (strSlice 0 (some 0)))
    else .ok (.column fun r => (asSeries v r).map fun s =>
      strReverse (strSlice 0 (some count.toNat) (strReverse s)))

/-! ## 5. Slices in SQL -/

/-- The characters at the positions from `i` to before `i + n`; the first has the position 1. -/
def substrSql (i n : Int) (s : String) : String :=
  .ofList (((s.toList.zipIdx 1).filter fun p => decide (i ≤ p.2) && decide (p.2 < i + n)).map
    Prod.fst)

/-- The first `n` characters, or all but the last `-n`. -/
def leftSql (n : Int) (s : String) : String :=
  .ofList (s.toList.take (if 0 ≤ n then min n.toNat s.length else s.length - (-n).toNat))

/-- The last `n` characters, or all but the first `-n`. -/
def rightSql (n : Int) (s : String) : String :=
  .ofList (s.toList.drop (if 0 ≤ n then s.length - min n.toNat s.length else (-n).toNat))

/-- The elements at a range of positions are a slice. -/
theorem filter_positions {α : Type} (l : List α) (k a b : Nat) :
    ((l.zipIdx k).filter fun p => decide (a ≤ p.2) && decide (p.2 < b)).map Prod.fst =
      (l.take (b - k)).drop (a - k) := by
  induction l generalizing k with
  | nil => simp
  | cons x l ih =>
    rw [List.zipIdx_cons, List.filter_cons]
    split
    · rename_i hin
      simp only [Bool.and_eq_true, decide_eq_true_eq] at hin
      obtain ⟨m, hm⟩ : ∃ m, b - k = m + 1 := ⟨b - k - 1, by omega⟩
      rw [List.map_cons, ih, hm, List.take_succ_cons, show a - k = 0 by omega, List.drop_zero,
        show a - (k + 1) = 0 by omega, List.drop_zero, show b - (k + 1) = m by omega]
    · rename_i hout
      simp only [Bool.and_eq_true, decide_eq_true_eq, not_and, not_lt] at hout
      rw [ih]
      by_cases ha : a ≤ k
      · rw [show b - k = 0 by have := hout ha; omega, show b - (k + 1) = 0 by
          have := hout ha; omega, List.take_zero, List.take_zero, List.drop_nil, List.drop_nil]
      · obtain ⟨m, hm⟩ : ∃ m, a - k = m + 1 := ⟨a - k - 1, by omega⟩
        rw [hm, show a - (k + 1) = m by omega]
        cases hb : b - k with
        | zero => rw [show b - (k + 1) = 0 by omega, List.take_zero, List.take_zero,
            List.drop_nil, List.drop_nil]
        | succ j => rw [List.take_succ_cons, List.drop_succ_cons,
            show b - (k + 1) = j by omega]

theorem substrSql_eq {i : Int} (n : Int) (hi : 0 ≤ i) (s : String) :
    substrSql i n s = .ofList ((s.toList.take ((i + n).toNat - 1)).drop (i.toNat - 1)) := by
  rw [substrSql, ← filter_positions s.toList 1 i.toNat (i + n).toNat]
  congr 3
  funext p
  rw [decide_eq_decide.mpr (show i ≤ (p.2 : Int) ↔ i.toNat ≤ p.2 by omega),
    decide_eq_decide.mpr (show (p.2 : Int) < i + n ↔ p.2 < (i + n).toNat by omega)]

/-- The clamped start is off by one where the positions begin at 0. -/
theorem substr_iff {i : Int} (n : Int) (hi : 0 ≤ i) (s : String) :
    strSlice (if i - 1 < 0 then 0 else i - 1).toNat
        (some ((if i - 1 < 0 then 0 else i - 1) + if n < 0 then 0 else n).toNat) s =
      substrSql i n s ↔ 1 ≤ i ∨ n ≤ 0 ∨ (s.length : Int) < n := by
  rw [substrSql_eq n hi, strSlice, String.ofList_inj, Option.map_some, Option.getD_some,
    ← String.length_toList]
  by_cases h1 : 1 ≤ i
  · simp only [h1, true_or, iff_true, if_neg (show ¬ i - 1 < 0 by omega)]
    by_cases hn : n < 0
    · rw [if_pos hn, add_zero, List.drop_eq_nil_of_le (by simp), List.drop_eq_nil_of_le (by
        rw [List.length_take]; omega)]
    · rw [if_neg hn, show (i - 1).toNat = i.toNat - 1 by omega,
        show (i - 1 + n).toNat = (i + n).toNat - 1 by omega]
  · obtain rfl : i = 0 := by omega
    simp only [h1, false_or]
    rw [if_pos (by decide), Int.toNat_zero, Nat.zero_sub, List.drop_zero, List.drop_zero, zero_add,
      zero_add]
    by_cases hn : n ≤ 0
    · have hzero : (if n < 0 then 0 else n).toNat = 0 := by split <;> omega
      simp [hn, hzero, show n.toNat = 0 by omega]
    · rw [if_neg (by omega)]
      simp only [hn, false_or]
      constructor
      · intro h
        have hlen := congrArg List.length h
        rw [List.length_take, List.length_take] at hlen
        omega
      · intro h
        rw [List.take_of_length_le (by omega), List.take_of_length_le (by omega)]

theorem left_iff (n : Int) (s : String) :
    strSlice 0 (some (if n < 0 then 0 else n).toNat) s = leftSql n s ↔
      0 ≤ n ∨ (s.length : Int) ≤ -n := by
  rw [strSlice, leftSql, String.ofList_inj, Option.map_some, Option.getD_some, List.drop_zero,
    ← String.length_toList]
  by_cases hn : 0 ≤ n
  · rw [if_neg (by omega), if_pos hn]
    simp only [hn, true_or, iff_true]
    rcases Nat.le_total n.toNat s.toList.length with h | h
    · rw [min_eq_left h]
    · rw [min_eq_right h, List.take_of_length_le h, List.take_length]
  · rw [if_pos (by omega), if_neg hn, Int.toNat_zero, List.take_zero]
    simp only [hn, false_or]
    constructor
    · intro h
      have hlen := congrArg List.length h
      rw [List.length_take, List.length_nil] at hlen
      omega
    · intro h
      rw [show s.toList.length - (-n).toNat = 0 by omega, List.take_zero]

/-- The reversed prefix of the reversed string is its end. -/
theorem reverse_take (l : List Char) (n : Nat) :
    (l.reverse.take n).reverse = l.drop (l.length - n) := by
  rw [List.take_reverse, List.reverse_reverse]

theorem right_iff (n : Int) (s : String) :
    (if n ≤ 0 then strSlice 0 (some 0) s
      else strReverse (strSlice 0 (some n.toNat) (strReverse s))) = rightSql n s ↔
      0 ≤ n ∨ (s.length : Int) ≤ -n := by
  unfold rightSql strSlice strReverse
  rw [← String.length_toList]
  by_cases hn : 0 ≤ n
  · simp only [hn, true_or, iff_true, if_pos]
    by_cases hz : n ≤ 0
    · rw [if_pos hz, String.ofList_inj]
      simp [show n.toNat = 0 by omega]
    · rw [if_neg hz, String.ofList_inj]
      simp only [Option.map_some, Option.getD_some, List.drop_zero, String.toList_ofList,
        reverse_take]
      congr 1
      omega
  · rw [if_pos (by omega), if_neg hn, String.ofList_inj]
    simp only [hn, false_or, Option.map_some, Option.getD_some, List.take_zero, List.drop_nil]
    constructor
    · intro h
      have hlen := congrArg List.length h
      rw [List.length_drop, List.length_nil] at hlen
      omega
    · intro h
      rw [List.drop_eq_nil_of_le (by omega)]

/-- The rows of two columns agree where the function on strings does. -/
theorem column_map_iff (v : Value n String) (f g : String → String) :
    (Except.ok (.column fun r => (asSeries v r).map f) : Except DbError (Value n String)) =
      .ok (.column fun r => (asSeries v r).map g) ↔ ∀ r, ∀ s ∈ asSeries v r, f s = g s := by
  simp only [Except.ok.injEq, Value.column.injEq, funext_iff]
  refine forall_congr' fun r => ?_
  cases asSeries v r with
  | none => simp
  | some s => simp

/-- **SUBSTR, LEFT and RIGHT are the slices of SQL** unless SUBSTR begins at the position 0 and has not
to run to the end of the string, or LEFT and RIGHT have a negative number and a longer string.  LEFT and
RIGHT cut a string in two. -/
theorem slices_sql (v : Value n String) {i : Int} (hi : 0 ≤ i) (k : Int) :
    (substr v (.scalar (some i)) (some (.scalar (some k))) =
        .ok (.column fun r => (asSeries v r).map (substrSql i k)) ↔
      ∀ r, ∀ s ∈ asSeries v r, 1 ≤ i ∨ k ≤ 0 ∨ (s.length : Int) < k) ∧
    (left v (.scalar (some k)) = .ok (.column fun r => (asSeries v r).map (leftSql k)) ↔
      ∀ r, ∀ s ∈ asSeries v r, 0 ≤ k ∨ (s.length : Int) ≤ -k) ∧
    (right v (.scalar (some k)) = .ok (.column fun r => (asSeries v r).map (rightSql k)) ↔
      ∀ r, ∀ s ∈ asSeries v r, 0 ≤ k ∨ (s.length : Int) ≤ -k) ∧
    ∀ s : String, 0 ≤ k → k ≤ s.length → leftSql k s ++ rightSql (s.length - k) s = s := by
  refine ⟨?_, ?_, ?_, ?_⟩
  · refine (column_map_iff v _ _).trans (forall_congr' fun r => forall₂_congr fun s _ => ?_)
    exact substr_iff k hi s
  · refine (column_map_iff v _ _).trans (forall_congr' fun r => forall₂_congr fun s _ => ?_)
    exact left_iff k s
  · have hright : right v (.scalar (some k)) = .ok (.column fun r => (asSeries v r).map fun s =>
        if k ≤ 0 then strSlice 0 (some 0) s
        else strReverse (strSlice 0 (some k.toNat) (strReverse s))) := by
      unfold right
      simp only [scalarInt, Bind.bind, Except.bind]
      split
      · rfl
      · rfl
    rw [hright]
    refine (column_map_iff v _ _).trans (forall_congr' fun r => forall₂_congr fun s _ => ?_)
    exact right_iff k s
  · intro s h0 hk
    rw [leftSql, rightSql, if_pos h0, if_pos (by omega), ← String.ofList_append,
      ← String.length_toList] at *
    have hcut : s.toList.length - min ((s.toList.length : Int) - k).toNat s.toList.length =
        min k.toNat s.toList.length := by omega
    rw [hcut, List.take_append_drop, String.ofList_toList]

/-- `SUBSTR(s, 2, 3)`, `LEFT(s, 3)` and `RIGHT(s, 3)` of a string and a NULL. -/
theorem slices_sql_hello :
    substr (n := 2) (.column ![some "hello", none]) (.scalar (some 2))
        (some (.scalar (some 3))) = .ok (.column ![some "ell", none]) ∧
    left (n := 2) (.column ![some "hello", none]) (.scalar (some 3)) =
      .ok (.column ![some "hel", none]) ∧
    right (n := 2) (.column ![some "hello", none]) (.scalar (some 3)) =
      .ok (.column ![some "llo", none]) := by
  obtain ⟨hsub, hleft, hright, -⟩ := slices_sql (n := 2) (.column ![some "hello", none])
    (i := 2) (by decide) 3
  refine ⟨(hsub.mpr fun _ _ _ => .inl (by decide)).trans ?_,
    (hleft.mpr fun _ _ _ => .inl (by decide)).trans ?_,
    (hright.mpr fun _ _ _ => .inl (by decide)).trans ?_⟩
  · exact congrArg (fun c => Except.ok (Value.column c)) (funext (by decide))
  · exact congrArg (fun c => Except.ok (Value.column c)) (funext (by decide))
  · exact congrArg (fun c => Except.ok (Value.column c)) (funext (by decide))

/-- **Position 0 and negative numbers.**  `SUBSTR('hello', 0, 2)` returns two characters, and only the
position 1 is in its range; `LEFT('hello', -2)` and `RIGHT('hello', -2)` return nothing, where two
characters are to be dropped. -/
theorem slices_clamped :
    substr (n := 1) (.scalar (some "hello")) (.scalar (some 0)) (some (.scalar (some 2))) =
      .ok (.column ![some "he"]) ∧ substrSql 0 2 "hello" = "h" ∧
    left (n := 1) (.scalar (some "hello")) (.scalar (some (-2))) = .ok (.column ![some ""]) ∧
    leftSql (-2) "hello" = "hel" ∧
    right (n := 1) (.scalar (some "hello")) (.scalar (some (-2))) = .ok (.column ![some ""]) ∧
    rightSql (-2) "hello" = "llo" := by
  refine ⟨?_, by decide, ?_, by decide, ?_, by decide⟩
  · exact congrArg (fun c => Except.ok (Value.column c)) (funext (by decide))
  · exact congrArg (fun c => Except.ok (Value.column c)) (funext (by decide))
  · exact congrArg (fun c => Except.ok (Value.column c)) (funext (by decide))

end Slices

end RyuDB.Sql
