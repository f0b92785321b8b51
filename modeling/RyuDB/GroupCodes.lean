/-
# Combined group codes

The fused paths give every key column dense codes and combine the codes of a row into one 64-bit number,
weighting each column with the product of the sizes of the columns behind it.  `_run_cpp` (and the Numba
kernel) does it for the keys of a scan, `fused_join_aggregate` for keys on one table of the join, and for
keys on the fact and on a dimension in two levels: the code of the fact part times the number of the
dimension part's combinations, plus the code of the dimension part.

No product and no sum is checked for overflow, and in a join no key is checked for NULL, which has the
code -1.

In a join with an outer side and a single key on the dimension the code 0 stands for the rows without a
partner, and the codes of the dimension begin at 1.  That slot is left out here: it is the code of no key.

* `group_codes`: where a path goes on to use the code, it is a perfect hash of the key exactly when no
  product of the sizes reaches 2^63 and no row has a NULL key.

A wrapped number of groups can look small: 65536 rows with four keys of 65536 values have 0 groups
(`four_keys_wrap`).
-/
import Mathlib.Algebra.BigOperators.Ring.List
import Mathlib.Algebra.Order.BigOperators.Group.List
import Mathlib.Algebra.Order.Ring.Int
import RyuDB.Fused

namespace RyuDB.Fused

/-! ## 1. The code of a row -/

theorem wrap64_small {x : Int} (h0 : 0 ≤ x) (h : x < 2 ^ 63) : wrap64 x = x := by
  unfold wrap64
  rw [Int.bmod_def]
  omega

/-- A stride divides the number of all codes. -/
theorem strides_dvd : ∀ {sizes : List Nat} {s : Nat}, s ∈ Grouping.strides sizes →
    s ∣ sizes.prod
  | _ :: sizes, s, h => by
    rw [List.prod_cons]
    rcases List.mem_cons.mp h with rfl | h
    · exact Dvd.intro_left _ rfl
    · exact (strides_dvd h).mul_left _

/-- The codes times their strides are the mixed radix number. -/
theorem sum_strides : ∀ {sizes codes : List Nat}, Grouping.Fits sizes codes →
    (List.zipWith (fun (c s : Nat) => (c : Int) * s) codes (Grouping.strides sizes)).sum =
      Grouping.encode sizes codes
  | [], [], _ => rfl
  | s :: sizes, c :: codes, h => by
    rw [Grouping.strides, List.zipWith_cons_cons, List.sum_cons, sum_strides h.2, Grouping.encode]
    push_cast
    rfl

theorem unravel_decode : ∀ (sizes : List Nat) (g : Nat),
    unravel ((Grouping.strides sizes).map Int.ofNat) g =
      (Grouping.decode sizes g).map Int.ofNat
  | [], _ => rfl
  | s :: sizes, g => by
    have ih := unravel_decode sizes (g % sizes.prod)
    rw [Grouping.strides, List.map_cons, unravel, Grouping.decode, List.map_cons]
    refine congrArg₂ _ (Int.natCast_ediv g sizes.prod).symm ?_
    rw [← ih]
    rfl

theorem zipWith_digits (g : Nat) : ∀ cs : List Codes,
    List.zipWith (fun (c : Codes) (s : Int) => (g : Int) / s % c.uniques.length) cs
      ((Grouping.strides (sizes cs)).map Int.ofNat) =
        (Grouping.digits (sizes cs) g).map Int.ofNat
  | [] => rfl
  | c :: cs => by
    have hdigit : (g : Int) / ((sizes cs).prod : Int) % (c.uniques.length : Int) =
        ((g / (sizes cs).prod % c.uniques.length : Nat) : Int) := by
      push_cast
      rfl
    change _ :: _ = _ :: _
    refine congrArg₂ _ hdigit (zipWith_digits g cs)

/-- The row has a value in every key column. -/
def Valued (cs : List Codes) (i : Nat) : Prop :=
  ∀ c ∈ cs, 0 ≤ c.codes i ∧ c.codes i < c.uniques.length

/-- The codes of a row. -/
def codesAt (cs : List Codes) (i : Nat) : List Nat := cs.map fun c => (c.codes i).toNat

variable {cs : List Codes} {i : Nat}

theorem fits_codesAt (h : Valued cs i) : Grouping.Fits (sizes cs) (codesAt cs i) := by
  induction cs with
  | nil => trivial
  | cons c cs ih =>
    have hc := h c List.mem_cons_self
    exact ⟨(Int.toNat_lt hc.1).mpr hc.2, ih fun d hd => h d (List.mem_cons_of_mem _ hd)⟩

theorem map_codesAt (h : Valued cs i) :
    (codesAt cs i).map Int.ofNat = cs.map fun c => c.codes i := by
  rw [codesAt, List.map_map]
  exact List.map_congr_left fun c hc => Int.toNat_of_nonneg (h c hc).1

/-- The strides of codes that are 64-bit numbers. -/
theorem strides_small (hpos : 0 < (sizes cs).prod) (hp : (sizes cs).prod < 2 ^ 63) :
    strides cs = (Grouping.strides (sizes cs)).map Int.ofNat := by
  unfold strides
  refine List.map_congr_left fun s hs => ?_
  have hle : s ≤ (sizes cs).prod := Nat.le_of_dvd hpos (strides_dvd hs)
  exact wrap64_small (Int.natCast_nonneg s) (by omega)

/-- The terms of the code of a row, before anything wraps. -/
def terms (cs : List Codes) (i : Nat) : List Int :=
  List.zipWith (fun (k : Int) (s : Nat) => k * s) (cs.map fun c => c.codes i)
    (Grouping.strides (sizes cs))

theorem sum_terms (h : Valued cs i) :
    (terms cs i).sum = Grouping.encode (sizes cs) (codesAt cs i) := by
  rw [terms, ← map_codesAt h, List.zipWith_map_left, ← sum_strides (fits_codesAt h)]
  rfl

theorem terms_nonneg (h : Valued cs i) : ∀ t ∈ terms cs i, 0 ≤ t := by
  intro t ht
  rw [terms, ← map_codesAt h, List.zipWith_map_left, List.mem_iff_getElem] at ht
  obtain ⟨k, hk, rfl⟩ := ht
  rw [List.getElem_zipWith]
  exact mul_nonneg (Int.natCast_nonneg _) (Int.natCast_nonneg _)

/-- **The code of a row** is the mixed radix number of its codes. -/
theorem combine_encode (h : Valued cs i) (hp : (sizes cs).prod < 2 ^ 63) :
    combine cs i = Grouping.encode (sizes cs) (codesAt cs i) := by
  have hfits := fits_codesAt h
  have hlt := Grouping.encode_lt hfits
  have hsum : (List.zipWith (fun (c : Codes) s => c.codes i * s) cs (strides cs)).sum =
      (terms cs i).sum := by
    rw [terms, strides_small (by omega) hp, List.zipWith_map_left, List.zipWith_map_right]
    rfl
  rw [combine, hsum, sum_terms h]
  exact wrap64_small (Int.natCast_nonneg _) (by omega)

/-- **The two ways to read a code** give the codes of the row back. -/
theorem unravel_combine (h : Valued cs i) (hp : (sizes cs).prod < 2 ^ 63) :
    unravel (strides cs) (combine cs i) = cs.map fun c => c.codes i := by
  have hlt := Grouping.encode_lt (fits_codesAt h)
  rw [combine_encode h hp, strides_small (by omega) hp, unravel_decode,
    Grouping.decode_encode (fits_codesAt h), map_codesAt h]

theorem unravelStrided_combine (h : Valued cs i) (hp : (sizes cs).prod < 2 ^ 63) :
    unravelStrided cs (combine cs i) = cs.map fun c => c.codes i := by
  have hlt := Grouping.encode_lt (fits_codesAt h)
  rw [unravelStrided, combine_encode h hp, strides_small (by omega) hp, zipWith_digits,
    Grouping.digits_encode (fits_codesAt h), map_codesAt h]

/-! ## 2. The paths -/

/-- The codes of a key column of a frame with `rows` rows: 0 up to the number of values, each of them
in some row, and -1 for NULL. -/
structure Factorized (rows : Nat) extends Codes where
  bounds : ∀ i < rows, -1 ≤ codes i ∧ codes i < uniques.length
  onto : ∀ k < uniques.length, ∃ i < rows, codes i = k

/-- The kernel behind a combined code. -/
inductive Backend where
  | cpp
  | numba
  deriving DecidableEq, Repr

/-- A list of key columns on its way through one of the paths: the keys of a scan (`_run_cpp` and
`fused_aggregate`), of one table of a join, or of the fact and the last dimension.  `slots` is the number
of accumulators of a group, `dims` the lengths of the dimension frames. -/
inductive Combination where
  | table (backend : Backend) (rows : Nat) (keys : List (Factorized rows)) (nagg slots : Nat)
  | side (rows : Nat) (keys : List (Factorized rows)) (factRows nagg : Nat) (dims : List Nat)
  | spanning (rows dimRows : Nat) (fact : List (Factorized rows)) (dim : List (Factorized dimRows))
      (nagg : Nat) (dims : List Nat)

/-- The codes of a list of keys. -/
abbrev codesOf {rows : Nat} (keys : List (Factorized rows)) : List Codes :=
  keys.map Factorized.toCodes

namespace Combination

/-- The rows the kernel can meet: of the frame of the keys, or of the fact and the dimension. -/
def InRows : Combination → Nat × Nat → Prop
  | table _ rows _ _ _, r => r.1 < rows
  | side rows _ _ _ _, r => r.1 < rows
  | spanning rows dimRows _ _ _ _, r => r.1 < rows ∧ r.2 < dimRows

/-- The per-column codes of a row. -/
def key : Combination → Nat × Nat → List Int
  | table _ _ keys _ _, r => (codesOf keys).map fun c => c.codes r.1
  | side _ keys _ _ _, r => (codesOf keys).map fun c => c.codes r.1
  | spanning _ _ fact dim _ _, r =>
    ((codesOf fact).map fun c => c.codes r.1) ++ (codesOf dim).map fun c => c.codes r.2

/-- `n_groups`; in two levels it is a product of two Python integers. -/
def groups : Combination → Int
  | table _ _ keys _ _ => nGroups (codesOf keys)
  | side _ keys _ _ _ => nGroups (codesOf keys)
  | spanning _ _ fact dim _ _ => nGroups (codesOf fact) * nGroups (codesOf dim)

/-- The group code of a row. -/
def code : Combination → Nat × Nat → Int
  | table _ _ keys _ _, r => combine (codesOf keys) r.1
  | side _ keys _ _ _, r => combine (codesOf keys) r.1
  | spanning _ _ fact dim _ _, r =>
    wrap64 (combine (codesOf fact) r.1 * nGroups (codesOf dim) + combine (codesOf dim) r.2)

/-- The number of combinations of key values. -/
def combos : Combination → Nat
  | table _ _ keys _ _ => (sizes (codesOf keys)).prod
  | side _ keys _ _ _ => (sizes (codesOf keys)).prod
  | spanning _ _ fact dim _ _ => (sizes (codesOf fact)).prod * (sizes (codesOf dim)).prod

/-- The per-column codes that are read out of a group code. -/
def readOut : Combination → Int → List Int
  | table .numba _ keys _ _, g => unravel (strides (codesOf keys)) g
  | table .cpp _ keys _ slots, g =>
    if nGroups (codesOf keys) * slots ≤ maxAccCells then unravel (strides (codesOf keys)) g
    else unravelStrided (codesOf keys) g
  | side _ keys _ _ _, g => unravelStrided (codesOf keys) g
  | spanning _ _ fact dim _ _, g =>
    unravelStrided (codesOf fact) (g / nGroups (codesOf dim)) ++
      unravelStrided (codesOf dim) (g % nGroups (codesOf dim))

/-- The kernel is launched on `n` rows: with a dense accumulator, which `np.tile` lays out, or with a
hash table. -/
def launches (n nagg slots : Nat) (g : Int) : Prop :=
  if g * slots ≤ maxAccCells then tiles slots g = true else (hashCapacity n nagg).isSome = true

/-- The path goes on to use the code. -/
def Uses : Combination → Prop
  | table .cpp rows keys nagg slots =>
    rows ≠ 0 ∧ (∀ i < rows, ∀ c ∈ codesOf keys, c.codes i ≠ -1) ∧
      launches rows nagg slots (nGroups (codesOf keys))
  | table .numba rows keys nagg _ =>
    rows ≠ 0 ∧ (∀ i < rows, ∀ c ∈ codesOf keys, c.codes i ≠ -1) ∧
      nGroups (codesOf keys) * nagg ≤ maxAccCells ∧ 0 ≤ nGroups (codesOf keys) * nagg
  | side _ keys factRows nagg dims =>
    factRows ≠ 0 ∧ (∀ n ∈ dims, 2 * n ≤ hashCapMax) ∧
      launches factRows nagg nagg (nGroups (codesOf keys))
  | spanning rows _ fact dim nagg dims =>
    rows ≠ 0 ∧ (∀ n ∈ dims, 2 * n ≤ hashCapMax) ∧
      launches rows nagg nagg (nGroups (codesOf fact) * nGroups (codesOf dim)) ∧
      -- `np.int64(n_groups)` raises otherwise, which is a fallback
      -2 ^ 63 ≤ nGroups (codesOf fact) * nGroups (codesOf dim) ∧
        nGroups (codesOf fact) * nGroups (codesOf dim) < 2 ^ 63

/-! ## 3. What a combined code is to be -/

/-- **A perfect hash** of the keys of the rows. -/
structure Perfect (c : Combination) : Prop where
  injective : ∀ r s, c.InRows r → c.InRows s → c.code r = c.code s → c.key r = c.key s
  inRange : ∀ r, c.InRows r → 0 ≤ c.code r ∧ c.code r < c.combos
  readOut : ∀ r, c.InRows r → c.readOut (c.code r) = c.key r

/-- A 64-bit number. -/
def InRange (x : Int) : Prop := -2 ^ 63 ≤ x ∧ x < 2 ^ 63

/-- No product of the sizes of a list of keys wraps. -/
def Small (cs : List Codes) : Prop :=
  (sizes cs).prod < 2 ^ 63 ∧ ∀ s ∈ Grouping.strides (sizes cs), s < 2 ^ 63

/-- No product or sum for a row of a list of keys wraps. -/
def SumsInRange (cs : List Codes) (i : Nat) : Prop :=
  (∀ t ∈ terms cs i, InRange t) ∧ ∀ k, InRange ((terms cs i).take k).sum

/-- No product and no sum wraps. -/
def NoWrap : Combination → Prop
  | table _ rows keys _ _ => Small (codesOf keys) ∧ ∀ i < rows, SumsInRange (codesOf keys) i
  | side rows keys _ _ _ => Small (codesOf keys) ∧ ∀ i < rows, SumsInRange (codesOf keys) i
  | spanning rows dimRows fact dim _ _ =>
    Small (codesOf fact) ∧ Small (codesOf dim) ∧
      (sizes (codesOf fact)).prod * (sizes (codesOf dim)).prod < 2 ^ 63 ∧
      ∀ i < rows, ∀ j < dimRows, SumsInRange (codesOf fact) i ∧ SumsInRange (codesOf dim) j ∧
        InRange ((terms (codesOf fact) i).sum * (sizes (codesOf dim)).prod) ∧
        InRange ((terms (codesOf fact) i).sum * (sizes (codesOf dim)).prod +
          (terms (codesOf dim) j).sum)

/-- The keys that are bound together have fewer than 2^63 combinations of values. -/
def FewCombos : Combination → Prop
  | table _ _ keys _ _ => Small (codesOf keys)
  | side _ keys _ _ _ => Small (codesOf keys)
  | spanning _ _ fact dim _ _ => Small (codesOf fact) ∧ Small (codesOf dim)

/-- No row has a NULL key. -/
def NoNull (c : Combination) : Prop := ∀ r, c.InRows r → -1 ∉ c.key r

/-! ## 4. Rows without NULL -/

theorem valued_codesOf {rows : Nat} {keys : List (Factorized rows)} {i : Nat} (hi : i < rows)
    (h : -1 ∉ (codesOf keys).map fun c => c.codes i) : Valued (codesOf keys) i := by
  intro c hc
  obtain ⟨k, hk, rfl⟩ := List.mem_map.mp hc
  have hb := k.bounds i hi
  have hne : k.codes i ≠ -1 := fun he => h (List.mem_map.mpr ⟨_, hc, he⟩)
  exact ⟨by omega, hb.2⟩

theorem sum_take_le {l : List Int} (h : ∀ t ∈ l, 0 ≤ t) (k : Nat) :
    0 ≤ (l.take k).sum ∧ (l.take k).sum ≤ l.sum := by
  have hsplit := List.sum_take_add_sum_drop l k
  have htake := List.sum_nonneg fun t (ht : t ∈ l.take k) => h t (List.mem_of_mem_take ht)
  have hdrop := List.sum_nonneg fun t (ht : t ∈ l.drop k) => h t (List.mem_of_mem_drop ht)
  omega

/-- The sums of a row stay below the number of combinations. -/
theorem sumsInRange (h : Valued cs i) (hp : (sizes cs).prod < 2 ^ 63) : SumsInRange cs i := by
  have hlt := Grouping.encode_lt (fits_codesAt h)
  have hsum := sum_terms h
  refine ⟨fun t ht => ?_, fun k => ?_⟩
  · have hnonneg := terms_nonneg h t ht
    have hle := List.single_le_sum (terms_nonneg h) t ht
    exact ⟨by omega, by omega⟩
  · obtain ⟨hlo, hhi⟩ := sum_take_le (terms_nonneg h) k
    exact ⟨by omega, by omega⟩

/-- The code of a row is a number below the number of combinations. -/
theorem combine_lt (h : Valued cs i) (hp : (sizes cs).prod < 2 ^ 63) :
    0 ≤ combine cs i ∧ combine cs i < (sizes cs).prod := by
  have hlt := Grouping.encode_lt (fits_codesAt h)
  rw [combine_encode h hp]
  exact ⟨Int.natCast_nonneg _, by omega⟩

theorem nGroups_small (hp : (sizes cs).prod < 2 ^ 63) : nGroups cs = (sizes cs).prod :=
  wrap64_small (Int.natCast_nonneg _) (by omega)

/-- A code in two levels, and the two parts of it. -/
theorem two_levels {f d : Int} {m n : Nat} (hf : 0 ≤ f ∧ f < m) (hd : 0 ≤ d ∧ d < n)
    (hmn : m * n < 2 ^ 63) :
    (0 ≤ f * n ∧ f * n + d < m * n) ∧ wrap64 (f * n + d) = f * n + d ∧
      (f * n + d) / n = f ∧ (f * n + d) % n = d := by
  have hn : (0 : Int) < n := by omega
  have hle : (f + 1) * n ≤ m * n := mul_le_mul_of_nonneg_right (by omega) hn.le
  have hnonneg : 0 ≤ f * n := mul_nonneg hf.1 hn.le
  have hmn' : (m : Int) * n < 2 ^ 63 := by exact_mod_cast hmn
  rw [add_mul, one_mul] at hle
  refine ⟨⟨hnonneg, by omega⟩, wrap64_small (by omega) (by omega), ?_, ?_⟩
  · rw [add_comm, Int.add_mul_ediv_right _ _ hn.ne', Int.ediv_eq_zero_of_lt hd.1 hd.2, zero_add]
  · rw [add_comm, Int.add_mul_emod_self_right, Int.emod_eq_of_lt hd.1 hd.2]

/-! ## 5. NULL keys -/

/-- No read-out by size gives -1. -/
theorem unravelStrided_nonneg {cs : List Codes} (hpos : ∀ c ∈ cs, c.uniques ≠ []) (g : Int) :
    -1 ∉ unravelStrided cs g := by
  intro hmem
  rw [unravelStrided, List.mem_iff_getElem] at hmem
  obtain ⟨k, hk, hval⟩ := hmem
  rw [List.getElem_zipWith] at hval
  rw [List.length_zipWith, lt_min_iff] at hk
  have hne : (cs[k].uniques.length : Int) ≠ 0 := by
    have := List.length_pos_iff.mpr (hpos _ (List.getElem_mem hk.1))
    omega
  generalize g / (strides cs)[k] = q at hval
  have := Int.emod_nonneg q hne
  omega

theorem uniques_ne_nil {cs : List Codes} (h : (sizes cs).prod ≠ 0) : ∀ c ∈ cs, c.uniques ≠ [] := by
  intro c hc hnil
  refine h (List.prod_eq_zero_iff.mpr (List.mem_map.mpr ⟨c, hc, ?_⟩))
  rw [hnil, List.length_nil]

/-- Where a combined code is right, the kernel meets no row with a NULL key. -/
theorem noNull_of_perfect {c : Combination} (hu : c.Uses) (h : c.Perfect) : c.NoNull := by
  intro r hr hmem
  have hread := h.readOut r hr
  have hrange := h.inRange r hr
  cases c with
  | table backend rows keys nagg slots =>
    obtain ⟨k, hk, hnull⟩ := List.mem_map.mp hmem
    cases backend with
    | cpp => exact hu.2.1 r.1 hr k hk hnull
    | numba => exact hu.2.1 r.1 hr k hk hnull
  | side rows keys factRows nagg dims =>
    have hprod : (sizes (codesOf keys)).prod ≠ 0 := by
      intro h0
      simp only [combos, h0] at hrange
      omega
    exact unravelStrided_nonneg (uniques_ne_nil hprod) _ (hread ▸ hmem)
  | spanning rows dimRows fact dim nagg dims =>
    have hprod : (sizes (codesOf fact)).prod * (sizes (codesOf dim)).prod ≠ 0 := by
      intro h0
      simp only [combos, h0] at hrange
      omega
    rw [← hread, readOut, List.mem_append] at hmem
    rcases hmem with hmem | hmem
    · exact unravelStrided_nonneg (uniques_ne_nil (left_ne_zero_of_mul hprod)) _ hmem
    · exact unravelStrided_nonneg (uniques_ne_nil (right_ne_zero_of_mul hprod)) _ hmem

theorem fewCombos_of_noWrap {c : Combination} (h : c.NoWrap) : c.FewCombos := by
  cases c with
  | table backend rows keys nagg slots => exact h.1
  | side rows keys factRows nagg dims => exact h.1
  | spanning rows dimRows fact dim nagg dims => exact ⟨h.1, h.2.1⟩

/-! ## 6. The condition -/

/-- A code whose read-out is right tells the keys apart. -/
theorem perfect_of_readOut {c : Combination} (hrange : ∀ r, c.InRows r → 0 ≤ c.code r ∧ c.code r < c.combos)
    (hread : ∀ r, c.InRows r → c.readOut (c.code r) = c.key r) : c.Perfect where
  injective r s hr hs heq := by rw [← hread r hr, ← hread s hs, heq]
  inRange := hrange
  readOut := hread

theorem perfect_table {backend : Backend} {rows nagg slots : Nat} {keys : List (Factorized rows)}
    (hp : (sizes (codesOf keys)).prod < 2 ^ 63) (hv : ∀ i < rows, Valued (codesOf keys) i) :
    (table backend rows keys nagg slots).Perfect := by
  refine perfect_of_readOut (fun r hr => combine_lt (hv r.1 hr) hp) fun r hr => ?_
  cases backend with
  | numba => exact unravel_combine (hv r.1 hr) hp
  | cpp =>
    rw [readOut]
    split
    · exact unravel_combine (hv r.1 hr) hp
    · exact unravelStrided_combine (hv r.1 hr) hp

theorem perfect_side {rows factRows nagg : Nat} {keys : List (Factorized rows)} {dims : List Nat}
    (hp : (sizes (codesOf keys)).prod < 2 ^ 63) (hv : ∀ i < rows, Valued (codesOf keys) i) :
    (side rows keys factRows nagg dims).Perfect :=
  perfect_of_readOut (fun r hr => combine_lt (hv r.1 hr) hp)
    fun r hr => unravelStrided_combine (hv r.1 hr) hp

theorem perfect_spanning {rows dimRows nagg : Nat} {fact : List (Factorized rows)}
    {dim : List (Factorized dimRows)} {dims : List Nat}
    (hf : (sizes (codesOf fact)).prod < 2 ^ 63) (hd : (sizes (codesOf dim)).prod < 2 ^ 63)
    (hfd : (sizes (codesOf fact)).prod * (sizes (codesOf dim)).prod < 2 ^ 63)
    (hv : ∀ i < rows, ∀ j < dimRows, Valued (codesOf fact) i ∧ Valued (codesOf dim) j) :
    (spanning rows dimRows fact dim nagg dims).Perfect := by
  have hlevels : ∀ i < rows, ∀ j < dimRows, _ := fun i hi j hj =>
    two_levels (combine_lt (hv i hi j hj).1 hf) (combine_lt (hv i hi j hj).2 hd) hfd
  have hcode : ∀ r, r.1 < rows ∧ r.2 < dimRows →
      (spanning rows dimRows fact dim nagg dims).code r =
        combine (codesOf fact) r.1 * (sizes (codesOf dim)).prod + combine (codesOf dim) r.2 := by
    rintro ⟨i, j⟩ ⟨hi, hj⟩
    rw [code, nGroups_small hd]
    exact (hlevels i hi j hj).2.1
  refine perfect_of_readOut (fun r hr => ?_) fun r hr => ?_
  · obtain ⟨⟨hlo, hhi⟩, -⟩ := hlevels r.1 hr.1 r.2 hr.2
    have hdlo := (combine_lt (hv r.1 hr.1 r.2 hr.2).2 hd).1
    rw [hcode r hr, combos, Nat.cast_mul]
    exact ⟨by omega, hhi⟩
  · obtain ⟨-, -, hdiv, hmod⟩ := hlevels r.1 hr.1 r.2 hr.2
    rw [readOut, hcode r hr, nGroups_small hd, hdiv, hmod,
      unravelStrided_combine (hv r.1 hr.1 r.2 hr.2).1 hf,
      unravelStrided_combine (hv r.1 hr.1 r.2 hr.2).2 hd, key]

/-- The sums of both levels. -/
theorem levels_inRange {f d : List Codes} {i j : Nat} (hvf : Valued f i) (hvd : Valued d j)
    (hf : (sizes f).prod < 2 ^ 63) (hd : (sizes d).prod < 2 ^ 63)
    (hfd : (sizes f).prod * (sizes d).prod < 2 ^ 63) :
    InRange ((terms f i).sum * (sizes d).prod) ∧
      InRange ((terms f i).sum * (sizes d).prod + (terms d j).sum) := by
  have hfd' : ((sizes f).prod : Int) * (sizes d).prod < 2 ^ 63 := by exact_mod_cast hfd
  obtain ⟨⟨hlo, hhi⟩, -⟩ := two_levels (combine_lt hvf hf) (combine_lt hvd hd) hfd
  have hdlo := (combine_lt hvd hd).1
  rw [combine_encode hvf hf, ← sum_terms hvf] at hlo hhi
  rw [combine_encode hvd hd, ← sum_terms hvd] at hhi hdlo
  exact ⟨⟨by omega, by omega⟩, ⟨by omega, by omega⟩⟩

/-- **Combined group codes.**  Whenever one of the fused paths goes on to use the combined code of a
list of keys, the code is a perfect hash of the keys, read out as the codes it was made of, and nothing
wraps, exactly when the keys that are bound together have fewer than 2^63 combinations and none is
NULL. -/
theorem group_codes (c : Combination) :
    (c.Uses → c.Perfect ∧ c.NoWrap) ↔ (c.Uses → c.FewCombos ∧ c.NoNull) := by
  refine imp_congr_right fun hu => ⟨fun ⟨hp, hw⟩ => ⟨fewCombos_of_noWrap hw, noNull_of_perfect hu hp⟩, ?_⟩
  rintro ⟨hfew, hnull⟩
  cases c with
  | table backend rows keys nagg slots =>
    have hv : ∀ i < rows, Valued (codesOf keys) i := fun i hi => valued_codesOf hi (hnull (i, 0) hi)
    exact ⟨perfect_table hfew.1 hv, hfew, fun i hi => sumsInRange (hv i hi) hfew.1⟩
  | side rows keys factRows nagg dims =>
    have hv : ∀ i < rows, Valued (codesOf keys) i := fun i hi => valued_codesOf hi (hnull (i, 0) hi)
    exact ⟨perfect_side hfew.1 hv, hfew, fun i hi => sumsInRange (hv i hi) hfew.1⟩
  | spanning rows dimRows fact dim nagg dims =>
    obtain ⟨hf, hd⟩ := hfew
    have hfd : (sizes (codesOf fact)).prod * (sizes (codesOf dim)).prod < 2 ^ 63 := by
      have hlt := hu.2.2.2.2
      rw [nGroups_small hf.1, nGroups_small hd.1] at hlt
      exact_mod_cast hlt
    have hv : ∀ i < rows, ∀ j < dimRows, Valued (codesOf fact) i ∧ Valued (codesOf dim) j := by
      intro i hi j hj
      have hkey := hnull (i, j) ⟨hi, hj⟩
      rw [key, List.mem_append, not_or] at hkey
      exact ⟨valued_codesOf hi hkey.1, valued_codesOf hj hkey.2⟩
    refine ⟨perfect_spanning hf.1 hd.1 hfd hv, hf, hd, hfd, fun i hi j hj => ?_⟩
    obtain ⟨hvf, hvd⟩ := hv i hi j hj
    exact ⟨sumsInRange hvf hf.1, sumsInRange hvd hd.1, levels_inRange hvf hvd hf.1 hd.1 hfd⟩

/-! ## 7. Four keys -/

/-- A key column of 65536 rows with as many values. -/
def manyValues : Factorized 65536 where
  codes := fun i => i
  uniques := (List.range 65536).map fun k => .num (k : ℕ)
  bounds i hi := by
    rw [List.length_map, List.length_range]
    omega
  onto k hk := ⟨k, by rwa [List.length_map, List.length_range] at hk, rfl⟩

/-- `SELECT .., COUNT(*) .. GROUP BY a, b, c, d` on a table with 65536 rows where each of the four columns
has 65536 values. -/
def fourKeys : Combination := table .cpp 65536 (List.replicate 4 manyValues) 1 1

theorem sizes_fourKeys : sizes (codesOf (List.replicate 4 manyValues)) = List.replicate 4 65536 := by
  simp [sizes, manyValues]

/-- **Four keys of 65536 values.**  Their 2^64 combinations count as 0 groups, so the dense kernel is
launched for them; the code of the last row is -1, outside the range of groups. -/
theorem four_keys_wrap : fourKeys.Uses ∧ fourKeys.groups = 0 ∧ fourKeys.code (65535, 0) = -1 ∧
    ¬ (fourKeys.Uses → fourKeys.Perfect ∧ fourKeys.NoWrap) := by
  have hgroups : nGroups (codesOf (List.replicate 4 manyValues)) = 0 := by
    rw [nGroups, sizes_fourKeys]
    decide
  have huses : fourKeys.Uses := by
    refine ⟨by decide, fun i _ c hc => ?_, ?_⟩
    · obtain rfl : c = manyValues.toCodes := by simpa [codesOf] using hc
      intro h
      have hneg : (i : Int) = -1 := h
      omega
    · rw [launches, hgroups]
      decide
  have hcode : fourKeys.code (65535, 0) = -1 := by
    rw [fourKeys, code, combine, strides, sizes_fourKeys]
    decide
  refine ⟨huses, hgroups, hcode, fun h => ?_⟩
  have hlo := ((h huses).1.inRange (65535, 0) (show 65535 < 65536 by decide)).1
  rw [hcode] at hlo
  omega

end Combination

end RyuDB.Fused
