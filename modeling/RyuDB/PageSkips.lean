/-
# What the header reader skips

`skip_value` reads the numbers of the compact protocol where they are: it takes the length of a binary, a
list and a map for a signed number, and looks for it behind the header of every list.  So it comes to the
end of a value without binaries, lists, sets and maps, and of no other kind of value in general.

* `varintLoop_digits`: `zigzag_varint` reads what was written.
* `skip_body`: a value without these is skipped exactly.
* `pageLoop_fields`: the page header reader returns the fields that were written.
* `skips_exactly_iff`: the kinds of value that can be skipped.
-/
import Mathlib.Tactic.IntervalCases
import RyuDB.PageHeaders

namespace RyuDB

namespace Pages

open Thrift (Value fields FitFields PartFields)

/-! ## 1. What a reader leaves -/

/-- The reader returned and left `rest`. -/
def Leaves {bs : Bytes} (x : Except String (Rest bs)) (rest : Bytes) : Prop :=
  ∃ r, x = .ok r ∧ r.1 = rest

/-- The reader of at least one byte returned `a` and left `rest`. -/
def Reads {α : Type} {bs : Bytes} (x : Except String (α × Tail bs)) (a : α) (rest : Bytes) : Prop :=
  ∃ t, x = .ok (a, t) ∧ t.1 = rest

/-- The reader returned `a` and left `rest`. -/
def Yields {α : Type} {bs : Bytes} (x : Except String (α × Rest bs)) (a : α) (rest : Bytes) : Prop :=
  ∃ r, x = .ok (a, r) ∧ r.1 = rest

theorem skip_append {n : Nat} {bs : Bytes} (hlen : bs.length = n) (rest : Bytes) :
    Leaves (skip n (bs ++ rest)) rest := by
  subst hlen
  have hfits : ¬(bs ++ rest).length < bs.length := by simp
  refine ⟨⟨(bs ++ rest).drop bs.length, List.drop_suffix _ _⟩, ?_, List.drop_left⟩
  rw [skip, if_neg hfits]

/-! ## 2. Numbers -/

/-- A digit is put in front of the number so far. -/
theorem or_shift {u d shift : Nat} (hu : u < 2 ^ shift) (hd : d * 2 ^ shift < 2 ^ 64) :
    u ||| (d <<< shift) % 2 ^ 64 = u + d * 2 ^ shift := by
  rw [Nat.shiftLeft_eq, Nat.mod_eq_of_lt hd, Nat.or_comm, Nat.mul_comm,
    ← Nat.two_pow_add_eq_or_of_lt hu, Nat.add_comm]

/-- `zigzag_varint` reads these digits of a number of 64 bits behind what it has so far. -/
def ReadsDigits (k n : Nat) (ds : Bytes) : Prop :=
  ∀ {shift u : Nat} (rest : Bytes), u < 2 ^ shift → n * 2 ^ shift < 2 ^ 64 →
    Reads (varintLoop (k + 1) shift u (ds ++ rest)) (Thrift.unzigzag (u + n * 2 ^ shift)) rest

theorem varintLoop_last (k n : Nat) (b : UInt8) (hb : b.toNat = n) (hlt : n < 128) :
    ReadsDigits k n [b] := by
  intro shift u rest hu hfit
  rw [List.singleton_append]
  refine ⟨(Rest.here rest).cons b, ?_, rfl⟩
  rw [varintLoop]
  simp only [hb, hlt, if_true, Nat.mod_eq_of_lt hlt, or_shift hu hfit]

theorem varintLoop_more (k n : Nat) (b : UInt8) (bs : Bytes) (hb : b.toNat = n % 128 + 128)
    (ih : ReadsDigits k (n / 128) bs) : ReadsDigits (k + 1) n (b :: bs) := by
  intro shift u rest hu hfit
  have hdigit : b.toNat % 128 = n % 128 := by omega
  have hpow : 2 ^ (shift + 7) = 2 ^ shift * 128 := pow_add 2 shift 7
  have hsum : n % 128 * 2 ^ shift + n / 128 * 2 ^ (shift + 7) = n * 2 ^ shift := by
    calc n % 128 * 2 ^ shift + n / 128 * 2 ^ (shift + 7)
        = (n % 128 + 128 * (n / 128)) * 2 ^ shift := by rw [hpow]; ring
      _ = n * 2 ^ shift := by rw [Nat.mod_add_div]
  have hword := or_shift hu (d := n % 128) (by omega)
  have hsmall : u + n % 128 * 2 ^ shift < 2 ^ (shift + 7) := by
    have hlt : n % 128 ≤ 127 := by omega
    have := Nat.mul_le_mul_right (2 ^ shift) hlt
    omega
  obtain ⟨t, hread, ht⟩ := ih rest hsmall (by omega)
  have hmore : ¬b.toNat < 128 := by omega
  rw [List.cons_append]
  refine ⟨t.rest.cons b, ?_, ht⟩
  rw [varintLoop]
  simp only [hdigit, hword, hmore, if_false, hread]
  rw [Nat.add_assoc, hsum]

theorem varintLoop_digits {k n : Nat} (hn : n < 128 ^ (k + 1)) : ReadsDigits k n (Thrift.digits k n) :=
  Thrift.digits_cases varintLoop_last varintLoop_more k n hn

/-- `zigzag_varint` takes a natural number for the place of a signed one. -/
theorem zigzagVarint_natural {n : Nat} (hn : n < 2 ^ 64) (rest : Bytes) :
    Reads (zigzagVarint (Thrift.natural n ++ rest)) (Thrift.unzigzag n) rest := by
  have hdigits : n < 128 ^ (9 + 1) := lt_of_lt_of_le hn (by decide)
  have hread := @varintLoop_digits 9 n hdigits 0 0 rest (by decide) (by simpa using hn)
  rw [pow_zero, Nat.mul_one, Nat.zero_add] at hread
  exact hread

/-- It reads a signed number as it was written. -/
theorem zigzagVarint_signed {n : Int} (hn : Thrift.Width.i64.Holds n) (rest : Bytes) :
    Reads (zigzagVarint (Thrift.signed n ++ rest)) n rest := by
  have hread := zigzagVarint_natural (Thrift.zigzag_lt hn.1 hn.2) rest
  rw [Thrift.unzigzag_zigzag] at hread
  exact hread

/-- A number of any width is one of 64 bits. -/
theorem holds_i64 {w : Thrift.Width} {n : Int} (h : w.Holds n) : Thrift.Width.i64.Holds n := by
  unfold Thrift.Width.Holds at *
  cases w <;> simp only [Thrift.Width.bits] at * <;> omega

/-! ## 3. Field headers -/

/-- The header byte of a field has its type, and how far its id is from the last one's or a zero before the
id itself. -/
theorem fieldHeader_cases (last id : Int) {code : Nat} (hcode : 0 < code ∧ code < 16) :
    ∃ fh tl, Thrift.fieldHeader last id code = fh :: tl ∧ CType.of fh = .ofCode code ∧
      (fh.toNat / 16 = 0 ∧ tl = Thrift.signed id ∨
        ((fh.toNat / 16 : Nat) : Int) = id - last ∧ fh.toNat / 16 ≠ 0 ∧ tl = []) := by
  unfold Thrift.fieldHeader
  split_ifs with hnear
  · have hbyte : (UInt8.ofNat ((id - last).toNat * 16 + code)).toNat = (id - last).toNat * 16 + code := by
      rw [UInt8.toNat_ofNat']
      omega
    refine ⟨_, [], rfl, ?_, .inr ⟨?_, ?_, rfl⟩⟩
    · rw [CType.of, hbyte]
      congr 1
      omega
    · rw [hbyte]
      omega
    · rw [hbyte]
      omega
  · have hbyte : (UInt8.ofNat code).toNat = code := by
      rw [UInt8.toNat_ofNat']
      omega
    refine ⟨_, _, rfl, ?_, .inl ⟨?_, rfl⟩⟩
    · rw [CType.of, hbyte]
      congr 1
      omega
    · rw [hbyte]
      omega

theorem ofCode_ne_stop {code : Nat} (hcode : 0 < code ∧ code < 16) : CType.ofCode code ≠ .stop := by
  obtain ⟨hpos, hlt⟩ := hcode
  interval_cases code <;> decide

/-- `read_field` reads a header back, with the type, the id and the bytes behind it. -/
theorem readField_header {last id : Int} {code : Nat} (hcode : 0 < code ∧ code < 16)
    (hid : Thrift.Width.i16.Holds id) (rest : Bytes) :
    ∃ t, readField last (Thrift.fieldHeader last id code ++ rest) = .ok (.ofCode code, id, t) ∧
      t.1 = rest := by
  obtain ⟨fh, tl, hheader, htype, hcase⟩ := fieldHeader_cases last id hcode
  have hcut : int32 id = id := by
    unfold Thrift.Width.Holds at hid
    simp only [Thrift.Width.bits] at hid
    exact Int.bmod_eq_of_le_mul_two (by omega) (by omega)
  have hstop := ofCode_ne_stop hcode
  rw [hheader, List.cons_append]
  rcases hcase with ⟨hzero, rfl⟩ | ⟨hdelta, hne, rfl⟩
  · obtain ⟨t, hread, ht⟩ := zigzagVarint_signed (holds_i64 hid) rest
    refine ⟨t.rest.cons fh, ?_, ht⟩
    simp only [readField, htype, hstop, if_false, hzero, if_true, hread, hcut]
  · refine ⟨(Rest.here rest).cons fh, ?_, rfl⟩
    have hsum : int32 (last + (fh.toNat / 16 : Nat)) = id := by rw [hdelta, add_sub_cancel, hcut]
    simp only [readField, htype, hstop, if_false, hne, List.nil_append, hsum]

/-- A field of a struct that is skipped, and the fields behind it. -/
theorem skipStruct_cons {fh : UInt8} {bs a b c : Bytes} (htype : CType.of fh ≠ .stop)
    (hid : Leaves (explicitId fh bs) a) (hvalue : Leaves (skipValue (.of fh) a) b)
    (hrest : Leaves (skipStruct b) c) : Leaves (skipStruct (fh :: bs)) c := by
  obtain ⟨r, hr, rfl⟩ := hid
  obtain ⟨r', hr', rfl⟩ := hvalue
  obtain ⟨r'', hr'', rfl⟩ := hrest
  refine ⟨(((r''.up r'.2).up r.2).cons fh).rest, ?_, rfl⟩
  rw [skipStruct]
  simp only [if_neg htype, hr, hr', hr'']

/-- The reader that skips a struct reads the header too. -/
theorem skipStruct_header {last id : Int} {code : Nat} (hcode : 0 < code ∧ code < 16)
    (hid : Thrift.Width.i16.Holds id) {a b c : Bytes} (hvalue : Leaves (skipValue (.ofCode code) a) b)
    (hrest : Leaves (skipStruct b) c) :
    Leaves (skipStruct (Thrift.fieldHeader last id code ++ a)) c := by
  obtain ⟨fh, tl, hheader, htype, hcase⟩ := fieldHeader_cases last id hcode
  rw [hheader, List.cons_append]
  refine skipStruct_cons (htype ▸ ofCode_ne_stop hcode) ?_ (htype.symm ▸ hvalue) hrest
  rcases hcase with ⟨hzero, rfl⟩ | ⟨-, hne, rfl⟩
  · obtain ⟨t, hread, ht⟩ := zigzagVarint_signed (holds_i64 hid) a
    exact ⟨t.rest, by simp only [explicitId, hzero, if_true, hread], ht⟩
  · exact ⟨Rest.here _, by simp only [explicitId, hne, if_false, List.nil_append], rfl⟩

theorem skipStruct_stop (rest : Bytes) : Leaves (skipStruct (0 :: rest)) rest := by
  refine ⟨((Rest.here rest).cons 0).rest, ?_, rfl⟩
  have hstop : CType.of 0 = .stop := by decide
  rw [skipStruct]
  simp only [hstop, if_true]

/-! ## 4. Values -/

mutual

/-- No list, set or map but an empty map, and no binary but the empty one. -/
def Skipped : Value → Prop
  | .binary bs => bs = []
  | .list _ _ | .set _ _ => False
  | .map _ _ es => es = []
  | .struct fs => SkippedFields fs
  | .bool _ | .byte _ | .int _ _ | .double _ => True

def SkippedFields : List (Int × Value) → Prop
  | [] => True
  | (_, v) :: fs => Skipped v ∧ SkippedFields fs

end

theorem skip_zero {type : CType} {bs : Bytes} (h : type = .boolT ∨ type = .boolF) :
    Leaves (skipValue type bs) bs := by
  refine ⟨Rest.here bs, ?_, rfl⟩
  rcases h with rfl | rfl <;> rw [skipValue]

theorem skip_int {type : CType} (h : type = .i16 ∨ type = .i32 ∨ type = .i64) {n : Int}
    (hn : Thrift.Width.i64.Holds n) (rest : Bytes) :
    Leaves (skipValue type (Thrift.signed n ++ rest)) rest := by
  obtain ⟨t, hread, ht⟩ := zigzagVarint_signed hn rest
  refine ⟨t.rest, ?_, ht⟩
  rcases h with rfl | rfl | rfl <;> rw [skipValue] <;> simp only [hread]

theorem skip_binary {bs a b : Bytes} {n : Nat} (hlen : Reads (zigzagVarint bs) n a)
    (hbytes : Leaves (skip n a) b) : Leaves (skipValue .binary bs) b := by
  obtain ⟨t, hread, rfl⟩ := hlen
  obtain ⟨r, hskip, rfl⟩ := hbytes
  have hnat : ¬(n : Int) < 0 := by omega
  refine ⟨(t.more r).rest, ?_, rfl⟩
  rw [skipValue]
  simp only [hread, hnat, if_false, Int.toNat_natCast, hskip]

theorem zigzagVarint_zero (rest : Bytes) : Reads (zigzagVarint (0 :: rest)) 0 rest :=
  zigzagVarint_natural (n := 0) (by decide) rest

mutual

/-- A value without these is skipped exactly. -/
theorem skip_body : ∀ (v : Value), v.Fits → Skipped v → ∀ rest : Bytes,
    Leaves (skipValue (.ofCode v.code) (v.body ++ rest)) rest
  | .bool true, _, _, rest => skip_zero (.inl rfl)
  | .bool false, _, _, rest => skip_zero (.inr rfl)
  | .byte b, _, _, rest => by
    have hskip : Leaves (skip 1 ([b] ++ rest)) rest := skip_append rfl rest
    show Leaves (skipValue .byte ([b] ++ rest)) rest
    rw [skipValue]
    exact hskip
  | .int .i16 n, hf, _, rest => skip_int (.inl rfl) (holds_i64 hf) rest
  | .int .i32 n, hf, _, rest => skip_int (.inr (.inl rfl)) (holds_i64 hf) rest
  | .int .i64 n, hf, _, rest => skip_int (.inr (.inr rfl)) (holds_i64 hf) rest
  | .double bits, _, _, rest => by
    have hskip := skip_append (Bytes.length_packLE 8 bits) rest
    show Leaves (skipValue .double (Bytes.packLE 8 bits ++ rest)) rest
    rw [skipValue]
    exact hskip
  | .binary bs, _, hs, rest => by
    obtain rfl : bs = [] := hs
    exact skip_binary (zigzagVarint_zero rest) (skip_append (show ([] : Bytes).length = 0 from rfl) rest)
  | .list _ _, _, hs, _ => hs.elim
  | .set _ _, _, hs, _ => hs.elim
  | .map key value es, _, hs, rest => by
    obtain rfl : es = [] := hs
    obtain ⟨t, hread, ht⟩ := zigzagVarint_zero rest
    show Leaves (skipValue .map (0 :: rest)) rest
    refine ⟨t.rest, ?_, ht⟩
    rw [skipValue]
    simp only [hread, lt_irrefl, if_false, if_true]
  | .struct fs, hf, hs, rest => by
    show Leaves (skipValue .struct (fields 0 fs ++ rest)) rest
    rw [skipValue]
    exact skip_fields fs 0 hf hs rest

/-- The fields of a struct without these are skipped exactly, and the struct ends behind its stop
byte. -/
theorem skip_fields : ∀ (fs : List (Int × Value)) (last : Int), FitFields fs → SkippedFields fs →
    ∀ rest : Bytes, Leaves (skipStruct (fields last fs ++ rest)) rest
  | [], _, _, _, rest => skipStruct_stop rest
  | (id, v) :: fs, last, hf, hs, rest => by
    rw [fields, List.append_assoc, List.append_assoc]
    exact skipStruct_header v.code_pos hf.1 (skip_body v hf.2.1 hs.1 _)
      (skip_fields fs id hf.2.2 hs.2 rest)

end

/-! ## 5. Page headers -/

/-- A field of the kind i32. -/
def IsI32 (v : Value) : Prop := ∃ n, v = .int .i32 n

/-- The fields of a header in a page header: those of `ids` are of the kind i32, and every other one can be
skipped. -/
def SubFields (ids : List Int) (fs : List (Int × Value)) : Prop :=
  FitFields fs ∧ ∀ f ∈ fs, (f.1 ∈ ids → IsI32 f.2) ∧ (f.1 ∉ ids → Skipped f.2)

/-- The fields of a page header: its type and sizes are of the kind i32, the data page header and the
dictionary page header are structs, and every other one can be skipped. -/
def PageFields (fs : List (Int × Value)) : Prop :=
  FitFields fs ∧ ∀ f ∈ fs,
    (f.1 ∈ [1, 2, 3] → IsI32 f.2) ∧
    (f.1 = 5 → ∃ sub, f.2 = .struct sub ∧ SubFields [1, 2, 3, 4] sub) ∧
    (f.1 = 7 → ∃ sub, f.2 = .struct sub ∧ SubFields [1, 2] sub) ∧
    (f.1 ∉ [1, 2, 3, 5, 7] → Skipped f.2)

/-- A field of a header in a page header is stored. -/
def recordSub (store : Int → Int → PageDesc → PageDesc) (pg : PageDesc) : Int × Value → PageDesc
  | (id, .int .i32 n) => store id n pg
  | _ => pg

/-- A field of a page header is stored. -/
def recordPage (pg : PageDesc) : Int × Value → PageDesc
  | (1, .int .i32 n) => { pg with type := n }
  | (2, .int .i32 n) => { pg with uncompSize := n }
  | (3, .int .i32 n) => { pg with compSize := n }
  | (5, .struct sub) => sub.foldl (recordSub storeData) pg
  | (7, .struct sub) => sub.foldl (recordSub storeDict) pg
  | _ => pg

/-- What is not of the kind i32 has another type, and is not stored. -/
theorem other_kind {v : Value} (hv : ¬IsI32 v) :
    CType.ofCode v.code ≠ .i32 ∧ ∀ store pg id, recordSub store pg (id, v) = pg := by
  cases v with
  | bool b => cases b <;> exact ⟨by decide, fun _ _ _ => rfl⟩
  | int w n =>
    cases w with
    | i32 => exact absurd ⟨n, rfl⟩ hv
    | i16 | i64 => simp [Value.code, Value.kind, Thrift.Kind.code, CType.ofCode, recordSub]
  | _ => simp [Value.code, Value.kind, Thrift.Kind.code, CType.ofCode, recordSub]

theorem int32_eq {n : Int} (hn : Thrift.Width.i32.Holds n) : int32 n = n := by
  unfold Thrift.Width.Holds at hn
  simp only [Thrift.Width.bits] at hn
  exact Int.bmod_eq_of_le_mul_two (by omega) (by omega)

theorem readField_stop (last : Int) (rest : Bytes) :
    ∃ t, readField last (0 :: rest) = .ok (.stop, last, t) ∧ t.1 = rest := by
  refine ⟨(Rest.here rest).cons 0, ?_, rfl⟩
  have hstop : CType.of 0 = .stop := by decide
  simp only [readField, hstop, if_true]

section Loops

variable {store : Int → Int → PageDesc → PageDesc} {last id v : Int} {pg pg' pg'' : PageDesc}
  {type : CType} {bs a b : Bytes} {t : Tail bs}

theorem subHeader_store (hread : readField last bs = .ok (.i32, id, t))
    (hv : Reads (zigzagVarint t.1) v a) (hrest : Yields (subHeader store id (store id (int32 v) pg) a) pg' b) :
    Yields (subHeader store last pg bs) pg' b := by
  obtain ⟨t', hv, rfl⟩ := hv
  obtain ⟨r, hr, rfl⟩ := hrest
  refine ⟨(r.up t'.2.1).up t.2.1, ?_, rfl⟩
  rw [subHeader]
  simp only [hread, reduceCtorEq, if_false, if_true, hv, hr]

theorem subHeader_skip (hread : readField last bs = .ok (type, id, t)) (hstop : type ≠ .stop)
    (htype : type ≠ .i32) (hskip : Leaves (skipValue type t.1) a)
    (hrest : Yields (subHeader store id pg a) pg' b) : Yields (subHeader store last pg bs) pg' b := by
  obtain ⟨r', hskip, rfl⟩ := hskip
  obtain ⟨r, hr, rfl⟩ := hrest
  refine ⟨(r.up r'.2).up t.2.1, ?_, rfl⟩
  rw [subHeader]
  simp only [hread, if_neg hstop, if_neg htype, hskip, hr]

theorem pageLoop_field (hread : readField last bs = .ok (type, id, t)) (hstop : type ≠ .stop)
    (hfield : Yields (pageField type id pg t.1) pg' a) (hrest : Reads (pageLoop id pg' a) pg'' b) :
    Reads (pageLoop last pg bs) pg'' b := by
  obtain ⟨r, hfield, rfl⟩ := hfield
  obtain ⟨t', hr, rfl⟩ := hrest
  refine ⟨t.more (t'.rest.up r.2), ?_, rfl⟩
  rw [pageLoop]
  simp only [hread, if_neg hstop, hfield, hr]

end Loops

/-- The reader of a header in a page header stores the fields in their order and skips the others. -/
theorem subHeader_fields {store : Int → Int → PageDesc → PageDesc} (rest : Bytes) :
    ∀ (fs : List (Int × Value)) (last : Int) (pg : PageDesc), FitFields fs →
      (∀ f ∈ fs, IsI32 f.2 ∨ Skipped f.2) →
      Yields (subHeader store last pg (fields last fs ++ rest)) (fs.foldl (recordSub store) pg) rest := by
  intro fs
  induction fs with
  | nil =>
    intro last pg _ _
    obtain ⟨t, hread, ht⟩ := readField_stop last rest
    refine ⟨t.rest, ?_, ht⟩
    show subHeader store last pg (0 :: rest) = _
    rw [subHeader]
    simp only [hread, if_true]
    rfl
  | cons f fs ih =>
    obtain ⟨id, v⟩ := f
    intro last pg hfit hall
    obtain ⟨hid, hv, hfit⟩ := hfit
    have hrest := fun pg => ih id pg hfit fun f hf => hall f (List.mem_cons_of_mem _ hf)
    rw [fields, List.append_assoc, List.append_assoc]
    obtain ⟨t, hread, ht⟩ := @readField_header last id _ v.code_pos hid
      (v.body ++ (fields id fs ++ rest))
    by_cases hi32 : IsI32 v
    · obtain ⟨n, rfl⟩ := hi32
      refine subHeader_store hread (v := n) (a := fields id fs ++ rest) ?_ ?_
      · rw [ht]
        exact zigzagVarint_signed (holds_i64 hv) _
      · rw [int32_eq hv]
        exact hrest (store id n pg)
    · obtain ⟨htype, hstore⟩ := other_kind hi32
      have hskip := (hall (id, v) List.mem_cons_self).resolve_left hi32
      refine subHeader_skip (a := fields id fs ++ rest) hread (ofCode_ne_stop v.code_pos) htype ?_ ?_
      · rw [ht]
        exact skip_body v hv hskip _
      · rw [List.foldl_cons, hstore]
        exact hrest pg

theorem pageField_size {id n : Int} (hid : id ∈ [1, 2, 3]) (hn : Thrift.Width.i32.Holds n)
    (pg : PageDesc) (rest : Bytes) :
    Yields (pageField .i32 id pg (Thrift.signed n ++ rest)) (recordPage pg (id, .int .i32 n)) rest := by
  obtain ⟨t, hread, ht⟩ := zigzagVarint_signed (holds_i64 hn) rest
  have hcut := int32_eq hn
  simp only [List.mem_cons, List.not_mem_nil, or_false] at hid
  rcases hid with rfl | rfl | rfl <;>
    exact ⟨t.rest, by simp [pageField, sizeField, hread, hcut, recordPage], ht⟩

theorem SubFields.each {ids : List Int} {sub : List (Int × Value)} (h : SubFields ids sub) :
    ∀ f ∈ sub, IsI32 f.2 ∨ Skipped f.2 := by
  intro f hf
  by_cases hid : f.1 ∈ ids
  · exact .inl ((h.2 f hf).1 hid)
  · exact .inr ((h.2 f hf).2 hid)

theorem pageField_data {sub : List (Int × Value)} (hsub : SubFields [1, 2, 3, 4] sub) (pg : PageDesc)
    (rest : Bytes) :
    Yields (pageField .struct 5 pg (fields 0 sub ++ rest)) (recordPage pg (5, .struct sub)) rest := by
  have hread := @subHeader_fields storeData rest sub 0 pg hsub.1 hsub.each
  simpa [pageField, parseDataPageHeader, recordPage] using hread

theorem pageField_dict {sub : List (Int × Value)} (hsub : SubFields [1, 2] sub) (pg : PageDesc)
    (rest : Bytes) :
    Yields (pageField .struct 7 pg (fields 0 sub ++ rest)) (recordPage pg (7, .struct sub)) rest := by
  have hread := @subHeader_fields storeDict rest sub 0 pg hsub.1 hsub.each
  simpa [pageField, parseDictPageHeader, recordPage] using hread

theorem pageField_other {id : Int} {v : Value} (hid : id ∉ [1, 2, 3, 5, 7]) (hv : v.Fits)
    (hs : Skipped v) (pg : PageDesc) (rest : Bytes) :
    Yields (pageField (.ofCode v.code) id pg (v.body ++ rest)) (recordPage pg (id, v)) rest := by
  obtain ⟨r, hskip, hr⟩ := skip_body v hv hs rest
  simp only [List.mem_cons, List.not_mem_nil, or_false, not_or] at hid
  obtain ⟨h1, h2, h3, h5, h7⟩ := hid
  have hrecord : recordPage pg (id, v) = pg := by
    unfold recordPage
    split <;> simp_all
  rw [hrecord]
  refine ⟨r, ?_, hr⟩
  simp only [pageField, otherField, h1, h2, h3, h5, h7, false_and, if_false, hskip]

/-- The `switch` on one field of a page header. -/
theorem pageField_record {id : Int} {v : Value} (hv : v.Fits)
    (hsize : id ∈ [1, 2, 3] → IsI32 v)
    (hdata : id = 5 → ∃ sub, v = .struct sub ∧ SubFields [1, 2, 3, 4] sub)
    (hdict : id = 7 → ∃ sub, v = .struct sub ∧ SubFields [1, 2] sub)
    (hother : id ∉ [1, 2, 3, 5, 7] → Skipped v) (pg : PageDesc) (rest : Bytes) :
    Yields (pageField (.ofCode v.code) id pg (v.body ++ rest)) (recordPage pg (id, v)) rest := by
  by_cases h123 : id ∈ [1, 2, 3]
  · obtain ⟨n, rfl⟩ := hsize h123
    exact pageField_size h123 hv pg rest
  by_cases h5 : id = 5
  · obtain ⟨sub, rfl, hsub⟩ := hdata h5
    subst h5
    exact pageField_data hsub pg rest
  by_cases h7 : id = 7
  · obtain ⟨sub, rfl, hsub⟩ := hdict h7
    subst h7
    exact pageField_dict hsub pg rest
  · have hid : id ∉ [1, 2, 3, 5, 7] := by
      simp only [List.mem_cons, List.not_mem_nil, or_false, not_or] at h123 ⊢
      exact ⟨h123.1, h123.2.1, h123.2.2, h5, h7⟩
    exact pageField_other hid hv (hother hid) pg rest

/-- The page header reader stores the fields in their order and skips the others. -/
theorem pageLoop_fields (rest : Bytes) :
    ∀ (fs : List (Int × Value)) (last : Int) (pg : PageDesc), PageFields fs →
      Reads (pageLoop last pg (fields last fs ++ rest)) (fs.foldl recordPage pg) rest := by
  intro fs
  induction fs with
  | nil =>
    intro last pg _
    obtain ⟨t, hread, ht⟩ := readField_stop last rest
    refine ⟨t, ?_, ht⟩
    show pageLoop last pg (0 :: rest) = _
    rw [pageLoop]
    simp only [hread, if_true]
    rfl
  | cons f fs ih =>
    obtain ⟨id, v⟩ := f
    intro last pg hpage
    obtain ⟨⟨hid, hv, hfit⟩, hall⟩ := hpage
    obtain ⟨hsize, hdata, hdict, hother⟩ := hall (id, v) List.mem_cons_self
    rw [fields, List.append_assoc, List.append_assoc]
    obtain ⟨t, hread, ht⟩ := @readField_header last id _ v.code_pos hid
      (v.body ++ (fields id fs ++ rest))
    refine pageLoop_field (a := fields id fs ++ rest) hread (ofCode_ne_stop v.code_pos) ?_
      (ih id _ ⟨hfit, fun f hf => hall f (List.mem_cons_of_mem _ hf)⟩)
    rw [ht]
    exact pageField_record hv hsize hdata hdict hother pg _

/-! ## 6. The fields that come back -/

theorem foldl_keep {get : PageDesc → Int} {store : PageDesc → Int × Value → PageDesc}
    {fs : List (Int × Value)} (h : ∀ f ∈ fs, ∀ pg, get (store pg f) = get pg) (pg : PageDesc) :
    get (fs.foldl store pg) = get pg := by
  induction fs generalizing pg with
  | nil => rfl
  | cons f fs ih =>
    rw [List.foldl_cons, ih fun g hg => h g (List.mem_cons_of_mem _ hg)]
    exact h f List.mem_cons_self pg

/-- What one field alone stores is there behind all fields. -/
theorem foldl_get {get : PageDesc → Int} {store : PageDesc → Int × Value → PageDesc}
    {fs : List (Int × Value)} {id : Int} {v : Value} {n : Int} (hids : (fs.map Prod.fst).Nodup)
    (hmem : (id, v) ∈ fs) (hother : ∀ f ∈ fs, f.1 ≠ id → ∀ pg, get (store pg f) = get pg)
    (hit : ∀ pg, get (store pg (id, v)) = n) (pg : PageDesc) : get (fs.foldl store pg) = n := by
  induction fs generalizing pg with
  | nil => cases hmem
  | cons f fs ih =>
    rw [List.map_cons, List.nodup_cons] at hids
    have hother' := fun g hg => hother g (List.mem_cons_of_mem f hg)
    rcases List.mem_cons.mp hmem with rfl | hmem
    · have hne : ∀ g ∈ fs, g.1 ≠ id := by
        rintro g hg rfl
        exact hids.1 (List.mem_map.mpr ⟨g, hg, rfl⟩)
      rw [List.foldl_cons, foldl_keep (fun g hg => hother' g hg (hne g hg)), hit]
    · exact ih hids.2 hmem hother' _

/-- The fields of a header in a page header: those of `ids` are of the kind i32, and the others are built of
values of the kinds in `K`. -/
structure SubHeader (K : Thrift.Kind → Prop) (ids : List Int) (fs : List (Int × Value)) : Prop where
  fit : FitFields fs
  nodup : (fs.map Prod.fst).Nodup
  known : ∀ f ∈ fs, f.1 ∈ ids → IsI32 f.2
  other : ∀ f ∈ fs, f.1 ∉ ids → f.2.Parts K

/-- The fields of a page header in any order: no id twice, the type and the sizes of the kind i32, a data
page header or a dictionary page header but not both, and any others that are built of values of the kinds
in `K`. -/
structure PageHeader (K : Thrift.Kind → Prop) (fs : List (Int × Value)) : Prop where
  fit : FitFields fs
  nodup : (fs.map Prod.fst).Nodup
  sizes : ∀ f ∈ fs, f.1 ∈ [1, 2, 3] → IsI32 f.2
  data : ∀ f ∈ fs, f.1 = 5 → ∃ sub, f.2 = .struct sub ∧ SubHeader K [1, 2, 3, 4] sub
  dict : ∀ f ∈ fs, f.1 = 7 → ∃ sub, f.2 = .struct sub ∧ SubHeader K [1, 2] sub
  alone : ∀ f ∈ fs, ∀ g ∈ fs, f.1 = 5 → g.1 ≠ 7
  other : ∀ f ∈ fs, f.1 ∉ [1, 2, 3, 5, 7] → f.2.Parts K

/-- The descriptor has the values of the fields. -/
structure Describes (fs : List (Int × Value)) (pg : PageDesc) : Prop where
  type : ∀ n, (1, .int .i32 n) ∈ fs → pg.type = n
  uncompSize : ∀ n, (2, .int .i32 n) ∈ fs → pg.uncompSize = n
  compSize : ∀ n, (3, .int .i32 n) ∈ fs → pg.compSize = n
  data : ∀ sub, (5, .struct sub) ∈ fs → ∀ n,
    ((1, .int .i32 n) ∈ sub → pg.numValues = n) ∧ ((2, .int .i32 n) ∈ sub → pg.valueEncoding = n) ∧
    ((3, .int .i32 n) ∈ sub → pg.defLevelEncoding = n) ∧
    ((4, .int .i32 n) ∈ sub → pg.repLevelEncoding = n)
  dict : ∀ sub, (7, .struct sub) ∈ fs → ∀ n,
    ((1, .int .i32 n) ∈ sub → pg.numValues = n) ∧ ((2, .int .i32 n) ∈ sub → pg.valueEncoding = n)

theorem recordSub_keep {get : PageDesc → Int} {store : Int → Int → PageDesc → PageDesc}
    {f : Int × Value} (h : ∀ n pg, get (store f.1 n pg) = get pg) (pg : PageDesc) :
    get (recordSub store pg f) = get pg := by
  unfold recordSub
  split
  · exact h _ pg
  · rfl

/-- What a field of a page header may change depends on its id. -/
theorem recordPage_keep {get : PageDesc → Int} {f : Int × Value}
    (h1 : f.1 = 1 → ∀ n pg, get { pg with type := n } = get pg)
    (h2 : f.1 = 2 → ∀ n pg, get { pg with uncompSize := n } = get pg)
    (h3 : f.1 = 3 → ∀ n pg, get { pg with compSize := n } = get pg)
    (h5 : f.1 = 5 → ∀ id n pg, get (storeData id n pg) = get pg)
    (h7 : f.1 = 7 → ∀ id n pg, get (storeDict id n pg) = get pg) (pg : PageDesc) :
    get (recordPage pg f) = get pg := by
  unfold recordPage
  split
  · exact h1 rfl _ pg
  · exact h2 rfl _ pg
  · exact h3 rfl _ pg
  · exact foldl_keep (fun g _ pg => recordSub_keep (h5 rfl g.1) pg) pg
  · exact foldl_keep (fun g _ pg => recordSub_keep (h7 rfl g.1) pg) pg
  · rfl

theorem storeData_sizes (id n : Int) (pg : PageDesc) :
    (storeData id n pg).type = pg.type ∧ (storeData id n pg).uncompSize = pg.uncompSize ∧
      (storeData id n pg).compSize = pg.compSize := by
  unfold storeData
  split_ifs <;> exact ⟨rfl, rfl, rfl⟩

theorem storeDict_sizes (id n : Int) (pg : PageDesc) :
    (storeDict id n pg).type = pg.type ∧ (storeDict id n pg).uncompSize = pg.uncompSize ∧
      (storeDict id n pg).compSize = pg.compSize := by
  unfold storeDict
  split_ifs <;> exact ⟨rfl, rfl, rfl⟩

/-- A field of a header in a page header is there behind all fields. -/
theorem foldl_sub {K : Thrift.Kind → Prop} {ids : List Int} {sub : List (Int × Value)}
    (hsub : SubHeader K ids sub) {get : PageDesc → Int} {store : Int → Int → PageDesc → PageDesc}
    {id n : Int} (hmem : (id, .int .i32 n) ∈ sub)
    (hother : ∀ i, i ≠ id → ∀ m pg, get (store i m pg) = get pg)
    (hit : ∀ pg, get (store id n pg) = n) (pg : PageDesc) :
    get (sub.foldl (recordSub store) pg) = n :=
  foldl_get hsub.nodup hmem (fun f _ hne => recordSub_keep (hother f.1 hne)) hit pg

section Describes

variable {K : Thrift.Kind → Prop} {fs : List (Int × Value)}

theorem foldl_data (h : PageHeader K fs) {sub : List (Int × Value)} (hmem : (5, .struct sub) ∈ fs)
    {get : PageDesc → Int} {n : Int} (hhead : ∀ m pg, get { pg with type := m } = get pg)
    (huncomp : ∀ m pg, get { pg with uncompSize := m } = get pg)
    (hcomp : ∀ m pg, get { pg with compSize := m } = get pg)
    (hit : ∀ pg, get (sub.foldl (recordSub storeData) pg) = n) (pg : PageDesc) :
    get (fs.foldl recordPage pg) = n := by
  refine foldl_get h.nodup hmem (fun f hf hne pg => ?_) hit pg
  exact recordPage_keep (fun _ => hhead) (fun _ => huncomp) (fun _ => hcomp) (fun h5 => absurd h5 hne)
    (fun h7 => absurd h7 (h.alone _ hmem f hf rfl)) pg

theorem foldl_dict (h : PageHeader K fs) {sub : List (Int × Value)} (hmem : (7, .struct sub) ∈ fs)
    {get : PageDesc → Int} {n : Int} (hhead : ∀ m pg, get { pg with type := m } = get pg)
    (huncomp : ∀ m pg, get { pg with uncompSize := m } = get pg)
    (hcomp : ∀ m pg, get { pg with compSize := m } = get pg)
    (hit : ∀ pg, get (sub.foldl (recordSub storeDict) pg) = n) (pg : PageDesc) :
    get (fs.foldl recordPage pg) = n := by
  refine foldl_get h.nodup hmem (fun f hf hne pg => ?_) hit pg
  exact recordPage_keep (fun _ => hhead) (fun _ => huncomp) (fun _ => hcomp)
    (fun h5 => absurd rfl (h.alone f hf _ hmem h5)) (fun h7 => absurd h7 hne) pg

/-- The fields stored in their order are the ones the header has. -/
theorem foldl_describes (h : PageHeader K fs) (pg : PageDesc) : Describes fs (fs.foldl recordPage pg) where
  type n hmem := foldl_get h.nodup hmem (fun f _ hne pg => recordPage_keep (fun h1 => absurd h1 hne)
    (fun _ _ _ => rfl) (fun _ _ _ => rfl) (fun _ i n pg => (storeData_sizes i n pg).1)
    (fun _ i n pg => (storeDict_sizes i n pg).1) pg) (fun _ => rfl) pg
  uncompSize n hmem := foldl_get h.nodup hmem (fun f _ hne pg => recordPage_keep (fun _ _ _ => rfl)
    (fun h2 => absurd h2 hne) (fun _ _ _ => rfl) (fun _ i n pg => (storeData_sizes i n pg).2.1)
    (fun _ i n pg => (storeDict_sizes i n pg).2.1) pg) (fun _ => rfl) pg
  compSize n hmem := foldl_get h.nodup hmem (fun f _ hne pg => recordPage_keep (fun _ _ _ => rfl)
    (fun _ _ _ => rfl) (fun h3 => absurd h3 hne) (fun _ i n pg => (storeData_sizes i n pg).2.2)
    (fun _ i n pg => (storeDict_sizes i n pg).2.2) pg) (fun _ => rfl) pg
  data sub hmem n := by
    obtain ⟨sub', heq, hsub⟩ := h.data _ hmem rfl
    obtain rfl : sub = sub' := by cases heq; rfl
    refine ⟨fun hn => ?_, fun hn => ?_, fun hn => ?_, fun hn => ?_⟩ <;>
      refine foldl_data h hmem (fun _ _ => rfl) (fun _ _ => rfl) (fun _ _ => rfl)
        (foldl_sub hsub hn (fun i hi m pg => ?_) fun _ => rfl) pg <;>
      simp only [storeData] <;> split_ifs <;> first | rfl | contradiction
  dict sub hmem n := by
    obtain ⟨sub', heq, hsub⟩ := h.dict _ hmem rfl
    obtain rfl : sub = sub' := by cases heq; rfl
    refine ⟨fun hn => ?_, fun hn => ?_⟩ <;>
      refine foldl_dict h hmem (fun _ _ => rfl) (fun _ _ => rfl) (fun _ _ => rfl)
        (foldl_sub hsub hn (fun i hi m pg => ?_) fun _ => rfl) pg <;>
      simp only [storeDict] <;> split_ifs <;> first | rfl | contradiction

end Describes

/-! ## 7. The kinds that are skipped -/

mutual

/-- A value of other kinds has no binary, list, set or map in it. -/
theorem skipped_of_parts {K : Thrift.Kind → Prop} (hK : ¬K .binary ∧ ¬K .list ∧ ¬K .set ∧ ¬K .map) :
    ∀ v : Value, v.Parts K → Skipped v
  | .bool _, _ => trivial
  | .byte _, _ => trivial
  | .int _ _, _ => trivial
  | .double _, _ => trivial
  | .binary _, h => absurd h hK.1
  | .list _ _, h => absurd h.1 hK.2.1
  | .set _ _, h => absurd h.1 hK.2.2.1
  | .map _ _ _, h => absurd h.1 hK.2.2.2
  | .struct fs, h => skippedFields_of_parts hK fs h.2

theorem skippedFields_of_parts {K : Thrift.Kind → Prop} (hK : ¬K .binary ∧ ¬K .list ∧ ¬K .set ∧ ¬K .map) :
    ∀ fs : List (Int × Value), PartFields K fs → SkippedFields fs
  | [], _ => trivial
  | (_, v) :: fs, h => ⟨skipped_of_parts hK v h.1, skippedFields_of_parts hK fs h.2⟩

end

theorem PageHeader.pageFields {K : Thrift.Kind → Prop} (hK : ¬K .binary ∧ ¬K .list ∧ ¬K .set ∧ ¬K .map)
    {fs : List (Int × Value)} (h : PageHeader K fs) : PageFields fs := by
  have hsub : ∀ ids sub, SubHeader K ids sub → SubFields ids sub := fun ids sub hs =>
    ⟨hs.fit, fun f hf => ⟨hs.known f hf, fun hid => skipped_of_parts hK f.2 (hs.other f hf hid)⟩⟩
  refine ⟨h.fit, fun f hf => ⟨h.sizes f hf, fun h5 => ?_, fun h7 => ?_, fun hid => ?_⟩⟩
  · obtain ⟨sub, hv, hs⟩ := h.data f hf h5
    exact ⟨sub, hv, hsub _ sub hs⟩
  · obtain ⟨sub, hv, hs⟩ := h.dict f hf h7
    exact ⟨sub, hv, hsub _ sub hs⟩
  · exact skipped_of_parts hK f.2 (h.other f hf hid)

/-- A length of one is read as minus one. -/
theorem zigzagVarint_one (rest : Bytes) : Reads (zigzagVarint (1 :: rest)) (-1) rest :=
  zigzagVarint_natural (n := 1) (by decide) rest

theorem binary_not_skipped (rest : Bytes) : ¬Leaves (skipValue .binary (1 :: rest)) [] := by
  rintro ⟨r, hr, -⟩
  obtain ⟨t, hread, -⟩ := zigzagVarint_one rest
  rw [skipValue] at hr
  simp [hread] at hr

theorem map_not_skipped (rest : Bytes) : ¬Leaves (skipValue .map (1 :: rest)) [] := by
  rintro ⟨r, hr, -⟩
  obtain ⟨t, hread, -⟩ := zigzagVarint_one rest
  rw [skipValue] at hr
  simp [hread] at hr

theorem list_not_skipped {type : CType} (htype : type = .list ∨ type = .set) (b : UInt8) :
    ¬Leaves (skipValue type [b]) [] := by
  rintro ⟨r, hr, -⟩
  rcases htype with rfl | rfl <;> rw [skipValue] at hr <;> simp [zigzagVarint, varintLoop] at hr

/-- The value is skipped exactly, whatever is behind it. -/
def SkippedExactly (v : Value) : Prop :=
  ∀ rest : Bytes, Leaves (skipValue (.ofCode v.code) (v.body ++ rest)) rest

/-- All values built of the kinds in `K` are skipped exactly, and all page headers whose other fields are
built of them are read as they were written, to the first byte behind them, exactly when binaries, lists,
sets and maps are not among the kinds. -/
theorem skips_exactly_iff (K : Thrift.Kind → Prop) :
    ((∀ v : Value, v.Fits → v.Parts K → SkippedExactly v) ∧
      ∀ fs, PageHeader K fs → ∀ rest : Bytes,
        ∃ pg, Reads (parsePageHeader {} (fields 0 fs ++ rest)) pg rest ∧ Describes fs pg) ↔
      ¬K .binary ∧ ¬K .list ∧ ¬K .set ∧ ¬K .map := by
  constructor
  · rintro ⟨hskip, -⟩
    refine ⟨fun hk => ?_, fun hk => ?_, fun hk => ?_, fun hk => ?_⟩
    · exact binary_not_skipped [0] (hskip (.binary [0]) (by simp [Value.Fits]) hk [])
    · exact list_not_skipped (.inl rfl) 1
        (hskip (.list .bool []) ⟨by decide, trivial⟩ ⟨hk, trivial⟩ [])
    · exact list_not_skipped (.inr rfl) 1
        (hskip (.set .bool []) ⟨by decide, trivial⟩ ⟨hk, trivial⟩ [])
    · have hmap : (Value.map .bool .bool []).Fits := ⟨by decide, trivial⟩
      have hk' : (Value.map .bool .bool []).Parts K := ⟨hk, trivial⟩
      exact map_not_skipped [187, 0, 0] (hskip
        (.map .map .map [(.map .bool .bool [], .map .bool .bool [])])
        ⟨by decide, rfl, rfl, hmap, hmap, trivial⟩ ⟨hk, hk', hk', trivial⟩ [])
  · intro hK
    refine ⟨fun v hf hv rest => skip_body v hf (skipped_of_parts hK v hv) rest, fun fs hfs rest => ?_⟩
    exact ⟨_, pageLoop_fields rest fs 0 _ (hfs.pageFields hK), foldl_describes hfs _⟩

/-- The header of a data page with a minimum of one byte among its statistics. -/
def withStatistics : List (Int × Value) :=
  [(1, .int .i32 0), (2, .int .i32 10), (3, .int .i32 8),
    (5, .struct [(1, .int .i32 2), (2, .int .i32 0), (3, .int .i32 3), (4, .int .i32 3),
      (5, .struct [(2, .binary [97])])])]

theorem withStatistics_bytes : fields 0 withStatistics =
    [0x15, 0, 0x15, 20, 0x15, 16, 0x2c, 0x15, 4, 0x15, 0, 0x15, 6, 0x15, 6, 0x1c, 0x28, 1, 97, 0, 0, 0] := by
  decide +kernel

theorem withStatistics_error :
    parsePageHeader {} (fields 0 withStatistics) = .error "pq: negative binary length" := by
  rw [withStatistics_bytes]
  simp [parsePageHeader, pageLoop, readField, CType.of, CType.ofCode, pageField, sizeField, zigzagVarint,
    varintLoop, Rest.here, Rest.cons, Tail.rest, Thrift.unzigzag, int32, parseDataPageHeader, subHeader,
    skipValue, skipStruct, explicitId]

/-- It is a page header, and it is not read. -/
theorem statistics_not_skipped :
    PageHeader (fun _ => True) withStatistics ∧
      ¬∃ pg, Reads (parsePageHeader {} (fields 0 withStatistics ++ [])) pg [] ∧ Describes withStatistics pg := by
  constructor
  · refine ⟨?_, by decide, ?_, ?_, ?_, ?_, ?_⟩
    · simp [withStatistics, FitFields, Value.Fits, Thrift.Width.Holds, Thrift.Width.bits]
    · simp [withStatistics, IsI32]
    · intro f hf h5
      simp only [withStatistics, List.mem_cons, List.not_mem_nil, or_false] at hf
      rcases hf with rfl | rfl | rfl | rfl
      · exact absurd h5 (by decide)
      · exact absurd h5 (by decide)
      · exact absurd h5 (by decide)
      · refine ⟨_, rfl, ?_, by decide, ?_, ?_⟩
        · simp [FitFields, Value.Fits, Thrift.Width.Holds, Thrift.Width.bits]
        · simp [IsI32]
        · simp [Value.Parts, PartFields]
    · simp [withStatistics]
    · simp [withStatistics]
    · simp [withStatistics]
  · rintro ⟨pg, hread, -⟩
    rw [List.append_nil] at hread
    obtain ⟨t, hread, -⟩ := hread
    rw [withStatistics_error] at hread
    cases hread

end Pages

end RyuDB
