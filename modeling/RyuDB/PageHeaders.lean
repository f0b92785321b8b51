/-
# The page headers of a Parquet column chunk

`pqpages.cpp` reads the headers of the pages in a column chunk, Thrift structs in the compact protocol, and
skips the fields it has no use for.  A cursor is the bytes it has not read; every reader returns an end of
the bytes it was given, which is why the readers terminate and why the pages lie where they do.
-/
import Mathlib.Data.List.Infix
import RyuDB.Lib.Thrift

namespace RyuDB

namespace Pages

/-! ## 1. The cursor -/

/-- What a reader leaves of its bytes. -/
def Rest (bs : Bytes) : Type := {out : Bytes // out <:+ bs}

/-- What a reader of at least one byte leaves. -/
def Tail (bs : Bytes) : Type := {out : Bytes // out <:+ bs ∧ out.length < bs.length}

def Rest.here (bs : Bytes) : Rest bs := ⟨bs, List.suffix_refl bs⟩

def Rest.up {bs bs' : Bytes} (h : bs' <:+ bs) (r : Rest bs') : Rest bs := ⟨r.1, r.2.trans h⟩

def Tail.rest {bs : Bytes} (t : Tail bs) : Rest bs := ⟨t.1, t.2.1⟩

/-- One more byte was read. -/
def Rest.cons {bs : Bytes} (b : UInt8) (r : Rest bs) : Tail (b :: bs) :=
  ⟨r.1, r.2.trans (List.suffix_cons b bs), Nat.lt_succ_of_le r.2.length_le⟩

/-- More was read behind at least one byte. -/
def Tail.more {bs : Bytes} (t : Tail bs) (r : Rest t.1) : Tail bs :=
  ⟨r.1, r.2.trans t.2.1, lt_of_le_of_lt r.2.length_le t.2.2⟩

theorem Rest.length_le {bs : Bytes} (r : Rest bs) : r.1.length ≤ bs.length := r.2.length_le

/-- `Cursor::skip`. -/
def skip (n : Nat) (bs : Bytes) : Except String (Rest bs) :=
  if bs.length < n then .error "pq: eof skipping"
  else .ok ⟨bs.drop n, List.drop_suffix n bs⟩

/-- The loop of `Cursor::zigzag_varint`: the bytes that may still come, the shift and the number so far, of
64 bits. -/
def varintLoop : Nat → Nat → Nat → (bs : Bytes) → Except String (Int × Tail bs)
  | 0, _, _, _ => .error "pq: varint too long"
  | _ + 1, _, _, [] => .error "pq: eof reading byte"
  | i + 1, shift, u, b :: bs =>
    let u := u ||| ((b.toNat % 128) <<< shift) % 2 ^ 64
    if b.toNat < 128 then .ok (Thrift.unzigzag u, (Rest.here bs).cons b)
    else
      match varintLoop i (shift + 7) u bs with
      | .error e => .error e
      | .ok (n, t) => .ok (n, t.rest.cons b)

/-- `Cursor::zigzag_varint`. -/
def zigzagVarint (bs : Bytes) : Except String (Int × Tail bs) := varintLoop 10 0 0 bs

/-! ## 2. Skipping a value -/

/-- The type ids of the compact protocol. -/
inductive CType where
  | stop
  | boolT
  | boolF
  | byte
  | i16
  | i32
  | i64
  | double
  | binary
  | list
  | set
  | map
  | struct
  | unknown
  deriving DecidableEq, Repr

def CType.ofCode : Nat → CType
  | 0 => .stop
  | 1 => .boolT
  | 2 => .boolF
  | 3 => .byte
  | 4 => .i16
  | 5 => .i32
  | 6 => .i64
  | 7 => .double
  | 8 => .binary
  | 9 => .list
  | 10 => .set
  | 11 => .map
  | 12 => .struct
  | _ => .unknown

/-- The type of a byte's lower half. -/
def CType.of (b : UInt8) : CType := .ofCode (b.toNat % 16)

/-- The field id behind a header byte without a delta. -/
def explicitId (fh : UInt8) (bs : Bytes) : Except String (Rest bs) :=
  if fh.toNat / 16 = 0 then
    match zigzagVarint bs with
    | .error e => .error e
    | .ok (_, t) => .ok t.rest
  else .ok (Rest.here bs)

/-- The order in which skipping goes down: the bytes left, then what is skipped, then how often. -/
theorem not_longer {a b : Nat} {p q : Nat × Nat} (hab : a ≤ b)
    (hpq : Prod.Lex (· < ·) (· < ·) p q) :
    Prod.Lex (· < ·) (Prod.Lex (· < ·) (· < ·)) (a, p) (b, q) := by
  rcases Nat.lt_or_eq_of_le hab with h | rfl
  · exact .left _ _ h
  · exact .right _ hpq

mutual

/-- `skip_value`.  The loops over the fields of a struct, the elements of a list and the entries of a map
are functions of their own. -/
def skipValue (type : CType) (bs : Bytes) : Except String (Rest bs) :=
  match type with
  | .boolT | .boolF => .ok (Rest.here bs)
  | .byte => skip 1 bs
  | .i16 | .i32 | .i64 =>
    match zigzagVarint bs with
    | .error e => .error e
    | .ok (_, t) => .ok t.rest
  | .double => skip 8 bs
  | .binary =>
    match zigzagVarint bs with
    | .error e => .error e
    | .ok (n, t) =>
      if n < 0 then .error "pq: negative binary length"
      else
        match skip n.toNat t.1 with
        | .error e => .error e
        | .ok r => .ok (t.more r).rest
  | .struct => skipStruct bs
  | .list | .set =>
    match bs with
    | [] => .error "pq: eof reading byte"
    | et :: bs' =>
      match zigzagVarint bs' with
      | .error e => .error e
      | .ok (n, t) =>
        if n < 0 then .error "pq: negative list size"
        else
          match skipMany n.toNat (CType.of et) t.1 with
          | .error e => .error e
          | .ok r => .ok ((t.more r).rest.cons et).rest
  | .map =>
    match zigzagVarint bs with
    | .error e => .error e
    | .ok (n, t) =>
      if n < 0 then .error "pq: negative map size"
      else if n = 0 then .ok t.rest
      else
        match t with
        | ⟨kt :: vt :: bs', ht⟩ =>
          match skipPairs n.toNat (CType.of kt) (CType.of vt) bs' with
          | .error e => .error e
          | .ok r => .ok (((r.cons vt).rest.cons kt).rest.up ht.1)
        | _ => .error "pq: eof reading byte"
  | .stop | .unknown => .error "pq: unknown compact type in skip"
termination_by (bs.length, 1, 0)
decreasing_by
  · exact .right _ (.left _ _ (by decide))
  · exact .left _ _ (Nat.lt_succ_of_lt t.2.2)
  · exact .left _ _ (Nat.lt_of_succ_lt (Nat.lt_of_succ_lt ht.2))

/-- The fields of a struct that is skipped. -/
def skipStruct (bs : Bytes) : Except String (Rest bs) :=
  match bs with
  | [] => .error "pq: eof reading byte"
  | fh :: bs' =>
    if CType.of fh = .stop then .ok ((Rest.here bs').cons fh).rest
    else
      match explicitId fh bs' with
      | .error e => .error e
      | .ok r =>
        match skipValue (CType.of fh) r.1 with
        | .error e => .error e
        | .ok r' =>
          match skipStruct r'.1 with
          | .error e => .error e
          | .ok r'' => .ok (((r''.up r'.2).up r.2).cons fh).rest
termination_by (bs.length, 0, 0)
decreasing_by
  · exact .left _ _ (Nat.lt_succ_of_le r.length_le)
  · exact .left _ _ (Nat.lt_succ_of_le (r'.length_le.trans r.length_le))

/-- The elements of a list that is skipped. -/
def skipMany (n : Nat) (type : CType) (bs : Bytes) : Except String (Rest bs) :=
  match n with
  | 0 => .ok (Rest.here bs)
  | n + 1 =>
    match skipValue type bs with
    | .error e => .error e
    | .ok r =>
      match skipMany n type r.1 with
      | .error e => .error e
      | .ok r' => .ok (r'.up r.2)
termination_by (bs.length, 2, n)
decreasing_by
  · exact .right _ (.left _ _ (by decide))
  · exact not_longer r.length_le (.right _ (Nat.lt_succ_self n))

/-- The entries of a map that is skipped. -/
def skipPairs (n : Nat) (key value : CType) (bs : Bytes) : Except String (Rest bs) :=
  match n with
  | 0 => .ok (Rest.here bs)
  | n + 1 =>
    match skipValue key bs with
    | .error e => .error e
    | .ok r =>
      match skipValue value r.1 with
      | .error e => .error e
      | .ok r' =>
        match skipPairs n key value r'.1 with
        | .error e => .error e
        | .ok r'' => .ok ((r''.up r'.2).up r.2)
termination_by (bs.length, 2, n)
decreasing_by
  · exact .right _ (.left _ _ (by decide))
  · exact not_longer r.length_le (.left _ _ (by decide))
  · exact not_longer (r'.length_le.trans r.length_le) (.right _ (Nat.lt_succ_self n))

end

/-! ## 3. Headers -/

/-- A number cut to an `int`. -/
def int32 (n : Int) : Int := n.bmod (2 ^ 32)

/-- `read_field`: the field's type and id, and what is left.  At the end of the struct the id is the last
one's. -/
def readField (lastId : Int) (bs : Bytes) : Except String (CType × Int × Tail bs) :=
  match bs with
  | [] => .error "pq: eof reading byte"
  | fh :: bs' =>
    if CType.of fh = .stop then .ok (.stop, lastId, (Rest.here bs').cons fh)
    else if fh.toNat / 16 = 0 then
      match zigzagVarint bs' with
      | .error e => .error e
      | .ok (n, t) => .ok (CType.of fh, int32 n, t.rest.cons fh)
    else .ok (CType.of fh, int32 (lastId + (fh.toNat / 16 : Nat)), (Rest.here bs').cons fh)

/-- `PageDesc`. -/
structure PageDesc where
  type : Int := 0
  payloadOff : Int := 0
  headerLen : Nat := 0
  compSize : Int := 0
  uncompSize : Int := 0
  numValues : Int := 0
  valueEncoding : Int := 0
  defLevelEncoding : Int := 0
  repLevelEncoding : Int := 0
  deriving DecidableEq, Repr

/-- The loop of the two headers in a page header: a field of type i32 is stored by its id, every other one
is skipped. -/
def subHeader (store : Int → Int → PageDesc → PageDesc) (last : Int) (pg : PageDesc) (bs : Bytes) :
    Except String (PageDesc × Rest bs) :=
  match readField last bs with
  | .error e => .error e
  | .ok (type, id, t) =>
    if type = .stop then .ok (pg, t.rest)
    else if type = .i32 then
      match zigzagVarint t.1 with
      | .error e => .error e
      | .ok (v, t') =>
        match subHeader store id (store id (int32 v) pg) t'.1 with
        | .error e => .error e
        | .ok (pg, r) => .ok (pg, (r.up t'.2.1).up t.2.1)
    else
      match skipValue type t.1 with
      | .error e => .error e
      | .ok r' =>
        match subHeader store id pg r'.1 with
        | .error e => .error e
        | .ok (pg, r) => .ok (pg, (r.up r'.2).up t.2.1)
termination_by bs.length
decreasing_by
  · exact t'.2.2.trans t.2.2
  · exact lt_of_le_of_lt r'.length_le t.2.2

/-- The fields of a DataPageHeader. -/
def storeData (id v : Int) (pg : PageDesc) : PageDesc :=
  if id = 1 then { pg with numValues := v }
  else if id = 2 then { pg with valueEncoding := v }
  else if id = 3 then { pg with defLevelEncoding := v }
  else if id = 4 then { pg with repLevelEncoding := v }
  else pg

/-- `parse_data_page_header`. -/
def parseDataPageHeader (pg : PageDesc) (bs : Bytes) : Except String (PageDesc × Rest bs) :=
  subHeader storeData 0 pg bs

/-- The fields of a DictionaryPageHeader. -/
def storeDict (id v : Int) (pg : PageDesc) : PageDesc :=
  if id = 1 then { pg with numValues := v }
  else if id = 2 then { pg with valueEncoding := v }
  else pg

/-- `parse_dict_page_header`. -/
def parseDictPageHeader (pg : PageDesc) (bs : Bytes) : Except String (PageDesc × Rest bs) :=
  subHeader storeDict 0 pg bs

/-- A field of a page header that must be an i32. -/
def sizeField (type : CType) (complaint : String) (store : Int → PageDesc) (bs : Bytes) :
    Except String (PageDesc × Rest bs) :=
  if type = .i32 then
    match zigzagVarint bs with
    | .error e => .error e
    | .ok (v, t) => .ok (store (int32 v), t.rest)
  else .error complaint

/-- A field that is skipped. -/
def otherField (type : CType) (pg : PageDesc) (bs : Bytes) : Except String (PageDesc × Rest bs) :=
  match skipValue type bs with
  | .error e => .error e
  | .ok r => .ok (pg, r)

/-- The `switch` of `parse_page_header`. -/
def pageField (type : CType) (id : Int) (pg : PageDesc) (bs : Bytes) :
    Except String (PageDesc × Rest bs) :=
  if id = 1 then sizeField type "pq: bad type field" (fun v => { pg with type := v }) bs
  else if id = 2 then sizeField type "pq: bad uncomp field" (fun v => { pg with uncompSize := v }) bs
  else if id = 3 then sizeField type "pq: bad comp field" (fun v => { pg with compSize := v }) bs
  else if id = 5 ∧ type = .struct then parseDataPageHeader pg bs
  else if id = 7 ∧ type = .struct then parseDictPageHeader pg bs
  else otherField type pg bs

/-- The loop of `parse_page_header`. -/
def pageLoop (last : Int) (pg : PageDesc) (bs : Bytes) : Except String (PageDesc × Tail bs) :=
  match readField last bs with
  | .error e => .error e
  | .ok (type, id, t) =>
    if type = .stop then .ok (pg, t)
    else
      match pageField type id pg t.1 with
      | .error e => .error e
      | .ok (pg, r) =>
        match pageLoop id pg r.1 with
        | .error e => .error e
        | .ok (pg, t') => .ok (pg, t.more (t'.rest.up r.2))
termination_by bs.length
decreasing_by exact lt_of_le_of_lt r.length_le t.2.2

/-- `parse_page_header`. -/
def parsePageHeader (pg : PageDesc) (bs : Bytes) : Except String (PageDesc × Tail bs) :=
  pageLoop 0
    { pg with numValues := 0, valueEncoding := -1, defLevelEncoding := -1, repLevelEncoding := -1 } bs

/-! ## 4. The pages of a chunk -/

/-- A file in memory.  `memory` are the bytes at an offset from the file's first one, those of the file
among them. -/
structure File where
  bytes : Bytes
  memory : Int → UInt8
  length_lt : bytes.length < 2 ^ 63
  memory_eq : ∀ (i : Nat) (b : UInt8), bytes[i]? = some b → memory i = b

/-- A number cut to an `int64_t`. -/
def int64 (n : Int) : Int := n.bmod (2 ^ 64)

/-- The bytes of a chunk: `size` ones from `file_data + chunk_off` on. -/
def File.chunk (f : File) (chunkOff size : Nat) : Bytes :=
  (List.range size).map fun i => f.memory (int64 chunkOff + i)

/-- The loop of `parse_column_chunk_pages`, of the bytes of the chunk that are left. -/
def pagesLoop (chunkOff size : Nat) (bs : Bytes) : Except String (List PageDesc) :=
  if bs = [] then .ok []
  else
    match parsePageHeader {} bs with
    | .error e => .error e
    | .ok (pg, t) =>
      if pg.compSize ≤ 0 then .error "pq: non-positive compressed_page_size"
      else if t.1.length < pg.compSize.toNat then .error "pq: page payload extends past chunk"
      else
        let pg := { pg with
          headerLen := bs.length - t.1.length
          payloadOff := int64 (chunkOff + (size - t.1.length : Nat)) }
        match pagesLoop chunkOff size (t.1.drop pg.compSize.toNat) with
        | .error e => .error e
        | .ok pages => .ok (pg :: pages)
termination_by bs.length
decreasing_by
  rw [List.length_drop]
  exact lt_of_le_of_lt (Nat.sub_le _ _) t.2.2

/-- `parse_column_chunk_pages`.  The sum in the test is one of 64 bits.  The loop ends where the chunk does,
so the last test of the function holds. -/
def parseColumnChunkPages (f : File) (chunkOff : Fin (2 ^ 64)) (size : Fin (2 ^ 31)) :
    Except String (List PageDesc) :=
  if f.bytes.length < (chunkOff.val + size.val) % 2 ^ 64 then
    .error "pq: column chunk extends past file end"
  else pagesLoop chunkOff size (f.chunk chunkOff size)

end Pages

end RyuDB
