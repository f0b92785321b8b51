/-
# The write-ahead log

`ryudb/wal.py`, byte for byte.  The file is a sequence of records, one per commit:

    u32 payload length, u32 crc32(payload),
    payload = u64 commit_ts, u32 number of batches,
              per batch u8 kind, u32 name length, name, u32 frame length, frame

all little-endian.  `Wal.replay` reads records until the first one that is short, fails its checksum
or does not parse, and cuts the file there; `Wal.truncate` cuts it at the first record past a given
timestamp.  Both walk the file with `nextRecord`, the framing code the source spells out twice.

The facts the engine rests on are about a file that holds a log (`Encodes`): replaying it gives
the log back whatever torn prefix of one further record follows (`replay_encodes`), and
truncating it filters the log by timestamp when the timestamps increase (`truncate_encodes`).
Neither needs anything of the checksum beyond its being a function of the payload: a torn record
is recognised by its length.
-/
import RyuDB.Delta
import RyuDB.Lib.Wire
import Mathlib.Data.List.Induction
import Mathlib.Logic.Function.Iterate

namespace RyuDB

variable {V : Type}

open Bytes

/-! ## 1. Record format -/

/-- One step of the reflected CRC-32 register. -/
def crcBit (c : Nat) : Nat := if c % 2 = 1 then (c / 2) ^^^ 0xEDB88320 else c / 2

/-- Feed one byte to the CRC-32 register. -/
def crcByte (c : Nat) (b : UInt8) : Nat := crcBit^[8] (c ^^^ b.toNat)

/-- `zlib.crc32(payload) & 0xFFFFFFFF`. -/
def crc32 (bs : Bytes) : Nat := (bs.foldl crcByte 0xFFFFFFFF ^^^ 0xFFFFFFFF) &&& 0xFFFFFFFF

/-- `_U32.pack`. -/
def packU32 (n : Nat) : Except DbError Bytes :=
  if n < 2 ^ 32 then .ok (packLE 4 n) else .error (.structError "argument out of range")

/-- `_COMMIT_TS.pack`. -/
def packCommitTs (ts : Int) : Except DbError Bytes :=
  if 0 ≤ ts ∧ ts < 2 ^ 64 then .ok (packLE 8 ts.toNat)
  else .error (.structError "int too large to convert")

/-- `_KIND_BY_TAG`. -/
def Kind.byte : Kind → UInt8
  | .insert => 0
  | .tombstone => 1
  | .tombstoneUpdate => 2

/-- `_TAG_BY_KIND`; another byte is a `KeyError`. -/
def Kind.ofByte (b : UInt8) : Option Kind :=
  if b = 0 then some .insert
  else if b = 1 then some .tombstone
  else if b = 2 then some .tombstoneUpdate
  else none

/-- `table.encode("utf-8")`. -/
def encodeName (s : String) : Bytes := s.toUTF8.data.toList

/-- `name.decode("utf-8")`. -/
def decodeName (bs : Bytes) : Option String := String.fromUTF8? ⟨bs.toArray⟩

/-- The bytes of one batch. -/
def encodeBatch (H : Host V) (b : Batch V) : Except DbError Bytes := do
  let nameLen ← packU32 (encodeName b.table).length
  let arrowLen ← packU32 (H.serialize b.frame).length
  return b.kind.byte :: (nameLen ++ (encodeName b.table ++ (arrowLen ++ H.serialize b.frame)))

/-- The bytes of a list of batches. -/
def encodeBatches (H : Host V) : List (Batch V) → Except DbError Bytes
  | [] => .ok []
  | b :: bs => do
    let x ← encodeBatch H b
    let y ← encodeBatches H bs
    return x ++ y

/-- The payload of a commit record. -/
def encodePayload (H : Host V) (ts : Int) (bs : List (Batch V)) : Except DbError Bytes := do
  let t ← packCommitTs ts
  let n ← packU32 bs.length
  let p ← encodeBatches H bs
  return t ++ (n ++ p)

/-- `_build_record`: header and payload of one commit. -/
def buildRecord (H : Host V) (ts : Int) (bs : List (Batch V)) : Except DbError Bytes := do
  let payload ← encodePayload H ts bs
  let len ← packU32 payload.length
  return len ++ (packLE 4 (crc32 payload) ++ payload)

/-- One batch at the head of a payload.  A slice past the end is short, as in Python, and the
read that follows it fails. -/
def parseBatch (H : Host V) (bs : Bytes) : Option (Batch V × Bytes) :=
  match takeLE 1 bs with
  | none => none
  | some (kindByte, bs) =>
    match takeLE 4 bs with
    | none => none
    | some (nameLen, bs) =>
      match decodeName (bs.take nameLen) with
      | none => none
      | some name =>
        match takeLE 4 (bs.drop nameLen) with
        | none => none
        | some (arrowLen, bs) =>
          match Kind.ofByte (UInt8.ofNat kindByte), H.deserialize (bs.take arrowLen) with
          | some kind, some frame => some (⟨name, kind, frame⟩, bs.drop arrowLen)
          | _, _ => none

/-- The batches of a payload. -/
def parseBatches (H : Host V) : Nat → Bytes → Option (List (Batch V))
  | 0, _ => some []
  | n + 1, bs =>
    match parseBatch H bs with
    | none => none
    | some (b, bs) =>
      match parseBatches H n bs with
      | none => none
      | some l => some (b :: l)

/-- `_parse_payload`: the batches of a payload, each with the commit timestamp. -/
def parsePayload (H : Host V) (payload : Bytes) : Option (List (Int × Batch V)) :=
  match takeLE 8 payload with
  | none => none
  | some (ts, bs) =>
    match takeLE 4 bs with
    | none => none
    | some (n, bs) =>
      match parseBatches H n bs with
      | none => none
      | some l => some (l.map fun b => ((ts : Int), b))

/-! ## 2. Walking the file -/

/-- The payload of the record at the head of the file and what follows it; `none` when the
header or the payload is short or the checksum does not match. -/
def nextRecord (bs : Bytes) : Option (Bytes × Bytes) :=
  match takeLE 4 bs with
  | none => none
  | some (payloadLen, bs) =>
    match takeLE 4 bs with
    | none => none
    | some (crc, bs) =>
      if bs.length < payloadLen then none
      else if crc32 (bs.take payloadLen) = crc then some (bs.take payloadLen, bs.drop payloadLen)
      else none

/-- The loop of `WAL.replay`: the entries read and the number of good bytes. -/
def Wal.replayFrom (H : Host V) : Nat → Bytes → List (Int × Batch V) × Nat
  | 0, _ => ([], 0)
  | fuel + 1, bs =>
    match nextRecord bs with
    | none => ([], 0)
    | some (payload, rest) =>
      match parsePayload H payload with
      | none => ([], 0)
      | some l =>
        let r := Wal.replayFrom H fuel rest
        (l ++ r.1, 8 + payload.length + r.2)

/-- `WAL.replay`: the entries of the file, and the file cut to its good bytes.  Each turn of the
loop consumes a header, so the length of the file bounds the number of turns. -/
def Wal.replay (H : Host V) (file : Bytes) : List (Int × Batch V) × Bytes :=
  let r := Wal.replayFrom H file.length file
  (r.1, file.take r.2)

/-- The loop of `WAL.truncate`: the number of bytes to keep. -/
def Wal.keepUntil (maxTs : Int) : Nat → Bytes → Nat
  | 0, _ => 0
  | fuel + 1, bs =>
    match nextRecord bs with
    | none => 0
    | some (payload, rest) =>
      match takeLE 8 payload with
      | none => 0
      | some (ts, _) =>
        if (ts : Int) > maxTs then 0 else 8 + payload.length + Wal.keepUntil maxTs fuel rest

/-- `WAL.truncate(max_ts)` on the content of the file. -/
def Wal.truncate (maxTs : Int) (file : Bytes) : Bytes :=
  file.take (Wal.keepUntil maxTs file.length file)

/-! ## 3. A record reads back -/

theorem packU32_ok {n : Nat} {bs : Bytes} (h : packU32 n = .ok bs) :
    n < 256 ^ 4 ∧ bs = packLE 4 n := by
  unfold packU32 at h
  split at h
  · cases h
    exact ⟨by norm_num at *; omega, rfl⟩
  · cases h

theorem packCommitTs_ok {ts : Int} {bs : Bytes} (h : packCommitTs ts = .ok bs) :
    0 ≤ ts ∧ ts.toNat < 256 ^ 8 ∧ bs = packLE 8 ts.toNat := by
  unfold packCommitTs at h
  split at h
  · rename_i hts
    cases h
    refine ⟨hts.1, ?_, rfl⟩
    have := hts.2
    norm_num at this ⊢
    omega
  · cases h

theorem crc32_lt (bs : Bytes) : crc32 bs < 256 ^ 4 := by
  have h : crc32 bs ≤ 0xFFFFFFFF := Nat.and_le_right
  norm_num
  omega

theorem Kind.ofByte_byte (k : Kind) : Kind.ofByte k.byte = some k := by
  cases k <;> rfl

theorem decodeName_encodeName (s : String) : decodeName (encodeName s) = some s := by
  have hb : (⟨(encodeName s).toArray⟩ : ByteArray) = s.toByteArray := rfl
  rw [decodeName, hb, String.fromUTF8?, dif_pos s.isValidUTF8]
  rfl

section Roundtrip

variable (H : Host V)

theorem encodeBatch_ok {b : Batch V} {x : Bytes} (h : encodeBatch H b = .ok x) :
    (encodeName b.table).length < 256 ^ 4 ∧ (H.serialize b.frame).length < 256 ^ 4 ∧
      x = b.kind.byte :: (packLE 4 (encodeName b.table).length ++ (encodeName b.table ++
        (packLE 4 (H.serialize b.frame).length ++ H.serialize b.frame))) := by
  unfold encodeBatch at h
  cases hn : packU32 (encodeName b.table).length with
  | error e => rw [hn] at h; cases h
  | ok nl =>
    cases ha : packU32 (H.serialize b.frame).length with
    | error e => rw [hn, ha] at h; cases h
    | ok al =>
      rw [hn, ha] at h
      obtain ⟨hn1, rfl⟩ := packU32_ok hn
      obtain ⟨ha1, rfl⟩ := packU32_ok ha
      cases h
      exact ⟨hn1, ha1, rfl⟩

/-- A batch in front of anything parses as itself and leaves the rest. -/
theorem parseBatch_encodeBatch {b : Batch V} {x : Bytes} (h : encodeBatch H b = .ok x)
    (rest : Bytes) : parseBatch H (x ++ rest) = some (b, rest) := by
  obtain ⟨hn, ha, rfl⟩ := encodeBatch_ok H h
  have hk : takeLE 1 (b.kind.byte :: (packLE 4 (encodeName b.table).length ++
      (encodeName b.table ++ (packLE 4 (H.serialize b.frame).length ++
        H.serialize b.frame))) ++ rest) =
      some (b.kind.byte.toNat, packLE 4 (encodeName b.table).length ++
        (encodeName b.table ++ (packLE 4 (H.serialize b.frame).length ++
          (H.serialize b.frame ++ rest)))) := by
    simp [takeLE, unpackLE, List.append_assoc]
  unfold parseBatch
  rw [hk]
  simp only [takeLE_packLE hn, List.take_left, List.drop_left, decodeName_encodeName,
    takeLE_packLE ha, UInt8.ofNat_toNat, Kind.ofByte_byte, H.roundtrip]

theorem encodeBatches_cons {b : Batch V} {bs : List (Batch V)} {x : Bytes}
    (h : encodeBatches H (b :: bs) = .ok x) :
    ∃ y z, encodeBatch H b = .ok y ∧ encodeBatches H bs = .ok z ∧ x = y ++ z := by
  rw [encodeBatches] at h
  cases hy : encodeBatch H b with
  | error e => rw [hy] at h; cases h
  | ok y =>
    cases hz : encodeBatches H bs with
    | error e => rw [hy, hz] at h; cases h
    | ok z =>
      rw [hy, hz] at h
      cases h
      exact ⟨y, z, rfl, rfl, rfl⟩

theorem parseBatches_encodeBatches : ∀ {bs : List (Batch V)} {x : Bytes},
    encodeBatches H bs = .ok x → parseBatches H bs.length x = some bs
  | [], _, _ => rfl
  | b :: bs, x, h => by
    obtain ⟨y, z, hy, hz, rfl⟩ := encodeBatches_cons H h
    rw [List.length_cons, parseBatches, parseBatch_encodeBatch H hy]
    simp only [parseBatches_encodeBatches hz]

theorem encodePayload_ok {ts : Int} {bs : List (Batch V)} {p : Bytes}
    (h : encodePayload H ts bs = .ok p) : 0 ≤ ts ∧ ts.toNat < 256 ^ 8 ∧ bs.length < 256 ^ 4 ∧
      ∃ x, encodeBatches H bs = .ok x ∧
        p = packLE 8 ts.toNat ++ (packLE 4 bs.length ++ x) := by
  unfold encodePayload at h
  cases ht : packCommitTs ts with
  | error e => rw [ht] at h; cases h
  | ok t =>
    cases hn : packU32 bs.length with
    | error e => rw [ht, hn] at h; cases h
    | ok n =>
      cases hx : encodeBatches H bs with
      | error e => rw [ht, hn, hx] at h; cases h
      | ok x =>
        rw [ht, hn, hx] at h
        obtain ⟨h0, h1, rfl⟩ := packCommitTs_ok ht
        obtain ⟨h2, rfl⟩ := packU32_ok hn
        cases h
        exact ⟨h0, h1, h2, x, rfl, rfl⟩

theorem takeLE_payload {ts : Int} {bs : List (Batch V)} {p : Bytes}
    (h : encodePayload H ts bs = .ok p) : ∃ rest, takeLE 8 p = some (ts.toNat, rest) := by
  obtain ⟨-, h1, -, x, -, rfl⟩ := encodePayload_ok H h
  exact ⟨_, takeLE_packLE h1 _⟩

/-- The payload of a commit parses as its batches under its timestamp. -/
theorem parsePayload_encodePayload {ts : Int} {bs : List (Batch V)} {p : Bytes}
    (h : encodePayload H ts bs = .ok p) :
    parsePayload H p = some (bs.map fun b => (ts, b)) := by
  obtain ⟨h0, h1, h2, x, hx, rfl⟩ := encodePayload_ok H h
  unfold parsePayload
  simp only [takeLE_packLE h1, takeLE_packLE h2, parseBatches_encodeBatches H hx,
    Int.toNat_of_nonneg h0]

theorem buildRecord_ok {ts : Int} {bs : List (Batch V)} {r : Bytes}
    (h : buildRecord H ts bs = .ok r) : ∃ p, encodePayload H ts bs = .ok p ∧
      p.length < 256 ^ 4 ∧ r = packLE 4 p.length ++ (packLE 4 (crc32 p) ++ p) := by
  unfold buildRecord at h
  cases hp : encodePayload H ts bs with
  | error e => rw [hp] at h; cases h
  | ok p =>
    cases hl : packU32 p.length with
    | error e => rw [hp] at h; simp only [bind, Except.bind, hl] at h; cases h
    | ok l =>
      rw [hp] at h
      simp only [bind, Except.bind, hl] at h
      obtain ⟨h1, rfl⟩ := packU32_ok hl
      cases h
      exact ⟨p, rfl, h1, rfl⟩

/-- A whole record in front of anything is framed as its payload. -/
theorem nextRecord_append {ts : Int} {bs : List (Batch V)} {r : Bytes}
    (h : buildRecord H ts bs = .ok r) (rest : Bytes) : ∃ p, encodePayload H ts bs = .ok p ∧
      r.length = 8 + p.length ∧ nextRecord (r ++ rest) = some (p, rest) := by
  obtain ⟨p, hp, hlen, rfl⟩ := buildRecord_ok H h
  refine ⟨p, hp, by simp; omega, ?_⟩
  unfold nextRecord
  simp only [List.append_assoc, takeLE_packLE hlen, takeLE_packLE (crc32_lt p), List.take_left,
    List.drop_left, List.length_append, if_true]
  rw [if_neg (by omega)]

/-- **A torn record is never framed.**  A proper prefix of a record is short of its header, of
its checksum or of its payload. -/
theorem nextRecord_torn {ts : Int} {bs : List (Batch V)} {r : Bytes}
    (h : buildRecord H ts bs = .ok r) {k : Nat} (hk : k < r.length) :
    nextRecord (r.take k) = none := by
  obtain ⟨p, -, hlen, rfl⟩ := buildRecord_ok H h
  simp only [List.length_append, length_packLE] at hk
  unfold nextRecord
  by_cases h4 : k < 4
  · rw [takeLE_none (by simp; omega)]
  · have ht : (packLE 4 p.length ++ (packLE 4 (crc32 p) ++ p)).take k =
        packLE 4 p.length ++ (packLE 4 (crc32 p) ++ p).take (k - 4) := by
      rw [List.take_append, length_packLE, List.take_of_length_le (by simp; omega)]
    rw [ht]
    simp only [takeLE_packLE hlen]
    by_cases h8 : k - 4 < 4
    · rw [takeLE_none (by simp; omega)]
    · have ht' : (packLE 4 (crc32 p) ++ p).take (k - 4) =
          packLE 4 (crc32 p) ++ p.take (k - 4 - 4) := by
        rw [List.take_append, length_packLE, List.take_of_length_le (by simp; omega)]
      rw [ht']
      simp only [takeLE_packLE (crc32_lt p)]
      rw [if_pos (by simp; omega)]

end Roundtrip

/-! ## 4. A file that holds a log -/

/-- One logged commit. -/
abbrev LogEntry (V : Type) := Int × List (Batch V)

/-- `file` is the concatenation of the records of `log`. -/
inductive Encodes (H : Host V) : List (LogEntry V) → Bytes → Prop
  | nil : Encodes H [] []
  | cons {ts : Int} {bs : List (Batch V)} {log : List (LogEntry V)} {r file : Bytes} :
      buildRecord H ts bs = .ok r → Encodes H log file →
      Encodes H ((ts, bs) :: log) (r ++ file)

/-- The entries of a log, in the order `replay` lists them. -/
def flattenLog (log : List (LogEntry V)) : List (Int × Batch V) :=
  log.flatMap fun c => c.2.map fun b => (c.1, b)

variable {H : Host V}

/-- Appending a record appends a commit. -/
theorem Encodes.snoc {log : List (LogEntry V)} {file r : Bytes} {ts : Int} {bs : List (Batch V)}
    (h : Encodes H log file) (hr : buildRecord H ts bs = .ok r) :
    Encodes H (log ++ [(ts, bs)]) (file ++ r) := by
  induction h with
  | nil =>
    have h1 : Encodes H [(ts, bs)] (r ++ []) := Encodes.cons hr Encodes.nil
    simpa using h1
  | cons hr' _ ih =>
    rw [List.cons_append, List.append_assoc]
    exact Encodes.cons hr' ih

theorem buildRecord_length {ts : Int} {bs : List (Batch V)} {r : Bytes}
    (h : buildRecord H ts bs = .ok r) : 8 ≤ r.length := by
  obtain ⟨p, -, hl, -⟩ := nextRecord_append H h []
  omega

/-- The walk over a log reads all of it and stops at the torn tail, given a turn per record. -/
theorem replayFrom_encodes {log : List (LogEntry V)} {file : Bytes} (h : Encodes H log file)
    {tail : Bytes} (htail : nextRecord tail = none) : ∀ {fuel : Nat}, log.length < fuel →
      Wal.replayFrom H fuel (file ++ tail) = (flattenLog log, file.length) := by
  induction h with
  | nil =>
    intro fuel hf
    cases fuel with
    | zero => omega
    | succ n => simp [Wal.replayFrom, htail, flattenLog]
  | @cons ts bs log r file hr _ ih =>
    intro fuel hf
    cases fuel with
    | zero => simp at hf
    | succ n =>
      obtain ⟨p, hp, hl, hnext⟩ := nextRecord_append H hr (file ++ tail)
      have hih := @ih n (by simp only [List.length_cons] at hf; omega)
      rw [List.append_assoc, Wal.replayFrom, hnext]
      simp only [parsePayload_encodePayload H hp, hih, flattenLog, List.flatMap_cons,
        List.length_append, hl]

theorem Encodes.length_le {log : List (LogEntry V)} {file : Bytes} (h : Encodes H log file) :
    8 * log.length ≤ file.length := by
  induction h with
  | nil => simp
  | cons hr _ ih =>
    have := buildRecord_length hr
    simp only [List.length_cons, List.length_append]
    omega

/-- **Replay recovers the log.**  A file that holds a log, followed by bytes that do not frame,
replays to the log and is cut back to it. -/
theorem replay_encodes {log : List (LogEntry V)} {file : Bytes} (h : Encodes H log file)
    {tail : Bytes} (htail : nextRecord tail = none) :
    Wal.replay H (file ++ tail) = (flattenLog log, file) := by
  have hlen := h.length_le
  -- the loop may run out of turns only on the empty file, where it has nothing to read
  rcases Nat.eq_zero_or_pos (file ++ tail).length with h0 | hpos
  · have hnil : file ++ tail = [] := List.length_eq_zero_iff.mp h0
    obtain ⟨hf, -⟩ := List.append_eq_nil_iff.mp hnil
    subst hf
    have hlog : log = [] := by simpa using hlen
    subst hlog
    rw [hnil]
    rfl
  · have hfuel : log.length < (file ++ tail).length := by
      rw [List.length_append] at hpos ⊢
      omega
    rw [Wal.replay, replayFrom_encodes h htail hfuel]
    simp

theorem nextRecord_nil : nextRecord [] = none := rfl

/-- A log without torn tail replays to itself. -/
theorem replay_encodes_self {log : List (LogEntry V)} {file : Bytes} (h : Encodes H log file) :
    Wal.replay H file = (flattenLog log, file) := by
  have := replay_encodes h nextRecord_nil
  simpa using this

/-! ## 5. Truncation -/

/-- The log cut at the first commit past `maxTs`. -/
def cutLog (maxTs : Int) (log : List (LogEntry V)) : List (LogEntry V) :=
  log.takeWhile fun c => decide (c.1 ≤ maxTs)

/-- Along increasing timestamps, cutting at the first commit past `maxTs` drops all of them. -/
theorem cutLog_eq_filter {maxTs : Int} : ∀ {log : List (LogEntry V)},
    (log.map Prod.fst).Pairwise (· < ·) →
      cutLog maxTs log = log.filter fun c => decide (c.1 ≤ maxTs)
  | [], _ => rfl
  | c :: log, h => by
    rw [List.map_cons, List.pairwise_cons] at h
    by_cases hc : c.1 ≤ maxTs
    · have ih : cutLog maxTs log = _ := cutLog_eq_filter h.2
      rw [cutLog, List.takeWhile_cons_of_pos (by simpa using hc),
        List.filter_cons_of_pos (by simpa using hc), ← ih]
      rfl
    · have hnone : log.filter (fun c => decide (c.1 ≤ maxTs)) = [] := by
        refine List.filter_eq_nil_iff.mpr fun d hd => ?_
        have := h.1 d.1 (List.mem_map_of_mem hd)
        simp only [decide_eq_true_eq]
        omega
      rw [cutLog, List.takeWhile_cons_of_neg (by simpa using hc),
        List.filter_cons_of_neg (by simpa using hc), hnone]

theorem encodes_keepUntil {maxTs : Int} {log : List (LogEntry V)} {file : Bytes}
    (h : Encodes H log file) : ∀ {fuel : Nat}, log.length ≤ fuel →
      Encodes H (cutLog maxTs log) (file.take (Wal.keepUntil maxTs fuel file)) := by
  induction h with
  | nil =>
    intro fuel _
    rw [List.take_nil]
    exact Encodes.nil
  | @cons ts bs log r file hr _ ih =>
    intro fuel hf
    cases fuel with
    | zero => simp at hf
    | succ n =>
      obtain ⟨p, hp, hl, hnext⟩ := nextRecord_append H hr file
      obtain ⟨rest, htake⟩ := takeLE_payload H hp
      have h0 : 0 ≤ ts := (encodePayload_ok H hp).1
      rw [Wal.keepUntil, hnext]
      simp only [htake, Int.toNat_of_nonneg h0]
      by_cases hts : ts ≤ maxTs
      · rw [if_neg (by omega), ← hl, List.take_length_add_append,
          cutLog, List.takeWhile_cons_of_pos (by simpa using hts)]
        exact Encodes.cons hr (ih (by simp only [List.length_cons] at hf; omega))
      · rw [if_pos (by omega), List.take_zero, cutLog,
          List.takeWhile_cons_of_neg (by simpa using hts)]
        exact Encodes.nil

/-- **Truncation is a filter.**  On a file whose commits have increasing timestamps,
`truncate(max_ts)` keeps exactly the commits at or before `max_ts`. -/
theorem truncate_encodes {maxTs : Int} {log : List (LogEntry V)} {file : Bytes}
    (h : Encodes H log file) (hinc : (log.map Prod.fst).Pairwise (· < ·)) :
    Encodes H (log.filter fun c => decide (c.1 ≤ maxTs)) (Wal.truncate maxTs file) := by
  rw [← cutLog_eq_filter hinc]
  have := h.length_le
  exact encodes_keepUntil h (by omega)

/-! ## 6. Appending a commit -/

/-- How an append fails: `written` bytes of the record reach the file before the write, the
flush or the fsync raises, and the truncate back to the old length works or does not. -/
structure AppendFault where
  written : Nat
  truncated : Bool
  deriving DecidableEq, Repr

/-- `WAL.write_commit` on a file that may not exist yet.  The record is built before anything is
written; a failed write is truncated back, and when that fails too the bytes stay. -/
def Wal.writeCommit (H : Host V) (enabled : Bool) (file : Option Bytes) (fault : Option AppendFault)
    (ts : Int) (bs : List (Batch V)) : Except DbError Unit × Option Bytes :=
  if bs.isEmpty then (.ok (), file)
  else if !enabled then (.ok (), file)
  else
    let old := file.getD []
    match buildRecord H ts bs with
    | .error e => (.error e, some old)
    | .ok r =>
      match fault with
      | none => (.ok (), some (old ++ r))
      | some x =>
        (.error (.os "write failed"), some (if x.truncated then old else old ++ r.take x.written))

section Append

variable {H : Host V} (file : Option Bytes) {ts : Int} {bs : List (Batch V)}

/-- A record that cannot be built: the file is there and as it was. -/
theorem Wal.writeCommit_unbuilt (fault : Option AppendFault) (hbs : bs.isEmpty = false) {y : DbError}
    (hr : buildRecord H ts bs = .error y) :
    Wal.writeCommit H true file fault ts bs = (.error y, some (file.getD [])) := by
  simp [Wal.writeCommit, hbs, hr]

/-- A failed append that was truncated back. -/
theorem Wal.writeCommit_failed (hbs : bs.isEmpty = false) {r : Bytes}
    (hr : buildRecord H ts bs = .ok r) {x : AppendFault} (hx : x.truncated = true) :
    Wal.writeCommit H true file (some x) ts bs =
      (.error (.os "write failed"), some (file.getD [])) := by
  simp [Wal.writeCommit, hbs, hr, hx]

/-- An append that worked. -/
theorem Wal.writeCommit_done (hbs : bs.isEmpty = false) {r : Bytes}
    (hr : buildRecord H ts bs = .ok r) :
    Wal.writeCommit H true file none ts bs = (.ok (), some (file.getD [] ++ r)) := by
  simp [Wal.writeCommit, hbs, hr]

end Append

end RyuDB
