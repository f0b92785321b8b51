/-
# The format of the log file

`RyuDB.Wal` shows what replay does on a file the engine wrote.  Here the file is any byte string
at all.  A *whole* file is a sequence of records that frame, pass their checksum and parse, and an
*unreadable* one does not begin with such a record:

    file  =  whole ++ unreadable

`Wal.replay` finds this cut (`replay_cut`), so it returns the batches of the whole part, leaves
that part in the file, and a second replay finds nothing more to cut.  A torn record is
unreadable wherever it is cut, and so are zero bytes, whose checksum is right and whose payload
does not parse.
-/
import RyuDB.Wal
import RyuDB.NatHost

namespace RyuDB

variable {V : Type}

open Bytes

/-! ## 1. Records that can be written -/

/-- The length of the payload of a commit. -/
def payloadLength (H : Host V) (bs : List (Batch V)) : Nat :=
  12 + (bs.map fun b =>
    9 + (encodeName b.table).length + (H.serialize b.frame).length).sum

/-- A commit the format has room for: the timestamp fits in eight bytes, the payload and so every
name, frame and number of batches in a length of four, and there is a batch. -/
structure Encodable (H : Host V) (c : LogEntry V) : Prop where
  nonneg : 0 ≤ c.1
  timestamp : c.1 < 2 ^ 64
  nonempty : c.2 ≠ []
  length : payloadLength H c.2 < 2 ^ 32

/-- The file a list of commits is written to. -/
def encodeLog (H : Host V) : List (LogEntry V) → Except DbError Bytes
  | [] => .ok []
  | c :: log => do
    let r ← buildRecord H c.1 c.2
    let file ← encodeLog H log
    return r ++ file

variable {H : Host V}

theorem packU32_of_lt {n : Nat} (h : n < 2 ^ 32) : packU32 n = .ok (packLE 4 n) := if_pos h

theorem encodeBatches_returns : ∀ {bs : List (Batch V)}, payloadLength H bs < 2 ^ 32 →
    ∃ x, encodeBatches H bs = .ok x ∧ x.length = payloadLength H bs - 12
  | [], _ => ⟨[], rfl, rfl⟩
  | b :: bs, h => by
    have hsum : payloadLength H (b :: bs) = 9 + (encodeName b.table).length +
        (H.serialize b.frame).length + payloadLength H bs := by
      simp only [payloadLength, List.map_cons, List.sum_cons]
      omega
    have h12 : 12 ≤ payloadLength H bs := Nat.le_add_right _ _
    have hroom : payloadLength H bs < 2 ^ 32 := by omega
    obtain ⟨x, hx, hlen⟩ := encodeBatches_returns hroom
    have hb : encodeBatch H b = .ok (b.kind.byte :: (packLE 4 (encodeName b.table).length ++
        (encodeName b.table ++ (packLE 4 (H.serialize b.frame).length ++
          H.serialize b.frame)))) := by
      rw [encodeBatch, packU32_of_lt (by omega), packU32_of_lt (by omega)]
      rfl
    refine ⟨_, by rw [encodeBatches, hb, hx]; rfl, ?_⟩
    simp only [List.cons_append, List.length_cons, List.length_append, length_packLE, hlen]
    omega

theorem length_lt_payloadLength : ∀ bs : List (Batch V), bs.length < payloadLength H bs
  | [] => by simp [payloadLength]
  | b :: bs => by
    have := length_lt_payloadLength bs
    simp only [payloadLength, List.map_cons, List.sum_cons, List.length_cons] at this ⊢
    omega

/-- A commit the format has room for is written. -/
theorem buildRecord_returns {c : LogEntry V} (h : Encodable H c) :
    ∃ r, buildRecord H c.1 c.2 = .ok r := by
  obtain ⟨x, hx, hlen⟩ := encodeBatches_returns h.length
  have h12 : 12 ≤ payloadLength H c.2 := Nat.le_add_right _ _
  have hroom := h.length
  have hcount := length_lt_payloadLength (H := H) c.2
  have hts : packCommitTs c.1 = .ok (packLE 8 c.1.toNat) := if_pos ⟨h.nonneg, h.timestamp⟩
  have hp : encodePayload H c.1 c.2 =
      .ok (packLE 8 c.1.toNat ++ (packLE 4 c.2.length ++ x)) := by
    rw [encodePayload, hts, packU32_of_lt (by omega), hx]
    rfl
  have hl : (packLE 8 c.1.toNat ++ (packLE 4 c.2.length ++ x)).length < 2 ^ 32 := by
    simp only [List.length_append, length_packLE, hlen]
    omega
  refine ⟨_, by rw [buildRecord, hp]; simp only [bind, Except.bind, packU32_of_lt hl]; rfl⟩

theorem encodeLog_returns : ∀ {log : List (LogEntry V)}, (∀ c ∈ log, Encodable H c) →
    ∃ file, encodeLog H log = .ok file ∧ Encodes H log file
  | [], _ => ⟨[], rfl, .nil⟩
  | c :: log, h => by
    obtain ⟨r, hr⟩ := buildRecord_returns (h c (.head _))
    obtain ⟨file, hfile, henc⟩ := encodeLog_returns fun d hd => h d (.tail _ hd)
    refine ⟨r ++ file, ?_, .cons hr henc⟩
    simp only [encodeLog, hr, hfile, bind, Except.bind]
    rfl

/-! ## 2. Any bytes -/

/-- Records that frame, pass their checksum and parse, with the entries they hold. -/
inductive Whole (H : Host V) : Bytes → List (Int × Batch V) → Prop
  | nil : Whole H [] []
  | cons {r p file : Bytes} {l es : List (Int × Batch V)} :
      nextRecord r = some (p, []) → parsePayload H p = some l → Whole H file es →
      Whole H (r ++ file) (l ++ es)

/-- The bytes do not begin with a record that can be read. -/
def Unreadable (H : Host V) (bs : Bytes) : Prop :=
  ∀ p rest, nextRecord bs = some (p, rest) → parsePayload H p = none

theorem takeLE_some {w n : Nat} {bs rest : Bytes} (h : takeLE w bs = some (n, rest)) :
    ∃ x, bs = x ++ rest ∧ x.length = w ∧ ∀ tail, takeLE w (x ++ tail) = some (n, tail) := by
  unfold takeLE at h
  split at h
  · cases h
  · rename_i hlen
    cases h
    have hx : (bs.take w).length = w := by
      rw [List.length_take]
      omega
    refine ⟨bs.take w, (List.take_append_drop w bs).symm, hx, fun tail => ?_⟩
    rw [takeLE, if_neg (by rw [List.length_append, hx]; omega), List.take_left' hx,
      List.drop_left' hx]

/-- A record at the head of a file is the same record in front of anything else. -/
theorem nextRecord_some {bs p rest : Bytes} (h : nextRecord bs = some (p, rest)) :
    ∃ r, bs = r ++ rest ∧ r.length = 8 + p.length ∧
      ∀ tail, nextRecord (r ++ tail) = some (p, tail) := by
  unfold nextRecord at h
  split at h
  · cases h
  · rename_i n bs₁ h₁
    obtain ⟨x, rfl, hx, hx'⟩ := takeLE_some h₁
    split at h
    · cases h
    · rename_i crc bs₂ h₂
      obtain ⟨y, rfl, hy, hy'⟩ := takeLE_some h₂
      split at h
      · cases h
      · rename_i hlen
        split at h
        · rename_i hcrc
          cases h
          have hp : (bs₂.take n).length = n := by
            rw [List.length_take]
            omega
          refine ⟨x ++ (y ++ bs₂.take n), ?_, ?_, fun tail => ?_⟩
          · rw [List.append_assoc, List.append_assoc, List.take_append_drop]
          · simp only [List.length_append, hx, hy, hp]
            omega
          · unfold nextRecord
            simp only [List.append_assoc, hx', hy', List.take_left' hp, List.drop_left' hp]
            rw [if_neg (by rw [List.length_append, hp]; omega), if_pos hcrc]
        · cases h

theorem unreadable_nil (H : Host V) : Unreadable H [] := by
  intro p rest h
  rw [nextRecord_nil] at h
  cases h

/-- **The loop of `replay` stops at the first unreadable record.** -/
theorem replayFrom_cut : ∀ {fuel : Nat} {bs : Bytes}, bs.length ≤ fuel →
    ∃ good rest, bs = good ++ rest ∧ (Wal.replayFrom H fuel bs).2 = good.length ∧
      Whole H good (Wal.replayFrom H fuel bs).1 ∧ Unreadable H rest
  | 0, bs, h => by
    have hnil : bs = [] := List.length_eq_zero_iff.mp (Nat.le_zero.mp h)
    subst hnil
    exact ⟨[], [], rfl, rfl, .nil, unreadable_nil H⟩
  | fuel + 1, bs, h => by
    cases hn : nextRecord bs with
    | none =>
      refine ⟨[], bs, rfl, by simp [Wal.replayFrom, hn], by simp [Wal.replayFrom, hn, Whole.nil],
        fun p rest hp => ?_⟩
      rw [hn] at hp
      cases hp
    | some x =>
      obtain ⟨p, rest⟩ := x
      cases hp : parsePayload H p with
      | none =>
        refine ⟨[], bs, rfl, by simp [Wal.replayFrom, hn, hp],
          by simp [Wal.replayFrom, hn, hp, Whole.nil], fun p' rest' hp' => ?_⟩
        rw [hn] at hp'
        cases hp'
        exact hp
      | some l =>
        obtain ⟨r, rfl, hr, hframe⟩ := nextRecord_some hn
        rw [List.length_append] at h
        have hrest : rest.length ≤ fuel := by omega
        obtain ⟨good, tail, rfl, hlen, hwhole, hun⟩ := replayFrom_cut hrest
        have hself : nextRecord r = some (p, []) := by
          have := hframe []
          rwa [List.append_nil] at this
        refine ⟨r ++ good, tail, (List.append_assoc _ _ _).symm, ?_, ?_, hun⟩
        · simp only [Wal.replayFrom, hn, hp, hlen, List.length_append, hr]
        · simp only [Wal.replayFrom, hn, hp]
          exact .cons hself hp hwhole

/-- The loop of `replay` on whole records followed by an unreadable one. -/
theorem replayFrom_whole {good rest : Bytes} {es : List (Int × Batch V)} (h : Whole H good es)
    (hun : Unreadable H rest) : ∀ {fuel : Nat}, (good ++ rest).length ≤ fuel →
      Wal.replayFrom H fuel (good ++ rest) = (es, good.length) := by
  induction h with
  | nil =>
    intro fuel _
    cases fuel with
    | zero => rfl
    | succ n =>
      rw [List.nil_append, Wal.replayFrom]
      cases hn : nextRecord rest with
      | none => rfl
      | some x => simp only [hun x.1 x.2 hn, List.length_nil]
  | @cons r p file l es hr hp _ ih =>
    intro fuel hf
    obtain ⟨r', hr', hlen, hframe⟩ := nextRecord_some hr
    rw [List.append_nil] at hr'
    subst hr'
    rw [List.append_assoc, List.length_append] at hf
    cases fuel with
    | zero => omega
    | succ n =>
      have htail := @ih n (by omega)
      simp only [List.append_assoc, Wal.replayFrom, hframe, hp, htail, List.length_append, hlen]

/-- What `replay` returns and leaves on any file. -/
theorem replay_cut (H : Host V) (file : Bytes) :
    ∃ rest, file = (Wal.replay H file).2 ++ rest ∧
      Whole H (Wal.replay H file).2 (Wal.replay H file).1 ∧ Unreadable H rest := by
  obtain ⟨good, rest, hfile, hlen, hwhole, hun⟩ := replayFrom_cut (H := H) (le_refl file.length)
  have hcut : (Wal.replay H file).2 = good := by
    rw [Wal.replay]
    simp only [hlen]
    exact (congrArg (List.take good.length) hfile).trans List.take_left
  rw [hcut]
  exact ⟨rest, hfile, hwhole, hun⟩

theorem replay_whole {good rest : Bytes} {es : List (Int × Batch V)} (h : Whole H good es)
    (hun : Unreadable H rest) : Wal.replay H (good ++ rest) = (es, good) := by
  rw [Wal.replay, replayFrom_whole h hun (le_refl _)]
  simp

/-! ## 3. The format -/

/-- **The format of the log.**  A list of commits the format has room for is written, and whatever
proper prefix of one further record follows it, replay returns their batches in order and cuts the
file back to them.  On any bytes at all replay stops at the first record that cannot be read,
keeps the whole records before it, and a second replay returns the same and changes nothing. -/
theorem wal_format (H : Host V) :
    (∀ log : List (LogEntry V), (∀ c ∈ log, Encodable H c) → ∃ file, encodeLog H log = .ok file ∧
      ∀ c : LogEntry V, Encodable H c → ∃ r, buildRecord H c.1 c.2 = .ok r ∧
        ∀ t, t <+: r → t ≠ r → Wal.replay H (file ++ t) = (flattenLog log, file)) ∧
    ∀ file : Bytes,
      (∃ rest, file = (Wal.replay H file).2 ++ rest ∧
        Whole H (Wal.replay H file).2 (Wal.replay H file).1 ∧ Unreadable H rest) ∧
      Wal.replay H (Wal.replay H file).2 = Wal.replay H file := by
  refine ⟨fun log hlog => ?_, fun file => ?_⟩
  · obtain ⟨file, hfile, henc⟩ := encodeLog_returns hlog
    refine ⟨file, hfile, fun c hc => ?_⟩
    obtain ⟨r, hr⟩ := buildRecord_returns hc
    refine ⟨r, hr, fun t ht hne => replay_encodes henc ?_⟩
    have hlt : t.length < r.length :=
      lt_of_le_of_ne ht.length_le fun he => hne (ht.eq_of_length he)
    rw [List.prefix_iff_eq_take.mp ht]
    exact nextRecord_torn H hr hlt
  · obtain ⟨rest, hfile, hwhole, hun⟩ := replay_cut H file
    refine ⟨⟨rest, hfile, hwhole, hun⟩, ?_⟩
    have hagain := replay_whole hwhole (unreadable_nil H)
    rw [List.append_nil] at hagain
    exact hagain

/-- A commit of one batch. -/
def oneBatch (ts : Int) (k : Kind) : LogEntry Nat := (ts, [⟨"t", k, keyFrame [5]⟩])

set_option maxRecDepth 10000 in
theorem oneBatch_encodable {ts : Int} (h0 : 0 ≤ ts) (h : ts < 2 ^ 64) (k : Kind) :
    Encodable natHost (oneBatch ts k) where
  nonneg := h0
  timestamp := h
  nonempty := by simp [oneBatch]
  length := by
    have hlen : payloadLength natHost (oneBatch ts k).2 =
        payloadLength natHost [⟨"t", .insert, keyFrame [5]⟩] := rfl
    rw [hlen]
    with_unfolding_all decide

/-- A delete torn in its header: the insert before it is recovered. -/
theorem wal_format_torn : ∃ file r, encodeLog natHost [oneBatch 1 .insert] = .ok file ∧
    buildRecord natHost 2 (oneBatch 2 .tombstone).2 = .ok r ∧
    Wal.replay natHost (file ++ r.take 5) =
      ([(1, ⟨"t", .insert, keyFrame [5]⟩)], file) := by
  have hlog : ∀ c ∈ [oneBatch 1 .insert], Encodable natHost c := by
    intro c hc
    rw [List.mem_singleton.mp hc]
    exact oneBatch_encodable (by decide) (by decide) _
  obtain ⟨file, hfile, h⟩ := (wal_format natHost).1 [oneBatch 1 .insert] hlog
  obtain ⟨r, hr, ht⟩ := h (oneBatch 2 .tombstone)
    (oneBatch_encodable (by decide) (by decide) _)
  have hlen := buildRecord_length hr
  refine ⟨file, r, hfile, hr, ht (r.take 5) (List.take_prefix _ _) fun he => ?_⟩
  have := congrArg List.length he
  rw [List.length_take] at this
  omega

end RyuDB
