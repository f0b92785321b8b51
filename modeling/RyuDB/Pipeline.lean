/-
# Pipelined requests on one websocket connection

The connection loop starts a handler task for every request, so several are in flight at once and
answer in any order.  A result is two frames: a text frame with the id of the request, and a binary
frame that carries no id.  The server glues them under the connection's send lock; the client
keeps the last such text frame in one slot and gives it the next binary frame.

* The model is the whole connection: the client of `client.ts`, the frames under way, the handler
  tasks with the lock, and every step one of them can take.  A handler may raise at any point, also
  between the two frames of a result.
* `Sound` is what every reachable state satisfies.  Its core is `Pairing.Paired`: the binary frames
  under way will each meet the text frame they belong to.  The task that stands between its two
  frames holds the lock, so the last frame sent is its own text frame.
* The client finds the promise under `String(id)`, which is one string for the number 1 and the
  string "1".  `Sound` needs ids that differ as strings, and `string_id_answered_by_number` is what
  happens otherwise.
-/
import RyuDB.Lib.Dict
import RyuDB.Lib.Run
import Mathlib.Data.List.Nodup

namespace RyuDB

namespace Ws

/-! ## 1. Frames -/

/-- The id of a request that a client chose, `ν` being the numbers. -/
inductive RequestId (ν : Type) where
  | str (s : String)
  | num (n : ν)
  deriving DecidableEq

/-- The `op` of a response. -/
inductive Op where
  | result
  | exported
  | cancelled
  | error
  | write
  | ok
  | plan
  | catalog
  | table
  | profile
  | py
  | history
  deriving DecidableEq

/-- `result` and `export`: a binary frame follows. -/
def Op.announces : Op → Bool
  | .result | .exported => true
  | _ => false

/-- A text frame: its id, its op and the other fields `J`. -/
structure Response (ν J : Type) where
  id : Option (RequestId ν)
  op : Op
  fields : J
  deriving DecidableEq

/-- What travels from the server to the client.  `malformed` is a text frame that `JSON.parse`
refuses. -/
inductive Frame (ν J β : Type) where
  | text (r : Response ν J)
  | malformed
  | binary (b : β)
  deriving DecidableEq

/-- The binary payload of a frame. -/
def Frame.body {ν J β : Type} : Frame ν J β → Option β
  | .binary b => some b
  | _ => none

/-! ## 2. The client -/

/-- What a promise resolves with. -/
structure Result (ν J β τ : Type) where
  response : Response ν J
  table : Option τ
  bytes : Option β
  deriving DecidableEq

/-- `awaitingBin`. -/
structure Awaiting (ν J : Type) where
  id : String
  response : Response ν J
  deriving DecidableEq

/-- `RyuDBClient`.  A promise is the number of its request; `settled` lists what `resolve` was
called with. -/
structure Client (ν J β τ : Type) where
  pending : Dict String Nat := ∅
  awaitingBin : Option (Awaiting ν J) := none
  settled : List (Nat × Result ν J β τ) := []

section Client
variable {ν J β τ : Type} (spell : ν → String) (decodeIpc : β → Option τ)

/-- `String(id)`. -/
def RequestId.key : RequestId ν → String
  | .str s => s
  | .num n => spell n

/-- `String(frame.id)`. -/
def keyOf : Option (RequestId ν) → String
  | none => "null"
  | some i => i.key spell

namespace Client

/-- `resolve`. -/
def resolve (c : Client ν J β τ) (key : String) (result : Result ν J β τ) : Client ν J β τ :=
  match c.pending.get? key with
  | none => c
  | some p => { c with pending := c.pending.erase key, settled := c.settled ++ [(p, result)] }

/-- The first part of `handleText`: the binary frame was lost. -/
def giveUp (c : Client ν J β τ) (r : Response ν J) : Client ν J β τ :=
  match c.awaitingBin with
  | none => c
  | some a =>
    if r.op.announces then c
    else { c with awaitingBin := none }.resolve a.id ⟨a.response, none, none⟩

/-- `handleText`. -/
def handleText (c : Client ν J β τ) (r : Response ν J) : Client ν J β τ :=
  let c := c.giveUp r
  if r.op.announces then { c with awaitingBin := some ⟨keyOf spell r.id, r⟩ }
  else match r.id with
    | none => c
    | some i => c.resolve (i.key spell) ⟨r, none, none⟩

/-- `handleBinary`. -/
def handleBinary (c : Client ν J β τ) (buf : β) : Client ν J β τ :=
  match c.awaitingBin with
  | none => c
  | some a =>
    let c := { c with awaitingBin := none }
    if a.response.op = .exported then c.resolve a.id ⟨a.response, none, some buf⟩
    else c.resolve a.id ⟨a.response, decodeIpc buf, none⟩

/-- `onMessage`. -/
def onMessage (c : Client ν J β τ) : Frame ν J β → Client ν J β τ
  | .text r => c.handleText spell r
  | .malformed => c
  | .binary b => c.handleBinary decodeIpc b

/-- `request`: the promise `p` waits under the key of its id. -/
def request (c : Client ν J β τ) (i : RequestId ν) (p : Nat) : Client ν J β τ :=
  { c with pending := c.pending.set (i.key spell) p }

/-- `failAll`: every promise that waits is rejected. -/
def failAll (c : Client ν J β τ) : Client ν J β τ := { c with pending := ∅ }

end Client

/-- What the client holds in `awaitingBin` after a frame. -/
def slot (s : Option (Awaiting ν J)) : Frame ν J β → Option (Awaiting ν J)
  | .text r => if r.op.announces then some ⟨keyOf spell r.id, r⟩ else none
  | .malformed => s
  | .binary _ => none

end Client

/-! ## 3. The server's tasks and the whole connection -/

/-- What a handler hands to a send helper. -/
inductive Reply (J β : Type) where
  /-- `_send_json` with an op that announces nothing, and whether the client can parse it. -/
  | json (op : Op) (plain : op.announces = false) (fields : J) (readable : Bool)
  /-- `_send_result`, `_send_arrow`. -/
  | result (fields : J) (ipc : β)
  /-- `_send_bytes`. -/
  | export (fields : J) (data : β)

/-- The text frame and the payload of a reply in two frames. -/
def Reply.glued? {ν J β : Type} (rid : RequestId ν) : Reply J β → Option (Response ν J × β)
  | .json .. => none
  | .result fields ipc => some (⟨some rid, .result, fields⟩, ipc)
  | .export fields data => some (⟨some rid, .exported, fields⟩, data)

/-- The frame of a reply in one frame. -/
def Reply.lone? {ν J β : Type} (rid : RequestId ν) : Reply J β → Option (Frame ν J β)
  | .json op _ fields readable =>
    some (if readable then .text ⟨some rid, op, fields⟩ else .malformed)
  | _ => none

/-- Where a handler task stands. -/
inductive Stage (ν J β : Type) where
  /-- In the body of its op, or in an `except` clause: the next reply is not decided. -/
  | running
  /-- At `async with lock`. -/
  | waiting (r : Reply J β)
  /-- Inside, nothing sent. -/
  | holding (r : Reply J β)
  /-- Inside, between the text frame and the payload. -/
  | glued (m : Response ν J) (b : β)
  | done

/-- Inside the `async with`. -/
def Stage.inside {ν J β : Type} : Stage ν J β → Bool
  | .holding _ | .glued _ _ => true
  | _ => false

/-- `handle_request` for one request. -/
structure Task (ν J β : Type) where
  rid : RequestId ν
  stage : Stage ν J β

/-- A connection with both its ends.  The n-th promise belongs to the n-th of `requests`;
`served` lists the payloads handed to `ws.send`, with the request and the text frame before them. -/
structure Conn (ν J β τ : Type) where
  opened : Bool := true
  client : Client ν J β τ := {}
  requests : List (RequestId ν) := []
  inbox : List (RequestId ν) := []
  tasks : List (Task ν J β) := []
  lock : Option Nat := none
  wire : List (Frame ν J β) := []
  served : List (RequestId ν × Response ν J × β) := []

section Steps
variable {ν J β τ : Type}

namespace Conn

/-- Task `t` goes to stage `g`. -/
def goto (s : Conn ν J β τ) (t : Nat) (rid : RequestId ν) (g : Stage ν J β) : Conn ν J β τ :=
  { s with tasks := s.tasks.set t ⟨rid, g⟩ }

/-- Put a frame on the wire. -/
def send (s : Conn ν J β τ) (f : Frame ν J β) : Conn ν J β τ := { s with wire := s.wire ++ [f] }

end Conn

variable (spell : ν → String) (decodeIpc : β → Option τ)

open Conn in
/-- One step of the client, of the connection loop or of a handler task. -/
inductive Step : Conn ν J β τ → Conn ν J β τ → Prop
  /-- The client sends a request. -/
  | request {s : Conn ν J β τ} (i : RequestId ν) : s.opened = true →
      Step s { s with
        client := s.client.request spell i s.requests.length
        requests := s.requests ++ [i]
        inbox := s.inbox ++ [i] }
  /-- The connection loop starts the task of the next request. -/
  | dispatch {s : Conn ν J β τ} {i : RequestId ν} {rest : List (RequestId ν)} :
      s.inbox = i :: rest → Step s { s with inbox := rest, tasks := s.tasks ++ [⟨i, .running⟩] }
  /-- A handler decides on a reply. -/
  | reply {s : Conn ν J β τ} {t : Nat} {rid : RequestId ν} (r : Reply J β) :
      s.tasks[t]? = some ⟨rid, .running⟩ → Step s (s.goto t rid (.waiting r))
  | acquire {s : Conn ν J β τ} {t : Nat} {rid : RequestId ν} {r : Reply J β} :
      s.tasks[t]? = some ⟨rid, .waiting r⟩ → s.lock = none →
      Step s { s.goto t rid (.holding r) with lock := some t }
  /-- `_send_json`, and the lock is free again. -/
  | sendJson {s : Conn ν J β τ} {t : Nat} {rid : RequestId ν} {r : Reply J β} {f : Frame ν J β} :
      s.tasks[t]? = some ⟨rid, .holding r⟩ → r.lone? rid = some f →
      Step s { (s.goto t rid .running).send f with lock := none }
  /-- The text frame of a result or an export. -/
  | sendMeta {s : Conn ν J β τ} {t : Nat} {rid : RequestId ν} {r : Reply J β}
      {m : Response ν J} {b : β} :
      s.tasks[t]? = some ⟨rid, .holding r⟩ → r.glued? rid = some (m, b) →
      Step s ((s.goto t rid (.glued m b)).send (.text m))
  /-- Its payload, and the lock is free again. -/
  | sendPayload {s : Conn ν J β τ} {t : Nat} {rid : RequestId ν} {m : Response ν J} {b : β} :
      s.tasks[t]? = some ⟨rid, .glued m b⟩ →
      Step s { (s.goto t rid .running).send (.binary b) with
        lock := none
        served := s.served ++ [(rid, m, b)] }
  /-- Serialisation raises inside the `async with`: before the text frame, or after it and before
  the payload. -/
  | raise {s : Conn ν J β τ} {t : Nat} {k : Task ν J β} :
      s.tasks[t]? = some k → k.stage.inside = true →
      Step s { s.goto t k.rid .running with lock := none }
  /-- A handler returns, or is cancelled anywhere; `async with` gives the lock back. -/
  | finish {s : Conn ν J β τ} {t : Nat} {k : Task ν J β} : s.tasks[t]? = some k →
      Step s { s.goto t k.rid .done with lock := if k.stage.inside then none else s.lock }
  /-- The connection loop answers a frame that is no request; its response has no id. -/
  | protocolError {s : Conn ν J β τ} (fields : J) : s.lock = none →
      Step s (s.send (.text ⟨none, .error, fields⟩))
  /-- The client handles the next frame. -/
  | deliver {s : Conn ν J β τ} {f : Frame ν J β} {rest : List (Frame ν J β)} :
      s.opened = true → s.wire = f :: rest →
      Step s { s with client := s.client.onMessage spell decodeIpc f, wire := rest }
  /-- `ws.onclose`. -/
  | close {s : Conn ν J β τ} :
      Step s { s with opened := false, client := s.client.failAll }
  /-- `disconnect`. -/
  | disconnect {s : Conn ν J β τ} :
      Step s { s with opened := false, client := { s.client.failAll with awaitingBin := none } }

/-- The states any interleaving leads to. -/
inductive Reachable : Conn ν J β τ → Prop
  | init : Reachable {}
  | step {s s' : Conn ν J β τ} : Reachable s → Step spell decodeIpc s s' → Reachable s'

end Steps

/-! ## 4. What the client does with one frame -/

section Resolve
variable {ν J β τ : Type} {spell : ν → String} {decodeIpc : β → Option τ}
  {requests : List (RequestId ν)} {served : List (RequestId ν × Response ν J × β)}
  {c : Client ν J β τ}

/-- A result that answers the request `i`: the text frame carries the id of `i`, and a payload is
the one the handler of `i` sent behind that text frame. -/
structure Answers (decodeIpc : β → Option τ) (served : List (RequestId ν × Response ν J × β))
    (i : RequestId ν) (x : Result ν J β τ) : Prop where
  id : x.response.id = some i
  bytes : ∀ b, x.bytes = some b → (i, x.response, b) ∈ served
  table : ∀ d, x.table = some d → ∃ b, (i, x.response, b) ∈ served ∧ decodeIpc b = some d

/-- An answer without a payload. -/
theorem Answers.bare {i : RequestId ν} {r : Response ν J} (h : r.id = some i) :
    Answers decodeIpc served i ⟨r, none, none⟩ := ⟨h, nofun, nofun⟩

/-- The client's promises: each waits under the key of its own request, and none resolves twice or
with the answer to another request. -/
structure Client.Ok (spell : ν → String) (decodeIpc : β → Option τ)
    (requests : List (RequestId ν)) (served : List (RequestId ν × Response ν J × β))
    (c : Client ν J β τ) : Prop where
  pending : ∀ k p, c.pending.get? k = some p →
    ∃ i, requests[p]? = some i ∧ i.key spell = k ∧ p ∉ c.settled.map Prod.fst
  once : (c.settled.map Prod.fst).Nodup
  answered : ∀ e ∈ c.settled, ∃ i, requests[e.1]? = some i ∧ Answers decodeIpc served i e.2

/-- The slot belongs to the request whose id its text frame carries. -/
def Awaiting.Of (spell : ν → String) (a : Awaiting ν J) (i : RequestId ν) : Prop :=
  a.response.id = some i ∧ a.id = i.key spell

/-- A text frame of one of the requests, or one without an id that announces nothing. -/
def Response.Known (requests : List (RequestId ν)) (r : Response ν J) : Prop :=
  (∀ i, r.id = some i → i ∈ requests) ∧ (r.op.announces = true → r.id ≠ none)

/-- `b` was sent behind the text frame in the slot. -/
def Awaiting.Brings (spell : ν → String) (served : List (RequestId ν × Response ν J × β))
    (a : Awaiting ν J) (b : β) : Prop :=
  ∃ i, a.Of spell i ∧ (i, a.response, b) ∈ served

@[simp] theorem Client.awaitingBin_resolve (key : String) (x : Result ν J β τ) :
    (c.resolve key x).awaitingBin = c.awaitingBin := by
  unfold resolve
  split <;> rfl

theorem Client.awaitingBin_giveUp (r : Response ν J) :
    (c.giveUp r).awaitingBin = if r.op.announces then c.awaitingBin else none := by
  unfold giveUp
  split
  · rename_i h
    rw [h, ite_self]
  · split
    · rfl
    · exact awaitingBin_resolve _ _

/-- The slot after a frame depends on the slot and the frame only. -/
theorem Client.awaitingBin_onMessage (f : Frame ν J β) :
    (c.onMessage spell decodeIpc f).awaitingBin = slot spell c.awaitingBin f := by
  cases f with
  | malformed => rfl
  | text r =>
    simp only [onMessage, handleText, slot]
    split
    · rfl
    · rename_i hr
      have hnone : (c.giveUp r).awaitingBin = none := by
        rw [awaitingBin_giveUp, if_neg hr]
      split
      · exact hnone
      · rw [awaitingBin_resolve, hnone]
  | binary b =>
    simp only [onMessage, handleBinary, slot]
    split
    · assumption
    · split <;> exact awaitingBin_resolve _ _

/-- Ids that differ as strings: the key tells the request. -/
theorem key_inj (hd : (requests.map (RequestId.key spell)).Nodup) {i j : RequestId ν}
    (hi : i ∈ requests) (hj : j ∈ requests) (h : i.key spell = j.key spell) : i = j :=
  List.inj_on_of_nodup_map hd hi hj h

namespace Client.Ok

variable (hok : c.Ok spell decodeIpc requests served)

include hok

/-- Forgetting or setting the slot touches no promise. -/
theorem slotted (a : Option (Awaiting ν J)) :
    ({ c with awaitingBin := a } : Client ν J β τ).Ok spell decodeIpc requests served :=
  ⟨hok.pending, hok.once, hok.answered⟩

theorem failAll : c.failAll.Ok spell decodeIpc requests served :=
  ⟨nofun, hok.once, hok.answered⟩

/-- More payloads sent. -/
theorem more (l : List (RequestId ν × Response ν J × β)) :
    c.Ok spell decodeIpc requests (served ++ l) :=
  ⟨hok.pending, hok.once, fun e he => by
    obtain ⟨i, hi, ha⟩ := hok.answered e he
    exact ⟨i, hi, ha.id, fun b hb => List.mem_append_left l (ha.bytes b hb), fun d hd =>
      (ha.table d hd).imp fun b hb => ⟨List.mem_append_left l hb.1, hb.2⟩⟩⟩

/-- A new request waits under its key. -/
theorem request (i : RequestId ν) :
    (c.request spell i requests.length).Ok spell decodeIpc (requests ++ [i]) served := by
  have hold : ∀ p j, requests[p]? = some j → (requests ++ [i])[p]? = some j := fun p j h =>
    (List.getElem?_append_left (List.getElem?_eq_some_iff.mp h).1).trans h
  refine ⟨fun k p hp => ?_, hok.once, fun e he => ?_⟩
  · rw [Client.request, Dict.get?_set] at hp
    split at hp
    · rename_i hk
      cases hp
      refine ⟨i, List.getElem?_concat_length, hk.symm, fun hmem => ?_⟩
      -- a settled promise has the number of an earlier request
      obtain ⟨e, he, hlen⟩ := List.mem_map.mp hmem
      obtain ⟨j, hj, -⟩ := hok.answered e he
      have hlt := (List.getElem?_eq_some_iff.mp hj).1
      omega
    · obtain ⟨j, hj, hkey, hnot⟩ := hok.pending k p hp
      exact ⟨j, hold p j hj, hkey, hnot⟩
  · obtain ⟨j, hj, ha⟩ := hok.answered e he
    exact ⟨j, hold e.1 j hj, ha⟩

variable (hd : (requests.map (RequestId.key spell)).Nodup)

include hd

/-- `resolve` with an answer to the request whose key it is given. -/
theorem resolve {i : RequestId ν} {x : Result ν J β τ} (hi : i ∈ requests)
    (hx : Answers decodeIpc served i x) :
    (c.resolve (i.key spell) x).Ok spell decodeIpc requests served := by
  unfold Client.resolve
  split
  · exact hok
  · rename_i p hp
    obtain ⟨j, hj, hkey, hnot⟩ := hok.pending _ p hp
    have hij : i = j := (key_inj hd (List.mem_of_getElem? hj) hi hkey).symm
    subst hij
    refine ⟨fun k q hq => ?_, ?_, fun e he => ?_⟩
    · rw [Dict.get?_erase] at hq
      split at hq
      · cases hq
      · rename_i hk
        obtain ⟨l, hl, hlkey, hlnot⟩ := hok.pending k q hq
        refine ⟨l, hl, hlkey, fun hmem => ?_⟩
        rw [List.map_append] at hmem
        rcases List.mem_append.mp hmem with h | h
        · exact hlnot h
        · -- the promise that just resolved waited under another key
          have hqp : q = p := by simpa using h
          subst hqp
          rw [hj] at hl
          cases hl
          exact hk hlkey.symm
    · rw [List.map_append]
      exact List.Nodup.append hok.once (List.nodup_singleton p) (by simpa using hnot)
    · rcases List.mem_append.mp he with h | h
      · exact hok.answered e h
      · cases List.mem_singleton.mp h
        exact ⟨i, hj, hx⟩

/-- Giving up a lost binary frame answers the request of the slot. -/
theorem giveUp (hslot : ∀ a, c.awaitingBin = some a → ∃ i ∈ requests, a.Of spell i)
    (r : Response ν J) : (c.giveUp r).Ok spell decodeIpc requests served := by
  unfold Client.giveUp
  split
  · exact hok
  · rename_i a ha
    obtain ⟨i, hi, hid, hkey⟩ := hslot a ha
    split
    · exact hok
    · rw [hkey]
      exact (hok.slotted none).resolve hd hi (.bare hid)

/-- **One frame resolves a promise only with its own answer**, when it is the frame of a request and
a binary frame meets the text frame before it. -/
theorem onMessage (hslot : ∀ a, c.awaitingBin = some a → ∃ i ∈ requests, a.Of spell i)
    {f : Frame ν J β} (hf : ∀ r, f = .text r → r.Known requests)
    (hb : ∀ b, f.body = some b → ∃ a, c.awaitingBin = some a ∧ a.Brings spell served b) :
    (c.onMessage spell decodeIpc f).Ok spell decodeIpc requests served := by
  cases f with
  | malformed => exact hok
  | text r =>
    have hgive := hok.giveUp hd hslot r
    simp only [Client.onMessage, Client.handleText]
    split
    · exact hgive.slotted _
    · split
      · exact hgive
      · rename_i i hi
        exact hgive.resolve hd ((hf r rfl).1 i hi) (.bare hi)
  | binary b =>
    obtain ⟨a, ha, i, ⟨hid, hkey⟩, hmem⟩ := hb b rfl
    obtain ⟨j, hj, hjd, -⟩ := hslot a ha
    have hij : i = j := Option.some.inj (hid.symm.trans hjd)
    subst hij
    have hclear := hok.slotted none
    simp only [Client.onMessage, Client.handleBinary, ha, hkey]
    split
    · refine hclear.resolve hd hj ⟨hid, fun b' hb' => ?_, nofun⟩
      cases hb'
      exact hmem
    · exact hclear.resolve hd hj ⟨hid, nofun, fun d hd' => ⟨b, hmem, hd'⟩⟩

end Client.Ok

end Resolve

/-! ## 5. What every reachable state satisfies -/

section Sound
variable {ν J β τ : Type}

/-- Whoever is inside the `async with` holds the lock. -/
def Locked (tasks : List (Task ν J β)) (lock : Option Nat) : Prop :=
  ∀ (t : Nat) (k : Task ν J β), tasks[t]? = some k → k.stage.inside = true → lock = some t

/-- A task between its two frames sent the text frame last: the client will hold it once it has
handled what is under way. -/
def Glued (spell : ν → String) (tasks : List (Task ν J β)) (last : Option (Awaiting ν J)) : Prop :=
  ∀ (t : Nat) (rid : RequestId ν) (m : Response ν J) (b : β),
    tasks[t]? = some ⟨rid, .glued m b⟩ → m.id = some rid ∧ last = some ⟨rid.key spell, m⟩

/-- The invariant of a connection. -/
structure Sound (spell : ν → String) (decodeIpc : β → Option τ) (s : Conn ν J β τ) : Prop where
  client : s.client.Ok spell decodeIpc s.requests s.served
  awaiting : ∀ a, s.client.awaitingBin = some a → ∃ i ∈ s.requests, a.Of spell i
  wire : ∀ f ∈ s.wire, ∀ r, f = .text r → r.Known s.requests
  inbox : ∀ i ∈ s.inbox, i ∈ s.requests
  tasks : ∀ k ∈ s.tasks, k.rid ∈ s.requests
  locked : Locked s.tasks s.lock
  glued : s.opened = true →
    Glued spell s.tasks (Pairing.held (slot spell) s.client.awaitingBin s.wire)
  paired : s.opened = true → Pairing.Paired (slot spell) Frame.body
    (Awaiting.Brings spell s.served) s.client.awaitingBin s.wire

variable {spell : ν → String} {decodeIpc : β → Option τ} {s s' : Conn ν J β τ}
  {tasks : List (Task ν J β)} {lock : Option Nat} {t : Nat}

/-- A task in the list after task `t` went to stage `g`. -/
theorem getElem?_goto {k k' : Task ν J β} (ht : tasks[t]? = some k) (u : Nat) :
    (tasks.set t k')[u]? = if u = t then some k' else tasks[u]? := by
  rw [List.getElem?_set]
  by_cases hu : t = u
  · subst hu
    rw [if_pos rfl, if_pos rfl, if_pos (List.getElem?_eq_some_iff.mp ht).1]
  · rw [if_neg hu, if_neg (Ne.symm hu)]

/-- Two tasks are never inside at once. -/
theorem Locked.alone (h : Locked tasks lock) {u : Nat} {k l : Task ν J β}
    (ht : tasks[t]? = some k) (hk : k.stage.inside = true) (hu : tasks[u]? = some l)
    (hl : l.stage.inside = true) : u = t :=
  Option.some.inj ((h u l hu hl).symm.trans (h t k ht hk))

/-- Task `t` changes its stage and the lock with it. -/
theorem Locked.goto {k k' : Task ν J β} (ht : tasks[t]? = some k)
    {lock' : Option Nat} (hself : k'.stage.inside = true → lock' = some t)
    (hother : ∀ (u : Nat) (l : Task ν J β), u ≠ t → tasks[u]? = some l →
      l.stage.inside = true → lock' = some u) :
    Locked (tasks.set t k') lock' := by
  intro u l hu hl
  rw [getElem?_goto ht] at hu
  split at hu
  · rename_i hut
    cases hu
    rw [hut]
    exact hself hl
  · rename_i hut
    exact hother u l hut hu hl

/-- Task `t`, which was inside, goes outside and frees the lock. -/
theorem Locked.leave (h : Locked tasks lock) {k k' : Task ν J β} (ht : tasks[t]? = some k)
    (hk : k.stage.inside = true) (hk' : k'.stage.inside = false) :
    Locked (tasks.set t k') none := by
  refine .goto ht (fun hin => ?_) fun u l hut hu hl => absurd (h.alone ht hk hu hl) hut
  rw [hk'] at hin
  cases hin

/-- Task `t`, which was outside, stays there. -/
theorem Locked.quiet (h : Locked tasks lock) {k k' : Task ν J β} (ht : tasks[t]? = some k)
    (hk' : k'.stage.inside = false) : Locked (tasks.set t k') lock := by
  refine .goto ht (fun hin => ?_) fun u l _ hu hl => h u l hu hl
  rw [hk'] at hin
  cases hin

/-- Task `t` changes its stage, and what the client will hold stays unless `t` was inside. -/
theorem Glued.goto {last last' : Option (Awaiting ν J)} (h : Glued spell tasks last)
    (hlock : Locked tasks lock) {k : Task ν J β} (ht : tasks[t]? = some k)
    (hk : k.stage.inside = true ∨ last' = last) {g : Stage ν J β}
    (hself : ∀ m b, g = .glued m b → m.id = some k.rid ∧ last' = some ⟨k.rid.key spell, m⟩) :
    Glued spell (tasks.set t ⟨k.rid, g⟩) last' := by
  intro u rid m b hu
  rw [getElem?_goto ht] at hu
  split at hu
  · cases hu
    exact hself m b rfl
  · rename_i hut
    rcases hk with hk | hk
    · exact absurd (hlock.alone ht hk hu rfl) hut
    · rw [hk]
      exact h u rid m b hu

/-- The tasks' ids after a task changed its stage. -/
theorem rid_goto {requests : List (RequestId ν)} (h : ∀ k ∈ tasks, k.rid ∈ requests)
    {k : Task ν J β} (ht : tasks[t]? = some k) (g : Stage ν J β) :
    ∀ l ∈ tasks.set t ⟨k.rid, g⟩, l.rid ∈ requests := by
  intro l hl
  rcases List.mem_or_eq_of_mem_set hl with hl | rfl
  · exact h l hl
  · exact h k (List.mem_of_getElem? ht)

/-- A frame more on the wire. -/
theorem wire_snoc {requests : List (RequestId ν)} {wire : List (Frame ν J β)}
    (h : ∀ f ∈ wire, ∀ r, f = .text r → r.Known requests) {f : Frame ν J β}
    (hf : ∀ r, f = .text r → r.Known requests) :
    ∀ f' ∈ wire ++ [f], ∀ r, f' = .text r → r.Known requests := by
  intro f' hf'
  rcases List.mem_append.mp hf' with h' | h'
  · exact h f' h'
  · rw [List.mem_singleton.mp h']
    exact hf

theorem sound_init : Sound spell decodeIpc ({} : Conn ν J β τ) where
  client := ⟨nofun, List.nodup_nil, nofun⟩
  awaiting := nofun
  wire := nofun
  inbox := nofun
  tasks := nofun
  locked := nofun
  glued _ := nofun
  paired _ := trivial

/-! ### The steps of a handler task -/

namespace Sound

variable (h : Sound spell decodeIpc s)

include h

/-- A task that sends nothing. -/
theorem goto {k : Task ν J β} (ht : s.tasks[t]? = some k) {g : Stage ν J β} {l : Option Nat}
    (hg : ∀ m b, g ≠ .glued m b) (hl : Locked (s.tasks.set t ⟨k.rid, g⟩) l) :
    Sound spell decodeIpc { s.goto t k.rid g with lock := l } :=
  { h with
    tasks := rid_goto h.tasks ht g
    locked := hl
    glued := fun ho => (h.glued ho).goto h.locked ht (.inr rfl) fun m b hm => absurd hm (hg m b) }

/-- A task inside the `async with` sends a frame. -/
theorem sends {k : Task ν J β} (ht : s.tasks[t]? = some k) (hk : k.stage.inside = true)
    {g : Stage ν J β} {l : Option Nat} {f : Frame ν J β} {e : List (RequestId ν × Response ν J × β)}
    (hl : Locked (s.tasks.set t ⟨k.rid, g⟩) l) (hf : ∀ r, f = .text r → r.Known s.requests)
    (hg : ∀ m b, g = .glued m b → m.id = some k.rid ∧
      slot spell (Pairing.held (slot spell) s.client.awaitingBin s.wire) f =
        some ⟨k.rid.key spell, m⟩)
    (hb : s.opened = true → ∀ b, f.body = some b → ∃ a,
      Pairing.held (slot spell) s.client.awaitingBin s.wire = some a ∧
        a.Brings spell (s.served ++ e) b) :
    Sound spell decodeIpc
      { (s.goto t k.rid g).send f with lock := l, served := s.served ++ e } where
  client := h.client.more e
  awaiting := h.awaiting
  wire := wire_snoc h.wire hf
  inbox := h.inbox
  tasks := rid_goto h.tasks ht g
  locked := hl
  glued ho := by
    refine (h.glued ho).goto h.locked ht (.inl hk) fun m b hm => ?_
    obtain ⟨hid, hlast⟩ := hg m b hm
    exact ⟨hid, (Pairing.held_snoc _ _ _ _).trans hlast⟩
  paired ho := ((h.paired ho).mono fun _ _ hp => by
    obtain ⟨i, hi, hmem⟩ := hp
    exact ⟨i, hi, List.mem_append_left e hmem⟩).snoc (hb ho)

theorem sendJson {rid : RequestId ν} {r : Reply J β} {f : Frame ν J β}
    (ht : s.tasks[t]? = some ⟨rid, .holding r⟩) (hf : r.lone? rid = some f) :
    Sound spell decodeIpc { (s.goto t rid .running).send f with lock := none } := by
  have hrid : rid ∈ s.requests := h.tasks _ (List.mem_of_getElem? ht)
  cases r with
  | result fields ipc => cases hf
  | «export» fields data => cases hf
  | json op plain fields readable =>
    have hsent := h.sends (e := []) (g := .running) ht rfl (h.locked.leave ht rfl rfl) (f := f)
      (fun r hr => ?_) nofun fun _ b hb => ?_
    · rwa [List.append_nil] at hsent
    · subst hr
      cases readable <;> cases hf
      refine ⟨fun i hi => ?_, fun hop => ?_⟩
      · cases hi
        exact hrid
      · rw [plain] at hop
        cases hop
    · cases readable <;> cases hf <;> cases hb

theorem sendMeta {rid : RequestId ν} {r : Reply J β} {m : Response ν J} {b : β}
    (ht : s.tasks[t]? = some ⟨rid, .holding r⟩) (hm : r.glued? rid = some (m, b)) :
    Sound spell decodeIpc ((s.goto t rid (.glued m b)).send (.text m)) := by
  have hrid : rid ∈ s.requests := h.tasks _ (List.mem_of_getElem? ht)
  have hmeta : m.id = some rid ∧ m.op.announces = true := by
    cases r <;> cases hm <;> exact ⟨rfl, rfl⟩
  have hlock : s.lock = some t := h.locked t _ ht rfl
  have hsent := h.sends (e := []) (g := .glued m b) (l := s.lock) (f := .text m) ht rfl
    (.goto ht (fun _ => hlock) fun u l _ hu hl => h.locked u l hu hl)
    (fun r hr => ?_) (fun m' b' hm' => ?_) fun _ b hb => by cases hb
  · rwa [List.append_nil] at hsent
  · cases hr
    refine ⟨fun i hi => ?_, fun _ => ?_⟩
    · rw [hmeta.1] at hi
      cases hi
      exact hrid
    · rw [hmeta.1]
      exact Option.some_ne_none rid
  · cases hm'
    refine ⟨hmeta.1, ?_⟩
    rw [slot, if_pos hmeta.2, hmeta.1, keyOf]

theorem sendPayload {rid : RequestId ν} {m : Response ν J} {b : β}
    (ht : s.tasks[t]? = some ⟨rid, .glued m b⟩) :
    Sound spell decodeIpc { (s.goto t rid .running).send (.binary b) with
      lock := none
      served := s.served ++ [(rid, m, b)] } := by
  refine h.sends (g := .running) ht rfl (h.locked.leave ht rfl rfl) nofun nofun
    fun ho b' hb => ?_
  cases hb
  -- the text frame of this task is the last frame sent
  obtain ⟨hid, hlast⟩ := h.glued ho t rid m b ht
  exact ⟨_, hlast, rid, ⟨hid, rfl⟩, List.mem_append_right _ (List.mem_singleton_self _)⟩

/-! ### The client's own steps -/

theorem request (i : RequestId ν) :
    Sound spell decodeIpc { s with
      client := s.client.request spell i s.requests.length
      requests := s.requests ++ [i]
      inbox := s.inbox ++ [i] } where
  client := h.client.request i
  awaiting a ha := by
    obtain ⟨j, hj, hof⟩ := h.awaiting a ha
    exact ⟨j, List.mem_append_left _ hj, hof⟩
  wire f hf r hr :=
    ⟨fun j hj => List.mem_append_left _ ((h.wire f hf r hr).1 j hj), (h.wire f hf r hr).2⟩
  inbox j hj := by
    rcases List.mem_append.mp hj with hj | hj
    · exact List.mem_append_left _ (h.inbox j hj)
    · exact List.mem_append_right _ hj
  tasks k hk := List.mem_append_left _ (h.tasks k hk)
  locked := h.locked
  glued := h.glued
  paired := h.paired

theorem dispatch {i : RequestId ν} {rest : List (RequestId ν)} (hi : s.inbox = i :: rest) :
    Sound spell decodeIpc { s with inbox := rest, tasks := s.tasks ++ [⟨i, .running⟩] } := by
  have hnew : ∀ (t : Nat) (k : Task ν J β), (s.tasks ++ [⟨i, .running⟩])[t]? = some k →
      s.tasks[t]? = some k ∨ k = ⟨i, .running⟩ := by
    intro t k ht
    rw [List.getElem?_append] at ht
    split at ht
    · exact .inl ht
    · exact .inr (List.mem_singleton.mp (List.mem_of_getElem? ht))
  refine { h with inbox := fun j hj => ?_, tasks := fun k hk => ?_, locked := ?_, glued := ?_ }
  · exact h.inbox j (hi ▸ List.mem_cons_of_mem i hj)
  · rcases List.mem_append.mp hk with hk | hk
    · exact h.tasks k hk
    · rw [List.mem_singleton.mp hk]
      exact h.inbox i (hi ▸ List.mem_cons_self)
  · intro t k ht hk
    rcases hnew t k ht with ht | rfl
    · exact h.locked t k ht hk
    · cases hk
  · intro ho t rid m b ht
    rcases hnew t _ ht with ht | heq
    · exact h.glued ho t rid m b ht
    · cases heq

theorem protocolError (fields : J) (hl : s.lock = none) :
    Sound spell decodeIpc (s.send (.text ⟨none, .error, fields⟩)) := by
  refine { h with wire := wire_snoc h.wire fun r hr => ?_, glued := fun _ t rid m b ht => ?_,
                  paired := fun ho => (h.paired ho).snoc_other rfl }
  · cases hr
    exact ⟨nofun, nofun⟩
  · -- nobody is between two frames while the lock is free
    have hin := h.locked t _ ht rfl
    rw [hl] at hin
    cases hin

theorem deliver (hd : (s.requests.map (RequestId.key spell)).Nodup) {f : Frame ν J β}
    {rest : List (Frame ν J β)} (ho : s.opened = true) (hw : s.wire = f :: rest) :
    Sound spell decodeIpc
      { s with client := s.client.onMessage spell decodeIpc f, wire := rest } := by
  have hpaired := h.paired ho
  have hglued := h.glued ho
  rw [hw] at hpaired hglued
  have hf : ∀ r, f = .text r → r.Known s.requests := h.wire f (hw ▸ List.mem_cons_self)
  have hslot : (s.client.onMessage spell decodeIpc f).awaitingBin =
      slot spell s.client.awaitingBin f := Client.awaitingBin_onMessage f
  exact
    { client := h.client.onMessage hd h.awaiting hf hpaired.1
      awaiting := fun a ha => by
        rw [hslot] at ha
        cases f with
        | malformed => exact h.awaiting a ha
        | binary b => cases ha
        | text r =>
          rw [slot] at ha
          split at ha
          · rename_i hop
            cases ha
            obtain ⟨i, hi⟩ := Option.ne_none_iff_exists'.mp ((hf r rfl).2 hop)
            exact ⟨i, (hf r rfl).1 i hi, hi, by rw [hi, keyOf]⟩
          · cases ha
      wire := fun f' hf' => h.wire f' (hw ▸ List.mem_cons_of_mem f hf')
      inbox := h.inbox
      tasks := h.tasks
      locked := h.locked
      glued := fun _ => by
        rw [hslot]
        exact hglued
      paired := fun _ => by
        rw [hslot]
        exact hpaired.2 }

theorem close : Sound spell decodeIpc { s with opened := false, client := s.client.failAll } :=
  { h with client := h.client.failAll, glued := nofun, paired := nofun }

theorem disconnect : Sound spell decodeIpc
    { s with opened := false, client := { s.client.failAll with awaitingBin := none } } :=
  { h with
    client := h.client.failAll.slotted none
    awaiting := nofun
    glued := nofun
    paired := nofun }

/-- **A step keeps the invariant**, while the ids differ as strings. -/
theorem step (hd : (s.requests.map (RequestId.key spell)).Nodup)
    (hs : Step spell decodeIpc s s') : Sound spell decodeIpc s' := by
  cases hs with
  | request i _ => exact h.request i
  | dispatch hi => exact h.dispatch hi
  | reply r ht => exact h.goto ht nofun (h.locked.quiet ht rfl)
  | @acquire t rid r ht hl =>
    refine h.goto ht nofun (.goto ht (fun _ => rfl) fun u l _ hu hin => ?_)
    have hheld := h.locked u l hu hin
    rw [hl] at hheld
    cases hheld
  | sendJson ht hf => exact h.sendJson ht hf
  | sendMeta ht hm => exact h.sendMeta ht hm
  | sendPayload ht => exact h.sendPayload ht
  | raise ht hk => exact h.goto ht nofun (h.locked.leave ht hk rfl)
  | @finish t k ht =>
    refine h.goto ht nofun ?_
    split
    · rename_i hk
      exact h.locked.leave ht hk rfl
    · exact h.locked.quiet ht rfl
  | protocolError fields hl => exact h.protocolError fields hl
  | deliver ho hw => exact h.deliver hd ho hw
  | close => exact h.close
  | disconnect => exact h.disconnect

end Sound

/-- Requests are never forgotten. -/
theorem Step.requests_prefix (hs : Step spell decodeIpc s s') : s.requests <+: s'.requests := by
  cases hs with
  | request i _ => exact List.prefix_append _ _
  | _ => exact List.prefix_refl _

/-- **Every reachable state is sound**, if the ids of its requests differ as strings. -/
theorem sound_of_reachable (hs : Reachable spell decodeIpc s)
    (hd : (s.requests.map (RequestId.key spell)).Nodup) : Sound spell decodeIpc s := by
  induction hs with
  | init => exact sound_init
  | step _ hstep ih =>
    have hbefore := hd.sublist (hstep.requests_prefix.map _).sublist
    exact (ih hbefore).step hbefore hstep

/-- **Responses reach their own request.**  In every run whose ids differ as strings a promise
resolves at most once, with a text frame that carries the id of its request, and what it gets of a
binary frame is the payload that the handler of this request sent behind this text frame. -/
theorem responses_reach_requests (hs : Reachable spell decodeIpc s)
    (hd : (s.requests.map (RequestId.key spell)).Nodup) :
    (s.client.settled.map Prod.fst).Nodup ∧
      ∀ e ∈ s.client.settled, ∃ i, s.requests[e.1]? = some i ∧ Answers decodeIpc s.served i e.2 :=
  ⟨(sound_of_reachable hs hd).client.once, (sound_of_reachable hs hd).client.answered⟩

/-- Two requests, the first of which fails between its two frames while the second is answered. -/
theorem responses_reach_requests_failing : ∃ s : Conn Nat Unit Nat Nat,
    s.requests = [.str "a", .str "b"] ∧
      s.client.settled = [(1, ⟨⟨some (.str "b"), .exported, ()⟩, none, some 9⟩),
        (0, ⟨⟨some (.str "a"), .error, ()⟩, none, none⟩)] ∧
      (s.client.settled.map Prod.fst).Nodup ∧
      ∀ e ∈ s.client.settled, ∃ i, s.requests[e.1]? = some i ∧ Answers some s.served i e.2 := by
  have hinit : Reachable toString some ({} : Conn Nat Unit Nat Nat) := .init
  have hsent := (hinit.step (.request (.str "a") rfl)).step (.request (.str "b") rfl)
  have hfailed := ((((((hsent.step (.dispatch rfl)).step (.dispatch rfl)).step
    (.reply (.result () 7) (t := 0) rfl)).step (.acquire (t := 0) rfl rfl)).step
    (.sendMeta (t := 0) rfl rfl)).step (.raise (t := 0) rfl rfl))
  have hserved := ((((hfailed.step (.reply (.export () 9) (t := 1) rfl)).step
    (.acquire (t := 1) rfl rfl)).step (.sendMeta (t := 1) rfl rfl)).step
    (.sendPayload (t := 1) rfl))
  have herror := ((hserved.step (.reply (.json .error rfl () true) (t := 0) rfl)).step
    (.acquire (t := 0) rfl rfl)).step (.sendJson (t := 0) rfl rfl)
  have hdone := (((herror.step (.deliver rfl rfl)).step (.deliver rfl rfl)).step
    (.deliver rfl rfl)).step (.deliver rfl rfl)
  exact ⟨_, rfl, rfl, responses_reach_requests hdone (by decide)⟩

/-- **The number 1 and the string "1" are different ids with one key**: the promise of the second
request gets the text frame and the payload of the first. -/
theorem string_id_answered_by_number : ¬ ∀ s : Conn Nat Unit Nat Nat,
    Reachable toString some s → s.requests.Nodup →
      ∀ e ∈ s.client.settled, ∃ i, s.requests[e.1]? = some i ∧ Answers some s.served i e.2 := by
  intro hall
  have hinit : Reachable toString some ({} : Conn Nat Unit Nat Nat) := .init
  have hsent := (hinit.step (.request (.num 1) rfl)).step (.request (.str "1") rfl)
  have hserved := ((((hsent.step (.dispatch rfl)).step (.reply (.export () 9) (t := 0) rfl)).step
    (.acquire (t := 0) rfl rfl)).step (.sendMeta (t := 0) rfl rfl)).step
    (.sendPayload (t := 0) rfl)
  have hdone := (hserved.step (.deliver rfl rfl)).step (.deliver rfl rfl)
  obtain ⟨i, hi, hans⟩ := hall _ hdone (by decide) (1, ⟨⟨some (.num 1), .exported, ()⟩, none, some 9⟩)
    (List.mem_singleton_self _)
  cases hi
  cases hans.id

end Sound

end Ws

end RyuDB
