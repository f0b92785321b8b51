/-
# Cancelling requests

The registry `_pending` is keyed by the id that the client chose: a cancel names ids, and sets the events of
the requests behind them.  An id that is in flight twice takes the place of the first one there, and whoever
is through first removes it.

* `Step.known`: whoever is registered is in flight, and whose event is set was asked for.
* `dropped_before_start`: a request that is cancelled before its thread has looked at the event never runs.
* `cancel_exact`: with ids that are not in flight twice, a cancel reaches the request it names and no other.

The registry says less than one would like.  It is keyed by the id, so of two requests with one id
only the later one can be cancelled, and when the earlier one is through it removes the entry of the
other.  That is why `cancel_exact` asks that no id is in flight twice, a promise of the client that
the server does not check, while the other two theorems ask for nothing.
-/
import RyuDB.Dispatch

namespace RyuDB

namespace Dispatch

variable {n : Nat} {s s' : Pool} {m : Move}

/-! ## 1. The registry -/

theorem mark_conn (rs : List Nat) (r : Nat) : (s.mark rs r).conn = (s.item r).conn := by
  unfold Pool.mark
  split_ifs <;> rfl

theorem mark_rid (rs : List Nat) (r : Nat) : (s.mark rs r).rid = (s.item r).rid := by
  unfold Pool.mark
  split_ifs <;> rfl

theorem mark_task (rs : List Nat) (r : Nat) : (s.mark rs r).task = (s.item r).task := by
  unfold Pool.mark
  split_ifs <;> rfl

theorem mark_event (rs : List Nat) (r : Nat) :
    (s.mark rs r).event = true ↔ (s.item r).event = true ∨ r ∈ rs := by
  unfold Pool.mark
  split_ifs with h
  · simp [h]
  · simp [h]

theorem abort_same (it : Item) (c : Nat) : (Pool.Item.abort it c).conn = it.conn ∧
    (Pool.Item.abort it c).rid = it.rid ∧ (Pool.Item.abort it c).event = it.event ∧
    (Pool.Item.abort it c).task = it.task := by
  unfold Pool.Item.abort
  split_ifs <;> exact ⟨rfl, rfl, rfl, rfl⟩

/-- The requests a cancel reaches are the entries of the ids it names. -/
theorem mem_behind {c r : Nat} {targets : List String} :
    r ∈ s.behind c targets ↔ ∃ t ∈ targets, (s.pending c).get? t = some r := List.mem_filterMap

theorem mem_cancelPending {c : Nat} {targets : List String} {t : String} :
    t ∈ (s.cancelPending c targets).1 ↔ t ∈ targets ∧ ∃ r, (s.pending c).get? t = some r := by
  rw [Pool.cancelPending, List.partition_eq_filter_filter, List.mem_filter, Option.isSome_iff_exists]

/-- An entry after a registration: the new one, or what was there. -/
theorem get?_registerPending {pending : Nat → Dict String Nat} {c r d : Nat} {rid : Option String} {t : String} :
    (Pool.registerPending pending c rid r d).get? t =
      if d = c ∧ rid = some t then some r else (pending d).get? t := by
  cases rid with
  | none => simp [Pool.registerPending]
  | some u =>
    change (Function.update pending c ((pending c).set u r) d).get? t = _
    by_cases hd : d = c
    · subst hd
      rw [Function.update_self, Dict.get?_set]
      simp [eq_comm]
    · rw [Function.update_of_ne hd, if_neg fun h => hd h.1]

/-- An entry after the end of a request: gone, or what was there. -/
theorem get?_unregisterPending {pending : Nat → Dict String Nat} {c d : Nat} {rid : Option String} {t : String} :
    (Pool.unregisterPending pending c rid d).get? t =
      if d = c ∧ rid = some t then none else (pending d).get? t := by
  cases rid with
  | none => simp [Pool.unregisterPending]
  | some u =>
    change (Function.update pending c ((pending c).erase u) d).get? t = _
    by_cases hd : d = c
    · subst hd
      rw [Function.update_self, Dict.get?_erase]
      simp [eq_comm]
    · rw [Function.update_of_ne hd, if_neg fun h => hd h.1]

/-- The request is one of the connection with this id, and `_cancellable` has not unregistered it. -/
def InFlight (s : Pool) (c : Nat) (t : String) (r : Nat) : Prop :=
  r < s.count ∧ (s.item r).conn = c ∧ (s.item r).rid = some t ∧ (s.item r).task.registered = true

/-- Whoever is registered is in flight, and whose event is set was asked for. -/
structure Known (s : Pool) : Prop where
  entry : ∀ c t r, (s.pending c).get? t = some r → InFlight s c t r
  told : ∀ r < s.count, (s.item r).event = true →
    (s.item r).conn ∈ s.closed ∨ ∃ t, (s.item r).rid = some t ∧ ((s.item r).conn, t) ∈ s.asked
  framed : ∀ r, (r, .cancelled) ∈ s.sent → ∃ t, (s.item r).rid = some t ∧ ((s.item r).conn, t) ∈ s.asked

theorem known_init : Known Pool.init := by
  refine ⟨fun c t r h => ?_, fun r hr => ?_, fun r hs => ?_⟩
  · cases h
  · cases hr
  · cases hs

/-- A request goes on, and stays in the registry as long as it is registered. -/
theorem Known.put {s' : Pool} {r : Nat} {it : Item} (h : Known s) (hcount : s'.count = s.count)
    (hitem : s'.item = (s.put r it).item) (hconn : it.conn = (s.item r).conn) (hrid : it.rid = (s.item r).rid)
    (hevent : it.event = (s.item r).event) (hclosed : s'.closed = s.closed) (hasked : s'.asked = s.asked)
    (hpending : ∀ c t r', (s'.pending c).get? t = some r' → (s.pending c).get? t = some r' ∧
      (r' = r → it.task.registered = true))
    (hsent : ∀ r', (r', .cancelled) ∈ s'.sent → (r', .cancelled) ∈ s.sent ∨
      r' = r ∧ r < s.count ∧ (s.item r).event = true ∧ (s.item r).conn ∉ s.closed) : Known s' := by
  have hsame : ∀ r', (s'.item r').conn = (s.item r').conn ∧ (s'.item r').rid = (s.item r').rid ∧
      (s'.item r').event = (s.item r').event := by
    intro r'
    rw [hitem, put_item]
    split_ifs with hrr
    · rw [hrr]
      exact ⟨hconn, hrid, hevent⟩
    · exact ⟨rfl, rfl, rfl⟩
  refine ⟨fun c t r' hget => ?_, fun r' hr' hev => ?_, fun r' hs => ?_⟩
  · obtain ⟨hold, hreg⟩ := hpending c t r' hget
    obtain ⟨hr', hc, ht, htask⟩ := h.entry c t r' hold
    refine ⟨hcount ▸ hr', (hsame r').1.trans hc, (hsame r').2.1.trans ht, ?_⟩
    rw [hitem, put_item]
    split_ifs with hrr
    · exact hreg hrr
    · exact htask
  · rw [(hsame r').1, (hsame r').2.1, hclosed, hasked]
    exact h.told r' (hcount ▸ hr') ((hsame r').2.2 ▸ hev)
  · rw [(hsame r').1, (hsame r').2.1, hasked]
    rcases hsent r' hs with hs | ⟨rfl, hr, hev, hopen⟩
    · exact h.framed r' hs
    · exact (h.told r' hr hev).resolve_left hopen

/-- A new request takes over the entry of its id. -/
theorem Known.submit (h : Known s) (hframes : ∀ r k, (r, k) ∈ s.sent → r < s.count) (c : Nat)
    (rid : Option String) : Known (s.submit c rid) := by
  have hold : ∀ r < s.count, (s.submit c rid).item r = s.item r := fun r hr =>
    Function.update_of_ne hr.ne _ _
  have hnew : (s.submit c rid).item s.count = ⟨c, rid, false, .queued, .pending, .awaiting⟩ :=
    Function.update_self ..
  refine ⟨fun d t r hget => ?_, fun r hr hev => ?_, fun r hs => ?_⟩
  · change (Pool.registerPending s.pending c rid s.count d).get? t = some r at hget
    rw [get?_registerPending] at hget
    split_ifs at hget with hkey
    · cases hget
      refine ⟨Nat.lt_succ_self _, ?_, ?_, ?_⟩
      · rw [hnew]
        exact hkey.1.symm
      · rw [hnew]
        exact hkey.2
      · rw [hnew]
        rfl
    · obtain ⟨hr, hrest⟩ := h.entry d t r hget
      rw [InFlight, hold r hr]
      exact ⟨Nat.lt_succ_of_lt hr, hrest⟩
  · rcases Nat.lt_succ_iff_lt_or_eq.mp hr with hr | rfl
    · rw [hold r hr] at hev ⊢
      exact h.told r hr hev
    · rw [hnew] at hev
      cases hev
  · rw [hold r (hframes r _ hs)]
    exact h.framed r hs

/-- A cancel only sets events of its own connection, whose ids it names. -/
theorem Known.cancel (h : Known s) (c : Nat) (targets : List String) : Known (s.cancel c targets) := by
  have hasked : ∀ x ∈ s.asked, x ∈ (s.cancel c targets).asked := fun x hx => List.mem_append_left _ hx
  refine ⟨fun d t r hget => ?_, fun r hr hev => ?_, fun r hs => ?_⟩
  · obtain ⟨hr, hc, ht, htask⟩ := h.entry d t r hget
    exact ⟨hr, (mark_conn _ r).trans hc, (mark_rid _ r).trans ht, (congrArg _ (mark_task _ r)).trans htask⟩
  · change (s.mark _ r).conn ∈ s.closed ∨ ∃ t, (s.mark _ r).rid = some t ∧ ((s.mark _ r).conn, t) ∈ _
    rw [mark_conn, mark_rid]
    rcases (mark_event _ r).mp hev with hev | hmem
    · rcases h.told r hr hev with hclosed | ⟨t, ht, hx⟩
      · exact Or.inl hclosed
      · exact Or.inr ⟨t, ht, hasked _ hx⟩
    · obtain ⟨t, ht, hget⟩ := mem_behind.mp hmem
      obtain ⟨-, hc, hrid, -⟩ := h.entry c t r hget
      refine Or.inr ⟨t, hrid, List.mem_append_right _ (List.mem_map.mpr ⟨t, ?_, by rw [hc]⟩)⟩
      exact (mem_cancelPending.mp ht).1
  · obtain ⟨t, ht, hx⟩ := h.framed r hs
    exact ⟨t, (mark_rid _ r).trans ht, hasked _ ((mark_conn _ r).symm ▸ hx)⟩

/-- A connection that goes away loses its entries, and its events are set. -/
theorem Known.disconnect (h : Known s) (c : Nat) : Known (s.disconnect c) := by
  have hsame : ∀ r, ((s.disconnect c).item r).conn = (s.item r).conn ∧
      ((s.disconnect c).item r).rid = (s.item r).rid ∧ ((s.disconnect c).item r).task = (s.item r).task := by
    intro r
    obtain ⟨hconn, hrid, -, htask⟩ := abort_same (s.mark (s.behind c (s.pending c).keys) r) c
    exact ⟨hconn.trans (mark_conn _ r), hrid.trans (mark_rid _ r), htask.trans (mark_task _ r)⟩
  refine ⟨fun d t r hget => ?_, fun r hr hev => ?_, fun r hs => ?_⟩
  · change (Function.update s.pending c ∅ d).get? t = some r at hget
    rw [Function.update_apply] at hget
    split_ifs at hget with hd
    · cases hget
    · obtain ⟨hr, hc, ht, htask⟩ := h.entry d t r hget
      exact ⟨hr, (hsame r).1.trans hc, (hsame r).2.1.trans ht, (congrArg _ (hsame r).2.2).trans htask⟩
  · rw [(hsame r).1, (hsame r).2.1]
    change (Pool.Item.abort _ c).event = true at hev
    rw [(abort_same _ c).2.2.1] at hev
    rcases (mark_event _ r).mp hev with hev | hmem
    · exact (h.told r hr hev).imp_left fun hx => List.mem_cons_of_mem c hx
    · obtain ⟨t, ht, hget⟩ := mem_behind.mp hmem
      rw [(h.entry c t r hget).2.1]
      exact Or.inl List.mem_cons_self
  · rw [(hsame r).1, (hsame r).2.1]
    exact h.framed r hs

/-- An entry that is still there when `r` has unregistered belongs to another request. -/
theorem Known.unregistered (h : Known s) {r c r' : Nat} {t : String}
    (hget : (Pool.unregisterPending s.pending (s.item r).conn (s.item r).rid c).get? t = some r') :
    (s.pending c).get? t = some r' ∧ r' ≠ r := by
  rw [get?_unregisterPending] at hget
  split_ifs at hget with hkey
  obtain ⟨-, hc, ht, -⟩ := h.entry c t r' hget
  exact ⟨hget, fun hrr => hkey ⟨hrr ▸ hc.symm, hrr ▸ ht⟩⟩

/-- A `cancelled` frame to an open connection tells that the event was set. -/
theorem event_of_cancelled (hsound : Sound n s) {r : Nat} (hr : r < s.count)
    (htask : (s.item r).task = .sending .cancelled) (hopen : (s.item r).conn ∉ s.closed) :
    (s.item r).event = true := by
  have hsane := hsound.answered.sane r hr
  cases hfut : (s.item r).fut with
  | pending => exact absurd hfut (hsane.waits (by simp [htask]))
  | cancelled => exact absurd (hsound.answered.cancelled r hr hfut) hopen
  | done o =>
    refine hsane.told o (Or.inr (hsane.done o hfut)) ?_
    have := hsane.frame _ o htask hfut
    cases o <;> simp_all [Outcome.reply]

/-- **The registry is right after each move.** -/
theorem Step.known (hs : Step n s m s') (hsound : Sound n s) (h : Known s) : Known s' := by
  have hsame : ∀ r c t r', (s.pending c).get? t = some r' → (s.pending c).get? t = some r' ∧
      (r' = r → (s.item r).task.registered = true) :=
    fun r c t r' hget => ⟨hget, fun hrr => hrr ▸ (h.entry c t r' hget).2.2.2⟩
  cases hs with
  | submit hopen => exact h.submit (fun r k hs => (hsound.answered.frames r k hs).1) _ _
  | cancel hopen => exact h.cancel _ _
  | disconnect hopen => exact h.disconnect _
  | @take w r q hw hidle hq =>
    exact h.put rfl rfl rfl rfl rfl rfl rfl (hsame r) fun _ => Or.inl
  | @drop r w hr hwork hev =>
    exact h.put rfl rfl rfl rfl rfl rfl rfl (hsame r) fun _ => Or.inl
  | @pass r w hr hwork hev =>
    exact h.put rfl rfl rfl rfl rfl rfl rfl (hsame r) fun _ => Or.inl
  | @start r w hr hwork =>
    exact h.put rfl rfl rfl rfl rfl rfl rfl (hsame r) fun _ => Or.inl
  | @finish r o w hr hwork ho hev =>
    exact h.put rfl rfl rfl rfl rfl rfl rfl (hsame r) fun _ => Or.inl
  | @resolve r o hr hwork =>
    exact h.put rfl rfl rfl rfl rfl rfl rfl (hsame r) fun _ => Or.inl
  | @wakeDone r o hr htask hfut =>
    refine h.put rfl rfl rfl rfl rfl rfl rfl (fun c t r' hget => ?_) fun r' hs => Or.inl hs
    change ((if o.reply = .answer then _ else s.pending) c).get? t = some r' at hget
    split_ifs at hget with ho
    · obtain ⟨hget, hne⟩ := h.unregistered hget
      exact ⟨hget, fun hrr => absurd hrr hne⟩
    · exact ⟨hget, fun _ => by simp [Task.registered, ho]⟩
  | @wakeCancelled r hr htask hfut =>
    exact h.put rfl rfl rfl rfl rfl rfl rfl (fun c t r' hget => ⟨hget, fun _ => rfl⟩) fun r' hs => Or.inl hs
  | @send r k hr htask =>
    refine h.put rfl rfl rfl rfl rfl rfl rfl (fun c t r' hget => ?_) fun r' hs => ?_
    · change ((if k = .answer then s.pending else _) c).get? t = some r' at hget
      split_ifs at hget with hk
      · refine ⟨hget, fun hrr => ?_⟩
        have hreg := (h.entry c t r' hget).2.2.2
        rw [hrr, htask, hk] at hreg
        cases hreg
      · obtain ⟨hget, hne⟩ := h.unregistered hget
        exact ⟨hget, fun hrr => absurd hrr hne⟩
    · change (r', Reply.cancelled) ∈ (if (s.item r).conn ∈ s.closed then s.sent else s.sent ++ [(r, k)]) at hs
      split_ifs at hs with hopen
      · exact Or.inl hs
      · rcases List.mem_append.mp hs with hs | hs
        · exact Or.inl hs
        · obtain ⟨rfl, rfl⟩ := Prod.mk.inj (List.mem_singleton.mp hs)
          exact Or.inr ⟨rfl, hr, event_of_cancelled hsound hr htask hopen, hopen⟩

/-! ## 2. Ids that are in flight once -/

instance (s : Pool) (c : Nat) (t : String) (r : Nat) : Decidable (InFlight s c t r) :=
  inferInstanceAs (Decidable (_ ∧ _))

/-- A client does not use an id of a request that is in flight. -/
def Fresh (s : Pool) : Move → Prop
  | .submit c (some t) => ∀ r < s.count, ¬InFlight s c t r
  | _ => True

instance (s : Pool) : DecidablePred (Fresh s)
  | .submit _ (some _) => inferInstanceAs (Decidable (∀ r < s.count, _))
  | .submit _ none => .isTrue trivial
  | .cancel _ _ => .isTrue trivial
  | .disconnect _ => .isTrue trivial
  | .take _ => .isTrue trivial
  | .check _ => .isTrue trivial
  | .call _ => .isTrue trivial
  | .finish _ _ => .isTrue trivial
  | .resolve _ => .isTrue trivial
  | .wake _ => .isTrue trivial
  | .send _ => .isTrue trivial

/-- Who is in flight is registered. -/
def Registered (s : Pool) : Prop :=
  ∀ c ∉ s.closed, ∀ t r, InFlight s c t r → (s.pending c).get? t = some r

/-- Two requests that are registered have two ids. -/
theorem Registered.one (h : Registered s) {c : Nat} (hc : c ∉ s.closed) {t : String} {r r' : Nat}
    (hr : InFlight s c t r) (hr' : InFlight s c t r') : r = r' :=
  Option.some.inj ((h c hc t r hr).symm.trans (h c hc t r' hr'))

/-- A request goes on; if its task unregisters, others keep their entries. -/
theorem Registered.put {s' : Pool} {r : Nat} {it : Item} (h : Registered s) (hcount : s'.count = s.count)
    (hitem : s'.item = (s.put r it).item) (hclosed : s'.closed = s.closed) (hr : r < s.count)
    (hconn : it.conn = (s.item r).conn) (hrid : it.rid = (s.item r).rid)
    (htask : it.task.registered = true → (s.item r).task.registered = true)
    (hpending : s'.pending = s.pending ∨ it.task.registered = false ∧ (s.item r).task.registered = true ∧
      s'.pending = Pool.unregisterPending s.pending (s.item r).conn (s.item r).rid) : Registered s' := by
  intro c hc t r' hin
  rw [hclosed] at hc
  obtain ⟨hr', hcr, ht, hreg⟩ := hin
  rw [hcount] at hr'
  rw [hitem, put_item] at hcr ht hreg
  have hold : InFlight s c t r' := by
    split_ifs at hcr ht hreg with hrr
    · rw [InFlight, hrr]
      exact ⟨hr, hconn ▸ hcr, hrid ▸ ht, htask hreg⟩
    · exact ⟨hr', hcr, ht, hreg⟩
  have hget := h c hc t r' hold
  rcases hpending with hpending | ⟨hlost, hreg', hpending⟩
  · rw [hpending]
    exact hget
  · rw [hpending, get?_unregisterPending, if_neg]
    · exact hget
    · -- the entry of this id is that of `r`, which is not registered any more
      rintro ⟨rfl, ht⟩
      rw [if_pos (h.one hc hold ⟨hr, rfl, ht, hreg'⟩), hlost] at hreg
      cases hreg

/-- **Fresh ids stay registered after each move.** -/
theorem Step.registered (hs : Step n s m s') (hheld : Held n s) (hfresh : Fresh s m) (h : Registered s) :
    Registered s' := by
  cases hs with
  | @submit c rid hopen =>
    intro d hd t r hin
    change (Pool.registerPending s.pending c rid s.count d).get? t = some r
    rw [get?_registerPending]
    rcases Nat.lt_succ_iff_lt_or_eq.mp hin.1 with hr | rfl
    · have hitem : (s.submit c rid).item r = s.item r := Function.update_of_ne hr.ne _ _
      have hold : InFlight s d t r := by
        have := hin.2
        rw [hitem] at this
        exact ⟨hr, this⟩
      rw [if_neg]
      · exact h d hd t r hold
      · rintro ⟨rfl, rfl⟩
        exact hfresh r hr hold
    · have hitem : (s.submit c rid).item s.count = ⟨c, rid, false, .queued, .pending, .awaiting⟩ :=
        Function.update_self ..
      have := hin.2
      rw [hitem] at this
      exact if_pos ⟨this.1.symm, this.2.1⟩
  | @cancel c targets hopen =>
    intro d hd t r hin
    obtain ⟨hr, hc, ht, hreg⟩ := hin
    exact h d hd t r ⟨hr, (mark_conn _ r).symm.trans hc, (mark_rid _ r).symm.trans ht,
      (congrArg _ (mark_task _ r)).symm.trans hreg⟩
  | @disconnect c hopen =>
    intro d hd t r hin
    obtain ⟨hdc, hd⟩ := not_or.mp (fun hmem => hd (List.mem_cons.mpr hmem))
    obtain ⟨hr, hc, ht, hreg⟩ := hin
    obtain ⟨hconn, hrid, -, htask⟩ := abort_same (s.mark (s.behind c (s.pending c).keys) r) c
    change (Function.update s.pending c ∅ d).get? t = some r
    rw [Function.update_of_ne hdc]
    exact h d hd t r ⟨hr, (hconn.trans (mark_conn _ r)).symm.trans hc,
      (hrid.trans (mark_rid _ r)).symm.trans ht, (congrArg _ (htask.trans (mark_task _ r))).symm.trans hreg⟩
  | @take w r q hw hidle hq =>
    exact h.put rfl rfl rfl ((hheld.mem_queue r).mp (hq ▸ List.mem_cons_self)).1 rfl rfl id (.inl rfl)
  | drop hr hwork hev => exact h.put rfl rfl rfl hr rfl rfl id (.inl rfl)
  | pass hr hwork hev => exact h.put rfl rfl rfl hr rfl rfl id (.inl rfl)
  | start hr hwork => exact h.put rfl rfl rfl hr rfl rfl id (.inl rfl)
  | finish hr hwork ho hev => exact h.put rfl rfl rfl hr rfl rfl id (.inl rfl)
  | resolve hr hwork => exact h.put rfl rfl rfl hr rfl rfl id (.inl rfl)
  | @wakeDone r o hr htask hfut =>
    have hreg : (s.item r).task.registered = true := by rw [htask, Task.registered]
    refine h.put rfl rfl rfl hr rfl rfl (fun _ => hreg) ?_
    by_cases ho : o.reply = .answer
    · exact Or.inr ⟨by simp [Task.registered, ho], hreg, if_pos ho⟩
    · exact Or.inl (if_neg ho)
  | wakeCancelled hr htask hfut =>
    exact h.put rfl rfl rfl hr rfl rfl (fun _ => by rw [htask, Task.registered]) (.inl rfl)
  | @send r k hr htask =>
    refine h.put rfl rfl rfl hr rfl rfl (fun hreg => absurd hreg (by simp [Task.registered])) ?_
    by_cases hk : k = .answer
    · exact Or.inl (if_pos hk)
    · exact Or.inr ⟨rfl, by simp [htask, Task.registered, hk], if_neg hk⟩

/-! ## 3. Every run -/

theorem known_after (n : Nat) (l : List Move) : Known (after n l) :=
  (run_invariant (P := fun s => Sound n s ∧ Known s)
    (fun _ _ _ h hs => ⟨hs.sound h.1, hs.known h.1 h.2⟩) ⟨sound_init n, known_init⟩ l).2

/-- Its thread has not let it pass, and its event is set. -/
def Doomed (r : Nat) (s : Pool) : Prop :=
  r < s.count ∧ (s.item r).event = true ∧ (works s r).passed = false

/-- Who is cancelled before the thread has looked stays so until it has been dropped. -/
theorem Step.doomed {r : Nat} (hs : Step n s m s') (h : Doomed r s) : Doomed r s' := by
  obtain ⟨hr, hev, hpassed⟩ := h
  have hput : ∀ r' it, (r' = r → it.event = true ∧ it.work.passed = false) →
      ((s.put r' it).item r).event = true ∧ ((s.put r' it).item r).work.passed = false := by
    intro r' it hit
    rw [put_item]
    split_ifs with hrr
    · exact hit hrr.symm
    · exact ⟨hev, hpassed⟩
  have hnot : ∀ r' x, (s.item r').work = x → x.passed = true → r' ≠ r := by
    rintro r' x hwork hx rfl
    rw [works, hwork, hx] at hpassed
    cases hpassed
  cases hs with
  | @submit c rid hopen =>
    have hitem : (s.submit c rid).item r = s.item r := Function.update_of_ne hr.ne _ _
    exact ⟨Nat.lt_succ_of_lt hr, by rw [hitem]; exact hev, by rw [works, hitem]; exact hpassed⟩
  | @cancel c targets hopen =>
    exact ⟨hr, (mark_event _ r).mpr (Or.inl hev), (congrArg _ (works_mark _ r)).trans hpassed⟩
  | @disconnect c hopen =>
    refine ⟨hr, ?_, (congrArg _ ((works_abort _ _).trans (works_mark _ r))).trans hpassed⟩
    exact (abort_same _ c).2.2.1.trans ((mark_event _ r).mpr (Or.inl hev))
  | @take w r' q hw hidle hq =>
    exact ⟨hr, hput r' _ fun hrr => ⟨hrr ▸ hev, rfl⟩⟩
  | @drop r' w hr' hwork hev' =>
    exact ⟨hr, hput r' _ fun hrr => ⟨hrr ▸ hev, rfl⟩⟩
  | @pass r' w hr' hwork hev' =>
    -- the thread looks, and the event is set
    refine ⟨hr, hput r' _ fun hrr => ?_⟩
    rw [hrr, hev] at hev'
    cases hev'
  | @start r' w hr' hwork =>
    exact ⟨hr, hput r' _ fun hrr => absurd hrr (hnot r' _ hwork rfl)⟩
  | @finish r' o w hr' hwork ho hev' =>
    exact ⟨hr, hput r' _ fun hrr => absurd hrr (hnot r' _ hwork rfl)⟩
  | @resolve r' o hr' hwork =>
    refine ⟨hr, hput r' _ fun hrr => ⟨hrr ▸ hev, ?_⟩⟩
    rw [works, ← hrr, hwork] at hpassed
    exact hpassed
  | @wakeDone r' o hr' htask hfut =>
    exact ⟨hr, hput r' _ fun hrr => hrr ▸ ⟨hev, hpassed⟩⟩
  | @wakeCancelled r' hr' htask hfut =>
    exact ⟨hr, hput r' _ fun hrr => hrr ▸ ⟨hev, hpassed⟩⟩
  | @send r' k hr' htask =>
    exact ⟨hr, hput r' _ fun hrr => hrr ▸ ⟨hev, hpassed⟩⟩

/-- **A request that is cancelled before its thread looks at the event never runs**, and the only frame for it
is `cancelled`.  An event that is set between the look and the call comes too late for this. -/
theorem dropped_before_start (n : Nat) (l l' : List Move) {r : Nat} (hr : r < (after n l).count)
    (hev : ((after n l).item r).event = true) (hnot : ((after n l).item r).work.passed = false) :
    r ∉ (after n (l ++ l')).started ∧ ∀ k, (r, k) ∈ (after n (l ++ l')).sent → k = .cancelled := by
  have hdoomed : Doomed r (after n (l ++ l')) := by
    rw [after, Run.run_append]
    exact run_invariant (fun _ _ _ h hs => hs.doomed h) ⟨hr, hev, hnot⟩ l'
  obtain ⟨hr', -, hpassed⟩ := hdoomed
  have hs := sound_after n (l ++ l')
  have hbegun : (works (after n (l ++ l')) r).begun = false := by
    cases hb : (works (after n (l ++ l')) r).begun with
    | false => rfl
    | true => exact (Work.passed_of_begun hb).symm.trans hpassed
  refine ⟨fun hmem => ?_, fun k hsent => ?_⟩
  · rw [((hs.held.mem_started r).mp hmem).2] at hbegun
    cases hbegun
  · obtain ⟨-, -, o, hfut, rfl⟩ := hs.answered.frames r k hsent
    have hwork : works (after n (l ++ l')) r = .ended o := (hs.answered.sane r hr').done o hfut
    rw [hwork, Work.begun, decide_eq_false_iff_not, not_not] at hbegun
    rw [hbegun]
    rfl

/-- The second request of the run is cancelled in the queue. -/
theorem dropped_before_start_second :
    1 ∉ (after 1 cancelSecond).started ∧ ∀ k, (1, k) ∈ (after 1 cancelSecond).sent → k = .cancelled :=
  dropped_before_start 1 (cancelSecond.take 6) (cancelSecond.drop 6) (show 1 < _ by decide +kernel)
    (by decide +kernel) (by decide +kernel)

/-- A cancel between the look and the call does not stop it. -/
example : (after 1 [.submit 0 (some "a"), .take 0, .check 0, .cancel 0 ["a"], .call 0]).started = [0] := by
  decide +kernel

theorem registered_after {n : Nat} {l : List Move} (hl : Run.Along (act n) Fresh Pool.init l) :
    Registered (after n l) := by
  refine (Run.Along.invariant (P := fun s => Held n s ∧ Registered s) (fun s m h hm => ?_)
    ⟨held_init n, fun c hc t r hin => ?_⟩ hl).2
  · unfold act
    cases hstep : step n s m with
    | none => exact h
    | some s' => exact ⟨(Step.of_some hstep).held h.1, (Step.of_some hstep).registered h.1 hm h.2⟩
  · cases hin.1

/-- **A cancel reaches the requests it names and no other**, when no client uses an id of its own that is in
flight.  The targets that are found are those in flight, their events are set and no others; and there is no
frame `cancelled` that the client of the connection has not asked for. -/
theorem cancel_exact {n : Nat} {l : List Move} (hl : Run.Along (act n) Fresh Pool.init l) {c : Nat}
    (hc : c ∉ (after n l).closed) (targets : List String) :
    (∀ t ∈ targets, t ∈ ((after n l).cancelPending c targets).1 ↔ ∃ r, InFlight (after n l) c t r) ∧
    (∀ r, (((after n l).cancel c targets).item r).event = true ↔
      ((after n l).item r).event = true ∨ ∃ t ∈ targets, InFlight (after n l) c t r) ∧
    ∀ r, (r, .cancelled) ∈ (after n l).sent →
      ∃ t, ((after n l).item r).rid = some t ∧ (((after n l).item r).conn, t) ∈ (after n l).asked := by
  have hknown := known_after n l
  have hreg := registered_after hl
  have hentry : ∀ t r, ((after n l).pending c).get? t = some r ↔ InFlight (after n l) c t r :=
    fun t r => ⟨hknown.entry c t r, hreg c hc t r⟩
  refine ⟨fun t ht => ?_, fun r => ?_, hknown.framed⟩
  · rw [mem_cancelPending]
    simp only [ht, true_and, hentry]
  · change ((after n l).mark _ r).event = true ↔ _
    rw [mark_event, mem_behind]
    refine or_congr_right ⟨?_, ?_⟩
    · rintro ⟨t, ht, hget⟩
      exact ⟨t, (mem_cancelPending.mp ht).1, (hentry t r).mp hget⟩
    · rintro ⟨t, ht, hin⟩
      exact ⟨t, mem_cancelPending.mpr ⟨ht, r, (hentry t r).mpr hin⟩, (hentry t r).mpr hin⟩

/-- Two connections have a request of one id, and one of them cancels it. -/
theorem cancel_exact_two :
    ((after 1 [.submit 0 (some "a"), .submit 1 (some "a")]).cancel 1 ["a"]).item 1 =
      ⟨1, some "a", true, .queued, .pending, .awaiting⟩ ∧
    (((after 1 [.submit 0 (some "a"), .submit 1 (some "a")]).cancel 1 ["a"]).item 0).event = false := by
  have h := (cancel_exact (show Run.Along (act 1) Fresh Pool.init [.submit 0 (some "a"), .submit 1 (some "a")] by
    decide +kernel) (show 1 ∉ _ by decide +kernel) ["a"]).2.1 0
  refine ⟨by decide +kernel, Bool.eq_false_iff.mpr fun hev => ?_⟩
  exact absurd (h.mp hev) (by decide +kernel)

/-- With an id in flight twice, a request that is still in the queue is not found. -/
example : ((after 1 [.submit 0 (some "1"), .submit 0 (some "1"), .take 0, .check 0, .call 0,
    .finish 0 .value, .resolve 0, .wake 0]).cancelPending 0 ["1"]).2 = ["1"] := by decide +kernel

end Dispatch

end RyuDB
