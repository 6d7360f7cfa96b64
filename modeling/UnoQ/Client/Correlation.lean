import UnoQ.Client.Retry

/-!
# Response correlation

Message ids wrap at 2^31, so an id identifies an attempt only while no attempt stays
pending that long. In such runs the counter, the `pending` map, the timers and the
`connected` flag agree: every promise still open has the map entry of its own id, and a
closed transport leaves no entry behind.
-/

namespace UnoQ.Client
open Codec Transition History

/-- At a close, every attempt started before has been settled. -/
def Cleared (past : List Happening) : Happening → Prop
  | .closed => ∀ k a, .started k a ∈ past → ∃ via r, .settled k a via r ∈ past
  | _ => True

namespace Calls

/-- No attempt stays pending while 2^31 further ids are allocated. -/
def NoWrap (c d : Calls) : Prop :=
  c.allocated < d.allocated → ∀ a, c.Pending a → d.allocated < (c.attempts a).serial + 2 ^ 31

structure Linked (c : Calls) : Prop where
  msgid : c.msgid = c.allocated % 2 ^ 31
  serial : ∀ a id, (c.attempts a).id = some id →
    id = (c.attempts a).serial % 2 ^ 31 ∧ (c.attempts a).serial ≤ c.allocated
  kept : ∀ a, a < c.nextAttempt → (c.attempts a).settled = none →
    ∃ id, (c.attempts a).id = some id ∧ c.pending.get id = some a
  armed : ∀ a due, (c.attempts a).timer = some due →
    ∃ id, (c.attempts a).id = some id ∧ c.pending.get id = some a

/-- Without a connection nothing is pending. -/
def Quiet (c : Calls) : Prop := c.connected = false → ∀ id, c.pending.get id = none

structure Tied (c : Calls) : Prop where
  inv : c.Inv
  linked : c.Linked
  quiet : c.Quiet
  cleared : Causal Cleared c.log

theorem pending_entry {c : Calls} (hi : c.Inv) (hl : c.Linked) {a : ℕ} (h : c.Pending a) :
    ∃ id, (c.attempts a).id = some id ∧ c.pending.get id = some a := by
  rcases h with ⟨hlt, hs⟩ | ⟨id, hget⟩
  · exact hl.kept a hlt hs
  · exact ⟨id, (hi.mapped id a hget).2.1, hget⟩

theorem pending_id_inj {c : Calls} (hi : c.Inv) (hl : c.Linked) {a b : ℕ} (ha : c.Pending a)
    (hb : c.Pending b) (hid : (c.attempts a).id = (c.attempts b).id) : a = b := by
  obtain ⟨i, hia, hga⟩ := pending_entry hi hl ha
  obtain ⟨j, hjb, hgb⟩ := pending_entry hi hl hb
  have hij : i = j := by
    rw [hia, hjb] at hid
    exact Option.some.inj hid
  rw [hij, hgb] at hga
  exact (Option.some.inj hga).symm

/-! ### What the pieces of a step keep -/

theorem retire_serial (c : Calls) (id a x : ℕ) (via : Option ℕ) (r : Settlement) :
    ((c.retire id a via r).attempts x).serial = (c.attempts x).serial := by
  rw [retire_attempts]
  split
  next h => rw [h]
  next => rfl

theorem linked_retire {c : Calls} (hl : c.Linked) {id a : ℕ} (hget : c.pending.get id = some a)
    (via : Option ℕ) (r : Settlement) : (c.retire id a via r).Linked := by
  -- An entry other than the retired one stays, and so does what leads to it.
  have hother : ∀ x i, x ≠ a → c.pending.get i = some x →
      (c.retire id a via r).pending.get i = some x := by
    intro x i hxa hi
    have hne : id ≠ i := fun h => by
      rw [← h, hget] at hi
      exact hxa (Option.some.inj hi).symm
    exact (InsertMap.get_delete_ne c.pending hne).trans hi
  constructor
  · exact hl.msgid
  · intro x i hx
    rw [retire_id] at hx
    rw [retire_serial]
    exact hl.serial x i hx
  · intro x hx hs
    rw [retire_settled] at hs
    have hxa : x ≠ a := fun h => by
      simp [h] at hs
    rw [if_neg hxa] at hs
    obtain ⟨i, hid, hi⟩ := hl.kept x hx hs
    exact ⟨i, by rw [retire_id, hid], hother x i hxa hi⟩
  · intro x due ht
    rw [retire_attempts] at ht
    have hxa : x ≠ a := fun h => by
      simp [h] at ht
    rw [if_neg hxa] at ht
    obtain ⟨i, hid, hi⟩ := hl.armed x due ht
    exact ⟨i, by rw [retire_id, hid], hother x i hxa hi⟩

theorem quiet_retire {c : Calls} (hq : c.Quiet) (id a : ℕ) (via : Option ℕ) (r : Settlement) :
    (c.retire id a via r).Quiet := by
  intro hconn i
  change (c.pending.delete id).get i = none
  rw [InsertMap.get_delete, hq hconn i]
  split <;> rfl

theorem cleared_retire {c : Calls} (hc : Causal Cleared c.log) (id a : ℕ) (via : Option ℕ)
    (r : Settlement) : Causal Cleared (c.retire id a via r).log := by
  refine causal_append _ hc (fun past ev rest hsplit => ?_)
  have hev : ev ∈ c.settling a via r := by
    rw [hsplit]
    simp
  rw [(mem_settling hev).1]
  trivial

theorem tied_retire {c : Calls} (h : c.Tied) {id a : ℕ} (hget : c.pending.get id = some a)
    {via : Option ℕ} {r : Settlement} (hvia : ∀ m, via = some m → m = id)
    (hnone : via = none → ∃ err, r = .failure err) : (c.retire id a via r).Tied where
  inv := by
    obtain ⟨ha, hid, -⟩ := h.inv.mapped id a hget
    exact inv_retire h.inv ha hid hvia hnone
  linked := linked_retire h.linked hget via r
  quiet := quiet_retire h.quiet id a via r
  cleared := cleared_retire h.cleared id a via r

theorem cleared_launch {c : Calls} (hc : Causal Cleared c.log) {m n k : ℕ}
    {pending : InsertMap ℕ ℕ} {att : Attempt} {ev : Happening} (hl : Launch c pending k att ev) :
    Causal Cleared (c.launch m n pending k att ev).log := by
  have hsplit : (c.launch m n pending k att ev).log =
      (c.log ++ [.started k c.nextAttempt]) ++ [ev] := by
    rw [launch_log]
    simp
  rw [hsplit, causal_snoc, causal_snoc]
  refine ⟨⟨hc, trivial⟩, ?_⟩
  rcases hl.ending with ⟨-, id, -, rfl⟩ | ⟨err, -, rfl⟩
  · trivial
  · trivial

/-- The new id is not that of a pending attempt, whose serial number lies less than 2^31 back. -/
theorem fresh_id {c : Calls} (hi : c.Inv) (hl : c.Linked)
    (hw : ∀ a, c.Pending a → c.allocated + 1 < (c.attempts a).serial + 2 ^ 31) {a id : ℕ}
    (hget : c.pending.get id = some a) : id ≠ nextMsgId c.msgid := by
  obtain ⟨-, hid, -⟩ := hi.mapped id a hget
  obtain ⟨hmod, hle⟩ := hl.serial a id hid
  have hlt := hw a (Or.inr ⟨id, hget⟩)
  rw [nextMsgId_eq_mod, hl.msgid, hmod]
  omega

theorem linked_connected {c : Calls} (hi : c.Inv) (hl : c.Linked) {k : ℕ} {att : Attempt}
    {ev : Happening} (hid : att.id = some (nextMsgId c.msgid)) (hserial : att.serial = c.allocated + 1)
    (hw : ∀ a, c.Pending a → c.allocated + 1 < (c.attempts a).serial + 2 ^ 31) :
    (c.launch (nextMsgId c.msgid) (c.allocated + 1)
      (c.pending.set (nextMsgId c.msgid) c.nextAttempt) k att ev).Linked := by
  have hnewget : (c.pending.set (nextMsgId c.msgid) c.nextAttempt).get (nextMsgId c.msgid) =
      some c.nextAttempt := InsertMap.get_set_self ..
  have holdget : ∀ i x, c.pending.get i = some x →
      (c.pending.set (nextMsgId c.msgid) c.nextAttempt).get i = some x := by
    intro i x hget
    exact (InsertMap.get_set_ne c.pending _ (fresh_id hi hl hw hget).symm).trans hget
  constructor
  · change nextMsgId c.msgid = (c.allocated + 1) % 2 ^ 31
    rw [nextMsgId_eq_mod, hl.msgid]
    omega
  · intro a i ha
    change _ ∧ _ ≤ c.allocated + 1
    rw [launch_attempts] at ha ⊢
    split at ha
    next h =>
      rw [if_pos h, hserial]
      rw [hid] at ha
      cases ha
      rw [nextMsgId_eq_mod, hl.msgid]
      omega
    next h =>
      rw [if_neg h]
      obtain ⟨h1, h2⟩ := hl.serial a i ha
      omega
  · intro a ha hs
    rw [launch_attempts] at hs ⊢
    by_cases h : a = c.nextAttempt
    · rw [if_pos h]
      exact ⟨nextMsgId c.msgid, hid, h ▸ hnewget⟩
    · rw [if_neg h] at hs ⊢
      have ha' : a < c.nextAttempt + 1 := ha
      obtain ⟨i, hi', hget⟩ := hl.kept a (by omega) hs
      exact ⟨i, hi', holdget i a hget⟩
  · intro a due ht
    rw [launch_attempts] at ht ⊢
    by_cases h : a = c.nextAttempt
    · rw [if_pos h]
      exact ⟨nextMsgId c.msgid, hid, h ▸ hnewget⟩
    · rw [if_neg h] at ht ⊢
      obtain ⟨i, hi', hget⟩ := hl.armed a due ht
      exact ⟨i, hi', holdget i a hget⟩

theorem linked_disconnected {c : Calls} (hl : c.Linked) {k : ℕ} {att : Attempt} {ev : Happening}
    (hid : att.id = none) (hs : att.settled ≠ none) (ht : att.timer = none) :
    (c.launch c.msgid c.allocated c.pending k att ev).Linked := by
  constructor
  · exact hl.msgid
  · intro a i ha
    rw [launch_attempts] at ha ⊢
    split at ha
    next =>
      rw [hid] at ha
      contradiction
    next h =>
      rw [if_neg h]
      exact hl.serial a i ha
  · intro a ha hs'
    rw [launch_attempts] at hs' ⊢
    split at hs'
    next => exact absurd hs' hs
    next h =>
      rw [if_neg h]
      have ha' : a < c.nextAttempt + 1 := ha
      exact hl.kept a (by omega) hs'
  · intro a due hd
    rw [launch_attempts] at hd ⊢
    split at hd
    next =>
      rw [ht] at hd
      contradiction
    next h =>
      rw [if_neg h]
      exact hl.armed a due hd

theorem tied_attempt {c : Calls} (h : c.Tied) (mp : Msgpack) {k : ℕ} (hk : k < c.nextCall)
    (hpc : (c.calls k).pc = .unused ∨ (c.calls k).pc = .woken true) (hw : c.NoWrap (c.attempt mp k)) :
    (c.attempt mp k).Tied := by
  have hinv := inv_attempt h.inv mp hk hpc
  cases hconn : c.connected with
  | true =>
    obtain ⟨att, ev, heq, hl, hid, hserial⟩ := attempt_connected mp hconn k
    rw [heq] at hinv hw ⊢
    have hw' := hw (Nat.lt_succ_self c.allocated)
    refine ⟨hinv, linked_connected h.inv h.linked hid hserial hw', ?_, cleared_launch h.cleared hl⟩
    intro hdown
    exact absurd (hconn.symm.trans hdown) (by simp)
  | false =>
    obtain ⟨att, ev, heq, hl, hid, hs, ht⟩ := attempt_disconnected mp hconn k
    rw [heq] at hinv ⊢
    exact ⟨hinv, linked_disconnected h.linked hid hs ht, h.quiet, cleared_launch h.cleared hl⟩

theorem Linked.frame {c d : Calls} (hl : c.Linked) (hm : d.msgid = c.msgid)
    (hn : d.allocated = c.allocated) (ha : d.attempts = c.attempts)
    (hnext : d.nextAttempt = c.nextAttempt) (hp : d.pending = c.pending) : d.Linked := by
  constructor
  · rw [hm, hn]
    exact hl.msgid
  · rw [ha, hn]
    exact hl.serial
  · rw [ha, hnext, hp]
    exact hl.kept
  · rw [ha, hp]
    exact hl.armed

theorem tied_setPc {c : Calls} (h : c.Tied) {k : ℕ} {pc : Pc} (hi : (c.setPc k pc).Inv) :
    (c.setPc k pc).Tied :=
  ⟨hi, h.linked.frame rfl rfl rfl rfl rfl, h.quiet, h.cleared⟩

theorem tied_caught {c : Calls} (h : c.Tied) {k : ℕ} {err : BridgeError} (hi : (c.caught k err).Inv) :
    (c.caught k err).Tied := by
  unfold caught at hi ⊢
  dsimp only at hi ⊢
  split at hi
  next h1 =>
    rw [if_pos h1]
    exact tied_setPc h hi
  next h1 =>
    rw [if_neg h1]
    split at hi
    next h2 =>
      rw [if_pos h2]
      exact tied_setPc h hi
    next h2 =>
      rw [if_neg h2]
      exact tied_setPc h hi

/-! ### A transport close -/

theorem rejectAll_entries (l : List (ℕ × ℕ)) : ∀ {c : Calls}, c.Inv → c.Linked →
    Causal Cleared c.log → (l.map Prod.fst).Nodup → (∀ p ∈ l, c.pending.get p.1 = some p.2) →
    (rejectAll l c).Inv ∧ (rejectAll l c).Linked ∧ Causal Cleared (rejectAll l c).log ∧
      ∀ id a, (rejectAll l c).pending.get id = some a →
        c.pending.get id = some a ∧ id ∉ l.map Prod.fst := by
  induction l with
  | nil => exact fun hi hl hc _ _ => ⟨hi, hl, hc, fun _ _ h => ⟨h, by simp⟩⟩
  | cons p rest ih =>
    intro c hi hl hc hn hall
    rw [List.map_cons, List.nodup_cons] at hn
    have hget := hall p List.mem_cons_self
    obtain ⟨ha, hid, -⟩ := hi.mapped p.1 p.2 hget
    obtain ⟨hi', hl', hc', hrest⟩ := ih
      (inv_retire hi ha hid (by simp) (fun _ => ⟨_, rfl⟩))
      (linked_retire hl hget none (.failure (.connection "Socket closed")))
      (cleared_retire hc _ _ _ _) hn.2 (fun q hq => by
        have hne : p.1 ≠ q.1 := fun h => hn.1 (h ▸ List.mem_map_of_mem hq)
        exact (InsertMap.get_delete_ne c.pending hne).trans (hall q (List.mem_cons_of_mem _ hq)))
    refine ⟨hi', hl', hc', fun id a h => ?_⟩
    obtain ⟨hget', hmem⟩ := hrest id a h
    obtain ⟨hne, hget''⟩ := InsertMap.get_delete_eq_some hget'
    exact ⟨hget'', by simpa [hne] using hmem⟩

theorem tied_onTransportClose {c : Calls} (h : c.Tied) : c.onTransportClose.Tied := by
  have hinv := inv_onTransportClose h.inv
  have hdown : ({ c with connected := false } : Calls).Inv := inv_clock h.inv c.now false
  obtain ⟨hi, hl, hc, hrest⟩ := rejectAll_entries c.pending.entries hdown
    (h.linked.frame rfl rfl rfl rfl rfl) h.cleared c.pending.nodup
    (fun p hp => (InsertMap.get_eq_some_iff _).mpr hp)
  have hempty : ∀ id, (rejectAll c.pending.entries { c with connected := false }).pending.get id =
      none := by
    intro id
    cases hget : (rejectAll c.pending.entries { c with connected := false }).pending.get id with
    | none => rfl
    | some a =>
      obtain ⟨hold, hnot⟩ := hrest id a hget
      have hmem := (InsertMap.get_eq_some_iff _).mp hold
      exact absurd (List.mem_map_of_mem (f := Prod.fst) hmem) hnot
  refine ⟨hinv, hl.frame rfl rfl rfl rfl rfl, fun _ => hempty, ?_⟩
  refine causal_snoc.mpr ⟨hc, fun k a hstart => ?_⟩
  -- An attempt that was still open would have kept its entry.
  obtain ⟨ha, hk⟩ := (hi.started k a).mp hstart
  cases hs : ((rejectAll c.pending.entries { c with connected := false }).attempts a).settled with
  | none =>
    obtain ⟨id, -, hget⟩ := hl.kept a ha hs
    rw [hempty id] at hget
    contradiction
  | some r =>
    obtain ⟨via, hm, -⟩ := hi.recorded a r hs
    rw [hk] at hm
    exact ⟨via, r, hm⟩

/-! ### Every run -/

theorem tied_initial : initial.Tied where
  inv := inv_initial
  linked := by
    constructor
    · rfl
    · intro a id h
      contradiction
    · exact fun a ha => absurd ha (Nat.not_lt_zero a)
    · intro a due h
      contradiction
  quiet := fun h => by contradiction
  cleared := causal_nil _

theorem tied_resume {c : Calls} (h : c.Tied) (mp : Msgpack) {k : ℕ} (hr : c.ready k = true)
    (hw : c.NoWrap (c.resume mp k)) : (c.resume mp k).Tied := by
  have hinv := inv_resume h.inv mp hr
  have hk : k < c.nextCall := by
    by_contra hge
    have hu := h.inv.unused k (by omega)
    simp [ready, hu, Call.unused] at hr
  unfold resume at hinv hw ⊢
  cases hpc : (c.calls k).pc with
  | unused => exact h
  | waiting due l => exact h
  | done r => exact h
  | woken b =>
    rw [hpc] at hinv hw
    cases b with
    | true => exact tied_attempt h mp hk (Or.inr hpc) hw
    | false => exact tied_setPc h hinv
  | awaiting a =>
    rw [hpc] at hinv
    cases hs : (c.attempts a).settled with
    | none =>
      simp only [hs]
      exact h
    | some r =>
      cases r with
      | result v =>
        simp only [hs] at hinv ⊢
        exact tied_setPc h hinv
      | failure err =>
        simp only [hs] at hinv ⊢
        exact tied_caught h hinv

theorem tied_apply {c : Calls} (h : c.Tied) (mp : Msgpack) (e : Event) (he : c.enabled e = true)
    (hw : c.NoWrap (c.apply mp e)) : (c.apply mp e).Tied := by
  have hinv := inv_apply h.inv mp e he
  cases e with
  | tick ms => exact ⟨hinv, h.linked.frame rfl rfl rfl rfl rfl, h.quiet, h.cleared⟩
  | connected =>
    exact ⟨hinv, h.linked.frame rfl rfl rfl rfl rfl, fun hdown => by contradiction, h.cleared⟩
  | callWithOptions method params opts =>
    have hstart : (c.invoke method params opts).Tied :=
      ⟨inv_invoke h.inv method params opts, h.linked.frame rfl rfl rfl rfl rfl, h.quiet, h.cleared⟩
    exact tied_attempt hstart mp (Nat.lt_succ_self _) (Or.inl (by simp [invoke])) hw
  | respond id r =>
    change (c.respond id r).Tied
    unfold respond
    cases hget : c.pending.get id with
    | none => exact h
    | some a => exact tied_retire h hget (fun _ hm => (Option.some.inj hm).symm) (by simp)
  | expire a =>
    change (c.expire a).Tied
    unfold expire
    cases hid : (c.attempts a).id with
    | none => exact h
    | some id =>
      change c.expires a = true at he
      unfold expires at he
      split at he
      next due ht =>
        obtain ⟨i, hi, hget⟩ := h.linked.armed a due ht
        rw [hid] at hi
        cases hi
        exact tied_retire h hget (by simp) (fun _ => ⟨_, rfl⟩)
      next => contradiction
  | onTransportClose => exact tied_onTransportClose h
  | resume k => exact tied_resume h mp he hw
  | giveUp k => exact tied_setPc h hinv
  | emitReconnect =>
    exact ⟨hinv, h.linked.frame rfl rfl rfl rfl rfl, h.quiet, causal_snoc.mpr ⟨h.cleared, trivial⟩⟩
  | removeAllListeners => exact ⟨hinv, h.linked.frame rfl rfl rfl rfl rfl, h.quiet, h.cleared⟩

theorem tied_reach {mp : Msgpack} {c : Calls} (h : (machine mp).Reach (fun c _ d => c.NoWrap d) c) :
    c.Tied := by
  refine h.invariant ?_ ?_
  · rintro c rfl
    exact tied_initial
  · intro c e d _ ht hs hw
    obtain ⟨he, rfl⟩ := Machine.ofEnabled_step.mp hs
    exact tied_apply ht mp e he hw

/-- What the bridge promises about answers. -/
structure Correlated (c : Calls) : Prop where
  distinct : ∀ a b, c.Pending a → c.Pending b → (c.attempts a).id = (c.attempts b).id → a = b
  once : ∀ a, c.log.countP (·.settles a) ≤ 1
  answered : Causal Answered c.log
  cleared : Causal Cleared c.log

theorem Tied.correlated {c : Calls} (h : c.Tied) : c.Correlated where
  distinct _ _ := pending_id_inj h.inv h.linked
  once := h.inv.once
  answered := h.inv.causal.imp (fun _ _ hj => hj.1)
  cleared := h.cleared

end Calls

end UnoQ.Client
