import UnoQ.Client.Attempts

/-!
# Launching an attempt

`attempt` takes an id, stores the entry, arms the timer and writes the REQUEST, or
rejects at once. Either way it adds one attempt to its invocation.
-/

namespace UnoQ.Client
open Codec Transition History

namespace Calls

def launch (c : Calls) (msgid allocated : ℕ) (pending : InsertMap ℕ ℕ) (k : ℕ) (att : Attempt)
    (ev : Happening) : Calls :=
  { c with msgid := msgid, allocated := allocated, pending := pending }.enter k att [ev]

/-- What `attempt` may launch: a request on the wire, or a promise already rejected. -/
structure Launch (c : Calls) (pending : InsertMap ℕ ℕ) (k : ℕ) (att : Attempt) (ev : Happening) :
    Prop where
  call : att.call = k
  ending : (att.settled = none ∧ ∃ id, att.id = some id ∧ ev = .wrote k c.nextAttempt id) ∨
    ∃ err, att.settled = some (.failure err) ∧ ev = .settled k c.nextAttempt none (.failure err)
  entries : ∀ id x, pending.get id = some x → c.pending.get id = some x ∨
    (x = c.nextAttempt ∧ att.id = some id ∧ ∀ r, att.settled = some r → r = .failure .encoding)

section launch

variable {c : Calls} {m n k : ℕ} {pending : InsertMap ℕ ℕ} {att : Attempt} {ev : Happening}

theorem launch_attempts (x : ℕ) :
    (c.launch m n pending k att ev).attempts x = if x = c.nextAttempt then att else c.attempts x :=
  Function.update_apply c.attempts c.nextAttempt _ x

theorem launch_calls (x : ℕ) :
    (c.launch m n pending k att ev).calls x =
      if x = k then { c.calls k with pc := .awaiting c.nextAttempt } else c.calls x :=
  Function.update_apply c.calls k _ x

theorem launch_idempotent (x : ℕ) :
    ((c.launch m n pending k att ev).calls x).idempotent = (c.calls x).idempotent := by
  rw [launch_calls]
  split
  next h => rw [h]
  next => rfl

theorem launch_log :
    (c.launch m n pending k att ev).log = c.log ++ [.started k c.nextAttempt, ev] := rfl

theorem launch_of (hcall : att.call = k) (j x : ℕ) :
    (c.launch m n pending k att ev).Of j x ↔ c.Of j x ∨ (x = c.nextAttempt ∧ j = k) := by
  have hnext : (c.launch m n pending k att ev).nextAttempt = c.nextAttempt + 1 := rfl
  unfold Of
  rw [hnext, launch_attempts]
  by_cases hx : x = c.nextAttempt
  · rw [if_pos hx, hcall]
    constructor
    · rintro ⟨-, h⟩
      exact Or.inr ⟨hx, h.symm⟩
    · rintro (⟨h, -⟩ | ⟨-, h⟩)
      · omega
      · exact ⟨by omega, h.symm⟩
  · rw [if_neg hx]
    constructor
    · rintro ⟨hlt, h⟩
      exact Or.inl ⟨by omega, h⟩
    · rintro (⟨hlt, h⟩ | ⟨h, -⟩)
      · exact ⟨by omega, h⟩
      · exact absurd h hx

theorem mem_launch_log {ev' : Happening} (h : ev' ∈ (c.launch m n pending k att ev).log) :
    ev' ∈ c.log ∨ ev' = .started k c.nextAttempt ∨ ev' = ev := by
  rw [launch_log] at h
  simpa using h

theorem retired_before (hi : c.Inv)
    (hpc : (c.calls k).pc = .unused ∨ (c.calls k).pc = .woken true) {p : ℕ} (hp : c.Of k p) :
    Retired c.log k p := by
  rcases hpc with hpc | hpc
  · exact absurd hp ((hi.calls k).unused hpc p)
  · exact ((hi.calls k).woken true hpc).2 rfl p hp

theorem none_before (hi : c.Inv)
    (hpc : (c.calls k).pc = .unused ∨ (c.calls k).pc = .woken true)
    (hid : (c.calls k).idempotent = false) (p : ℕ) : ¬ c.Of k p := by
  rcases hpc with hpc | hpc
  · exact (hi.calls k).unused hpc p
  · rw [((hi.calls k).woken true hpc).1] at hid
    contradiction

theorem callOk_launch (hi : c.Inv) (hl : Launch c pending k att ev)
    (hpc : (c.calls k).pc = .unused ∨ (c.calls k).pc = .woken true) (j : ℕ) :
    (c.launch m n pending k att ev).CallOk j := by
  have hof : ∀ j x, (c.launch m n pending k att ev).Of j x ↔
      c.Of j x ∨ (x = c.nextAttempt ∧ j = k) := launch_of hl.call
  by_cases hjk : j = k
  · subst hjk
    have hcall : (c.launch m n pending j att ev).calls j =
        { c.calls j with pc := .awaiting c.nextAttempt } := by
      rw [launch_calls, if_pos rfl]
    have hold := hi.calls j
    constructor
    · intro h
      simp [hcall] at h
    · intro a h
      rw [hcall] at h
      cases h
      refine ⟨(hof j _).mpr (Or.inr ⟨rfl, rfl⟩), fun p hp => ?_⟩
      rcases (hof j p).mp hp with h | ⟨h, -⟩
      · exact Nat.le_of_lt h.1
      · exact Nat.le_of_eq h
    · intro due l h
      simp [hcall] at h
    · intro b h
      simp [hcall] at h
    · intro v h
      simp [hcall] at h
    · intro p q hp hq hlt
      rw [launch_log]
      rcases (hof j p).mp hp with hp' | ⟨rfl, -⟩
      · exact (retired_before hi hpc hp').append _
      · rcases (hof j q).mp hq with hq' | ⟨rfl, -⟩
        · have := hq'.1
          omega
        · omega
    · intro hid p q hp hq
      rw [launch_idempotent] at hid
      rcases (hof j p).mp hp with hp' | ⟨rfl, -⟩
      · exact absurd hp' (none_before hi hpc hid p)
      · rcases (hof j q).mp hq with hq' | ⟨rfl, -⟩
        · exact absurd hq' (none_before hi hpc hid q)
        · rfl
  · refine (hi.calls j).frame ?_ (fun a => ?_) launch_log
    · rw [launch_calls, if_neg hjk]
    · rw [hof]
      simp [hjk]

theorem causal_launch (hi : c.Inv) (hl : Launch c pending k att ev)
    (hpc : (c.calls k).pc = .unused ∨ (c.calls k).pc = .woken true) :
    Causal Justified (c.launch m n pending k att ev).log := by
  have hsplit : (c.launch m n pending k att ev).log =
      (c.log ++ [.started k c.nextAttempt]) ++ [ev] := by
    rw [launch_log]
    simp
  rw [hsplit, causal_snoc, causal_snoc]
  refine ⟨⟨hi.causal, trivial, trivial⟩, ?_⟩
  rcases hl.ending with ⟨-, id, -, rfl⟩ | ⟨err, -, rfl⟩
  · refine ⟨trivial, fun p hp hne => ?_⟩
    rw [List.mem_append, List.mem_singleton] at hp
    have hof : c.Of k p := by
      rcases hp with hp | hp
      · exact (hi.started k p).mp hp
      · cases hp
        exact absurd rfl hne
    have hret := retired_before hi hpc hof
    refine ⟨hret.append _, fun via r hm => ?_⟩
    rw [List.mem_append, List.mem_singleton] at hm
    rcases hm with hm | hm
    · obtain ⟨message, hs⟩ := settled_of_failed hi hret.failed
      rw [(hi.settled k p via r hm).2] at hs
      exact ⟨message, Option.some.inj hs⟩
    · contradiction
  · exact ⟨trivial, trivial⟩

theorem inv_launch (hi : c.Inv) (hl : Launch c pending k att ev) (hk : k < c.nextCall)
    (hpc : (c.calls k).pc = .unused ∨ (c.calls k).pc = .woken true) :
    (c.launch m n pending k att ev).Inv := by
  have hof : ∀ j x, (c.launch m n pending k att ev).Of j x ↔
      c.Of j x ∨ (x = c.nextAttempt ∧ j = k) := launch_of hl.call
  have hnext : (c.launch m n pending k att ev).nextAttempt = c.nextAttempt + 1 := rfl
  have hnew : (c.launch m n pending k att ev).attempts c.nextAttempt = att := by
    rw [launch_attempts, if_pos rfl]
  have hold : ∀ x, x < c.nextAttempt →
      (c.launch m n pending k att ev).attempts x = c.attempts x := by
    intro x hx
    rw [launch_attempts, if_neg (by omega)]
  constructor
  · intro x hx
    rw [hnext] at hx
    rw [launch_attempts, if_neg (by omega)]
    exact hi.unborn x (by omega)
  · intro j hj
    have hj' : c.nextCall ≤ j := hj
    rw [launch_calls, if_neg (by omega)]
    exact hi.unused j hj'
  · intro x hx
    rw [hnext] at hx
    by_cases hxa : x = c.nextAttempt
    · rw [hxa, hnew, hl.call]
      exact hk
    · rw [hold x (by omega)]
      exact hi.caller x (by omega)
  · intro j x
    rw [hof, ← hi.started]
    constructor
    · intro h
      rcases mem_launch_log h with h | h | h
      · exact Or.inl h
      · cases h
        exact Or.inr ⟨rfl, rfl⟩
      · rcases hl.ending with ⟨-, id, -, he⟩ | ⟨err, -, he⟩
        · rw [he] at h
          contradiction
        · rw [he] at h
          contradiction
    · rw [launch_log]
      rintro (h | ⟨rfl, rfl⟩)
      · exact List.mem_append_left _ h
      · simp
  · intro j x id h
    rw [hof]
    rcases mem_launch_log h with h | h | h
    · exact Or.inl (hi.wrote j x id h)
    · contradiction
    · rcases hl.ending with ⟨-, id', -, he⟩ | ⟨err, -, he⟩
      · rw [he] at h
        cases h
        exact Or.inr ⟨rfl, rfl⟩
      · rw [he] at h
        contradiction
  · intro x hx hs
    rw [hnext] at hx
    rw [launch_log]
    by_cases hxa : x = c.nextAttempt
    · rw [hxa, hnew] at hs ⊢
      rcases hl.ending with ⟨-, id, hid, he⟩ | ⟨err, hse, -⟩
      · exact ⟨id, hid, by simp [he, hl.call]⟩
      · rw [hse] at hs
        contradiction
    · have hlt : x < c.nextAttempt := by omega
      rw [hold x hlt] at hs ⊢
      obtain ⟨id, hid, hw⟩ := hi.written x hlt hs
      exact ⟨id, hid, List.mem_append_left _ hw⟩
  · intro j x via r h
    rw [hof]
    rcases mem_launch_log h with h | h | h
    · obtain ⟨ho, hs⟩ := hi.settled j x via r h
      rw [hold x ho.1]
      exact ⟨Or.inl ho, hs⟩
    · contradiction
    · rcases hl.ending with ⟨-, id, -, he⟩ | ⟨err, hse, he⟩
      · rw [he] at h
        contradiction
      · rw [he] at h
        cases h
        rw [hnew]
        exact ⟨Or.inr ⟨rfl, rfl⟩, hse⟩
  · intro x r hs
    rw [launch_log]
    by_cases hxa : x = c.nextAttempt
    · rw [hxa, hnew] at hs ⊢
      rcases hl.ending with ⟨hsn, -⟩ | ⟨err, hse, he⟩
      · rw [hsn] at hs
        contradiction
      · rw [hse] at hs
        cases hs
        exact ⟨none, by simp [he, hl.call], fun _ => ⟨err, rfl⟩⟩
    · rw [launch_attempts, if_neg hxa] at hs ⊢
      obtain ⟨via, hm, hv⟩ := hi.recorded x r hs
      exact ⟨via, List.mem_append_left _ hm, hv⟩
  · intro x
    rw [launch_log, List.countP_append]
    by_cases hxa : x = c.nextAttempt
    · have hun : (c.attempts x).settled = none := by
        rw [hi.unborn x (by omega)]
        rfl
      rw [count_settles hi hun, Nat.zero_add]
      rcases hl.ending with ⟨-, id, -, he⟩ | ⟨err, -, he⟩
      · simp [he, Happening.settles]
      · rw [he]
        simp [Happening.settles, hxa]
    · have hax : c.nextAttempt ≠ x := Ne.symm hxa
      have := hi.once x
      rcases hl.ending with ⟨-, id, -, he⟩ | ⟨err, -, he⟩
      · simpa [he, Happening.settles] using this
      · simpa [he, Happening.settles, hax] using this
  · intro j hid
    rw [launch_idempotent] at hid
    rw [launch_log, List.countP_append]
    by_cases hjk : j = k
    · subst hjk
      rw [count_writes hi (none_before hi hpc hid), Nat.zero_add]
      rcases hl.ending with ⟨-, id, -, he⟩ | ⟨err, -, he⟩
      · simp [he, Happening.writes]
      · simp [he, Happening.writes]
    · have hkj : k ≠ j := Ne.symm hjk
      have := hi.frames j hid
      rcases hl.ending with ⟨-, id, -, he⟩ | ⟨err, -, he⟩
      · simpa [he, Happening.writes, hkj] using this
      · simpa [he, Happening.writes] using this
  · intro id x hget
    rcases hl.entries id x hget with h | ⟨rfl, hid, henc⟩
    · obtain ⟨hlt, hid, henc⟩ := hi.mapped id x h
      rw [hold x hlt, hnext]
      exact ⟨by omega, hid, henc⟩
    · rw [hnew, hnext]
      exact ⟨by omega, hid, henc⟩
  · exact causal_launch hi hl hpc
  · exact callOk_launch hi hl hpc

end launch

theorem attempt_connected (mp : Msgpack) {c : Calls} (hconn : c.connected = true) (k : ℕ) :
    ∃ att ev, c.attempt mp k = c.launch (nextMsgId c.msgid) (c.allocated + 1)
        (c.pending.set (nextMsgId c.msgid) c.nextAttempt) k att ev ∧
      Launch c (c.pending.set (nextMsgId c.msgid) c.nextAttempt) k att ev ∧
      att.id = some (nextMsgId c.msgid) ∧ att.serial = c.allocated + 1 := by
  have hget : ∀ {att : Attempt}, att.id = some (nextMsgId c.msgid) →
      (∀ r, att.settled = some r → r = .failure .encoding) → ∀ id x,
      (c.pending.set (nextMsgId c.msgid) c.nextAttempt).get id = some x → c.pending.get id = some x ∨
        (x = c.nextAttempt ∧ att.id = some id ∧ ∀ r, att.settled = some r → r = .failure .encoding) := by
    intro att hid henc id x h
    rcases InsertMap.get_set_eq_some h with ⟨h1, h2⟩ | ⟨-, h2⟩
    · exact Or.inr ⟨h2, by rw [h1, hid], henc⟩
    · exact Or.inl h2
  unfold attempt
  dsimp only
  rw [if_pos hconn]
  split
  · refine ⟨_, _, rfl, ⟨rfl, Or.inl ⟨rfl, _, rfl, rfl⟩, ?_⟩, rfl, rfl⟩
    exact hget rfl (by simp)
  · refine ⟨_, _, rfl, ⟨rfl, Or.inr ⟨_, rfl, rfl⟩, ?_⟩, rfl, rfl⟩
    exact hget rfl (by simp)

theorem attempt_disconnected (mp : Msgpack) {c : Calls} (hconn : c.connected = false) (k : ℕ) :
    ∃ att ev, c.attempt mp k = c.launch c.msgid c.allocated c.pending k att ev ∧
      Launch c c.pending k att ev ∧ att.id = none ∧ att.settled ≠ none ∧ att.timer = none := by
  unfold attempt
  dsimp only
  rw [if_neg (by simp [hconn])]
  refine ⟨_, _, rfl, ⟨rfl, Or.inr ⟨_, rfl, rfl⟩, fun id x h => Or.inl h⟩, rfl, by simp, rfl⟩

theorem inv_attempt {c : Calls} (hi : c.Inv) (mp : Msgpack) {k : ℕ} (hk : k < c.nextCall)
    (hpc : (c.calls k).pc = .unused ∨ (c.calls k).pc = .woken true) : (c.attempt mp k).Inv := by
  cases hconn : c.connected with
  | true =>
    obtain ⟨att, ev, heq, hl, -⟩ := attempt_connected mp hconn k
    rw [heq]
    exact inv_launch hi hl hk hpc
  | false =>
    obtain ⟨att, ev, heq, hl, -⟩ := attempt_disconnected mp hconn k
    rw [heq]
    exact inv_launch hi hl hk hpc

end Calls

end UnoQ.Client
