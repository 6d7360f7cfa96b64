import UnoQ.Client.Calls

/-!
# Attempts

What the record of a run says about the attempts an invocation has made, and what
settling one of them leaves true. The retry loop starts another attempt only when all
earlier ones ended in a `ConnectionError` and the link has been reported back since.
-/

namespace UnoQ.Client
open Codec Transition History

def Happening.settles (a : ℕ) : Happening → Bool
  | .settled _ x _ _ => x = a
  | _ => false

def Happening.writes (k : ℕ) : Happening → Bool
  | .wrote x _ _ => x = k
  | _ => false

@[simp] theorem Happening.settles_settled (a k x : ℕ) (via : Option ℕ) (r : Settlement) :
    (Happening.settled k x via r).settles a = decide (x = a) := rfl

@[simp] theorem Happening.writes_wrote (k x a id : ℕ) :
    (Happening.wrote x a id).writes k = decide (x = k) := rfl

/-- The attempt ended in a `ConnectionError`. -/
def Failed (log : List Happening) (k p : ℕ) : Prop :=
  ∃ via message, .settled k p via (.failure (.connection message)) ∈ log

/-- The attempt ended in a `ConnectionError`, and 'reconnect' was emitted afterwards. -/
def Retired (log : List Happening) (k p : ℕ) : Prop :=
  ∃ via message, Before log (.settled k p via (.failure (.connection message))) .reconnect

/-- A RESPONSE settles an attempt whose REQUEST, with the same id, was written before. -/
def Answered (past : List Happening) : Happening → Prop
  | .settled k a (some id) _ => .wrote k a id ∈ past
  | _ => True

/-- A REQUEST is written only when all earlier attempts of its invocation are retired, and none of
them ended otherwise. -/
def Retried (past : List Happening) : Happening → Prop
  | .wrote k b _ => ∀ p, .started k p ∈ past → p ≠ b → Retired past k p ∧
      ∀ via r, .settled k p via r ∈ past → ∃ message, r = .failure (.connection message)
  | _ => True

def Justified (past : List Happening) (ev : Happening) : Prop := Answered past ev ∧ Retried past ev

theorem Failed.append {log : List Happening} {k p : ℕ} (h : Failed log k p) (more : List Happening) :
    Failed (log ++ more) k p := by
  obtain ⟨via, message, hm⟩ := h
  exact ⟨via, message, List.mem_append_left more hm⟩

theorem Retired.append {log : List Happening} {k p : ℕ} (h : Retired log k p)
    (more : List Happening) : Retired (log ++ more) k p := by
  obtain ⟨via, message, hb⟩ := h
  exact ⟨via, message, hb.append more⟩

theorem Retired.failed {log : List Happening} {k p : ℕ} (h : Retired log k p) : Failed log k p := by
  obtain ⟨via, message, hb⟩ := h
  exact ⟨via, message, hb.mem_left⟩

theorem Failed.retired {log : List Happening} {k p : ℕ} (h : Failed log k p) :
    Retired (log ++ [.reconnect]) k p := by
  obtain ⟨via, message, hm⟩ := h
  exact ⟨via, message, Before.snoc hm _⟩

namespace Calls

def Of (c : Calls) (k a : ℕ) : Prop := a < c.nextAttempt ∧ (c.attempts a).call = k

/-- The attempt waits for its promise, or the `pending` map still has it. -/
def Pending (c : Calls) (a : ℕ) : Prop :=
  (a < c.nextAttempt ∧ (c.attempts a).settled = none) ∨ ∃ id, c.pending.get id = some a

structure CallOk (c : Calls) (k : ℕ) : Prop where
  unused : (c.calls k).pc = .unused → ∀ p, ¬ c.Of k p
  awaiting : ∀ a, (c.calls k).pc = .awaiting a → c.Of k a ∧ ∀ p, c.Of k p → p ≤ a
  waiting : ∀ due l, (c.calls k).pc = .waiting due l →
    (c.calls k).idempotent = true ∧ ∀ p, c.Of k p → Failed c.log k p
  woken : ∀ b, (c.calls k).pc = .woken b →
    (c.calls k).idempotent = true ∧ (b = true → ∀ p, c.Of k p → Retired c.log k p)
  result : ∀ v, (c.calls k).pc = .done (.result v) →
    ∃ p id, .settled k p (some id) (.result v) ∈ c.log
  retried : ∀ p q, c.Of k p → c.Of k q → p < q → Retired c.log k p
  single : (c.calls k).idempotent = false → ∀ p q, c.Of k p → c.Of k q → p = q

structure Inv (c : Calls) : Prop where
  unborn : ∀ a, c.nextAttempt ≤ a → c.attempts a = .unborn
  unused : ∀ k, c.nextCall ≤ k → c.calls k = .unused
  caller : ∀ a, a < c.nextAttempt → (c.attempts a).call < c.nextCall
  started : ∀ k a, .started k a ∈ c.log ↔ c.Of k a
  wrote : ∀ k a id, .wrote k a id ∈ c.log → c.Of k a
  written : ∀ a, a < c.nextAttempt → (c.attempts a).settled = none →
    ∃ id, (c.attempts a).id = some id ∧ .wrote (c.attempts a).call a id ∈ c.log
  settled : ∀ k a via r, .settled k a via r ∈ c.log → c.Of k a ∧ (c.attempts a).settled = some r
  recorded : ∀ a r, (c.attempts a).settled = some r →
    ∃ via, .settled (c.attempts a).call a via r ∈ c.log ∧ (via = none → ∃ err, r = .failure err)
  once : ∀ a, c.log.countP (·.settles a) ≤ 1
  frames : ∀ k, (c.calls k).idempotent = false → c.log.countP (·.writes k) ≤ 1
  mapped : ∀ id a, c.pending.get id = some a → a < c.nextAttempt ∧ (c.attempts a).id = some id ∧
    ∀ r, (c.attempts a).settled = some r → r = .failure .encoding
  causal : Causal Justified c.log
  calls : ∀ k, c.CallOk k

/-! ### What follows from the invariant -/

theorem count_settles {c : Calls} (hi : c.Inv) {a : ℕ} (h : (c.attempts a).settled = none) :
    c.log.countP (·.settles a) = 0 := by
  rw [List.countP_eq_zero]
  intro ev hev hs
  cases ev with
  | settled k x via r =>
    have hx : x = a := by simpa using hs
    subst hx
    have := (hi.settled k x via r hev).2
    rw [h] at this
    contradiction
  | _ => simp [Happening.settles] at hs

theorem count_writes {c : Calls} (hi : c.Inv) {k : ℕ} (h : ∀ p, ¬ c.Of k p) :
    c.log.countP (·.writes k) = 0 := by
  rw [List.countP_eq_zero]
  intro ev hev hw
  cases ev with
  | wrote x a id =>
    have hx : x = k := by simpa using hw
    subst hx
    exact h a (hi.wrote x a id hev)
  | _ => simp [Happening.writes] at hw

theorem settled_of_failed {c : Calls} (hi : c.Inv) {k p : ℕ} (h : Failed c.log k p) :
    ∃ message, (c.attempts p).settled = some (.failure (.connection message)) := by
  obtain ⟨via, message, hm⟩ := h
  exact ⟨message, (hi.settled k p via _ hm).2⟩

theorem not_pending_of_failed {c : Calls} (hi : c.Inv) {k p : ℕ} (h : Failed c.log k p) :
    ¬ c.Pending p := by
  obtain ⟨message, hs⟩ := settled_of_failed hi h
  rintro (⟨-, hnone⟩ | ⟨id, hid⟩)
  · rw [hs] at hnone
    contradiction
  · have := (hi.mapped id p hid).2.2 _ hs
    simp at this

theorem pending_lt {c : Calls} (hi : c.Inv) {a : ℕ} (h : c.Pending a) : a < c.nextAttempt := by
  rcases h with ⟨hlt, -⟩ | ⟨id, hid⟩
  · exact hlt
  · exact (hi.mapped id a hid).1

theorem pending_unique {c : Calls} (hi : c.Inv) {p q : ℕ} (hp : c.Pending p) (hq : c.Pending q)
    (hcall : (c.attempts p).call = (c.attempts q).call) : p = q := by
  have hop : c.Of (c.attempts q).call p := ⟨pending_lt hi hp, hcall⟩
  have hoq : c.Of (c.attempts q).call q := ⟨pending_lt hi hq, rfl⟩
  have hok := hi.calls (c.attempts q).call
  rcases Nat.lt_trichotomy p q with h | h | h
  · exact absurd hp (not_pending_of_failed hi (hok.retried p q hop hoq h).failed)
  · exact h
  · exact absurd hq (not_pending_of_failed hi (hok.retried q p hoq hop h).failed)

/-! ### What the pieces of a step keep -/

theorem CallOk.frame {c d : Calls} {k : ℕ} (h : c.CallOk k) (hcall : d.calls k = c.calls k)
    (hof : ∀ a, d.Of k a ↔ c.Of k a) {more : List Happening} (hlog : d.log = c.log ++ more) :
    d.CallOk k := by
  constructor
  · intro hpc p hp
    exact h.unused (hcall ▸ hpc) p ((hof p).mp hp)
  · intro a hpc
    obtain ⟨ha, hmax⟩ := h.awaiting a (hcall ▸ hpc)
    exact ⟨(hof a).mpr ha, fun p hp => hmax p ((hof p).mp hp)⟩
  · intro due l hpc
    obtain ⟨hid, hall⟩ := h.waiting due l (hcall ▸ hpc)
    rw [hcall, hlog]
    exact ⟨hid, fun p hp => (hall p ((hof p).mp hp)).append more⟩
  · intro b hpc
    obtain ⟨hid, hall⟩ := h.woken b (hcall ▸ hpc)
    rw [hcall, hlog]
    exact ⟨hid, fun hb p hp => (hall hb p ((hof p).mp hp)).append more⟩
  · intro v hpc
    obtain ⟨p, id, hm⟩ := h.result v (hcall ▸ hpc)
    rw [hlog]
    exact ⟨p, id, List.mem_append_left more hm⟩
  · intro p q hp hq hlt
    rw [hlog]
    exact (h.retried p q ((hof p).mp hp) ((hof q).mp hq) hlt).append more
  · intro hid p q hp hq
    exact h.single (hcall ▸ hid) p q ((hof p).mp hp) ((hof q).mp hq)

theorem retire_attempts (c : Calls) (id a x : ℕ) (via : Option ℕ) (r : Settlement) :
    (c.retire id a via r).attempts x =
      if x = a then
        { c.attempts a with timer := none, settled := (c.attempts a).settled.or (some r) }
      else c.attempts x :=
  Function.update_apply c.attempts a _ x

@[simp] theorem retire_call (c : Calls) (id a x : ℕ) (via : Option ℕ) (r : Settlement) :
    ((c.retire id a via r).attempts x).call = (c.attempts x).call := by
  rw [retire_attempts]
  split
  next h => rw [h]
  next => rfl

@[simp] theorem retire_id (c : Calls) (id a x : ℕ) (via : Option ℕ) (r : Settlement) :
    ((c.retire id a via r).attempts x).id = (c.attempts x).id := by
  rw [retire_attempts]
  split
  next h => rw [h]
  next => rfl

theorem retire_settled (c : Calls) (id a x : ℕ) (via : Option ℕ) (r : Settlement) :
    ((c.retire id a via r).attempts x).settled =
      if x = a then (c.attempts a).settled.or (some r) else (c.attempts x).settled := by
  rw [retire_attempts]
  split <;> rfl

theorem retire_of (c : Calls) (id a k x : ℕ) (via : Option ℕ) (r : Settlement) :
    (c.retire id a via r).Of k x ↔ c.Of k x := by
  unfold Of
  rw [retire_call]
  exact Iff.rfl

theorem settling_of_none {c : Calls} {a : ℕ} (h : (c.attempts a).settled = none) (via : Option ℕ)
    (r : Settlement) : c.settling a via r = [.settled (c.attempts a).call a via r] := by
  simp [settling, h]

theorem settling_of_some {c : Calls} {a : ℕ} {r' : Settlement}
    (h : (c.attempts a).settled = some r') (via : Option ℕ) (r : Settlement) :
    c.settling a via r = [] := by
  simp [settling, h]

theorem mem_settling {c : Calls} {a : ℕ} {via : Option ℕ} {r : Settlement} {ev : Happening}
    (h : ev ∈ c.settling a via r) :
    ev = .settled (c.attempts a).call a via r ∧ (c.attempts a).settled = none := by
  cases hs : (c.attempts a).settled with
  | none =>
    rw [settling_of_none hs, List.mem_singleton] at h
    exact ⟨h, rfl⟩
  | some r' =>
    rw [settling_of_some hs] at h
    contradiction

theorem inv_retire {c : Calls} (hi : c.Inv) {id a : ℕ} {via : Option ℕ} {r : Settlement}
    (ha : a < c.nextAttempt) (hid : (c.attempts a).id = some id)
    (hvia : ∀ m, via = some m → m = id) (hnone : via = none → ∃ err, r = .failure err) :
    (c.retire id a via r).Inv := by
  have hlog : (c.retire id a via r).log = c.log ++ c.settling a via r := rfl
  constructor
  · intro x hx
    have hne : x ≠ a := fun h => by
      have hx' : c.nextAttempt ≤ x := hx
      omega
    rw [retire_attempts, if_neg hne]
    exact hi.unborn x hx
  · exact hi.unused
  · intro x hx
    rw [retire_call]
    exact hi.caller x hx
  · intro k x
    rw [hlog, List.mem_append, retire_of, ← hi.started]
    constructor
    · rintro (h | h)
      · exact h
      · have := (mem_settling h).1
        contradiction
    · exact Or.inl
  · intro k x m hm
    rw [hlog, List.mem_append] at hm
    rw [retire_of]
    rcases hm with hm | hm
    · exact hi.wrote k x m hm
    · have := (mem_settling hm).1
      contradiction
  · intro x hx hs
    rw [retire_settled] at hs
    have hne : x ≠ a := fun h => by
      simp [h] at hs
    rw [if_neg hne] at hs
    obtain ⟨m, hm, hw⟩ := hi.written x hx hs
    rw [retire_id, retire_call, hlog]
    exact ⟨m, hm, List.mem_append_left _ hw⟩
  · intro k x v r' hm
    rw [hlog, List.mem_append] at hm
    rw [retire_of, retire_settled]
    rcases hm with hm | hm
    · obtain ⟨hof, hs⟩ := hi.settled k x v r' hm
      refine ⟨hof, ?_⟩
      split
      next h => rw [← h, hs, Option.some_or]
      next => exact hs
    · obtain ⟨heq, hs⟩ := mem_settling hm
      cases heq
      refine ⟨⟨ha, rfl⟩, ?_⟩
      rw [if_pos rfl, hs, Option.none_or]
  · intro x r' hs
    rw [retire_settled] at hs
    rw [retire_call, hlog]
    by_cases hxa : x = a
    · subst hxa
      rw [if_pos rfl] at hs
      cases hold : (c.attempts x).settled with
      | none =>
        rw [hold, Option.none_or] at hs
        cases hs
        refine ⟨via, ?_, hnone⟩
        rw [settling_of_none hold]
        exact List.mem_append_right _ (List.mem_singleton.mpr rfl)
      | some r'' =>
        rw [hold, Option.some_or] at hs
        cases hs
        obtain ⟨v, hm, hv⟩ := hi.recorded x _ hold
        exact ⟨v, List.mem_append_left _ hm, hv⟩
    · rw [if_neg hxa] at hs
      obtain ⟨v, hm, hv⟩ := hi.recorded x r' hs
      exact ⟨v, List.mem_append_left _ hm, hv⟩
  · intro x
    rw [hlog, List.countP_append]
    cases hold : (c.attempts a).settled with
    | none =>
      rw [settling_of_none hold]
      by_cases hxa : x = a
      · subst hxa
        rw [count_settles hi hold]
        simp
      · have hax : a ≠ x := Ne.symm hxa
        simpa [hax] using hi.once x
    | some r'' =>
      rw [settling_of_some hold]
      exact hi.once x
  · intro k hk
    have hzero : (c.settling a via r).countP (·.writes k) = 0 := by
      rw [List.countP_eq_zero]
      intro ev hev
      rw [(mem_settling hev).1]
      simp [Happening.writes]
    rw [hlog, List.countP_append, hzero]
    exact hi.frames k hk
  · intro m x hm
    obtain ⟨hne, hget⟩ := InsertMap.get_delete_eq_some hm
    obtain ⟨hlt, hx, henc⟩ := hi.mapped m x hget
    have hxa : x ≠ a := fun h => by
      rw [h, hid] at hx
      exact hne (Option.some.inj hx).symm
    rw [retire_id, retire_settled, if_neg hxa]
    exact ⟨hlt, hx, henc⟩
  · rw [hlog]
    cases hold : (c.attempts a).settled with
    | some r'' =>
      rw [settling_of_some hold, List.append_nil]
      exact hi.causal
    | none =>
      rw [settling_of_none hold, causal_snoc]
      refine ⟨hi.causal, ?_, trivial⟩
      cases via with
      | none => trivial
      | some m =>
        obtain ⟨m', hm', hw⟩ := hi.written a ha hold
        obtain rfl := hvia m rfl
        rw [hid] at hm'
        cases hm'
        exact hw
  · intro k
    exact (hi.calls k).frame rfl (fun x => retire_of c id a k x via r) hlog

end Calls

end UnoQ.Client
