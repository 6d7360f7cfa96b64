import UnoQ.Cloud.Throttle

/-!
# How long a caller waits for its token

Ten tokens a second come in, so a caller with `i` callers before it waits for `i + 1` of them at most.
That is a bound on the time in which others act as they like, as long as the event loop is not late:
the clock does not go on while a link could begin, nor past the end of a sleep.
-/

namespace UnoQ.Cloud
open Transition TokenBudget

namespace Throttle

/-- What the clock waits for. -/
def onTime (s : Throttle) (ms x : ℕ) : Bool :=
  match (s.acquires x).phase with
  | .chained => decide ((s.bucket x).chain.head? ≠ some x)
  | .sleeping wakeAt => decide (s.now + ms ≤ wakeAt)
  | .granted => true

def Prompt : Guard Throttle Event := fun s e _ =>
  match e with
  | .tick ms => (List.range s.nextAcquire).all (s.onTime ms) = true
  | _ => True

instance (s : Throttle) : ∀ (e : Event) (t : Throttle), Decidable (Prompt s e t)
  | .tick ms, _ => inferInstanceAs (Decidable ((List.range s.nextAcquire).all (s.onTime ms) = true))
  | .acquireRestToken _, _ => isTrue trivial
  | .link _, _ => isTrue trivial
  | .wake _, _ => isTrue trivial

/-! ### Who is in a chain -/

/-- A chain holds those who wait, and no sleep is longer than a token takes. -/
structure Queued (s : Throttle) : Prop where
  waiting : ∀ key b, s.buckets.get key = some b → ∀ x ∈ b.chain,
    (s.acquires x).key = key ∧ (s.acquires x).phase ≠ .granted
  soon : ∀ x wakeAt, (s.acquires x).phase = .sleeping wakeAt → wakeAt ≤ s.now + 100

theorem Lawful.nodup {s : Throttle} {key : String} {b : Bucket} (h : s.Lawful key b) :
    b.chain.Nodup := by
  have hall : (s.called key).Nodup := List.nodup_range.filter _
  rw [← h.order] at hall
  exact hall.of_append_right

theorem Lawful.born {s : Throttle} {key : String} {b : Bucket} (h : s.Lawful key b) {x : ℕ}
    (hx : x ∈ b.chain) : x < s.nextAcquire ∧ (s.acquires x).key = key := by
  have hin : x ∈ s.called key := by
    rw [← h.order]
    exact List.mem_append_right _ hx
  obtain ⟨hrange, hkey⟩ := List.mem_filter.mp hin
  exact ⟨List.mem_range.mp hrange, of_decide_eq_true hkey⟩

/-- What a link or a wake does to its own chain: it keeps it and sleeps, or leaves it. -/
inductive Turns (s : Throttle) (x : ℕ) (b : Bucket) : Throttle → Prop
  | sleep {ms : ℤ} (hphase : (s.acquires x).phase = .chained) (hms : ms ≤ 100) :
    Turns s x b (s.sleep x (b.refill s.now) ms)
  | grant : Turns s x b (s.grant x (b.refill s.now))

theorem turns_of_link {s : Throttle} (h : s.Inv) {x : ℕ} {b : Bucket}
    (hphase : (s.acquires x).phase = .chained) (hget : s.buckets.get (s.acquires x).key = some b) (hbucket : s.bucket x = b) :
    Turns s x b (s.link x) := by
  have hsound := (h.lawful _ b hget).sound.refill
  unfold link
  rw [hbucket]
  dsimp only
  split
  · exact .sleep hphase (Bucket.waitMs_le hsound.nonneg)
  · exact .grant

/-- The chain of the turn's own key afterwards, and where its acquire then stands. -/
theorem Turns.spec {s t : Throttle} {x : ℕ} {b : Bucket} (h : s.Turns x b t) :
    t.now = s.now ∧ t.nextAcquire = s.nextAcquire ∧ (∀ y, y ≠ x → t.acquires y = s.acquires y) ∧
      (t.acquires x).key = (s.acquires x).key ∧
      (∀ key, key ≠ (s.acquires x).key → t.buckets.get key = s.buckets.get key) ∧
      ∃ b', t.buckets.get (s.acquires x).key = some b' ∧
        ((∃ ms ≤ 100, (s.acquires x).phase = .chained ∧ (t.acquires x).phase = .sleeping (s.now + ms) ∧
            b'.chain = b.chain) ∨
          (t.acquires x).phase = .granted ∧ b'.chain = b.chain.tail) := by
  cases h with
  | @sleep ms hphase hms =>
    refine ⟨rfl, rfl, fun y hy => leave_other hy, ?_, fun key hkey => InsertMap.get_set_ne _ _ hkey.symm,
      _, InsertMap.get_set_self _ _ _, .inl ⟨ms, hms, hphase, ?_, Bucket.refill_chain b s.now⟩⟩
    · unfold Throttle.sleep
      rw [leave_self]
    · unfold Throttle.sleep
      rw [leave_self]
  | grant =>
    refine ⟨rfl, rfl, fun y hy => leave_other hy, ?_, fun key hkey => InsertMap.get_set_ne _ _ hkey.symm,
      _, InsertMap.get_set_self _ _ _, .inr ⟨?_, ?_⟩⟩
    · unfold Throttle.grant
      rw [leave_self]
    · unfold Throttle.grant
      rw [leave_self]
    · unfold Bucket.take
      rw [Bucket.refill_chain]

theorem queued_turns {s t : Throttle} {x : ℕ} {b : Bucket} (hq : s.Queued) (hi : s.Inv)
    (hget : s.buckets.get (s.acquires x).key = some b) (hhead : b.chain.head? = some x)
    (h : s.Turns x b t) : t.Queued := by
  obtain ⟨hnow, -, hother, hkey, hbuckets, b', hget', hturn⟩ := h.spec
  have hnodup := (hi.lawful _ b hget).nodup
  constructor
  · intro key c hc y hy
    by_cases hk : key = (s.acquires x).key
    · subst hk
      rw [hget'] at hc
      cases hc
      rcases hturn with ⟨ms, -, -, hphase, hchain⟩ | ⟨hphase, hchain⟩
      · rw [hchain] at hy
        by_cases hyx : y = x
        · rw [hyx, hkey, hphase]
          exact ⟨rfl, by simp⟩
        · rw [hother y hyx]
          exact hq.waiting _ b hget y hy
      · rw [hchain] at hy
        have hyx : y ≠ x := by
          rintro rfl
          obtain ⟨rest, hrest⟩ := List.head?_eq_some_iff.mp hhead
          rw [hrest] at hy hnodup
          exact (List.nodup_cons.mp hnodup).1 hy
        rw [hother y hyx]
        exact hq.waiting _ b hget y (List.mem_of_mem_tail hy)
    · rw [hbuckets key hk] at hc
      obtain ⟨hkeyed, hphase⟩ := hq.waiting key c hc y hy
      have hyx : y ≠ x := by
        rintro rfl
        exact hk hkeyed.symm
      rw [hother y hyx]
      exact ⟨hkeyed, hphase⟩
  · intro y wakeAt hy
    rw [hnow]
    by_cases hyx : y = x
    · rw [hyx] at hy
      rcases hturn with ⟨ms, hms, -, hphase, -⟩ | ⟨hphase, -⟩
      · rw [hphase] at hy
        cases hy
        omega
      · rw [hphase] at hy
        contradiction
    · rw [hother y hyx] at hy
      exact hq.soon y wakeAt hy

/-- The link of an acquire that is not the first of its chain cannot be asleep. -/
theorem wake_spec {s : Throttle} (hi : s.Inv) {x : ℕ} {wakeAt : ℤ}
    (hphase : (s.acquires x).phase = .sleeping wakeAt) :
    ∃ b, s.buckets.get (s.acquires x).key = some b ∧ b.chain.head? = some x ∧ s.Turns x b (s.wake x) := by
  obtain ⟨b, hget, hbucket⟩ := hi.bucket_some (x := x) (by simp [hphase])
  refine ⟨b, hget, ((hi.lawful _ b hget).sleeping x wakeAt hphase rfl).1, ?_⟩
  unfold wake
  rw [hbucket]
  exact .grant

theorem link_spec {s : Throttle} (hi : s.Inv) {x : ℕ} (hphase : (s.acquires x).phase = .chained)
    (hhead : (s.bucket x).chain.head? = some x) :
    ∃ b, s.buckets.get (s.acquires x).key = some b ∧ b.chain.head? = some x ∧ s.Turns x b (s.link x) := by
  obtain ⟨b, hget, hbucket⟩ := hi.bucket_some (x := x) (by simp [hphase])
  exact ⟨b, hget, hbucket ▸ hhead, turns_of_link hi hphase hget hbucket⟩

/-- What a step does to the chains. -/
inductive Moves (s : Throttle) : Event → Throttle → Prop
  | tick (ms : ℕ) : Moves s (.tick ms) { s with now := s.now + ms }
  | acquireRestToken (key : String) : Moves s (.acquireRestToken key) (s.acquireRestToken key)
  | turn {e : Event} {x : ℕ} {b : Bucket} {t : Throttle}
    (hget : s.buckets.get (s.acquires x).key = some b) (hhead : b.chain.head? = some x)
    (hturn : s.Turns x b t) : Moves s e t

theorem moves_of_step {s t : Throttle} {e : Event} (hi : s.Inv) (hs : machine.step s e = some t) :
    s.Moves e t := by
  change s.step e = some t at hs
  cases e with
  | tick ms =>
    cases hs
    exact .tick ms
  | acquireRestToken key =>
    cases hs
    exact .acquireRestToken key
  | link x =>
    simp only [step] at hs
    split at hs
    next hc =>
      cases hs
      obtain ⟨b, hget, hhead, hturn⟩ := link_spec hi hc.1 hc.2
      exact .turn hget hhead hturn
    next => contradiction
  | wake x =>
    simp only [step] at hs
    split at hs
    next wakeAt hphase =>
      split at hs
      next =>
        cases hs
        obtain ⟨b, hget, hhead, hturn⟩ := wake_spec hi hphase
        exact .turn hget hhead hturn
      next => contradiction
    next => contradiction

theorem queued_initial (now : ℤ) : (initial now).Queued where
  waiting _ _ hb := by contradiction
  soon x wakeAt hx := by contradiction

theorem chain_acquireRestToken (s : Throttle) (key key' : String) {b : Bucket}
    (hb : s.buckets.get key' = some b) : ∃ b', (s.acquireRestToken key).buckets.get key' = some b' ∧
      b.chain <+: b'.chain := by
  by_cases hk : key = key'
  · subst hk
    refine ⟨_, InsertMap.get_set_self _ _ _, ?_⟩
    unfold bucketFor
    rw [hb]
    exact List.prefix_append _ _
  · exact ⟨b, (InsertMap.get_set_ne _ _ hk).trans hb, List.prefix_refl _⟩

theorem queued_acquireRestToken {s : Throttle} (hq : s.Queued) (hi : s.Inv) (key : String) :
    (s.acquireRestToken key).Queued := by
  have hold : ∀ key' b x, s.buckets.get key' = some b → x ∈ b.chain →
      ((s.acquireRestToken key).acquires x).key = key' ∧
        ((s.acquireRestToken key).acquires x).phase ≠ .granted := by
    intro key' b x hb hx
    rw [acquires_other s key (Nat.ne_of_lt ((hi.lawful key' b hb).born hx).1)]
    exact hq.waiting key' b hb x hx
  constructor
  · intro key' b hb x hx
    change (s.buckets.set key _).get key' = some b at hb
    rcases InsertMap.get_set_eq_some hb with ⟨rfl, rfl⟩ | ⟨-, hbefore⟩
    · rcases List.mem_append.mp hx with hin | hnew
      · cases hget : s.buckets.get key' with
        | some b =>
          have hbucket : s.bucketFor key' = b := by
            unfold bucketFor
            rw [hget, Option.getD_some]
          exact hold key' b x hget (hbucket ▸ hin)
        | none =>
          have hbucket : s.bucketFor key' = .new s.now := by
            unfold bucketFor
            rw [hget, Option.getD_none]
          rw [hbucket] at hin
          contradiction
      · rw [List.mem_singleton.mp hnew, acquires_self]
        exact ⟨rfl, by simp⟩
    · exact hold key' b x hbefore hx
  · intro x wakeAt hx
    by_cases hxn : x = s.nextAcquire
    · rw [hxn, acquires_self] at hx
      contradiction
    · rw [acquires_other s key hxn] at hx
      exact hq.soon x wakeAt hx

theorem queued_step {s t : Throttle} {e : Event} (hq : s.Queued) (hi : s.Inv)
    (hs : machine.step s e = some t) : t.Queued := by
  cases moves_of_step hi hs with
  | tick ms =>
    refine ⟨hq.waiting, ?_⟩
    intro x wakeAt hx
    have hsoon := hq.soon x wakeAt hx
    change wakeAt ≤ s.now + ms + 100
    omega
  | acquireRestToken key => exact queued_acquireRestToken hq hi key
  | turn hget hhead hturn => exact queued_turns hq hi hget hhead hturn

theorem queued_reach {s : Throttle} (h : machine.Reach always s) : s.Queued := by
  refine h.invariant ?_ ?_
  · rintro s ⟨now, rfl⟩
    exact queued_initial now
  · intro s e t hr hq hs _
    exact queued_step hq (inv_reach hr) hs

/-! ### The bound -/

/-- The acquire has its token, or with `p` before it there is time for the `p` tokens that these take,
counted from the end of the sleep under way or from now. -/
def Near (s : Throttle) (key : String) (x : ℕ) (limit : ℤ) : Prop :=
  (s.acquires x).phase = .granted ∨ ∃ (b : Bucket) (p : ℕ), s.buckets.get key = some b ∧
    b.chain[p]? = some x ∧ s.now + 100 * p ≤ limit ∧
    ∀ y, b.chain.head? = some y → match (s.acquires y).phase with
      | .sleeping wakeAt => wakeAt + 100 * p ≤ limit
      | _ => s.now + 100 * (p + 1) ≤ limit

theorem near_start {s : Throttle} (hq : s.Queued) {key : String} {b : Bucket} {i x : ℕ}
    (hget : s.buckets.get key = some b) (hx : b.chain[i]? = some x) :
    s.Near key x (s.now + 100 * (i + 1)) := by
  refine .inr ⟨b, i, hget, hx, by omega, ?_⟩
  intro y _
  split
  next wakeAt hphase =>
    have hsoon := hq.soon y wakeAt hphase
    omega
  next => exact le_refl _

theorem near_tick {s : Throttle} (hi : s.Inv) (hq : s.Queued) {key : String} {x : ℕ} {limit : ℤ}
    {ms : ℕ} (h : s.Near key x limit)
    (hprompt : (List.range s.nextAcquire).all (s.onTime ms) = true) :
    Near { s with now := s.now + ms } key x limit := by
  rcases h with hgranted | ⟨b, p, hget, hx, hnow, hhead⟩
  · exact .inl hgranted
  · right
    cases hfirst : b.chain.head? with
    | none =>
      rw [List.head?_eq_none_iff] at hfirst
      rw [hfirst] at hx
      contradiction
    | some y =>
      have hy := List.mem_of_head? hfirst
      obtain ⟨hborn, hkey⟩ := (hi.lawful key b hget).born hy
      have hbucket : s.bucket y = b := by
        unfold bucket bucketFor
        rw [hkey, hget, Option.getD_some]
      have hnear := hhead y hfirst
      have hontime := List.all_eq_true.mp hprompt y (List.mem_range.mpr hborn)
      unfold onTime at hontime
      have hwaiting := (hq.waiting key b hget y hy).2
      split at hnear
      next wakeAt hphase =>
        rw [hphase] at hontime
        have hle : s.now + ms ≤ wakeAt := of_decide_eq_true hontime
        refine ⟨b, p, hget, hx, by change s.now + ms + _ ≤ _; omega, ?_⟩
        intro z hz
        rw [hfirst] at hz
        cases hz
        change match (s.acquires y).phase with
          | .sleeping wakeAt => wakeAt + 100 * (p : ℤ) ≤ limit
          | _ => s.now + ms + 100 * ((p : ℤ) + 1) ≤ limit
        rw [hphase]
        exact hnear
      next hnot =>
        -- A link that could begin does not let the clock go on.
        cases hphase : (s.acquires y).phase with
        | sleeping wakeAt => exact absurd hphase (hnot wakeAt)
        | granted => exact absurd hphase hwaiting
        | chained =>
          rw [hphase, hbucket, hfirst] at hontime
          simp at hontime

theorem near_acquireRestToken {s : Throttle} (hi : s.Inv) {key : String} {x : ℕ} {limit : ℤ}
    (hx : x < s.nextAcquire) (h : s.Near key x limit) (key' : String) :
    (s.acquireRestToken key').Near key x limit := by
  rcases h with hgranted | ⟨b, p, hget, hpos, hnow, hhead⟩
  · left
    rw [acquires_other s key' (Nat.ne_of_lt hx)]
    exact hgranted
  · obtain ⟨b', hget', rest, hrest⟩ := chain_acquireRestToken s key' key hget
    have hlt := (List.getElem?_eq_some_iff.mp hpos).1
    refine .inr ⟨b', p, hget', ?_, hnow, ?_⟩
    · rw [← hrest, List.getElem?_append_left hlt]
      exact hpos
    · intro y hy
      have hfirst : b.chain.head? = some y := by
        rw [← hrest, List.head?_append_of_ne_nil] at hy
        · exact hy
        · rintro hnil
          rw [hnil] at hpos
          contradiction
      rw [acquires_other s key' (Nat.ne_of_lt ((hi.lawful key b hget).born (List.mem_of_head? hfirst)).1)]
      exact hhead y hfirst

theorem near_turns {s t : Throttle} (hi : s.Inv) {key : String} {x z : ℕ} {b : Bucket} {limit : ℤ}
    (h : s.Near key x limit) (hget : s.buckets.get (s.acquires z).key = some b)
    (hfirst : b.chain.head? = some z) (hturn : s.Turns z b t) : t.Near key x limit := by
  obtain ⟨hnow, -, hother, -, hbuckets, b', hget', hmoved⟩ := hturn.spec
  have hlawful := hi.lawful _ b hget
  rcases h with hgranted | ⟨c, p, hc, hpos, hbound, hhead⟩
  · by_cases hxz : x = z
    · rw [hxz] at hgranted ⊢
      rcases hmoved with ⟨-, -, hphase, -⟩ | ⟨hphase, -⟩
      · rw [hphase] at hgranted
        contradiction
      · exact .inl hphase
    · left
      rw [hother x hxz]
      exact hgranted
  · by_cases hkz : key = (s.acquires z).key
    · subst hkz
      rw [hget] at hc
      cases hc
      have hz := hhead z hfirst
      rcases hmoved with ⟨ms, hms, hchained, hphase, hchain⟩ | ⟨hphase, hchain⟩
      · rw [hchained] at hz
        refine .inr ⟨b', p, hget', by rw [hchain]; exact hpos, by rw [hnow]; exact hbound, ?_⟩
        intro y hy
        rw [hchain, hfirst] at hy
        cases hy
        rw [hphase]
        dsimp only at hz ⊢
        omega
      · cases p with
        | zero =>
          rw [← List.head?_eq_getElem?, hfirst] at hpos
          cases hpos
          exact .inl hphase
        | succ p =>
          refine .inr ⟨b', p, hget', ?_, ?_, ?_⟩
          · rw [hchain, List.getElem?_tail]
            exact hpos
          · rw [hnow]
            push_cast at hbound
            omega
          · intro y hy
            split
            next wakeAt hy' =>
              -- A sleeping acquire was the first of the chain, which has just left it.
              have hyz : y ≠ z := by
                rintro rfl
                rw [hphase] at hy'
                contradiction
              rw [hother y hyz] at hy'
              have hin : y ∈ b.chain := List.mem_of_mem_tail (hchain ▸ List.mem_of_head? hy)
              have hfirst' := (hlawful.sleeping y wakeAt hy' (hlawful.born hin).2).1
              exact absurd (Option.some.inj (hfirst'.symm.trans hfirst)) hyz
            next =>
              rw [hnow]
              push_cast at hbound
              omega
    · refine .inr ⟨c, p, (hbuckets key hkz).trans hc, hpos, by rw [hnow]; exact hbound, ?_⟩
      intro y hy
      have hyz : y ≠ z := by
        rintro rfl
        exact hkz ((hi.lawful key c hc).born (List.mem_of_head? hy)).2.symm
      rw [hother y hyz, hnow]
      exact hhead y hy

theorem near_step {s t : Throttle} {e : Event} (hi : s.Inv) (hq : s.Queued)
    (hs : machine.step s e = some t) (hprompt : Prompt s e t) {key : String} {x : ℕ} {limit : ℤ}
    (hx : x < s.nextAcquire) (h : s.Near key x limit) : x < t.nextAcquire ∧ t.Near key x limit := by
  cases moves_of_step hi hs with
  | tick ms => exact ⟨hx, near_tick hi hq h hprompt⟩
  | acquireRestToken key' => exact ⟨Nat.lt_succ_of_lt hx, near_acquireRestToken hi hx h key'⟩
  | turn hget hfirst hturn =>
    refine ⟨?_, near_turns hi h hget hfirst hturn⟩
    rw [hturn.spec.2.1]
    exact hx

theorem near_run {s t : Throttle} (hs : machine.Reach always s) (ht : (machine.startingAt s).Reach Prompt t)
    {key : String} {x : ℕ} {limit : ℤ} (hx : x < s.nextAcquire) (h : s.Near key x limit) :
    t.Near key x limit := by
  have hrun : x < t.nextAcquire ∧ t.Near key x limit := by
    refine ht.invariant (P := fun t => x < t.nextAcquire ∧ t.Near key x limit) ?_ ?_
    · rintro u rfl
      exact ⟨hx, h⟩
    · intro u e v hu hnear hstep hprompt
      have hr := hs.append (hu.mono fun _ _ _ _ _ => trivial)
      exact near_step (inv_reach hr) (queued_reach hr) hstep hprompt hnear.1 hnear.2
  exact hrun.2

/-- A caller with `i` callers before it has its token no later than 100 ms for each of them and for
itself, whatever else is called, if the event loop is not late. -/
theorem served_on_time {s t : Throttle} (hs : machine.Reach always s)
    (ht : (machine.startingAt s).Reach Prompt t) {key : String} {i x : ℕ}
    (hx : (s.bucketFor key).chain[i]? = some x) :
    (t.acquires x).phase = .granted ∨ t.now ≤ s.now + 100 * (i + 1) := by
  have hi := inv_reach hs
  cases hget : s.buckets.get key with
  | none =>
    unfold bucketFor at hx
    rw [hget] at hx
    contradiction
  | some b =>
    have hbucket : s.bucketFor key = b := by
      unfold bucketFor
      rw [hget, Option.getD_some]
    rw [hbucket] at hx
    have hborn := ((hi.lawful key b hget).born (List.mem_of_getElem? hx)).1
    rcases near_run hs ht hborn (near_start (queued_reach hs) hget hx) with hgranted | ⟨c, p, -, -, hbound, -⟩
    · exact .inl hgranted
    · right
      omega

/-- Twelve callers come at once. The last two sleep. -/
def crowd : List Event := List.replicate 12 (.acquireRestToken "cred-A")

def crowded : Throttle := machine.after always (initial 0) crowd

def crowdServed : Throttle := machine.after Prompt crowded
  ((List.range 11).map .link ++ [.tick 100, .wake 10, .link 11, .tick 100, .wake 11, .tick 1001])

theorem crowd_served : crowdServed.now = 1201 ∧ (crowdServed.acquires 11).phase = .granted := by
  have hinit : machine.Reach always (initial 0) := .init ⟨0, rfl⟩
  have hchain : (crowded.bucketFor "cred-A").chain[11]? = some 11 := by decide +kernel
  have hnow : crowdServed.now = 1201 := by decide +kernel
  refine ⟨hnow, ?_⟩
  rcases served_on_time (hinit.after crowd) (Machine.Reach.since machine Prompt crowded _) hchain with
    hgranted | hlate
  · exact hgranted
  · change crowdServed.now ≤ crowded.now + _ at hlate
    have hstart : crowded.now = 0 := by decide +kernel
    rw [hnow, hstart] at hlate
    omega

end Throttle

end UnoQ.Cloud
