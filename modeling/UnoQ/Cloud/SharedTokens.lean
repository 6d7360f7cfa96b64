import UnoQ.Cloud.ThrottledCalls
import UnoQ.Cloud.TokenCoherence

/-!
# The access tokens of the wrappers

The wrappers get their access tokens as `getAccessToken` by itself gives them: what a call has done
before and does afterwards takes no part in the cache. So a call of a wrapper goes on with a token
of its own credential only.
-/

namespace UnoQ.Cloud
open Transition

/-- The call has asked for an access token and has not used it. -/
def CallPhase.asking : CallPhase → Bool
  | .fetching _ | .authorised _ => true
  | _ => false

/-- Where the call that it made of `getAccessToken` then stands. -/
def CallPhase.Asked (phase : CallPhase) (asked : TokenCallPhase) : Prop :=
  match phase with
  | .fetching f => asked = .awaiting f
  | .authorised accessToken => asked.returned = some accessToken
  | _ => True

namespace RestApi

structure SameCache (s : RestApi) (t : TokenCalls) : Prop where
  now : t.now = s.now
  entries : t.entries = s.entries
  nextFetch : t.nextFetch = s.nextFetch
  fetches : t.fetches = s.fetches

/-- `caller x` is the call that `x` made of `getAccessToken`. -/
structure SameCallers (caller : ℕ → ℕ) (s : RestApi) (t : TokenCalls) : Prop where
  asked : ∀ x, (s.calls x).phase.asking = true → caller x < t.nextCall ∧
    (t.calls (caller x)).request = (s.calls x).credential ∧
    (s.calls x).phase.Asked (t.calls (caller x)).phase
  distinct : ∀ x y, (s.calls x).phase.asking = true → (s.calls y).phase.asking = true →
    caller x = caller y → x = y
  free : ∀ x, (s.calls x).credential.NulFree

variable {s s' : RestApi} {t t' : TokenCalls} {caller : ℕ → ℕ}

theorem SameCache.getEntry (h : s.SameCache t) (key : String) : t.getEntry key = s.getEntry key := by
  unfold TokenCalls.getEntry RestApi.getEntry
  rw [h.entries]

theorem credential_setPhase (s : RestApi) (x : ℕ) (phase : CallPhase) (y : ℕ) :
    ((s.setPhase x phase).calls y).credential = (s.calls y).credential := by
  by_cases hyx : y = x
  · subst hyx
    rw [calls_setPhase_self]
  · rw [calls_setPhase_ne s hyx]

theorem SameCallers.quiet (h : s.SameCallers caller t)
    (hcalls : ∀ y, s'.calls y = s.calls y ∨
      (s'.calls y).phase.asking = false ∧ (s'.calls y).credential.NulFree) :
    s'.SameCallers caller t := by
  have hold : ∀ y, (s'.calls y).phase.asking = true → s'.calls y = s.calls y := by
    intro y hy
    rcases hcalls y with hsame | ⟨hquiet, -⟩
    · exact hsame
    · rw [hquiet] at hy
      contradiction
  constructor
  · intro x hx
    have hsame := hold x hx
    rw [hsame] at hx ⊢
    exact h.asked x hx
  · intro x y hx hy heq
    have hsameX := hold x hx
    have hsameY := hold y hy
    rw [hsameX] at hx
    rw [hsameY] at hy
    exact h.distinct x y hx hy heq
  · intro x
    rcases hcalls x with hsame | ⟨-, hfree⟩
    · rw [hsame]
      exact h.free x
    · exact hfree

theorem SameCallers.setPhase (h : s.SameCallers caller t) {x : ℕ} {phase : CallPhase}
    (hphase : phase.asking = false) (hcalls : s'.calls = (s.setPhase x phase).calls) :
    s'.SameCallers caller t := by
  refine h.quiet ?_
  intro y
  rw [hcalls]
  by_cases hyx : y = x
  · subst hyx
    rw [calls_setPhase_self]
    exact .inr ⟨hphase, h.free y⟩
  · exact .inl (calls_setPhase_ne s hyx phase)

theorem SameCallers.enter (h : s.SameCallers caller t) {x : ℕ} (phase : CallPhase)
    (asked : TokenCallPhase) (hasked : phase.Asked asked)
    (hs : s'.calls = (s.setPhase x phase).calls)
    (ht : t'.calls = (t.enter (s.calls x).credential asked).calls)
    (hnext : t'.nextCall = t.nextCall + 1) :
    s'.SameCallers (Function.update caller x t.nextCall) t' := by
  have hother : ∀ y, y ≠ x → s'.calls y = s.calls y ∧ Function.update caller x t.nextCall y = caller y := by
    intro y hyx
    rw [hs]
    exact ⟨calls_setPhase_ne s hyx phase, Function.update_of_ne hyx _ _⟩
  constructor
  · intro y hy
    by_cases hyx : y = x
    · subst hyx
      rw [Function.update_self, hs, calls_setPhase_self, ht, TokenCalls.calls_enter, if_pos rfl, hnext]
      exact ⟨Nat.lt_succ_self _, rfl, hasked⟩
    · obtain ⟨hcall, hcaller⟩ := hother y hyx
      rw [hcall] at hy ⊢
      obtain ⟨hlt, hrest⟩ := h.asked y hy
      rw [hcaller, ht, TokenCalls.calls_enter, if_neg (by omega), hnext]
      exact ⟨Nat.lt_succ_of_lt hlt, hrest⟩
  · intro y z hy hz heq
    by_cases hyx : y = x
    · by_cases hzx : z = x
      · exact hyx.trans hzx.symm
      · obtain ⟨hcall, hcaller⟩ := hother z hzx
        rw [hcall] at hz
        have hlt := (h.asked z hz).1
        rw [hyx, Function.update_self, hcaller] at heq
        omega
    · obtain ⟨hcall, hcaller⟩ := hother y hyx
      rw [hcall] at hy
      have hlt := (h.asked y hy).1
      by_cases hzx : z = x
      · rw [hzx, Function.update_self, hcaller] at heq
        omega
      · obtain ⟨hcall', hcaller'⟩ := hother z hzx
        rw [hcall'] at hz
        rw [hcaller, hcaller'] at heq
        exact h.distinct y z hy hz heq
  · intro y
    rw [hs, credential_setPhase]
    exact h.free y

theorem SameCallers.resume (h : s.SameCallers caller t) {x f : ℕ}
    (hx : (s.calls x).phase = .fetching f) (outcome : Except String CachedToken) :
    (s.resume x outcome).SameCallers caller (t.setCall (caller x) (.after f outcome)) := by
  have hasking : (s.calls x).phase.asking = true := by
    rw [hx]
    rfl
  obtain ⟨hlt, hrequest, -⟩ := h.asked x hasking
  have hrest : ∀ y, y ≠ x → (s.calls y).phase.asking = true →
      (t.setCall (caller x) (.after f outcome)).calls (caller y) = t.calls (caller y) := by
    intro y hyx hy
    rw [TokenCalls.calls_setCall, if_neg]
    intro heq
    exact hyx (h.distinct y x hy hasking heq)
  have hmoved : ∀ phase : CallPhase, phase.Asked (.after f outcome) →
      (s.setPhase x phase).SameCallers caller (t.setCall (caller x) (.after f outcome)) := by
    intro phase hphase
    have hasker : ∀ y, ((s.setPhase x phase).calls y).phase.asking = true →
        (s.calls y).phase.asking = true := by
      intro y hy
      by_cases hyx : y = x
      · rw [hyx]
        exact hasking
      · rw [calls_setPhase_ne s hyx] at hy
        exact hy
    constructor
    · intro y hy
      by_cases hyx : y = x
      · subst hyx
        rw [calls_setPhase_self, TokenCalls.calls_setCall, if_pos rfl]
        exact ⟨hlt, hrequest, hphase⟩
      · rw [calls_setPhase_ne s hyx] at hy ⊢
        rw [hrest y hyx hy]
        exact h.asked y hy
    · intro y z hy hz heq
      exact h.distinct y z (hasker y hy) (hasker z hz) heq
    · intro y
      rw [credential_setPhase]
      exact h.free y
  cases outcome with
  | ok token => exact hmoved _ rfl
  | error message => exact hmoved _ trivial

/-! ### The entries -/

theorem SameCache.frame (h : s.SameCache t) (hnow : s'.now = s.now) (hentries : s'.entries = s.entries)
    (hfetches : s'.fetches = s.fetches) (hnext : s'.nextFetch = s.nextFetch) : s'.SameCache t where
  now := h.now.trans hnow.symm
  entries := h.entries.trans hentries.symm
  nextFetch := h.nextFetch.trans hnext.symm
  fetches := h.fetches.trans hfetches.symm

theorem SameCache.getAccessToken (h : s.SameCache t) (hcallers : s.SameCallers caller t) (x : ℕ) :
    (s.getAccessToken x).SameCache (t.getAccessToken (s.calls x).credential) ∧
      (s.getAccessToken x).SameCallers (Function.update caller x t.nextCall)
        (t.getAccessToken (s.calls x).credential) := by
  unfold RestApi.getAccessToken TokenCalls.getAccessToken
  dsimp only
  rw [h.getEntry, h.now]
  cases (s.getEntry (cacheKey (s.calls x).credential)).cached s.now with
  | some accessToken =>
    exact ⟨⟨h.now, h.entries, h.nextFetch, h.fetches⟩,
      hcallers.enter (.authorised accessToken) (.served accessToken s.now) rfl rfl rfl rfl⟩
  | none =>
    cases (s.getEntry (cacheKey (s.calls x).credential)).pending with
    | some f =>
      exact ⟨⟨h.now, h.entries, h.nextFetch, h.fetches⟩,
        hcallers.enter (.fetching f) (.awaiting f) rfl rfl rfl rfl⟩
    | none =>
      refine ⟨?_, hcallers.enter (.fetching s.nextFetch) (.awaiting s.nextFetch) rfl rfl ?_ rfl⟩
      · constructor
        · exact h.now
        · show t.entries.set _ { t.getEntry _ with pending := some t.nextFetch } = _
          rw [h.getEntry, h.entries, h.nextFetch]
        · exact congrArg Nat.succ h.nextFetch
        · show Function.update t.fetches t.nextFetch ⟨_, t.now, .inFlight⟩ = _
          rw [h.fetches, h.nextFetch, h.now]
      · show (t.startFetch (s.calls x).credential).calls = _
        rw [← h.nextFetch]
        rfl

theorem SameCache.setFetch (h : s.SameCache t) (f : ℕ) (phase : FetchPhase) :
    (s.setFetch f phase).SameCache (t.setFetch f phase) := by
  refine ⟨h.now, h.entries, h.nextFetch, ?_⟩
  show Function.update t.fetches f { t.fetches f with phase := phase } = _
  rw [h.fetches]
  rfl

theorem SameCache.answered (h : s.SameCache t) (f : ℕ) (response : TokenResponse) :
    (s.answered f response).SameCache (t.setFetch f (.answered (fetchToken response t.now))) := by
  rw [h.now]
  exact h.setFetch f _

theorem SameCache.settle (h : s.SameCache t) (f : ℕ) (outcome : Except String CachedToken) :
    (s.settle f outcome).SameCache (t.settle f outcome) := by
  have hset := h.setFetch f (.settled outcome)
  refine ⟨hset.now, ?_, hset.nextFetch, hset.fetches⟩
  show t.entries.set (t.fetches f).key ((t.getEntry (t.fetches f).key).settle outcome) = _
  rw [h.fetches, h.getEntry, h.entries]
  rfl

/-! ### Runs -/

def NulFreeCalls : Guard RestApi Event := fun _ e _ =>
  match e with
  | .call _ credential => credential.NulFree
  | _ => True

/-- A run of `getAccessToken` by itself has the entries of the wrappers and serves their calls. -/
def Asks (s : RestApi) : Prop :=
  ∃ caller t, TokenCalls.machine.Reach TokenCalls.NulFree t ∧ s.SameCache t ∧ s.SameCallers caller t

theorem Asks.quiet (h : s.Asks) (hnow : s'.now = s.now) (hentries : s'.entries = s.entries)
    (hfetches : s'.fetches = s.fetches) (hnext : s'.nextFetch = s.nextFetch)
    (hcalls : ∀ y, s'.calls y = s.calls y ∨
      (s'.calls y).phase.asking = false ∧ (s'.calls y).credential.NulFree) : s'.Asks := by
  obtain ⟨caller, t, ht, hcache, hcallers⟩ := h
  exact ⟨caller, t, ht, hcache.frame hnow hentries hfetches hnext, hcallers.quiet hcalls⟩

theorem Asks.setPhase (h : s.Asks) {x : ℕ} {phase : CallPhase} (hphase : phase.asking = false)
    (hnow : s'.now = s.now) (hentries : s'.entries = s.entries) (hfetches : s'.fetches = s.fetches)
    (hnext : s'.nextFetch = s.nextFetch) (hcalls : s'.calls = (s.setPhase x phase).calls) :
    s'.Asks := by
  obtain ⟨caller, t, ht, hcache, hcallers⟩ := h
  exact ⟨caller, t, ht, hcache.frame hnow hentries hfetches hnext, hcallers.setPhase hphase hcalls⟩

theorem asks_initial (now : ℤ) : (initial now).Asks := by
  refine ⟨id, .initial now, .init ⟨now, rfl⟩, ?_, ?_⟩
  · exact ⟨rfl, rfl, rfl, rfl⟩
  · constructor
    · intro x hx
      contradiction
    · intro x y hx
      contradiction
    · intro x
      show TokenRequest.NulFree ⟨"", "", none⟩
      decide

theorem Asks.step (h : s.Asks) {e : Event} (hstep : s.step e = some s')
    (hfree : NulFreeCalls s e s') : s'.Asks := by
  cases effect_of_step hstep with
  | tick ms =>
    obtain ⟨caller, t, ht, hcache, hcallers⟩ := h
    have hclock : TokenCalls.machine.step t (.clock (s.now + ms)) =
        some { t with now := s.now + ms } := rfl
    refine ⟨caller, _, ht.step hclock trivial, ?_, ?_⟩
    · exact ⟨rfl, hcache.entries, hcache.nextFetch, hcache.fetches⟩
    · exact ⟨hcallers.asked, hcallers.distinct, hcallers.free⟩
  | call operation credential =>
    refine h.quiet rfl rfl rfl rfl ?_
    intro y
    by_cases hy : y = s.nextCall
    · rw [hy, calls_call_self]
      exact .inr ⟨rfl, hfree⟩
    · exact .inl (calls_call_ne s operation credential hy)
  | link =>
    unfold RestApi.link
    dsimp only
    split
    · exact h.setPhase rfl rfl rfl rfl rfl rfl
    · exact h.setPhase rfl rfl rfl rfl rfl rfl
  | wake => exact h.setPhase rfl rfl rfl rfl rfl rfl
  | @getAccessToken x =>
    obtain ⟨caller, t, ht, hcache, hcallers⟩ := h
    obtain ⟨hcache', hcallers'⟩ := hcache.getAccessToken hcallers x
    have hcall : TokenCalls.machine.step t (.getAccessToken (s.calls x).credential) =
        some (t.getAccessToken (s.calls x).credential) := rfl
    exact ⟨_, _, ht.step hcall (hcallers.free x), hcache', hcallers'⟩
  | @answered f response hphase =>
    obtain ⟨caller, t, ht, hcache, hcallers⟩ := h
    rw [← hcache.fetches] at hphase
    have hanswered : TokenCalls.machine.step t (.answered f response) =
        some (t.setFetch f (.answered (fetchToken response t.now))) := by
      simp only [TokenCalls.machine, TokenCalls.step, hphase]
    exact ⟨caller, _, ht.step hanswered trivial, hcache.answered f response, hcallers.asked,
      hcallers.distinct, hcallers.free⟩
  | @settle f outcome hphase =>
    obtain ⟨caller, t, ht, hcache, hcallers⟩ := h
    rw [← hcache.fetches] at hphase
    have hsettle : TokenCalls.machine.step t (.settle f) = some (t.settle f outcome) := by
      simp only [TokenCalls.machine, TokenCalls.step, hphase]
    exact ⟨caller, _, ht.step hsettle trivial, hcache.settle f outcome, hcallers.asked,
      hcallers.distinct, hcallers.free⟩
  | @resume x f outcome hphase houtcome =>
    obtain ⟨caller, t, ht, hcache, hcallers⟩ := h
    obtain ⟨-, -, hasked⟩ := hcallers.asked x (by rw [hphase]; rfl)
    rw [hphase] at hasked
    rw [← hcache.fetches] at houtcome
    have hresume : TokenCalls.machine.step t (.resume (caller x)) =
        some (t.setCall (caller x) (.after f outcome)) := by
      have hawaiting : (t.calls (caller x)).phase = .awaiting f := hasked
      simp only [TokenCalls.machine, TokenCalls.step, hawaiting, houtcome]
    refine ⟨caller, _, ht.step hresume trivial, ?_, hcallers.resume hphase outcome⟩
    cases outcome with
    | ok token => exact ⟨hcache.now, hcache.entries, hcache.nextFetch, hcache.fetches⟩
    | error message => exact ⟨hcache.now, hcache.entries, hcache.nextFetch, hcache.fetches⟩
  | request => exact h.setPhase rfl rfl rfl rfl rfl rfl

theorem asks_reach (h : machine.Reach NulFreeCalls s) : s.Asks := by
  refine h.invariant (P := Asks) ?_ ?_
  · intro s hs
    obtain ⟨now, rfl⟩ := hs
    exact asks_initial now
  · intro s e s' _ hasks hstep hfree
    exact hasks.step hstep hfree

/-- The access token with which a call goes on was fetched for its own credential. -/
theorem authorised_own (h : machine.Reach NulFreeCalls s) {x : ℕ} {accessToken : String}
    (hx : (s.calls x).phase = .authorised accessToken) :
    ∃ t f token, TokenCalls.machine.Reach TokenCalls.NulFree t ∧ s.SameCache t ∧
      t.Brought (s.calls x).credential f token ∧ token.accessToken = accessToken := by
  obtain ⟨caller, t, ht, hcache, hcallers⟩ := asks_reach h
  obtain ⟨hlt, hrequest, hasked⟩ := hcallers.asked x (by rw [hx]; rfl)
  rw [hx] at hasked
  obtain ⟨f, token, hbrought, hbearer⟩ :=
    (TokenCalls.separable_reach ht).own (TokenCalls.inv_reach ht) hlt hasked
  rw [hrequest] at hbrought
  exact ⟨t, f, token, ht, hcache, hbrought, hbearer⟩

end RestApi

end UnoQ.Cloud
