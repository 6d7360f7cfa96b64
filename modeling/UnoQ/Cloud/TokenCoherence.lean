import UnoQ.Cloud.TokenFetches

/-!
# The token cache is coherent

The key of an entry tells the triples apart when the fields are free of its separator. What the
fetches of a key are to each other and to the callers, the fetches of a triple are.
-/

namespace UnoQ.Cloud
open Transition

namespace TokenCalls

variable {s t : TokenCalls}

theorem fetch_step {e : Event} (hstep : s.step e = some t) {x : ℕ} (hx : x < s.nextCall) :
    x < t.nextCall ∧ (t.calls x).phase.fetch = (s.calls x).phase.fetch := by
  cases effect_of_step hstep with
  | clock now => exact ⟨hx, rfl⟩
  | getAccessToken req =>
    obtain ⟨phase, hcalls, hnext⟩ := calls_getAccessToken s req
    rw [hcalls, hnext, calls_enter, if_neg (by omega)]
    exact ⟨Nat.lt_succ_of_lt hx, rfl⟩
  | answered response => exact ⟨hx, rfl⟩
  | settle => exact ⟨hx, rfl⟩
  | @resume y f outcome hcall =>
    refine ⟨hx, ?_⟩
    rw [calls_setCall]
    split
    next hxy =>
      rw [hxy, hcall]
      cases outcome with
      | ok token => rfl
      | error message => rfl
    · rfl

theorem fetch_later {ok : Guard TokenCalls Event} {x : ℕ} (hx : x < s.nextCall)
    (h : (machine.startingAt s).Reach ok t) : (t.calls x).phase.fetch = (s.calls x).phase.fetch := by
  have hkeep : x < t.nextCall ∧ (t.calls x).phase.fetch = (s.calls x).phase.fetch := by
    refine h.invariant (P := fun t => x < t.nextCall ∧
      (t.calls x).phase.fetch = (s.calls x).phase.fetch) ?_ ?_
    · intro u hu
      subst hu
      exact ⟨hx, rfl⟩
    · intro u e v _ hu hstep _
      obtain ⟨hlt, hsame⟩ := fetch_step hstep hu.1
      exact ⟨hlt, hsame.trans hu.2⟩
  exact hkeep.2

/-! ### By triple -/

structure Separable (s : TokenCalls) : Prop where
  fetches : ∀ f < s.nextFetch, (s.fetches f).request.NulFree
  calls : ∀ x < s.nextCall, (s.calls x).request.NulFree

theorem Separable.step (h : s.Separable) {e : Event} (hstep : s.step e = some t)
    (hfree : NulFree s e t) : t.Separable := by
  cases effect_of_step hstep with
  | clock now => exact ⟨h.fetches, h.calls⟩
  | getAccessToken req =>
    constructor
    · intro f hf
      rcases getAccessToken_cases s req with ⟨accessToken, -, heq⟩ | ⟨g, -, heq⟩ | ⟨-, -, heq⟩
      · rw [heq] at hf ⊢
        exact h.fetches f hf
      · rw [heq] at hf ⊢
        exact h.fetches f hf
      · rw [heq] at hf ⊢
        rw [fetches_startFetch]
        split
        · exact hfree
        next hne =>
          have hbound : f < s.nextFetch + 1 := hf
          exact h.fetches f (by omega)
    · intro x hx
      obtain ⟨phase, hcalls, hnext⟩ := calls_getAccessToken s req
      rw [hnext] at hx
      rw [hcalls, calls_enter]
      split
      · exact hfree
      next hne => exact h.calls x (by omega)
  | answered response =>
    refine ⟨?_, h.calls⟩
    intro g hg
    rw [request_setFetch]
    exact h.fetches g hg
  | settle =>
    refine ⟨?_, h.calls⟩
    intro g hg
    rw [fetches_settle, request_setFetch]
    exact h.fetches g hg
  | resume =>
    refine ⟨h.fetches, ?_⟩
    intro x hx
    rw [calls_setCall]
    split
    next hxy =>
      rw [← hxy]
      exact h.calls x hx
    · exact h.calls x hx

theorem separable_reach (h : machine.Reach NulFree s) : s.Separable := by
  refine h.invariant (P := Separable) ?_ ?_
  · intro s hs
    obtain ⟨now, rfl⟩ := hs
    exact ⟨fun f hf => absurd hf (Nat.not_lt_zero f), fun x hx => absurd hx (Nat.not_lt_zero x)⟩
  · intro s e t _ hs hstep hfree
    exact hs.step hstep hfree

def Brought (s : TokenCalls) (req : TokenRequest) (f : ℕ) (token : CachedToken) : Prop :=
  f < s.nextFetch ∧ (s.fetches f).request.triple = req.triple ∧
    (s.fetches f).phase = .settled (.ok token)

theorem Separable.brought (h : s.Separable) {x : ℕ} (hx : x < s.nextCall) {f : ℕ} {token : CachedToken}
    (hf : s.Settled (cacheKey (s.calls x).request) f (.ok token)) :
    s.Brought (s.calls x).request f token := by
  obtain ⟨hlt, hkey, hphase⟩ := hf
  exact ⟨hlt, cacheKey_inj (h.fetches f hlt) (h.calls x hx) hkey, hphase⟩

/-- What a call has returned was fetched for its own triple. -/
theorem Separable.own (h : s.Separable) (hinv : s.Inv) {x : ℕ} (hx : x < s.nextCall)
    {accessToken : String} (hreturned : (s.calls x).phase.returned = some accessToken) :
    ∃ f token, s.Brought (s.calls x).request f token ∧ token.accessToken = accessToken := by
  have hback := hinv.backed x hx
  unfold Backed at hback
  cases hphase : (s.calls x).phase with
  | served bearer now =>
    rw [hphase] at hreturned hback
    cases hreturned
    obtain ⟨f, token, hf, hbearer, -⟩ := hback
    exact ⟨f, token, h.brought hx hf, hbearer⟩
  | awaiting f =>
    rw [hphase] at hreturned
    contradiction
  | resolved f bearer =>
    rw [hphase] at hreturned hback
    cases hreturned
    obtain ⟨token, hf, hbearer⟩ := hback
    exact ⟨f, token, h.brought hx hf, hbearer⟩
  | rejected f message =>
    rw [hphase] at hreturned
    contradiction

/-- The cache and its callers agree. The last field is about the call that comes after a failed
fetch; the clock may be set back behind the start of that fetch, and the token be good again. -/
structure Coherent (s : TokenCalls) : Prop where
  oneFlight : ∀ f g, (s.fetches f).phase.unsettled = true → (s.fetches g).phase.unsettled = true →
    (s.fetches f).request.triple = (s.fetches g).request.triple → f = g
  own : ∀ x < s.nextCall, ∀ accessToken, (s.calls x).phase.returned = some accessToken →
    ∃ f token, s.Brought (s.calls x).request f token ∧ token.accessToken = accessToken
  fresh : ∀ x < s.nextCall, ∀ accessToken now, (s.calls x).phase = .served accessToken now →
    ∃ f token, s.Brought (s.calls x).request f token ∧ token.accessToken = accessToken ∧
      EXPIRY_SAFETY_MARGIN_MS < token.expiresAt - now
  joined : ∀ x < s.nextCall, ∀ t, (machine.startingAt s).Reach always t →
    (t.calls x).phase.fetch = (s.calls x).phase.fetch
  rejects : ∀ x < s.nextCall, ∀ f message, (s.calls x).phase.fetch = some f →
    (s.fetches f).phase = .settled (.error message) → (s.calls x).phase = .rejected f message ∨
      ∃ t, s.step (.resume x) = some t ∧ (t.calls x).phase = .rejected f message
  failure : ∀ f message t, (s.fetches f).phase = .answered (.error message) →
    s.step (.settle f) = some t → (t.fetches f).phase = .settled (.error message) ∧
      (∀ key, (t.getEntry key).token = (s.getEntry key).token) ∧
      (t.getEntry (s.fetches f).key).pending = none
  again : ∀ f message req, f < s.nextFetch → req.triple = (s.fetches f).request.triple →
    (s.fetches f).phase = .settled (.error message) →
    (∀ g < s.nextFetch, (s.fetches g).request.triple = (s.fetches f).request.triple → g ≤ f) →
    (s.getEntry (cacheKey req)).pending = none ∧
      ((s.getEntry (cacheKey req)).cached s.now = none → s.getAccessToken req = s.startFetch req) ∧
      ((s.fetches f).startedAt ≤ s.now → (s.getEntry (cacheKey req)).cached s.now = none)

theorem Inv.rejects (h : s.Inv) {x f : ℕ} (hx : x < s.nextCall) {message : String}
    (hfetch : (s.calls x).phase.fetch = some f)
    (hf : (s.fetches f).phase = .settled (.error message)) :
    (s.calls x).phase = .rejected f message ∨
      ∃ t, s.step (.resume x) = some t ∧ (t.calls x).phase = .rejected f message := by
  have hback := h.backed x hx
  unfold Backed at hback
  cases hphase : (s.calls x).phase with
  | served accessToken now =>
    rw [hphase] at hfetch
    contradiction
  | awaiting g =>
    rw [hphase] at hfetch
    cases hfetch
    refine .inr ⟨s.setCall x (.after f (.error message)), ?_, ?_⟩
    · simp only [TokenCalls.step, hphase, hf]
    · rw [calls_setCall, if_pos rfl]
      rfl
  | resolved g accessToken =>
    rw [hphase] at hfetch hback
    cases hfetch
    obtain ⟨token, ⟨-, -, hok⟩, -⟩ := hback
    rw [hf] at hok
    cases hok
  | rejected g text =>
    rw [hphase] at hfetch hback
    cases hfetch
    have herror := hback.2.2
    rw [hf] at herror
    cases herror
    exact .inl rfl

theorem failure_settle {f : ℕ} {message : String} :
    ((s.settle f (.error message)).fetches f).phase = .settled (.error message) ∧
      (∀ key, ((s.settle f (.error message)).getEntry key).token = (s.getEntry key).token) ∧
      ((s.settle f (.error message)).getEntry (s.fetches f).key).pending = none := by
  have hentry := getEntry_set (s := s) (t := s.settle f (.error message)) rfl
  refine ⟨?_, ?_, ?_⟩
  · rw [fetches_settle, fetches_setFetch, if_pos rfl]
  · intro key
    rw [hentry]
    split
    next hkey =>
      rw [← hkey]
      rfl
    · rfl
  · rw [hentry, if_pos rfl]
    rfl

theorem Marks.unmarked (h : s.Marks) {f : ℕ} (hf : s.Latest f)
    (hsettled : (s.fetches f).phase.unsettled = false) :
    (s.getEntry (s.fetches f).key).pending = none := by
  cases hpending : (s.getEntry (s.fetches f).key).pending with
  | none => rfl
  | some g =>
    -- a mark is on the last fetch of the key, and that one has ended
    obtain ⟨hlatest, hkey, hphase⟩ := h.mark _ g hpending
    have hgf : g = f := Nat.le_antisymm (hf.2 g hlatest.1 hkey) (hlatest.2 f hf.1 hkey.symm)
    rw [hgf, hsettled] at hphase
    contradiction

/-- Runs whose requests have no separator in their fields keep the cache coherent. -/
theorem coherent_reach {s : TokenCalls} (h : machine.Reach NulFree s) : s.Coherent := by
  have hinv := inv_reach h
  have hsep := separable_reach h
  constructor
  · intro f g hf hg htriple
    exact hinv.marks.alone hf hg (cacheKey_congr htriple)
  · intro x hx accessToken hreturned
    exact hsep.own hinv hx hreturned
  · intro x hx accessToken now hphase
    have hback := hinv.backed x hx
    unfold Backed at hback
    rw [hphase] at hback
    obtain ⟨f, token, hf, hbearer, hmargin⟩ := hback
    exact ⟨f, token, hsep.brought hx hf, hbearer, hmargin⟩
  · intro x hx t ht
    exact fetch_later hx ht
  · intro x hx f message hfetch hf
    exact hinv.rejects hx hfetch hf
  · intro f message t hphase hstep
    simp only [TokenCalls.step, hphase, Option.some.injEq] at hstep
    subst hstep
    exact failure_settle
  · intro f message req hf htriple hphase hlast
    have hkey : cacheKey req = (s.fetches f).key := cacheKey_congr htriple
    -- the key of a fetch stands for its triple
    have hlatest : s.Latest f := by
      refine ⟨hf, ?_⟩
      intro g hg hsame
      exact hlast g hg (cacheKey_inj (hsep.fetches g hg) (hsep.fetches f hf) hsame)
    have hpending : (s.getEntry (cacheKey req)).pending = none := by
      rw [hkey]
      refine hinv.marks.unmarked hlatest ?_
      rw [hphase]
      rfl
    refine ⟨hpending, ?_, ?_⟩
    · intro hcached
      unfold getAccessToken
      rw [hcached, hpending]
    · intro hle
      have hstale := hinv.stored.stale f hlatest (by
        intro token hok
        rw [hphase] at hok
        cases hok)
      rw [← hkey] at hstale
      exact cached_mono hstale hle

def kitchen : TokenRequest := ⟨"client", "secret", none⟩

/-- Three calls share a fetch that fails, the last one when it has all but ended. The next call
fetches again, and the one after it is served from the cache. -/
def failedRun : List Event :=
  [.getAccessToken kitchen, .getAccessToken ⟨"client", "secret", some ""⟩,
    .answered 0 (.notOk "401 Unauthorized"), .getAccessToken kitchen, .settle 0, .resume 2,
    .resume 0, .resume 1, .clock 5000, .getAccessToken kitchen,
    .answered 1 (.payload (some "token") (some 300)), .settle 1, .resume 3, .clock 200000,
    .getAccessToken kitchen]

def failedState : TokenCalls := machine.after NulFree (initial 0) failedRun

theorem failedRun_coherent : failedState.nextFetch = 2 ∧
    (failedState.calls 1).phase =
      .rejected 0 "Arduino Cloud token request failed: 401 Unauthorized" ∧
    (failedState.calls 4).phase = .served "token" 200000 ∧ failedState.Coherent := by
  have hinit : machine.Reach NulFree (initial 0) := .init ⟨0, rfl⟩
  exact ⟨by decide +kernel, by decide +kernel, by decide +kernel,
    coherent_reach (hinit.after failedRun)⟩

end TokenCalls

end UnoQ.Cloud
