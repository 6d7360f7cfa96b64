import UnoQ.Cloud.TokenCalls

/-!
# The fetches of the token cache

The mark of an entry names the one fetch of its key that has not ended, which is also the last of
its key. A token in the cache or with a caller comes from a fetch of that key that has ended. When
the last fetch of a key has brought no token, the entry is as old as it was at the fetch's start.
-/

namespace UnoQ.Cloud
open Transition

namespace TokenCalls

/-- The fetch is one of the key and has ended so. -/
def Settled (s : TokenCalls) (key : String) (f : ℕ) (outcome : Except String CachedToken) : Prop :=
  f < s.nextFetch ∧ (s.fetches f).key = key ∧ (s.fetches f).phase = .settled outcome

def Latest (s : TokenCalls) (f : ℕ) : Prop :=
  f < s.nextFetch ∧ ∀ g < s.nextFetch, (s.fetches g).key = (s.fetches f).key → g ≤ f

structure Marks (s : TokenCalls) : Prop where
  marked : ∀ f, (s.fetches f).phase.unsettled = true →
    (s.getEntry (s.fetches f).key).pending = some f
  mark : ∀ key f, (s.getEntry key).pending = some f →
    s.Latest f ∧ (s.fetches f).key = key ∧ (s.fetches f).phase.unsettled = true

structure Stored (s : TokenCalls) : Prop where
  stored : ∀ key token, (s.getEntry key).token = some token → ∃ f, s.Settled key f (.ok token)
  stale : ∀ f, s.Latest f → (∀ token, (s.fetches f).phase ≠ .settled (.ok token)) →
    (s.getEntry (s.fetches f).key).cached (s.fetches f).startedAt = none

/-- What a call has to go by. -/
def Backed (s : TokenCalls) (c : TokenCall) : Prop :=
  match c.phase with
  | .served accessToken now => ∃ f token, s.Settled (cacheKey c.request) f (.ok token) ∧
      token.accessToken = accessToken ∧ EXPIRY_SAFETY_MARGIN_MS < token.expiresAt - now
  | .awaiting f => f < s.nextFetch ∧ (s.fetches f).key = cacheKey c.request
  | .resolved f accessToken => ∃ token, s.Settled (cacheKey c.request) f (.ok token) ∧
      token.accessToken = accessToken
  | .rejected f message => s.Settled (cacheKey c.request) f (.error message)

structure Inv (s : TokenCalls) : Prop where
  marks : s.Marks
  stored : s.Stored
  backed : ∀ x < s.nextCall, s.Backed (s.calls x)

/-! ### Fetches that go on -/

structure Extends (s t : TokenCalls) : Prop where
  nextFetch : s.nextFetch ≤ t.nextFetch
  key : ∀ f < s.nextFetch, (t.fetches f).key = (s.fetches f).key
  settled : ∀ f < s.nextFetch, ∀ outcome, (s.fetches f).phase = .settled outcome →
    (t.fetches f).phase = .settled outcome

variable {s t : TokenCalls}

theorem unsettled_inFlight {f : ℕ} (hf : (s.fetches f).phase = .inFlight) :
    (s.fetches f).phase.unsettled = true := by
  rw [hf]
  rfl

theorem unsettled_answered {f : ℕ} {outcome : Except String CachedToken}
    (hf : (s.fetches f).phase = .answered outcome) : (s.fetches f).phase.unsettled = true := by
  rw [hf]
  rfl

theorem Extends.settle (h : Extends s t) {key : String} {f : ℕ} {outcome : Except String CachedToken}
    (hf : s.Settled key f outcome) : t.Settled key f outcome := by
  obtain ⟨hlt, hkey, hphase⟩ := hf
  exact ⟨lt_of_lt_of_le hlt h.nextFetch, (h.key f hlt).trans hkey, h.settled f hlt outcome hphase⟩

theorem Extends.backed (h : Extends s t) {c : TokenCall} (hc : s.Backed c) : t.Backed c := by
  obtain ⟨request, phase⟩ := c
  cases phase with
  | served accessToken now =>
    obtain ⟨f, token, hf, hbearer, hmargin⟩ := hc
    exact ⟨f, token, h.settle hf, hbearer, hmargin⟩
  | awaiting f =>
    obtain ⟨hlt, hkey⟩ := hc
    exact ⟨lt_of_lt_of_le hlt h.nextFetch, (h.key f hlt).trans hkey⟩
  | resolved f accessToken =>
    obtain ⟨token, hf, hbearer⟩ := hc
    exact ⟨token, h.settle hf, hbearer⟩
  | rejected f message => exact h.settle hc

theorem extends_startFetch (s : TokenCalls) (req : TokenRequest) : Extends s (s.startFetch req) := by
  have hold : ∀ f < s.nextFetch, (s.startFetch req).fetches f = s.fetches f := by
    intro f hf
    rw [fetches_startFetch, if_neg (by omega)]
  constructor
  · exact Nat.le_succ _
  · intro f hf
    rw [hold f hf]
  · intro f hf outcome hphase
    rw [hold f hf]
    exact hphase

theorem extends_setFetch {f : ℕ} (hf : (s.fetches f).phase.unsettled = true) (phase : FetchPhase) :
    Extends s (s.setFetch f phase) := by
  constructor
  · exact le_rfl
  · intro g _
    rw [key_setFetch]
  · intro g _ outcome hphase
    rw [fetches_setFetch]
    split
    next hg =>
      subst hg
      rw [hphase] at hf
      contradiction
    · exact hphase

theorem extends_settle {f : ℕ} (hf : (s.fetches f).phase.unsettled = true)
    (outcome : Except String CachedToken) : Extends s (s.settle f outcome) := by
  obtain ⟨hnext, hkey, hsettled⟩ := extends_setFetch hf (.settled outcome)
  constructor
  · exact hnext
  · rw [fetches_settle]
    exact hkey
  · rw [fetches_settle]
    exact hsettled

/-! ### The mark -/

theorem Marks.alone (h : s.Marks) {f g : ℕ} (hf : (s.fetches f).phase.unsettled = true)
    (hg : (s.fetches g).phase.unsettled = true) (hkey : (s.fetches f).key = (s.fetches g).key) :
    f = g := by
  have hmark := h.marked f hf
  rw [hkey, h.marked g hg] at hmark
  exact (Option.some.inj hmark).symm

theorem Marks.startFetch (h : s.Marks) {req : TokenRequest}
    (hpending : (s.getEntry (cacheKey req)).pending = none) : (s.startFetch req).Marks := by
  have hentry := getEntry_set (s := s) (t := s.startFetch req) rfl
  constructor
  · intro f hf
    rw [fetches_startFetch] at hf ⊢
    split at hf
    next heq =>
      rw [if_pos heq, heq]
      exact congrArg CacheEntry.pending ((hentry _).trans (if_pos rfl))
    next hne =>
      have hmark := h.marked f hf
      rw [if_neg hne, hentry, if_neg]
      · exact hmark
      · -- the key had no mark, so none of its fetches goes on
        intro hkey
        rw [← hkey, hpending] at hmark
        contradiction
  · intro key f hf
    rw [hentry] at hf
    split at hf
    next hkey =>
      cases hf
      have hself : (s.startFetch req).fetches s.nextFetch = ⟨req, s.now, .inFlight⟩ := by
        rw [fetches_startFetch, if_pos rfl]
      refine ⟨⟨Nat.lt_succ_self _, fun g hg _ => Nat.lt_succ_iff.mp hg⟩, ?_, ?_⟩
      · rw [hself]
        exact hkey
      · rw [hself]
        rfl
    next hkey =>
      obtain ⟨⟨hlt, hlast⟩, hown, hphase⟩ := h.mark key f hf
      have hold : (s.startFetch req).fetches f = s.fetches f := by
        rw [fetches_startFetch, if_neg (by omega)]
      rw [hold]
      refine ⟨⟨Nat.lt_succ_of_lt hlt, ?_⟩, hown, hphase⟩
      intro g hg hsame
      rw [hold, fetches_startFetch] at hsame
      split at hsame
      · exact absurd (hsame.trans hown) hkey
      next hne =>
        have hbound : g < s.nextFetch + 1 := hg
        exact hlast g (by omega) hsame

theorem latest_setFetch {f g : ℕ} {phase : FetchPhase} :
    (s.setFetch f phase).Latest g ↔ s.Latest g := by
  simp only [Latest, key_setFetch]
  rfl

theorem unsettled_setFetch {f g : ℕ} {phase : FetchPhase}
    (hf : (s.fetches f).phase.unsettled = phase.unsettled) :
    ((s.setFetch f phase).fetches g).phase.unsettled = (s.fetches g).phase.unsettled := by
  rw [fetches_setFetch]
  split
  next hg =>
    rw [hg]
    exact hf.symm
  · rfl

theorem Marks.setFetch (h : s.Marks) {f : ℕ} {phase : FetchPhase}
    (hf : (s.fetches f).phase.unsettled = phase.unsettled) : (s.setFetch f phase).Marks := by
  constructor
  · intro g hg
    rw [unsettled_setFetch hf] at hg
    rw [key_setFetch]
    exact h.marked g hg
  · intro key g hg
    rw [latest_setFetch, key_setFetch, unsettled_setFetch hf]
    exact h.mark key g hg

theorem latest_settle {f g : ℕ} {outcome : Except String CachedToken} :
    (s.settle f outcome).Latest g ↔ s.Latest g := by
  simp only [Latest, fetches_settle, key_setFetch]
  rfl

theorem unsettled_settle {f g : ℕ} {outcome : Except String CachedToken}
    (hg : ((s.settle f outcome).fetches g).phase.unsettled = true) :
    g ≠ f ∧ (s.settle f outcome).fetches g = s.fetches g := by
  rw [fetches_settle, fetches_setFetch] at hg ⊢
  split at hg
  · contradiction
  next hne => exact ⟨hne, if_neg hne⟩

/-- The mark that the closure clears is its own. -/
theorem Marks.settle (h : s.Marks) {f : ℕ} {outcome : Except String CachedToken}
    (hf : (s.fetches f).phase = .answered outcome) : (s.settle f outcome).Marks := by
  have hentry := getEntry_set (s := s) (t := s.settle f outcome) rfl
  have hmark := h.marked f (unsettled_answered hf)
  constructor
  · intro g hg
    obtain ⟨hne, hsame⟩ := unsettled_settle hg
    rw [hsame] at hg ⊢
    rw [hentry, if_neg]
    · exact h.marked g hg
    · -- two fetches of one key would have one mark
      intro hkey
      rw [hkey, h.marked g hg] at hmark
      exact hne (Option.some.inj hmark)
  · intro key g hg
    rw [hentry] at hg
    split at hg
    next =>
      rw [pending_settle] at hg
      contradiction
    next hkey =>
      obtain ⟨hlatest, hown, hphase⟩ := h.mark key g hg
      have hne : g ≠ f := by
        intro hgf
        rw [hgf] at hown
        exact hkey hown
      rw [latest_settle, fetches_settle, fetches_setFetch, if_neg hne]
      exact ⟨hlatest, hown, hphase⟩

/-! ### The tokens -/

theorem Stored.startFetch (h : s.Stored) {req : TokenRequest}
    (hcached : (s.getEntry (cacheKey req)).cached s.now = none) : (s.startFetch req).Stored := by
  have hentry := getEntry_set (s := s) (t := s.startFetch req) rfl
  have htoken : ∀ key, ((s.startFetch req).getEntry key).token = (s.getEntry key).token := by
    intro key
    rw [hentry]
    split
    next hkey => rw [← hkey]
    · rfl
  have hcacheEq : ∀ key now, ((s.startFetch req).getEntry key).cached now =
      (s.getEntry key).cached now := by
    intro key now
    unfold CacheEntry.cached
    rw [htoken]
  constructor
  · intro key token hkey
    rw [htoken] at hkey
    obtain ⟨f, hf⟩ := h.stored key token hkey
    exact ⟨f, (extends_startFetch s req).settle hf⟩
  · intro f hlatest hno
    have hself : (s.startFetch req).fetches s.nextFetch = ⟨req, s.now, .inFlight⟩ := by
      rw [fetches_startFetch, if_pos rfl]
    rw [hcacheEq]
    by_cases hf : f = s.nextFetch
    · rw [hf, hself]
      exact hcached
    · have hold : (s.startFetch req).fetches f = s.fetches f := by
        rw [fetches_startFetch, if_neg hf]
      have hlt : f < s.nextFetch + 1 := hlatest.1
      rw [hold] at hno ⊢
      -- a fetch that has started last is not of the key
      refine h.stale f ⟨by omega, ?_⟩ hno
      intro g hg hsame
      refine hlatest.2 g (Nat.lt_succ_of_lt hg) ?_
      rw [hold, fetches_startFetch, if_neg (by omega)]
      exact hsame

theorem Stored.answered (h : s.Stored) {f : ℕ} {outcome : Except String CachedToken}
    (hf : (s.fetches f).phase = .inFlight) : (s.setFetch f (.answered outcome)).Stored := by
  constructor
  · intro key token hkey
    obtain ⟨g, hg⟩ := h.stored key token hkey
    exact ⟨g, (extends_setFetch (unsettled_inFlight hf) _).settle hg⟩
  · intro g hlatest hno
    rw [key_setFetch, startedAt_setFetch]
    refine h.stale g (latest_setFetch.mp hlatest) ?_
    intro token hphase
    refine hno token ?_
    rw [fetches_setFetch, if_neg]
    · exact hphase
    · intro hgf
      rw [hgf, hf] at hphase
      contradiction

theorem Stored.settle (h : s.Stored) (hm : s.Marks) {f : ℕ} {outcome : Except String CachedToken}
    (hf : (s.fetches f).phase = .answered outcome) : (s.settle f outcome).Stored := by
  have hentry := getEntry_set (s := s) (t := s.settle f outcome) rfl
  have hunsettled := unsettled_answered hf
  have hextends := extends_settle hunsettled outcome
  obtain ⟨hlast, -, -⟩ := hm.mark _ f (hm.marked f hunsettled)
  have hself : ((s.settle f outcome).fetches f).phase = .settled outcome := by
    rw [fetches_settle, fetches_setFetch, if_pos rfl]
  constructor
  · intro key token hkey
    rw [hentry] at hkey
    split at hkey
    next heq =>
      cases outcome with
      | ok stored =>
        cases hkey
        refine ⟨f, hlast.1, ?_, hself⟩
        rw [fetches_settle, key_setFetch]
        exact heq
      | error message =>
        obtain ⟨g, hg⟩ := h.stored _ token hkey
        rw [heq] at hg
        exact ⟨g, hextends.settle hg⟩
    next =>
      obtain ⟨g, hg⟩ := h.stored key token hkey
      exact ⟨g, hextends.settle hg⟩
  · intro g hlatest hno
    have hold := latest_settle.mp hlatest
    rw [fetches_settle, key_setFetch, startedAt_setFetch, hentry]
    split
    next hkey =>
      -- the last fetch of the key is the one that ends
      have hgf : g = f := Nat.le_antisymm (hlast.2 g hold.1 hkey.symm) (hold.2 f hlast.1 hkey)
      subst hgf
      cases outcome with
      | ok token => exact absurd hself (hno token)
      | error message =>
        refine h.stale g hold ?_
        intro token hphase
        rw [hf] at hphase
        contradiction
    next hkey =>
      refine h.stale g hold ?_
      intro token hphase
      exact hno token (hextends.settled g hold.1 _ hphase)

/-! ### The callers -/

theorem backed_enter {req : TokenRequest} {phase : TokenCallPhase}
    (hold : ∀ x < s.nextCall, t.Backed (s.calls x)) (hnew : t.Backed ⟨req, phase⟩)
    (hcalls : t.calls = (s.enter req phase).calls) {x : ℕ} (hx : x < s.nextCall + 1) :
    t.Backed (t.calls x) := by
  rw [hcalls, calls_enter]
  split
  · exact hnew
  next hne => exact hold x (by omega)

theorem Inv.enter (h : s.Inv) {req : TokenRequest} {phase : TokenCallPhase}
    (hnew : s.Backed ⟨req, phase⟩) : (s.enter req phase).Inv where
  marks := ⟨h.marks.marked, h.marks.mark⟩
  stored := ⟨h.stored.stored, h.stored.stale⟩
  backed _ hx := backed_enter (s := s) (t := s.enter req phase) h.backed hnew rfl hx

theorem Inv.getAccessToken (h : s.Inv) (req : TokenRequest) : (s.getAccessToken req).Inv := by
  rcases getAccessToken_cases s req with
    ⟨accessToken, hcached, heq⟩ | ⟨f, hpending, heq⟩ | ⟨hcached, hpending, heq⟩
  · rw [heq]
    obtain ⟨token, htoken, hmargin, hbearer⟩ := cached_eq_some.mp hcached
    obtain ⟨f, hf⟩ := h.stored.stored _ token htoken
    exact h.enter ⟨f, token, hf, hbearer, hmargin⟩
  · rw [heq]
    obtain ⟨hlatest, hkey, -⟩ := h.marks.mark _ f hpending
    exact h.enter ⟨hlatest.1, hkey⟩
  · rw [heq]
    have hextends := extends_startFetch s req
    have hnew : (s.startFetch req).Backed ⟨req, .awaiting s.nextFetch⟩ := by
      refine ⟨Nat.lt_succ_self _, ?_⟩
      rw [fetches_startFetch, if_pos rfl]
      rfl
    exact ⟨h.marks.startFetch hpending, h.stored.startFetch hcached, fun x hx =>
      backed_enter (s := s) (fun y hy => hextends.backed (h.backed y hy)) hnew rfl hx⟩

theorem Inv.answered (h : s.Inv) {f : ℕ} (hf : (s.fetches f).phase = .inFlight)
    (outcome : Except String CachedToken) : (s.setFetch f (.answered outcome)).Inv := by
  have hunsettled := unsettled_inFlight hf
  exact ⟨h.marks.setFetch hunsettled, h.stored.answered hf,
    fun x hx => (extends_setFetch hunsettled _).backed (h.backed x hx)⟩

theorem Inv.settle (h : s.Inv) {f : ℕ} {outcome : Except String CachedToken}
    (hf : (s.fetches f).phase = .answered outcome) : (s.settle f outcome).Inv := by
  have hunsettled := unsettled_answered hf
  exact ⟨h.marks.settle hf, h.stored.settle h.marks hf,
    fun x hx => (extends_settle hunsettled outcome).backed (h.backed x hx)⟩

theorem Inv.resume (h : s.Inv) {x f : ℕ} {outcome : Except String CachedToken}
    (hx : (s.calls x).phase = .awaiting f) (hf : (s.fetches f).phase = .settled outcome) :
    (s.setCall x (.after f outcome)).Inv where
  marks := ⟨h.marks.marked, h.marks.mark⟩
  stored := ⟨h.stored.stored, h.stored.stale⟩
  backed y hy := by
    rw [calls_setCall]
    split
    next hyx =>
      have hback := h.backed y hy
      rw [hyx] at hback
      unfold Backed at hback
      rw [hx] at hback
      have hsettled : s.Settled (cacheKey (s.calls x).request) f outcome :=
        ⟨hback.1, hback.2, hf⟩
      cases outcome with
      | ok token => exact ⟨token, hsettled, rfl⟩
      | error message => exact hsettled
    · exact h.backed y hy

theorem inv_initial (now : ℤ) : (initial now).Inv := by
  constructor
  · constructor
    · intro f hf
      contradiction
    · intro key f hf
      contradiction
  · constructor
    · intro key token hkey
      contradiction
    · intro f hf
      exact absurd hf.1 (Nat.not_lt_zero f)
  · intro x hx
    exact absurd hx (Nat.not_lt_zero x)

theorem Inv.step (h : s.Inv) {e : Event} (hstep : s.step e = some t) : t.Inv := by
  cases effect_of_step hstep with
  | clock now => exact ⟨⟨h.marks.marked, h.marks.mark⟩, ⟨h.stored.stored, h.stored.stale⟩, h.backed⟩
  | getAccessToken req => exact h.getAccessToken req
  | answered response hphase => exact h.answered hphase _
  | settle hphase => exact h.settle hphase
  | resume hcall hphase => exact h.resume hcall hphase

theorem inv_reach {ok : Guard TokenCalls Event} (h : machine.Reach ok s) : s.Inv := by
  refine h.invariant (P := Inv) ?_ ?_
  · intro s hs
    obtain ⟨now, rfl⟩ := hs
    exact inv_initial now
  · intro s e t _ hinv hstep _
    exact hinv.step hstep

end TokenCalls

end UnoQ.Cloud
