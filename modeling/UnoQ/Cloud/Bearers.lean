import Mathlib.Data.List.Forall2
import UnoQ.Cloud.SharedTokens

/-!
# The bearer tokens of the requests

`buildClient` awaits a token of the bucket and then an access token, and other calls go on in both
waits. What the SDK is told to request is still each call's own, with a token that was fetched for the
call's credential.
-/

namespace UnoQ.Cloud
open Transition

/-- The call has nothing more to do. -/
def CallPhase.ended : CallPhase → Bool
  | .requested | .failed _ => true
  | _ => false

namespace RestApi

variable {s s' : RestApi}

/-- The request of a call, with an access token that a fetch for its credential brought. -/
structure Bears (s : RestApi) (x : ℕ) (r : RestRequest) : Prop where
  requested : (s.calls x).phase = .requested
  operation : r.operation = (s.calls x).operation
  key : r.key = (s.calls x).key
  fetched : ∃ f < s.nextFetch, (s.fetches f).key = cacheKey (s.calls x).credential ∧
    ∃ token, (s.fetches f).phase = .settled (.ok token) ∧ token.accessToken = r.accessToken

/-- The calls of the requests, in their order. A call that has failed has made none. -/
def Requesters (s : RestApi) (xs : List ℕ) : Prop :=
  xs.Nodup ∧ (∀ x, x ∈ xs ↔ (s.calls x).phase = .requested) ∧ List.Forall₂ s.Bears xs s.requests

/-- What a call that has requested and a fetch that is settled see of a step: nothing. -/
structure Keeps (s s' : RestApi) : Prop where
  calls : ∀ x, (s.calls x).phase = .requested → s'.calls x = s.calls x
  fetches : ∀ f < s.nextFetch, ∀ outcome, (s.fetches f).phase = .settled outcome →
    s'.fetches f = s.fetches f
  born : s.nextFetch ≤ s'.nextFetch

theorem Bears.keep {x : ℕ} {r : RestRequest} (h : s.Bears x r) (hk : s.Keeps s') : s'.Bears x r := by
  obtain ⟨f, hf, hkey, token, houtcome, hbearer⟩ := h.fetched
  have hcall := hk.calls x h.requested
  have hfetch := hk.fetches f hf _ houtcome
  constructor
  · rw [hcall]
    exact h.requested
  · rw [hcall]
    exact h.operation
  · rw [hcall]
    exact h.key
  · rw [hcall]
    refine ⟨f, lt_of_lt_of_le hf hk.born, ?_⟩
    rw [hfetch]
    exact ⟨hkey, token, houtcome, hbearer⟩

theorem keeps_setPhase {x : ℕ} {phase : CallPhase} (hx : (s.calls x).phase ≠ .requested)
    (hcalls : s'.calls = (s.setPhase x phase).calls)
    (hfetches : ∀ f < s.nextFetch, s'.fetches f = s.fetches f) (hnext : s.nextFetch ≤ s'.nextFetch) :
    s.Keeps s' := by
  refine ⟨?_, fun f hf _ _ => hfetches f hf, hnext⟩
  intro y hy
  have hyx : y ≠ x := by
    rintro rfl
    exact hx hy
  rw [hcalls, calls_setPhase_ne s hyx]

theorem keeps_setFetch {f : ℕ} (hf : ∀ outcome, (s.fetches f).phase ≠ .settled outcome)
    (phase : FetchPhase) (hcalls : s'.calls = s.calls) (hnext : s'.nextFetch = s.nextFetch)
    (hfetches : s'.fetches = (s.setFetch f phase).fetches) : s.Keeps s' := by
  refine ⟨?_, ?_, hnext.ge⟩
  · intro x _
    rw [hcalls]
  · intro g _ outcome hg
    have hgf : g ≠ f := by
      rintro rfl
      exact hf outcome hg
    rw [hfetches]
    exact Function.update_of_ne hgf _ _

/-- A step that starts no request leaves the requesters as they are. -/
theorem Requesters.keep {xs : List ℕ} (h : s.Requesters xs) (hk : s.Keeps s')
    (hrequests : s'.requests = s.requests)
    (hnone : ∀ x, (s'.calls x).phase = .requested → (s.calls x).phase = .requested) :
    s'.Requesters xs := by
  obtain ⟨hnodup, hmem, hbears⟩ := h
  refine ⟨hnodup, ?_, ?_⟩
  · intro x
    rw [hmem x]
    constructor
    · intro hx
      rw [hk.calls x hx]
      exact hx
    · exact hnone x
  · rw [hrequests]
    exact hbears.imp fun x r hr => hr.keep hk

theorem Requesters.setPhase {xs : List ℕ} (h : s.Requesters xs) {x : ℕ} {p : CallPhase}
    (hx : (s.calls x).phase ≠ .requested) (hphase : p ≠ .requested)
    (hcalls : s'.calls = (s.setPhase x p).calls)
    (hfetches : ∀ f < s.nextFetch, s'.fetches f = s.fetches f) (hnext : s.nextFetch ≤ s'.nextFetch)
    (hrequests : s'.requests = s.requests) : s'.Requesters xs := by
  refine h.keep (keeps_setPhase hx hcalls hfetches hnext) hrequests ?_
  intro y hy
  rw [hcalls] at hy
  by_cases hyx : y = x
  · rw [hyx, calls_setPhase_self] at hy
    exact absurd hy hphase
  · rw [calls_setPhase_ne s hyx] at hy
    exact hy

theorem authorised_fetched (h : machine.Reach NulFreeCalls s) {x : ℕ} {accessToken : String}
    (hx : (s.calls x).phase = .authorised accessToken) :
    ∃ f < s.nextFetch, (s.fetches f).key = cacheKey (s.calls x).credential ∧
      ∃ token, (s.fetches f).phase = .settled (.ok token) ∧ token.accessToken = accessToken := by
  obtain ⟨t, f, token, -, hcache, ⟨hf, htriple, hphase⟩, hbearer⟩ := authorised_own h hx
  rw [hcache.nextFetch] at hf
  rw [hcache.fetches] at htriple hphase
  exact ⟨f, hf, cacheKey_congr htriple, token, hphase, hbearer⟩

theorem Requesters.request {xs : List ℕ} (h : s.Requesters xs) {x : ℕ} {accessToken : String}
    (hx : (s.calls x).phase = .authorised accessToken)
    (hfetched : ∃ f < s.nextFetch, (s.fetches f).key = cacheKey (s.calls x).credential ∧
      ∃ token, (s.fetches f).phase = .settled (.ok token) ∧ token.accessToken = accessToken) :
    (s.request x accessToken).Requesters (xs ++ [x]) := by
  obtain ⟨hnodup, hmem, hbears⟩ := h
  have hnot : (s.calls x).phase ≠ .requested := by simp [hx]
  have hk : s.Keeps (s.request x accessToken) :=
    keeps_setPhase hnot rfl (fun _ _ => rfl) le_rfl
  have hself : (s.request x accessToken).calls x = { s.calls x with phase := .requested } :=
    calls_setPhase_self s x .requested
  refine ⟨?_, ?_, ?_⟩
  · refine hnodup.append (List.nodup_singleton x) ?_
    intro y hy hyx
    rw [List.mem_singleton.mp hyx] at hy
    exact hnot ((hmem x).mp hy)
  · intro y
    rw [List.mem_append, List.mem_singleton, hmem y]
    by_cases hyx : y = x
    · rw [hyx, hself]
      simp
    · have hother : (s.request x accessToken).calls y = s.calls y := calls_setPhase_ne s hyx .requested
      rw [hother]
      simp [hyx]
  · refine List.rel_append (hbears.imp fun y r hr => hr.keep hk) ?_
    refine .cons ⟨?_, ?_, ?_, ?_⟩ .nil
    · rw [hself]
    · rw [hself]
    · rw [hself]
      rfl
    · rw [hself]
      exact hfetched

theorem born_of {s : RestApi} (h : ∀ y, s.nextCall ≤ y → s.calls y = .absent) {x : ℕ}
    (hx : (s.calls x).phase ≠ .failed "") : x < s.nextCall := by
  by_contra hge
  rw [h x (by omega)] at hx
  exact hx rfl

theorem unborn_reach {ok : Guard RestApi Event} (h : machine.Reach ok s) :
    ∀ x, s.nextCall ≤ x → s.calls x = .absent := by
  refine h.invariant (P := fun s => ∀ x, s.nextCall ≤ x → s.calls x = .absent) ?_ ?_
  · rintro s ⟨now, rfl⟩ x -
    rfl
  · intro s e t _ hs hstep _
    cases effect_of_step hstep with
    | tick ms => exact hs
    | call operation credential =>
      intro x hx
      change s.nextCall + 1 ≤ x at hx
      rw [calls_call_ne s operation credential (by omega)]
      exact hs x (by omega)
    | @link x hphase hhead =>
      have hx := born_of hs (x := x) (by simp [hphase])
      unfold RestApi.link
      dsimp only
      split
      · exact unborn_setPhase hs hx _
      · exact unborn_setPhase hs hx _
    | @wake x wakeAt hphase hle => exact unborn_setPhase hs (born_of hs (by simp [hphase])) _
    | @getAccessToken x hphase =>
      have hx := born_of hs (x := x) (by simp [hphase])
      unfold RestApi.getAccessToken
      dsimp only
      split
      · exact unborn_setPhase hs hx _
      · split
        · exact unborn_setPhase hs hx _
        · exact unborn_setPhase hs hx _
    | answered response hphase => exact hs
    | settle hphase => exact hs
    | @resume x f outcome hphase houtcome =>
      have hx := born_of hs (x := x) (by simp [hphase])
      cases outcome with
      | ok token => exact unborn_setPhase hs hx _
      | error message => exact unborn_setPhase hs hx _
    | @request x accessToken hphase => exact unborn_setPhase hs (born_of hs (by simp [hphase])) _

/-- The call whose request the event starts. -/
def Event.requester : Event → List ℕ
  | .request x => [x]
  | _ => []

theorem Requesters.others (hr : machine.Reach NulFreeCalls s) {xs : List ℕ} (h : s.Requesters xs)
    {e : Event} (hstep : s.step e = some s') (he : e.requester = []) : s'.Requesters xs := by
  cases effect_of_step hstep with
  | tick ms => exact h.keep ⟨fun _ _ => rfl, fun _ _ _ _ => rfl, le_rfl⟩ rfl fun _ hx => hx
  | call operation credential =>
    have hnew : (s.calls s.nextCall).phase ≠ .requested := by
      rw [unborn_reach hr _ le_rfl]
      simp [RestCall.absent]
    refine h.keep ⟨?_, fun _ _ _ _ => rfl, le_rfl⟩ rfl ?_
    · intro x hx
      refine calls_call_ne s operation credential ?_
      rintro rfl
      exact hnew hx
    · intro x hx
      by_cases hxn : x = s.nextCall
      · rw [hxn, calls_call_self] at hx
        contradiction
      · rw [calls_call_ne s operation credential hxn] at hx
        exact hx
  | @link x hphase hhead =>
    have hnot : (s.calls x).phase ≠ .requested := by simp [hphase]
    unfold RestApi.link
    dsimp only
    split
    · exact h.setPhase hnot (by simp) rfl (fun _ _ => rfl) le_rfl rfl
    · exact h.setPhase hnot (by simp) rfl (fun _ _ => rfl) le_rfl rfl
  | @wake x wakeAt hphase hle =>
    have hnot : (s.calls x).phase ≠ .requested := by simp [hphase]
    exact h.setPhase hnot (by simp) rfl (fun _ _ => rfl) le_rfl rfl
  | @getAccessToken x hphase =>
    have hnot : (s.calls x).phase ≠ .requested := by simp [hphase]
    unfold RestApi.getAccessToken
    dsimp only
    cases (s.getEntry (cacheKey (s.calls x).credential)).cached s.now with
    | some accessToken => exact h.setPhase hnot (by simp) rfl (fun _ _ => rfl) le_rfl rfl
    | none =>
      cases (s.getEntry (cacheKey (s.calls x).credential)).pending with
      | some f => exact h.setPhase hnot (by simp) rfl (fun _ _ => rfl) le_rfl rfl
      | none =>
        refine h.setPhase hnot (p := .fetching s.nextFetch) (by simp) rfl ?_ ?_ rfl
        · intro f hf
          exact Function.update_of_ne (Nat.ne_of_lt hf) _ _
        · exact Nat.le_succ _
  | @answered f response hphase =>
    refine h.keep (keeps_setFetch ?_ _ rfl rfl rfl) rfl fun _ hx => hx
    rw [hphase]
    exact nofun
  | @settle f outcome hphase =>
    refine h.keep (keeps_setFetch ?_ _ rfl rfl rfl) rfl fun _ hx => hx
    rw [hphase]
    exact nofun
  | @resume x f outcome hphase houtcome =>
    have hnot : (s.calls x).phase ≠ .requested := by simp [hphase]
    cases outcome with
    | ok token => exact h.setPhase hnot (by simp) rfl (fun _ _ => rfl) le_rfl rfl
    | error message => exact h.setPhase hnot (by simp) rfl (fun _ _ => rfl) le_rfl rfl
  | request hphase => contradiction

theorem Requesters.step (hr : machine.Reach NulFreeCalls s) {xs : List ℕ} (h : s.Requesters xs)
    {e : Event} (hstep : s.step e = some s') : s'.Requesters (xs ++ e.requester) := by
  cases e with
  | request x =>
    cases effect_of_step hstep with
    | request hphase => exact h.request hphase (authorised_fetched hr hphase)
  | _ =>
    have hothers := h.others hr hstep rfl
    simpa [Event.requester] using hothers

theorem requesters_reach (h : machine.Reach NulFreeCalls s) : ∃ xs, s.Requesters xs := by
  refine h.invariant (P := fun s => ∃ xs, s.Requesters xs) ?_ ?_
  · rintro s ⟨now, rfl⟩
    refine ⟨[], List.nodup_nil, ?_, .nil⟩
    intro x
    simp [initial, RestCall.absent]
  · rintro s e t hr ⟨xs, hxs⟩ hstep -
    exact ⟨_, hxs.step hr hstep⟩

/-- What a step leaves of the calls: who they are, and those that are over. -/
structure Endures (s s' : RestApi) : Prop where
  born : s.nextCall ≤ s'.nextCall
  operation : ∀ c < s.nextCall, (s'.calls c).operation = (s.calls c).operation
  credential : ∀ c < s.nextCall, (s'.calls c).credential = (s.calls c).credential
  ended : ∀ c < s.nextCall, (s.calls c).phase.ended = true → (s'.calls c).phase = (s.calls c).phase

theorem endures_setPhase {x : ℕ} {phase : CallPhase} (hx : (s.calls x).phase.ended = false)
    (hcalls : s'.calls = (s.setPhase x phase).calls) (hnext : s'.nextCall = s.nextCall) :
    s.Endures s' := by
  have hself : s'.calls x = { s.calls x with phase := phase } := by
    rw [hcalls, calls_setPhase_self]
  have hother : ∀ y, y ≠ x → s'.calls y = s.calls y := by
    intro y hy
    rw [hcalls, calls_setPhase_ne s hy]
  refine ⟨hnext.ge, ?_, ?_, ?_⟩
  · intro c _
    by_cases hc : c = x
    · rw [hc, hself]
    · rw [hother c hc]
  · intro c _
    by_cases hc : c = x
    · rw [hc, hself]
    · rw [hother c hc]
  · intro c _ hended
    have hc : c ≠ x := by
      rintro rfl
      rw [hx] at hended
      contradiction
    rw [hother c hc]

theorem endures_step {e : Event} (h : s.step e = some s') : s.Endures s' := by
  cases effect_of_step h with
  | tick ms => exact ⟨le_rfl, fun _ _ => rfl, fun _ _ => rfl, fun _ _ _ => rfl⟩
  | call operation credential =>
    have hother : ∀ c < s.nextCall, (s.call operation credential).calls c = s.calls c :=
      fun c hc => calls_call_ne s operation credential (Nat.ne_of_lt hc)
    refine ⟨Nat.le_succ _, ?_, ?_, ?_⟩
    · intro c hc
      rw [hother c hc]
    · intro c hc
      rw [hother c hc]
    · intro c hc _
      rw [hother c hc]
  | @link x hphase hhead =>
    have hx : (s.calls x).phase.ended = false := by rw [hphase]; rfl
    unfold RestApi.link
    dsimp only
    split
    · exact endures_setPhase hx rfl rfl
    · exact endures_setPhase hx rfl rfl
  | @wake x wakeAt hphase hle => exact endures_setPhase (by rw [hphase]; rfl) rfl rfl
  | @getAccessToken x hphase =>
    have hx : (s.calls x).phase.ended = false := by rw [hphase]; rfl
    unfold RestApi.getAccessToken
    dsimp only
    split
    · exact endures_setPhase hx rfl rfl
    · split
      · exact endures_setPhase hx rfl rfl
      · exact endures_setPhase hx rfl rfl
  | answered response hphase => exact ⟨le_rfl, fun _ _ => rfl, fun _ _ => rfl, fun _ _ _ => rfl⟩
  | settle hphase => exact ⟨le_rfl, fun _ _ => rfl, fun _ _ => rfl, fun _ _ _ => rfl⟩
  | @resume x f outcome hphase houtcome =>
    have hx : (s.calls x).phase.ended = false := by rw [hphase]; rfl
    cases outcome with
    | ok token => exact endures_setPhase hx rfl rfl
    | error message => exact endures_setPhase hx rfl rfl
  | @request x accessToken hphase => exact endures_setPhase (by rw [hphase]; rfl) rfl rfl

/-- The requests are those of calls that have got so far, one of each; and a fetch brings tokens for
one credential only. -/
structure Attributed (s : RestApi) : Prop where
  requesters : ∃ xs, s.Requesters xs
  apart : ∀ x y, cacheKey (s.calls x).credential = cacheKey (s.calls y).credential →
    (s.calls x).credential.triple = (s.calls y).credential.triple

/-- However the calls of an operation interleave, each request is one call's own and bears a token of
that call's credential. -/
theorem attributed_reach (h : machine.Reach NulFreeCalls s) : s.Attributed := by
  refine ⟨requesters_reach h, ?_⟩
  intro x y hkey
  obtain ⟨caller, t, -, -, hcallers⟩ := asks_reach h
  exact cacheKey_inj (hcallers.free x) (hcallers.free y) hkey

instance (s : RestApi) : ∀ (e : Event) (t : RestApi), Decidable (NulFreeCalls s e t)
  | .tick _, _ => isTrue trivial
  | .call _ credential, _ => inferInstanceAs (Decidable credential.NulFree)
  | .link _, _ => isTrue trivial
  | .wake _, _ => isTrue trivial
  | .getAccessToken _, _ => isTrue trivial
  | .answered _ _, _ => isTrue trivial
  | .settle _, _ => isTrue trivial
  | .resume _, _ => isTrue trivial
  | .request _, _ => isTrue trivial

def workshop : TokenRequest := ⟨"client", "secret", some "workshop"⟩

/-- Three calls of two organisations. The first two share a fetch that is answered last, and one of
them has not gone on. -/
def mixedRun : List Event :=
  [.call .getProperty account, .call .publishProperty account, .call .listThings workshop,
    .link 0, .link 1, .link 2, .getAccessToken 0, .getAccessToken 2, .getAccessToken 1,
    .answered 1 (.payload (some "workshop token") (some 300)), .settle 1, .resume 2, .request 2,
    .answered 0 (.payload (some "own token") (some 300)), .settle 0, .resume 0, .resume 1, .request 1]

def mixedState : RestApi := machine.after NulFreeCalls (initial 0) mixedRun

theorem mixedRun_attributed :
    mixedState.requests = [⟨.listThings, throttleKey workshop, "workshop token", 0⟩,
      ⟨.publishProperty, throttleKey account, "own token", 0⟩] ∧ mixedState.Attributed := by
  have hinit : machine.Reach NulFreeCalls (initial 0) := .init ⟨0, rfl⟩
  exact ⟨by decide +kernel, attributed_reach (hinit.after mixedRun)⟩

end RestApi

end UnoQ.Cloud
