import Mathlib.Logic.Function.Basic
import UnoQ.Cloud.TokenCache
import UnoQ.Lib.InsertMap
import UnoQ.Lib.Transition

/-!
# Overlapping calls for an access token

`getAccessToken` over all credentials at once. A call looks at the cache, joins the fetch in
progress or starts one, all in one stretch. That `fetchToken` returns, that the closure around it
ends, and that a caller goes on are events of their own, and the clock may show anything in between.
-/

namespace UnoQ.Cloud
open Transition

/-- How far a fetch has come. `answered`: `fetchToken` has returned or thrown, `settled`: the
closure has stored the token and cleared the mark, and its promise is settled. -/
inductive FetchPhase
  | inFlight
  | answered (outcome : Except String CachedToken)
  | settled (outcome : Except String CachedToken)

def FetchPhase.unsettled : FetchPhase → Bool
  | .settled _ => false
  | _ => true

/-- The entry as the closure leaves it. -/
def CacheEntry.settle (entry : CacheEntry) : Except String CachedToken → CacheEntry
  | .ok token => ⟨some token, none⟩
  | .error _ => ⟨entry.token, none⟩

structure TokenFetch where
  request : TokenRequest
  startedAt : ℤ
  phase : FetchPhase

def TokenFetch.key (f : TokenFetch) : String := cacheKey f.request

def TokenFetch.absent : TokenFetch := ⟨⟨"", "", none⟩, 0, .settled (.error "")⟩

/-- Where a call of `getAccessToken` stands. `served` is the return without a fetch. -/
inductive TokenCallPhase
  | served (accessToken : String) (now : ℤ)
  | awaiting (fetch : ℕ)
  | resolved (fetch : ℕ) (accessToken : String)
  | rejected (fetch : ℕ) (message : String)
  deriving DecidableEq

def TokenCallPhase.after (fetch : ℕ) : Except String CachedToken → TokenCallPhase
  | .ok token => .resolved fetch token.accessToken
  | .error message => .rejected fetch message

/-- The fetch that a call started or joined. -/
def TokenCallPhase.fetch : TokenCallPhase → Option ℕ
  | .served _ _ => none
  | .awaiting f => some f
  | .resolved f _ => some f
  | .rejected f _ => some f

def TokenCallPhase.returned : TokenCallPhase → Option String
  | .served accessToken _ => some accessToken
  | .resolved _ accessToken => some accessToken
  | _ => none

structure TokenCall where
  request : TokenRequest
  phase : TokenCallPhase

def TokenCall.absent : TokenCall := ⟨⟨"", "", none⟩, .rejected 0 ""⟩

structure TokenCalls where
  now : ℤ
  entries : InsertMap String CacheEntry
  fetches : ℕ → TokenFetch
  nextFetch : ℕ
  calls : ℕ → TokenCall
  nextCall : ℕ

namespace TokenCalls

def initial (now : ℤ) : TokenCalls where
  now := now
  entries := InsertMap.empty
  fetches := fun _ => .absent
  nextFetch := 0
  calls := fun _ => .absent
  nextCall := 0

def getEntry (s : TokenCalls) (key : String) : CacheEntry := (s.entries.get key).getD .new

def enter (s : TokenCalls) (req : TokenRequest) (phase : TokenCallPhase) : TokenCalls :=
  { s with
    calls := Function.update s.calls s.nextCall ⟨req, phase⟩
    nextCall := s.nextCall + 1 }

def startFetch (s : TokenCalls) (req : TokenRequest) : TokenCalls :=
  { s.enter req (.awaiting s.nextFetch) with
    entries := s.entries.set (cacheKey req)
      { s.getEntry (cacheKey req) with pending := some s.nextFetch }
    fetches := Function.update s.fetches s.nextFetch ⟨req, s.now, .inFlight⟩
    nextFetch := s.nextFetch + 1 }

def getAccessToken (s : TokenCalls) (req : TokenRequest) : TokenCalls :=
  match (s.getEntry (cacheKey req)).cached s.now with
  | some accessToken => s.enter req (.served accessToken s.now)
  | none =>
    match (s.getEntry (cacheKey req)).pending with
    | some f => s.enter req (.awaiting f)
    | none => s.startFetch req

def setFetch (s : TokenCalls) (f : ℕ) (phase : FetchPhase) : TokenCalls :=
  { s with fetches := Function.update s.fetches f { s.fetches f with phase := phase } }

/-- The closure of a fetch goes on with what `fetchToken` came to. -/
def settle (s : TokenCalls) (f : ℕ) (outcome : Except String CachedToken) : TokenCalls :=
  let key := (s.fetches f).key
  { s.setFetch f (.settled outcome) with
    entries := s.entries.set key ((s.getEntry key).settle outcome) }

def setCall (s : TokenCalls) (x : ℕ) (phase : TokenCallPhase) : TokenCalls :=
  { s with calls := Function.update s.calls x { s.calls x with phase := phase } }

inductive Event
  | clock (now : ℤ)
  | getAccessToken (req : TokenRequest)
  | answered (f : ℕ) (response : TokenResponse)
  | settle (f : ℕ)
  | resume (x : ℕ)

def step (s : TokenCalls) : Event → Option TokenCalls
  | .clock now => some { s with now := now }
  | .getAccessToken req => some (s.getAccessToken req)
  | .answered f response =>
    match (s.fetches f).phase with
    | .inFlight => some (s.setFetch f (.answered (fetchToken response s.now)))
    | _ => none
  | .settle f =>
    match (s.fetches f).phase with
    | .answered outcome => some (s.settle f outcome)
    | _ => none
  | .resume x =>
    match (s.calls x).phase with
    | .awaiting f =>
      match (s.fetches f).phase with
      | .settled outcome => some (s.setCall x (.after f outcome))
      | _ => none
    | _ => none

/-! ### What a step does -/

theorem pending_settle (entry : CacheEntry) (outcome : Except String CachedToken) :
    (entry.settle outcome).pending = none := by
  cases outcome with
  | ok token => rfl
  | error message => rfl

theorem getEntry_set {s t : TokenCalls} {key : String} {entry : CacheEntry}
    (h : t.entries = s.entries.set key entry) (k : String) :
    t.getEntry k = if key = k then entry else s.getEntry k := by
  unfold getEntry
  rw [h, InsertMap.get_set]
  split
  · rfl
  · rfl

theorem calls_enter (s : TokenCalls) (req : TokenRequest) (phase : TokenCallPhase) (x : ℕ) :
    (s.enter req phase).calls x = if x = s.nextCall then ⟨req, phase⟩ else s.calls x :=
  Function.update_apply ..

theorem fetches_startFetch (s : TokenCalls) (req : TokenRequest) (f : ℕ) :
    (s.startFetch req).fetches f = if f = s.nextFetch then ⟨req, s.now, .inFlight⟩ else s.fetches f :=
  Function.update_apply ..

theorem fetches_setFetch (s : TokenCalls) (f : ℕ) (phase : FetchPhase) (g : ℕ) :
    (s.setFetch f phase).fetches g =
      if g = f then { s.fetches f with phase := phase } else s.fetches g :=
  Function.update_apply ..

@[simp] theorem request_setFetch (s : TokenCalls) (f : ℕ) (phase : FetchPhase) (g : ℕ) :
    ((s.setFetch f phase).fetches g).request = (s.fetches g).request := by
  rw [fetches_setFetch]
  split
  next h => rw [h]
  · rfl

@[simp] theorem startedAt_setFetch (s : TokenCalls) (f : ℕ) (phase : FetchPhase) (g : ℕ) :
    ((s.setFetch f phase).fetches g).startedAt = (s.fetches g).startedAt := by
  rw [fetches_setFetch]
  split
  next h => rw [h]
  · rfl

@[simp] theorem key_setFetch (s : TokenCalls) (f : ℕ) (phase : FetchPhase) (g : ℕ) :
    ((s.setFetch f phase).fetches g).key = (s.fetches g).key :=
  congrArg cacheKey (request_setFetch s f phase g)

theorem fetches_settle (s : TokenCalls) (f : ℕ) (outcome : Except String CachedToken) :
    (s.settle f outcome).fetches = (s.setFetch f (.settled outcome)).fetches := rfl

theorem calls_setCall (s : TokenCalls) (x : ℕ) (phase : TokenCallPhase) (y : ℕ) :
    (s.setCall x phase).calls y =
      if y = x then { s.calls x with phase := phase } else s.calls y :=
  Function.update_apply ..

theorem getAccessToken_cases (s : TokenCalls) (req : TokenRequest) :
    (∃ accessToken, (s.getEntry (cacheKey req)).cached s.now = some accessToken ∧
      s.getAccessToken req = s.enter req (.served accessToken s.now)) ∨
    (∃ f, (s.getEntry (cacheKey req)).pending = some f ∧
      s.getAccessToken req = s.enter req (.awaiting f)) ∨
    ((s.getEntry (cacheKey req)).cached s.now = none ∧
      (s.getEntry (cacheKey req)).pending = none ∧ s.getAccessToken req = s.startFetch req) := by
  unfold getAccessToken
  cases hcached : (s.getEntry (cacheKey req)).cached s.now with
  | some accessToken => exact .inl ⟨accessToken, rfl, rfl⟩
  | none =>
    cases hpending : (s.getEntry (cacheKey req)).pending with
    | some f => exact .inr (.inl ⟨f, rfl, rfl⟩)
    | none => exact .inr (.inr ⟨rfl, rfl, rfl⟩)

/-- However it begins, a call is one more. -/
theorem calls_getAccessToken (s : TokenCalls) (req : TokenRequest) : ∃ phase,
    (s.getAccessToken req).calls = (s.enter req phase).calls ∧
      (s.getAccessToken req).nextCall = s.nextCall + 1 := by
  rcases getAccessToken_cases s req with ⟨accessToken, -, heq⟩ | ⟨f, -, heq⟩ | ⟨-, -, heq⟩
  · exact ⟨_, by rw [heq], by rw [heq]; rfl⟩
  · exact ⟨_, by rw [heq], by rw [heq]; rfl⟩
  · exact ⟨.awaiting s.nextFetch, by rw [heq]; rfl, by rw [heq]; rfl⟩

/-- What a step does, and on what condition. -/
inductive Effect (s : TokenCalls) : Event → TokenCalls → Prop
  | clock (now : ℤ) : Effect s (.clock now) { s with now := now }
  | getAccessToken (req : TokenRequest) : Effect s (.getAccessToken req) (s.getAccessToken req)
  | answered {f : ℕ} (response : TokenResponse) : (s.fetches f).phase = .inFlight →
    Effect s (.answered f response) (s.setFetch f (.answered (fetchToken response s.now)))
  | settle {f : ℕ} {outcome : Except String CachedToken} : (s.fetches f).phase = .answered outcome →
    Effect s (.settle f) (s.settle f outcome)
  | resume {x f : ℕ} {outcome : Except String CachedToken} : (s.calls x).phase = .awaiting f →
    (s.fetches f).phase = .settled outcome →
    Effect s (.resume x) (s.setCall x (.after f outcome))

theorem effect_of_step {s t : TokenCalls} {e : Event} (h : s.step e = some t) : Effect s e t := by
  cases e with
  | clock now =>
    cases h
    exact .clock now
  | getAccessToken req =>
    cases h
    exact .getAccessToken req
  | answered f response =>
    simp only [step] at h
    split at h
    next hphase =>
      cases h
      exact .answered response hphase
    next => contradiction
  | settle f =>
    simp only [step] at h
    split at h
    next outcome hphase =>
      cases h
      exact .settle hphase
    next => contradiction
  | resume x =>
    simp only [step] at h
    split at h
    next f hcall =>
      split at h
      next outcome hphase =>
        cases h
        exact .resume hcall hphase
      next => contradiction
    next => contradiction

def machine : Machine TokenCalls Event where
  init s := ∃ now, s = initial now
  step := step

def NulFree : Guard TokenCalls Event := fun _ e _ =>
  match e with
  | .getAccessToken req => req.NulFree
  | _ => True

instance (s : TokenCalls) : ∀ e t, Decidable (NulFree s e t) := by
  rintro (_ | _) t <;> dsimp only [NulFree] <;> infer_instance

end TokenCalls

end UnoQ.Cloud
