import Mathlib.Logic.Function.Basic
import UnoQ.Cloud.RestThrottle
import UnoQ.Cloud.TokenCalls

/-!
# The REST wrappers

`arduinoCloudApi.ts`: each operation waits for a token of its bucket, then for an access token, and
starts its request. The operations share buckets by throttle key and access tokens by cache key.
Every continuation of an `await` is an event of its own, and the clock may go on between any two.
What a request sends besides its bearer token, and what comes back, is left out.
-/

namespace UnoQ.Cloud
open Transition

inductive Operation
  | listThings
  | listProperties
  | getProperty
  | publishProperty
  | historicData
  deriving DecidableEq

def throttleKey (credential : TokenRequest) : String :=
  credential.clientId ++ "\x00" ++ credential.organizationId.getD ""

/-- Where a call stands. `queued`: its link has not begun, `sleeping`: its link awaits `sleep`,
`granted`: `acquireRestToken` has resolved, `fetching`: it awaits a fetch, `authorised`: it has its
access token, `requested`: it has started its request. -/
inductive CallPhase
  | queued
  | sleeping (wakeAt : ℤ)
  | granted
  | fetching (fetch : ℕ)
  | authorised (accessToken : String)
  | requested
  | failed (message : String)
  deriving DecidableEq

/-- The call has taken a token of its bucket and has not started its request. -/
def CallPhase.holding : CallPhase → Bool
  | .granted | .fetching _ | .authorised _ => true
  | _ => false

structure RestCall where
  operation : Operation
  credential : TokenRequest
  phase : CallPhase

def RestCall.key (c : RestCall) : String := throttleKey c.credential

def RestCall.absent : RestCall := ⟨.listThings, ⟨"", "", none⟩, .failed ""⟩

/-- A request that the SDK was told to make. -/
structure RestRequest where
  operation : Operation
  key : String
  accessToken : String
  startedAt : ℤ
  deriving DecidableEq

structure RestApi where
  now : ℤ
  buckets : InsertMap String Bucket
  entries : InsertMap String CacheEntry
  fetches : ℕ → TokenFetch
  nextFetch : ℕ
  calls : ℕ → RestCall
  nextCall : ℕ
  requests : List RestRequest

namespace RestApi

def initial (now : ℤ) : RestApi where
  now := now
  buckets := InsertMap.empty
  entries := InsertMap.empty
  fetches := fun _ => .absent
  nextFetch := 0
  calls := fun _ => .absent
  nextCall := 0
  requests := []

def bucketFor (s : RestApi) (key : String) : Bucket := (s.buckets.get key).getD (.new s.now)

def getEntry (s : RestApi) (key : String) : CacheEntry := (s.entries.get key).getD .new

def setPhase (s : RestApi) (x : ℕ) (phase : CallPhase) : RestApi :=
  { s with calls := Function.update s.calls x { s.calls x with phase := phase } }

def setBucket (s : RestApi) (key : String) (b : Bucket) : RestApi :=
  { s with buckets := s.buckets.set key b }

/-- The bucket of a call. -/
def bucket (s : RestApi) (x : ℕ) : Bucket := s.bucketFor (s.calls x).key

/-- An operation calls `acquireRestToken`. -/
def call (s : RestApi) (operation : Operation) (credential : TokenRequest) : RestApi :=
  let key := throttleKey credential
  let b := s.bucketFor key
  { s.setBucket key { b with chain := b.chain ++ [s.nextCall] } with
    calls := Function.update s.calls s.nextCall ⟨operation, credential, .queued⟩
    nextCall := s.nextCall + 1 }

/-- The link of a call begins. -/
def link (s : RestApi) (x : ℕ) : RestApi :=
  let b := (s.bucket x).refill s.now
  if b.tokens < 1 then (s.setBucket (s.calls x).key b).setPhase x (.sleeping (s.now + b.waitMs))
  else (s.setBucket (s.calls x).key b.take).setPhase x .granted

/-- The link of a call goes on after its sleep. -/
def wake (s : RestApi) (x : ℕ) : RestApi :=
  (s.setBucket (s.calls x).key ((s.bucket x).refill s.now).take).setPhase x .granted

def getAccessToken (s : RestApi) (x : ℕ) : RestApi :=
  let key := cacheKey (s.calls x).credential
  let entry := s.getEntry key
  match entry.cached s.now with
  | some accessToken => s.setPhase x (.authorised accessToken)
  | none =>
    match entry.pending with
    | some f => s.setPhase x (.fetching f)
    | none =>
      { s.setPhase x (.fetching s.nextFetch) with
        entries := s.entries.set key { entry with pending := some s.nextFetch }
        fetches := Function.update s.fetches s.nextFetch ⟨(s.calls x).credential, s.now, .inFlight⟩
        nextFetch := s.nextFetch + 1 }

def setFetch (s : RestApi) (f : ℕ) (phase : FetchPhase) : RestApi :=
  { s with fetches := Function.update s.fetches f { s.fetches f with phase := phase } }

/-- The token endpoint answers a fetch, and `fetchToken` returns or throws. -/
def answered (s : RestApi) (f : ℕ) (response : TokenResponse) : RestApi :=
  s.setFetch f (.answered (fetchToken response s.now))

/-- The closure of a fetch goes on with what `fetchToken` came to. -/
def settle (s : RestApi) (f : ℕ) (outcome : Except String CachedToken) : RestApi :=
  let key := (s.fetches f).key
  { s.setFetch f (.settled outcome) with
    entries := s.entries.set key ((s.getEntry key).settle outcome) }

/-- A call goes on with the outcome of the fetch that it awaits. -/
def resume (s : RestApi) (x : ℕ) : Except String CachedToken → RestApi
  | .ok token => s.setPhase x (.authorised token.accessToken)
  | .error message => s.setPhase x (.failed message)

def request (s : RestApi) (x : ℕ) (accessToken : String) : RestApi :=
  { s.setPhase x .requested with
    requests := s.requests ++
      [⟨(s.calls x).operation, (s.calls x).key, accessToken, s.now⟩] }

inductive Event
  | tick (ms : ℕ)
  | call (operation : Operation) (credential : TokenRequest)
  | link (x : ℕ)
  | wake (x : ℕ)
  | getAccessToken (x : ℕ)
  | answered (f : ℕ) (response : TokenResponse)
  | settle (f : ℕ)
  | resume (x : ℕ)
  | request (x : ℕ)

def step (s : RestApi) : Event → Option RestApi
  | .tick ms => some { s with now := s.now + ms }
  | .call operation credential => some (s.call operation credential)
  | .link x =>
    if (s.calls x).phase = .queued ∧ (s.bucket x).chain.head? = some x then some (s.link x) else none
  | .wake x =>
    match (s.calls x).phase with
    | .sleeping wakeAt => if wakeAt ≤ s.now then some (s.wake x) else none
    | _ => none
  | .getAccessToken x => if (s.calls x).phase = .granted then some (s.getAccessToken x) else none
  | .answered f response =>
    match (s.fetches f).phase with
    | .inFlight => some (s.answered f response)
    | _ => none
  | .settle f =>
    match (s.fetches f).phase with
    | .answered outcome => some (s.settle f outcome)
    | _ => none
  | .resume x =>
    match (s.calls x).phase with
    | .fetching f =>
      match (s.fetches f).phase with
      | .settled outcome => some (s.resume x outcome)
      | _ => none
    | _ => none
  | .request x =>
    match (s.calls x).phase with
    | .authorised accessToken => some (s.request x accessToken)
    | _ => none

def machine : Machine RestApi Event where
  init s := ∃ now, s = initial now
  step := step

/-- What a step does, and on what condition. -/
inductive Effect (s : RestApi) : Event → RestApi → Prop
  | tick (ms : ℕ) : Effect s (.tick ms) { s with now := s.now + ms }
  | call (operation : Operation) (credential : TokenRequest) :
    Effect s (.call operation credential) (s.call operation credential)
  | link {x : ℕ} : (s.calls x).phase = .queued → (s.bucket x).chain.head? = some x →
    Effect s (.link x) (s.link x)
  | wake {x : ℕ} {wakeAt : ℤ} : (s.calls x).phase = .sleeping wakeAt → wakeAt ≤ s.now →
    Effect s (.wake x) (s.wake x)
  | getAccessToken {x : ℕ} : (s.calls x).phase = .granted →
    Effect s (.getAccessToken x) (s.getAccessToken x)
  | answered {f : ℕ} (response : TokenResponse) : (s.fetches f).phase = .inFlight →
    Effect s (.answered f response) (s.answered f response)
  | settle {f : ℕ} {outcome : Except String CachedToken} : (s.fetches f).phase = .answered outcome →
    Effect s (.settle f) (s.settle f outcome)
  | resume {x f : ℕ} {outcome : Except String CachedToken} : (s.calls x).phase = .fetching f →
    (s.fetches f).phase = .settled outcome → Effect s (.resume x) (s.resume x outcome)
  | request {x : ℕ} {accessToken : String} : (s.calls x).phase = .authorised accessToken →
    Effect s (.request x) (s.request x accessToken)

theorem effect_of_step {s t : RestApi} {e : Event} (h : s.step e = some t) : Effect s e t := by
  cases e with
  | tick ms =>
    cases h
    exact .tick ms
  | call operation credential =>
    cases h
    exact .call operation credential
  | link x =>
    simp only [step] at h
    split at h
    next hc =>
      cases h
      exact .link hc.1 hc.2
    next => contradiction
  | wake x =>
    simp only [step] at h
    split at h
    next wakeAt hphase =>
      split at h
      next hle =>
        cases h
        exact .wake hphase hle
      next => contradiction
    next => contradiction
  | getAccessToken x =>
    simp only [step] at h
    split at h
    next hphase =>
      cases h
      exact .getAccessToken hphase
    next => contradiction
  | answered f response =>
    simp only [step] at h
    split at h
    next hphase =>
      cases h
      exact .answered response hphase
    next => contradiction
  | settle f =>
    simp only [step] at h
    split at h
    next outcome hphase =>
      cases h
      exact .settle hphase
    next => contradiction
  | resume x =>
    simp only [step] at h
    split at h
    next f hphase =>
      split at h
      next outcome houtcome =>
        cases h
        exact .resume hphase houtcome
      next => contradiction
    next => contradiction
  | request x =>
    simp only [step] at h
    split at h
    next accessToken hphase =>
      cases h
      exact .request hphase
    next => contradiction

end RestApi

end UnoQ.Cloud
