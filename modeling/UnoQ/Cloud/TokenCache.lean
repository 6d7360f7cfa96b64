import Mathlib.Algebra.Order.Ring.Cast
import Mathlib.Algebra.Order.Ring.Rat
import Mathlib.Tactic.Linarith
import UnoQ.Lib.Separated

/-!
# The access token cache

`auth/tokenCache.ts`: one entry for each credential, with the last token and the fetch in progress,
which all callers share who find no token that is good for long enough.
-/

namespace UnoQ.Cloud
open Separated

structure TokenRequest where
  clientId : String
  clientSecret : String
  organizationId : Option String

structure CachedToken where
  accessToken : String
  expiresAt : ℚ

structure CacheEntry where
  token : Option CachedToken
  pending : Option ℕ

def CacheEntry.new : CacheEntry := ⟨none, none⟩

def EXPIRY_SAFETY_MARGIN_MS : ℚ := 30000

def cacheKey (req : TokenRequest) : String :=
  req.clientId ++ "\x00" ++ req.clientSecret ++ "\x00" ++ req.organizationId.getD ""

/-- The token that a caller gets at once. -/
def CacheEntry.cached (entry : CacheEntry) (now : ℤ) : Option String :=
  match entry.token with
  | some token =>
    if EXPIRY_SAFETY_MARGIN_MS < token.expiresAt - now then some token.accessToken else none
  | none => none

/-- How the request for a token ends: it is not answered, it is answered with an error, or with a
payload whose two fields may be missing. -/
inductive TokenResponse
  | threw (message : String)
  | notOk (detail : String)
  | payload (accessToken : Option String) (expiresIn : Option ℚ)

def missingTokenFields : String := "Arduino Cloud token response missing access_token or expires_in"

/-- What is left of `fetchToken` when the response is there. -/
def fetchToken (response : TokenResponse) (now : ℤ) : Except String CachedToken :=
  match response with
  | .threw message => .error message
  | .notOk detail => .error ("Arduino Cloud token request failed: " ++ detail)
  | .payload (some accessToken) (some expiresIn) =>
    if accessToken = "" then .error missingTokenFields
    else .ok ⟨accessToken, now + expiresIn * 1000⟩
  | .payload _ _ => .error missingTokenFields

theorem cached_eq_some {entry : CacheEntry} {now : ℤ} {accessToken : String} :
    entry.cached now = some accessToken ↔ ∃ token, entry.token = some token ∧
      EXPIRY_SAFETY_MARGIN_MS < token.expiresAt - now ∧ token.accessToken = accessToken := by
  unfold CacheEntry.cached
  cases entry.token with
  | none => simp
  | some token => simp

theorem cached_mono {entry : CacheEntry} {now later : ℤ} (h : entry.cached now = none)
    (hle : now ≤ later) : entry.cached later = none := by
  cases hlater : entry.cached later with
  | none => rfl
  | some accessToken =>
    obtain ⟨token, htoken, hmargin, -⟩ := cached_eq_some.mp hlater
    have hcast : (now : ℚ) ≤ later := Int.cast_le.mpr hle
    have hnow : entry.cached now = some token.accessToken :=
      cached_eq_some.mpr ⟨token, htoken, by linarith, rfl⟩
    rw [h] at hnow
    contradiction

/-! ### The fields of a credential -/

/-- What a token belongs to. No organisation is the empty one. -/
def TokenRequest.triple (req : TokenRequest) : String × String × String :=
  (req.clientId, req.clientSecret, req.organizationId.getD "")

/-- The separator of the key is in neither of the fields that it ends. -/
def TokenRequest.NulFree (req : TokenRequest) : Prop :=
  '\x00' ∉ req.clientId.toList ∧ '\x00' ∉ req.clientSecret.toList

instance (req : TokenRequest) : Decidable req.NulFree := inferInstanceAs (Decidable (_ ∧ _))

theorem triple_eq_iff {r r' : TokenRequest} : r.triple = r'.triple ↔ r.clientId = r'.clientId ∧
    r.clientSecret = r'.clientSecret ∧ r.organizationId.getD "" = r'.organizationId.getD "" := by
  simp only [TokenRequest.triple, Prod.mk.injEq]

theorem cacheKey_congr {r r' : TokenRequest} (h : r.triple = r'.triple) : cacheKey r = cacheKey r' := by
  obtain ⟨hid, hsecret, horg⟩ := triple_eq_iff.mp h
  unfold cacheKey
  rw [hid, hsecret, horg]

theorem cacheKey_toList (req : TokenRequest) :
    (cacheKey req).toList = req.clientId.toList ++ '\x00' ::
      (req.clientSecret.toList ++ '\x00' :: (req.organizationId.getD "").toList) := by
  have hnul : ("\x00" : String).toList = ['\x00'] := by decide
  simp only [cacheKey, String.toList_append, hnul, List.append_assoc, List.cons_append,
    List.nil_append]

theorem cacheKey_inj {r r' : TokenRequest} (hr : r.NulFree) (hr' : r'.NulFree)
    (h : cacheKey r = cacheKey r') : r.triple = r'.triple := by
  have hlist := congrArg String.toList h
  rw [cacheKey_toList, cacheKey_toList] at hlist
  obtain ⟨hid, hrest⟩ := first_inj hr.1 hr'.1 hlist
  obtain ⟨hsecret, horg⟩ := first_inj hr.2 hr'.2 hrest
  exact triple_eq_iff.mpr
    ⟨String.toList_inj.mp hid, String.toList_inj.mp hsecret, String.toList_inj.mp horg⟩

end UnoQ.Cloud
