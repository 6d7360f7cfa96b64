import UnoQ.Ssh.CertLayout
import UnoQ.Ssh.Possession

/-!
# What an accepted certificate says

`handleAuth` decides on a parsed object. Here its decision is read back to the bytes that
were offered: which certificate they hold, and what the configured CA has signed. Two
things do not come through: bytes behind the certificate are not looked at, and an option
called `__proto__` is not stored in the object, so the test for critical options cannot
see it.
-/

namespace UnoQ.Ssh
open BigEndian

/-- The wire value begins with the key algorithm and a body of this length. -/
def Carries (wire : Bytes) (length : ℕ) (body : Bytes) : Prop :=
  ∃ algo more, wire = framed algo ++ (framed body ++ more) ∧
    toUtf8String algo = ED25519_KEY_ALGO ∧ body.length = length

/-- The wire value of the CA's key in the configuration. -/
def configuredCa (caPublicKeyOpenSsh : String) : Option Bytes :=
  match splitAtSpaces caPublicKeyOpenSsh with
  | algo :: body :: _ => if algo = ED25519_KEY_ALGO then some (fromBase64 body) else none
  | _ => none

/-- What the CA says with a certificate that lets its owner in under this nickname. -/
structure WireCert.Authorises (verify : Ed25519) (cfg : SshServerConfig) (nowSec : ℤ) (nick : String)
    (w : WireCert) : Prop where
  ca : configuredCa cfg.userCaPublicKey = some w.signatureKey
  signed : ∃ caRaw signature, Carries w.signatureKey 32 caRaw ∧ Carries w.signature 64 signature ∧
    verify caRaw w.tbs signature = true
  validAfter : (w.validAfter : ℤ) ≤ nowSec
  validBefore : nowSec < w.validBefore
  principal : ∃ p ∈ w.principals, toUtf8String p = cfg.requiredPrincipal
  extension : ∃ e ∈ w.extensions, toUtf8String e.1 = "permit-port-forwarding"
  critical : w.criticalOptions = []
  keyId : toUtf8String w.keyId = nick

def Authorised (verify : Ed25519) (cfg : SshServerConfig) (nowSec : ℤ) (data : Bytes) (nick : String) :
    Prop :=
  ∃ w : WireCert, data = w.bytes ∧ w.Authorises verify cfg nowSec nick

/-! ### Keys and signatures -/

theorem carries_of_read {wire body : Bytes} {length : ℕ} (h : readAlgoAndBody wire length = some body) :
    Carries wire length body := by
  unfold readAlgoAndBody at h
  split at h
  · contradiction
  next algo r halgo =>
    split at h
    · contradiction
    next hname =>
      split at h
      · contradiction
      next body' r' hbody =>
        split at h
        · contradiction
        next hlength =>
          cases h
          have hread := (Reader.readString_iff.mp halgo).trans (Reader.readString_iff.mp hbody)
          refine ⟨algo, r'.rest, ?_, not_not.mp hname, not_not.mp hlength⟩
          have hrest : wire = layout ([.str algo] ++ [.str body]) ++ r'.rest := hread.rest
          simpa only [List.cons_append, List.nil_append, layout, Field.bytes, List.append_assoc,
            List.append_nil] using hrest

theorem verify_sound {verify : Ed25519} {cert : ParsedSshUserCert} {ca : String}
    (h : verifySshUserCert verify cert ca = .ok ()) : configuredCa ca = some cert.signatureKey ∧
      ∃ caRaw signature, Carries cert.signatureKey 32 caRaw ∧ Carries cert.signature 64 signature ∧
        verify caRaw cert.tbs signature = true := by
  unfold verifySshUserCert at h
  split at h
  next algo body more hsplit =>
    split at h
    · contradiction
    next halgo =>
      dsimp only at h
      split at h
      · contradiction
      next hkey =>
        split at h
        · contradiction
        next signature hsignature =>
          split at h
          · contradiction
          next caRaw hca =>
            split at h
            next hgood =>
              have hkey' : cert.signatureKey = fromBase64 body := not_not.mp hkey
              have hconfigured : configuredCa ca = some (fromBase64 body) := by
                unfold configuredCa
                rw [hsplit]
                exact if_pos (not_not.mp halgo)
              rw [hkey']
              exact ⟨hconfigured, caRaw, signature, carries_of_read hca, carries_of_read hsignature,
                hgood⟩
            · contradiction
  · contradiction

/-! ### Options -/

/-- An object without keys comes from options of the one name that is not stored. -/
theorem optionMap_size {os : List (Bytes × Bytes)} : ∀ {out : InsertMap String String},
    (optionMap out os).size = 0 → out.size = 0 ∧ ∀ o ∈ os, toUtf8String o.1 = "__proto__" := by
  induction os with
  | nil => exact fun h => ⟨h, fun _ ho => absurd ho List.not_mem_nil⟩
  | cons o os ih =>
    intro out h
    obtain ⟨hout, hos⟩ := ih h
    unfold assign at hout
    split at hout
    next hname =>
      refine ⟨hout, fun x hx => ?_⟩
      rcases List.mem_cons.mp hx with rfl | hx
      · exact hname
      · exact hos x hx
    next hname =>
      have hmem := (InsertMap.get_eq_some_iff _).mp (out.get_set_self (toUtf8String o.1) (toUtf8String o.2))
      rw [List.length_eq_zero_iff.mp hout] at hmem
      contradiction

/-! ### The decision -/

theorem authorises_of_accepted {verify : Ed25519} {cfg : SshServerConfig} {nowSec : ℤ} {w : WireCert}
    (h : CertificateAccepted verify cfg nowSec w.parsed)
    (hplain : ∀ o ∈ w.criticalOptions, toUtf8String o.1 ≠ "__proto__") :
    w.Authorises verify cfg nowSec (toUtf8String w.keyId) := by
  obtain ⟨hverified, hafter, hbefore, hprincipal, hext, hcritical⟩ := h
  obtain ⟨hca, hsigned⟩ := verify_sound hverified
  refine ⟨hca, hsigned, hafter, hbefore, ?_, ?_, ?_, rfl⟩
  · obtain ⟨p, hp, hname⟩ := List.mem_map.mp hprincipal
    exact ⟨p, hp, hname⟩
  · rcases (optionMap_has (by decide)).mp hext with hnone | hsome
    · contradiction
    · exact hsome
  · rw [List.eq_nil_iff_forall_not_mem]
    exact fun o ho => hplain o ho ((optionMap_size hcritical).2 o ho)

/-- What is accepted begins with a certificate. It is an authorised one exactly when nothing follows it
and no critical option has the name that the object does not store. -/
theorem handleAuth_authorised_iff (verify : Ed25519) (config : Option SshServerConfig) (nowMs : ℤ)
    (ctx : AuthContext) (nick : String) (h : handleAuth verify config nowMs ctx = .accept nick) :
    ∃ (cfg : SshServerConfig) (w : WireCert) (trailing : Bytes), config = some cfg ∧
      ctx.key.bind (·.data) = some (w.bytes ++ trailing) ∧
      (Authorised verify cfg (nowMs / 1000) (w.bytes ++ trailing) nick ↔
        trailing = [] ∧ ∀ o ∈ w.criticalOptions, toUtf8String o.1 ≠ "__proto__") := by
  obtain ⟨cfg, cert, hcfg, ⟨-, -, data, hdata, hparsed⟩, hnick, haccepted⟩ :=
    (handleAuth_accept_iff verify config nowMs ctx nick).mp h
  obtain ⟨w, trailing, rfl, rfl⟩ := WireCert.parse_sound hparsed
  refine ⟨cfg, w, trailing, hcfg, hdata, ?_⟩
  constructor
  · rintro ⟨v, hbytes, hauth⟩
    rw [← List.append_nil v.bytes] at hbytes
    obtain ⟨rfl, htrailing⟩ := WireCert.bytes_append_inj hbytes
    refine ⟨htrailing, fun o ho => ?_⟩
    rw [hauth.critical] at ho
    contradiction
  · rintro ⟨rfl, hplain⟩
    have hkey : toUtf8String w.keyId = nick := hnick
    exact ⟨w, List.append_nil _, hkey ▸ authorises_of_accepted haccepted hplain⟩

def offers (w : WireCert) : AuthContext where
  method := "publickey"
  key := some ⟨"ssh-ed25519-cert-v01@openssh.com", some w.bytes⟩
  signed := none

theorem signedCert_authorised :
    Authorised SshServer.caOnly SshServer.sampleConfig 1700000000 signedCert.bytes "q1" := by
  obtain ⟨cfg, w, trailing, hcfg, hdata, hiff⟩ := handleAuth_authorised_iff SshServer.caOnly
    (some SshServer.sampleConfig) 1700000000000 (offers signedCert) "q1" (by decide +kernel)
  cases hcfg
  have hbytes : signedCert.bytes ++ [] = w.bytes ++ trailing :=
    (List.append_nil _).trans (Option.some.inj hdata)
  obtain ⟨rfl, rfl⟩ := WireCert.bytes_append_inj hbytes
  rw [List.append_nil] at hiff
  exact hiff.mpr ⟨rfl, fun o ho => absurd ho List.not_mem_nil⟩

/-- A certificate that may only be used with a forced command, under an unlucky name. -/
def restrictedCert : WireCert :=
  deviceCert [(text "__proto__", text "force-command")] caSignature (by decide +kernel)

theorem restrictedCert_accepted : ¬ ∀ (verify : Ed25519) (config : Option SshServerConfig) (nowMs : ℤ)
    (ctx : AuthContext) (nick : String), handleAuth verify config nowMs ctx = .accept nick →
      ∃ cfg data, config = some cfg ∧ ctx.key.bind (·.data) = some data ∧
        Authorised verify cfg (nowMs / 1000) data nick := by
  intro hall
  obtain ⟨cfg, data, -, hdata, w, hbytes, hauth⟩ := hall SshServer.caOnly (some SshServer.sampleConfig)
    1700000000000 (offers restrictedCert) "q1" (by decide +kernel)
  have hsame : restrictedCert.bytes ++ [] = w.bytes ++ [] := by
    rw [← hbytes, ← Option.some.inj hdata]
  obtain ⟨rfl, -⟩ := WireCert.bytes_append_inj hsame
  exact absurd hauth.critical (by decide +kernel)

end UnoQ.Ssh
