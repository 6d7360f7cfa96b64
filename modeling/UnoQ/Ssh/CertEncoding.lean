import UnoQ.Ssh.CertLayout
import UnoQ.Ssh.Utf8

/-!
# Encoding a certificate

What a CA writes down for a user: the texts of a certificate in UTF-8, its numbers and lists
in the wire layout. The parser gets back what was written.
-/

namespace UnoQ.Ssh
open BigEndian

theorem text_eq_utf8 (s : String) : text s = utf8 s := by
  unfold text utf8
  rw [String.toUTF8_eq_toByteArray, ← String.utf8Encode_toList]
  unfold List.utf8Encode
  rw [List.data_toByteArray]

theorem toUtf8String_text (s : String) : toUtf8String (text s) = s := by
  rw [text_eq_utf8]
  exact toUtf8String_utf8 s

theorem toUtf8String_eq_text {s : String} (hs : replacementChar ∉ s.toList) {bs : Bytes} :
    toUtf8String bs = s ↔ bs = text s := by
  rw [text_eq_utf8]
  exact toUtf8String_eq_iff hs

/-- What a certificate for a user says. -/
structure UserCertContents where
  nonce : Bytes
  pubkey : Bytes
  serial : ℕ
  keyId : String
  principals : List String
  validAfter : ℕ
  validBefore : ℕ
  criticalOptions : List (Bytes × Bytes)
  extensions : List (Bytes × Bytes)
  reserved : Bytes
  signatureKey : Bytes

/-- The fields before the signature. -/
def UserCertContents.certFields (c : UserCertContents) : CertFields where
  algo := text ED25519_CERT_ALGO
  nonce := c.nonce
  pubkey := c.pubkey
  serial := c.serial
  type := CERT_TYPE_USER
  keyId := text c.keyId
  principals := c.principals.map text
  validAfter := c.validAfter
  validBefore := c.validBefore
  criticalOptions := c.criticalOptions
  extensions := c.extensions
  reserved := c.reserved
  signatureKey := c.signatureKey

/-- A certificate with its signature: a key of 32 bytes, and every number and length in range. -/
structure UserCert extends UserCertContents where
  signature : Bytes
  pubkeyLength : pubkey.length = 32
  fits : ∀ f ∈ toUserCertContents.certFields.fields ++ [.str signature], f.Fits

namespace UserCert

/-- The encoding up to the signature. -/
def signedBytes (c : UserCert) : Bytes := layout c.certFields.fields

def encode (c : UserCert) : Bytes := c.signedBytes ++ framed c.signature

def wire (c : UserCert) : WireCert where
  toCertFields := c.certFields
  signature := c.signature
  certAlgo := toUtf8String_text ED25519_CERT_ALGO
  pubkeyLength := c.pubkeyLength
  userType := rfl
  fits := c.fits

theorem encode_eq_wire (c : UserCert) : c.encode = c.wire.bytes := by
  rw [WireCert.bytes_eq]
  rfl

/-- The parsed object says what the certificate says. -/
structure Describes (cert : ParsedSshUserCert) (c : UserCert) : Prop where
  algo : cert.algo = ED25519_CERT_ALGO
  nonce : cert.nonce = c.nonce
  pubkey : cert.pubkey = c.pubkey
  serial : cert.serial = c.serial
  type : cert.type = CERT_TYPE_USER
  keyId : cert.keyId = c.keyId
  principals : cert.principals = c.principals
  validAfter : cert.validAfter = c.validAfter
  validBefore : cert.validBefore = c.validBefore
  portForwarding : cert.extensions.has "permit-port-forwarding" = true ↔
    ∃ e ∈ c.extensions, e.1 = text "permit-port-forwarding"
  signatureKey : cert.signatureKey = c.signatureKey
  tbs : cert.tbs = c.signedBytes
  signature : cert.signature = c.signature

theorem map_toUtf8String_text (names : List String) : (names.map text).map toUtf8String = names := by
  rw [List.map_map]
  calc names.map (toUtf8String ∘ text) = names.map id :=
        List.map_congr_left fun s _ => toUtf8String_text s
    _ = names := List.map_id names

theorem extensions_has (c : UserCert) {name : String} (hproto : name ≠ "__proto__")
    (hname : replacementChar ∉ name.toList) :
    c.wire.parsed.extensions.has name = true ↔ ∃ e ∈ c.extensions, e.1 = text name := by
  show (optionMap InsertMap.empty c.extensions).has name = true ↔ _
  rw [optionMap_has hproto]
  simp only [toUtf8String_eq_text hname]
  exact or_iff_right Bool.false_ne_true

theorem parse_encode (c : UserCert) : ∃ cert, parseSshUserCert c.encode = .ok cert ∧ Describes cert c := by
  have hparse := WireCert.parse_bytes c.wire []
  rw [List.append_nil, ← encode_eq_wire] at hparse
  refine ⟨c.wire.parsed, hparse, ?_⟩
  constructor
  · exact toUtf8String_text ED25519_CERT_ALGO
  · rfl
  · rfl
  · rfl
  · rfl
  · exact toUtf8String_text c.keyId
  · exact map_toUtf8String_text c.principals
  · rfl
  · rfl
  · exact c.extensions_has (by decide) (by decide)
  · rfl
  · rfl
  · rfl

def kitchenCert : UserCert where
  nonce := [7]
  pubkey := List.replicate 32 1
  serial := 2 ^ 64 - 1
  keyId := "küche"
  principals := ["tunnel", ""]
  validAfter := 0
  validBefore := 2 ^ 64 - 1
  criticalOptions := []
  extensions := [(text "permit-pty", []), (text "permit-port-forwarding", [])]
  reserved := []
  signatureKey := framed (text "ssh-ed25519") ++ framed (List.replicate 32 0)
  signature := []
  pubkeyLength := rfl
  fits := by decide +kernel

example : (parseSshUserCert kitchenCert.encode).map (fun cert => (cert.keyId, cert.principals)) =
    .ok ("küche", ["tunnel", ""]) := by
  decide +kernel

end UserCert

end UnoQ.Ssh
