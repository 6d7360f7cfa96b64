import UnoQ.Lib.InsertMap
import UnoQ.Ssh.NodeText

/-!
# OpenSSH user certificates

`sshCertParser.ts`: the reader of length-prefixed fields, the certificate layout, and
the check of the CA's signature. A reader carries the fact that its offset lies within
its buffer, so no field can be read from outside. Ed25519 verification is the
platform's, and a parameter here.
-/

namespace UnoQ.Ssh
open BigEndian

/-- Answers whether the signature of the message verifies: `verify key message signature`. -/
abbrev Ed25519 := Bytes → Bytes → Bytes → Bool

structure Reader where
  buf : Bytes
  off : ℕ
  within : off ≤ buf.length

namespace Reader

def new (buf : Bytes) : Reader := ⟨buf, 0, Nat.zero_le _⟩

def done (r : Reader) : Bool := decide (r.buf.length ≤ r.off)

def left (r : Reader) : ℕ := r.buf.length - r.off

def take (r : Reader) (n : ℕ) : Except String (Bytes × Reader) :=
  if h : r.off + n ≤ r.buf.length then .ok ((r.buf.drop r.off).take n, ⟨r.buf, r.off + n, h⟩)
  else
    .error ("unexpected end of cert blob: need " ++ toString n ++ " bytes at offset " ++
      toString r.off ++ " but only " ++ toString r.left ++ " remain")

def readUint32 (r : Reader) : Except String (ℕ × Reader) := do
  let (bs, r) ← r.take 4
  return (decode bs, r)

def readUint64 (r : Reader) : Except String (ℕ × Reader) := do
  let (bs, r) ← r.take 8
  return (decode bs, r)

def readString (r : Reader) : Except String (Bytes × Reader) := do
  let (len, r) ← r.readUint32
  r.take len

theorem take_spec {r r' : Reader} {n : ℕ} {bs : Bytes} (h : r.take n = .ok (bs, r')) :
    r'.buf = r.buf ∧ r'.off = r.off + n ∧ bs = (r.buf.drop r.off).take n := by
  unfold take at h
  split at h
  · cases h
    exact ⟨rfl, rfl, rfl⟩
  · contradiction

theorem readString_left {r r' : Reader} {bs : Bytes} (h : r.readString = .ok (bs, r')) :
    r'.left + 4 ≤ r.left := by
  simp only [readString, readUint32, bind, Except.bind, pure, Except.pure] at h
  cases h₁ : r.take 4 with
  | error e => simp [h₁] at h
  | ok p =>
    simp only [h₁] at h
    obtain ⟨hb₁, ho₁, -⟩ := take_spec h₁
    obtain ⟨hb₂, ho₂, -⟩ := take_spec h
    have hw := r'.within
    unfold left
    rw [hb₂, hb₁] at hw ⊢
    omega

end Reader

/-! ### Lists of fields -/

/-- The loop of `parseStringList`. The bound on its turns is never reached: every turn reads at
least four bytes. -/
def readStrings : ℕ → Reader → Except String (List String)
  | 0, _ => .ok []
  | turns + 1, r =>
    if r.done then .ok []
    else do
      let (s, r) ← r.readString
      let rest ← readStrings turns r
      return toUtf8String s :: rest

def parseStringList (buf : Bytes) : Except String (List String) :=
  readStrings (buf.length + 1) (Reader.new buf)

/-- Assigning to an object: the name that would set its prototype stores nothing. -/
def assign (out : InsertMap String String) (name value : String) : InsertMap String String :=
  if name = "__proto__" then out else out.set name value

def readOptions : ℕ → Reader → InsertMap String String → Except String (InsertMap String String)
  | 0, _, out => .ok out
  | turns + 1, r, out =>
    if r.done then .ok out
    else do
      let (name, r) ← r.readString
      let (value, r) ← r.readString
      readOptions turns r (assign out (toUtf8String name) (toUtf8String value))

def parseOptions (buf : Bytes) : Except String (InsertMap String String) :=
  readOptions (buf.length + 1) (Reader.new buf) InsertMap.empty

theorem readStrings_turns (n : ℕ) : ∀ (m : ℕ) (r : Reader), r.left < n → r.left < m →
    readStrings n r = readStrings m r := by
  induction n with
  | zero =>
    intro m r hn
    omega
  | succ n ih =>
    intro m r hn hm
    cases m with
    | zero => omega
    | succ m =>
      simp only [readStrings, bind, Except.bind]
      split
      · rfl
      · cases h : r.readString with
        | error e => rfl
        | ok p =>
          have hleft := Reader.readString_left (show r.readString = .ok (p.1, p.2) from h)
          simp only [ih m p.2 (by omega) (by omega)]

theorem readOptions_turns (n : ℕ) : ∀ (m : ℕ) (r : Reader) (out : InsertMap String String),
    r.left < n → r.left < m → readOptions n r out = readOptions m r out := by
  induction n with
  | zero =>
    intro m r out hn
    omega
  | succ n ih =>
    intro m r out hn hm
    cases m with
    | zero => omega
    | succ m =>
      simp only [readOptions, bind, Except.bind]
      split
      · rfl
      · cases h : r.readString with
        | error e => rfl
        | ok p =>
          have hleft := Reader.readString_left (show r.readString = .ok (p.1, p.2) from h)
          cases h' : p.2.readString with
          | error e => simp only [h']
          | ok q =>
            have hleft' := Reader.readString_left (show p.2.readString = .ok (q.1, q.2) from h')
            simp only [h']
            exact ih m q.2 _ (by omega) (by omega)

/-! ### Certificates -/

structure ParsedSshUserCert where
  algo : String
  nonce : Bytes
  pubkey : Bytes
  serial : ℕ
  type : ℕ
  keyId : String
  principals : List String
  validAfter : ℕ
  validBefore : ℕ
  criticalOptions : InsertMap String String
  extensions : InsertMap String String
  signatureKey : Bytes
  tbs : Bytes
  signature : Bytes

def ED25519_CERT_ALGO : String := "ssh-ed25519-cert-v01@openssh.com"
def ED25519_KEY_ALGO : String := "ssh-ed25519"
def CERT_TYPE_USER : ℕ := 1

def parseSshUserCert (blob : Bytes) : Except String ParsedSshUserCert := do
  let r := Reader.new blob
  let (algoBytes, r) ← r.readString
  let algo := toUtf8String algoBytes
  if algo ≠ ED25519_CERT_ALGO then throw ("unsupported cert algorithm: " ++ algo)
  let (nonce, r) ← r.readString
  let (pubkey, r) ← r.readString
  if pubkey.length ≠ 32 then
    throw ("ed25519 cert pubkey must be 32 bytes, got " ++ toString pubkey.length)
  let (serial, r) ← r.readUint64
  let (type, r) ← r.readUint32
  if type ≠ CERT_TYPE_USER then
    throw ("expected user cert (type=1), got type=" ++ toString type)
  let (keyId, r) ← r.readString
  let (principalBytes, r) ← r.readString
  let principals ← parseStringList principalBytes
  let (validAfter, r) ← r.readUint64
  let (validBefore, r) ← r.readUint64
  let (criticalBytes, r) ← r.readString
  let criticalOptions ← parseOptions criticalBytes
  let (extensionBytes, r) ← r.readString
  let extensions ← parseOptions extensionBytes
  let (_, r) ← r.readString
  let (signatureKey, r) ← r.readString
  let tbsEnd := r.off
  let (signature, _) ← r.readString
  return {
    algo, nonce, pubkey, serial, type
    keyId := toUtf8String keyId
    principals, validAfter, validBefore, criticalOptions, extensions, signatureKey
    tbs := blob.take tbsEnd
    signature }

/-! ### The CA's signature -/

/-- A wire value of two strings, the key algorithm and a body of the given length. -/
def readAlgoAndBody (wire : Bytes) (length : ℕ) : Option Bytes :=
  match (Reader.new wire).readString with
  | .error _ => none
  | .ok (algo, r) =>
    if toUtf8String algo ≠ ED25519_KEY_ALGO then none
    else
      match r.readString with
      | .error _ => none
      | .ok (body, _) => if body.length ≠ length then none else some body

def decodeSshSignature (sigBlob : Bytes) : Option Bytes := readAlgoAndBody sigBlob 64

def parseSshEd25519PubKey (wire : Bytes) : Option Bytes := readAlgoAndBody wire 32

def verifySshUserCert (verify : Ed25519) (cert : ParsedSshUserCert) (caPublicKeyOpenSsh : String) :
    Except String Unit :=
  match splitAtSpaces caPublicKeyOpenSsh with
  | algo :: body :: _ =>
    if algo ≠ ED25519_KEY_ALGO then .error ("CA must be " ++ ED25519_KEY_ALGO ++ ", got " ++ algo)
    else
      let caWire := fromBase64 body
      if cert.signatureKey ≠ caWire then
        .error "cert signatureKey doesn't match the configured user CA"
      else
        match decodeSshSignature cert.signature with
        | none => .error "cert signature blob is malformed"
        | some sigInner =>
          match parseSshEd25519PubKey caWire with
          | none => .error "CA pubkey wire format decode failed"
          | some caRaw =>
            if verify caRaw cert.tbs sigInner then .ok ()
            else .error "cert signature does not verify under the configured user CA"
  | _ => .error "CA pubkey is not in OpenSSH format (algo + base64)"

end UnoQ.Ssh
