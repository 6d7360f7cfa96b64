import UnoQ.Ssh.Authorisation
import UnoQ.Ssh.CertEncoding

/-!
# What the parser accepts

The grammar of a certificate and of a CA's signature, from the first byte to the last. Neither
reader asks at its end whether its buffer is used up, so what is accepted is what begins with a
certificate or with a signature.
-/

namespace UnoQ.Ssh
open BigEndian

/-- The fourteen fields, with nothing behind them. -/
def IsCert (blob : Bytes) : Prop :=
  ∃ w : WireCert, w.algo = text ED25519_CERT_ALGO ∧ blob = w.bytes

/-- One algorithm string and one string of 64 bytes. -/
def IsSignature (sigBlob signature : Bytes) : Prop :=
  signature.length = 64 ∧ sigBlob = framed (text ED25519_KEY_ALGO) ++ framed signature

/-- The blob is accepted when it is a certificate, and nothing of it is left over. -/
structure ExactCert (blob : Bytes) : Prop where
  accepted : (∃ cert, parseSshUserCert blob = .ok cert) ↔ IsCert blob
  accounted : ∀ cert, parseSshUserCert blob = .ok cert → blob = cert.tbs ++ framed cert.signature

def ExactSignature (sigBlob : Bytes) : Prop :=
  ∀ signature, decodeSshSignature sigBlob = some signature → IsSignature sigBlob signature

/-- A certificate and at least one byte more. -/
def CertAndMore (blob : Bytes) : Prop :=
  ∃ (w : WireCert) (trailing : Bytes), trailing ≠ [] ∧ blob = w.bytes ++ trailing

/-- A signature and at least one byte more. -/
def SignatureAndMore (sigBlob : Bytes) : Prop :=
  ∃ signature trailing : Bytes, signature.length = 64 ∧ trailing ≠ [] ∧
    sigBlob = (framed (text ED25519_KEY_ALGO) ++ framed signature) ++ trailing

/-! ### Certificates -/

theorem WireCert.algo_eq (w : WireCert) : w.algo = text ED25519_CERT_ALGO :=
  (toUtf8String_eq_text (by decide)).mp w.certAlgo

theorem WireCert.isCert (w : WireCert) : IsCert w.bytes := ⟨w, w.algo_eq, rfl⟩

/-- A blob that is no certificate with bytes behind it is accepted as a certificate alone. -/
theorem accepted_alone {blob : Bytes} (hmore : ¬ CertAndMore blob) {cert : ParsedSshUserCert}
    (h : parseSshUserCert blob = .ok cert) : ∃ w : WireCert, blob = w.bytes ∧ w.parsed = cert := by
  obtain ⟨w, trailing, hblob, hcert⟩ := WireCert.parse_sound h
  have hnone : trailing = [] := by
    by_contra hsome
    exact hmore ⟨w, trailing, hsome, hblob⟩
  rw [hnone, List.append_nil] at hblob
  exact ⟨w, hblob, hcert⟩

theorem exactCert_iff (blob : Bytes) : ExactCert blob ↔ ¬ CertAndMore blob := by
  constructor
  · rintro ⟨-, haccounted⟩ ⟨w, trailing, hsome, rfl⟩
    have hall : w.bytes ++ trailing = w.bytes := by
      calc w.bytes ++ trailing = w.tbs ++ framed w.signature :=
            haccounted w.parsed (WireCert.parse_bytes w trailing)
        _ = w.bytes := w.bytes_eq.symm
    exact hsome (List.append_right_eq_self.mp hall)
  · intro hmore
    constructor
    · constructor
      · rintro ⟨cert, hparse⟩
        obtain ⟨w, rfl, -⟩ := accepted_alone hmore hparse
        exact w.isCert
      · rintro ⟨w, -, rfl⟩
        have hparse := WireCert.parse_bytes w []
        rw [List.append_nil] at hparse
        exact ⟨w.parsed, hparse⟩
    · intro cert hparse
      obtain ⟨w, rfl, rfl⟩ := accepted_alone hmore hparse
      exact w.bytes_eq

/-! ### Signatures -/

theorem keyAlgo_fits : (Field.str (text ED25519_KEY_ALGO)).Fits := by decide +kernel

theorem readAlgoAndBody_of_reads {wire algo body : Bytes} {r r' : Reader}
    (hname : (Reader.new wire).readString = .ok (algo, r)) (halgo : toUtf8String algo = ED25519_KEY_ALGO)
    (hbody : r.readString = .ok (body, r')) : readAlgoAndBody wire body.length = some body := by
  unfold readAlgoAndBody
  split
  next message hfail =>
    rw [hname] at hfail
    contradiction
  next algo' r₁ hread =>
    rw [hname] at hread
    cases hread
    split
    next hother => exact absurd halgo hother
    next hsame =>
      split
      next message hfail =>
        rw [hbody] at hfail
        contradiction
      next body' r₂ hread' =>
        rw [hbody] at hread'
        cases hread'
        exact if_neg (not_not.mpr rfl)

/-- What begins with an algorithm string and a body of the right length is read. -/
theorem read_of_carries {wire body : Bytes} {length : ℕ} (hlength : length < 256 ^ 4)
    (h : Carries wire length body) : readAlgoAndBody wire length = some body := by
  obtain ⟨algo, more, rfl, halgo, rfl⟩ := h
  have hname : algo = text ED25519_KEY_ALGO := (toUtf8String_eq_text (by decide)).mp halgo
  have hfits : (Field.str algo).Fits := by
    rw [hname]
    exact keyAlgo_fits
  obtain ⟨r, hread, hrest⟩ := Reader.exists_read hfits
    (Reader.new_rest (framed algo ++ (framed body ++ more)))
  obtain ⟨r', hread', -⟩ := Reader.exists_read (f := .str body) hlength hrest
  exact readAlgoAndBody_of_reads (Reader.readString_iff.mpr hread) halgo (Reader.readString_iff.mpr hread')

theorem exactSignature_iff (sigBlob : Bytes) : ExactSignature sigBlob ↔ ¬ SignatureAndMore sigBlob := by
  constructor
  · rintro hexact ⟨signature, trailing, hlength, hsome, rfl⟩
    have hcarries : Carries ((framed (text ED25519_KEY_ALGO) ++ framed signature) ++ trailing) 64 signature :=
      ⟨text ED25519_KEY_ALGO, trailing, List.append_assoc _ _ _, toUtf8String_text _, hlength⟩
    obtain ⟨-, hall⟩ := hexact signature (read_of_carries (by decide) hcarries)
    exact hsome (List.append_right_eq_self.mp hall)
  · intro hmore signature hdecode
    obtain ⟨algo, more, hblob, halgo, hlength⟩ := carries_of_read hdecode
    rw [(toUtf8String_eq_text (by decide)).mp halgo, ← List.append_assoc] at hblob
    have hnone : more = [] := by
      by_contra hsome
      exact hmore ⟨signature, more, hlength, hsome, hblob⟩
    rw [hnone, List.append_nil] at hblob
    exact ⟨hlength, hblob⟩

/-- Both readers keep to their grammars exactly where nothing follows what they read. -/
theorem grammar_iff (blob sigBlob : Bytes) : (ExactCert blob ↔ ¬ CertAndMore blob) ∧
    (ExactSignature sigBlob ↔ ¬ SignatureAndMore sigBlob) :=
  ⟨exactCert_iff blob, exactSignature_iff sigBlob⟩

/-- One byte is added to a certificate, and one to a signature. -/
theorem trailingByte_accepted :
    ¬ ExactCert (signedCert.bytes ++ [0]) ∧ ¬ ExactSignature (caSignature ++ [0]) := by
  constructor
  · exact fun h => (exactCert_iff _).mp h ⟨signedCert, [0], List.cons_ne_nil _ _, rfl⟩
  · intro h
    refine (exactSignature_iff _).mp h ⟨List.replicate 64 2, [0], rfl, List.cons_ne_nil _ _, ?_⟩
    rfl

end UnoQ.Ssh
