import UnoQ.Ssh.CertLayout
import UnoQ.Ssh.SshServer

/-!
# Proof of possession

A signed publickey request proves that its sender has the private key only if the
signature is checked against the key in the certificate. `handleAuth` leaves that
check out, so a certificate, which is public, is all one needs. What can be said is
when it does no harm: as long as nobody presents an acceptable certificate with a
signature that is not its owner's.
-/

namespace UnoQ.Ssh
open BigEndian Transition

/-- If the context carries a signature and is accepted, the signature is by the key in the
certificate it presents. -/
def Possession (verify : Ed25519) (r : AuthRecord) : Prop :=
  ∀ nick, r.decision verify = .accept nick → ∀ sig, r.ctx.signed = some sig →
    ∃ cert, presents r.ctx cert ∧ verify cert.pubkey sig.blob sig.signature = true

/-- An acceptable certificate presented with a signature that is not by its key. -/
def Forgery (verify : Ed25519) (r : AuthRecord) : Prop :=
  ∃ sig cfg cert, r.ctx.signed = some sig ∧ r.config = some cfg ∧ presents r.ctx cert ∧
    CertificateAccepted verify cfg (r.nowMs / 1000) cert ∧
    verify cert.pubkey sig.blob sig.signature = false

/-- The record is that of a client which proved to own the certificate with this KeyID. -/
def ProvedOwner (verify : Ed25519) (nick : String) (r : AuthRecord) : Prop :=
  r.decision verify = .accept nick ∧
    ∃ sig cert, r.ctx.signed = some sig ∧ presents r.ctx cert ∧ cert.keyId = nick ∧
      verify cert.pubkey sig.blob sig.signature = true

theorem possession_iff_not_forgery (verify : Ed25519) (r : AuthRecord) :
    Possession verify r ↔ ¬ Forgery verify r := by
  constructor
  · rintro hpos ⟨sig, cfg, cert, hsig, hcfg, hcert, hacc, hbad⟩
    have haccept : r.decision verify = .accept cert.keyId :=
      (handleAuth_accept_iff verify _ _ _ _).mpr ⟨cfg, cert, hcfg, hcert, rfl, hacc⟩
    obtain ⟨cert', hcert', hgood⟩ := hpos _ haccept sig hsig
    rw [presents_unique hcert' hcert, hbad] at hgood
    contradiction
  · intro hno nick haccept sig hsig
    obtain ⟨cfg, cert, hcfg, hcert, -, hacc⟩ := (handleAuth_accept_iff verify _ _ _ _).mp haccept
    refine ⟨cert, hcert, ?_⟩
    by_contra hbad
    exact hno ⟨sig, cfg, cert, hsig, hcfg, hcert, hacc, by simpa using hbad⟩

theorem provedOwner_of_accept {verify : Ed25519} {r : AuthRecord} {nick : String}
    (hpos : Possession verify r) (haccept : r.decision verify = .accept nick)
    (hsigned : r.ctx.signed.isSome = true) : ProvedOwner verify nick r := by
  obtain ⟨sig, hsig⟩ := Option.isSome_iff_exists.mp hsigned
  obtain ⟨cfg, cert, -, hcert, hkey, -⟩ := (handleAuth_accept_iff verify _ _ _ _).mp haccept
  obtain ⟨cert', hcert', hgood⟩ := hpos nick haccept sig hsig
  rw [presents_unique hcert' hcert] at hgood
  exact ⟨haccept, sig, cert, hsig, hcert, hkey, hgood⟩

namespace SshServer

/-- Who is authenticated has an accepted signed context for the nickname it bears, and who is
registered is authenticated under that nickname. -/
structure AuthInv (verify : Ed25519) (s : SshServer) : Prop where
  fresh : ∀ c, s.nextClient ≤ c → (s.clients c).authenticated = false
  proved : ∀ c, (s.clients c).authenticated = true → ∃ r ∈ s.log, ∃ nick,
    r.client = c ∧ r.ctx.signed.isSome = true ∧ (s.clients c).deviceNick = some nick ∧
      r.decision verify = .accept nick
  routed : ∀ nick entry, s.registry.get nick = some entry →
    (s.clients entry.client).authenticated = true ∧
      (s.clients entry.client).deviceNick = some nick

theorem authInv_initial (verify : Ed25519) : AuthInv verify initial where
  fresh := by simp [initial]
  proved := by simp [initial]
  routed := by simp [initial]

theorem AuthInv.quiet {verify : Ed25519} {s t : SshServer} (h : AuthInv verify s)
    (hclients : t.clients = s.clients) (hnext : t.nextClient = s.nextClient) (hlog : t.log = s.log)
    (hreg : ∀ nick entry, t.registry.get nick = some entry → s.registry.get nick = some entry) :
    AuthInv verify t where
  fresh c hc := by
    rw [hclients]
    exact h.fresh c (hnext ▸ hc)
  proved c hc := by
    rw [hclients] at hc ⊢
    rw [hlog]
    exact h.proved c hc
  routed nick entry he := by
    rw [hclients]
    exact h.routed nick entry (hreg nick entry he)

theorem authInv_onConnection {verify : Ed25519} {s : SshServer} (h : AuthInv verify s) :
    AuthInv verify s.onConnection := by
  have hclients : ∀ c, s.onConnection.clients c =
      if c = s.nextClient then ⟨none, false, false⟩ else s.clients c :=
    fun c => Function.update_apply s.clients _ _ c
  have hold : ∀ c, (s.clients c).authenticated = true → c ≠ s.nextClient := by
    intro c hc he
    rw [he, h.fresh _ (Nat.le_refl _)] at hc
    contradiction
  constructor
  · intro c hc
    rw [hclients]
    split
    · rfl
    · exact h.fresh c (Nat.le_of_succ_le hc)
  · intro c hc
    rw [hclients] at hc ⊢
    split at hc
    · simp at hc
    next hne =>
      rw [if_neg hne]
      exact h.proved c hc
  · intro nick entry he
    have hr := h.routed nick entry he
    rw [hclients, if_neg (hold _ hr.1)]
    exact hr

theorem authInv_onAuthentication {verify : Ed25519} {s : SshServer} (h : AuthInv verify s) {c : ℕ}
    (hc : c < s.nextClient) (hout : (s.clients c).authenticated = false) (nowMs : ℤ)
    (ctx : AuthContext) : AuthInv verify (s.onAuthentication verify c nowMs ctx) := by
  have hlogged : AuthInv verify { s with log := s.log ++ [⟨c, s.config, nowMs, ctx⟩] } := by
    refine ⟨h.fresh, ?_, h.routed⟩
    intro x hx
    obtain ⟨r, hr, hrest⟩ := h.proved x hx
    exact ⟨r, List.mem_append_left _ hr, hrest⟩
  unfold onAuthentication
  dsimp only
  split
  next nick haccept =>
    have hclients : ∀ x, ((⟨s.bound, s.binding, s.closing, s.config, s.registry, s.waiters,
        s.nextWaiter, s.settled, s.clients, s.nextClient, s.ended,
        s.log ++ [⟨c, s.config, nowMs, ctx⟩]⟩ : SshServer).setClient c
          ⟨some nick, ctx.signed.isSome, (s.clients c).closed⟩).clients x =
        if x = c then ⟨some nick, ctx.signed.isSome, (s.clients c).closed⟩ else s.clients x :=
      fun x => Function.update_apply s.clients c _ x
    constructor
    · intro x hx
      have hne : x ≠ c := fun he => by
        rw [he] at hx
        exact absurd hc (Nat.not_lt.mpr hx)
      rw [hclients, if_neg hne]
      exact h.fresh x hx
    · intro x hx
      rw [hclients] at hx ⊢
      split at hx
      next he =>
        rw [if_pos he]
        exact ⟨⟨c, s.config, nowMs, ctx⟩, List.mem_append_right _ (List.mem_singleton_self _), nick,
          he.symm, hx, rfl, haccept⟩
      next hne =>
        rw [if_neg hne]
        exact hlogged.proved x hx
    · intro nick' entry he
      have hr := h.routed nick' entry he
      have hne : entry.client ≠ c := fun hec => by
        rw [hec, hout] at hr
        simp at hr
      rw [hclients, if_neg hne]
      exact hr
  · exact hlogged

theorem authInv_installEntry {verify : Ed25519} {s : SshServer} (h : AuthInv verify s)
    {nick : String} {entry : RegistryEntry}
    (hauth : (s.clients entry.client).authenticated = true)
    (hnick : (s.clients entry.client).deviceNick = some nick) :
    AuthInv verify (s.installEntry nick entry) where
  fresh := h.fresh
  proved := h.proved
  routed nick' entry' he := by
    rcases InsertMap.get_set_eq_some he with ⟨rfl, rfl⟩ | ⟨-, he'⟩
    · exact ⟨hauth, hnick⟩
    · exact h.routed nick' entry' he'

theorem authInv_onRequest {verify : Ed25519} {s : SshServer} (h : AuthInv verify s) {c : ℕ}
    (hauth : (s.clients c).authenticated = true) (name : String) (info : Option (String × ℕ)) :
    AuthInv verify (s.onRequest c name info) := by
  unfold onRequest
  split
  · exact h
  · split
    · exact h
    next nick hnick =>
      split
      · exact h
      · exact authInv_installEntry h hauth hnick

theorem authInv_onClose {verify : Ed25519} {s : SshServer} (h : AuthInv verify s) (c : ℕ) :
    AuthInv verify (s.onClose c) := by
  have hclients : ∀ x, (s.setClient c { s.clients c with closed := true }).clients x =
      if x = c then { s.clients c with closed := true } else s.clients x :=
    fun x => Function.update_apply s.clients c _ x
  have hsame : ∀ x, ((s.setClient c { s.clients c with closed := true }).clients x).authenticated =
      (s.clients x).authenticated ∧
      ((s.setClient c { s.clients c with closed := true }).clients x).deviceNick =
        (s.clients x).deviceNick := by
    intro x
    rw [hclients]
    split
    next he => rw [he]; exact ⟨rfl, rfl⟩
    · exact ⟨rfl, rfl⟩
  have hclosed : AuthInv verify (s.setClient c { s.clients c with closed := true }) := by
    constructor
    · intro x hx
      rw [(hsame x).1]
      exact h.fresh x hx
    · intro x hx
      rw [(hsame x).1] at hx
      rw [(hsame x).2]
      exact h.proved x hx
    · intro nick entry he
      rw [(hsame _).1, (hsame _).2]
      exact h.routed nick entry he
  unfold onClose
  dsimp only
  split
  · exact hclosed
  · split
    · exact hclosed
    · split
      · exact hclosed
      · split
        · exact hclosed.quiet rfl rfl rfl fun _ _ he => (InsertMap.get_delete_eq_some he).2
        · exact hclosed

theorem authInv_step {verify : Ed25519} {s t : SshServer} {ev : Event} (h : AuthInv verify s)
    (hs : step verify s ev = some t) : AuthInv verify t := by
  cases effect_of_step hs with
  | listen config =>
    unfold listen
    split
    · exact h
    · exact h.quiet rfl rfl rfl fun _ _ he => he
  | bound => exact h.quiet rfl rfl rfl fun _ _ he => he
  | bindFailed => exact h.quiet rfl rfl rfl fun _ _ he => he
  | connection => exact authInv_onConnection h
  | authentication nowMs ctx hborn hopen hunknown =>
    exact authInv_onAuthentication h hborn hunknown nowMs ctx
  | request name info hborn hopen hknown => exact authInv_onRequest h hknown name info
  | @closed c => exact authInv_onClose h c
  | connect nick =>
    unfold connect
    dsimp only
    split
    · split <;> exact h.quiet rfl rfl rfl fun _ _ he => he
    · exact h.quiet rfl rfl rfl fun _ _ he => he
  | waitExpired => exact h.quiet rfl rfl rfl fun _ _ he => he
  | close =>
    unfold close
    split
    · exact h
    · refine h.quiet rfl rfl rfl fun _ _ he => ?_
      simp at he
  | serverClosed => exact h.quiet rfl rfl rfl fun _ _ he => he

theorem authInv_reach {verify : Ed25519} {s : SshServer} (h : (machine verify).Reach always s) :
    AuthInv verify s := by
  refine h.invariant (P := AuthInv verify) ?_ ?_
  · rintro _ rfl
    exact authInv_initial verify
  · intro _ _ _ _ hi hs _
    exact authInv_step hi hs

/-- Everyone in the registry proved to own the certificate it is registered for. -/
def RegisteredOwners (verify : Ed25519) (s : SshServer) : Prop :=
  ∀ nick entry, s.registry.get nick = some entry →
    ∃ r ∈ s.log, r.client = entry.client ∧ ProvedOwner verify nick r

/-- In every run, accepted signatures prove possession of the presented certificate exactly when no
forgery was attempted, and then the registry holds proved owners only. -/
theorem possession_iff (verify : Ed25519) (s : SshServer) (h : (machine verify).Reach always s) :
    ((∀ r ∈ s.log, Possession verify r) ↔ ∀ r ∈ s.log, ¬ Forgery verify r) ∧
      ((∀ r ∈ s.log, ¬ Forgery verify r) → s.RegisteredOwners verify) := by
  refine ⟨forall₂_congr fun r _ => possession_iff_not_forgery verify r, ?_⟩
  intro hno nick entry he
  have hi := authInv_reach h
  obtain ⟨hauth, hnick⟩ := hi.routed nick entry he
  obtain ⟨r, hr, nick', hclient, hsigned, hnick', haccept⟩ := hi.proved _ hauth
  rw [hnick] at hnick'
  cases hnick'
  have hpos := (possession_iff_not_forgery verify r).mpr (hno r hr)
  exact ⟨r, hr, hclient, provedOwner_of_accept hpos haccept hsigned⟩

/-! ### A certificate anyone can copy -/

def sampleConfig : SshServerConfig where
  listenAddress := "0.0.0.0"
  listenPort := 2222
  userCaPublicKey := "ssh-ed25519 AAAAC3NzaC1lZDI1NTE5AAAAIAAAAAAAAAAAAAAAAAAAAAAAAAAAAAAAAAAAAAAAAAAA user CA"
  requiredPrincipal := "unoq"
  connectTimeoutMs := 5000

/-- A publickey request with the certificate and a signature that is nobody's. -/
def copiedCertificate : AuthContext where
  method := "publickey"
  key := some ⟨"ssh-ed25519-cert-v01@openssh.com", some signedCert.bytes⟩
  signed := some ⟨[], []⟩

def sampleRun : List Event :=
  [.listen sampleConfig, .bound, .connection, .authentication 0 1700000000000 copiedCertificate,
    .request 0 "tcpip-forward" (some ("127.0.0.1", 7000))]

/-- Only the CA's own signatures verify. -/
def caOnly : Ed25519 := fun key _ _ => decide (key = List.replicate 32 0)

theorem copiedCertificate_accepted :
    handleAuth caOnly (some sampleConfig) 1700000000000 copiedCertificate = .accept "q1" := by
  decide +kernel

theorem signedCert_pubkey :
    (parseSshUserCert signedCert.bytes).map (·.pubkey) = .ok (List.replicate 32 1) := by
  decide +kernel

def sampleRecord : AuthRecord := ⟨0, some sampleConfig, 1700000000000, copiedCertificate⟩

theorem sampleRun_after (verify : Ed25519)
    (h : handleAuth verify (some sampleConfig) 1700000000000 copiedCertificate = .accept "q1") :
    ((machine verify).after always initial sampleRun).log = [sampleRecord] ∧
      (((machine verify).after always initial sampleRun).registry.get "q1").map (·.client) =
        some 0 := by
  have hsigned : copiedCertificate.signed.isSome = true := rfl
  simp [Machine.after, Machine.checked, machine, step, sampleRun, listen, initial, onConnection,
    onAuthentication, h, hsigned, setClient, onRequest, installEntry, sampleRecord, always]

theorem copiedCertificate_registers :
    ¬ ∀ (verify : Ed25519) (s : SshServer), (machine verify).Reach always s →
      (∀ r ∈ s.log, Possession verify r) ∧ s.RegisteredOwners verify := by
  intro hall
  obtain ⟨hpos, -⟩ := hall caOnly _ ((Machine.Reach.init rfl).after sampleRun)
  rw [(sampleRun_after caOnly copiedCertificate_accepted).1] at hpos
  obtain ⟨cert, ⟨-, -, data, hdata, hparsed⟩, hgood⟩ :=
    hpos sampleRecord (List.mem_singleton_self _) "q1" copiedCertificate_accepted _ rfl
  cases hdata
  have hkey := signedCert_pubkey
  rw [hparsed] at hkey
  have hpub : cert.pubkey = List.replicate 32 1 := Except.ok.inj hkey
  rw [hpub] at hgood
  exact absurd hgood (by decide)

def honest : Ed25519 := fun _ _ _ => true

theorem honestRun_owners :
    (((machine honest).after always initial sampleRun).registry.get "q1").map (·.client) = some 0 ∧
      ((machine honest).after always initial sampleRun).RegisteredOwners honest := by
  have haccept : handleAuth honest (some sampleConfig) 1700000000000 copiedCertificate =
      .accept "q1" := by decide +kernel
  refine ⟨(sampleRun_after honest haccept).2,
    (possession_iff honest _ ((Machine.Reach.init rfl).after sampleRun)).2 ?_⟩
  rintro r _ ⟨sig, cfg, cert, -, -, -, -, hbad⟩
  exact absurd hbad (by simp [honest])

end SshServer

end UnoQ.Ssh
