import UnoQ.Lib.Transition
import UnoQ.Ssh.CertParser

/-!
# The SSH server

`SshServer.ts`: the decision of `handleAuth`, and the server as a machine over its
clients. The SSH protocol itself is the `ssh2` library's. Of it the machine assumes
what the code relies on: accepting an unsigned context only answers that the key
would do, accepting a signed one completes authentication, no context comes after
that, requests come only after it, and nothing comes from a closed client.
-/

namespace UnoQ.Ssh
open BigEndian

structure SshServerConfig where
  listenAddress : String
  listenPort : ℕ
  userCaPublicKey : String
  requiredPrincipal : String
  connectTimeoutMs : ℕ

structure OfferedKey where
  algo : String
  data : Option Bytes

/-- The signature of a publickey request and the bytes it is over. -/
structure ClientSignature where
  signature : Bytes
  blob : Bytes

structure AuthContext where
  method : String
  key : Option OfferedKey
  signed : Option ClientSignature

inductive AuthDecision
  | accept (nick : String)
  | reject (methods : List String)
  | uncaught
  deriving DecidableEq

/-- What `handleAuth` asks of a parsed certificate. -/
def CertificateAccepted (verify : Ed25519) (cfg : SshServerConfig) (nowSec : ℤ)
    (cert : ParsedSshUserCert) : Prop :=
  verifySshUserCert verify cert cfg.userCaPublicKey = .ok () ∧ (cert.validAfter : ℤ) ≤ nowSec ∧
    nowSec < cert.validBefore ∧ cfg.requiredPrincipal ∈ cert.principals ∧
    cert.extensions.has "permit-port-forwarding" = true ∧ cert.criticalOptions.size = 0

/-- The nickname an accepted context captures is the certificate's KeyID. A missing configuration is
dereferenced, and that error is not caught. -/
def handleAuth (verify : Ed25519) (config : Option SshServerConfig) (nowMs : ℤ) (ctx : AuthContext) :
    AuthDecision :=
  if ctx.method ≠ "publickey" then .reject ["publickey"]
  else if ¬ includes ((ctx.key.map (·.algo)).getD "") "cert-v01" then .reject []
  else
    match ctx.key.bind (·.data) with
    | none => .reject []
    | some data =>
      match parseSshUserCert data with
      | .error _ => .reject []
      | .ok parsed =>
        match config with
        | none => .uncaught
        | some cfg =>
          match verifySshUserCert verify parsed cfg.userCaPublicKey with
          | .error _ => .reject []
          | .ok () =>
            let nowSec := nowMs / 1000
            if nowSec < parsed.validAfter then .reject []
            else if (parsed.validBefore : ℤ) ≤ nowSec then .reject []
            else if cfg.requiredPrincipal ∉ parsed.principals then .reject []
            else if ¬ parsed.extensions.has "permit-port-forwarding" then .reject []
            else if 0 < parsed.criticalOptions.size then .reject []
            else .accept parsed.keyId

def presents (ctx : AuthContext) (cert : ParsedSshUserCert) : Prop :=
  ctx.method = "publickey" ∧ includes ((ctx.key.map (·.algo)).getD "") "cert-v01" = true ∧
    ∃ data, ctx.key.bind (·.data) = some data ∧ parseSshUserCert data = .ok cert

theorem presents_unique {ctx : AuthContext} {cert cert' : ParsedSshUserCert}
    (h : presents ctx cert) (h' : presents ctx cert') : cert = cert' := by
  obtain ⟨-, -, data, hd, hp⟩ := h
  obtain ⟨-, -, data', hd', hp'⟩ := h'
  rw [hd] at hd'
  cases hd'
  rw [hp] at hp'
  exact Except.ok.inj hp'

/-- A context is accepted exactly when it presents a certificate that passes every check. -/
theorem handleAuth_accept_iff (verify : Ed25519) (config : Option SshServerConfig) (nowMs : ℤ)
    (ctx : AuthContext) (nick : String) :
    handleAuth verify config nowMs ctx = .accept nick ↔
      ∃ cfg cert, config = some cfg ∧ presents ctx cert ∧ cert.keyId = nick ∧
        CertificateAccepted verify cfg (nowMs / 1000) cert := by
  constructor
  · intro h
    unfold handleAuth at h
    split at h
    · contradiction
    next hmethod =>
      split at h
      · contradiction
      next halgo =>
        split at h
        · contradiction
        next data hdata =>
          split at h
          · contradiction
          next parsed hparsed =>
            split at h
            · contradiction
            next cfg =>
              split at h
              · contradiction
              next hverified =>
                dsimp only at h
                split at h
                · contradiction
                next hafter =>
                  split at h
                  · contradiction
                  next hbefore =>
                    split at h
                    · contradiction
                    next hprincipal =>
                      split at h
                      · contradiction
                      next hext =>
                        split at h
                        · contradiction
                        next hcritical =>
                          refine ⟨cfg, parsed, rfl, ⟨not_not.mp hmethod, ?_, data, hdata, hparsed⟩,
                            AuthDecision.accept.inj h, hverified, not_lt.mp hafter,
                            not_le.mp hbefore, not_not.mp hprincipal, ?_, by omega⟩
                          · simpa using halgo
                          · simpa using hext
  · rintro ⟨cfg, cert, rfl, ⟨hmethod, halgo, data, hdata, hparsed⟩, rfl, hverified, hafter, hbefore,
      hprincipal, hext, hcritical⟩
    have hafter' : ¬ nowMs / 1000 < (cert.validAfter : ℤ) := not_lt.mpr hafter
    have hbefore' : ¬ (cert.validBefore : ℤ) ≤ nowMs / 1000 := not_le.mpr hbefore
    simp [handleAuth, hmethod, halgo, hdata, hparsed, hverified, hafter', hbefore', hprincipal, hext,
      hcritical]

/-! ### The server over its clients -/

/-- What is known of a client: the captured `deviceNick`, whether it completed authentication, and
whether its connection is gone. -/
structure Client where
  deviceNick : Option String
  authenticated : Bool
  closed : Bool

structure RegistryEntry where
  client : ℕ
  bindAddr : String
  bindPort : ℕ
  deriving DecidableEq

/-- One call of `handleAuth`, with what it read. -/
structure AuthRecord where
  client : ℕ
  config : Option SshServerConfig
  nowMs : ℤ
  ctx : AuthContext

def AuthRecord.decision (verify : Ed25519) (r : AuthRecord) : AuthDecision :=
  handleAuth verify r.config r.nowMs r.ctx

structure PendingConnect where
  id : ℕ
  timeoutMs : ℕ
  deriving DecidableEq

/-- How a call of `connect` got past `awaitDevice`. -/
inductive WaitOutcome
  | device (entry : RegistryEntry)
  | failed (message : String)
  deriving DecidableEq

structure SshServer where
  /-- Whether `this.server` is set. -/
  bound : Bool
  /-- Listeners that are still binding, and calls of `close` that are still waiting. -/
  binding : ℕ
  closing : ℕ
  config : Option SshServerConfig
  registry : InsertMap String RegistryEntry
  waiters : InsertMap String (List PendingConnect)
  nextWaiter : ℕ
  settled : List (ℕ × WaitOutcome)
  clients : ℕ → Client
  nextClient : ℕ
  /-- Clients whose connection the server has ended. -/
  ended : List ℕ
  log : List AuthRecord

namespace SshServer

def initial : SshServer where
  bound := false
  binding := 0
  closing := 0
  config := none
  registry := InsertMap.empty
  waiters := InsertMap.empty
  nextWaiter := 0
  settled := []
  clients _ := ⟨none, false, true⟩
  nextClient := 0
  ended := []
  log := []

def setClient (s : SshServer) (c : ℕ) (client : Client) : SshServer :=
  { s with clients := Function.update s.clients c client }

/-- On a bound server `listen` only compares configurations. -/
def listen (s : SshServer) (config : SshServerConfig) : SshServer :=
  if s.bound then s else { s with config := some config, binding := s.binding + 1 }

def onConnection (s : SshServer) : SshServer :=
  { s.setClient s.nextClient ⟨none, false, false⟩ with nextClient := s.nextClient + 1 }

/-- The `authentication` event: the decision, and what the library makes of it. -/
def onAuthentication (verify : Ed25519) (s : SshServer) (c : ℕ) (nowMs : ℤ) (ctx : AuthContext) :
    SshServer :=
  let s := { s with log := s.log ++ [⟨c, s.config, nowMs, ctx⟩] }
  match handleAuth verify s.config nowMs ctx with
  | .accept nick =>
    s.setClient c { s.clients c with
      deviceNick := some nick
      authenticated := ctx.signed.isSome }
  | _ => s

/-- Evicts another client's entry, stores the new one, and resolves everyone who waited for the
device. -/
def installEntry (s : SshServer) (deviceNick : String) (entry : RegistryEntry) : SshServer :=
  let ended := match s.registry.get deviceNick with
    | some prior => if prior.client ≠ entry.client then s.ended ++ [prior.client] else s.ended
    | none => s.ended
  let waiting := (s.waiters.get deviceNick).getD []
  { s with
    ended := ended
    registry := s.registry.set deviceNick entry
    waiters := s.waiters.delete deviceNick
    settled := s.settled ++ waiting.map fun w => (w.id, .device entry) }

/-- The `request` event. An empty nickname counts as none. -/
def onRequest (s : SshServer) (c : ℕ) (name : String) (info : Option (String × ℕ)) : SshServer :=
  if name ≠ "tcpip-forward" then s
  else
    match (s.clients c).deviceNick with
    | none => s
    | some nick =>
      if nick = "" then s
      else
        s.installEntry nick ⟨c, (info.map (·.1)).getD "127.0.0.1", (info.map (·.2)).getD 0⟩

def onClose (s : SshServer) (c : ℕ) : SshServer :=
  let t := s.setClient c { s.clients c with closed := true }
  match (s.clients c).deviceNick with
  | none => t
  | some nick =>
    if nick = "" then t
    else
      match s.registry.get nick with
      | none => t
      | some entry => if entry.client = c then { t with registry := s.registry.delete nick } else t

/-- A call of `connect` up to where it has its registry entry or waits for it. -/
def connect (s : SshServer) (deviceNick : String) : SshServer :=
  let w := s.nextWaiter
  let s := { s with nextWaiter := w + 1 }
  match s.bound, s.config with
  | true, some config =>
    match s.registry.get deviceNick with
    | some entry => { s with settled := s.settled ++ [(w, .device entry)] }
    | none =>
      let waiting := (s.waiters.get deviceNick).getD []
      { s with waiters := s.waiters.set deviceNick (waiting ++ [⟨w, config.connectTimeoutMs⟩]) }
  | _, _ =>
    { s with settled := s.settled ++ [(w, .failed "SshServer.connect() called before listen()")] }

def waitExpired (s : SshServer) (deviceNick : String) (w : PendingConnect) : SshServer :=
  let rest := ((s.waiters.get deviceNick).getD []).erase w
  { s with
    waiters := if rest = [] then s.waiters.delete deviceNick else s.waiters.set deviceNick rest
    settled := s.settled ++ [(w.id, .failed ("device '" ++ deviceNick ++
      "' not connected (waited " ++ toString w.timeoutMs ++ "ms)"))] }

def close (s : SshServer) : SshServer :=
  if ¬ s.bound then s
  else
    let waiting := (s.waiters.entries.map (·.2)).flatten
    { s with
      bound := false
      closing := s.closing + 1
      ended := s.ended ++ s.registry.entries.map (·.2.client)
      registry := InsertMap.empty
      waiters := InsertMap.empty
      settled := s.settled ++ waiting.map fun w => (w.id, .failed "SshServer closed") }

inductive Event
  | listen (config : SshServerConfig)
  | bound
  | bindFailed
  | connection
  | authentication (c : ℕ) (nowMs : ℤ) (ctx : AuthContext)
  | request (c : ℕ) (name : String) (info : Option (String × ℕ))
  | closed (c : ℕ)
  | connect (deviceNick : String)
  | waitExpired (deviceNick : String) (w : PendingConnect)
  | close
  | serverClosed

def step (verify : Ed25519) (s : SshServer) : Event → Option SshServer
  | .listen config => some (s.listen config)
  | .bound => if 0 < s.binding then some { s with bound := true, binding := s.binding - 1 } else none
  | .bindFailed => if 0 < s.binding then some { s with binding := s.binding - 1 } else none
  | .connection => some s.onConnection
  | .authentication c nowMs ctx =>
    if c < s.nextClient ∧ ¬ (s.clients c).closed ∧ ¬ (s.clients c).authenticated then
      some (s.onAuthentication verify c nowMs ctx)
    else none
  | .request c name info =>
    if c < s.nextClient ∧ ¬ (s.clients c).closed ∧ (s.clients c).authenticated then
      some (s.onRequest c name info)
    else none
  | .closed c =>
    if c < s.nextClient ∧ ¬ (s.clients c).closed then some (s.onClose c) else none
  | .connect nick => some (s.connect nick)
  | .waitExpired nick w =>
    if w ∈ (s.waiters.get nick).getD [] then some (s.waitExpired nick w) else none
  | .close => some s.close
  | .serverClosed =>
    if 0 < s.closing then some { s with closing := s.closing - 1, config := none } else none

def machine (verify : Ed25519) : Transition.Machine SshServer Event where
  init s := s = initial
  step := step verify

/-- What a step does, and on what condition. -/
inductive Effect (verify : Ed25519) (s : SshServer) : Event → SshServer → Prop
  | listen (config : SshServerConfig) : Effect verify s (.listen config) (s.listen config)
  | bound : 0 < s.binding →
    Effect verify s .bound { s with bound := true, binding := s.binding - 1 }
  | bindFailed : 0 < s.binding → Effect verify s .bindFailed { s with binding := s.binding - 1 }
  | connection : Effect verify s .connection s.onConnection
  | authentication {c : ℕ} (nowMs : ℤ) (ctx : AuthContext) : c < s.nextClient →
    (s.clients c).closed = false → (s.clients c).authenticated = false →
    Effect verify s (.authentication c nowMs ctx) (s.onAuthentication verify c nowMs ctx)
  | request {c : ℕ} (name : String) (info : Option (String × ℕ)) : c < s.nextClient →
    (s.clients c).closed = false → (s.clients c).authenticated = true →
    Effect verify s (.request c name info) (s.onRequest c name info)
  | closed {c : ℕ} : c < s.nextClient → (s.clients c).closed = false →
    Effect verify s (.closed c) (s.onClose c)
  | connect (nick : String) : Effect verify s (.connect nick) (s.connect nick)
  | waitExpired {nick : String} {w : PendingConnect} : w ∈ (s.waiters.get nick).getD [] →
    Effect verify s (.waitExpired nick w) (s.waitExpired nick w)
  | close : Effect verify s .close s.close
  | serverClosed : 0 < s.closing →
    Effect verify s .serverClosed { s with closing := s.closing - 1, config := none }

theorem effect_of_step {verify : Ed25519} {s t : SshServer} {e : Event} (h : step verify s e = some t) :
    Effect verify s e t := by
  cases e with
  | listen config =>
    cases h
    exact .listen config
  | bound =>
    simp only [step] at h
    split at h
    next hbinding =>
      cases h
      exact .bound hbinding
    next => contradiction
  | bindFailed =>
    simp only [step] at h
    split at h
    next hbinding =>
      cases h
      exact .bindFailed hbinding
    next => contradiction
  | connection =>
    cases h
    exact .connection
  | authentication c nowMs ctx =>
    simp only [step] at h
    split at h
    next hc =>
      cases h
      exact .authentication nowMs ctx hc.1 (by simpa using hc.2.1) (by simpa using hc.2.2)
    next => contradiction
  | request c name info =>
    simp only [step] at h
    split at h
    next hc =>
      cases h
      exact .request name info hc.1 (by simpa using hc.2.1) hc.2.2
    next => contradiction
  | closed c =>
    simp only [step] at h
    split at h
    next hc =>
      cases h
      exact .closed hc.1 (by simpa using hc.2)
    next => contradiction
  | connect nick =>
    cases h
    exact .connect nick
  | waitExpired nick w =>
    simp only [step] at h
    split at h
    next hw =>
      cases h
      exact .waitExpired hw
    next => contradiction
  | close =>
    cases h
    exact .close
  | serverClosed =>
    simp only [step] at h
    split at h
    next hclosing =>
      cases h
      exact .serverClosed hclosing
    next => contradiction

end SshServer

end UnoQ.Ssh
