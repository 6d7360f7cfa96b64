import Mathlib.Algebra.Order.Ring.Rat
import UnoQ.Codec.JsValue
import UnoQ.Ssh.NodeText
import UnoQ.Transport.Routes

/-!
# From a credential to a descriptor

`transport-resolver.ts`: the payload of a router credential, in which every field may be missing,
and the descriptor of the endpoint that it names. A port need not be whole. How a number is written
in a message is a parameter.
-/

namespace UnoQ.Transport
open Codec

inductive UnoQTransportMode
  | unix
  | tcp
  | sshRelay
  deriving DecidableEq

structure UnoQRouterCredential where
  transport : Option UnoQTransportMode := none
  socketPath : Option String := none
  host : Option String := none
  port : Option JsNumber := none
  useTls : Option Bool := none
  caCert : Option String := none
  clientCert : Option String := none
  clientKey : Option String := none
  deviceNick : Option String := none
  listenAddress : Option String := none
  listenPort : Option JsNumber := none
  hostPrivateKey : Option String := none
  userCaPublicKey : Option String := none
  connectTimeoutMs : Option JsNumber := none

/-! ### Numbers and texts of a payload -/

/-- The value of a finite number. -/
def numberValue : JsNumber → Option ℚ
  | .int i => some i
  | .frac neg m k => some ((signedInt neg m : ℚ) / 2 ^ k)
  | .inf _ => none
  | .nan => none

/-- `Number(field)`; what is missing is not a number. -/
def numberOf (field : Option JsNumber) : JsNumber := field.getD .nan

def isPort (n : JsNumber) : Bool :=
  match numberValue n with
  | some v => decide (0 < v ∧ v ≤ 65535)
  | none => false

def isTimeout (n : JsNumber) : Bool :=
  match numberValue n with
  | some v => decide (0 < v)
  | none => false

structure Port where
  number : JsNumber
  inRange : isPort number = true
  deriving DecidableEq

/-- `(field ?? '').trim()` -/
def trimmed (field : Option String) : String := Ssh.trim (field.getD "")

/-- `text || default` -/
def orDefault (text default : String) : String := if text = "" then default else text

/-! ### Descriptors -/

/-- A `TransportDescriptor` as the resolver builds it. -/
inductive ResolvedDescriptor
  | unix (path : String)
  | tcp (host : String) (port : Port)
  | tls (host : String) (port : Port) (ca cert key : String)
  | ssh (listenAddress : String) (listenPort : Port) (deviceNick : String)
  deriving DecidableEq

structure ResolvedSshCredential where
  deviceNick : String
  listenAddress : String
  listenPort : Port
  hostPrivateKey : String
  userCaPublicKey : String
  connectTimeoutMs : JsNumber
  requiredPrincipal : String

structure NodeOperationError where
  node : String
  message : String

/-- A node, with the id of the router credential that is assigned to it. -/
structure INode where
  name : String
  credentialId : Option String

structure ResolverContext where
  node : INode
  getCredentials : Option ℕ → Except NodeOperationError UnoQRouterCredential

structure ResolvedTransport where
  descriptor : ResolvedDescriptor
  credentialId : Option String
  sshCredential : Option ResolvedSshCredential

def LEGACY_DEFAULT_SOCKET : String := "/var/run/arduino-router.sock"

def SSH_REQUIRED_PRINCIPAL : String := "tunnel"

def SSH_DEFAULT_LISTEN_ADDRESS : String := "0.0.0.0"

def SSH_DEFAULT_LISTEN_PORT : Port := ⟨.int 2222, by decide⟩

def SSH_DEFAULT_CONNECT_TIMEOUT_MS : JsNumber := .int 10000

def listenPortOf (field : Option JsNumber) : Port :=
  if h : isPort (numberOf field) = true then ⟨numberOf field, h⟩ else SSH_DEFAULT_LISTEN_PORT

def connectTimeoutOf (field : Option JsNumber) : JsNumber :=
  if isTimeout (numberOf field) = true then numberOf field else SSH_DEFAULT_CONNECT_TIMEOUT_MS

def validateSshCredential (node : INode) (cred : UnoQRouterCredential) :
    Except NodeOperationError ResolvedSshCredential :=
  if trimmed cred.deviceNick = "" then
    .error ⟨node.name, "Credential has transport=ssh-relay but \"Device Nickname\" is empty."⟩
  else if trimmed cred.hostPrivateKey = "" then
    .error ⟨node.name, "Credential has transport=ssh-relay but \"Host Private Key\" is empty. " ++
      "Paste the contents of pki/out/n8n/<nick>/ssh_host_ed25519_key."⟩
  else if trimmed cred.userCaPublicKey = "" then
    .error ⟨node.name, "Credential has transport=ssh-relay but \"User CA Public Key\" is empty. " ++
      "Paste the contents of pki/out/n8n/<nick>/user_ca.pub."⟩
  else
    .ok
      { deviceNick := trimmed cred.deviceNick
        listenAddress := orDefault (trimmed cred.listenAddress) SSH_DEFAULT_LISTEN_ADDRESS
        listenPort := listenPortOf cred.listenPort
        hostPrivateKey := trimmed cred.hostPrivateKey
        userCaPublicKey := trimmed cred.userCaPublicKey
        connectTimeoutMs := connectTimeoutOf cred.connectTimeoutMs
        requiredPrincipal := SSH_REQUIRED_PRINCIPAL }

def missingFields (ca cert key : String) : List String :=
  (if ca = "" then ["CA Certificate"] else []) ++ (if cert = "" then ["Client Certificate"] else []) ++
    if key = "" then ["Client Key"] else []

def missingMessage (missing : List String) : String :=
  "Credential has \"Use TLS\" on but " ++ ", ".intercalate missing ++ " " ++
    (if missing.length = 1 then "is" else "are") ++
    " empty. Paste the PEM contents from your n8n client bundle " ++
    "(deploy/relay-mtls/pki/out/n8n/<nick>/)."

section
variable (numberText : JsNumber → String)

def invalidPort (port : Option JsNumber) : String :=
  "Credential has invalid port " ++ (port.map numberText).getD "(empty)" ++ "; expected 1–65535."

def descriptorFromCredential (node : INode) (cred : UnoQRouterCredential) :
    Except NodeOperationError ResolvedDescriptor :=
  if cred.transport = some .tcp then
    let host := trimmed cred.host
    if host = "" then .error ⟨node.name, "Credential has transport=tcp but no host configured."⟩
    else if h : isPort (numberOf cred.port) = true then
      if cred.useTls.getD false then
        let ca := trimmed cred.caCert
        let cert := trimmed cred.clientCert
        let key := trimmed cred.clientKey
        if missingFields ca cert key = [] then .ok (.tls host ⟨numberOf cred.port, h⟩ ca cert key)
        else .error ⟨node.name, missingMessage (missingFields ca cert key)⟩
      else .ok (.tcp host ⟨numberOf cred.port, h⟩)
    else .error ⟨node.name, invalidPort numberText cred.port⟩
  else .ok (.unix (orDefault (trimmed cred.socketPath) LEGACY_DEFAULT_SOCKET))

def legacyWarning (node : INode) : String :=
  "Arduino UNO Q node \"" ++ node.name ++ "\" is using the deprecated \"Socket Path\" option. " ++
    "Create an \"Arduino UNO Q Router\" credential and assign it to the node instead — " ++
    "the socket path option will be removed in the next major release."

def legacyTransport (node : INode) (legacySocketPath : Option String) :
    List String × ResolvedTransport :=
  let path := legacySocketPath.getD ""
  (if path ≠ "" ∧ path ≠ LEGACY_DEFAULT_SOCKET then [legacyWarning node] else [],
    ⟨.unix (orDefault path LEGACY_DEFAULT_SOCKET), none, none⟩)

def transportFromCredential (node : INode) (id : String) (cred : UnoQRouterCredential) :
    Except NodeOperationError ResolvedTransport :=
  if cred.transport = some .sshRelay then
    (validateSshCredential node cred).map fun validated =>
      ⟨.ssh validated.listenAddress validated.listenPort validated.deviceNick, some id, some validated⟩
  else
    (descriptorFromCredential numberText node cred).map fun descriptor => ⟨descriptor, some id, none⟩

/-- What is logged, and the transport. An id that is empty is none. -/
def resolveTransport (ctx : ResolverContext) (legacySocketPath : Option String)
    (itemIndex : Option ℕ) : List String × Except NodeOperationError ResolvedTransport :=
  let id := ctx.node.credentialId.getD ""
  if id = "" then
    let legacy := legacyTransport ctx.node legacySocketPath
    (legacy.1, .ok legacy.2)
  else ([], (ctx.getCredentials itemIndex).bind (transportFromCredential numberText ctx.node id))

end

/-! ### What is resolved -/

def ResolvedDescriptor.Filled : ResolvedDescriptor → Prop
  | .unix path => path ≠ ""
  | .tcp host _ => host ≠ ""
  | .tls host _ ca cert key => host ≠ "" ∧ ca ≠ "" ∧ cert ≠ "" ∧ key ≠ ""
  | .ssh listenAddress _ deviceNick => listenAddress ≠ "" ∧ deviceNick ≠ ""

def ResolvedDescriptor.isSsh : ResolvedDescriptor → Bool
  | .ssh _ _ _ => true
  | _ => false

/-- The credential of a listener comes with the descriptor that names it, and with no other. -/
def ResolvedTransport.Consistent (r : ResolvedTransport) : Prop :=
  match r.sshCredential with
  | some c => r.descriptor = .ssh c.listenAddress c.listenPort c.deviceNick ∧
      c.hostPrivateKey ≠ "" ∧ c.userCaPublicKey ≠ "" ∧ isTimeout c.connectTimeoutMs = true
  | none => r.descriptor.isSsh = false

theorem orDefault_ne {text default : String} (h : default ≠ "") : orDefault text default ≠ "" := by
  unfold orDefault
  split
  · exact h
  next hne => exact hne

theorem missingFields_eq_nil {ca cert key : String} :
    missingFields ca cert key = [] ↔ ca ≠ "" ∧ cert ≠ "" ∧ key ≠ "" := by
  unfold missingFields
  by_cases hca : ca = "" <;> by_cases hcert : cert = "" <;> by_cases hkey : key = "" <;>
    simp [hca, hcert, hkey]

theorem timeout_valid (field : Option JsNumber) : isTimeout (connectTimeoutOf field) = true := by
  unfold connectTimeoutOf
  split
  next h => exact h
  · decide

variable {numberText : JsNumber → String} {node : INode} {cred : UnoQRouterCredential}

theorem descriptor_filled {d : ResolvedDescriptor}
    (h : descriptorFromCredential numberText node cred = .ok d) : d.Filled ∧ d.isSsh = false := by
  unfold descriptorFromCredential at h
  split at h
  · dsimp only at h
    split at h
    · cases h
    next hhost =>
      split at h
      next =>
        split at h
        · split at h
          next hnone =>
            cases h
            exact ⟨⟨hhost, missingFields_eq_nil.mp hnone⟩, rfl⟩
          · cases h
        · cases h
          exact ⟨hhost, rfl⟩
      · cases h
  · cases h
    exact ⟨orDefault_ne (by decide), rfl⟩

theorem validated_filled {c : ResolvedSshCredential} (h : validateSshCredential node cred = .ok c) :
    (ResolvedDescriptor.ssh c.listenAddress c.listenPort c.deviceNick).Filled ∧
      c.hostPrivateKey ≠ "" ∧ c.userCaPublicKey ≠ "" ∧ isTimeout c.connectTimeoutMs = true := by
  unfold validateSshCredential at h
  split at h
  · cases h
  next hnick =>
    split at h
    · cases h
    next hhost =>
      split at h
      · cases h
      next huser =>
        cases h
        have haddress : orDefault (trimmed cred.listenAddress) SSH_DEFAULT_LISTEN_ADDRESS ≠ "" :=
          orDefault_ne (by decide)
        dsimp only [ResolvedDescriptor.Filled]
        exact ⟨⟨haddress, hnick⟩, hhost, huser, timeout_valid cred.connectTimeoutMs⟩

theorem transport_consistent {id : String} {r : ResolvedTransport}
    (h : transportFromCredential numberText node id cred = .ok r) :
    r.descriptor.Filled ∧ r.Consistent := by
  unfold transportFromCredential at h
  split at h
  · cases hvalid : validateSshCredential node cred with
    | error e =>
      rw [hvalid] at h
      cases h
    | ok c =>
      rw [hvalid] at h
      cases h
      obtain ⟨hfilled, hkeys⟩ := validated_filled hvalid
      exact ⟨hfilled, rfl, hkeys⟩
  · cases hdescriptor : descriptorFromCredential numberText node cred with
    | error e =>
      rw [hdescriptor] at h
      cases h
    | ok d =>
      rw [hdescriptor] at h
      cases h
      exact descriptor_filled hdescriptor

/-- Whatever the payload, a transport that is resolved names an endpoint in full. -/
theorem resolved_consistent {ctx : ResolverContext} {legacySocketPath : Option String}
    {itemIndex : Option ℕ} {r : ResolvedTransport}
    (h : (resolveTransport numberText ctx legacySocketPath itemIndex).2 = .ok r) :
    r.descriptor.Filled ∧ r.Consistent := by
  unfold resolveTransport at h
  dsimp only at h
  split at h
  · cases h
    exact ⟨orDefault_ne (by decide), rfl⟩
  · cases hcred : ctx.getCredentials itemIndex with
    | error e =>
      rw [hcred] at h
      cases h
    | ok payload =>
      rw [hcred] at h
      dsimp only [Except.bind] at h
      exact transport_consistent h

/-- The node is named in the error and does not matter otherwise. -/
theorem descriptor_node (numberText : JsNumber → String) (cred : UnoQRouterCredential)
    (node node' : INode) :
    (descriptorFromCredential numberText node cred).mapError NodeOperationError.message =
      (descriptorFromCredential numberText node' cred).mapError NodeOperationError.message := by
  unfold descriptorFromCredential
  split
  · dsimp only
    split
    · rfl
    · split
      · split
        · split
          · rfl
          · rfl
        · rfl
      · rfl
  · rfl

/-! ### Whole ports -/

/-- The port as a descriptor has it, when it is whole. -/
def Port.whole (p : Port) : Option ℕ :=
  match p.number with
  | .int i => some i.toNat
  | _ => none

theorem whole_bounds {p : Port} {n : ℕ} (h : p.whole = some n) : 0 < n ∧ n ≤ 65535 := by
  obtain ⟨number, hrange⟩ := p
  cases number with
  | int i =>
    cases h
    simp only [isPort, numberValue, decide_eq_true_eq] at hrange
    have hpos : 0 < i := by exact_mod_cast hrange.1
    have hle : i ≤ 65535 := by exact_mod_cast hrange.2
    omega
  | frac neg m k => contradiction
  | inf neg => contradiction
  | nan => contradiction

def ResolvedDescriptor.whole : ResolvedDescriptor → Option TransportDescriptor
  | .unix path => some (.unix path)
  | .tcp host port => port.whole.map fun n => .tcp host n
  | .tls host port ca cert key => port.whole.map fun n => .tls host n ca cert key
  | .ssh listenAddress listenPort deviceNick =>
    listenPort.whole.map fun n => .ssh listenAddress n deviceNick

/-- The kind and the routing fields, certificate material left out. -/
def ResolvedDescriptor.routing : ResolvedDescriptor → ResolvedDescriptor
  | .tls host port _ _ _ => .tls host port "" "" ""
  | d => d

theorem route_routing (d : ResolvedDescriptor) :
    d.routing.whole.map TransportDescriptor.route = d.whole.map TransportDescriptor.route := by
  cases d with
  | unix path => rfl
  | tcp host port => rfl
  | ssh listenAddress listenPort deviceNick => rfl
  | tls host port ca cert key =>
    simp only [ResolvedDescriptor.routing, ResolvedDescriptor.whole, Option.map_map]
    rfl

end UnoQ.Transport
