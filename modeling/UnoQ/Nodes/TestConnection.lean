import UnoQ.Transport.Resolver

/-!
# Test Connection and the endpoint of the nodes

The test of a credential maps the payload to a descriptor by itself, and the nodes map it through
`resolveTransport`. The two agree on what is valid and on the endpoint, except on the transport of
which the test knows nothing: a listener's payload it takes for one of the local socket.
-/

namespace UnoQ.Nodes
open Transport Codec

structure ICredentialsDecrypted where
  name : Option String
  data : Option UnoQRouterCredential

inductive TestStatus
  | ok
  | error
  deriving DecidableEq

structure INodeCredentialTestResult where
  status : TestStatus
  message : String

/-- What the user sees, and the descriptor that `Bridge.connect` was called with. -/
structure ConnectionTest where
  connectedTo : Option ResolvedDescriptor
  result : INodeCredentialTestResult

section
variable (numberText : JsNumber → String)

/-- `version` is the round trip: connecting, calling `$/version` and closing. -/
def testUnoQRouterApi (version : ResolvedDescriptor → Except String String)
    (credential : ICredentialsDecrypted) : ConnectionTest :=
  match credential.data with
  | none => ⟨none, .error, "Credential data is empty."⟩
  | some data =>
    match descriptorFromCredential numberText ⟨credential.name.getD "credential", none⟩ data with
    | .error e => ⟨none, .error, e.message⟩
    | .ok descriptor =>
      ⟨some descriptor,
        match version descriptor with
        | .ok text => ⟨.ok, "Connected — arduino-router " ++ text⟩
        | .error message => ⟨.error, message⟩⟩

end

/-- A node that the credential with this payload is assigned to. -/
def Carries (ctx : ResolverContext) (itemIndex : Option ℕ) (data : UnoQRouterCredential) : Prop :=
  ctx.node.credentialId.getD "" ≠ "" ∧ ctx.getCredentials itemIndex = .ok data

/-- The test connects where the node would, and stops before where the node would. -/
def Agree (test : ConnectionTest) (resolved : Except NodeOperationError ResolvedTransport) : Prop :=
  match test.connectedTo, resolved with
  | some descriptor, .ok r => descriptor.routing = r.descriptor.routing
  | none, .error _ => True
  | _, _ => False

variable {numberText : JsNumber → String} {version : ResolvedDescriptor → Except String String}

theorem resolve_carries {ctx : ResolverContext} {itemIndex : Option ℕ} {data : UnoQRouterCredential}
    (h : Carries ctx itemIndex data) (legacySocketPath : Option String) :
    (resolveTransport numberText ctx legacySocketPath itemIndex).2 =
      transportFromCredential numberText ctx.node (ctx.node.credentialId.getD "") data := by
  unfold resolveTransport
  dsimp only
  rw [if_neg h.1, h.2]
  rfl

theorem agree_shared (ctx : ResolverContext) (id : String) (name : Option String)
    {data : UnoQRouterCredential} (h : data.transport ≠ some .sshRelay) :
    Agree (testUnoQRouterApi numberText version ⟨name, some data⟩)
      (transportFromCredential numberText ctx.node id data) := by
  -- the errors name different nodes and nothing else differs
  have hnode := descriptor_node numberText data ctx.node ⟨name.getD "credential", none⟩
  unfold testUnoQRouterApi transportFromCredential
  rw [if_neg h]
  dsimp only
  cases htest : descriptorFromCredential numberText ⟨name.getD "credential", none⟩ data with
  | error e =>
    cases hnodes : descriptorFromCredential numberText ctx.node data with
    | error e' => trivial
    | ok d =>
      rw [htest, hnodes] at hnode
      contradiction
  | ok d =>
    cases hnodes : descriptorFromCredential numberText ctx.node data with
    | error e' =>
      rw [htest, hnodes] at hnode
      contradiction
    | ok d' =>
      rw [htest, hnodes] at hnode
      exact congrArg ResolvedDescriptor.routing (Except.ok.inj hnode).symm

theorem test_sshRelay (name : Option String) {data : UnoQRouterCredential}
    (h : data.transport = some .sshRelay) :
    (testUnoQRouterApi numberText version ⟨name, some data⟩).connectedTo =
      some (.unix (orDefault (trimmed data.socketPath) LEGACY_DEFAULT_SOCKET)) := by
  unfold testUnoQRouterApi descriptorFromCredential
  dsimp only
  rw [if_neg]
  rw [h]
  decide

theorem not_agree_sshRelay (ctx : ResolverContext) (id : String) (name : Option String)
    {data : UnoQRouterCredential} (h : data.transport = some .sshRelay) :
    ¬ Agree (testUnoQRouterApi numberText version ⟨name, some data⟩)
      (transportFromCredential numberText ctx.node id data) := by
  intro hagree
  unfold Agree at hagree
  rw [test_sshRelay name h] at hagree
  unfold transportFromCredential at hagree
  rw [if_pos h] at hagree
  cases hvalid : validateSshCredential ctx.node data with
  | error e =>
    rw [hvalid] at hagree
    exact hagree
  | ok c =>
    rw [hvalid] at hagree
    cases hagree

/-- The test agrees with the nodes on every transport but the one where the device dials in. -/
theorem agree_iff {ctx : ResolverContext} {itemIndex : Option ℕ} {data : UnoQRouterCredential}
    (hcarries : Carries ctx itemIndex data) (legacySocketPath name : Option String) :
    Agree (testUnoQRouterApi numberText version ⟨name, some data⟩)
      (resolveTransport numberText ctx legacySocketPath itemIndex).2 ↔
      data.transport ≠ some .sshRelay := by
  rw [resolve_carries hcarries]
  constructor
  · intro hagree htransport
    exact not_agree_sshRelay ctx _ name htransport hagree
  · intro htransport
    exact agree_shared ctx _ name htransport

/-- Where they agree, the bridge of the test and that of the nodes have the same route. -/
theorem agree_route {test : ConnectionTest} {resolved : Except NodeOperationError ResolvedTransport}
    (h : Agree test resolved) {descriptor : ResolvedDescriptor} {r : ResolvedTransport}
    (htest : test.connectedTo = some descriptor) (hresolved : resolved = .ok r) :
    descriptor.whole.map TransportDescriptor.route = r.descriptor.whole.map TransportDescriptor.route := by
  unfold Agree at h
  rw [htest, hresolved] at h
  rw [← route_routing, ← route_routing r.descriptor, h]

def relayed : UnoQRouterCredential :=
  { transport := some .tcp, host := some " uno-q.local ", port := some (.int 5775) }

def relayedNode : ResolverContext := ⟨⟨"Call", some "7"⟩, fun _ => .ok relayed⟩

theorem relayed_agree :
    Agree (testUnoQRouterApi (fun _ => "5775") (fun _ => .ok "0.5.0") ⟨none, some relayed⟩)
      (resolveTransport (fun _ => "5775") relayedNode none (some 0)).2 := by
  have hcarries : Carries relayedNode (some 0) relayed := ⟨by decide, rfl⟩
  exact (agree_iff hcarries none none).mpr (by decide)

/-- The device dials in, and the router of the host that n8n runs on answers the test. -/
def dialledIn : UnoQRouterCredential :=
  { transport := some .sshRelay, deviceNick := some "kitchen", hostPrivateKey := some "KEY"
    userCaPublicKey := some "ssh-ed25519 AAAA" }

def dialledInNode : ResolverContext := ⟨⟨"Call", some "7"⟩, fun _ => .ok dialledIn⟩

example : (testUnoQRouterApi (fun _ => "") (fun _ => .ok "0.5.0") ⟨none, some dialledIn⟩).connectedTo =
    some (.unix "/var/run/arduino-router.sock") := by decide +kernel

example : (resolveTransport (fun _ => "") dialledInNode none none).2.toOption.map (·.descriptor) =
    some (.ssh "0.0.0.0" SSH_DEFAULT_LISTEN_PORT "kitchen") := by decide +kernel

theorem dialledIn_disagree : ¬ ∀ (numberText : JsNumber → String)
    (version : ResolvedDescriptor → Except String String) (ctx : ResolverContext)
    (itemIndex : Option ℕ) (data : UnoQRouterCredential), Carries ctx itemIndex data →
    ∀ legacySocketPath name : Option String,
      Agree (testUnoQRouterApi numberText version ⟨name, some data⟩)
        (resolveTransport numberText ctx legacySocketPath itemIndex).2 := by
  intro h
  have hcarries : Carries dialledInNode none dialledIn := ⟨by decide, rfl⟩
  have hagree := h (fun _ => "") (fun _ => .ok "0.5.0") dialledInNode none dialledIn hcarries none none
  rw [resolve_carries hcarries] at hagree
  exact not_agree_sshRelay dialledInNode _ none rfl hagree

end UnoQ.Nodes
