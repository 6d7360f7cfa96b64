import UnoQ.Ssh.SshServer

/-!
# Calls of `listen`

Every bridge over SSH calls `listen` of the one server before it connects. The test for a
server that listens already and the assignment of the configuration come before the
`await` for the port, the assignment of the server after it, so calls can overlap. The
host keys and the server object are the `ssh2` library's, and parameters here. Only tests
close the server.
-/

namespace UnoQ.Ssh
open BigEndian Transition

/-- Either a buffer or a string. -/
inductive HostKey
  | buffer (bs : Bytes)
  | string (s : String)
  deriving DecidableEq

/-- What the library makes of a host key: the public key of the first key in it, in base64, unless
`parseKey` answers an error, and the error with which the constructor of a server throws. -/
structure Ssh2 where
  publicSsh : HostKey → Option String
  serverError : HostKey → Option String

structure ListenConfig extends SshServerConfig where
  hostPrivateKey : HostKey

def boundElsewhere (cur next : ListenConfig) : String :=
  "SshServer already bound to " ++ cur.listenAddress ++ ":" ++ toString cur.listenPort ++
    "; cannot accept a new credential targeting " ++ next.listenAddress ++ ":" ++
    toString next.listenPort ++ ". Restart n8n to switch endpoints."

def differentHostKey : String :=
  "SshServer is already bound with a different host key. Two credentials cannot share a listener " ++
    "with mismatched host identities. Restart n8n to apply the new key."

def differentUserCa : String :=
  "SshServer is already configured with a different user CA. Two credentials cannot share a " ++
    "listener with mismatched trust roots."

def assertConfigMatches (ssh2 : Ssh2) (cur next : ListenConfig) : Except String Unit :=
  if cur.listenAddress ≠ next.listenAddress ∨ cur.listenPort ≠ next.listenPort then
    .error (boundElsewhere cur next)
  else if ssh2.publicSsh cur.hostPrivateKey ≠ ssh2.publicSsh next.hostPrivateKey then
    .error differentHostKey
  else if trim cur.userCaPublicKey ≠ trim next.userCaPublicKey then .error differentUserCa
  else .ok ()

/-- The same address and port, host key and user CA. -/
def Matches (ssh2 : Ssh2) (cur next : ListenConfig) : Prop :=
  cur.listenAddress = next.listenAddress ∧ cur.listenPort = next.listenPort ∧
    ssh2.publicSsh cur.hostPrivateKey = ssh2.publicSsh next.hostPrivateKey ∧
    trim cur.userCaPublicKey = trim next.userCaPublicKey

theorem matches_refl (ssh2 : Ssh2) (config : ListenConfig) : Matches ssh2 config config :=
  ⟨rfl, rfl, rfl, rfl⟩

theorem assertConfigMatches_ok_iff {ssh2 : Ssh2} {cur next : ListenConfig} :
    assertConfigMatches ssh2 cur next = .ok () ↔ Matches ssh2 cur next := by
  unfold assertConfigMatches Matches
  split
  next h =>
    simp only [reduceCtorEq, false_iff]
    rintro ⟨haddress, hport, -⟩
    rcases h with h | h
    · exact h haddress
    · exact h hport
  next h =>
    obtain ⟨haddress, hport⟩ := not_or.mp h
    split
    next hkey =>
      simp only [reduceCtorEq, false_iff]
      exact fun hm => hkey hm.2.2.1
    next hkey =>
      split
      next hca =>
        simp only [reduceCtorEq, false_iff]
        exact fun hm => hca hm.2.2.2
      next hca =>
        simp only [true_iff]
        exact ⟨not_not.mp haddress, not_not.mp hport, not_not.mp hkey, not_not.mp hca⟩

/-! ### The machine -/

/-- Where a call of `listen` stands. A `listening` call has its port and has yet to assign
`this.server`; the server of a `serving` call is assigned. -/
inductive Phase
  | binding
  | listening
  | serving
  | resolved
  | rejected (message : String)
  deriving DecidableEq

structure ListenCall where
  config : ListenConfig
  phase : Phase

/-- The server is the one that the call with this number has created. -/
structure Listener where
  server : Option ℕ
  config : Option ListenConfig
  calls : ℕ → Option ListenCall
  nextCall : ℕ

namespace Phase

def pending : Phase → Bool
  | binding | listening => true
  | _ => false

def bound : Phase → Bool
  | listening | serving => true
  | _ => false

def active : Phase → Bool
  | binding | listening | serving => true
  | _ => false

/-- Whether the call has returned, and with success. -/
def result : Phase → Option Bool
  | serving | resolved => some true
  | rejected _ => some false
  | _ => none

end Phase

namespace Listener

def initial : Listener := ⟨none, none, fun _ => none, 0⟩

def newCall (s : Listener) (config : ListenConfig) (phase : Phase) : Listener :=
  { s with calls := Function.update s.calls s.nextCall (some ⟨config, phase⟩), nextCall := s.nextCall + 1 }

def setPhase (s : Listener) (c : ℕ) (call : ListenCall) (phase : Phase) : Listener :=
  { s with calls := Function.update s.calls c (some { call with phase := phase }) }

/-- A call up to its `await`. Without a configuration there is nothing to compare with. -/
def listen (ssh2 : Ssh2) (s : Listener) (config : ListenConfig) : Listener :=
  match s.server with
  | some _ =>
    match s.config with
    | none => s.newCall config (.rejected "Cannot read properties of null (reading 'listenAddress')")
    | some cur =>
      match assertConfigMatches ssh2 cur config with
      | .ok () => s.newCall config .resolved
      | .error message => s.newCall config (.rejected message)
  | none =>
    let s := { s with config := some config }
    match ssh2.serverError config.hostPrivateKey with
    | some message => s.newCall config (.rejected message)
    | none => s.newCall config .binding

/-- Another server is bound to the address and port. -/
def taken (s : Listener) (config : ListenConfig) : Bool :=
  (List.range s.nextCall).any fun b =>
    match s.calls b with
    | some call => call.phase.bound && decide (call.config.listenAddress = config.listenAddress) &&
        decide (call.config.listenPort = config.listenPort)
    | none => false

inductive Event
  | listen (config : ListenConfig)
  | bound (c : ℕ)
  | bindFailed (c : ℕ) (message : String)
  | assigned (c : ℕ)

def step (ssh2 : Ssh2) (s : Listener) : Event → Option Listener
  | .listen config => some (s.listen ssh2 config)
  | .bound c =>
    match s.calls c with
    | some call =>
      if call.phase = .binding ∧ s.taken call.config = false then some (s.setPhase c call .listening)
      else none
    | none => none
  | .bindFailed c message =>
    match s.calls c with
    | some call =>
      if call.phase = .binding then some (s.setPhase c call (.rejected message)) else none
    | none => none
  | .assigned c =>
    match s.calls c with
    | some call =>
      if call.phase = .listening then some { s.setPhase c call .serving with server := some c } else none
    | none => none

def machine (ssh2 : Ssh2) : Machine Listener Event where
  init s := s = initial
  step := step ssh2

/-- No call of `listen` comes while an earlier one is still binding. -/
def Apart : Guard Listener Event := fun s e _ =>
  match e with
  | .listen _ => ∀ c < s.nextCall, ∀ call ∈ s.calls c, call.phase.pending = false
  | _ => True

instance (s : Listener) (e : Event) (t : Listener) : Decidable (Apart s e t) := by
  cases e <;> dsimp only [Apart] <;> infer_instance

def Bound (s : Listener) (b : ℕ) (config : ListenConfig) : Prop :=
  ∃ phase : Phase, s.calls b = some ⟨config, phase⟩ ∧ phase.bound = true

/-- The call returns between `s` and `t`, with success or not. -/
def Returns (s t : Listener) (c : ℕ) (config : ListenConfig) (ok : Bool) : Prop :=
  (∀ call ∈ s.calls c, call.phase.result = none) ∧
    ∃ phase : Phase, t.calls c = some ⟨config, phase⟩ ∧ phase.result = some ok

/-- One server is bound, and the configuration is its own. -/
structure Fixed (s : Listener) : Prop where
  one : ∀ b b' config config', s.Bound b config → s.Bound b' config' → b = b'
  config : ∀ b config, s.Bound b config → s.config = some config

/-! ### What calls that keep apart preserve -/

theorem newCall_calls (s : Listener) (config : ListenConfig) (phase : Phase) (c : ℕ) :
    (s.newCall config phase).calls c =
      if c = s.nextCall then some ⟨config, phase⟩ else s.calls c :=
  Function.update_apply s.calls _ _ c

theorem setPhase_calls (s : Listener) (c : ℕ) (call : ListenCall) (phase : Phase) (x : ℕ) :
    (s.setPhase c call phase).calls x =
      if x = c then some { call with phase := phase } else s.calls x :=
  Function.update_apply s.calls _ _ x

structure Inv (s : Listener) : Prop where
  fresh : ∀ c, s.nextCall ≤ c → s.calls c = none
  one : ∀ c c' call call', s.calls c = some call → s.calls c' = some call' →
    call.phase.active = true → call'.phase.active = true → c = c'
  config : ∀ c call, s.calls c = some call → call.phase.active = true → s.config = some call.config
  server : ∀ b, s.server = some b ↔ ∃ call, s.calls b = some call ∧ call.phase = .serving

theorem inv_initial : Inv initial := by
  constructor
  · exact fun _ _ => rfl
  · intro c c' call call' h
    contradiction
  · intro c call h
    contradiction
  · intro b
    constructor
    · intro h
      contradiction
    · rintro ⟨call, h, -⟩
      contradiction

/-- On a server that is bound a call returns at once, as its configuration matches or not. -/
theorem listen_bound (ssh2 : Ssh2) {s : Listener} (h : s.Inv) {b : ℕ} (hb : s.server = some b)
    (config : ListenConfig) : ∃ cur phase, s.Bound b cur ∧ s.config = some cur ∧
      s.listen ssh2 config = s.newCall config phase ∧
      (phase = .resolved ∧ Matches ssh2 cur config ∨
        ∃ message, phase = .rejected message ∧ ¬ Matches ssh2 cur config) := by
  obtain ⟨⟨cur, phase⟩, hcall, rfl⟩ := (h.server b).mp hb
  have hcur : s.config = some cur := h.config b _ hcall rfl
  refine ⟨cur, ?_⟩
  unfold listen
  rw [hb, hcur]
  dsimp only
  cases hm : assertConfigMatches ssh2 cur config with
  | ok u =>
    exact ⟨.resolved, ⟨.serving, hcall, rfl⟩, rfl, rfl,
      Or.inl ⟨rfl, assertConfigMatches_ok_iff.mp hm⟩⟩
  | error message =>
    refine ⟨.rejected message, ⟨.serving, hcall, rfl⟩, rfl, rfl, Or.inr ⟨message, rfl, fun hok => ?_⟩⟩
    rw [assertConfigMatches_ok_iff.mpr hok] at hm
    contradiction

theorem listen_unbound (ssh2 : Ssh2) {s : Listener} (hs : s.server = none) (config : ListenConfig) :
    ∃ phase, s.listen ssh2 config = { s with config := some config }.newCall config phase ∧
      (phase = .binding ∨ ∃ message, phase = .rejected message) := by
  unfold listen
  rw [hs]
  dsimp only
  cases ssh2.serverError config.hostPrivateKey with
  | none => exact ⟨.binding, rfl, Or.inl rfl⟩
  | some message => exact ⟨.rejected message, rfl, Or.inr ⟨message, rfl⟩⟩

/-- The machine over the clients makes the same of a call: they read the configuration set here. -/
theorem listen_config (ssh2 : Ssh2) {s : Listener} {server : SshServer}
    (hbound : server.bound = s.server.isSome)
    (hconfig : server.config = s.config.map (·.toSshServerConfig)) (config : ListenConfig) :
    (server.listen config.toSshServerConfig).config =
      (s.listen ssh2 config).config.map (·.toSshServerConfig) := by
  unfold SshServer.listen
  cases hs : s.server with
  | none =>
    obtain ⟨phase, heq, -⟩ := listen_unbound ssh2 hs config
    rw [hbound, hs, heq]
    rfl
  | some b =>
    have hsame : (s.listen ssh2 config).config = s.config := by
      unfold listen
      rw [hs]
      dsimp only
      split
      · rfl
      · split <;> rfl
    rw [hbound, hs, hsame, ← hconfig]
    rfl

/-- A new call that is over at once. -/
theorem inv_newCall {s : Listener} (h : s.Inv) (config : ListenConfig) {phase : Phase}
    (hphase : phase.active = false) : (s.newCall config phase).Inv := by
  have hne : phase ≠ .serving := by
    rintro rfl
    contradiction
  have hcalls := s.newCall_calls config phase
  have hold : ∀ c call, (s.newCall config phase).calls c = some call → call.phase.active = true →
      s.calls c = some call := by
    intro c call hc hactive
    rw [hcalls] at hc
    split at hc
    · cases hc
      rw [hphase] at hactive
      contradiction
    · exact hc
  constructor
  · intro c hc
    have hlt : s.nextCall < c := hc
    rw [hcalls, if_neg (by omega)]
    exact h.fresh c hlt.le
  · intro c c' call call' hc hc' ha ha'
    exact h.one c c' call call' (hold c call hc ha) (hold c' call' hc' ha') ha ha'
  · exact fun c call hc ha => h.config c call (hold c call hc ha) ha
  · intro b
    change s.server = some b ↔ _
    rw [h.server b]
    constructor
    · rintro ⟨call, hc, hserving⟩
      refine ⟨call, ?_, hserving⟩
      have hb : b ≠ s.nextCall := by
        rintro rfl
        rw [h.fresh _ (Nat.le_refl _)] at hc
        contradiction
      rw [hcalls, if_neg hb]
      exact hc
    · rintro ⟨call, hc, hserving⟩
      exact ⟨call, hold b call hc (by rw [hserving]; rfl), hserving⟩

/-- A first call, with nothing bound and nothing binding. -/
theorem inv_binding {s : Listener} (h : s.Inv) (config : ListenConfig)
    (hidle : ∀ c call, s.calls c = some call → call.phase.active = false) :
    ({ s with config := some config }.newCall config .binding).Inv := by
  have hcalls := newCall_calls { s with config := some config } config .binding
  have hnew : ∀ c call, ({ s with config := some config }.newCall config .binding).calls c = some call →
      call.phase.active = true → c = s.nextCall ∧ call = ⟨config, .binding⟩ := by
    intro c call hc hactive
    rw [hcalls] at hc
    split at hc
    next heq => exact ⟨heq, (Option.some.inj hc).symm⟩
    next =>
      rw [hidle c call hc] at hactive
      contradiction
  constructor
  · intro c hc
    have hlt : s.nextCall < c := hc
    rw [hcalls, if_neg (show ¬ c = s.nextCall by omega)]
    exact h.fresh c hlt.le
  · intro c c' call call' hc hc' ha ha'
    rw [(hnew c call hc ha).1, (hnew c' call' hc' ha').1]
  · intro c call hc ha
    rw [(hnew c call hc ha).2]
    rfl
  · intro b
    change s.server = some b ↔ _
    rw [h.server b]
    constructor
    · rintro ⟨call, hc, hserving⟩
      have hoff := hidle b call hc
      rw [hserving] at hoff
      contradiction
    · rintro ⟨call, hc, hserving⟩
      rw [(hnew b call hc (by rw [hserving]; rfl)).2] at hserving
      contradiction

/-- A call goes on. -/
theorem inv_setPhase {s : Listener} (h : s.Inv) {c : ℕ} {call : ListenCall} (hc : s.calls c = some call)
    (hactive : call.phase.active = true) (hserving : call.phase ≠ .serving) {phase : Phase}
    {server : Option ℕ} (hserver : server = if phase = .serving then some c else s.server) :
    ({ s.setPhase c call phase with server := server } : Listener).Inv := by
  have hcalls := s.setPhase_calls c call phase
  have hidle : s.server = none := by
    cases hs : s.server with
    | none => rfl
    | some b =>
      obtain ⟨call', hb, hb'⟩ := (h.server b).mp hs
      have hsame := h.one b c call' call hb hc (by rw [hb']; rfl) hactive
      rw [hsame, hc] at hb
      cases hb
      exact absurd hb' hserving
  have hback : ∀ x call', (s.setPhase c call phase).calls x = some call' → call'.phase.active = true →
      ∃ old, s.calls x = some old ∧ old.phase.active = true ∧ old.config = call'.config := by
    intro x call' hx ha
    rw [hcalls] at hx
    split at hx
    next heq =>
      cases hx
      exact ⟨call, heq ▸ hc, hactive, rfl⟩
    next => exact ⟨call', hx, ha, rfl⟩
  constructor
  · intro x hx
    change (s.setPhase c call phase).calls x = none
    rw [hcalls, if_neg]
    · exact h.fresh x hx
    · rintro rfl
      rw [h.fresh x hx] at hc
      contradiction
  · intro x x' call₁ call₂ hx hx' ha ha'
    obtain ⟨old₁, hx, ha, -⟩ := hback x call₁ hx ha
    obtain ⟨old₂, hx', ha', -⟩ := hback x' call₂ hx' ha'
    exact h.one x x' old₁ old₂ hx hx' ha ha'
  · intro x call' hx ha
    obtain ⟨old, hx, ha, hconfig⟩ := hback x call' hx ha
    rw [← hconfig]
    exact h.config x old hx ha
  · intro b
    change server = some b ↔ ∃ call', (s.setPhase c call phase).calls b = some call' ∧ _
    have hother : ∀ call', s.calls b = some call' → call'.phase ≠ .serving := by
      intro call' hb hb'
      rw [(h.server b).mpr ⟨call', hb, hb'⟩] at hidle
      contradiction
    rw [hserver, hcalls]
    constructor
    · intro hb
      split at hb
      next hphase =>
        cases hb
        exact ⟨{ call with phase := phase }, if_pos rfl, hphase⟩
      next =>
        rw [hidle] at hb
        contradiction
    · rintro ⟨call', hb, hb'⟩
      split at hb
      next heq =>
        cases hb
        rw [if_pos hb', heq]
      next => exact absurd hb' (hother call' hb)

/-- How a call that is under way goes on. -/
inductive GoesOn : Phase → Phase → Prop
  | bound : GoesOn .binding .listening
  | failed (message : String) : GoesOn .binding (.rejected message)
  | assigned : GoesOn .listening .serving

theorem step_cases {ssh2 : Ssh2} {s t : Listener} {e : Event} (h : (machine ssh2).step s e = some t) :
    (∃ config, e = .listen config ∧ t = s.listen ssh2 config) ∨
    ∃ c call phase server, s.calls c = some call ∧ GoesOn call.phase phase ∧
      (server = if phase = .serving then some c else s.server) ∧
      t = { s.setPhase c call phase with server := server } := by
  have hstep : step ssh2 s e = some t := h
  cases e with
  | listen config => exact Or.inl ⟨config, rfl, (Option.some.inj hstep).symm⟩
  | bound c =>
    simp only [step] at hstep
    split at hstep
    next call hc =>
      split at hstep
      next hg =>
        cases hstep
        exact Or.inr ⟨c, call, .listening, s.server, hc, hg.1 ▸ .bound, rfl, rfl⟩
      · contradiction
    · contradiction
  | bindFailed c message =>
    simp only [step] at hstep
    split at hstep
    next call hc =>
      split at hstep
      next hg =>
        cases hstep
        exact Or.inr ⟨c, call, .rejected message, s.server, hc, hg ▸ .failed message, rfl, rfl⟩
      · contradiction
    · contradiction
  | assigned c =>
    simp only [step] at hstep
    split at hstep
    next call hc =>
      split at hstep
      next hg =>
        cases hstep
        exact Or.inr ⟨c, call, .serving, some c, hc, hg ▸ .assigned, rfl, rfl⟩
      · contradiction
    · contradiction

theorem GoesOn.active {p q : Phase} (h : GoesOn p q) : p.active = true ∧ p ≠ .serving := by
  cases h <;> exact ⟨rfl, fun hp => by contradiction⟩

theorem GoesOn.succeeds {p q : Phase} {ok : Bool} (h : GoesOn p q) (hb : q.bound = true)
    (hok : q.result = some ok) : ok = true := by
  cases h with
  | bound => contradiction
  | failed => contradiction
  | assigned => exact (Option.some.inj hok).symm

/-- Before a call that keeps apart and finds no server nothing is under way. -/
theorem Inv.idle {s t : Listener} {config : ListenConfig} (h : s.Inv) (hs : s.server = none)
    (hg : Apart s (.listen config) t) (c : ℕ) (call : ListenCall) (hc : s.calls c = some call) :
    call.phase.active = false := by
  have hlt : c < s.nextCall := by
    by_contra hle
    rw [h.fresh c (by omega)] at hc
    contradiction
  have hpending : call.phase.pending = false := hg c hlt call hc
  have hserving : call.phase ≠ .serving := fun hp => by
    rw [(h.server c).mpr ⟨call, hc, hp⟩] at hs
    contradiction
  cases hphase : call.phase with
  | binding =>
    rw [hphase] at hpending
    contradiction
  | listening =>
    rw [hphase] at hpending
    contradiction
  | serving => exact absurd hphase hserving
  | _ => rfl

theorem inv_step {ssh2 : Ssh2} {s t : Listener} {e : Event} (h : s.Inv)
    (hstep : (machine ssh2).step s e = some t) (hg : Apart s e t) : t.Inv := by
  rcases step_cases hstep with ⟨config, rfl, rfl⟩ | ⟨c, call, phase, server, hc, hgo, hserver, rfl⟩
  · cases hs : s.server with
    | some b =>
      obtain ⟨cur, phase, -, -, heq, hphase⟩ := listen_bound ssh2 h hs config
      rw [heq]
      refine inv_newCall h config ?_
      rcases hphase with ⟨rfl, -⟩ | ⟨message, rfl, -⟩
      · rfl
      · rfl
    | none =>
      have hidle := h.idle hs hg
      have hset : ({ s with config := some config } : Listener).Inv := by
        refine ⟨h.fresh, h.one, fun c call hc ha => ?_, h.server⟩
        rw [hidle c call hc] at ha
        contradiction
      obtain ⟨phase, heq, hphase⟩ := listen_unbound ssh2 hs config
      rw [heq]
      rcases hphase with rfl | ⟨message, rfl⟩
      · exact inv_binding h config hidle
      · exact inv_newCall hset config rfl
  · exact inv_setPhase h hc hgo.active.1 hgo.active.2 hserver

theorem inv_reach {ssh2 : Ssh2} {s : Listener} (h : (machine ssh2).Reach Apart s) : s.Inv := by
  refine h.invariant ?_ ?_
  · rintro _ rfl
    exact inv_initial
  · intro s e t _ hi hs hg
    exact inv_step hi hs hg

theorem active_of_bound {p : Phase} (h : p.bound = true) : p.active = true := by
  cases p <;> first | rfl | contradiction

theorem Inv.fixed {s : Listener} (h : s.Inv) : s.Fixed where
  one b b' config config' := by
    rintro ⟨phase, hb, hbound⟩ ⟨phase', hb', hbound'⟩
    exact h.one b b' _ _ hb hb' (active_of_bound hbound) (active_of_bound hbound')
  config b config := by
    rintro ⟨phase, hb, hbound⟩
    exact h.config b _ hb (active_of_bound hbound)

/-- Only the call that changes its phase can return. -/
theorem returns_newCall {s : Listener} {config config' : ListenConfig} {phase : Phase} {c : ℕ} {ok : Bool}
    (h : Returns s (s.newCall config phase) c config' ok) :
    c = s.nextCall ∧ config' = config ∧ phase.result = some ok := by
  obtain ⟨hbefore, phase', hafter, hok⟩ := h
  rw [newCall_calls] at hafter
  split at hafter
  next heq =>
    cases hafter
    exact ⟨heq, rfl, hok⟩
  next =>
    rw [hbefore _ hafter] at hok
    contradiction

theorem returns_setPhase {s : Listener} {c x : ℕ} {call : ListenCall} {phase : Phase} {server : Option ℕ}
    {config : ListenConfig} {ok : Bool}
    (h : Returns s { s.setPhase c call phase with server := server } x config ok) :
    x = c ∧ config = call.config ∧ phase.result = some ok := by
  obtain ⟨hbefore, phase', hafter, hok⟩ := h
  have hafter' : (s.setPhase c call phase).calls x = some ⟨config, phase'⟩ := hafter
  rw [setPhase_calls] at hafter'
  split at hafter'
  next heq =>
    cases hafter'
    exact ⟨heq, rfl, hok⟩
  next =>
    rw [hbefore _ hafter'] at hok
    contradiction

/-- What a call answers is what the comparison with the bound server's configuration says. -/
def AnswersRight (ssh2 : Ssh2) (s t : Listener) : Prop :=
  ∀ c config ok, Returns s t c config ok → ∀ b cur, t.Bound b cur →
    (ok = true ↔ Matches ssh2 cur config)

theorem answersRight_listen {ssh2 : Ssh2} {s : Listener} {config : ListenConfig} (h : s.Inv)
    (hg : Apart s (.listen config) (s.listen ssh2 config)) :
    AnswersRight ssh2 s (s.listen ssh2 config) := by
  intro c config' ok hr b cur' hb
  cases hs : s.server with
  | some b₀ =>
    obtain ⟨cur, phase, hbound, -, heq, hphase⟩ := listen_bound ssh2 h hs config
    rw [heq] at hr hb
    obtain ⟨-, rfl, hok⟩ := returns_newCall hr
    obtain ⟨phase', hb, hbound'⟩ := hb
    have hcur : cur' = cur := by
      rw [newCall_calls] at hb
      split at hb
      · cases hb
        rcases hphase with ⟨rfl, -⟩ | ⟨message, rfl, -⟩
        · contradiction
        · contradiction
      · have hsame := h.fixed.config b cur' ⟨phase', hb, hbound'⟩
        rw [h.fixed.config _ cur hbound] at hsame
        exact (Option.some.inj hsame).symm
    rw [hcur]
    rcases hphase with ⟨rfl, hm⟩ | ⟨message, rfl, hm⟩
    · cases hok
      exact ⟨fun _ => hm, fun _ => rfl⟩
    · cases hok
      exact ⟨fun hf => by contradiction, fun hm' => absurd hm' hm⟩
  | none =>
    have hidle := h.idle hs hg
    obtain ⟨phase, heq, hphase⟩ := listen_unbound ssh2 hs config
    rw [heq] at hb
    obtain ⟨phase', hb, hbound⟩ := hb
    rw [newCall_calls] at hb
    split at hb
    · cases hb
      rcases hphase with rfl | ⟨message, rfl⟩
      · contradiction
      · contradiction
    · have hoff := hidle b _ hb
      rw [active_of_bound hbound] at hoff
      contradiction

theorem answersRight_setPhase {ssh2 : Ssh2} {s : Listener} {c : ℕ} {call : ListenCall} {phase : Phase}
    {server : Option ℕ} (h : s.Inv) (hc : s.calls c = some call) (hgo : GoesOn call.phase phase) :
    AnswersRight ssh2 s { s.setPhase c call phase with server := server } := by
  intro x config ok hr b cur hb
  obtain ⟨rfl, rfl, hok⟩ := returns_setPhase hr
  obtain ⟨phase', hb, hbound⟩ := hb
  have hb' : (s.setPhase x call phase).calls b = some ⟨cur, phase'⟩ := hb
  rw [setPhase_calls] at hb'
  split at hb'
  next heq =>
    -- The server is the call's own.
    cases hb'
    exact ⟨fun _ => matches_refl ssh2 _, fun _ => hgo.succeeds hbound hok⟩
  next hne =>
    exact absurd (h.one b x _ _ hb' hc (active_of_bound hbound) hgo.active.1) hne

/-- As long as no call of `listen` comes while another is binding, one server is bound, the
configuration is its own, and every call is answered by the comparison with it. -/
theorem listen_of_apart (ssh2 : Ssh2) (s : Listener) (h : (machine ssh2).Reach Apart s) :
    s.Fixed ∧ ∀ e t, (machine ssh2).step s e = some t → Apart s e t → AnswersRight ssh2 s t := by
  have hinv := inv_reach h
  refine ⟨hinv.fixed, fun e t hstep hg => ?_⟩
  rcases step_cases hstep with ⟨config, rfl, rfl⟩ | ⟨c, call, phase, server, hc, hgo, -, rfl⟩
  · exact answersRight_listen hinv hg
  · exact answersRight_setPhase hinv hc hgo

/-- Keys are what they say; every one makes a server. -/
def plainKeys : Ssh2 where
  publicSsh
    | .string s => some s
    | .buffer _ => none
  serverError _ := none

def credential (userCa : String) : ListenConfig :=
  ⟨⟨"0.0.0.0", 2222, userCa, "unoq", 5000⟩, .string "host"⟩

/-- One credential binds the listener; the next one has the same keys, the last another CA. -/
def bootRun : List Event :=
  [.listen (credential "ca"), .bound 0, .assigned 0, .listen (credential " ca\n"),
    .listen (credential "other")]

theorem bootRun_fixed : ((machine plainKeys).after Apart initial bootRun).Fixed ∧
    (((machine plainKeys).after Apart initial bootRun).calls 1).map (·.phase) = some .resolved ∧
    (((machine plainKeys).after Apart initial bootRun).calls 2).map (·.phase) =
      some (.rejected differentUserCa) :=
  ⟨(listen_of_apart plainKeys _ ((Machine.Reach.init rfl).after bootRun)).1, by decide +kernel,
    by decide +kernel⟩

/-- A second credential calls `listen` while the first is binding. -/
def overlappingRun : List Event :=
  [.listen (credential "ca"), .listen (credential "other"), .bound 0, .assigned 0,
    .bindFailed 1 "listen EADDRINUSE: address already in use 0.0.0.0:2222"]

theorem overlappingRun_otherCa : ¬ ∀ (ssh2 : Ssh2) (s : Listener), (machine ssh2).Reach always s →
    s.Fixed ∧ ∀ e t, (machine ssh2).step s e = some t → AnswersRight ssh2 s t := by
  intro hall
  have hfixed := (hall plainKeys _ ((Machine.Reach.init rfl).after overlappingRun)).1
  have hconfig := hfixed.config 0 (credential "ca") ⟨.serving, rfl, rfl⟩
  have hca := congrArg (Option.map (·.userCaPublicKey)) hconfig
  exact absurd hca (by decide +kernel)

end Listener

end UnoQ.Ssh
