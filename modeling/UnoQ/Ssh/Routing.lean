import UnoQ.Ssh.Possession

/-!
# Routing

`connect` asks a client to open a channel to the device it was called for. A run of the
server is followed here together with the `tcpip-forward` requests it has processed and
with what becomes of every call of `connect`. Between the promise of `awaitDevice` and
`forwardOut` lies only a microtask, so in that time no socket closes, and of the clients
only the one acts whose packets are being handled.
-/

namespace UnoQ.Ssh
open Transition

/-- The server with what `connect` makes of it: `forwards` are the forwards processed, the last one
first, `callers` the nicknames `connect` was called with, `asked` the calls that have called
`forwardOut`. -/
structure Routing where
  server : SshServer
  forwards : List (String × ℕ)
  callers : ℕ → String
  asked : List ℕ

namespace Routing

def initial : Routing := ⟨.initial, [], fun _ => "", []⟩

/-- Whose forward for the nickname was processed last. -/
def lastForward (forwards : List (String × ℕ)) (nick : String) : Option ℕ :=
  (forwards.find? fun f => f.1 = nick).map (·.2)

/-- Calls that have their registry entry and have yet to call `forwardOut`. -/
def resolved (r : Routing) : List (ℕ × RegistryEntry) :=
  r.server.settled.filterMap fun p =>
    match p.2 with
    | .device entry => if p.1 ∈ r.asked then none else some (p.1, entry)
    | .failed _ => none

/-- The forward that a request makes the server process. -/
def forwardOf (s : SshServer) : SshServer.Event → Option (String × ℕ)
  | .request c name _ =>
    if name ≠ "tcpip-forward" then none
    else (s.clients c).deviceNick.bind fun nick => if nick = "" then none else some (nick, c)
  | _ => none

def called (r : Routing) : SshServer.Event → ℕ → String
  | .connect nick => Function.update r.callers r.server.nextWaiter nick
  | _ => r.callers

/-- What can happen before the calls in `resolved` go on. -/
def undisturbed (r : Routing) : SshServer.Event → Bool
  | .closed _ => decide (r.resolved = [])
  | .request c _ _ => r.resolved.all fun p => decide (p.2.client = c)
  | _ => true

inductive Event
  | server (e : SshServer.Event)
  | forwardOut (w : ℕ) (entry : RegistryEntry)

def step (verify : Ed25519) (r : Routing) : Event → Option Routing
  | .server e =>
    if r.undisturbed e = true then
      (r.server.step verify e).map fun s =>
        ⟨s, (forwardOf r.server e).toList ++ r.forwards, r.called e, r.asked⟩
    else none
  | .forwardOut w entry =>
    if (w, entry) ∈ r.resolved then some { r with asked := w :: r.asked } else none

def machine (verify : Ed25519) : Machine Routing Event where
  init r := r = initial
  step := step verify

/-! ### Who may be asked -/

/-- The client that bears the nickname by right: authenticated under it, open, and the last to have
asked for a forward. -/
structure Holds (r : Routing) (nick : String) (c : ℕ) : Prop where
  authenticated : (r.server.clients c).authenticated = true
  deviceNick : (r.server.clients c).deviceNick = some nick
  opened : (r.server.clients c).closed = false
  last : lastForward r.forwards nick = some c
  named : nick ≠ ""

theorem mem_resolved {r : Routing} {w : ℕ} {entry : RegistryEntry} :
    (w, entry) ∈ r.resolved ↔ (w, .device entry) ∈ r.server.settled ∧ w ∉ r.asked := by
  unfold resolved
  rw [List.mem_filterMap]
  constructor
  · rintro ⟨⟨x, outcome⟩, hmem, hp⟩
    cases outcome with
    | failed message => contradiction
    | device e =>
      dsimp only at hp
      split at hp
      · contradiction
      next hnot =>
        cases hp
        exact ⟨hmem, hnot⟩
  · rintro ⟨hmem, hnot⟩
    exact ⟨(w, .device entry), hmem, by simp [hnot]⟩

theorem lastForward_cons (forwards : List (String × ℕ)) (nick nick' : String) (c : ℕ) :
    lastForward ((nick, c) :: forwards) nick' =
      if nick = nick' then some c else lastForward forwards nick' := by
  unfold lastForward
  by_cases hnick : nick = nick'
  · rw [if_pos hnick, List.find?_cons_of_pos (by simpa using hnick)]
    rfl
  · rw [if_neg hnick, List.find?_cons_of_neg (by simpa using hnick)]

theorem Holds.frame {r t : Routing} {nick : String} {c : ℕ} (h : r.Holds nick c)
    (hclient : t.server.clients c = r.server.clients c)
    (hlast : lastForward t.forwards nick = lastForward r.forwards nick) : t.Holds nick c := by
  constructor
  · rw [hclient]
    exact h.authenticated
  · rw [hclient]
    exact h.deviceNick
  · rw [hclient]
    exact h.opened
  · rw [hlast]
    exact h.last
  · exact h.named

structure Inv (r : Routing) : Prop where
  fresh : ∀ c, r.server.nextClient ≤ c → (r.server.clients c).authenticated = false
  registered : ∀ nick entry, r.server.registry.get nick = some entry → r.Holds nick entry.client
  resolved : ∀ w entry, (w, entry) ∈ r.resolved → r.Holds (r.callers w) entry.client
  waiting : ∀ nick l, r.server.waiters.get nick = some l → ∀ w ∈ l,
    w.id < r.server.nextWaiter ∧ r.callers w.id = nick
  born : ∀ p ∈ r.server.settled, p.1 < r.server.nextWaiter

theorem inv_initial : Inv initial where
  fresh _ _ := rfl
  registered _ _ he := by contradiction
  resolved _ _ he := by contradiction
  waiting _ _ hl := by contradiction
  born _ hp := by contradiction

/-- Steps that only take entries away and settle calls with errors. -/
structure Quiet (s t : SshServer) : Prop where
  clients : t.clients = s.clients
  nextClient : t.nextClient = s.nextClient
  nextWaiter : t.nextWaiter = s.nextWaiter
  registry : ∀ nick entry, t.registry.get nick = some entry → s.registry.get nick = some entry
  waiters : ∀ nick l, t.waiters.get nick = some l → ∃ l', s.waiters.get nick = some l' ∧ l ⊆ l'
  settled : ∀ p ∈ t.settled, p ∈ s.settled ∨ (p.1 < s.nextWaiter ∧ ∃ message, p.2 = .failed message)

theorem Quiet.refl (s : SshServer) : Quiet s s :=
  ⟨rfl, rfl, rfl, fun _ _ h => h, fun _ l h => ⟨l, h, List.Subset.refl l⟩, fun _ h => Or.inl h⟩

theorem inv_quiet {r : Routing} (h : r.Inv) {t : SshServer} (hq : Quiet r.server t) :
    Inv { r with server := t } := by
  have hholds : ∀ nick c, r.Holds nick c → Holds { r with server := t } nick c :=
    fun nick c hh => hh.frame (congrFun hq.clients c) rfl
  constructor
  · intro c hc
    change (t.clients c).authenticated = false
    rw [hq.clients]
    exact h.fresh c (hq.nextClient ▸ hc)
  · exact fun nick entry he => hholds _ _ (h.registered nick entry (hq.registry nick entry he))
  · intro w entry he
    obtain ⟨hmem, hnot⟩ := mem_resolved.mp he
    rcases hq.settled _ hmem with hold | ⟨-, message, hfailed⟩
    · exact hholds _ _ (h.resolved w entry (mem_resolved.mpr ⟨hold, hnot⟩))
    · contradiction
  · intro nick l hl w hw
    obtain ⟨l', hl', hsub⟩ := hq.waiters nick l hl
    change w.id < t.nextWaiter ∧ _
    rw [hq.nextWaiter]
    exact h.waiting nick l' hl' w (hsub hw)
  · intro p hp
    change p.1 < t.nextWaiter
    rw [hq.nextWaiter]
    rcases hq.settled p hp with hold | ⟨hlt, -⟩
    · exact h.born p hold
    · exact hlt

theorem quiet_listen (s : SshServer) (config : SshServerConfig) : Quiet s (s.listen config) := by
  unfold SshServer.listen
  split
  · exact Quiet.refl s
  · exact { Quiet.refl s with }

theorem quiet_waitExpired {s : SshServer} {nick : String} {w : PendingConnect}
    (hw : w ∈ (s.waiters.get nick).getD []) (hborn : w.id < s.nextWaiter) :
    Quiet s (s.waitExpired nick w) := by
  refine ⟨rfl, rfl, rfl, fun _ _ h => h, fun nick' l hl => ?_, fun p hp => ?_⟩
  · cases hget : s.waiters.get nick with
    | none =>
      rw [hget] at hw
      contradiction
    | some waiting =>
      change (if ((s.waiters.get nick).getD []).erase w = [] then s.waiters.delete nick
        else s.waiters.set nick (((s.waiters.get nick).getD []).erase w)).get nick' = some l at hl
      rw [hget] at hl
      split at hl
      · exact ⟨l, (InsertMap.get_delete_eq_some hl).2, List.Subset.refl l⟩
      · rcases InsertMap.get_set_eq_some hl with ⟨rfl, rfl⟩ | ⟨-, hold⟩
        · exact ⟨waiting, hget, List.erase_subset⟩
        · exact ⟨l, hold, List.Subset.refl l⟩
  · rcases List.mem_append.mp hp with hold | hnew
    · exact Or.inl hold
    · rw [List.mem_singleton.mp hnew]
      exact Or.inr ⟨hborn, _, rfl⟩

theorem quiet_close {s : SshServer}
    (hborn : ∀ nick l, s.waiters.get nick = some l → ∀ w ∈ l, w.id < s.nextWaiter) :
    Quiet s s.close := by
  unfold SshServer.close
  split
  · exact Quiet.refl s
  · refine ⟨rfl, rfl, rfl, fun _ _ he => by contradiction, fun _ _ hl => by contradiction, fun p hp => ?_⟩
    rcases List.mem_append.mp hp with hold | hnew
    · exact Or.inl hold
    · obtain ⟨w, hw, rfl⟩ := List.mem_map.mp hnew
      obtain ⟨l, hl, hwl⟩ := List.mem_flatten.mp hw
      obtain ⟨⟨nick, l'⟩, hentry, rfl⟩ := List.mem_map.mp hl
      exact Or.inr ⟨hborn nick l' ((InsertMap.get_eq_some_iff _).mpr hentry) w hwl, _, rfl⟩

/-- Steps that change one client, who is neither registered nor about to be asked. -/
theorem inv_setClient {r : Routing} (h : r.Inv) {c n : ℕ} (client : Client) (log : List AuthRecord)
    (hregistered : ∀ nick entry, r.server.registry.get nick = some entry → entry.client ≠ c)
    (hresolved : ∀ w entry, (w, entry) ∈ r.resolved → entry.client ≠ c)
    (hn : r.server.nextClient ≤ n) (hcn : c < n) :
    Inv { r with server := { r.server with
      clients := Function.update r.server.clients c client
      nextClient := n
      log := log } } := by
  constructor
  · intro d hd
    change (Function.update r.server.clients c client d).authenticated = false
    have hle : n ≤ d := hd
    rw [Function.update_of_ne (show d ≠ c by omega)]
    exact h.fresh d (hn.trans hle)
  · intro nick entry he
    exact (h.registered nick entry he).frame (Function.update_of_ne (hregistered nick entry he) _ _) rfl
  · intro w entry he
    exact (h.resolved w entry he).frame (Function.update_of_ne (hresolved w entry he) _ _) rfl
  · exact h.waiting
  · exact h.born

/-- A client that is not authenticated holds no nickname. -/
theorem Holds.ne {r : Routing} {nick : String} {c d : ℕ} (h : r.Holds nick c)
    (hd : (r.server.clients d).authenticated = false) : c ≠ d := by
  rintro rfl
  rw [h.authenticated] at hd
  contradiction

theorem inv_onConnection {r : Routing} (h : r.Inv) : Inv { r with server := r.server.onConnection } := by
  have hout := h.fresh r.server.nextClient (Nat.le_refl _)
  exact inv_setClient h ⟨none, false, false⟩ r.server.log (fun nick entry he => (h.registered nick entry he).ne hout)
    (fun w entry he => (h.resolved w entry he).ne hout) (Nat.le_succ _) (Nat.lt_succ_self _)

theorem inv_onAuthentication {verify : Ed25519} {r : Routing} (h : r.Inv) {c : ℕ}
    (hc : c < r.server.nextClient) (hout : (r.server.clients c).authenticated = false) (nowMs : ℤ)
    (ctx : AuthContext) :
    Inv { r with server := r.server.onAuthentication verify c nowMs ctx } := by
  unfold SshServer.onAuthentication
  dsimp only
  split
  next nick haccept =>
    exact inv_setClient h _ _ (fun nick entry he => (h.registered nick entry he).ne hout)
      (fun w entry he => (h.resolved w entry he).ne hout) (Nat.le_refl _) hc
  · exact inv_quiet h { Quiet.refl r.server with }

/-- The close of a client takes its own entry away, and no other. -/
theorem onClose_cases (s : SshServer) (c : ℕ) : ∃ registry,
    s.onClose c = { s with
      clients := Function.update s.clients c { s.clients c with closed := true }
      registry := registry } ∧
    (∀ nick entry, registry.get nick = some entry → s.registry.get nick = some entry) ∧
    (∀ nick entry, s.registry.get nick = some entry → entry.client ≠ c →
      registry.get nick = some entry) ∧
    (∀ nick entry, registry.get nick = some entry → (s.clients c).deviceNick = some nick → nick ≠ "" →
      entry.client ≠ c) := by
  unfold SshServer.onClose
  dsimp only
  cases hnick : (s.clients c).deviceNick with
  | none =>
    refine ⟨s.registry, rfl, fun _ _ h => h, fun _ _ h _ => h, fun nick entry _ hsome => ?_⟩
    contradiction
  | some nick =>
    dsimp only
    split
    next hempty =>
      refine ⟨s.registry, rfl, fun _ _ h => h, fun _ _ h _ => h, fun nick' entry _ hsome hne => ?_⟩
      cases hsome
      exact absurd hempty hne
    next hnonempty =>
      cases hget : s.registry.get nick with
      | none =>
        refine ⟨s.registry, rfl, fun _ _ h => h, fun _ _ h _ => h, fun nick' entry he hsome _ => ?_⟩
        cases hsome
        rw [hget] at he
        contradiction
      | some entry =>
        dsimp only
        split
        next hown =>
          refine ⟨s.registry.delete nick, rfl, fun _ _ h => (InsertMap.get_delete_eq_some h).2,
            fun nick' entry' h hne => ?_, fun nick' entry' he hsome _ => ?_⟩
          · have hkey : nick ≠ nick' := by
              rintro rfl
              rw [hget] at h
              cases h
              exact hne hown
            rw [InsertMap.get_delete_ne _ hkey]
            exact h
          · cases hsome
            exact absurd rfl (InsertMap.get_delete_eq_some he).1
        next hother =>
          refine ⟨s.registry, rfl, fun _ _ h => h, fun _ _ h _ => h, fun nick' entry' he hsome _ => ?_⟩
          cases hsome
          rw [hget] at he
          cases he
          exact hother

theorem inv_onClose {r : Routing} (h : r.Inv) {c : ℕ} (hc : c < r.server.nextClient)
    (hquiet : r.resolved = []) : Inv { r with server := r.server.onClose c } := by
  obtain ⟨registry, heq, hsub, -, hown⟩ := onClose_cases r.server c
  rw [heq]
  have hless : Inv { r with server := { r.server with registry := registry } } :=
    inv_quiet h { Quiet.refl r.server with registry := hsub }
  refine inv_setClient hless _ r.server.log (fun nick entry he hclient => ?_) (fun w entry he => ?_)
    (Nat.le_refl _) hc
  · have hholds := h.registered nick entry (hsub nick entry he)
    rw [hclient] at hholds
    exact hown nick entry he hholds.deviceNick hholds.named hclient
  · have hnone : (w, entry) ∈ r.resolved := he
    rw [hquiet] at hnone
    contradiction

theorem onRequest_cases (s : SshServer) (c : ℕ) (name : String) (info : Option (String × ℕ)) :
    (forwardOf s (.request c name info) = none ∧ s.onRequest c name info = s) ∨
    ∃ nick addr port, nick ≠ "" ∧ (s.clients c).deviceNick = some nick ∧
      forwardOf s (.request c name info) = some (nick, c) ∧
      s.onRequest c name info = s.installEntry nick ⟨c, addr, port⟩ := by
  unfold forwardOf SshServer.onRequest
  dsimp only
  by_cases hname : name ≠ "tcpip-forward"
  · exact Or.inl ⟨if_pos hname, if_pos hname⟩
  · rw [if_neg hname, if_neg hname]
    cases hnick : (s.clients c).deviceNick with
    | none => exact Or.inl ⟨rfl, rfl⟩
    | some nick =>
      by_cases hempty : nick = ""
      · exact Or.inl ⟨if_pos hempty, if_pos hempty⟩
      · exact Or.inr ⟨nick, _, _, hempty, rfl, if_neg hempty, if_neg hempty⟩

theorem inv_installEntry {r : Routing} (h : r.Inv) {nick : String} {entry : RegistryEntry}
    (hauth : (r.server.clients entry.client).authenticated = true)
    (hnick : (r.server.clients entry.client).deviceNick = some nick)
    (hopen : (r.server.clients entry.client).closed = false) (hne : nick ≠ "")
    (hown : ∀ p ∈ r.resolved, p.2.client = entry.client) :
    Inv { r with
      server := r.server.installEntry nick entry
      forwards := (nick, entry.client) :: r.forwards } := by
  have hnew : Holds { r with
      server := r.server.installEntry nick entry
      forwards := (nick, entry.client) :: r.forwards } nick entry.client :=
    ⟨hauth, hnick, hopen, by rw [lastForward_cons, if_pos rfl], hne⟩
  constructor
  · exact h.fresh
  · intro nick' entry' he
    rcases InsertMap.get_set_eq_some he with ⟨rfl, rfl⟩ | ⟨hkey, hold⟩
    · exact hnew
    · exact (h.registered nick' entry' hold).frame rfl (by rw [lastForward_cons, if_neg (Ne.symm hkey)])
  · intro w entry' he
    obtain ⟨hmem, hnot⟩ := mem_resolved.mp he
    rcases List.mem_append.mp hmem with hold | hwaited
    · -- A call that had its entry before: the client is the one that asks now.
      have hold' : (w, entry') ∈ r.resolved := mem_resolved.mpr ⟨hold, hnot⟩
      have hholds := h.resolved w entry' hold'
      have hsame : entry'.client = entry.client := hown _ hold'
      rw [hsame] at hholds ⊢
      have hcaller : nick = r.callers w := Option.some.inj (hnick.symm.trans hholds.deviceNick)
      change Holds _ (r.callers w) entry.client
      rw [← hcaller]
      exact hnew
    · obtain ⟨p, hp, heq⟩ := List.mem_map.mp hwaited
      cases heq
      cases hget : r.server.waiters.get nick with
      | none =>
        rw [hget] at hp
        contradiction
      | some l =>
        rw [hget] at hp
        change Holds _ (r.callers p.id) entry.client
        rw [(h.waiting nick l hget p hp).2]
        exact hnew
  · exact fun nick' l hl => h.waiting nick' l (InsertMap.get_delete_eq_some hl).2
  · intro p hp
    rcases List.mem_append.mp hp with hold | hwaited
    · exact h.born p hold
    · obtain ⟨w, hw, rfl⟩ := List.mem_map.mp hwaited
      cases hget : r.server.waiters.get nick with
      | none =>
        rw [hget] at hw
        contradiction
      | some l =>
        rw [hget] at hw
        exact (h.waiting nick l hget w hw).1

/-- A new call of `connect`, which the earlier ones do not notice. -/
theorem inv_connect {r : Routing} (h : r.Inv) (nick : String) :
    Inv { r with
      server := r.server.connect nick
      callers := Function.update r.callers r.server.nextWaiter nick } := by
  have hcaller : ∀ w < r.server.nextWaiter,
      Function.update r.callers r.server.nextWaiter nick w = r.callers w :=
    fun w hw => Function.update_of_ne (by omega) _ _
  have hself : Function.update r.callers r.server.nextWaiter nick r.server.nextWaiter = nick :=
    Function.update_self _ _ _
  have hresolved : ∀ w entry, (w, WaitOutcome.device entry) ∈ r.server.settled → w ∉ r.asked →
      r.Holds (Function.update r.callers r.server.nextWaiter nick w) entry.client := by
    intro w entry hmem hnot
    rw [hcaller w (h.born _ hmem)]
    exact h.resolved w entry (mem_resolved.mpr ⟨hmem, hnot⟩)
  have hregistered : ∀ {t : Routing}, t.server.clients = r.server.clients → t.forwards = r.forwards →
      ∀ nick' entry, r.server.registry.get nick' = some entry → t.Holds nick' entry.client :=
    fun hclients hforwards nick' entry he =>
      (h.registered nick' entry he).frame (congrFun hclients _) (by rw [hforwards])
  have hborn : ∀ outcome, ∀ p ∈ r.server.settled ++ [(r.server.nextWaiter, outcome)],
      p.1 < r.server.nextWaiter + 1 := by
    intro outcome p hp
    rcases List.mem_append.mp hp with hold | hnew
    · exact Nat.lt_succ_of_lt (h.born p hold)
    · rw [List.mem_singleton.mp hnew]
      exact Nat.lt_succ_self _
  have hwaiting : ∀ nick' l, r.server.waiters.get nick' = some l → ∀ w ∈ l,
      w.id < r.server.nextWaiter + 1 ∧
        Function.update r.callers r.server.nextWaiter nick w.id = nick' := by
    intro nick' l hl w hw
    obtain ⟨hlt, hcalled⟩ := h.waiting nick' l hl w hw
    exact ⟨Nat.lt_succ_of_lt hlt, (hcaller w.id hlt).trans hcalled⟩
  unfold SshServer.connect
  dsimp only
  split
  next config hbound hconfig =>
    cases hget : r.server.registry.get nick with
    | some entry =>
      refine ⟨h.fresh, hregistered rfl rfl, fun w entry' he => ?_, hwaiting, hborn _⟩
      obtain ⟨hmem, hnot⟩ := mem_resolved.mp he
      rcases List.mem_append.mp hmem with hold | hnew
      · exact (hresolved w entry' hold hnot).frame rfl rfl
      · cases List.mem_singleton.mp hnew
        change Holds _ (Function.update r.callers r.server.nextWaiter nick r.server.nextWaiter) _
        rw [hself]
        exact (h.registered nick entry hget).frame rfl rfl
    | none =>
      refine ⟨h.fresh, hregistered rfl rfl, fun w entry' he => ?_, fun nick' l hl w hw => ?_,
        fun p hp => Nat.lt_succ_of_lt (h.born p hp)⟩
      · obtain ⟨hmem, hnot⟩ := mem_resolved.mp he
        exact (hresolved w entry' hmem hnot).frame rfl rfl
      · rcases InsertMap.get_set_eq_some hl with ⟨rfl, rfl⟩ | ⟨-, hold⟩
        · rcases List.mem_append.mp hw with hw | hw
          · cases hwait : r.server.waiters.get nick' with
            | none =>
              rw [hwait] at hw
              contradiction
            | some l =>
              rw [hwait] at hw
              exact hwaiting nick' l hwait w hw
          · rw [List.mem_singleton.mp hw]
            exact ⟨Nat.lt_succ_self _, hself⟩
        · exact hwaiting nick' l hold w hw
  next =>
    refine ⟨h.fresh, hregistered rfl rfl, fun w entry' he => ?_, hwaiting, hborn _⟩
    obtain ⟨hmem, hnot⟩ := mem_resolved.mp he
    rcases List.mem_append.mp hmem with hold | hnew
    · exact (hresolved w entry' hold hnot).frame rfl rfl
    · cases List.mem_singleton.mp hnew

theorem inv_server {verify : Ed25519} {r : Routing} (h : r.Inv) {e : SshServer.Event}
    (hundisturbed : r.undisturbed e = true) {s : SshServer} (hs : r.server.step verify e = some s) :
    Inv ⟨s, (forwardOf r.server e).toList ++ r.forwards, r.called e, r.asked⟩ := by
  cases SshServer.effect_of_step hs with
  | listen config => exact inv_quiet h (quiet_listen _ _)
  | bound => exact inv_quiet h { Quiet.refl r.server with }
  | bindFailed => exact inv_quiet h { Quiet.refl r.server with }
  | connection => exact inv_onConnection h
  | authentication nowMs ctx hborn hopen hunknown =>
    exact inv_onAuthentication h hborn hunknown nowMs ctx
  | @request c name info hborn hopen hknown =>
    have hown : ∀ p ∈ r.resolved, p.2.client = c := fun p hp =>
      of_decide_eq_true (List.all_eq_true.mp hundisturbed p hp)
    rcases onRequest_cases r.server c name info with
      ⟨hnone, hsame⟩ | ⟨nick, addr, port, hne, hnick, hf, hinst⟩
    · rw [hnone, hsame]
      exact h
    · rw [hf, hinst]
      exact inv_installEntry h hknown hnick hopen hne hown
  | closed hborn => exact inv_onClose h hborn (of_decide_eq_true hundisturbed)
  | connect nick => exact inv_connect h nick
  | @waitExpired nick w hw =>
    cases hget : r.server.waiters.get nick with
    | none =>
      rw [hget] at hw
      contradiction
    | some l =>
      have hmem : w ∈ l := by rwa [hget] at hw
      exact inv_quiet h (quiet_waitExpired hw (h.waiting nick l hget w hmem).1)
  | close => exact inv_quiet h (quiet_close fun nick l hl w hw => (h.waiting nick l hl w hw).1)
  | serverClosed => exact inv_quiet h { Quiet.refl r.server with }

theorem inv_forwardOut {r : Routing} (h : r.Inv) (w : ℕ) : Inv { r with asked := w :: r.asked } where
  fresh := h.fresh
  registered nick entry he := (h.registered nick entry he).frame rfl rfl
  resolved x entry he := by
    obtain ⟨hmem, hnot⟩ := mem_resolved.mp he
    have hold : x ∉ r.asked := fun hx => hnot (List.mem_cons_of_mem _ hx)
    exact (h.resolved x entry (mem_resolved.mpr ⟨hmem, hold⟩)).frame rfl rfl
  waiting := h.waiting
  born := h.born

theorem step_cases {verify : Ed25519} {r t : Routing} {e : Event}
    (h : (machine verify).step r e = some t) :
    (∃ x s, e = .server x ∧ r.undisturbed x = true ∧ r.server.step verify x = some s ∧
      t = ⟨s, (forwardOf r.server x).toList ++ r.forwards, r.called x, r.asked⟩) ∨
    ∃ w entry, e = .forwardOut w entry ∧ (w, entry) ∈ r.resolved ∧
      t = { r with asked := w :: r.asked } := by
  cases e with
  | server x =>
    change (if r.undisturbed x = true then _ else none) = some t at h
    split at h
    next hu =>
      obtain ⟨s, hstep, rfl⟩ := Option.map_eq_some_iff.mp h
      exact Or.inl ⟨x, s, rfl, hu, hstep, rfl⟩
    · contradiction
  | forwardOut w entry =>
    change (if (w, entry) ∈ r.resolved then _ else none) = some t at h
    split at h
    next hmem =>
      cases h
      exact Or.inr ⟨w, entry, rfl, hmem, rfl⟩
    · contradiction

theorem inv_reach {verify : Ed25519} {r : Routing} (h : (machine verify).Reach always r) : r.Inv := by
  refine h.invariant ?_ ?_
  · rintro _ rfl
    exact inv_initial
  · intro r e t _ hi hs _
    rcases step_cases hs with ⟨x, s, -, hu, hstep, rfl⟩ | ⟨w, entry, -, -, rfl⟩
    · exact inv_server hi hu hstep
    · exact inv_forwardOut hi w

theorem server_reach {verify : Ed25519} {r : Routing} (h : (machine verify).Reach always r) :
    (SshServer.machine verify).Reach always r.server := by
  refine h.simulation Routing.server ?_ ?_
  · rintro _ rfl
    rfl
  · intro r e t _ ih hs _
    rcases step_cases hs with ⟨x, s, -, -, hstep, rfl⟩ | ⟨w, entry, -, -, rfl⟩
    · exact ih.step hstep trivial
    · exact ih

/-- The client was accepted with a certificate whose KeyID is the nickname, has not closed, and is the
one whose forward for the nickname was processed last. -/
structure Faithful (verify : Ed25519) (r : Routing) (nick : String) (c : ℕ) : Prop where
  accepted : ∃ record ∈ r.server.log, record.client = c ∧ record.decision verify = .accept nick ∧
    ∃ cert, presents record.ctx cert ∧ cert.keyId = nick
  opened : (r.server.clients c).closed = false
  last : lastForward r.forwards nick = some c

theorem Holds.faithful {verify : Ed25519} {r : Routing} (h : (machine verify).Reach always r)
    {nick : String} {c : ℕ} (hh : r.Holds nick c) : r.Faithful verify nick c := by
  obtain ⟨record, hmem, nick', hclient, -, hnick, haccept⟩ :=
    (SshServer.authInv_reach (server_reach h)).proved c hh.authenticated
  rw [hh.deviceNick] at hnick
  cases hnick
  obtain ⟨cfg, cert, -, hpresents, hkey, -⟩ := (handleAuth_accept_iff verify _ _ _ _).mp haccept
  exact ⟨⟨record, hmem, hclient, haccept, cert, hpresents, hkey⟩, hh.opened, hh.last⟩

/-- Over every run: whom the registry maps a nickname to bears it by right, the close of another
client leaves the entry alone, and `connect` asks only such clients. -/
theorem routing_faithful (verify : Ed25519) (r : Routing) (h : (machine verify).Reach always r) :
    (∀ nick entry, r.server.registry.get nick = some entry → r.Faithful verify nick entry.client) ∧
    (∀ c t, (machine verify).step r (.server (.closed c)) = some t → ∀ nick entry,
      r.server.registry.get nick = some entry → entry.client ≠ c →
        t.server.registry.get nick = some entry) ∧
    ∀ w entry t, (machine verify).step r (.forwardOut w entry) = some t →
      r.Faithful verify (r.callers w) entry.client := by
  have hinv := inv_reach h
  refine ⟨fun nick entry he => (hinv.registered nick entry he).faithful h, ?_, ?_⟩
  · intro c t hs nick entry he hother
    rcases step_cases hs with ⟨x, s, hx, -, hstep, rfl⟩ | ⟨w, entry', hx, -⟩
    · cases hx
      cases SshServer.effect_of_step hstep
      obtain ⟨registry, heq, -, hkept, -⟩ := onClose_cases r.server c
      rw [heq]
      exact hkept nick entry he hother
    · contradiction
  · intro w entry t hs
    rcases step_cases hs with ⟨x, s, hx, -⟩ | ⟨w', entry', hx, hmem, -⟩
    · contradiction
    · cases hx
      exact (hinv.resolved w entry hmem).faithful h

/-- The device comes back on a second connection while the first is still there, and that one closes
late. -/
def zombieRun : List Event :=
  SshServer.sampleRun.map .server ++ [.server .connection,
    .server (.authentication 1 1700000000000 SshServer.copiedCertificate),
    .server (.request 1 "tcpip-forward" none), .server (.closed 0), .server (.connect "q1")]

theorem zombieRun_faithful :
    ((machine SshServer.caOnly).after always initial zombieRun).resolved = [(0, ⟨1, "127.0.0.1", 0⟩)] ∧
      ((machine SshServer.caOnly).after always initial zombieRun).Faithful SshServer.caOnly "q1" 1 :=
  ⟨by decide +kernel, (routing_faithful SshServer.caOnly _ ((Machine.Reach.init rfl).after zombieRun)).1
    "q1" ⟨1, "127.0.0.1", 0⟩ (by decide +kernel)⟩

end Routing

end UnoQ.Ssh
