import UnoQ.Cloud.References

/-!
# The clients of cloud entries

A connect that has not settled is the pending one of its entry, and the entry has no client. A call
that awaits a connect finds, once that has succeeded, its client to be the client of the entry. An
entry keeps its client until it is torn down.
-/

namespace UnoQ.Cloud
open Transition

def Phase.connecting : Phase → Bool
  | .opening _ => true
  | .awaiting _ => true
  | _ => false

namespace CloudClientManager

/-- What awaiting the connect of client `c` for entry `e` comes to. -/
def Due (s : CloudClientManager) (e c : ℕ) : Prop :=
  match (s.clients c).state with
  | .connecting => (s.clients c).entry = e
  | .connected => (s.heap e).client = some c
  | .failed => True
  | .disconnected => False

theorem due_congr {s t : CloudClientManager} {e c : ℕ}
    (hstate : (t.clients c).state = (s.clients c).state)
    (hentry : (t.clients c).entry = (s.clients c).entry)
    (hclient : (t.heap e).client = (s.heap e).client) : t.Due e c ↔ s.Due e c := by
  unfold Due
  rw [hstate, hentry, hclient]

structure Pending (s : CloudClientManager) (e c : ℕ) : Prop where
  lt : c < s.nextClient
  entry : (s.clients c).entry = e
  opener : ∃ i, (s.subs i).phase = .opening c ∧ (s.subs i).entry = e
  due : s.Due e c
  vacant : (s.clients c).state ≠ .connected → (s.heap e).client = none

structure Link (s : CloudClientManager) : Prop where
  fresh : ∀ c, s.nextClient ≤ c → s.clients c = .absent
  opening : ∀ i c, (s.subs i).phase = .opening c →
    (s.heap (s.subs i).entry).pendingConnect = some c
  opener : ∀ i j c c', (s.subs i).phase = .opening c → (s.subs j).phase = .opening c' →
    (s.subs i).entry = (s.subs j).entry → i = j
  pending : ∀ e c, (s.heap e).pendingConnect = some c → s.Pending e c
  connecting : ∀ c, (s.clients c).state = .connecting →
    (s.heap (s.clients c).entry).pendingConnect = some c
  client : ∀ e c, (s.heap e).client = some c →
    (s.clients c).state = .connected ∧ (s.clients c).entry = e
  awaiting : ∀ i c, (s.subs i).phase = .awaiting c → c < s.nextClient ∧ s.Due (s.subs i).entry c
  silent : ∀ c, (s.clients c).state = .connecting → (s.clients c).registrations = []

theorem link_initial : initial.Link where
  fresh c _ := rfl
  opening i c h := by simp [initial, Subscription.absent] at h
  opener i j c c' h := by simp [initial, Subscription.absent] at h
  pending e c h := by simp [initial, ClientEntry.new] at h
  connecting c h := by simp [initial, CloudClient.absent] at h
  client e c h := by simp [initial, ClientEntry.new] at h
  awaiting i c h := by simp [initial, Subscription.absent] at h
  silent c _ := rfl

/-- A client whose connect was awaited is still there when the call goes on. -/
theorem Link.connected {s : CloudClientManager} (h : s.Link) {i c : ℕ}
    (hi : (s.subs i).phase = .awaiting c)
    (hc : (s.clients c).state = .connected ∨ (s.clients c).state = .disconnected) :
    (s.clients c).state = .connected ∧ (s.heap (s.subs i).entry).client = some c := by
  have hdue := (h.awaiting i c hi).2
  unfold Due at hdue
  rcases hc with hc | hc
  · rw [hc] at hdue
    exact ⟨hc, hdue⟩
  · rw [hc] at hdue
    exact hdue.elim

theorem Link.client_lt {s : CloudClientManager} (h : s.Link) {c : ℕ}
    (hc : (s.clients c).state ≠ .failed) : c < s.nextClient := by
  by_contra hlt
  rw [h.fresh c (by omega)] at hc
  exact hc rfl

/-- No two entries have one client. -/
theorem Link.client_inj {s : CloudClientManager} (h : s.Link) {e e' c : ℕ}
    (he : (s.heap e).client = some c) (he' : (s.heap e').client = some c) : e = e' :=
  (h.client e c he).2.symm.trans (h.client e' c he').2

/-- A step that leaves the connects alone. A subscription may leave `ensureConnected`. -/
theorem Link.quiet {s t : CloudClientManager} (h : s.Link)
    (hheap : ∀ e, (t.heap e).client = (s.heap e).client ∧
      (t.heap e).pendingConnect = (s.heap e).pendingConnect)
    (hnext : t.nextClient = s.nextClient)
    (hclients : ∀ c, t.clients c = s.clients c ∨
      (s.clients c).state = .connected ∧ (t.clients c).state = .connected ∧
        (t.clients c).entry = (s.clients c).entry)
    (hsubs : ∀ i, (t.subs i).entry = (s.subs i).entry ∧
      ((t.subs i).phase = (s.subs i).phase ∨
        (∀ c, (s.subs i).phase ≠ .opening c) ∧ (t.subs i).phase.connecting = false)) : t.Link := by
  have hstate : ∀ c, (t.clients c).state = (s.clients c).state ∧
      (t.clients c).entry = (s.clients c).entry := by
    intro c
    rcases hclients c with hc | ⟨hs, ht, he⟩
    · rw [hc]
      exact ⟨rfl, rfl⟩
    · exact ⟨ht.trans hs.symm, he⟩
  have hdue : ∀ e c, t.Due e c ↔ s.Due e c :=
    fun e c => due_congr (hstate c).1 (hstate c).2 (hheap e).1
  have hopening : ∀ i c, (t.subs i).phase = .opening c → (s.subs i).phase = .opening c := by
    intro i c hi
    rcases (hsubs i).2 with hp | ⟨-, hp⟩
    · rw [← hp]
      exact hi
    · rw [hi] at hp
      contradiction
  constructor
  · intro c hc
    rcases hclients c with heq | ⟨hs, -⟩
    · rw [heq]
      exact h.fresh c (by omega)
    · rw [h.fresh c (by omega)] at hs
      contradiction
  · intro i c hi
    rw [(hsubs i).1, (hheap _).2]
    exact h.opening i c (hopening i c hi)
  · intro i j c c' hi hj he
    rw [(hsubs i).1, (hsubs j).1] at he
    exact h.opener i j c c' (hopening i c hi) (hopening j c' hj) he
  · intro e c hp
    rw [(hheap e).2] at hp
    have hpend := h.pending e c hp
    constructor
    · rw [hnext]
      exact hpend.lt
    · rw [(hstate c).2]
      exact hpend.entry
    · obtain ⟨i, hi, he⟩ := hpend.opener
      refine ⟨i, ?_, (hsubs i).1.trans he⟩
      rcases (hsubs i).2 with hsame | ⟨hne, -⟩
      · rw [hsame, hi]
      · exact absurd hi (hne c)
    · exact (hdue e c).mpr hpend.due
    · rw [(hstate c).1, (hheap e).1]
      exact hpend.vacant
  · intro c hc
    rw [(hstate c).1] at hc
    rw [(hstate c).2, (hheap _).2]
    exact h.connecting c hc
  · intro e c he
    rw [(hheap e).1] at he
    rw [(hstate c).1, (hstate c).2]
    exact h.client e c he
  · intro i c hi
    have hold : (s.subs i).phase = .awaiting c := by
      rcases (hsubs i).2 with hp | ⟨-, hp⟩
      · rw [← hp]
        exact hi
      · rw [hi] at hp
        contradiction
    rw [hnext, (hsubs i).1, hdue]
    exact h.awaiting i c hold
  · intro c hc
    rcases hclients c with heq | ⟨-, ht, -⟩
    · rw [heq] at hc ⊢
      exact h.silent c hc
    · rw [ht] at hc
      contradiction

theorem link_modify {s : CloudClientManager} (h : s.Link) (e : ℕ) (f : ClientEntry → ClientEntry)
    (hf : ∀ entry, (f entry).client = entry.client ∧
      (f entry).pendingConnect = entry.pendingConnect) : (s.setEntry e (f (s.heap e))).Link := by
  refine h.quiet (fun x => ?_) rfl (fun _ => Or.inl rfl) (fun _ => ⟨rfl, Or.inl rfl⟩)
  rw [setEntry_modify]
  split
  · exact hf _
  · exact ⟨rfl, rfl⟩

theorem link_addRef {s : CloudClientManager} (h : s.Link) (e : ℕ) (n : ℤ) : (s.addRef e n).Link :=
  link_modify h e (fun entry => { entry with refCount := entry.refCount + n }) fun _ => ⟨rfl, rfl⟩

theorem link_setPhase {s : CloudClientManager} (h : s.Link) {i : ℕ} (phase : Phase)
    (hi : ∀ c, (s.subs i).phase ≠ .opening c) (hphase : phase.connecting = false) :
    (s.setPhase i phase).Link := by
  refine h.quiet (fun _ => ⟨rfl, rfl⟩) rfl (fun _ => Or.inl rfl) fun x => ?_
  refine ⟨(setPhase_static s i x phase).1, ?_⟩
  rw [setPhase_phase]
  split
  next hx =>
    rw [hx]
    exact Or.inr ⟨hi, hphase⟩
  · exact Or.inl rfl

/-! ### A call begins -/

theorem link_newEntry {s : CloudClientManager} (h : s.Link) (hr : s.Refs) (credentialKey : String) :
    (s.newEntry credentialKey).Link := by
  have hold : ∀ i, (s.subs i).phase.holding = true →
      (s.newEntry credentialKey).heap (s.subs i).entry = s.heap (s.subs i).entry := by
    intro i hi
    have := hr.entry_lt hi
    rw [newEntry_heap, if_neg (by omega)]
  have hpend : ∀ e c, (s.heap e).pendingConnect = some c →
      (s.newEntry credentialKey).heap e = s.heap e := by
    intro e c he
    obtain ⟨i, hi, rfl⟩ := (h.pending e c he).opener
    exact hold i (by rw [hi]; rfl)
  have hdue : ∀ e c, (s.newEntry credentialKey).heap e = s.heap e → s.Due e c →
      (s.newEntry credentialKey).Due e c :=
    fun e c he =>
      (due_congr (s := s) (t := s.newEntry credentialKey) rfl rfl (by rw [he])).mpr
  constructor
  · exact h.fresh
  · intro i c hi
    have hi' : (s.subs i).phase = .opening c := hi
    change ((s.newEntry credentialKey).heap (s.subs i).entry).pendingConnect = some c
    rw [hold i (by rw [hi']; rfl)]
    exact h.opening i c hi
  · exact h.opener
  · intro e c he
    rw [newEntry_heap] at he
    split at he
    · contradiction
    · have hp := h.pending e c he
      have hsame := hpend e c he
      refine ⟨hp.lt, hp.entry, hp.opener, hdue e c hsame hp.due, ?_⟩
      rw [hsame]
      exact hp.vacant
  · intro c hc
    have hp := h.connecting c hc
    change ((s.newEntry credentialKey).heap (s.clients c).entry).pendingConnect = some c
    rw [hpend _ c hp]
    exact hp
  · intro e c he
    rw [newEntry_heap] at he
    split at he
    · contradiction
    · exact h.client e c he
  · intro i c hi
    have hi' : (s.subs i).phase = .awaiting c := hi
    obtain ⟨hlt, hd⟩ := h.awaiting i c hi
    exact ⟨hlt, hdue _ c (hold i (by rw [hi']; rfl)) hd⟩
  · exact h.silent

/-- A subscription is added that awaits a connect there is. -/
theorem link_await {s : CloudClientManager} (h : s.Link)
    (hborn : ∀ i, (s.subs i).phase.holding = true → i < s.nextSub) {sub : Subscription} {c : ℕ}
    (hphase : sub.phase = .awaiting c) (hlt : c < s.nextClient) (hdue : s.Due sub.entry c) :
    (s.addSub sub).Link := by
  have hsubs := addSub_subs s sub
  have hopening : ∀ i c', ((s.addSub sub).subs i).phase = .opening c' →
      (s.addSub sub).subs i = s.subs i := by
    intro i c' hi
    rw [hsubs] at hi ⊢
    split at hi
    · rw [hphase] at hi
      contradiction
    next hne => rw [if_neg hne]
  constructor
  · exact h.fresh
  · intro i c' hi
    have hsame := hopening i c' hi
    rw [hsame] at hi ⊢
    exact h.opening i c' hi
  · intro i j c₁ c₂ hi hj he
    have hoi := hopening i c₁ hi
    have hoj := hopening j c₂ hj
    rw [hoi] at hi he
    rw [hoj] at hj he
    exact h.opener i j c₁ c₂ hi hj he
  · intro e c' he
    have hp := h.pending e c' he
    obtain ⟨i, hi, hie⟩ := hp.opener
    refine ⟨hp.lt, hp.entry, ⟨i, ?_⟩, hp.due, hp.vacant⟩
    have hlti := hborn i (by rw [hi]; rfl)
    rw [hsubs, if_neg (by omega)]
    exact ⟨hi, hie⟩
  · exact h.connecting
  · exact h.client
  · intro i c' hi
    rw [hsubs] at hi ⊢
    split at hi
    next hnew =>
      rw [hphase] at hi
      cases hi
      rw [if_pos hnew]
      exact ⟨hlt, hdue⟩
    next hne =>
      rw [if_neg hne]
      exact h.awaiting i c' hi
  · exact h.silent

theorem newConnect_heap (s : CloudClientManager) (e : ℕ) (credential : CloudCredential) (x : ℕ) :
    (s.newConnect e credential).heap x =
      if x = e then { s.heap x with pendingConnect := some s.nextClient } else s.heap x :=
  setEntry_modify s e x fun entry => { entry with pendingConnect := some s.nextClient }

theorem newConnect_clients (s : CloudClientManager) (e : ℕ) (credential : CloudCredential) (c : ℕ) :
    (s.newConnect e credential).clients c =
      if c = s.nextClient then ⟨e, credential.clientId, credential.clientSecret, .connecting, []⟩
      else s.clients c :=
  setClient_clients s s.nextClient c _

/-- A subscription is added that makes the client of its entry. -/
theorem link_open {s t : CloudClientManager} (h : s.Link)
    (hborn : ∀ i, (s.subs i).phase.holding = true → i < s.nextSub) {sub : Subscription}
    {client : CloudClient} (hphase : sub.phase = .opening s.nextClient)
    (hvacant : (s.heap sub.entry).client = none)
    (hpending : (s.heap sub.entry).pendingConnect = none)
    (hentry : client.entry = sub.entry) (hstate : client.state = .connecting)
    (hsilent : client.registrations = [])
    (hheap : ∀ x, t.heap x = if x = sub.entry then
      { s.heap x with pendingConnect := some s.nextClient } else s.heap x)
    (hclients : ∀ c, t.clients c = if c = s.nextClient then client else s.clients c)
    (hnext : t.nextClient = s.nextClient + 1)
    (hsubs : ∀ i, t.subs i = if i = s.nextSub then sub else s.subs i) : t.Link := by
  have hsame : ∀ e, (t.heap e).client = (s.heap e).client := by
    intro e
    rw [hheap]
    split <;> rfl
  have hold : ∀ c, c < s.nextClient → t.clients c = s.clients c := by
    intro c hlt
    rw [hclients, if_neg (by omega)]
  have hdue : ∀ e c, c < s.nextClient → s.Due e c → t.Due e c := by
    intro e c hlt
    exact (due_congr (by rw [hold c hlt]) (by rw [hold c hlt]) (hsame e)).mpr
  -- Nobody is opening for this entry, which has no pending connect.
  have hnobody : ∀ i c, (s.subs i).phase = .opening c → (s.subs i).entry ≠ sub.entry := by
    intro i c hi he
    have := h.opening i c hi
    rw [he, hpending] at this
    contradiction
  constructor
  · intro c hc
    rw [hclients, if_neg (by omega)]
    exact h.fresh c (by omega)
  · intro i c hi
    rw [hsubs] at hi ⊢
    rw [hheap]
    split at hi
    next hi' =>
      rw [hphase] at hi
      cases hi
      rw [if_pos hi', if_pos rfl]
    next hi' =>
      rw [if_neg hi', if_neg (hnobody i c hi)]
      exact h.opening i c hi
  · intro i j c c' hi hj he
    rw [hsubs] at hi hj he
    rw [hsubs j] at he
    split at hi <;> split at hj
    next hi' hj' => rw [hi', hj']
    next hi' hj' =>
      rw [if_pos hi', if_neg hj'] at he
      exact absurd he.symm (hnobody j c' hj)
    next hi' hj' =>
      rw [if_neg hi', if_pos hj'] at he
      exact absurd he (hnobody i c hi)
    next hi' hj' =>
      rw [if_neg hi', if_neg hj'] at he
      exact h.opener i j c c' hi hj he
  · intro e c he
    rw [hheap] at he
    split at he
    next heq =>
      subst heq
      cases he
      have hnew : t.clients s.nextClient = client := by rw [hclients, if_pos rfl]
      constructor
      · omega
      · rw [hnew, hentry]
      · refine ⟨s.nextSub, ?_⟩
        rw [hsubs, if_pos rfl]
        exact ⟨hphase, rfl⟩
      · unfold Due
        rw [hnew, hstate]
        exact hentry
      · exact fun _ => (hsame _).trans hvacant
    next hne =>
      have hp := h.pending e c he
      have hlt := hp.lt
      obtain ⟨i, hi, hie⟩ := hp.opener
      have hlti := hborn i (by rw [hi]; rfl)
      constructor
      · omega
      · rw [hold c hlt]
        exact hp.entry
      · refine ⟨i, ?_⟩
        rw [hsubs, if_neg (by omega)]
        exact ⟨hi, hie⟩
      · exact hdue e c hlt hp.due
      · rw [hold c hlt, hsame]
        exact hp.vacant
  · intro c hc
    rw [hclients] at hc ⊢
    rw [hheap]
    split at hc
    next hc' => rw [if_pos hc', if_pos hentry, hc']
    next hc' =>
      have hp := h.connecting c hc
      have hne : (s.clients c).entry ≠ sub.entry := by
        intro he
        rw [he, hpending] at hp
        contradiction
      rw [if_neg hc', if_neg hne]
      exact hp
  · intro e c he
    rw [hsame] at he
    have hc := h.client e c he
    have hlt := h.client_lt (c := c) (by simp [hc.1])
    rw [hold c hlt]
    exact hc
  · intro i c hi
    rw [hsubs] at hi ⊢
    split at hi
    · rw [hphase] at hi
      contradiction
    next hi' =>
      obtain ⟨hlt, hd⟩ := h.awaiting i c hi
      rw [if_neg hi']
      exact ⟨by omega, hdue _ c hlt hd⟩
  · intro c hc
    rw [hclients] at hc ⊢
    split
    · exact hsilent
    next hne =>
      rw [if_neg hne] at hc
      exact h.silent c hc

theorem link_getEntry {s : CloudClientManager} (h : s.Link) (hr : s.Refs) (credentialKey : String) :
    (s.getEntry credentialKey).1.Link := by
  unfold getEntry
  split
  · exact h
  · exact link_newEntry h hr credentialKey

/-- A call goes on with what `ensureConnected` gives it, if its entry is in the map. -/
theorem link_ensureConnected {s : CloudClientManager} (h : s.Link)
    (hborn : ∀ i, (s.subs i).phase.holding = true → i < s.nextSub)
    (credential : CloudCredential) (sub : Subscription)
    (hphase : sub.phase = (s.ensureConnected sub.entry credential).2) :
    ((s.ensureConnected sub.entry credential).1.addSub sub).Link := by
  unfold ensureConnected at hphase ⊢
  split at hphase
  next c hc =>
    obtain ⟨hstate, -⟩ := h.client _ c hc
    refine link_await h hborn hphase (h.client_lt (by simp [hstate])) ?_
    unfold Due
    rw [hstate]
    exact hc
  next hc =>
    split at hphase
    next c hp =>
      have hpend := h.pending _ c hp
      exact link_await h hborn hphase hpend.lt hpend.due
    next hp =>
      refine link_open h hborn hphase hc hp rfl rfl rfl ?_ (newConnect_clients s _ credential) rfl
        (addSub_subs (s.newConnect sub.entry credential) sub)
      exact newConnect_heap s _ credential

theorem link_subscribe {s : CloudClientManager} (h : s.Link) (hr : s.Refs) (credentialKey : String)
    (credential : CloudCredential) (thingId variableName : String) (handler : ℕ) :
    (s.subscribe credentialKey credential thingId variableName handler).Link := by
  have hgot := link_getEntry h hr credentialKey
  have hrgot := (refs_getEntry hr credentialKey).1
  unfold subscribe
  generalize s.getEntry credentialKey = got at hgot hrgot
  obtain ⟨s, e⟩ := got
  dsimp only at hgot hrgot ⊢
  exact link_ensureConnected (link_addRef hgot e 1) (fun i hi => hrgot.born hi) credential
    ⟨credentialKey, thingId, variableName, handler, e, _⟩ rfl

/-! ### A connect settles -/

theorem setState_state (s : CloudClientManager) (c x : ℕ) (state : ClientState) :
    ((s.setState c state).clients x).state = if x = c then state else (s.clients x).state := by
  unfold setState
  rw [setClient_clients]
  split <;> rfl

theorem setState_rest (s : CloudClientManager) (c x : ℕ) (state : ClientState) :
    ((s.setState c state).clients x).entry = (s.clients x).entry ∧
      ((s.setState c state).clients x).registrations = (s.clients x).registrations := by
  unfold setState
  rw [setClient_clients]
  split
  next hx => rw [hx]; exact ⟨rfl, rfl⟩
  · exact ⟨rfl, rfl⟩

theorem connected_heap (s : CloudClientManager) (c x : ℕ) :
    (s.connected c).heap x =
      if x = (s.clients c).entry then { s.heap x with client := some c } else s.heap x :=
  setEntry_modify s _ x fun entry => { entry with client := some c }

/-- The connect of client `c` succeeds, which makes `c` the client of its entry, or it fails. -/
theorem link_settle {s t : CloudClientManager} (h : s.Link) {c : ℕ} {state : ClientState}
    (hc : (s.clients c).state = .connecting) (hsettled : state = .connected ∨ state = .failed)
    (hclients : t.clients = (s.setState c state).clients) (hnext : t.nextClient = s.nextClient)
    (hsubs : t.subs = s.subs)
    (hpending : ∀ e, (t.heap e).pendingConnect = (s.heap e).pendingConnect)
    (hclient : ∀ e, (t.heap e).client =
      if e = (s.clients c).entry ∧ state = .connected then some c else (s.heap e).client) :
    t.Link := by
  have hstate : ∀ x, (t.clients x).state = if x = c then state else (s.clients x).state := by
    intro x
    rw [hclients, setState_state]
  have hrest : ∀ x, (t.clients x).entry = (s.clients x).entry ∧
      (t.clients x).registrations = (s.clients x).registrations := by
    intro x
    rw [hclients]
    exact setState_rest s c x state
  have hne : state ≠ .connecting := by rcases hsettled with rfl | rfl <;> simp
  have hpc := h.connecting c hc
  have hvacant := (h.pending _ c hpc).vacant (by simp [hc])
  have hkept : ∀ e x, (s.heap e).client = some x → (t.heap e).client = some x := by
    intro e x he
    rw [hclient, if_neg]
    · exact he
    · rintro ⟨rfl, -⟩
      rw [hvacant] at he
      contradiction
  have hdue : ∀ e x, s.Due e x → t.Due e x := by
    intro e x hd
    unfold Due at hd ⊢
    rw [hstate, (hrest x).1]
    by_cases hx : x = c
    · subst hx
      rw [hc] at hd
      rw [if_pos rfl]
      rcases hsettled with rfl | rfl
      · exact (hclient e).trans (if_pos ⟨hd.symm, rfl⟩)
      · trivial
    · rw [if_neg hx]
      cases hs : (s.clients x).state with
      | connected =>
        rw [hs] at hd
        exact hkept e x hd
      | connecting =>
        rw [hs] at hd
        exact hd
      | failed => trivial
      | disconnected =>
        rw [hs] at hd
        exact hd
  constructor
  · intro x hx
    rw [hnext] at hx
    have hxc : x ≠ c := by
      rintro rfl
      rw [h.fresh x hx] at hc
      contradiction
    rw [hclients]
    exact ((setClient_clients s c x _).trans (if_neg hxc)).trans (h.fresh x hx)
  · intro i x hi
    rw [hsubs] at hi ⊢
    exact (hpending _).trans (h.opening i x hi)
  · rw [hsubs]
    exact h.opener
  · intro e x he
    rw [hpending] at he
    have hp := h.pending e x he
    constructor
    · rw [hnext]
      exact hp.lt
    · exact (hrest x).1.trans hp.entry
    · rw [hsubs]
      exact hp.opener
    · exact hdue e x hp.due
    · intro hx
      rw [hstate] at hx
      rw [hclient, if_neg]
      · by_cases hxc : x = c
        · rw [hxc] at hp
          exact hp.vacant (by simp [hc])
        · rw [if_neg hxc] at hx
          exact hp.vacant hx
      · rintro ⟨rfl, hconn⟩
        rw [hpc] at he
        rw [if_pos (Option.some.inj he).symm] at hx
        exact hx hconn
  · intro x hx
    rw [hstate] at hx
    split at hx
    · exact absurd hx hne
    · rw [(hrest x).1, hpending]
      exact h.connecting x hx
  · intro e x he
    rw [hstate, (hrest x).1]
    rw [hclient] at he
    split at he
    next heq =>
      cases he
      rw [if_pos rfl]
      exact ⟨heq.2, heq.1.symm⟩
    next =>
      obtain ⟨hs, hentry⟩ := h.client e x he
      rw [if_neg]
      · exact ⟨hs, hentry⟩
      · rintro rfl
        rw [hc] at hs
        contradiction
  · intro i x hi
    rw [hsubs] at hi ⊢
    obtain ⟨hlt, hd⟩ := h.awaiting i x hi
    rw [hnext]
    exact ⟨hlt, hdue _ x hd⟩
  · intro x hx
    rw [hstate] at hx
    rw [(hrest x).2]
    split at hx
    · exact absurd hx hne
    · exact h.silent x hx

theorem link_connected {s : CloudClientManager} (h : s.Link) {c : ℕ}
    (hc : (s.clients c).state = .connecting) : (s.connected c).Link := by
  refine link_settle h hc (Or.inl rfl) rfl rfl rfl ?_ ?_
  · intro e
    rw [connected_heap]
    split <;> rfl
  · intro e
    rw [connected_heap]
    split
    next he => rw [if_pos ⟨he, rfl⟩]
    next he => rw [if_neg fun h => he h.1]

theorem link_connectFailed {s : CloudClientManager} (h : s.Link) {c : ℕ}
    (hc : (s.clients c).state = .connecting) : (s.setState c .failed).Link := by
  refine link_settle h hc (Or.inr rfl) rfl rfl rfl (fun _ => rfl) ?_
  intro e
  rw [if_neg (by simp)]
  rfl

theorem connectSettled_heap (s : CloudClientManager) (i c x : ℕ) :
    (s.connectSettled i c).heap x =
      if x = (s.subs i).entry then { s.heap x with pendingConnect := none } else s.heap x :=
  setEntry_modify s _ x fun entry => { entry with pendingConnect := none }

/-- The call that made the client of its entry leaves the `try`. -/
theorem link_connectSettled {s : CloudClientManager} (h : s.Link) {i c : ℕ}
    (hi : (s.subs i).phase = .opening c) (hc : (s.clients c).state ≠ .connecting) :
    (s.connectSettled i c).Link := by
  have hheap := connectSettled_heap s i c
  have hphase : ∀ x, ((s.connectSettled i c).subs x).phase =
      if x = i then .awaiting c else (s.subs x).phase := fun x => setPhase_phase _ i x _
  have hentry : ∀ x, ((s.connectSettled i c).subs x).entry = (s.subs x).entry :=
    fun x => (setPhase_static _ i x _).1
  have hopening : ∀ x c', ((s.connectSettled i c).subs x).phase = .opening c' →
      x ≠ i ∧ (s.subs x).phase = .opening c' := by
    intro x c' hx
    rw [hphase] at hx
    split at hx
    · contradiction
    next hne => exact ⟨hne, hx⟩
  have hpend := h.pending _ c (h.opening i c hi)
  have hclient : ∀ e, ((s.connectSettled i c).heap e).client = (s.heap e).client := by
    intro e
    rw [hheap]
    split <;> rfl
  have hdue : ∀ e x, s.Due e x → (s.connectSettled i c).Due e x := by
    intro e x hd
    exact (due_congr (s := s) (t := s.connectSettled i c) rfl rfl (hclient e)).mpr hd
  -- The pending connects of the other entries stay.
  have hold : ∀ e x, ((s.connectSettled i c).heap e).pendingConnect = some x →
      e ≠ (s.subs i).entry ∧ (s.heap e).pendingConnect = some x := by
    intro e x he
    rw [hheap] at he
    split at he
    · contradiction
    next hne => exact ⟨hne, he⟩
  have hkept : ∀ e, e ≠ (s.subs i).entry → (s.connectSettled i c).heap e = s.heap e := by
    intro e he
    rw [hheap, if_neg he]
  constructor
  · exact h.fresh
  · intro x c' hx
    obtain ⟨hne, hx⟩ := hopening x c' hx
    rw [hentry, hkept]
    · exact h.opening x c' hx
    · exact fun he => hne (h.opener x i c' c hx hi he)
  · intro x y c₁ c₂ hx hy he
    obtain ⟨-, hx⟩ := hopening x c₁ hx
    obtain ⟨-, hy⟩ := hopening y c₂ hy
    rw [hentry, hentry] at he
    exact h.opener x y c₁ c₂ hx hy he
  · intro e x he
    obtain ⟨hne, he⟩ := hold e x he
    have hp := h.pending e x he
    refine ⟨hp.lt, hp.entry, ?_, hdue e x hp.due, ?_⟩
    · obtain ⟨y, hy, hye⟩ := hp.opener
      refine ⟨y, ?_, (hentry y).trans hye⟩
      rw [hphase, if_neg]
      · exact hy
      · rintro rfl
        exact hne hye.symm
    · rw [hclient]
      exact hp.vacant
  · intro x hx
    have hp := h.connecting x hx
    change ((s.connectSettled i c).heap (s.clients x).entry).pendingConnect = some x
    rw [hkept]
    · exact hp
    · intro he
      rw [he, h.opening i c hi] at hp
      cases hp
      exact hc hx
  · intro e x he
    rw [hclient] at he
    exact h.client e x he
  · intro x c' hx
    rw [hphase] at hx
    rw [hentry]
    split at hx
    next hxi =>
      cases hx
      rw [hxi]
      exact ⟨hpend.lt, hdue _ c hpend.due⟩
    · obtain ⟨hlt, hd⟩ := h.awaiting x c' hx
      exact ⟨hlt, hdue _ c' hd⟩
  · exact h.silent

/-! ### An entry is torn down -/

/-- Nobody uses the entry any more, so nobody misses its client. -/
theorem link_teardown {s : CloudClientManager} (h : s.Link) {key : String} {e : ℕ}
    (hunused : ∀ i, (s.subs i).phase.holding = true → (s.subs i).entry ≠ e) :
    (s.teardown key e).Link := by
  obtain ⟨-, -, -, hsubs, -, -, hnext, -⟩ := teardown_rest s key e
  have hheap := teardown_heap s key e
  have hclients := teardown_clients s key e
  have hpending : ∀ x, ((s.teardown key e).heap x).pendingConnect = (s.heap x).pendingConnect := by
    intro x
    rw [hheap]
    split
    next hx => rw [hx]
    · rfl
  have hother : ∀ x, x ≠ e → (s.teardown key e).heap x = s.heap x := by
    intro x hx
    rw [hheap, if_neg hx]
  have hrest : ∀ c, ((s.teardown key e).clients c).entry = (s.clients c).entry ∧
      ((s.teardown key e).clients c).registrations = (s.clients c).registrations := by
    intro c
    rw [hclients]
    split <;> exact ⟨rfl, rfl⟩
  have hconnecting : ∀ c, ((s.teardown key e).clients c).state = .connecting →
      (s.clients c).state = .connecting := by
    intro c hc
    rw [hclients] at hc
    split at hc
    · contradiction
    · exact hc
  have hdue : ∀ x c, x ≠ e → s.Due x c → (s.teardown key e).Due x c := by
    intro x c hx hd
    by_cases hc : (s.heap e).client = some c
    · unfold Due at hd
      rw [(h.client e c hc).1] at hd
      exact absurd (h.client_inj hd hc) hx
    · have hsame : (s.teardown key e).clients c = s.clients c := by rw [hclients, if_neg hc]
      exact (due_congr (by rw [hsame]) (by rw [hsame]) (by rw [hother x hx])).mpr hd
  constructor
  · intro c hc
    rw [hnext] at hc
    rw [hclients, if_neg]
    · exact h.fresh c hc
    · intro he
      have := (h.client e c he).1
      rw [h.fresh c hc] at this
      contradiction
  · intro i c hi
    rw [hsubs] at hi ⊢
    exact (hpending _).trans (h.opening i c hi)
  · rw [hsubs]
    exact h.opener
  · intro x c hx
    rw [hpending] at hx
    have hp := h.pending x c hx
    obtain ⟨i, hi, rfl⟩ := hp.opener
    have hne := hunused i (by rw [hi]; rfl)
    constructor
    · rw [hnext]
      exact hp.lt
    · exact (hrest c).1.trans hp.entry
    · rw [hsubs]
      exact hp.opener
    · exact hdue _ c hne hp.due
    · intro hc
      rw [hother _ hne]
      refine hp.vacant fun hstate => ?_
      rw [hclients, if_neg] at hc
      · exact hc hstate
      · intro he
        exact hne (hp.entry.symm.trans (h.client e c he).2)
  · intro c hc
    rw [(hrest c).1, hpending]
    exact h.connecting c (hconnecting c hc)
  · intro x c hx
    rw [hheap] at hx
    split at hx
    · contradiction
    next hne =>
      rw [(hrest c).1, hclients, if_neg]
      · exact h.client x c hx
      · exact fun he => hne (h.client_inj hx he)
  · intro i c hi
    rw [hsubs] at hi ⊢
    obtain ⟨hlt, hd⟩ := h.awaiting i c hi
    rw [hnext]
    exact ⟨hlt, hdue _ c (hunused i (by rw [hi]; rfl)) hd⟩
  · intro c hc
    rw [(hrest c).2]
    exact h.silent c (hconnecting c hc)

end CloudClientManager

end UnoQ.Cloud
