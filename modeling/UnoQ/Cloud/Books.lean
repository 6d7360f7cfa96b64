import UnoQ.Cloud.Invariant

/-!
# Counts and clients of cloud entries

In every run that calls each tear-down at most once, an entry that has left the map has count zero, a
connected client is the client of an entry that some subscription holds, and a disconnected one
belonged to an entry that has left the map.

A connect ends when the network answers. Promise jobs run first, so by then the calls whose connect
had failed have gone on to their `catch`.
-/

namespace UnoQ.Cloud
open Transition

namespace CloudClientManager

/-- The call awaits a connect that has failed, and its `catch` is due. -/
def Failing (s : CloudClientManager) (i : ℕ) : Prop :=
  match (s.subs i).phase with
  | .awaiting c => (s.clients c).state = .failed
  | _ => False

instance (s : CloudClientManager) (i : ℕ) : Decidable (s.Failing i) := by
  unfold Failing
  rcases (s.subs i).phase with _ | _ <;> infer_instance

/-- Each tear-down is called at most once, and a connect succeeds in a turn of its own. -/
def Paired : Guard CloudClientManager Event := fun s e _ =>
  match e with
  | .connected _ => ∀ i < s.nextSub, ¬ s.Failing i
  | .tearDown i => (s.subs i).phase = .resolved
  | _ => True

instance (s : CloudClientManager) :
    ∀ (e : Event) (t : CloudClientManager), Decidable (Paired s e t) := by
  rintro (_ | _) t <;> dsimp only [Paired] <;> infer_instance

/-! ### The invariant -/

structure Ledger (s : CloudClientManager) : Prop where
  refs : s.Refs
  link : s.Link
  inj : ∀ key key' e, s.entries.get key = some e → s.entries.get key' = some e → key = key'
  zero : ∀ e, s.Gone e → (s.heap e).refCount = 0
  client : ∀ c, (s.clients c).state = .connected → (s.heap (s.clients c).entry).client = some c
  left : ∀ c, (s.clients c).state = .disconnected →
    (s.clients c).entry < s.nextEntry ∧ s.Gone (s.clients c).entry
  vacant : ∀ i c, (s.subs i).phase = .awaiting c → (s.clients c).state = .failed →
    (s.heap (s.subs i).entry).client = none
  subscribing : ∀ i c set, (s.subs i).phase = .subscribing c set →
    (s.heap (s.subs i).entry).client = some c

/-- Some subscription holds the entry. -/
def Held (s : CloudClientManager) (e : ℕ) : Prop :=
  ∃ i, (s.subs i).phase.holding = true ∧ (s.subs i).entry = e

structure Books (s : CloudClientManager) : Prop extends Ledger s where
  held : ∀ c, (s.clients c).state = .connected → s.Held (s.clients c).entry

theorem books_initial : initial.Books where
  refs := refs_initial
  link := link_initial
  inj key key' e h := by simp [initial] at h
  zero e _ := rfl
  client c h := by simp [initial, CloudClient.absent] at h
  held c h := by simp [initial, CloudClient.absent] at h
  left c h := by simp [initial, CloudClient.absent] at h
  vacant i c h := by simp [initial, Subscription.absent] at h
  subscribing i c set h := by simp [initial, Subscription.absent] at h

/-- A step that changes no count and no client. A subscription may go on to await or to use the
client that its entry has. -/
theorem Books.quiet {s t : CloudClientManager} (h : s.Books) (hr : t.Refs) (hl : t.Link)
    (hentries : t.entries = s.entries) (hnext : t.nextEntry = s.nextEntry)
    (hheap : ∀ e, (t.heap e).refCount = (s.heap e).refCount ∧
      (t.heap e).client = (s.heap e).client)
    (hclients : ∀ c, (t.clients c).state = (s.clients c).state ∧
      (t.clients c).entry = (s.clients c).entry)
    (hsubs : ∀ i, (t.subs i).entry = (s.subs i).entry ∧
      (t.subs i).phase.holding = (s.subs i).phase.holding)
    (hawaiting : ∀ i c, (t.subs i).phase = .awaiting c → (s.subs i).phase = .awaiting c ∨
      ((s.clients c).state = .failed → (s.heap (s.subs i).entry).client = none))
    (hsubscribing : ∀ i c set, (t.subs i).phase = .subscribing c set →
      (s.subs i).phase = .subscribing c set ∨ (s.heap (s.subs i).entry).client = some c) :
    t.Books where
  refs := hr
  link := hl
  inj key key' e hkey hkey' := by
    rw [hentries] at hkey hkey'
    exact h.inj key key' e hkey hkey'
  zero e hgone := by
    rw [(hheap e).1]
    refine h.zero e fun key => ?_
    rw [← hentries]
    exact hgone key
  client c hc := by
    rw [(hclients c).1] at hc
    rw [(hclients c).2, (hheap _).2]
    exact h.client c hc
  held c hc := by
    rw [(hclients c).1] at hc
    obtain ⟨i, hi, he⟩ := h.held c hc
    refine ⟨i, (hsubs i).2.trans hi, ?_⟩
    rw [(hsubs i).1, (hclients c).2]
    exact he
  left c hc := by
    rw [(hclients c).1] at hc
    rw [(hclients c).2, hnext]
    refine ⟨(h.left c hc).1, fun key => ?_⟩
    rw [hentries]
    exact (h.left c hc).2 key
  vacant i c hi hc := by
    rw [(hclients c).1] at hc
    rw [(hsubs i).1, (hheap _).2]
    rcases hawaiting i c hi with hold | hnone
    · exact h.vacant i c hold hc
    · exact hnone hc
  subscribing i c set hi := by
    rw [(hsubs i).1, (hheap _).2]
    rcases hsubscribing i c set hi with hold | hclient
    · exact h.subscribing i c set hold
    · exact hclient

/-! ### Steps that end no subscription -/

theorem Books.delivery {s : CloudClientManager} (h : s.Books) (delivery : Option Delivery)
    (console : List String) : Books { s with delivery := delivery, console := console } := by
  obtain ⟨hr, hl⟩ := refs_link_delivery h.refs h.link delivery console
  exact h.quiet hr hl rfl rfl (fun _ => ⟨rfl, rfl⟩) (fun _ => ⟨rfl, rfl⟩) (fun _ => ⟨rfl, rfl⟩)
    (fun _ _ hi => Or.inl hi) fun _ _ _ hi => Or.inl hi

theorem books_connectSettled {s : CloudClientManager} (h : s.Books) {i c : ℕ}
    (hi : (s.subs i).phase = .opening c) (hc : (s.clients c).state ≠ .connecting) :
    (s.connectSettled i c).Books := by
  have hphase : ∀ x, ((s.connectSettled i c).subs x).phase =
      if x = i then .awaiting c else (s.subs x).phase := fun x => setPhase_phase _ i x _
  refine h.quiet (refs_connectSettled h.refs hi) (link_connectSettled h.link hi hc) rfl rfl ?_
    (fun _ => ⟨rfl, rfl⟩) ?_ ?_ ?_
  · intro e
    rw [connectSettled_heap]
    split <;> exact ⟨rfl, rfl⟩
  · intro x
    refine ⟨(setPhase_static _ i x _).1, ?_⟩
    rw [hphase]
    split
    next hx =>
      rw [hx, hi]
      rfl
    · rfl
  · intro x c' hx
    rw [hphase] at hx
    split at hx
    next hxi =>
      cases hx
      have hpending := h.link.pending _ c (h.link.opening i c hi)
      refine Or.inr fun hfailed => ?_
      rw [hxi]
      refine hpending.vacant ?_
      rw [hfailed]
      simp
    · exact Or.inl hx
  · intro x c' set hx
    rw [hphase] at hx
    split at hx
    · contradiction
    · exact Or.inl hx

/-- What joining changes: handlers, marks, and the phase of the subscription. -/
theorem join_rest (s : CloudClientManager) (i c : ℕ) :
    (s.join i c).entries = s.entries ∧ (s.join i c).nextEntry = s.nextEntry ∧
      (s.join i c).nextSub = s.nextSub ∧ (s.join i c).clients = s.clients ∧
      (s.join i c).nextClient = s.nextClient ∧
      (∀ x, ((s.join i c).heap x).refCount = (s.heap x).refCount ∧
        ((s.join i c).heap x).client = (s.heap x).client ∧
        ((s.join i c).heap x).pendingConnect = (s.heap x).pendingConnect) ∧
      ∃ phase, (phase = .resolved ∨ ∃ set, phase = .subscribing c set) ∧
        (s.join i c).subs = (s.setPhase i phase).subs := by
  obtain ⟨hentries, hnext, hsubs, hn, hclients, hnc, hheap⟩ :=
    getSet_rest s (s.subs i).entry (s.subs i).key
  unfold join
  dsimp only
  generalize s.getSet (s.subs i).entry (s.subs i).key = got at hentries hnext hsubs hn hclients hnc hheap
  obtain ⟨t, set⟩ := got
  dsimp only at hentries hnext hsubs hn hclients hnc hheap ⊢
  split
  · refine ⟨hentries, hnext, hn, hclients, hnc, ?_, .resolved, Or.inl rfl, ?_⟩
    · exact fun x => ⟨(hheap x).2.2.2, (hheap x).1, (hheap x).2.1⟩
    · unfold setPhase addHandler setHandlers
      dsimp only
      rw [hsubs]
  · refine ⟨hentries, hnext, hn, hclients, hnc, ?_, .subscribing c set, Or.inr ⟨set, rfl⟩, ?_⟩
    · intro x
      have hmark := mark_heap (t.addHandler set (s.subs i).handler) (s.subs i).entry (s.subs i).key x
      change ((mark _ _ _).heap x).refCount = _ ∧ ((mark _ _ _).heap x).client = _ ∧
        ((mark _ _ _).heap x).pendingConnect = _
      rw [hmark]
      split <;> exact ⟨(hheap x).2.2.2, (hheap x).1, (hheap x).2.1⟩
    · unfold setPhase mark addHandler setHandlers setEntry
      dsimp only
      rw [hsubs]

theorem books_join {s : CloudClientManager} (h : s.Books) {i c : ℕ}
    (hi : (s.subs i).phase = .awaiting c)
    (hclient : (s.heap (s.subs i).entry).client = some c) : (s.join i c).Books := by
  obtain ⟨hentries, hnext, hn, hclients, hnc, hheap, phase, hphase, hsubs⟩ := join_rest s i c
  have hto : phase.holding = true ∧ phase.connecting = false := by
    rcases hphase with rfl | ⟨set, rfl⟩ <;> exact ⟨rfl, rfl⟩
  have hsub : ∀ x, ((s.join i c).subs x).entry = (s.subs x).entry ∧
      ((s.join i c).subs x).credentialKey = (s.subs x).credentialKey ∧
      ((s.join i c).subs x).phase = if x = i then phase else (s.subs x).phase := by
    intro x
    rw [hsubs]
    exact ⟨(setPhase_static s i x phase).1, (setPhase_static s i x phase).2.1, setPhase_phase s i x _⟩
  have hholding : ∀ x, ((s.join i c).subs x).phase.holding = (s.subs x).phase.holding := by
    intro x
    rw [(hsub x).2.2]
    split
    next hx =>
      rw [hx, hi, hto.1]
      rfl
    · rfl
  refine h.quiet ?_ ?_ hentries hnext (fun e => ⟨(hheap e).1, (hheap e).2.1⟩)
    (fun x => ⟨by rw [hclients], by rw [hclients]⟩) (fun x => ⟨(hsub x).1, hholding x⟩) ?_ ?_
  · exact h.refs.quiet hentries hnext hn (fun e => (hheap e).1)
      fun x => ⟨(hsub x).1, (hsub x).2.1, hholding x⟩
  · refine h.link.quiet (fun e => (hheap e).2) hnc (fun x => Or.inl (congrFun hclients x)) fun x => ?_
    refine ⟨(hsub x).1, ?_⟩
    rw [(hsub x).2.2]
    split
    next hx =>
      rw [hx, hi]
      exact Or.inr ⟨by simp, hto.2⟩
    · exact Or.inl rfl
  · intro x c' hx
    rw [(hsub x).2.2] at hx
    split at hx
    · rw [hx] at hto
      exact absurd hto.2 (by simp [Phase.connecting])
    · exact Or.inl hx
  · intro x c' set hx
    rw [(hsub x).2.2] at hx
    split at hx
    next hxi =>
      rcases hphase with rfl | ⟨set', rfl⟩
      · contradiction
      · cases hx
        rw [hxi]
        exact Or.inr hclient
    · exact Or.inl hx

theorem books_sdkResolved {s : CloudClientManager} (h : s.Books) {i c set : ℕ}
    (hi : (s.subs i).phase = .subscribing c set) : (s.sdkResolved i c).Books := by
  have hphase : ∀ x, ((s.sdkResolved i c).subs x).phase =
      if x = i then .resolved else (s.subs x).phase := fun x => setPhase_phase _ i x _
  refine h.quiet (refs_sdkResolved h.refs hi)
    (link_sdkResolved h.link hi (h.subscribing i c set hi)) rfl rfl (fun _ => ⟨rfl, rfl⟩) ?_ ?_ ?_ ?_
  · intro x
    have hclients := setClient_clients s c x { s.clients c with
      registrations := (s.clients c).registrations ++ [(s.subs i).registration] }
    change ((s.setClient c _).clients x).state = _ ∧ ((s.setClient c _).clients x).entry = _
    rw [hclients]
    split
    next hx =>
      rw [hx]
      exact ⟨rfl, rfl⟩
    · exact ⟨rfl, rfl⟩
  · intro x
    refine ⟨(setPhase_static _ i x _).1, ?_⟩
    rw [hphase]
    split
    next hx =>
      rw [hx, hi]
      rfl
    · rfl
  · intro x c' hx
    rw [hphase] at hx
    split at hx
    · contradiction
    · exact Or.inl hx
  · intro x c' set' hx
    rw [hphase] at hx
    split at hx
    · contradiction
    · exact Or.inl hx

/-! ### A connect ends -/

theorem books_connected {s : CloudClientManager} (h : s.Books) {c : ℕ}
    (hc : (s.clients c).state = .connecting) (hturn : ∀ i < s.nextSub, ¬ s.Failing i) :
    (s.connected c).Books := by
  have hpending := h.link.pending _ c (h.link.connecting c hc)
  have hnone : (s.heap (s.clients c).entry).client = none := hpending.vacant (by simp [hc])
  have hstate : ∀ x, ((s.connected c).clients x).state =
      if x = c then .connected else (s.clients x).state := fun x => setState_state s c x .connected
  have hentry : ∀ x, ((s.connected c).clients x).entry = (s.clients x).entry :=
    fun x => (setState_rest s c x .connected).1
  have hother : ∀ e, (s.heap e).client ≠ none → (s.connected c).heap e = s.heap e := by
    intro e he
    rw [connected_heap, if_neg]
    rintro rfl
    exact he hnone
  refine ⟨⟨refs_connected h.refs c, link_connected h.link hc, h.inj, ?_, ?_, ?_, ?_, ?_⟩, ?_⟩
  · intro e hgone
    rw [connected_heap]
    have hzero := h.zero e hgone
    split <;> exact hzero
  · intro x hx
    rw [hstate] at hx
    rw [hentry]
    split at hx
    next hxc =>
      rw [hxc, connected_heap, if_pos rfl]
    · have hold := h.client x hx
      rw [hother _ (by simp [hold])]
      exact hold
  · intro x hx
    rw [hstate] at hx
    rw [hentry]
    split at hx
    · contradiction
    · exact h.left x hx
  · intro i x hi hx
    rw [hstate] at hx
    split at hx
    · contradiction
    · have hi' : (s.subs i).phase = .awaiting x := hi
      have hborn : i < s.nextSub := h.refs.born (by rw [hi']; rfl)
      refine absurd ?_ (hturn i hborn)
      unfold Failing
      rw [hi']
      exact hx
  · intro i x set hi
    have hold := h.subscribing i x set hi
    change ((s.connected c).heap (s.subs i).entry).client = some x
    rw [hother _ (by simp [hold])]
    exact hold
  · intro x hx
    rw [hstate] at hx
    rw [hentry]
    split at hx
    next hxc =>
      obtain ⟨i, hi, he⟩ := hpending.opener
      have hholding : (s.subs i).phase.holding = true := by
        rw [hi]
        rfl
      exact ⟨i, hholding, by rw [hxc]; exact he⟩
    · exact h.held x hx

theorem books_connectFailed {s : CloudClientManager} (h : s.Books) {c : ℕ}
    (hc : (s.clients c).state = .connecting) : (s.setState c .failed).Books := by
  have hpending := h.link.pending _ c (h.link.connecting c hc)
  have hnone : (s.heap (s.clients c).entry).client = none := hpending.vacant (by simp [hc])
  have hentry : ∀ x, ((s.setState c .failed).clients x).entry = (s.clients x).entry :=
    fun x => (setState_rest s c x .failed).1
  have hold : ∀ x state, state ≠ .failed → ((s.setState c .failed).clients x).state = state →
      (s.clients x).state = state := by
    intro x state hne hx
    rw [setState_state] at hx
    split at hx
    · exact absurd hx.symm hne
    · exact hx
  refine ⟨⟨?_, link_connectFailed h.link hc, h.inj, h.zero, ?_, ?_, ?_, h.subscribing⟩, ?_⟩
  · exact h.refs.quiet rfl rfl rfl (fun _ => rfl) fun _ => ⟨rfl, rfl, rfl⟩
  · intro x hx
    rw [hentry]
    exact h.client x (hold x _ (by simp) hx)
  · intro x hx
    rw [hentry]
    exact h.left x (hold x _ (by simp) hx)
  · intro i x hi hx
    rw [setState_state] at hx
    split at hx
    next hxc =>
      -- The entry that the call awaits a client for is the one of the connect.
      have hi' : (s.subs i).phase = .awaiting c := hxc ▸ hi
      have hdue := (h.link.awaiting i c hi').2
      unfold Due at hdue
      rw [hc] at hdue
      dsimp only at hdue
      change (s.heap (s.subs i).entry).client = none
      rw [← hdue]
      exact hnone
    · exact h.vacant i x hi hx
  · intro x hx
    rw [hentry]
    exact h.held x (hold x _ (by simp) hx)

/-! ### A subscription begins -/

theorem books_newEntry {s : CloudClientManager} (h : s.Books) {credentialKey : String}
    (hkey : s.entries.get credentialKey = none) : (s.newEntry credentialKey).Books := by
  have hr := refs_newEntry h.refs hkey
  have hl := link_newEntry h.link h.refs credentialKey
  have hgone : ∀ e, e < s.nextEntry → s.Gone e → (s.newEntry credentialKey).Gone e := by
    intro e hlt hgone key hget
    rcases InsertMap.get_set_eq_some hget with ⟨-, rfl⟩ | ⟨-, hold⟩
    · omega
    · exact hgone key hold
  have hheap : ∀ e c, (s.heap e).client = some c →
      ((s.newEntry credentialKey).heap e).client = some c := by
    intro e c he
    have hentry := (h.link.client e c he).2
    obtain ⟨i, hi, hie⟩ := h.held c (h.link.client e c he).1
    have hlt := h.refs.entry_lt hi
    rw [newEntry_heap, if_neg (by omega)]
    exact he
  refine ⟨⟨hr, hl, ?_, ?_, ?_, ?_, ?_, ?_⟩, h.held⟩
  · intro key key' e hget hget'
    rcases InsertMap.get_set_eq_some hget with ⟨rfl, rfl⟩ | ⟨-, hold⟩
    · rcases InsertMap.get_set_eq_some hget' with ⟨heq, -⟩ | ⟨-, hold'⟩
      · exact heq.symm
      · exact absurd (h.refs.mapped _ _ hold') (Nat.lt_irrefl _)
    · rcases InsertMap.get_set_eq_some hget' with ⟨-, rfl⟩ | ⟨-, hold'⟩
      · exact absurd (h.refs.mapped _ _ hold) (Nat.lt_irrefl _)
      · exact h.inj key key' e hold hold'
  · intro e he
    rw [newEntry_heap]
    split
    · rfl
    · refine h.zero e fun key hget => he key ?_
      refine (InsertMap.get_set_ne _ _ ?_).trans hget
      rintro rfl
      rw [hkey] at hget
      contradiction
  · exact fun c hc => hheap _ c (h.client c hc)
  · intro c hc
    obtain ⟨hlt, hg⟩ := h.left c hc
    exact ⟨Nat.lt_succ_of_lt hlt, hgone _ hlt hg⟩
  · intro i c hi hc
    have hi' : (s.subs i).phase = .awaiting c := hi
    have hlt : (s.subs i).entry < s.nextEntry := h.refs.entry_lt (by rw [hi']; rfl)
    change ((s.newEntry credentialKey).heap (s.subs i).entry).client = none
    rw [newEntry_heap, if_neg (by omega)]
    exact h.vacant i c hi hc
  · exact fun i c set hi => hheap _ c (h.subscribing i c set hi)

theorem books_getEntry {s : CloudClientManager} (h : s.Books) (credentialKey : String) :
    (s.getEntry credentialKey).1.Books := by
  unfold getEntry
  split
  · exact h
  next hnone => exact books_newEntry h hnone

/-- What the caller of `ensureConnected` waits for. -/
theorem ensureConnected_phase (s : CloudClientManager) (e : ℕ) (credential : CloudCredential) :
    (∀ c, (s.ensureConnected e credential).1.clients c = s.clients c ∨ c = s.nextClient ∧
      ((s.ensureConnected e credential).1.clients c).state = .connecting) ∧
    (∀ c, (s.ensureConnected e credential).2 = .awaiting c →
      (s.heap e).client = some c ∨ (s.heap e).pendingConnect = some c) ∧
    ∀ c set, (s.ensureConnected e credential).2 ≠ .subscribing c set := by
  unfold ensureConnected
  split
  next c hc =>
    refine ⟨fun _ => Or.inl rfl, fun c' h => ?_, fun c' set h => by simp at h⟩
    cases h
    exact Or.inl hc
  · split
    next c hc =>
      refine ⟨fun _ => Or.inl rfl, fun c' h => ?_, fun c' set h => by simp at h⟩
      cases h
      exact Or.inr hc
    · refine ⟨fun c => ?_, fun c' h => by simp at h, fun c' set h => by simp at h⟩
      dsimp only
      rw [newConnect_clients]
      split
      next hc => exact Or.inr ⟨hc, rfl⟩
      · exact Or.inl rfl

theorem books_subscribe {s : CloudClientManager} (h : s.Books) (credentialKey : String)
    (credential : CloudCredential) (thingId variableName : String) (handler : ℕ) :
    (s.subscribe credentialKey credential thingId variableName handler).Books := by
  have hr := refs_subscribe h.refs credentialKey credential thingId variableName handler
  have hl := link_subscribe h.link h.refs credentialKey credential thingId variableName handler
  have hgot := books_getEntry h credentialKey
  have hkey := (refs_getEntry h.refs credentialKey).2
  unfold subscribe at hr hl ⊢
  generalize s.getEntry credentialKey = got at hgot hkey hr hl
  obtain ⟨u, e⟩ := got
  dsimp only at hgot hkey hr hl ⊢
  obtain ⟨hentries, hnext, hn, hsubs, hcount, -⟩ := ensureConnected_rest (u.addRef e 1) e credential
  obtain ⟨hheap, -⟩ := ensureConnected_quiet (u.addRef e 1) e credential (link_addRef hgot.link e 1)
  obtain ⟨hclients, hawait, hnot⟩ := ensureConnected_phase (u.addRef e 1) e credential
  generalize (u.addRef e 1).ensureConnected e credential = opened at *
  obtain ⟨t, phase⟩ := opened
  dsimp only at hentries hnext hn hsubs hcount hheap hclients hawait hnot hr hl ⊢
  have hclient : ∀ x, (t.heap x).client = (u.heap x).client := by
    intro x
    rw [(hheap x).1, addRef_heap]
    split <;> rfl
  -- A client that is not connecting was there before.
  have hthere : ∀ c state, state ≠ .connecting → (t.clients c).state = state →
      t.clients c = u.clients c := by
    intro c state hne hc
    rcases hclients c with heq | ⟨-, hconnecting⟩
    · exact heq
    · exact absurd (hc.symm.trans hconnecting) hne
  have hat : ∀ i, i ≠ u.nextSub →
      (t.addSub ⟨credentialKey, thingId, variableName, handler, e, phase⟩).subs i = u.subs i := by
    intro i hi
    have hn' : t.nextSub = u.nextSub := hn
    rw [addSub_subs, if_neg (by omega), hsubs]
    rfl
  have hnew : (t.addSub ⟨credentialKey, thingId, variableName, handler, e, phase⟩).subs u.nextSub =
      ⟨credentialKey, thingId, variableName, handler, e, phase⟩ := by
    have hn' : t.nextSub = u.nextSub := hn
    rw [addSub_subs, if_pos hn'.symm]
  refine ⟨⟨hr, hl, ?_, ?_, ?_, ?_, ?_, ?_⟩, ?_⟩
  · intro key key' x hget hget'
    change t.entries.get key = some x at hget
    change t.entries.get key' = some x at hget'
    rw [hentries] at hget hget'
    exact hgot.inj key key' x hget hget'
  · intro x hgone
    have hgone' : u.Gone x := by
      intro key hget
      refine hgone key ?_
      change t.entries.get key = some x
      rw [hentries]
      exact hget
    have hx : x ≠ e := by
      rintro rfl
      exact hgone' _ hkey
    change (t.heap x).refCount = 0
    rw [hcount, addRef_refCount, if_neg hx, hgot.zero x hgone']
    rfl
  · intro c hc
    have hsame := hthere c _ (by simp) hc
    change (t.heap (t.clients c).entry).client = some c
    rw [hclient, hsame]
    exact hgot.client c (hsame ▸ hc)
  · intro c hc
    have hsame := hthere c _ (by simp) hc
    obtain ⟨hlt, hgone⟩ := hgot.left c (hsame ▸ hc)
    have hnext' : t.nextEntry = u.nextEntry := hnext
    change (t.clients c).entry < t.nextEntry ∧ ∀ key, t.entries.get key ≠ some (t.clients c).entry
    rw [hsame, hnext', hentries]
    exact ⟨hlt, hgone⟩
  · intro i c hi hc
    have hsame := hthere c _ (by simp) hc
    have hc' : (u.clients c).state = .failed := hsame ▸ hc
    change (t.heap _).client = none
    rw [hclient]
    by_cases hin : i = u.nextSub
    · subst hin
      rw [hnew] at hi ⊢
      rcases hawait c hi with hcl | hpend
      · rw [addRef_heap, if_pos rfl] at hcl
        have := (hgot.link.client e c hcl).1
        rw [hc'] at this
        contradiction
      · rw [addRef_heap, if_pos rfl] at hpend
        exact (hgot.link.pending e c hpend).vacant (by rw [hc']; simp)
    · rw [hat i hin] at hi ⊢
      exact hgot.vacant i c hi hc'
  · intro i c set hi
    change (t.heap _).client = some c
    rw [hclient]
    by_cases hin : i = u.nextSub
    · subst hin
      rw [hnew] at hi
      exact absurd hi (hnot c set)
    · rw [hat i hin] at hi ⊢
      exact hgot.subscribing i c set hi
  · intro c hc
    have hsame := hthere c _ (by simp) hc
    obtain ⟨i, hi, he⟩ := hgot.held c (hsame ▸ hc)
    refine ⟨i, ?_, ?_⟩
    · rw [hat i (Nat.ne_of_lt (hgot.refs.born hi))]
      exact hi
    · rw [hat i (Nat.ne_of_lt (hgot.refs.born hi))]
      change _ = (t.clients c).entry
      rw [hsame]
      exact he

/-! ### A subscription ends -/

/-- A count that is not zero has a subscription that it counts. -/
theorem held_of_holders {s : CloudClientManager} {e : ℕ} (h : s.holders e ≠ 0) : s.Held e := by
  by_contra hnone
  unfold Held at hnone
  push Not at hnone
  refine h (Nat.count_iff_forall_not.mpr fun i _ hi => ?_)
  simp only [holds, Bool.and_eq_true, decide_eq_true_eq] at hi
  exact hnone i hi.2 hi.1

/-- Nobody holds an entry that has left the map. -/
theorem Refs.holders_gone {s : CloudClientManager} (h : s.Refs) {e : ℕ} (hgone : s.Gone e) :
    s.holders e = 0 := by
  refine Nat.count_iff_forall_not.mpr fun i _ hi => ?_
  simp only [holds, Bool.and_eq_true, decide_eq_true_eq] at hi
  exact hgone _ (hi.1 ▸ h.current i hi.2)

theorem books_connectThrew {s : CloudClientManager} (h : s.Books) {i c : ℕ}
    (hi : (s.subs i).phase = .awaiting c) (hc : (s.clients c).state = .failed) :
    (s.connectThrew i).Books := by
  have hnone := h.vacant i c hi hc
  have hheld : (s.subs i).phase.holding = true := by rw [hi]; rfl
  have hphase : ∀ x, ((s.connectThrew i).subs x).phase =
      if x = i then .rejected else (s.subs x).phase := fun x => setPhase_phase _ i x _
  have hentry : ∀ x, ((s.connectThrew i).subs x).entry = (s.subs x).entry :=
    fun x => (setPhase_static _ i x _).1
  have hheap : ∀ e, (s.connectThrew i).heap e = (s.addRef (s.subs i).entry (-1)).heap e :=
    fun _ => rfl
  have hclient : ∀ e, ((s.connectThrew i).heap e).client = (s.heap e).client := by
    intro e
    rw [hheap, addRef_heap]
    split <;> rfl
  refine ⟨⟨refs_connectThrew h.refs hi, link_connectThrew h.link hi, h.inj, ?_, ?_, h.left, ?_, ?_⟩,
    ?_⟩
  · intro e hgone
    have he : e ≠ (s.subs i).entry := by
      rintro rfl
      exact hgone _ (h.refs.current i hheld)
    rw [hheap, addRef_refCount, if_neg he, h.zero e hgone]
    rfl
  · intro c' hc'
    rw [hclient]
    exact h.client c' hc'
  · intro x c' hx hc'
    rw [hphase] at hx
    rw [hclient, hentry]
    split at hx
    · contradiction
    · exact h.vacant x c' hx hc'
  · intro x c' set hx
    rw [hphase] at hx
    rw [hclient, hentry]
    split at hx
    · contradiction
    · exact h.subscribing x c' set hx
  · -- The entry of a connected client is another one, so is what holds it.
    intro c' hc'
    obtain ⟨j, hj, he⟩ := h.held c' hc'
    have hne : j ≠ i := by
      rintro rfl
      have hsome := h.client c' hc'
      rw [← he, hnone] at hsome
      contradiction
    refine ⟨j, ?_, (hentry j).trans he⟩
    rw [hphase, if_neg hne]
    exact hj

/-- A subscription stops holding its entry. What other subscriptions hold stays held. -/
theorem ledger_drop {s t : CloudClientManager} (h : s.Books) {i : ℕ} {phase : Phase}
    (hi : (s.subs i).phase.holding = true) (hphase : phase.holding = false) (hr : t.Refs)
    (hl : t.Link) (hentries : t.entries = s.entries) (hnext : t.nextEntry = s.nextEntry)
    (hsubs : t.subs = (s.setPhase i phase).subs) (hclients : t.clients = s.clients)
    (hheap : ∀ e, (t.heap e).client = (s.heap e).client ∧
      (e ≠ (s.subs i).entry → (t.heap e).refCount = (s.heap e).refCount)) :
    t.Ledger ∧ ∀ c, (t.clients c).state = .connected → (t.clients c).entry ≠ (s.subs i).entry →
      t.Held (t.clients c).entry := by
  have hentry : ∀ x, (t.subs x).entry = (s.subs x).entry := by
    intro x
    rw [hsubs]
    exact (setPhase_static s i x phase).1
  have hwas : ∀ x p, p.holding = true → (t.subs x).phase = p → (s.subs x).phase = p := by
    intro x p hp hx
    rw [hsubs, setPhase_phase] at hx
    split at hx
    · rw [hx, hp] at hphase
      contradiction
    · exact hx
  refine ⟨⟨hr, hl, ?_, ?_, ?_, ?_, ?_, ?_⟩, ?_⟩
  · rw [hentries]
    exact h.inj
  · intro x hgone
    have hgone' : s.Gone x := by
      intro key
      rw [← hentries]
      exact hgone key
    have hne : x ≠ (s.subs i).entry := by
      rintro rfl
      exact hgone' _ (h.refs.current i hi)
    rw [(hheap x).2 hne]
    exact h.zero x hgone'
  · intro c hc
    rw [hclients] at hc ⊢
    rw [(hheap _).1]
    exact h.client c hc
  · intro c hc
    rw [hclients] at hc ⊢
    rw [hnext]
    obtain ⟨hlt, hgone⟩ := h.left c hc
    refine ⟨hlt, fun key => ?_⟩
    rw [hentries]
    exact hgone key
  · intro x c hx hc
    rw [hclients] at hc
    rw [hentry, (hheap _).1]
    exact h.vacant x c (hwas x _ rfl hx) hc
  · intro x c set hx
    rw [hentry, (hheap _).1]
    exact h.subscribing x c set (hwas x _ rfl hx)
  · intro c hc hne
    rw [hclients] at hc hne ⊢
    obtain ⟨j, hj, hje⟩ := h.held c hc
    have hji : j ≠ i := by
      rintro rfl
      exact hne hje.symm
    refine ⟨j, ?_, (hentry j).trans hje⟩
    rw [hsubs, setPhase_phase, if_neg hji]
    exact hj

/-- An entry that nobody holds leaves the map, and its client is disconnected. -/
theorem books_teardown {s : CloudClientManager} (h : s.Ledger) {key : String} {e : ℕ}
    (hkey : s.entries.get key = some e) (hzero : (s.heap e).refCount = 0)
    (hheld : ∀ c, (s.clients c).state = .connected → (s.clients c).entry ≠ e →
      s.Held (s.clients c).entry) : (s.teardown key e).Books := by
  have hunused := fun i => h.refs.unused hkey hzero (i := i)
  obtain ⟨hentries, hnext, -, hsubs, -⟩ := teardown_rest s key e
  have hheap := teardown_heap s key e
  have hclients := teardown_clients s key e
  -- A client that is still connected is of another entry.
  have hconnected : ∀ c, ((s.teardown key e).clients c).state = .connected →
      (s.teardown key e).clients c = s.clients c ∧ (s.clients c).state = .connected ∧
        (s.clients c).entry ≠ e := by
    intro c hc
    rw [hclients] at hc ⊢
    split at hc
    · contradiction
    next hne =>
      rw [if_neg hne]
      refine ⟨rfl, hc, fun hce => hne ?_⟩
      rw [← hce]
      exact h.client c hc
  have hgone : ∀ x, (s.teardown key e).Gone x ↔ x = e ∨ s.Gone x := by
    intro x
    constructor
    · intro hx
      by_cases hxe : x = e
      · exact Or.inl hxe
      · refine Or.inr fun key' hget => hx key' ?_
        have hne : key ≠ key' := by
          rintro rfl
          rw [hkey] at hget
          exact hxe (Option.some.inj hget).symm
        rw [hentries, InsertMap.get_delete_ne _ hne]
        exact hget
    · intro hx key' hget
      rw [hentries] at hget
      obtain ⟨hne, hget⟩ := InsertMap.get_delete_eq_some hget
      rcases hx with rfl | hx
      · exact hne (h.inj key' key x hget hkey)
      · exact hx key' hget
  refine ⟨⟨refs_teardown h.refs hkey hzero, link_teardown h.link hunused, ?_, ?_, ?_, ?_, ?_, ?_⟩, ?_⟩
  · intro key₁ key₂ x h₁ h₂
    rw [hentries] at h₁ h₂
    exact h.inj key₁ key₂ x (InsertMap.get_delete_eq_some h₁).2 (InsertMap.get_delete_eq_some h₂).2
  · intro x hx
    rw [hheap]
    split
    · exact hzero
    next hne => exact h.zero x (((hgone x).mp hx).resolve_left hne)
  · intro c hc
    obtain ⟨hsame, hc', hne⟩ := hconnected c hc
    rw [hsame, hheap, if_neg hne]
    exact h.client c hc'
  · intro c hc
    rw [hnext]
    rw [hclients] at hc ⊢
    split at hc
    next hmine =>
      rw [if_pos hmine]
      have hce : (s.clients c).entry = e := (h.link.client e c hmine).2
      exact ⟨hce ▸ h.refs.mapped key e hkey, (hgone _).mpr (Or.inl hce)⟩
    next hnot =>
      rw [if_neg hnot]
      obtain ⟨hlt, hold⟩ := h.left c hc
      exact ⟨hlt, (hgone _).mpr (Or.inr hold)⟩
  · intro x c hx hc
    rw [hsubs] at hx ⊢
    rw [hclients] at hc
    rw [hheap]
    split
    · rfl
    · split at hc
      · contradiction
      · exact h.vacant x c hx hc
  · intro x c set hx
    rw [hsubs] at hx ⊢
    have hhold : (s.subs x).phase.holding = true := by
      rw [hx]
      rfl
    rw [hheap, if_neg (hunused x hhold)]
    exact h.subscribing x c set hx
  · intro c hc
    obtain ⟨hsame, hc', hne⟩ := hconnected c hc
    unfold Held
    rw [hsame, hsubs]
    exact hheld c hc' hne

theorem books_release {s u : CloudClientManager} (h : s.Books) {i : ℕ} (phase : Phase)
    (hi : (s.subs i).phase.holding = true) (hphase : phase.holding = false)
    (hr : (u.addRef (s.subs i).entry (-1)).Refs) (hl : u.Link) (hentries : u.entries = s.entries)
    (hnext : u.nextEntry = s.nextEntry) (hsubs : u.subs = (s.setPhase i phase).subs)
    (hclients : u.clients = s.clients) (hheap : ∀ e, (u.heap e).refCount = (s.heap e).refCount ∧
      (u.heap e).client = (s.heap e).client) :
    (u.release (s.subs i).credentialKey (s.subs i).entry).Books := by
  have hkey : (u.addRef (s.subs i).entry (-1)).entries.get (s.subs i).credentialKey =
      some (s.subs i).entry := by
    change u.entries.get _ = _
    rw [hentries]
    exact h.refs.current i hi
  obtain ⟨hledger, hheld⟩ := ledger_drop h hi hphase hr (link_addRef hl _ _) hentries hnext hsubs
    hclients <| by
      intro x
      rw [addRef_heap]
      split
      next hx => exact ⟨(hheap x).2, fun hne => absurd hx hne⟩
      · exact ⟨(hheap x).2, fun _ => (hheap x).1⟩
  unfold release
  dsimp only
  split
  next hzero => exact books_teardown hledger hkey hzero hheld
  next hmore =>
    refine ⟨hledger, fun c hc => ?_⟩
    by_cases hce : ((u.addRef (s.subs i).entry (-1)).clients c).entry = (s.subs i).entry
    · rw [hce]
      refine held_of_holders fun hnone => hmore ?_
      rw [hr.refs _ _ hkey, hnone]
      rfl
    · exact hheld c hc hce

theorem books_sdkThrew {s : CloudClientManager} (h : s.Books) {i c set : ℕ}
    (hi : (s.subs i).phase = .subscribing c set) : (s.sdkThrew i set).Books := by
  have hheld : (s.subs i).phase.holding = true := by rw [hi]; rfl
  have hheap := unmark_heap s (s.subs i).entry (s.subs i).key
  have hsame : ∀ x, ((s.unmark (s.subs i).entry (s.subs i).key).heap x).refCount =
      (s.heap x).refCount ∧
      ((s.unmark (s.subs i).entry (s.subs i).key).heap x).client = (s.heap x).client := by
    intro x
    rw [hheap]
    split <;> exact ⟨rfl, rfl⟩
  have hl : (s.unmark (s.subs i).entry (s.subs i).key).Link :=
    link_modify h.link (s.subs i).entry (fun entry => { entry with
      sdkSubscribed := entry.sdkSubscribed.filter fun k => decide (k ≠ (s.subs i).key) })
      fun _ => ⟨rfl, rfl⟩
  have hl' : ((s.unmark (s.subs i).entry (s.subs i).key).setPhase i .rejected).Link := by
    refine link_setPhase hl .rejected ?_ rfl
    exact fun c' hc' => absurd (hi.symm.trans hc') (by simp)
  have hr := refs_leave (t := (s.unmark (s.subs i).entry (s.subs i).key).setPhase i .rejected) h.refs
    .rejected rfl (Or.inl hheld) rfl rfl rfl rfl (fun x => (hsame x).1) (s.subs i).key set
    (s.subs i).handler
  rw [sdkThrew_eq]
  obtain ⟨hentries, hnext, hsubs, -, hclients, -⟩ := deleteHandler_rest
    ((s.unmark (s.subs i).entry (s.subs i).key).setPhase i .rejected) (s.subs i).entry (s.subs i).key
    set (s.subs i).handler
  refine books_release h .rejected hheld rfl hr (link_deleteHandler hl' ..) hentries hnext
    hsubs hclients fun x => ?_
  obtain ⟨hclient, -, -, hcount⟩ := deleteHandler_heap
    ((s.unmark (s.subs i).entry (s.subs i).key).setPhase i .rejected) (s.subs i).entry (s.subs i).key
    set (s.subs i).handler x
  exact ⟨hcount.trans (hsame x).1, hclient.trans (hsame x).2⟩

theorem books_tearDown {s : CloudClientManager} (h : s.Books) {i : ℕ}
    (hi : (s.subs i).phase = .resolved) : (s.tearDown i).Books := by
  have hheld : (s.subs i).phase.holding = true := by rw [hi]; rfl
  have hl := link_setPhase h.link .released (i := i) (by simp [hi]) rfl
  rw [tearDown_eq]
  split
  next set _ =>
    have hr := refs_leave (t := s.setPhase i .released) h.refs .released rfl (Or.inl hheld) rfl rfl
      rfl rfl (fun _ => rfl) (s.subs i).key set (s.subs i).handler
    obtain ⟨hentries, hnext, hsubs, -, hclients, -⟩ :=
      deleteHandler_rest (s.setPhase i .released) (s.subs i).entry (s.subs i).key set
        (s.subs i).handler
    refine books_release h .released hheld rfl hr (link_deleteHandler hl ..) hentries hnext
      hsubs hclients fun x => ?_
    obtain ⟨hclient, -, -, hcount⟩ := deleteHandler_heap (s.setPhase i .released) (s.subs i).entry
      (s.subs i).key set (s.subs i).handler x
    exact ⟨hcount, hclient⟩
  · refine books_release (u := s.setPhase i .released) h .released hheld rfl ?_ hl rfl rfl
      rfl rfl fun _ => ⟨rfl, rfl⟩
    exact refs_drop h.refs .released rfl (Or.inl hheld) rfl rfl rfl rfl
      fun e => addRef_refCount s _ e (-1)

/-! ### Runs -/

theorem books_step {s t : CloudClientManager} {e : Event} (h : s.Books) (hs : s.step e = some t)
    (hok : Paired s e t) : t.Books := by
  obtain ⟨ht, -⟩ := turns_of_step hs
  cases ht with
  | subscribe credentialKey credential thingId variableName handler => exact books_subscribe h ..
  | connected c hc => exact books_connected h hc hok
  | connectFailed c hc => exact books_connectFailed h hc
  | connectSettled i c hi hc => exact books_connectSettled h hi hc
  | connectThrew i c hi hc => exact books_connectThrew h hi hc
  | join i c hi hc => exact books_join h hi (h.link.connected hi hc).2
  | sdkResolved i c set hi => exact books_sdkResolved h hi
  | sdkThrew i c set hi => exact books_sdkThrew h hi
  | tearDown i hi => exact books_tearDown h hok
  | deliver c r value hr =>
    unfold onValue
    split
    · exact h
    · exact h.delivery _ s.console
  | call d handler rest outcome hd hahead =>
    unfold call
    cases outcome with
    | ok _ => exact h.delivery ..
    | error err => exact h.delivery ..
  | delivered d hd hahead => exact h.delivery none s.console

theorem books_reach {s : CloudClientManager} (h : machine.Reach Paired s) : s.Books :=
  h.invariant (fun _ hinit => hinit ▸ books_initial) fun _ _ _ _ hi hs hok => books_step hi hs hok

end CloudClientManager

end UnoQ.Cloud
