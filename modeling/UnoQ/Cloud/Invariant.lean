import UnoQ.Cloud.SdkSubscriptions

/-!
# Orderly runs of the cloud client manager

The condition under which subscriptions do not get in each other's way, and what every step that
meets it preserves.
-/

namespace UnoQ.Cloud
open Transition Codec

namespace CloudClientManager

/-! ### The condition -/

instance (s : CloudClientManager) (i c : ℕ) : Decidable (s.Free i c) := by
  unfold Free
  infer_instance

/-- What a subscription finds when it joins. -/
def JoinsFree (s : CloudClientManager) (i : ℕ) : Prop :=
  match (s.subs i).phase with
  | .awaiting c => (s.clients c).state = .connected → s.Free i c
  | _ => True

instance (s : CloudClientManager) (i : ℕ) : Decidable (s.JoinsFree i) := by
  unfold JoinsFree
  split <;> infer_instance

instance (s : CloudClientManager) (e : ℕ) : Decidable (s.Gone e) :=
  decidable_of_iff (∀ p ∈ s.entries.entries, p.2 ≠ e) <| by
    constructor
    · intro h key hkey
      exact h _ ((InsertMap.get_eq_some_iff _).mp hkey) rfl
    · rintro h ⟨key, x⟩ hp rfl
      exact h key ((InsertMap.get_eq_some_iff _).mpr hp)

/-- No other subscription that is live has the handler in the set. -/
def Sole (s : CloudClientManager) (i : ℕ) : Prop :=
  ∀ j < s.nextSub, j ≠ i → (s.subs j).phase = .resolved →
    (s.subs j).callback = (s.subs i).callback → (s.subs j).handler ≠ (s.subs i).handler

instance (s : CloudClientManager) (i : ℕ) : Decidable (s.Sole i) := by
  unfold Sole
  infer_instance

/-- A subscription joins its key while no call of the key is in flight, and the key is of no other
pair. A tear-down takes the handler from no other subscription, and none is called a second time
while the entry is in use. -/
def Orderly : Guard CloudClientManager Event := fun s e _ =>
  match e with
  | .resume i => s.JoinsFree i
  | .tearDown i =>
    ((s.subs i).phase = .resolved → s.Sole i) ∧
      ((s.subs i).phase = .released → s.Gone (s.subs i).entry)
  | _ => True

instance (s : CloudClientManager) (e : Event) (t : CloudClientManager) :
    Decidable (Orderly s e t) := by
  cases e <;> dsimp only [Orderly] <;> infer_instance

/-! ### What a step preserves -/

structure Inv (s : CloudClientManager) : Prop where
  refs : s.Refs
  link : s.Link
  demux : s.Demux
  sdk : s.Sdk

theorem inv_initial : initial.Inv := ⟨refs_initial, link_initial, demux_initial, sdk_initial⟩

/-- `ensureConnected` leaves sets, marks and the SDK alone. -/
theorem ensureConnected_quiet (s : CloudClientManager) (e : ℕ) (credential : CloudCredential)
    (hl : s.Link) :
    (∀ x, ((s.ensureConnected e credential).1.heap x).client = (s.heap x).client ∧
      ((s.ensureConnected e credential).1.heap x).sdkSubscribed = (s.heap x).sdkSubscribed ∧
      ((s.ensureConnected e credential).1.heap x).handlers = (s.heap x).handlers) ∧
    (∀ c, ((s.ensureConnected e credential).1.clients c).registrations =
      (s.clients c).registrations) ∧
    (s.ensureConnected e credential).1.sets = s.sets ∧
    (s.ensureConnected e credential).1.nextSet = s.nextSet ∧
    (s.ensureConnected e credential).1.delivery = s.delivery ∧
    (s.ensureConnected e credential).2.joined = false := by
  unfold ensureConnected
  split
  · exact ⟨fun _ => ⟨rfl, rfl, rfl⟩, fun _ => rfl, rfl, rfl, rfl, rfl⟩
  · split
    · exact ⟨fun _ => ⟨rfl, rfl, rfl⟩, fun _ => rfl, rfl, rfl, rfl, rfl⟩
    · refine ⟨?_, ?_, rfl, rfl, rfl, rfl⟩
      · intro x
        dsimp only
        rw [newConnect_heap]
        split
        next hx => rw [hx]; exact ⟨rfl, rfl, rfl⟩
        · exact ⟨rfl, rfl, rfl⟩
      · intro c
        dsimp only
        rw [newConnect_clients]
        split
        next hc =>
          rw [hc, hl.fresh _ (Nat.le_refl _)]
          rfl
        · rfl

theorem inv_getEntry {s : CloudClientManager} (h : s.Inv) (credentialKey : String) :
    (s.getEntry credentialKey).1.Inv := by
  unfold getEntry
  split
  · exact h
  next hnone =>
    exact ⟨refs_newEntry h.refs hnone, link_newEntry h.link h.refs credentialKey,
      demux_newEntry h.demux h.refs credentialKey, sdk_newEntry h.sdk h.refs credentialKey⟩

theorem demux_sdk_subscribe {s : CloudClientManager} (h : s.Inv) (credentialKey : String)
    (credential : CloudCredential) (thingId variableName : String) (handler : ℕ) :
    (s.subscribe credentialKey credential thingId variableName handler).Demux ∧
      (s.subscribe credentialKey credential thingId variableName handler).Sdk := by
  have hgot := inv_getEntry h credentialKey
  unfold subscribe
  generalize s.getEntry credentialKey = got at hgot
  obtain ⟨s, e⟩ := got
  dsimp only at hgot ⊢
  obtain ⟨hheap, hregs, hsets, hnext, hdelivery, hphase⟩ :=
    ensureConnected_quiet (s.addRef e 1) e credential (link_addRef hgot.link e 1)
  obtain ⟨-, -, hn, hsubs, -, -⟩ := ensureConnected_rest (s.addRef e 1) e credential
  have hborn : ∀ i, ((s.addRef e 1).subs i).phase.holding = true → i < (s.addRef e 1).nextSub :=
    fun i hi => hgot.refs.born hi
  rw [← hsubs, ← hn] at hborn
  constructor
  · refine demux_addSub ((demux_addRef hgot.demux e 1).quiet ?_ hsets hnext hdelivery ?_) hphase
    · intro cb
      unfold setOf
      rw [(hheap _).2.2]
    · rw [hsubs]
      exact fun i hi => ⟨hi, rfl, rfl, Or.inl rfl⟩
  · refine sdk_addSub ((sdk_addRef hgot.sdk e 1).quiet ?_ hregs ?_ ?_) hborn hphase
    · exact fun x => ⟨(hheap x).1, (hheap x).2.1⟩
    · exact fun i _ => congrFun hsubs i
    · exact fun i _ => congrFun hsubs i

theorem inv_subscribe {s : CloudClientManager} (h : s.Inv) (credentialKey : String)
    (credential : CloudCredential) (thingId variableName : String) (handler : ℕ) :
    (s.subscribe credentialKey credential thingId variableName handler).Inv := by
  obtain ⟨hd, hs⟩ := demux_sdk_subscribe h credentialKey credential thingId variableName handler
  exact ⟨refs_subscribe h.refs .., link_subscribe h.link h.refs .., hd, hs⟩

theorem refs_connected {s : CloudClientManager} (h : s.Refs) (c : ℕ) : (s.connected c).Refs := by
  refine h.quiet rfl rfl rfl ?_ (fun _ => ⟨rfl, rfl, rfl⟩)
  intro e
  rw [connected_heap]
  split <;> rfl

theorem inv_connected {s : CloudClientManager} (h : s.Inv) {c : ℕ}
    (hc : (s.clients c).state = .connecting) : (s.connected c).Inv where
  refs := refs_connected h.refs c
  link := link_connected h.link hc
  demux := by
    refine h.demux.quiet ?_ rfl rfl rfl (fun i hi => ⟨hi, rfl, rfl, Or.inl rfl⟩)
    intro cb
    unfold setOf
    rw [connected_heap]
    split <;> rfl
  sdk := sdk_connected h.sdk h.link hc

theorem inv_connectFailed {s : CloudClientManager} (h : s.Inv) {c : ℕ}
    (hc : (s.clients c).state = .connecting) : (s.setState c .failed).Inv where
  refs := h.refs.quiet rfl rfl rfl (fun _ => rfl) (fun _ => ⟨rfl, rfl, rfl⟩)
  link := link_connectFailed h.link hc
  demux := h.demux.quiet (fun _ => rfl) rfl rfl rfl (fun _ hi => ⟨hi, rfl, rfl, Or.inl rfl⟩)
  sdk := h.sdk.quiet (fun _ => ⟨rfl, rfl⟩) (fun x => (setState_rest s c x .failed).2)
    (fun _ _ => rfl) (fun _ _ => rfl)

theorem refs_connectSettled {s : CloudClientManager} (h : s.Refs) {i c : ℕ}
    (hi : (s.subs i).phase = .opening c) : (s.connectSettled i c).Refs := by
  let settle := fun entry : ClientEntry => { entry with pendingConnect := none }
  refine refs_setPhase (refs_modify h (s.subs i).entry settle fun _ => rfl) (.awaiting c) ?_
  change true = (s.subs i).phase.holding
  rw [hi]
  rfl

theorem inv_connectSettled {s : CloudClientManager} (h : s.Inv) {i c : ℕ}
    (hi : (s.subs i).phase = .opening c) (hc : (s.clients c).state ≠ .connecting) :
    (s.connectSettled i c).Inv := by
  let settle := fun entry : ClientEntry => { entry with pendingConnect := none }
  refine ⟨refs_connectSettled h.refs hi, link_connectSettled h.link hi hc, ?_, ?_⟩
  · exact demux_setPhase (demux_modify h.demux (s.subs i).entry settle fun _ => rfl) i (.awaiting c)
      rfl
  · refine sdk_setPhase (sdk_modify h.sdk (s.subs i).entry settle fun _ => ⟨rfl, rfl⟩) (.awaiting c)
      rfl ?_
    change (s.subs i).phase.inFlight = false
    rw [hi]
    rfl

theorem refs_connectThrew {s : CloudClientManager} (h : s.Refs) {i c : ℕ}
    (hi : (s.subs i).phase = .awaiting c) : (s.connectThrew i).Refs :=
  refs_drop h .rejected rfl (Or.inl (by rw [hi]; rfl)) rfl rfl rfl rfl
    fun e => addRef_refCount s _ e (-1)

theorem link_connectThrew {s : CloudClientManager} (h : s.Link) {i c : ℕ}
    (hi : (s.subs i).phase = .awaiting c) : (s.connectThrew i).Link := by
  refine link_setPhase (link_addRef h _ _) .rejected ?_ rfl
  exact fun c' hc' => absurd (hi.symm.trans hc') (by simp)

theorem inv_connectThrew {s : CloudClientManager} (h : s.Inv) {i c : ℕ}
    (hi : (s.subs i).phase = .awaiting c) : (s.connectThrew i).Inv where
  refs := refs_connectThrew h.refs hi
  link := link_connectThrew h.link hi
  demux := demux_setPhase (demux_addRef h.demux _ _) i .rejected rfl
  sdk := by
    refine sdk_setPhase (sdk_addRef h.sdk _ _) .rejected rfl ?_
    change (s.subs i).phase.inFlight = false
    rw [hi]
    rfl

/-! ### A subscription joins -/

theorem getSet_rest (s : CloudClientManager) (e : ℕ) (key : String) :
    (s.getSet e key).1.entries = s.entries ∧ (s.getSet e key).1.nextEntry = s.nextEntry ∧
      (s.getSet e key).1.subs = s.subs ∧ (s.getSet e key).1.nextSub = s.nextSub ∧
      (s.getSet e key).1.clients = s.clients ∧ (s.getSet e key).1.nextClient = s.nextClient ∧
      ∀ x, ((s.getSet e key).1.heap x).client = (s.heap x).client ∧
        ((s.getSet e key).1.heap x).pendingConnect = (s.heap x).pendingConnect ∧
        ((s.getSet e key).1.heap x).sdkSubscribed = (s.heap x).sdkSubscribed ∧
        ((s.getSet e key).1.heap x).refCount = (s.heap x).refCount := by
  unfold getSet
  split
  · exact ⟨rfl, rfl, rfl, rfl, rfl, rfl, fun _ => ⟨rfl, rfl, rfl, rfl⟩⟩
  · refine ⟨rfl, rfl, rfl, rfl, rfl, rfl, fun x => ?_⟩
    have hheap : (s.newSet e key).heap x = if x = e then
        { s.heap e with handlers := (s.heap e).handlers.set key s.nextSet } else s.heap x :=
      setEntry_heap _ e x _
    dsimp only
    rw [hheap]
    split
    next hx => rw [hx]; exact ⟨rfl, rfl, rfl, rfl⟩
    · exact ⟨rfl, rfl, rfl, rfl⟩

/-- The handler of subscription `i` is in the set of its key. -/
theorem inv_getSet {s : CloudClientManager} (h : s.Inv) (hd : s.delivery = none) (i : ℕ) :
    let got := s.getSet (s.subs i).entry (s.subs i).key
    let t := got.1.addHandler got.2 (s.subs i).handler
    t.Inv ∧ t.Demuxed (s.subs i) ∧ t.setOf (s.subs i).callback = some got.2 := by
  obtain ⟨hdemux, hset⟩ := demux_getSet h.demux hd (s.subs i).callback
  have hrest := getSet_rest s (s.subs i).entry (s.subs i).key
  generalize hgot : s.getSet (s.subs i).entry (s.subs i).key = got at hrest
  obtain ⟨hentries, hnext, hsubs, hn, hclients, hnc, hheap⟩ := hrest
  have hgot' : s.getSet (s.subs i).callback.entry (s.subs i).callback.key = got := hgot
  rw [hgot'] at hdemux hset
  dsimp only
  refine ⟨⟨?_, ?_, demux_addHandler hdemux _ _, ?_⟩, ⟨got.2, hset, ?_⟩, hset⟩
  · refine h.refs.quiet hentries hnext hn (fun e => (hheap e).2.2.2) fun x => ?_
    have hx : (got.1.addHandler got.2 (s.subs i).handler).subs x = s.subs x := congrFun hsubs x
    rw [hx]
    exact ⟨rfl, rfl, rfl⟩
  · refine h.link.quiet (fun e => ⟨(hheap e).1, (hheap e).2.1⟩) hnc
      (fun c => Or.inl (congrFun hclients c)) fun x => ?_
    have hx : (got.1.addHandler got.2 (s.subs i).handler).subs x = s.subs x := congrFun hsubs x
    rw [hx]
    exact ⟨rfl, Or.inl rfl⟩
  · exact h.sdk.quiet (fun e => ⟨(hheap e).1, (hheap e).2.2.1⟩)
      (fun c => congrArg CloudClient.registrations (congrFun hclients c))
      (fun x _ => congrFun hsubs x) (fun x _ => congrFun hsubs x)
  · exact (addHandler_sets got.1 got.2 _ got.2).2

/-- A subscription joins on the strength of the mark. -/
theorem inv_resolve {s : CloudClientManager} (h : s.Inv) {i c : ℕ}
    (hi : (s.subs i).phase = .awaiting c) (hc : (s.heap (s.subs i).entry).client = some c)
    (hin : s.Demuxed (s.subs i)) (hmarked : s.Marked (s.subs i).callback) (hfree : s.Free i c) :
    (s.setPhase i .resolved).Inv where
  refs := refs_setPhase h.refs .resolved (by rw [hi]; rfl)
  link := link_setPhase h.link .resolved (by simp [hi]) rfl
  demux := demux_enter h.demux hin (by simp)
  sdk := sdk_resolve h.sdk (fun _ => h.refs.born) (by rw [hi]; rfl) hc hmarked hfree

/-- A subscription sets the mark, and its call is in flight. -/
theorem inv_mark {s : CloudClientManager} (h : s.Inv) {i c set : ℕ}
    (hi : (s.subs i).phase = .awaiting c) (hc : (s.heap (s.subs i).entry).client = some c)
    (hin : s.Demuxed (s.subs i)) (hset : s.setOf (s.subs i).callback = some set)
    (hmarked : ¬ s.Marked (s.subs i).callback) :
    ((s.mark (s.subs i).entry (s.subs i).key).setPhase i (.subscribing c set)).Inv := by
  let add := fun entry : ClientEntry =>
    { entry with sdkSubscribed := entry.sdkSubscribed ++ [(s.subs i).key] }
  have hd : (s.mark (s.subs i).entry (s.subs i).key).Demux :=
    demux_modify h.demux (s.subs i).entry add fun _ => rfl
  have hsetOf : ∀ cb, (s.mark (s.subs i).entry (s.subs i).key).setOf cb = s.setOf cb := by
    intro cb
    unfold setOf
    rw [mark_heap]
    split <;> rfl
  refine ⟨?_, ?_, ?_, ?_⟩
  · refine refs_setPhase (refs_modify h.refs (s.subs i).entry add fun _ => rfl)
      (.subscribing c set) ?_
    change true = (s.subs i).phase.holding
    rw [hi]
    rfl
  · refine link_setPhase (link_modify h.link (s.subs i).entry add fun _ => ⟨rfl, rfl⟩)
      (.subscribing c set) ?_ rfl
    exact fun c' hc' => absurd (hi.symm.trans hc') (by simp)
  · refine demux_enter hd ?_ ?_
    · obtain ⟨x, hget, hmem⟩ := hin
      exact ⟨x, (hsetOf _).trans hget, hmem⟩
    · intro c' set' hphase
      cases hphase
      exact (hsetOf _).trans hset
  · refine sdk_subscribe h.sdk hc hmarked ?_ (mark_marked s (s.subs i).callback) rfl rfl
    intro e
    refine (congrArg ClientEntry.client (mark_heap s _ _ e)).trans ?_
    split <;> rfl

/-- What a call awaited is the client of its entry. -/
theorem Inv.awaited {s : CloudClientManager} (h : s.Inv) {i c : ℕ}
    (hi : (s.subs i).phase = .awaiting c) (hc : (s.clients c).state = .connected) :
    (s.heap (s.subs i).entry).client = some c := (h.link.connected hi (Or.inl hc)).2

theorem inv_join {s : CloudClientManager} (h : s.Inv) (hd : s.delivery = none) {i c : ℕ}
    (hi : (s.subs i).phase = .awaiting c) (hc : (s.clients c).state = .connected)
    (hfree : s.Free i c) : (s.join i c).Inv := by
  have hclient := h.awaited hi hc
  obtain ⟨hu, hin, hset⟩ := inv_getSet h hd i
  obtain ⟨-, -, hsubs, hn, hclients, -, hheap⟩ := getSet_rest s (s.subs i).entry (s.subs i).key
  unfold join
  dsimp only
  generalize s.getSet (s.subs i).entry (s.subs i).key = got at hu hin hset hsubs hn hclients hheap
  obtain ⟨t, set⟩ := got
  dsimp only at hu hin hset hsubs hn hclients hheap ⊢
  have hsubs' : (t.addHandler set (s.subs i).handler).subs = s.subs := hsubs
  have hclient' : ((t.addHandler set (s.subs i).handler).heap (s.subs i).entry).client = some c :=
    (hheap _).1.trans hclient
  have hfree' : (t.addHandler set (s.subs i).handler).Free i c :=
    (free_congr (t := t.addHandler set (s.subs i).handler) hsubs hn hclients).mpr hfree
  generalize t.addHandler set (s.subs i).handler = u at hu hin hset hsubs' hclient' hfree'
  rw [← hsubs'] at hi hin hset hclient' ⊢
  split
  next hmarked => exact inv_resolve hu hi hclient' hin hmarked hfree'
  next hmarked => exact inv_mark hu hi hclient' hin hset hmarked

/-! ### Calls of the SDK settle, subscriptions end -/

theorem refs_sdkResolved {s : CloudClientManager} (h : s.Refs) {i c set : ℕ}
    (hi : (s.subs i).phase = .subscribing c set) : (s.sdkResolved i c).Refs := by
  refine refs_setPhase (s := s.setClient c _) ?_ .resolved ?_
  · exact h.quiet rfl rfl rfl (fun _ => rfl) fun _ => ⟨rfl, rfl, rfl⟩
  · change true = (s.subs i).phase.holding
    rw [hi]
    rfl

theorem link_sdkResolved {s : CloudClientManager} (h : s.Link) {i c set : ℕ}
    (hi : (s.subs i).phase = .subscribing c set)
    (hclient : (s.heap (s.subs i).entry).client = some c) : (s.sdkResolved i c).Link := by
  have hstate := (h.client _ c hclient).1
  refine link_setPhase (s := s.setClient c _) ?_ .resolved ?_ rfl
  · refine h.quiet (fun _ => ⟨rfl, rfl⟩) rfl (fun x => ?_) fun _ => ⟨rfl, Or.inl rfl⟩
    rw [setClient_clients]
    split
    next hx =>
      rw [hx]
      exact Or.inr ⟨hstate, hstate, rfl⟩
    · exact Or.inl rfl
  · exact fun c' hc' => absurd (hi.symm.trans hc') (by simp)

theorem inv_sdkResolved {s : CloudClientManager} (h : s.Inv) {i c set : ℕ}
    (hi : (s.subs i).phase = .subscribing c set) : (s.sdkResolved i c).Inv := by
  have hphase : ∀ x, ((s.sdkResolved i c).subs x).phase =
      if x = i then .resolved else (s.subs x).phase := fun x => setPhase_phase _ i x _
  refine ⟨refs_sdkResolved h.refs hi, link_sdkResolved h.link hi (h.sdk.client i c set hi), ?_,
    sdk_sdkResolved h.sdk h.link hi⟩
  · refine h.demux.quiet (fun _ => rfl) rfl rfl rfl fun x hx => ?_
    obtain ⟨-, -, hh, hcb, -⟩ := setPhase_static (s.setClient c _) i x .resolved
    rw [hphase] at hx ⊢
    refine ⟨?_, hcb, hh, ?_⟩
    · split at hx
      next hxi =>
        rw [hxi, hi]
        rfl
      · exact hx
    · split
      · exact Or.inr rfl
      · exact Or.inl rfl

/-- A count is lowered, and an entry that nobody uses any more is torn down. -/
theorem inv_release {s : CloudClientManager} {key : String} {e : ℕ} (hr : (s.addRef e (-1)).Refs)
    (hl : s.Link) (hd : s.Demux) (hs : s.Sdk)
    (hkey : (s.heap e).refCount = 1 → s.entries.get key = some e) : (s.release key e).Inv := by
  have hl' := link_addRef hl e (-1)
  have hd' := demux_addRef hd e (-1)
  have hs' := sdk_addRef hs e (-1)
  unfold release
  dsimp only
  split
  next hzero =>
    have hone : (s.heap e).refCount = 1 := by
      rw [addRef_refCount, if_pos rfl] at hzero
      omega
    have hmapped : (s.addRef e (-1)).entries.get key = some e := hkey hone
    have hunused := fun i => hr.unused hmapped hzero (i := i)
    exact ⟨refs_teardown hr hmapped hzero, link_teardown hl' hunused, demux_teardown hd' hunused,
      sdk_teardown hs' hunused⟩
  · exact ⟨hr, hl', hd', hs'⟩

theorem release_setPhase (s : CloudClientManager) (key : String) (e i : ℕ) (phase : Phase) :
    (s.release key e).setPhase i phase = (s.setPhase i phase).release key e := by
  have hcount : ((s.setPhase i phase).addRef e (-1)).heap = (s.addRef e (-1)).heap := rfl
  have hteardown : ∀ u : CloudClientManager,
      (u.teardown key e).setPhase i phase = (u.setPhase i phase).teardown key e := by
    intro u
    have hheap : (u.setPhase i phase).heap = u.heap := rfl
    unfold teardown
    rw [hheap]
    dsimp only
    split <;> rfl
  unfold release
  dsimp only
  rw [hcount]
  split
  · exact hteardown (s.addRef e (-1))
  · rfl

theorem deleteHandler_setPhase (s : CloudClientManager) (e : ℕ) (key : String)
    (set handler i : ℕ) (phase : Phase) :
    (s.deleteHandler e key set handler).setPhase i phase =
      (s.setPhase i phase).deleteHandler e key set handler := by
  have hsets : (s.setPhase i phase).sets = s.sets := rfl
  unfold deleteHandler
  rw [hsets]
  dsimp only
  split <;> rfl

theorem link_deleteHandler {s : CloudClientManager} (h : s.Link) (e : ℕ) (key : String)
    (set handler : ℕ) : (s.deleteHandler e key set handler).Link := by
  obtain ⟨-, -, hsubs, -, hclients, hnext, -, -⟩ := deleteHandler_rest s e key set handler
  have hheap := deleteHandler_heap s e key set handler
  refine h.quiet (fun x => ⟨(hheap x).1, (hheap x).2.1⟩) hnext ?_ ?_
  · exact fun c => Or.inl (congrFun hclients c)
  · rw [hsubs]
    exact fun _ => ⟨rfl, Or.inl rfl⟩

theorem sdk_deleteHandler {s : CloudClientManager} (h : s.Sdk) (e : ℕ) (key : String)
    (set handler : ℕ) : (s.deleteHandler e key set handler).Sdk := by
  obtain ⟨-, -, hsubs, -, hclients, -, -, -⟩ := deleteHandler_rest s e key set handler
  have hheap := deleteHandler_heap s e key set handler
  refine h.quiet (fun x => ⟨(hheap x).1, (hheap x).2.2.1⟩) ?_ ?_ ?_
  · rw [hclients]
    exact fun _ => rfl
  · exact fun x _ => congrFun hsubs x
  · exact fun x _ => congrFun hsubs x

/-- An entry whose count is one is in the map. -/
theorem Inv.mapped_of_held {s : CloudClientManager} (h : s.Inv) {i : ℕ}
    (hheld : (s.subs i).phase.holding = true ∨ s.Gone (s.subs i).entry)
    (hone : (s.heap (s.subs i).entry).refCount = 1) :
    s.entries.get (s.subs i).credentialKey = some (s.subs i).entry := by
  rcases hheld with hheld | hgone
  · exact h.refs.current i hheld
  · have := h.refs.gone _ hgone
    omega

/-- A subscription has left, a handler is deleted, and the count of the entry is lowered. -/
theorem refs_leave {s t : CloudClientManager} (h : s.Refs) {i : ℕ} (phase : Phase)
    (hphase : phase.holding = false)
    (hheld : (s.subs i).phase.holding = true ∨ s.Gone (s.subs i).entry)
    (hentries : t.entries = s.entries) (hnext : t.nextEntry = s.nextEntry)
    (hn : t.nextSub = s.nextSub) (hsubs : t.subs = (s.setPhase i phase).subs)
    (hcount : ∀ e, (t.heap e).refCount = (s.heap e).refCount) (key : String) (set handler : ℕ) :
    ((t.deleteHandler (s.subs i).entry key set handler).addRef (s.subs i).entry (-1)).Refs := by
  obtain ⟨hentries', hnext', hsubs', hn', -⟩ :=
    deleteHandler_rest t (s.subs i).entry key set handler
  refine refs_drop h phase hphase hheld (hentries'.trans hentries) (hnext'.trans hnext)
    (hn'.trans hn) (hsubs'.trans hsubs) fun e => ?_
  rw [addRef_refCount, (deleteHandler_heap _ _ _ _ _ _).2.2.2, hcount]

/-- The phase does not matter to the rest of the `catch`, so it may change first. -/
theorem sdkThrew_eq (s : CloudClientManager) (i set : ℕ) : s.sdkThrew i set =
    (((s.unmark (s.subs i).entry (s.subs i).key).setPhase i .rejected).deleteHandler
      (s.subs i).entry (s.subs i).key set (s.subs i).handler).release
      (s.subs i).credentialKey (s.subs i).entry := by
  unfold sdkThrew
  dsimp only
  rw [release_setPhase, deleteHandler_setPhase]

theorem inv_sdkThrew {s : CloudClientManager} (h : s.Inv) {i c set : ℕ}
    (hi : (s.subs i).phase = .subscribing c set) : (s.sdkThrew i set).Inv := by
  have hflight : (s.subs i).phase.inFlight = true := by rw [hi]; rfl
  have hheap := unmark_heap s (s.subs i).entry (s.subs i).key
  let drop := fun entry : ClientEntry => { entry with
    sdkSubscribed := entry.sdkSubscribed.filter fun k => decide (k ≠ (s.subs i).key) }
  have hl : (s.unmark (s.subs i).entry (s.subs i).key).Link :=
    link_modify h.link (s.subs i).entry drop fun _ => ⟨rfl, rfl⟩
  have hd : (s.unmark (s.subs i).entry (s.subs i).key).Demux :=
    demux_modify h.demux (s.subs i).entry drop fun _ => rfl
  have hl' : ((s.unmark (s.subs i).entry (s.subs i).key).setPhase i .rejected).Link := by
    refine link_setPhase hl .rejected ?_ rfl
    exact fun c' hc' => absurd (hi.symm.trans hc') (by simp)
  have hs' : ((s.unmark (s.subs i).entry (s.subs i).key).setPhase i .rejected).Sdk := by
    refine sdk_unmark h.sdk hflight ?_ (unmark_marked s (s.subs i).callback) rfl rfl
    intro e
    refine (congrArg ClientEntry.client (hheap e)).trans ?_
    split <;> rfl
  have hd' := demux_setPhase hd i .rejected rfl
  have hset : (s.unmark (s.subs i).entry (s.subs i).key).setOf (s.subs i).callback = some set :=
    hd.captured i c set hi
  have hdel : (((s.unmark (s.subs i).entry (s.subs i).key).setPhase i .rejected).deleteHandler
      (s.subs i).entry (s.subs i).key set (s.subs i).handler).Demux := by
    refine demux_deleteHandler hd' hset fun j hj he => ?_
    rw [setPhase_phase] at hj
    obtain ⟨-, -, -, hcb, -⟩ :=
      setPhase_static (s.unmark (s.subs i).entry (s.subs i).key) i j .rejected
    rw [hcb] at he
    split at hj
    · contradiction
    next hne => exact absurd (h.sdk.alone i j hflight hj he.symm).symm hne
  have hcount : ∀ x, (((s.unmark (s.subs i).entry (s.subs i).key).setPhase i
      .rejected).heap x).refCount = (s.heap x).refCount := by
    intro x
    refine (congrArg ClientEntry.refCount (hheap x)).trans ?_
    split <;> rfl
  rw [sdkThrew_eq]
  refine inv_release ?_ (link_deleteHandler hl' ..) hdel (sdk_deleteHandler hs' ..) ?_
  · exact refs_leave (t := (s.unmark (s.subs i).entry (s.subs i).key).setPhase i .rejected) h.refs
      .rejected rfl (Or.inl (by rw [hi]; rfl)) rfl rfl rfl rfl hcount ..
  · intro hone
    rw [(deleteHandler_heap _ _ _ _ _ _).2.2.2, hcount] at hone
    rw [(deleteHandler_rest _ _ _ _ _).1]
    exact h.mapped_of_held (Or.inl (by rw [hi]; rfl)) hone

/-- The phase does not matter to the rest of a tear-down, so it may change first. -/
theorem tearDown_eq (s : CloudClientManager) (i : ℕ) : s.tearDown i =
    match s.setOf (s.subs i).callback with
    | some set =>
      ((s.setPhase i .released).deleteHandler (s.subs i).entry (s.subs i).key set
        (s.subs i).handler).release (s.subs i).credentialKey (s.subs i).entry
    | none => (s.setPhase i .released).release (s.subs i).credentialKey (s.subs i).entry := by
  have hset : s.setOf (s.subs i).callback =
      (s.heap (s.subs i).entry).handlers.get (s.subs i).key := rfl
  unfold tearDown
  dsimp only
  rw [release_setPhase, hset]
  cases (s.heap (s.subs i).entry).handlers.get (s.subs i).key with
  | some set =>
    dsimp only
    rw [deleteHandler_setPhase]
  | none => rfl

theorem inv_tearDown {s : CloudClientManager} (h : s.Inv) {i : ℕ}
    (hi : (s.subs i).phase = .resolved ∧ s.Sole i ∨
      (s.subs i).phase = .released ∧ s.Gone (s.subs i).entry) : (s.tearDown i).Inv := by
  have hheld : (s.subs i).phase.holding = true ∨ s.Gone (s.subs i).entry := by
    rcases hi with ⟨hi, -⟩ | ⟨-, hgone⟩
    · rw [hi]
      exact Or.inl rfl
    · exact Or.inr hgone
  have hout : (∀ c, (s.subs i).phase ≠ .opening c) ∧ (s.subs i).phase.inFlight = false := by
    rcases hi with ⟨hi, -⟩ | ⟨hi, -⟩ <;> rw [hi] <;> exact ⟨by simp, rfl⟩
  have hl := link_setPhase h.link .released hout.1 rfl
  have hd := demux_setPhase h.demux i .released rfl
  have hs := sdk_setPhase h.sdk .released rfl hout.2
  -- The handlers of the other subscriptions of the key are other handlers.
  have hothers : ∀ j, ((s.setPhase i .released).subs j).phase.joined = true →
      ((s.setPhase i .released).subs j).callback = (s.subs i).callback →
      ((s.setPhase i .released).subs j).handler ≠ (s.subs i).handler := by
    intro j hj he
    obtain ⟨-, -, hh, hcb, -⟩ := setPhase_static s i j .released
    rw [setPhase_phase] at hj
    rw [hcb] at he
    rw [hh]
    split at hj
    · contradiction
    next hne =>
      rcases hi with ⟨hi, hsole⟩ | ⟨-, hgone⟩
      · have hji : (s.subs j).phase = .resolved := by
          cases hp : (s.subs j).phase with
          | resolved => rfl
          | subscribing c set =>
            exact absurd (h.sdk.alone j i (by rw [hp]; rfl) (by rw [hi]; rfl) he) hne
          | _ => simp [hp, Phase.joined] at hj
        exact hsole j (h.refs.born (Phase.holding_of_joined hj)) hne hji he
      · have hcur := h.refs.current j (Phase.holding_of_joined hj)
        have hentry : (s.subs j).entry = (s.subs i).entry := congrArg Callback.entry he
        rw [hentry] at hcur
        exact absurd hcur (hgone _)
  rw [tearDown_eq]
  split
  next set hset =>
    have hset' : (s.setPhase i .released).setOf (s.subs i).callback = some set := hset
    refine inv_release ?_ (link_deleteHandler hl ..) (demux_deleteHandler hd hset' hothers)
      (sdk_deleteHandler hs ..) ?_
    · exact refs_leave (t := s.setPhase i .released) h.refs .released rfl hheld rfl rfl rfl rfl
        (fun _ => rfl) ..
    · intro hone
      rw [(deleteHandler_heap _ _ _ _ _ _).2.2.2] at hone
      rw [(deleteHandler_rest _ _ _ _ _).1]
      exact h.mapped_of_held hheld hone
  · refine inv_release ?_ hl hd hs (h.mapped_of_held hheld)
    exact refs_drop h.refs .released rfl hheld rfl rfl rfl rfl fun e => addRef_refCount s _ e (-1)

/-! ### Values are delivered -/

/-- A value on its way to the handlers changes no entry, no client and no subscription. -/
theorem refs_link_delivery {s : CloudClientManager} (hr : s.Refs) (hl : s.Link)
    (delivery : Option Delivery) (console : List String) :
    Refs { s with delivery := delivery, console := console } ∧
      Link { s with delivery := delivery, console := console } :=
  ⟨hr.quiet rfl rfl rfl (fun _ => rfl) fun _ => ⟨rfl, rfl, rfl⟩,
    hl.quiet (fun _ => ⟨rfl, rfl⟩) rfl (fun _ => Or.inl rfl) fun _ => ⟨rfl, Or.inl rfl⟩⟩

/-- A step that only moves the delivery along has its handlers to answer for. -/
theorem Inv.delivering {s : CloudClientManager} (h : s.Inv) {delivery : Option Delivery}
    {console : List String} (hd : Demux { s with delivery := delivery, console := console }) :
    Inv { s with delivery := delivery, console := console } := by
  obtain ⟨hr, hl⟩ := refs_link_delivery h.refs h.link delivery console
  exact ⟨hr, hl, hd,
    h.sdk.quiet (fun _ => ⟨rfl, rfl⟩) (fun _ => rfl) (fun _ _ => rfl) fun _ _ => rfl⟩

theorem inv_onValue {s : CloudClientManager} (h : s.Inv) (cb : Callback) (value : JsValue) :
    (s.onValue cb value).Inv := by
  have hd := demux_onValue h.demux cb value
  unfold onValue at hd ⊢
  split at hd
  · exact h
  · exact h.delivering hd

theorem call_rest (s : CloudClientManager) (d : Delivery) (handler : ℕ)
    (outcome : Except String Unit) :
    (s.call d handler outcome).entries = s.entries ∧
      (s.call d handler outcome).nextEntry = s.nextEntry ∧
      (s.call d handler outcome).subs = s.subs ∧ (s.call d handler outcome).nextSub = s.nextSub ∧
      (s.call d handler outcome).heap = s.heap ∧ (s.call d handler outcome).sets = s.sets ∧
      (s.call d handler outcome).clients = s.clients ∧
      (s.call d handler outcome).nextClient = s.nextClient := by
  unfold call
  cases outcome <;> exact ⟨rfl, rfl, rfl, rfl, rfl, rfl, rfl, rfl⟩

theorem inv_call {s : CloudClientManager} (h : s.Inv) {d : Delivery} {handler : ℕ} {rest : List ℕ}
    (hd : s.delivery = some d) (hahead : s.ahead d = handler :: rest)
    (outcome : Except String Unit) : (s.call d handler outcome).Inv := by
  have hdemux := demux_call h.demux hd hahead outcome
  unfold call at hdemux ⊢
  cases outcome with
  | ok _ => exact h.delivering hdemux
  | error err => exact h.delivering hdemux

theorem inv_delivered {s : CloudClientManager} (h : s.Inv) : Inv { s with delivery := none } :=
  h.delivering (demux_delivered h.demux)

/-! ### Runs -/

theorem inv_step {s t : CloudClientManager} {e : Event} (h : s.Inv) (hs : s.step e = some t)
    (hok : Orderly s e t) : t.Inv := by
  obtain ⟨ht, hidle⟩ := turns_of_step hs
  cases ht with
  | subscribe credentialKey credential thingId variableName handler => exact inv_subscribe h ..
  | connected c hc => exact inv_connected h hc
  | connectFailed c hc => exact inv_connectFailed h hc
  | connectSettled i c hi hc => exact inv_connectSettled h hi hc
  | connectThrew i c hi hc => exact inv_connectThrew h hi
  | join i c hi hc =>
    have hconnected := (h.link.connected hi hc).1
    have hfree : s.JoinsFree i := hok
    unfold JoinsFree at hfree
    simp only [hi] at hfree
    exact inv_join h (hidle rfl) hi hconnected (hfree hconnected)
  | sdkResolved i c set hi => exact inv_sdkResolved h hi
  | sdkThrew i c set hi => exact inv_sdkThrew h hi
  | tearDown i hi =>
    obtain ⟨hsole, hgone⟩ := hok
    rcases hi with hi | hi
    · exact inv_tearDown h (Or.inl ⟨hi, hsole hi⟩)
    · exact inv_tearDown h (Or.inr ⟨hi, hgone hi⟩)
  | deliver c r value hr => exact inv_onValue h r.callback value
  | call d handler rest outcome hd hahead => exact inv_call h hd hahead outcome
  | delivered d hd hahead => exact inv_delivered h

theorem inv_reach {s : CloudClientManager} (h : machine.Reach Orderly s) : s.Inv :=
  h.invariant (fun _ hinit => hinit ▸ inv_initial) fun _ _ _ _ hi hs hok => inv_step hi hs hok

end CloudClientManager

end UnoQ.Cloud
