import UnoQ.Cloud.Invariant

/-!
# Whose handlers a callback calls

The triggers call `subscribe` with a handler of their own each, and its tear-down once at most. Then a
handler is in no set but that of its own key, and only between joining it and its tear-down, so that
a callback calls nobody else. This needs nothing of how the calls of the SDK come out.
-/

namespace UnoQ.Cloud
open Transition Codec

namespace CloudClientManager

/-- Handlers are numbered by the calls of `subscribe` that bring them. -/
def Separate : Guard CloudClientManager Event := fun s e _ =>
  match e with
  | .subscribe _ _ _ _ handler => handler = s.nextSub
  | .tearDown i => (s.subs i).phase = .resolved
  | _ => True

instance (s : CloudClientManager) : ∀ (e : Event) (t : CloudClientManager), Decidable (Separate s e t)
  | .subscribe _ _ _ _ handler, _ => inferInstanceAs (Decidable (handler = s.nextSub))
  | .tearDown i, _ => inferInstanceAs (Decidable ((s.subs i).phase = .resolved))
  | .connected _, _ => isTrue trivial
  | .connectFailed _, _ => isTrue trivial
  | .connectSettled _, _ => isTrue trivial
  | .resume _, _ => isTrue trivial
  | .sdkResolved _, _ => isTrue trivial
  | .sdkThrew _, _ => isTrue trivial
  | .deliver _ _ _, _ => isTrue trivial
  | .call _, _ => isTrue trivial
  | .delivered, _ => isTrue trivial

structure Handled (s : CloudClientManager) : Prop where
  refs : s.Refs
  demux : s.Demux
  own : ∀ i < s.nextSub, (s.subs i).handler = i
  member : ∀ set i, i ∈ s.sets set →
    (s.subs i).phase.joined = true ∧ s.setOf (s.subs i).callback = some set
  walk : ∀ d, s.delivery = some d → s.sets d.set = [] ∨ s.setOf d.callback = some d.set
  keyed : ∀ c r, r ∈ (s.clients c).registrations → r.callback.key = subKey r.thingId r.variableName

theorem handled_initial : initial.Handled where
  refs := refs_initial
  demux := demux_initial
  own i hi := absurd hi (Nat.not_lt_zero i)
  member set i hi := by simp [initial] at hi
  walk d hd := by simp [initial] at hd
  keyed c r hr := by simp [initial, CloudClient.absent] at hr

theorem Handled.born {s : CloudClientManager} (h : s.Handled) {set i : ℕ} (hi : i ∈ s.sets set) :
    i < s.nextSub :=
  h.refs.born (Phase.holding_of_joined (h.member set i hi).1)

theorem Handled.handler {s : CloudClientManager} (h : s.Handled) {i : ℕ}
    (hi : (s.subs i).phase.holding = true) : (s.subs i).handler = i := h.own i (h.refs.born hi)

/-- A callback calls subscriptions of its own key that have joined. -/
theorem Handled.ahead {s : CloudClientManager} (h : s.Handled) {d : Delivery}
    (hd : s.delivery = some d) {i : ℕ} (hi : i ∈ s.ahead d) :
    (s.subs i).phase.joined = true ∧ (s.subs i).callback = d.callback := by
  have hin : i ∈ s.sets d.set := (List.mem_filter.mp hi).1
  obtain ⟨hjoined, hset⟩ := h.member d.set i hin
  refine ⟨hjoined, ?_⟩
  rcases h.walk d hd with hempty | hwalk
  · rw [hempty] at hin
    contradiction
  · exact h.demux.inj _ _ d.set hset hwalk

/-- A step that lets nobody into a set. Who stays in his set has stayed joined, and his key has kept
the set. -/
theorem Handled.frame {s t : CloudClientManager} (h : s.Handled) (hrefs : t.Refs) (hdemux : t.Demux)
    (hown : ∀ i < t.nextSub, (t.subs i).handler = i) (hdelivery : t.delivery = s.delivery)
    (hstays : ∀ set i, i ∈ t.sets set → i ∈ s.sets set ∧ (t.subs i).phase.joined = true ∧
      (t.subs i).callback = (s.subs i).callback ∧ t.setOf (s.subs i).callback = some set)
    (hkeyed : ∀ c r, r ∈ (t.clients c).registrations → r ∈ (s.clients c).registrations ∨
      r.callback.key = subKey r.thingId r.variableName) : t.Handled where
  refs := hrefs
  demux := hdemux
  own := hown
  member set i hi := by
    obtain ⟨-, hjoined, hcb, hget⟩ := hstays set i hi
    rw [hcb]
    exact ⟨hjoined, hget⟩
  walk d hd := by
    rw [hdelivery] at hd
    cases hset : t.sets d.set with
    | nil => exact .inl rfl
    | cons i rest =>
      obtain ⟨hold, -, -, hget⟩ := hstays d.set i (by rw [hset]; exact List.mem_cons_self)
      rcases h.walk d hd with hempty | hwalk
      · rw [hempty] at hold
        contradiction
      · have hsame := h.demux.inj _ _ d.set (h.member d.set i hold).2 hwalk
        rw [hsame] at hget
        exact .inr hget
  keyed c r hr := by
    rcases hkeyed c r hr with hold | hnew
    · exact h.keyed c r hold
    · exact hnew

/-- A step that also lets nobody out. -/
theorem Handled.quiet {s t : CloudClientManager} (h : s.Handled) (hrefs : t.Refs) (hdemux : t.Demux)
    (hown : ∀ i < t.nextSub, (t.subs i).handler = i) (hdelivery : t.delivery = s.delivery)
    (hsets : t.sets = s.sets)
    (hjoined : ∀ i, (s.subs i).phase.joined = true → (t.subs i).phase.joined = true ∧
      (t.subs i).callback = (s.subs i).callback ∧
      t.setOf (s.subs i).callback = s.setOf (s.subs i).callback)
    (hkeyed : ∀ c r, r ∈ (t.clients c).registrations → r ∈ (s.clients c).registrations ∨
      r.callback.key = subKey r.thingId r.variableName) : t.Handled := by
  refine h.frame hrefs hdemux hown hdelivery ?_ hkeyed
  intro set i hi
  rw [hsets] at hi
  obtain ⟨hin, hget⟩ := h.member set i hi
  obtain ⟨hstill, hcb, hset⟩ := hjoined i hin
  exact ⟨hi, hstill, hcb, hset.trans hget⟩

/-! ### Subscriptions begin and connect -/

theorem ensureConnected_sets (s : CloudClientManager) (e : ℕ) (credential : CloudCredential) :
    (∀ cb, (s.ensureConnected e credential).1.setOf cb = s.setOf cb) ∧
      (s.ensureConnected e credential).1.sets = s.sets ∧
      (s.ensureConnected e credential).1.nextSet = s.nextSet ∧
      (s.ensureConnected e credential).1.delivery = s.delivery ∧
      (s.ensureConnected e credential).2.joined = false ∧
      ∀ c r, r ∈ ((s.ensureConnected e credential).1.clients c).registrations →
        r ∈ (s.clients c).registrations := by
  unfold ensureConnected
  split
  · exact ⟨fun _ => rfl, rfl, rfl, rfl, rfl, fun _ _ hr => hr⟩
  · split
    · exact ⟨fun _ => rfl, rfl, rfl, rfl, rfl, fun _ _ hr => hr⟩
    · refine ⟨?_, rfl, rfl, rfl, rfl, ?_⟩
      · intro cb
        unfold setOf
        dsimp only
        rw [newConnect_heap]
        split
        next hx => rw [hx]
        next => rfl
      · intro c r hr
        dsimp only at hr
        rw [newConnect_clients] at hr
        split at hr
        · simp at hr
        · exact hr

theorem addRef_setOf (s : CloudClientManager) (e : ℕ) (n : ℤ) (cb : Callback) :
    (s.addRef e n).setOf cb = s.setOf cb := by
  unfold setOf
  rw [addRef_heap]
  split
  · rfl
  · rfl

theorem handled_getEntry {s : CloudClientManager} (h : s.Handled) (credentialKey : String) :
    (s.getEntry credentialKey).1.Handled ∧ (s.getEntry credentialKey).1.nextSub = s.nextSub := by
  unfold getEntry
  split
  next => exact ⟨h, rfl⟩
  next hnone =>
    refine ⟨?_, rfl⟩
    refine h.quiet (refs_newEntry h.refs hnone) (demux_newEntry h.demux h.refs credentialKey) h.own rfl
      rfl ?_ fun _ _ hr => .inl hr
    intro i hi
    refine ⟨hi, rfl, ?_⟩
    have hlt : (s.subs i).callback.entry < s.nextEntry := h.refs.entry_lt (Phase.holding_of_joined hi)
    unfold setOf
    rw [newEntry_heap, if_neg (Nat.ne_of_lt hlt)]

theorem handled_subscribe {s : CloudClientManager} (h : s.Handled) (credentialKey : String)
    (credential : CloudCredential) (thingId variableName : String) :
    (s.subscribe credentialKey credential thingId variableName s.nextSub).Handled := by
  have hrefs := refs_subscribe h.refs credentialKey credential thingId variableName s.nextSub
  obtain ⟨hgot, hn⟩ := handled_getEntry h credentialKey
  unfold subscribe at hrefs ⊢
  rw [← hn] at hrefs ⊢
  generalize s.getEntry credentialKey = got at hgot hrefs
  obtain ⟨s, e⟩ := got
  dsimp only at hgot hrefs ⊢
  obtain ⟨hset, hsets, hnext, hdelivery, hphase, hregs⟩ :=
    ensureConnected_sets (s.addRef e 1) e credential
  obtain ⟨-, -, hn, hsubs, -⟩ := ensureConnected_rest (s.addRef e 1) e credential
  have hmoved : ((s.addRef e 1).ensureConnected e credential).1.Demux := by
    refine (demux_addRef hgot.demux e 1).quiet hset hsets hnext hdelivery ?_
    rw [hsubs]
    exact fun i hi => ⟨hi, rfl, rfl, .inl rfl⟩
  have hold : ∀ i, ((s.addRef e 1).ensureConnected e credential).1.subs i = s.subs i :=
    fun i => congrFun hsubs i
  refine hgot.quiet hrefs (demux_addSub hmoved hphase) ?_ hdelivery hsets ?_
    fun c r hr => .inl (hregs c r hr)
  · intro i hi
    change i < ((s.addRef e 1).ensureConnected e credential).1.nextSub + 1 at hi
    rw [addSub_subs]
    split
    next hnew => exact (hnew.trans hn).symm
    next hne =>
      rw [hold]
      exact hgot.own i (by rw [hn] at hi hne; exact Nat.lt_of_le_of_ne (Nat.le_of_lt_succ hi) hne)
  · intro i hi
    have hlt : i < s.nextSub := hgot.refs.born (Phase.holding_of_joined hi)
    have hne : i ≠ ((s.addRef e 1).ensureConnected e credential).1.nextSub := by
      rw [hn]
      exact Nat.ne_of_lt hlt
    rw [addSub_subs, if_neg hne, hold]
    exact ⟨hi, rfl, (hset _).trans (addRef_setOf s e 1 _)⟩

/-- A step of one subscription that leaves sets and keys alone. -/
theorem Handled.setPhase {s u : CloudClientManager} (h : s.Handled) {i : ℕ} {phase : Phase}
    (hrefs : (u.setPhase i phase).Refs) (hdemux : (u.setPhase i phase).Demux) (hsubs : u.subs = s.subs)
    (hn : u.nextSub = s.nextSub) (hset : ∀ cb, u.setOf cb = s.setOf cb) (hsets : u.sets = s.sets)
    (hdelivery : u.delivery = s.delivery)
    (hphase : (s.subs i).phase.joined = true → phase.joined = true)
    (hkeyed : ∀ c r, r ∈ (u.clients c).registrations → r ∈ (s.clients c).registrations ∨
      r.callback.key = subKey r.thingId r.variableName) : (u.setPhase i phase).Handled := by
  refine h.quiet hrefs hdemux ?_ hdelivery hsets ?_ hkeyed
  · intro x hx
    rw [(setPhase_static u i x phase).2.2.1, hsubs]
    exact h.own x (hn ▸ hx)
  · intro x hx
    obtain ⟨-, -, -, hcb, -⟩ := setPhase_static u i x phase
    rw [hcb, setPhase_phase, hsubs]
    refine ⟨?_, rfl, hset _⟩
    split
    next hxi => exact hphase (hxi ▸ hx)
    next => exact hx

theorem handled_connected {s : CloudClientManager} (h : s.Handled) (c : ℕ) :
    (s.connected c).Handled := by
  have hset : ∀ cb, (s.connected c).setOf cb = s.setOf cb := by
    intro cb
    unfold setOf
    rw [connected_heap]
    split
    · rfl
    · rfl
  have hdemux : (s.connected c).Demux :=
    h.demux.quiet hset rfl rfl rfl fun i hi => ⟨hi, rfl, rfl, .inl rfl⟩
  refine h.quiet (refs_connected h.refs c) hdemux h.own rfl rfl (fun i hi => ⟨hi, rfl, hset _⟩) ?_
  intro x r hr
  have hsame : ((s.connected c).clients x).registrations = (s.clients x).registrations :=
    (setState_rest s c x .connected).2
  exact .inl (hsame ▸ hr)

theorem handled_connectFailed {s : CloudClientManager} (h : s.Handled) (c : ℕ) :
    (s.setState c .failed).Handled := by
  have hrefs : (s.setState c .failed).Refs :=
    h.refs.quiet rfl rfl rfl (fun _ => rfl) fun _ => ⟨rfl, rfl, rfl⟩
  have hdemux : (s.setState c .failed).Demux :=
    h.demux.quiet (fun _ => rfl) rfl rfl rfl fun i hi => ⟨hi, rfl, rfl, .inl rfl⟩
  refine h.quiet hrefs hdemux h.own rfl rfl (fun i hi => ⟨hi, rfl, rfl⟩) ?_
  intro x r hr
  exact .inl ((setState_rest s c x .failed).2 ▸ hr)

theorem handled_connectSettled {s : CloudClientManager} (h : s.Handled) {i c : ℕ}
    (hi : (s.subs i).phase = .opening c) : (s.connectSettled i c).Handled := by
  let settle := fun entry : ClientEntry => { entry with pendingConnect := none }
  have hmodified := demux_modify h.demux (s.subs i).entry settle fun _ => rfl
  have hset : ∀ cb, (s.setEntry (s.subs i).entry (settle (s.heap (s.subs i).entry))).setOf cb =
      s.setOf cb := by
    intro cb
    unfold setOf
    rw [setEntry_modify]
    split
    · rfl
    · rfl
  refine h.setPhase (u := s.setEntry (s.subs i).entry (settle (s.heap (s.subs i).entry)))
    (refs_connectSettled h.refs hi) (demux_setPhase hmodified i (.awaiting c) rfl) rfl rfl hset rfl rfl
    ?_ fun _ _ hr => .inl hr
  rw [hi]
  exact fun hjoined => hjoined

theorem handled_connectThrew {s : CloudClientManager} (h : s.Handled) {i c : ℕ}
    (hi : (s.subs i).phase = .awaiting c) : (s.connectThrew i).Handled := by
  refine h.setPhase (refs_connectThrew h.refs hi) (demux_setPhase (demux_addRef h.demux _ _) i .rejected rfl)
    rfl rfl (addRef_setOf s _ _) rfl rfl ?_ fun _ _ hr => .inl hr
  rw [hi]
  exact fun hjoined => hjoined

theorem handled_sdkResolved {s : CloudClientManager} (h : s.Handled) {i c set : ℕ}
    (hi : (s.subs i).phase = .subscribing c set) : (s.sdkResolved i c).Handled := by
  have hclient : Demux (s.setClient c { s.clients c with
      registrations := (s.clients c).registrations ++ [(s.subs i).registration] }) :=
    h.demux.quiet (fun _ => rfl) rfl rfl rfl fun x hx => ⟨hx, rfl, rfl, .inl rfl⟩
  have hin := h.demux.joined i (by rw [hi]; rfl)
  refine h.setPhase (refs_sdkResolved h.refs hi) (demux_enter hclient hin (by simp)) rfl rfl
    (fun _ => rfl) rfl rfl (fun _ => rfl) ?_
  intro x r hr
  rw [setClient_clients] at hr
  split at hr
  next hx =>
    rw [hx]
    rcases List.mem_append.mp hr with hold | hnew
    · exact .inl hold
    · rw [List.mem_singleton.mp hnew]
      exact .inr rfl
  next => exact .inl hr

/-! ### Subscriptions join -/

theorem getSet_setOf (s : CloudClientManager) (cb cb' : Callback) :
    (s.getSet cb.entry cb.key).1.setOf cb' =
      if cb' = cb then some (s.getSet cb.entry cb.key).2 else s.setOf cb' := by
  unfold getSet
  split
  next set hset =>
    split
    next hcb =>
      rw [hcb]
      exact hset
    next => rfl
  next => exact newSet_setOf s cb cb'

/-- A new set is empty. -/
theorem mem_getSet {s : CloudClientManager} {e : ℕ} {key : String} {x i : ℕ}
    (hi : i ∈ (s.getSet e key).1.sets x) : i ∈ s.sets x := by
  unfold getSet at hi
  split at hi
  · exact hi
  · dsimp only at hi
    rw [newSet_sets] at hi
    split at hi
    · contradiction
    · exact hi

theorem mem_addHandler {s : CloudClientManager} {set handler x i : ℕ}
    (hi : i ∈ (s.addHandler set handler).sets x) : i ∈ s.sets x ∨ x = set ∧ i = handler := by
  unfold addHandler at hi
  rw [setHandlers_sets] at hi
  split at hi
  next hx =>
    rw [hx]
    split at hi
    · exact .inl hi
    · rcases List.mem_append.mp hi with hold | hnew
      · exact .inl hold
      · exact .inr ⟨rfl, List.mem_singleton.mp hnew⟩
  next => exact .inl hi

theorem mark_setOf (s : CloudClientManager) (e : ℕ) (key : String) (cb : Callback) :
    (s.mark e key).setOf cb = s.setOf cb := by
  unfold setOf
  rw [mark_heap]
  split
  · rfl
  · rfl

/-- A subscription comes into the set of its key. -/
theorem Handled.enter {s u : CloudClientManager} (h : s.Handled) {i : ℕ} (set : ℕ) {phase : Phase}
    (hrefs : (u.setPhase i phase).Refs) (hdemux : (u.setPhase i phase).Demux)
    (hout : (s.subs i).phase.joined = false) (hphase : phase.joined = true)
    (hidle : s.delivery = none) (hdelivery : u.delivery = s.delivery) (hsubs : u.subs = s.subs)
    (hn : u.nextSub = s.nextSub) (hclients : u.clients = s.clients)
    (hset : ∀ cb, u.setOf cb = if cb = (s.subs i).callback then some set else s.setOf cb)
    (hheld : ∀ x, s.setOf (s.subs i).callback = some x → x = set)
    (hsets : ∀ x j, j ∈ u.sets x → j ∈ s.sets x ∨ x = set ∧ j = i) : (u.setPhase i phase).Handled where
  refs := hrefs
  demux := hdemux
  own x hx := by
    rw [(setPhase_static u i x phase).2.2.1, hsubs]
    exact h.own x (hn ▸ hx)
  member x j hj := by
    obtain ⟨-, -, -, hcb, -⟩ := setPhase_static u i j phase
    change _ ∧ u.setOf _ = some x
    rw [hcb, setPhase_phase, hsubs, hset]
    rcases hsets x j hj with hold | ⟨rfl, rfl⟩
    · obtain ⟨hjoined, hget⟩ := h.member x j hold
      have hne : j ≠ i := by
        rintro rfl
        rw [hout] at hjoined
        contradiction
      rw [if_neg hne]
      refine ⟨hjoined, ?_⟩
      split
      next hsame =>
        rw [hsame] at hget
        rw [hheld x hget]
      next => exact hget
    · rw [if_pos rfl, if_pos rfl]
      exact ⟨hphase, rfl⟩
  walk d hd := by
    change u.delivery = some d at hd
    rw [hdelivery, hidle] at hd
    contradiction
  keyed c r hr := by
    change r ∈ (u.clients c).registrations at hr
    rw [hclients] at hr
    exact h.keyed c r hr

theorem handled_join {s : CloudClientManager} (h : s.Handled) {i c : ℕ} (hidle : s.delivery = none)
    (hi : (s.subs i).phase = .awaiting c) : (s.join i c).Handled := by
  have hholding : (s.subs i).phase.holding = true := by
    rw [hi]
    rfl
  have hout : (s.subs i).phase.joined = false := by
    rw [hi]
    rfl
  have hhandler := h.handler hholding
  obtain ⟨hgot, hin⟩ := demux_getSet h.demux hidle (s.subs i).callback
  have hset : ∀ cb, (s.getSet (s.subs i).entry (s.subs i).key).1.setOf cb =
      if cb = (s.subs i).callback then some (s.getSet (s.subs i).entry (s.subs i).key).2
      else s.setOf cb := getSet_setOf s (s.subs i).callback
  have hsets : ∀ x j, j ∈ (s.getSet (s.subs i).entry (s.subs i).key).1.sets x → j ∈ s.sets x :=
    fun x j => mem_getSet
  have hdelivery : (s.getSet (s.subs i).entry (s.subs i).key).1.delivery = s.delivery := by
    unfold getSet
    split
    · rfl
    · rfl
  have hheld : ∀ x, s.setOf (s.subs i).callback = some x →
      x = (s.getSet (s.subs i).entry (s.subs i).key).2 := by
    intro x hx
    unfold getSet
    change (s.heap (s.subs i).entry).handlers.get (s.subs i).key = some x at hx
    rw [hx]
  obtain ⟨hentries, hnext, hsubs, hn, hclients, -, hheap⟩ :=
    getSet_rest s (s.subs i).entry (s.subs i).key
  unfold join
  dsimp only
  change (s.getSet (s.subs i).entry (s.subs i).key).1.Demux at hgot
  change (s.getSet (s.subs i).entry (s.subs i).key).1.setOf _ =
    some (s.getSet (s.subs i).entry (s.subs i).key).2 at hin
  generalize s.getSet (s.subs i).entry (s.subs i).key = got at *
  obtain ⟨t, set⟩ := got
  dsimp only at *
  have hrefs : (t.addHandler set (s.subs i).handler).Refs :=
    h.refs.quiet hentries hnext hn (fun e => (hheap e).2.2.2) fun x =>
      ⟨congrArg Subscription.entry (congrFun hsubs x), congrArg Subscription.credentialKey (congrFun hsubs x),
        congrArg (fun sub => sub.phase.holding) (congrFun hsubs x)⟩
  have hdemux := demux_addHandler hgot set (s.subs i).handler
  have hmem : (s.subs i).handler ∈ (t.addHandler set (s.subs i).handler).sets set :=
    (addHandler_sets t set _ set).2
  have hadded : ∀ x j, j ∈ (t.addHandler set (s.subs i).handler).sets x → j ∈ s.sets x ∨ x = set ∧ j = i := by
    intro x j hj
    rcases mem_addHandler hj with hold | ⟨hx, hji⟩
    · exact .inl (hsets x j hold)
    · exact .inr ⟨hx, hji.trans hhandler⟩
  have hsubs' : (t.addHandler set (s.subs i).handler).subs = s.subs := hsubs
  have hset' : ∀ cb, (t.addHandler set (s.subs i).handler).setOf cb =
      if cb = (s.subs i).callback then some set else s.setOf cb := hset
  have hdelivery' : (t.addHandler set (s.subs i).handler).delivery = s.delivery := hdelivery
  have hn' : (t.addHandler set (s.subs i).handler).nextSub = s.nextSub := hn
  have hclients' : (t.addHandler set (s.subs i).handler).clients = s.clients := hclients
  generalize t.addHandler set (s.subs i).handler = u at *
  split
  next =>
    refine h.enter set (refs_setPhase hrefs .resolved ?_) (demux_enter hdemux ?_ (by simp)) hout rfl hidle
      hdelivery' hsubs' hn' hclients' hset' hheld hadded
    · rw [hsubs', hholding]
      rfl
    · rw [hsubs']
      exact ⟨set, by rw [hset', if_pos rfl], hmem⟩
  next =>
    let add := fun entry : ClientEntry =>
      { entry with sdkSubscribed := entry.sdkSubscribed ++ [(s.subs i).key] }
    have hmarked : (u.mark (s.subs i).entry (s.subs i).key).Demux :=
      demux_modify hdemux (s.subs i).entry add fun _ => rfl
    have hset'' : ∀ cb, (u.mark (s.subs i).entry (s.subs i).key).setOf cb =
        if cb = (s.subs i).callback then some set else s.setOf cb :=
      fun cb => (mark_setOf u _ _ cb).trans (hset' cb)
    have hcb : (u.mark (s.subs i).entry (s.subs i).key).setOf
        ((u.mark (s.subs i).entry (s.subs i).key).subs i).callback = some set := by
      change (u.mark _ _).setOf (u.subs i).callback = some set
      rw [hsubs', hset'', if_pos rfl]
    refine h.enter set (refs_setPhase (refs_modify hrefs (s.subs i).entry add fun _ => rfl)
      (.subscribing c set) ?_) (demux_enter hmarked ⟨set, hcb, ?_⟩ ?_) hout rfl hidle hdelivery' hsubs'
      hn' hclients' hset'' hheld hadded
    · change true = (u.subs i).phase.holding
      rw [hsubs', hholding]
    · change (u.subs i).handler ∈ u.sets set
      rw [hsubs']
      exact hmem
    · intro c' set' hphase
      cases hphase
      exact hcb

/-! ### Subscriptions leave -/

theorem handled_release {s u : CloudClientManager} (h : s.Handled) {i : ℕ} (phase : Phase)
    (hrefs : (u.addRef (s.subs i).entry (-1)).Refs) (hdemux : u.Demux)
    (hkey : u.entries.get (s.subs i).credentialKey = some (s.subs i).entry)
    (hdelivery : u.delivery = s.delivery) (hsubs : u.subs = (s.setPhase i phase).subs)
    (hn : u.nextSub = s.nextSub) (hclients : u.clients = s.clients)
    (hsets : ∀ x j, j ∈ u.sets x → j ∈ s.sets x ∧ j ≠ i)
    (hset : ∀ x j, j ∈ u.sets x → u.setOf (s.subs j).callback = some x) :
    (u.release (s.subs i).credentialKey (s.subs i).entry).Handled := by
  have hstatic := fun x => setPhase_static s i x phase
  have hown : ∀ x < s.nextSub, ((s.setPhase i phase).subs x).handler = x := by
    intro x hx
    rw [(hstatic x).2.2.1]
    exact h.own x hx
  have hjoined : ∀ x j, j ∈ u.sets x → ((s.setPhase i phase).subs j).phase.joined = true := by
    intro x j hj
    obtain ⟨hold, hne⟩ := hsets x j hj
    rw [setPhase_phase, if_neg hne]
    exact (h.member x j hold).1
  unfold release
  dsimp only
  split
  next hzero =>
    have hmapped : (u.addRef (s.subs i).entry (-1)).entries.get (s.subs i).credentialKey =
        some (s.subs i).entry := hkey
    have hunused := fun x => hrefs.unused hmapped hzero (i := x)
    obtain ⟨-, -, hn', hsubs', hsets', -, -, hdelivery'⟩ :=
      teardown_rest (u.addRef (s.subs i).entry (-1)) (s.subs i).credentialKey (s.subs i).entry
    have hall : ((u.addRef (s.subs i).entry (-1)).teardown (s.subs i).credentialKey
        (s.subs i).entry).subs = (s.setPhase i phase).subs := hsubs'.trans hsubs
    refine h.frame (refs_teardown hrefs hmapped hzero)
      (demux_teardown (demux_addRef hdemux _ _) hunused) ?_ (hdelivery'.trans hdelivery) ?_ ?_
    · intro x hx
      rw [hall]
      exact hown x (by rw [hn'] at hx; exact hn ▸ hx)
    · intro x j hj
      rw [hsets'] at hj
      have hin : j ∈ u.sets x := hj
      have hholding := Phase.holding_of_joined (hjoined x j hin)
      rw [hall, (hstatic j).2.2.2.1, teardown_setOf, addRef_setOf]
      refine ⟨(hsets x j hin).1, hjoined x j hin, rfl, ?_⟩
      rw [if_neg]
      · exact hset x j hin
      · have hne := hunused j (by change (u.subs j).phase.holding = true; rw [hsubs]; exact hholding)
        change (u.subs j).entry ≠ _ at hne
        rw [hsubs, (hstatic j).1] at hne
        exact hne
    · intro c r hr
      rw [teardown_clients] at hr
      left
      rw [← hclients]
      split at hr
      · exact hr
      · exact hr
  next =>
    refine h.frame hrefs (demux_addRef hdemux _ _) ?_ hdelivery ?_ ?_
    · intro x hx
      change (u.subs x).handler = x
      rw [hsubs]
      exact hown x (hn ▸ hx)
    · intro x j hj
      have hin : j ∈ u.sets x := hj
      change _ ∧ (u.subs j).phase.joined = true ∧ (u.subs j).callback = _ ∧ _
      rw [hsubs, (hstatic j).2.2.2.1, addRef_setOf]
      exact ⟨(hsets x j hin).1, hjoined x j hin, rfl, hset x j hin⟩
    · intro c r hr
      change r ∈ (u.clients c).registrations at hr
      rw [hclients] at hr
      exact .inl hr

/-- A handler that is taken out of the set of its key is in no set any more, and nobody else is taken
out. -/
theorem deleteHandler_members {s u : CloudClientManager} (h : s.Handled) {i set : ℕ}
    (hi : (s.subs i).phase.joined = true) (hset : s.setOf (s.subs i).callback = some set)
    (husets : u.sets = s.sets) (huset : ∀ cb, u.setOf cb = s.setOf cb) :
    let t := u.deleteHandler (s.subs i).entry (s.subs i).key set (s.subs i).handler
    (∀ x j, j ∈ t.sets x → j ∈ s.sets x ∧ j ≠ i) ∧
      ∀ x j, j ∈ t.sets x → t.setOf (s.subs j).callback = some x := by
  have hhandler := h.handler (Phase.holding_of_joined hi)
  have hleft : ∀ x j, j ∈ (u.deleteHandler (s.subs i).entry (s.subs i).key set
      (s.subs i).handler).sets x → j ∈ s.sets x ∧ j ≠ i := by
    intro x j hj
    rw [deleteHandler_sets, husets, hhandler] at hj
    split at hj
    next =>
      obtain ⟨hold, hne⟩ := List.mem_filter.mp hj
      exact ⟨hold, of_decide_eq_true hne⟩
    next hx =>
      refine ⟨hj, ?_⟩
      rintro rfl
      exact hx (Option.some.inj ((h.member x j hj).2.symm.trans hset))
  refine ⟨hleft, ?_⟩
  intro x j hj
  obtain ⟨hold, hne⟩ := hleft x j hj
  have hget := (h.member x j hold).2
  rcases deleteHandler_setOf u (s.subs i).callback (s.subs j).callback set (s.subs i).handler with
    hsame | ⟨hcb, -, hempty⟩
  · exact hsame.trans ((huset _).trans hget)
  · rw [hcb, hset] at hget
    cases hget
    have hin : j ∈ (u.sets set).filter fun x => decide (x ≠ (s.subs i).handler) := by
      rw [husets, hhandler]
      exact List.mem_filter.mpr ⟨hold, decide_eq_true hne⟩
    rw [hempty] at hin
    contradiction

/-- Handlers of two subscriptions differ. -/
theorem Handled.nobody {s u : CloudClientManager} (h : s.Handled) {i : ℕ} (phase : Phase)
    (hi : (s.subs i).phase.holding = true) (hphase : phase.joined = false)
    (husubs : u.subs = (s.setPhase i phase).subs) (j : ℕ) (hj : (u.subs j).phase.joined = true) :
    (u.subs j).handler ≠ (s.subs i).handler := by
  rw [husubs, setPhase_phase] at hj
  split at hj
  next =>
    rw [hphase] at hj
    contradiction
  next hne =>
    rw [husubs, (setPhase_static s i j phase).2.2.1, h.handler (Phase.holding_of_joined hj),
      h.handler hi]
    exact hne

theorem handled_sdkThrew {s : CloudClientManager} (h : s.Handled) {i c set : ℕ}
    (hi : (s.subs i).phase = .subscribing c set) : (s.sdkThrew i set).Handled := by
  have hjoined : (s.subs i).phase.joined = true := by
    rw [hi]
    rfl
  have hholding := Phase.holding_of_joined hjoined
  have hheap := unmark_heap s (s.subs i).entry (s.subs i).key
  let drop := fun entry : ClientEntry => { entry with
    sdkSubscribed := entry.sdkSubscribed.filter fun k => decide (k ≠ (s.subs i).key) }
  have hunmarked : (s.unmark (s.subs i).entry (s.subs i).key).Demux :=
    demux_modify h.demux (s.subs i).entry drop fun _ => rfl
  have hset : s.setOf (s.subs i).callback = some set := h.demux.captured i c set hi
  have huset : ∀ cb, ((s.unmark (s.subs i).entry (s.subs i).key).setPhase i .rejected).setOf cb =
      s.setOf cb := by
    intro cb
    refine congrArg (fun entry => entry.handlers.get cb.key) (hheap cb.entry) |>.trans ?_
    split
    · rfl
    · rfl
  have hcount : ∀ x, (((s.unmark (s.subs i).entry (s.subs i).key).setPhase i .rejected).heap x).refCount =
      (s.heap x).refCount := by
    intro x
    refine (congrArg ClientEntry.refCount (hheap x)).trans ?_
    split
    · rfl
    · rfl
  have hdemux := demux_deleteHandler (demux_setPhase hunmarked i .rejected rfl) ((huset _).trans hset)
    fun j hj _ => h.nobody .rejected hholding rfl rfl j hj
  obtain ⟨hmembers, hmapped⟩ := deleteHandler_members
    (u := (s.unmark (s.subs i).entry (s.subs i).key).setPhase i .rejected) h hjoined hset rfl huset
  obtain ⟨hentries, -, hsubs, hn, hclients, -, -, hdelivery⟩ := deleteHandler_rest
    ((s.unmark (s.subs i).entry (s.subs i).key).setPhase i .rejected) (s.subs i).entry (s.subs i).key
    set (s.subs i).handler
  have hrefs := refs_leave (t := (s.unmark (s.subs i).entry (s.subs i).key).setPhase i .rejected) h.refs
    .rejected rfl (.inl hholding) rfl rfl rfl rfl hcount (s.subs i).key set (s.subs i).handler
  rw [sdkThrew_eq]
  exact handled_release h .rejected hrefs hdemux
    ((congrArg (InsertMap.get · _) hentries).trans (h.refs.current i hholding)) hdelivery hsubs hn
    hclients hmembers hmapped

theorem handled_tearDown {s : CloudClientManager} (h : s.Handled) {i : ℕ}
    (hi : (s.subs i).phase = .resolved) : (s.tearDown i).Handled := by
  have hjoined : (s.subs i).phase.joined = true := by
    rw [hi]
    rfl
  have hholding := Phase.holding_of_joined hjoined
  obtain ⟨set, hset, -⟩ := h.demux.joined i hjoined
  have hdemux := demux_deleteHandler (demux_setPhase h.demux i .released rfl)
    (show (s.setPhase i .released).setOf (s.subs i).callback = some set from hset)
    fun j hj _ => h.nobody .released hholding rfl rfl j hj
  obtain ⟨hmembers, hmapped⟩ := deleteHandler_members (u := s.setPhase i .released) h hjoined hset rfl
    fun _ => rfl
  obtain ⟨hentries, -, hsubs, hn, hclients, -, -, hdelivery⟩ := deleteHandler_rest
    (s.setPhase i .released) (s.subs i).entry (s.subs i).key set (s.subs i).handler
  have hrefs := refs_leave (t := s.setPhase i .released) h.refs .released rfl (.inl hholding) rfl rfl rfl
    rfl (fun _ => rfl) (s.subs i).key set (s.subs i).handler
  rw [tearDown_eq, hset]
  exact handled_release h .released hrefs hdemux
    ((congrArg (InsertMap.get · _) hentries).trans (h.refs.current i hholding)) hdelivery hsubs hn
    hclients hmembers hmapped

/-! ### Runs -/

theorem handled_onValue {s : CloudClientManager} (h : s.Handled) (cb : Callback) (value : JsValue) :
    (s.onValue cb value).Handled := by
  have hdemux := demux_onValue h.demux cb value
  unfold onValue at hdemux ⊢
  split at hdemux
  next => exact h
  next set hset =>
    have hrefs : Refs { s with delivery := some ⟨cb, set, value, []⟩ } :=
      h.refs.quiet rfl rfl rfl (fun _ => rfl) fun _ => ⟨rfl, rfl, rfl⟩
    refine ⟨hrefs, hdemux, h.own, h.member, ?_, h.keyed⟩
    intro d hd
    cases hd
    exact .inr hset

theorem handled_call {s : CloudClientManager} (h : s.Handled) {d : Delivery} {handler : ℕ}
    {rest : List ℕ} (hd : s.delivery = some d) (hahead : s.ahead d = handler :: rest)
    (outcome : Except String Unit) : (s.call d handler outcome).Handled := by
  have hdemux := demux_call h.demux hd hahead outcome
  have hdelivery := call_delivery s d handler outcome
  obtain ⟨hentries, hnext, hsubs, hn, hheap, hsets, hclients, -⟩ := call_rest s d handler outcome
  have hset : ∀ cb, (s.call d handler outcome).setOf cb = s.setOf cb := by
    intro cb
    unfold setOf
    rw [hheap]
  refine ⟨?_, hdemux, ?_, ?_, ?_, ?_⟩
  · refine h.refs.quiet hentries hnext hn (fun e => by rw [hheap]) fun x => ?_
    rw [hsubs]
    exact ⟨rfl, rfl, rfl⟩
  · rw [hsubs, hn]
    exact h.own
  · intro set i hi
    rw [hsets] at hi
    rw [hsubs, hset]
    exact h.member set i hi
  · intro d' hd'
    rw [hdelivery] at hd'
    cases hd'
    rw [hsets, hset]
    exact h.walk d hd
  · rw [hclients]
    exact h.keyed

theorem handled_delivered {s : CloudClientManager} (h : s.Handled) :
    Handled { s with delivery := none } where
  refs := h.refs.quiet rfl rfl rfl (fun _ => rfl) fun _ => ⟨rfl, rfl, rfl⟩
  demux := demux_delivered h.demux
  own := h.own
  member := h.member
  walk d hd := by contradiction
  keyed := h.keyed

theorem handled_step {s t : CloudClientManager} {e : Event} (h : s.Handled) (hs : s.step e = some t)
    (hok : Separate s e t) : t.Handled := by
  obtain ⟨ht, hidle⟩ := turns_of_step hs
  cases ht with
  | subscribe credentialKey credential thingId variableName handler =>
    obtain rfl : handler = s.nextSub := hok
    exact handled_subscribe h ..
  | connected c hc => exact handled_connected h c
  | connectFailed c hc => exact handled_connectFailed h c
  | connectSettled i c hi hc => exact handled_connectSettled h hi
  | connectThrew i c hi hc => exact handled_connectThrew h hi
  | join i c hi hc => exact handled_join h (hidle rfl) hi
  | sdkResolved i c set hi => exact handled_sdkResolved h hi
  | sdkThrew i c set hi => exact handled_sdkThrew h hi
  | tearDown i hi => exact handled_tearDown h hok
  | deliver c r value hr => exact handled_onValue h r.callback value
  | call d handler rest outcome hd hahead => exact handled_call h hd hahead outcome
  | delivered d hd hahead => exact handled_delivered h

theorem handled_reach {s : CloudClientManager} (h : machine.Reach Separate s) : s.Handled :=
  h.invariant (fun _ hinit => hinit ▸ handled_initial) fun _ _ _ _ hi hs hok => handled_step hi hs hok

end CloudClientManager

end UnoQ.Cloud
