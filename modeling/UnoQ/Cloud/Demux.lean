import UnoQ.Cloud.References

/-!
# The handler sets of a cloud entry

Each key of each entry has a set of its own, and the handler of a subscription that has joined is in
the set of its key. A callback walks over the set that its key had when it was called, as no handler
joins meanwhile.
-/

namespace UnoQ.Cloud
open Transition Codec

/-- The handler is in its set, and has not been taken out by its own call. -/
def Phase.joined : Phase → Bool
  | .subscribing _ _ => true
  | .resolved => true
  | _ => false

theorem Phase.holding_of_joined {phase : Phase} (h : phase.joined = true) :
    phase.holding = true := by
  cases phase with
  | subscribing c set => rfl
  | resolved => rfl
  | opening c => contradiction
  | awaiting c => contradiction
  | rejected => contradiction
  | released => contradiction

namespace CloudClientManager

def setOf (s : CloudClientManager) (callback : Callback) : Option ℕ :=
  (s.heap callback.entry).handlers.get callback.key

def Demuxed (s : CloudClientManager) (sub : Subscription) : Prop :=
  ∃ set, s.setOf sub.callback = some set ∧ sub.handler ∈ s.sets set

structure Demux (s : CloudClientManager) : Prop where
  lt : ∀ cb set, s.setOf cb = some set → set < s.nextSet
  inj : ∀ cb cb' set, s.setOf cb = some set → s.setOf cb' = some set → cb = cb'
  joined : ∀ i, (s.subs i).phase.joined = true → s.Demuxed (s.subs i)
  captured : ∀ i c set, (s.subs i).phase = .subscribing c set → s.setOf (s.subs i).callback = some set
  called : ∀ d, s.delivery = some d → d.called.Nodup
  walk : ∀ d set, s.delivery = some d → s.setOf d.callback = some set → set = d.set

theorem setOf_initial (cb : Callback) : initial.setOf cb = none := InsertMap.get_empty _

theorem demux_initial : initial.Demux where
  lt cb set h := by simp [setOf_initial] at h
  inj cb cb' set h := by simp [setOf_initial] at h
  joined i h := by simp [initial, Subscription.absent, Phase.joined] at h
  captured i c set h := by simp [initial, Subscription.absent] at h
  called d h := by simp [initial] at h
  walk d set h := by simp [initial] at h

/-- A step that leaves the sets alone and lets no subscription join. -/
theorem Demux.quiet {s t : CloudClientManager} (h : s.Demux) (hset : ∀ cb, t.setOf cb = s.setOf cb)
    (hsets : t.sets = s.sets) (hnext : t.nextSet = s.nextSet) (hdelivery : t.delivery = s.delivery)
    (hsubs : ∀ i, (t.subs i).phase.joined = true → (s.subs i).phase.joined = true ∧
      (t.subs i).callback = (s.subs i).callback ∧ (t.subs i).handler = (s.subs i).handler ∧
      ((t.subs i).phase = (s.subs i).phase ∨ (t.subs i).phase = .resolved)) : t.Demux where
  lt cb set hcb := by
    rw [hset] at hcb
    rw [hnext]
    exact h.lt cb set hcb
  inj cb cb' set hcb hcb' := by
    rw [hset] at hcb hcb'
    exact h.inj cb cb' set hcb hcb'
  joined i hi := by
    obtain ⟨hj, hcb, hh, -⟩ := hsubs i hi
    obtain ⟨set, hget, hmem⟩ := h.joined i hj
    refine ⟨set, ?_, ?_⟩
    · rw [hset, hcb]
      exact hget
    · rw [hsets, hh]
      exact hmem
  captured i c set hi := by
    obtain ⟨-, hcb, -, hp⟩ := hsubs i (by rw [hi]; rfl)
    rcases hp with hp | hp
    · rw [hset, hcb]
      exact h.captured i c set (hp.symm.trans hi)
    · rw [hi] at hp
      contradiction
  called d hd := by
    rw [hdelivery] at hd
    exact h.called d hd
  walk d set hd hcb := by
    rw [hdelivery] at hd
    rw [hset] at hcb
    exact h.walk d set hd hcb

theorem demux_setPhase {s : CloudClientManager} (h : s.Demux) (i : ℕ) (phase : Phase)
    (hphase : phase.joined = false) : (s.setPhase i phase).Demux := by
  refine h.quiet (fun _ => rfl) rfl rfl rfl ?_
  intro x hx
  rw [setPhase_phase] at hx
  rw [setPhase_subs]
  split at hx
  · rw [hphase] at hx
    contradiction
  next hne =>
    rw [if_neg hne]
    exact ⟨hx, rfl, rfl, Or.inl rfl⟩

theorem demux_modify {s : CloudClientManager} (h : s.Demux) (e : ℕ) (f : ClientEntry → ClientEntry)
    (hf : ∀ entry, (f entry).handlers = entry.handlers) : (s.setEntry e (f (s.heap e))).Demux := by
  refine h.quiet (fun cb => ?_) rfl rfl rfl (fun i hi => ⟨hi, rfl, rfl, Or.inl rfl⟩)
  unfold setOf
  rw [setEntry_modify]
  split
  · rw [hf]
  · rfl

theorem demux_addRef {s : CloudClientManager} (h : s.Demux) (e : ℕ) (n : ℤ) :
    (s.addRef e n).Demux :=
  demux_modify h e (fun entry => { entry with refCount := entry.refCount + n }) fun _ => rfl

/-! ### Subscriptions begin and join -/

theorem demux_newEntry {s : CloudClientManager} (h : s.Demux) (hr : s.Refs) (credentialKey : String) :
    (s.newEntry credentialKey).Demux := by
  have hset : ∀ cb, (s.newEntry credentialKey).setOf cb =
      if cb.entry = s.nextEntry then none else s.setOf cb := by
    intro cb
    unfold setOf
    rw [newEntry_heap]
    split <;> rfl
  have hold : ∀ cb set, (s.newEntry credentialKey).setOf cb = some set → s.setOf cb = some set := by
    intro cb set hcb
    rw [hset] at hcb
    split at hcb
    · contradiction
    · exact hcb
  have hjoined : ∀ i, (s.subs i).phase.joined = true →
      (s.newEntry credentialKey).setOf (s.subs i).callback = s.setOf (s.subs i).callback := by
    intro i hi
    have hlt := hr.entry_lt (Phase.holding_of_joined hi)
    rw [hset, if_neg]
    exact Nat.ne_of_lt hlt
  constructor
  · exact fun cb set hcb => h.lt cb set (hold cb set hcb)
  · exact fun cb cb' set hcb hcb' => h.inj cb cb' set (hold cb set hcb) (hold cb' set hcb')
  · intro i hi
    obtain ⟨set, hget, hmem⟩ := h.joined i hi
    exact ⟨set, (hjoined i hi).trans hget, hmem⟩
  · intro i c set hi
    have hi' : (s.subs i).phase = .subscribing c set := hi
    exact (hjoined i (by rw [hi']; rfl)).trans (h.captured i c set hi)
  · exact h.called
  · exact fun d set hd hcb => h.walk d set hd (hold _ set hcb)

/-- A new subscription has not joined. -/
theorem demux_addSub {s : CloudClientManager} (h : s.Demux) {sub : Subscription}
    (hsub : sub.phase.joined = false) : (s.addSub sub).Demux := by
  refine h.quiet (fun _ => rfl) rfl rfl rfl ?_
  intro i hi
  rw [addSub_subs] at hi ⊢
  split at hi
  · rw [hsub] at hi
    contradiction
  next hne =>
    rw [if_neg hne]
    exact ⟨hi, rfl, rfl, Or.inl rfl⟩

theorem newSet_setOf (s : CloudClientManager) (cb cb' : Callback) :
    (s.newSet cb.entry cb.key).setOf cb' = if cb' = cb then some s.nextSet else s.setOf cb' := by
  obtain ⟨e, key⟩ := cb
  obtain ⟨e', key'⟩ := cb'
  unfold setOf newSet
  dsimp only
  rw [setEntry_heap]
  by_cases he : e' = e
  · subst he
    rw [if_pos rfl]
    dsimp only
    rw [InsertMap.get_set]
    by_cases hk : key = key'
    · exact (if_pos hk).trans (if_pos (by rw [hk])).symm
    · exact (if_neg hk).trans (if_neg (by simpa using fun h => hk h.symm)).symm
  · rw [if_neg he]
    exact (if_neg (by simp [he])).symm

theorem newSet_sets (s : CloudClientManager) (e : ℕ) (key : String) (x : ℕ) :
    (s.newSet e key).sets x = if x = s.nextSet then [] else s.sets x :=
  setHandlers_sets s s.nextSet x []

theorem demux_newSet {s : CloudClientManager} (h : s.Demux) (hd : s.delivery = none) {cb : Callback}
    (hnone : s.setOf cb = none) : (s.newSet cb.entry cb.key).Demux := by
  have hset := newSet_setOf s cb
  have hne : ∀ cb' set, s.setOf cb' = some set → cb' ≠ cb := by
    rintro cb' set hcb rfl
    rw [hnone] at hcb
    contradiction
  have hold : ∀ cb' set, s.setOf cb' = some set →
      (s.newSet cb.entry cb.key).setOf cb' = some set := by
    intro cb' set hcb
    rw [hset, if_neg (hne cb' set hcb)]
    exact hcb
  constructor
  · intro cb' set hcb
    change set < s.nextSet + 1
    rw [hset] at hcb
    split at hcb
    · cases hcb
      omega
    · have := h.lt cb' set hcb
      omega
  · intro cb₁ cb₂ set h₁ h₂
    rw [hset] at h₁ h₂
    split at h₁ <;> split at h₂
    next he₁ he₂ => rw [he₁, he₂]
    next =>
      cases h₁
      exact absurd (h.lt cb₂ _ h₂) (Nat.lt_irrefl _)
    next =>
      cases h₂
      exact absurd (h.lt cb₁ _ h₁) (Nat.lt_irrefl _)
    next => exact h.inj cb₁ cb₂ set h₁ h₂
  · intro i hi
    obtain ⟨set, hget, hmem⟩ := h.joined i hi
    have hlt := h.lt _ set hget
    refine ⟨set, hold _ set hget, ?_⟩
    rw [newSet_sets, if_neg (by omega)]
    exact hmem
  · exact fun i c set hi => hold _ set (h.captured i c set hi)
  · exact h.called
  · intro d set hd'
    have hnot : s.delivery = some d := hd'
    rw [hd] at hnot
    contradiction

theorem demux_getSet {s : CloudClientManager} (h : s.Demux) (hd : s.delivery = none) (cb : Callback) :
    (s.getSet cb.entry cb.key).1.Demux ∧
      (s.getSet cb.entry cb.key).1.setOf cb = some (s.getSet cb.entry cb.key).2 := by
  unfold getSet
  split
  next set hset => exact ⟨h, hset⟩
  next hnone =>
    refine ⟨demux_newSet h hd hnone, ?_⟩
    rw [newSet_setOf, if_pos rfl]

theorem addHandler_sets (s : CloudClientManager) (set handler x : ℕ) :
    (∀ y ∈ s.sets x, y ∈ (s.addHandler set handler).sets x) ∧
      handler ∈ (s.addHandler set handler).sets set := by
  unfold addHandler
  constructor
  · intro y hy
    rw [setHandlers_sets]
    split
    next hx =>
      subst hx
      split
      · exact hy
      · exact List.mem_append_left _ hy
    · exact hy
  · rw [setHandlers_sets, if_pos rfl]
    split
    next hmem => exact hmem
    · exact List.mem_append_right _ (List.mem_singleton_self _)

/-- Sets only grow, and what is in its set stays there. -/
theorem demux_addHandler {s : CloudClientManager} (h : s.Demux) (set handler : ℕ) :
    (s.addHandler set handler).Demux where
  lt := h.lt
  inj := h.inj
  joined i hi := by
    obtain ⟨x, hget, hmem⟩ := h.joined i hi
    exact ⟨x, hget, (addHandler_sets s set handler x).1 _ hmem⟩
  captured := h.captured
  called := h.called
  walk := h.walk

/-- A subscription whose handler is in its set has joined. -/
theorem demux_enter {s : CloudClientManager} (h : s.Demux) {i : ℕ} {phase : Phase}
    (hin : s.Demuxed (s.subs i))
    (hset : ∀ c set, phase = .subscribing c set → s.setOf (s.subs i).callback = some set) :
    (s.setPhase i phase).Demux where
  lt := h.lt
  inj := h.inj
  joined x hx := by
    obtain ⟨-, -, hh, hcb, -⟩ := setPhase_static s i x phase
    rw [setPhase_phase] at hx
    have hd : s.Demuxed (s.subs x) := by
      split at hx
      next hxi =>
        rw [hxi]
        exact hin
      · exact h.joined x hx
    obtain ⟨set, hget, hmem⟩ := hd
    refine ⟨set, ?_, ?_⟩
    · rw [hcb]
      exact hget
    · rw [hh]
      exact hmem
  captured x c set hx := by
    obtain ⟨-, -, -, hcb, -⟩ := setPhase_static s i x phase
    rw [setPhase_phase] at hx
    rw [hcb]
    split at hx
    next hxi =>
      rw [hxi]
      exact hset c set hx
    · exact h.captured x c set hx
  called := h.called
  walk := h.walk

/-! ### Handlers leave -/

theorem deleteHandler_rest (s : CloudClientManager) (e : ℕ) (key : String) (set handler : ℕ) :
    (s.deleteHandler e key set handler).entries = s.entries ∧
      (s.deleteHandler e key set handler).nextEntry = s.nextEntry ∧
      (s.deleteHandler e key set handler).subs = s.subs ∧
      (s.deleteHandler e key set handler).nextSub = s.nextSub ∧
      (s.deleteHandler e key set handler).clients = s.clients ∧
      (s.deleteHandler e key set handler).nextClient = s.nextClient ∧
      (s.deleteHandler e key set handler).nextSet = s.nextSet ∧
      (s.deleteHandler e key set handler).delivery = s.delivery := by
  unfold deleteHandler
  dsimp only
  split <;> exact ⟨rfl, rfl, rfl, rfl, rfl, rfl, rfl, rfl⟩

theorem deleteHandler_heap (s : CloudClientManager) (e : ℕ) (key : String) (set handler x : ℕ) :
    ((s.deleteHandler e key set handler).heap x).client = (s.heap x).client ∧
      ((s.deleteHandler e key set handler).heap x).pendingConnect = (s.heap x).pendingConnect ∧
      ((s.deleteHandler e key set handler).heap x).sdkSubscribed = (s.heap x).sdkSubscribed ∧
      ((s.deleteHandler e key set handler).heap x).refCount = (s.heap x).refCount := by
  unfold deleteHandler
  dsimp only
  split
  · rw [setEntry_heap]
    split
    next hx => rw [hx]; exact ⟨rfl, rfl, rfl, rfl⟩
    · exact ⟨rfl, rfl, rfl, rfl⟩
  · exact ⟨rfl, rfl, rfl, rfl⟩

theorem deleteHandler_sets (s : CloudClientManager) (e : ℕ) (key : String) (set handler x : ℕ) :
    (s.deleteHandler e key set handler).sets x =
      if x = set then (s.sets x).filter fun h => decide (h ≠ handler) else s.sets x := by
  have hset : (s.deleteHandler e key set handler).sets x =
      (s.setHandlers set ((s.sets set).filter fun h => decide (h ≠ handler))).sets x := by
    unfold deleteHandler
    dsimp only
    split <;> rfl
  rw [hset, setHandlers_sets]
  split
  next hx => rw [hx]
  · rfl

/-- A key loses its set only when that has been left empty. -/
theorem deleteHandler_setOf (s : CloudClientManager) (cb cb' : Callback) (set handler : ℕ) :
    (s.deleteHandler cb.entry cb.key set handler).setOf cb' = s.setOf cb' ∨
      cb' = cb ∧ (s.deleteHandler cb.entry cb.key set handler).setOf cb' = none ∧
        (s.sets set).filter (fun h => decide (h ≠ handler)) = [] := by
  obtain ⟨e, key⟩ := cb
  obtain ⟨e', key'⟩ := cb'
  unfold deleteHandler setOf
  dsimp only
  split
  next hempty =>
    rw [setEntry_heap]
    by_cases he : e' = e
    · subst he
      rw [if_pos rfl]
      dsimp only
      rw [InsertMap.get_delete]
      by_cases hk : key = key'
      · subst hk
        exact Or.inr ⟨rfl, if_pos rfl, hempty⟩
      · exact Or.inl (if_neg hk)
    · rw [if_neg he]
      exact Or.inl rfl
  · exact Or.inl rfl

theorem setOf_of_deleteHandler {s : CloudClientManager} {cb cb' : Callback} {set handler x : ℕ}
    (h : (s.deleteHandler cb.entry cb.key set handler).setOf cb' = some x) :
    s.setOf cb' = some x := by
  rcases deleteHandler_setOf s cb cb' set handler with hsame | ⟨-, hnone, -⟩
  · rw [← hsame]
    exact h
  · rw [hnone] at h
    contradiction

/-- A handler is taken out of the set of a key; no subscription of the key relies on it. -/
theorem demux_deleteHandler {s : CloudClientManager} (h : s.Demux) {cb : Callback} {set handler : ℕ}
    (hset : s.setOf cb = some set)
    (hnobody : ∀ i, (s.subs i).phase.joined = true → (s.subs i).callback = cb →
      (s.subs i).handler ≠ handler) : (s.deleteHandler cb.entry cb.key set handler).Demux := by
  obtain ⟨-, -, hsubs, -, -, -, hnext, hdelivery⟩ :=
    deleteHandler_rest s cb.entry cb.key set handler
  have hsets := deleteHandler_sets s cb.entry cb.key set handler
  have hsetOf := fun cb' => deleteHandler_setOf s cb cb' set handler
  -- The set of a key that has a subscription keeps the handlers of its subscriptions.
  have hkept : ∀ i x, (s.subs i).phase.joined = true → s.setOf (s.subs i).callback = some x →
      (s.subs i).handler ∈ s.sets x →
      (s.deleteHandler cb.entry cb.key set handler).setOf (s.subs i).callback = some x ∧
        (s.subs i).handler ∈ (s.deleteHandler cb.entry cb.key set handler).sets x := by
    intro i x hi hget hmem
    have hleft : x = set →
        (s.subs i).handler ∈ (s.sets x).filter fun h => decide (h ≠ handler) := by
      intro hx
      rw [hx] at hget
      have hne := hnobody i hi (h.inj _ _ set hget hset)
      exact List.mem_filter.mpr ⟨hmem, decide_eq_true hne⟩
    constructor
    · rcases hsetOf (s.subs i).callback with hsame | ⟨hcb, -, hempty⟩
      · rw [hsame]
        exact hget
      · rw [hcb, hset] at hget
        have hx : x = set := (Option.some.inj hget).symm
        have hin := hleft hx
        rw [hx, hempty] at hin
        contradiction
    · rw [hsets]
      split
      next hx => exact hleft hx
      · exact hmem
  constructor
  · intro cb' x hcb
    rw [hnext]
    exact h.lt cb' x (setOf_of_deleteHandler hcb)
  · intro cb₁ cb₂ x h₁ h₂
    exact h.inj cb₁ cb₂ x (setOf_of_deleteHandler h₁) (setOf_of_deleteHandler h₂)
  · intro i hi
    rw [hsubs] at hi ⊢
    obtain ⟨x, hget, hmem⟩ := h.joined i hi
    exact ⟨x, hkept i x hi hget hmem⟩
  · intro i c x hi
    rw [hsubs] at hi ⊢
    have hjoined : (s.subs i).phase.joined = true := by rw [hi]; rfl
    obtain ⟨y, hget, hmem⟩ := h.joined i hjoined
    have hcap := h.captured i c x hi
    rw [hcap] at hget
    cases hget
    exact (hkept i x hjoined hcap hmem).1
  · rw [hdelivery]
    exact h.called
  · intro d x hd hcb
    rw [hdelivery] at hd
    exact h.walk d x hd (setOf_of_deleteHandler hcb)

theorem teardown_setOf (s : CloudClientManager) (key : String) (e : ℕ) (cb : Callback) :
    (s.teardown key e).setOf cb = if cb.entry = e then none else s.setOf cb := by
  unfold setOf
  rw [teardown_heap]
  split <;> rfl

theorem setOf_of_teardown {s : CloudClientManager} {key : String} {e x : ℕ} {cb : Callback}
    (h : (s.teardown key e).setOf cb = some x) : s.setOf cb = some x := by
  rw [teardown_setOf] at h
  split at h
  · contradiction
  · exact h

/-- Nobody uses the entry any more, so nobody is in its sets. -/
theorem demux_teardown {s : CloudClientManager} (h : s.Demux) {key : String} {e : ℕ}
    (hunused : ∀ i, (s.subs i).phase.holding = true → (s.subs i).entry ≠ e) :
    (s.teardown key e).Demux := by
  obtain ⟨-, -, -, hsubs, hsets, hnext, -, hdelivery⟩ := teardown_rest s key e
  have hsetOf := teardown_setOf s key e
  have hjoined : ∀ i, (s.subs i).phase.joined = true →
      (s.teardown key e).setOf (s.subs i).callback = s.setOf (s.subs i).callback := by
    intro i hi
    rw [hsetOf, if_neg]
    exact hunused i (Phase.holding_of_joined hi)
  constructor
  · intro cb x hcb
    rw [hnext]
    exact h.lt cb x (setOf_of_teardown hcb)
  · intro cb cb' x hcb hcb'
    exact h.inj cb cb' x (setOf_of_teardown hcb) (setOf_of_teardown hcb')
  · intro i hi
    rw [hsubs] at hi ⊢
    obtain ⟨x, hget, hmem⟩ := h.joined i hi
    refine ⟨x, (hjoined i hi).trans hget, ?_⟩
    rw [hsets]
    exact hmem
  · intro i c x hi
    rw [hsubs] at hi ⊢
    exact (hjoined i (by rw [hi]; rfl)).trans (h.captured i c x hi)
  · rw [hdelivery]
    exact h.called
  · intro d x hd hcb
    rw [hdelivery] at hd
    exact h.walk d x hd (setOf_of_teardown hcb)

/-! ### Values are delivered -/

theorem demux_onValue {s : CloudClientManager} (h : s.Demux) (cb : Callback) (value : JsValue) :
    (s.onValue cb value).Demux := by
  unfold onValue
  split
  · exact h
  next set hset =>
    refine ⟨h.lt, h.inj, h.joined, h.captured, ?_, ?_⟩
    · intro d hd'
      cases hd'
      exact List.nodup_nil
    · intro d x hd' hcb
      cases hd'
      exact Option.some.inj (hcb.symm.trans hset)

theorem call_delivery (s : CloudClientManager) (d : Delivery) (handler : ℕ)
    (outcome : Except String Unit) :
    (s.call d handler outcome).delivery = some { d with called := d.called ++ [handler] } := by
  unfold call
  cases outcome <;> rfl

/-- The loop goes on whether the handler throws or not. -/
theorem demux_call {s : CloudClientManager} (h : s.Demux) {d : Delivery} {handler : ℕ}
    {rest : List ℕ} (hd : s.delivery = some d) (hahead : s.ahead d = handler :: rest)
    (outcome : Except String Unit) : (s.call d handler outcome).Demux := by
  have hnew : handler ∉ d.called := by
    have hmem : handler ∈ s.ahead d := by
      rw [hahead]
      exact List.mem_cons_self
    exact of_decide_eq_true (List.mem_filter.mp hmem).2
  have hdel := call_delivery s d handler outcome
  have hcalled : ∀ d', (s.call d handler outcome).delivery = some d' → d'.called.Nodup := by
    intro d' hd'
    rw [hdel] at hd'
    cases hd'
    rw [← List.concat_eq_append]
    exact (h.called d hd).concat hnew
  have hwalk : ∀ d' set, (s.call d handler outcome).delivery = some d' →
      s.setOf d'.callback = some set → set = d'.set := by
    intro d' set hd' hcb
    rw [hdel] at hd'
    cases hd'
    exact h.walk d set hd hcb
  unfold call at hcalled hwalk ⊢
  cases outcome with
  | ok u => exact ⟨h.lt, h.inj, h.joined, h.captured, hcalled, hwalk⟩
  | error err => exact ⟨h.lt, h.inj, h.joined, h.captured, hcalled, hwalk⟩

theorem demux_delivered {s : CloudClientManager} (h : s.Demux) :
    Demux { s with delivery := none } where
  lt := h.lt
  inj := h.inj
  joined := h.joined
  captured := h.captured
  called _ hd := by contradiction
  walk _ _ hd := by contradiction

end CloudClientManager

end UnoQ.Cloud
