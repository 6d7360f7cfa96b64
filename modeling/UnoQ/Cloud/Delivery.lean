import UnoQ.Cloud.Invariant

/-!
# Cloud subscriptions deliver

A subscription that has resolved and has not been torn down receives each value of its property
once, in every orderly run: one in which it joins its key while no call of the key is in flight.
-/

namespace UnoQ.Cloud
open Transition Codec

namespace CloudClientManager

/-- The callbacks that the SDK calls with a value of the pair. -/
def registered (s : CloudClientManager) (c : ℕ) (thingId variableName : String) : List Callback :=
  ((s.clients c).registrations.filter fun r =>
    decide (r.thingId = thingId ∧ r.variableName = variableName)).map Registration.callback

/-- The subscription receives the values of its property. Its handler is in the set of its key, the
SDK has its pair on the client of its entry, with one callback, and that callback walks over the set:
it calls the handler once, as long as it has it ahead. -/
structure Receives (s : CloudClientManager) (sub : Subscription) : Prop where
  demuxed : s.Demuxed sub
  subscribed : ∃ c, s.entries.get sub.credentialKey = some sub.entry ∧
    (s.heap sub.entry).client = some c ∧ (s.clients c).state = .connected ∧
    s.registered c sub.thingId sub.variableName = [sub.callback]
  begins : ∀ value, ∃ set, sub.handler ∈ s.sets set ∧
    s.onValue sub.callback value = { s with delivery := some ⟨sub.callback, set, value, []⟩ }
  reaches : ∀ d, s.delivery = some d → d.callback = sub.callback →
    d.called.count sub.handler = if sub.handler ∈ s.ahead d then 0 else 1

/-! ### The subscriptions that are live -/

/-- The SDK has one callback for the pair. -/
theorem registered_eq {s : CloudClientManager} (h : s.Inv) {sub : Subscription} {c : ℕ}
    (hc : (s.heap sub.entry).client = some c)
    (hmem : sub.registration ∈ (s.clients c).registrations) :
    s.registered c sub.thingId sub.variableName = [sub.callback] := by
  have hnodup : (s.registered c sub.thingId sub.variableName).Nodup :=
    (h.sdk.distinct c).sublist (List.filter_sublist.map _)
  have hall : ∀ cb, cb ∈ s.registered c sub.thingId sub.variableName ↔ cb ∈ [sub.callback] := by
    intro cb
    unfold registered
    rw [List.mem_map, List.mem_singleton]
    constructor
    · rintro ⟨r, hr, rfl⟩
      obtain ⟨hr, hpair⟩ := List.mem_filter.mp hr
      obtain ⟨ht, hv⟩ := of_decide_eq_true hpair
      rw [(h.sdk.settled _ c r hc hr).callback, ht, hv]
      rfl
    · rintro rfl
      exact ⟨sub.registration, List.mem_filter.mpr ⟨hmem, decide_eq_true ⟨rfl, rfl⟩⟩, rfl⟩
  exact List.perm_singleton.mp
    ((List.perm_ext_iff_of_nodup hnodup (List.nodup_singleton _)).mpr hall)

theorem receives_of_inv {s : CloudClientManager} (h : s.Inv) {i : ℕ}
    (hi : (s.subs i).phase = .resolved) : s.Receives (s.subs i) := by
  have hjoined : (s.subs i).phase.joined = true := by rw [hi]; rfl
  have hin := h.demux.joined i hjoined
  obtain ⟨set, hset, hmem⟩ := hin
  obtain ⟨c, hc, hreg⟩ := h.sdk.resolved i hi
  refine ⟨⟨set, hset, hmem⟩, ⟨c, ?_, hc, (h.link.client _ c hc).1, registered_eq h hc hreg⟩, ?_, ?_⟩
  · exact h.refs.current i (Phase.holding_of_joined hjoined)
  · intro value
    refine ⟨set, hmem, ?_⟩
    unfold onValue
    unfold setOf at hset
    rw [hset]
  · intro d hd hcb
    have hwalk : set = d.set := h.demux.walk d set hd (by rw [hcb]; exact hset)
    subst hwalk
    have hcount := List.nodup_iff_count_le_one.mp (h.demux.called d hd) (s.subs i).handler
    by_cases hcalled : (s.subs i).handler ∈ d.called
    · have hpos := List.count_pos_iff.mpr hcalled
      rw [if_neg]
      · omega
      · intro hahead
        exact of_decide_eq_true (List.mem_filter.mp hahead).2 hcalled
    · rw [if_pos, List.count_eq_zero_of_not_mem hcalled]
      exact List.mem_filter.mpr ⟨hmem, decide_eq_true hcalled⟩

theorem receives_of_orderly {s : CloudClientManager} (h : machine.Reach Orderly s) (i : ℕ)
    (hi : (s.subs i).phase = .resolved) : s.Receives (s.subs i) :=
  receives_of_inv (inv_reach h) hi

def triggerCredential : CloudCredential := ⟨"A", "sa", none⟩

/-- Two triggers listen for one property, and a value is delivered: the handler of the first throws. -/
def sharedRun : List Event :=
  [.subscribe "cred-1" triggerCredential "thing-1" "temp" 7, .connected 0, .connectSettled 0,
    .resume 0, .sdkResolved 0, .subscribe "cred-1" triggerCredential "thing-1" "temp" 8, .resume 1,
    .deliver 0 ⟨"thing-1", "temp", ⟨0, subKey "thing-1" "temp"⟩⟩ .null, .call (.error "boom"),
    .call (.ok ())]

def sharedState : CloudClientManager := machine.after Orderly initial sharedRun

theorem sharedRun_receives : sharedState.Receives (sharedState.subs 0) ∧
    sharedState.Receives (sharedState.subs 1) ∧
    sharedState.delivery.map Delivery.called = some [7, 8] :=
  ⟨receives_of_orderly ((Machine.Reach.init rfl).after sharedRun) 0 (by decide),
    receives_of_orderly ((Machine.Reach.init rfl).after sharedRun) 1 (by decide), by decide⟩

/-- The second trigger joins while the call of the first is in flight, and that fails. -/
def deafRun : List Event :=
  [.subscribe "cred-1" triggerCredential "thing-1" "temp" 7, .connected 0, .connectSettled 0,
    .resume 0, .subscribe "cred-1" triggerCredential "thing-1" "temp" 8, .resume 1, .sdkThrew 0]

def deafState : CloudClientManager := machine.after always initial deafRun

theorem deafRun_deaf : ¬ ∀ s, machine.Reach always s → ∀ i, (s.subs i).phase = .resolved →
    s.Receives (s.subs i) := by
  intro h
  have hr := h deafState ((Machine.Reach.init rfl).after deafRun) 1 (by decide)
  obtain ⟨c, -, hc, -, hreg⟩ := hr.subscribed
  have hclient : (deafState.heap (deafState.subs 1).entry).client = some 0 := by decide
  rw [hclient] at hc
  cases hc
  have hnone : (deafState.clients 0).registrations = [] := by decide
  unfold registered at hreg
  rw [hnone] at hreg
  contradiction

/-! ### The condition is needed -/

/-- When the SDK has the pair of a subscription, it is free to join. -/
theorem free_of_registered {s : CloudClientManager} (h : s.Inv) {i c : ℕ}
    (hc : (s.heap (s.subs i).entry).client = some c)
    (hreg : (s.subs i).callback ∈
      s.registered c (s.subs i).thingId (s.subs i).variableName) : s.Free i c := by
  obtain ⟨r, hr, hcb⟩ := List.mem_map.mp hreg
  obtain ⟨hr, hpair⟩ := List.mem_filter.mp hr
  obtain ⟨ht, hv⟩ := of_decide_eq_true hpair
  constructor
  · intro j _ hj
    rw [← hcb]
    exact (h.sdk.settled _ c r hc hr).landed j hj
  · intro r' hr' hkey
    have hsame : r'.callback = r.callback := by
      rw [(h.sdk.settled _ c r' hc hr').callback, hkey, hcb]
      rfl
    have heq : r' = r := List.inj_on_of_nodup_map (h.sdk.distinct c) hr' hr hsame
    rw [heq]
    exact ⟨ht, hv⟩

theorem marked_of_not_free {s : CloudClientManager} (h : s.Inv) {i c : ℕ}
    (hc : (s.heap (s.subs i).entry).client = some c) (hfree : ¬ s.Free i c) :
    s.Marked (s.subs i).callback := by
  by_contra hmarked
  refine hfree ⟨fun j _ hj he => hmarked ?_, fun r hr hkey => absurd ?_ hmarked⟩
  · rw [← he]
    exact h.sdk.marked j (Phase.joined_of_inFlight hj)
  · have hsettled := h.sdk.settled _ c r hc hr
    have hcb : r.callback = (s.subs i).callback := by
      rw [hsettled.callback, hkey]
      rfl
    rw [← hcb]
    exact hsettled.marked

/-- A subscription that is not free to join resolves at once, and receives nothing. -/
theorem deaf_of_not_free {s : CloudClientManager} (h : s.Inv) {i c : ℕ}
    (hi : (s.subs i).phase = .awaiting c) (hc : (s.clients c).state = .connected)
    (hfree : ¬ s.Free i c) : ((s.join i c).subs i).phase = .resolved ∧
      ¬ (s.join i c).Receives ((s.join i c).subs i) := by
  have hclient := h.awaited hi hc
  have hmarked := marked_of_not_free h hclient hfree
  obtain ⟨-, -, hsubs, -, hclients, -, hheap⟩ := getSet_rest s (s.subs i).entry (s.subs i).key
  unfold join
  dsimp only
  generalize s.getSet (s.subs i).entry (s.subs i).key = got at hsubs hclients hheap ⊢
  obtain ⟨t, set⟩ := got
  dsimp only at hsubs hclients hheap ⊢
  have hmarks : (s.subs i).key ∈
      ((t.addHandler set (s.subs i).handler).heap (s.subs i).entry).sdkSubscribed := by
    refine (hheap _).2.2.1 ▸ ?_
    exact hmarked
  rw [if_pos hmarks, setPhase_subs, if_pos rfl]
  refine ⟨rfl, fun hr => hfree (free_of_registered h hclient ?_)⟩
  have hsub : (t.addHandler set (s.subs i).handler).subs i = s.subs i := congrFun hsubs i
  obtain ⟨c', -, hc', -, hreg⟩ := hr.subscribed
  rw [hsub] at hc' hreg
  have hsame : c' = c := Option.some.inj (hc'.symm.trans ((hheap _).1.trans hclient))
  subst hsame
  have hreg' : s.registered c' (s.subs i).thingId (s.subs i).variableName =
      [(s.subs i).callback] := by
    unfold registered
    rw [← hclients]
    exact hreg
  rw [hreg']
  exact List.mem_singleton_self _

theorem release_sets (s : CloudClientManager) (key : String) (e : ℕ) :
    (s.release key e).sets = s.sets ∧ (s.release key e).delivery = s.delivery := by
  unfold release
  dsimp only
  split
  · obtain ⟨-, -, -, -, hsets, -, -, hdelivery⟩ := teardown_rest (s.addRef e (-1)) key e
    exact ⟨hsets, hdelivery⟩
  · exact ⟨rfl, rfl⟩

theorem release_subs (s : CloudClientManager) (key : String) (e : ℕ) :
    (s.release key e).subs = s.subs := by
  unfold release
  dsimp only
  split
  · exact (teardown_rest (s.addRef e (-1)) key e).2.2.2.1
  · rfl

theorem release_setOf {s : CloudClientManager} {key : String} {e x : ℕ} {cb : Callback}
    (h : (s.release key e).setOf cb = some x) : s.setOf cb = some x := by
  have hsame : (s.addRef e (-1)).setOf cb = s.setOf cb := by
    unfold setOf
    rw [addRef_heap]
    split <;> rfl
  rw [← hsame]
  unfold release at h
  dsimp only at h
  split at h
  · exact setOf_of_teardown h
  · exact h

/-- A tear-down that takes the handler from another live subscription leaves that deaf. -/
theorem deaf_of_not_sole {s : CloudClientManager} (h : s.Inv) {i : ℕ}
    (hi : (s.subs i).phase = .resolved) (hsole : ¬ s.Sole i) :
    ∃ j, ((s.tearDown i).subs j).phase = .resolved ∧
      ¬ (s.tearDown i).Receives ((s.tearDown i).subs j) := by
  unfold Sole at hsole
  push Not at hsole
  obtain ⟨j, -, hne, hj, hcb, hhandler⟩ := hsole
  obtain ⟨set, hset, -⟩ := h.demux.joined i (by rw [hi]; rfl)
  have hsub : (s.tearDown i).subs j = s.subs j := by
    rw [tearDown_eq, hset]
    dsimp only
    rw [release_subs, (deleteHandler_rest _ _ _ _ _).2.2.1, setPhase_subs, if_neg hne]
  refine ⟨j, ?_, fun hr => ?_⟩
  · rw [hsub]
    exact hj
  · obtain ⟨x, hx, hmem⟩ := hr.demuxed
    rw [hsub, hcb] at hx
    rw [hsub, hhandler] at hmem
    rw [tearDown_eq, hset] at hx hmem
    dsimp only at hx hmem
    have hdel : ((s.setPhase i .released).deleteHandler (s.subs i).callback.entry
        (s.subs i).callback.key set (s.subs i).handler).setOf (s.subs i).callback = some x :=
      release_setOf hx
    have hx' : (s.setPhase i .released).setOf (s.subs i).callback = some x :=
      setOf_of_deleteHandler (s := s.setPhase i .released) hdel
    have hsame : x = set := Option.some.inj (hx'.symm.trans hset)
    rw [(release_sets _ _ _).1, deleteHandler_sets, if_pos hsame] at hmem
    exact of_decide_eq_true (List.mem_filter.mp hmem).2 rfl

/-! ### A loop ends -/

/-- Each turn of the loop leaves it fewer handlers to call. -/
theorem call_ahead {s : CloudClientManager} {d : Delivery} {handler : ℕ} {rest : List ℕ}
    (hahead : s.ahead d = handler :: rest) (outcome : Except String Unit) :
    (s.call d handler outcome).ahead { d with called := d.called ++ [handler] } =
      rest.filter fun h => decide (h ≠ handler) := by
  obtain ⟨-, -, -, -, -, hsets, -, -⟩ := call_rest s d handler outcome
  have hfilter : (s.call d handler outcome).ahead { d with called := d.called ++ [handler] } =
      (s.ahead d).filter fun h => decide (h ≠ handler) := by
    unfold ahead
    rw [hsets, List.filter_filter]
    refine List.filter_congr fun x _ => ?_
    by_cases hx : x = handler
    · simp [hx]
    · simp [hx]
  rw [hfilter, hahead, List.filter_cons_of_neg (by simp)]

theorem subscribe_sets (s : CloudClientManager) (credentialKey : String)
    (credential : CloudCredential) (thingId variableName : String) (handler : ℕ) :
    (s.subscribe credentialKey credential thingId variableName handler).sets = s.sets ∧
      (s.subscribe credentialKey credential thingId variableName handler).delivery = s.delivery := by
  have hentry : (s.getEntry credentialKey).1.sets = s.sets ∧
      (s.getEntry credentialKey).1.delivery = s.delivery := by
    unfold getEntry
    split <;> exact ⟨rfl, rfl⟩
  have hopen : ∀ (u : CloudClientManager) (e : ℕ), (u.ensureConnected e credential).1.sets = u.sets ∧
      (u.ensureConnected e credential).1.delivery = u.delivery := by
    intro u e
    unfold ensureConnected
    split
    · exact ⟨rfl, rfl⟩
    · split <;> exact ⟨rfl, rfl⟩
  obtain ⟨hs, hd⟩ := hopen ((s.getEntry credentialKey).1.addRef (s.getEntry credentialKey).2 1)
    (s.getEntry credentialKey).2
  exact ⟨hs.trans hentry.1, hd.trans hentry.2⟩

/-- A tear-down only takes handlers out of sets. -/
theorem tearDown_sets (s : CloudClientManager) (i : ℕ) :
    (∀ x, ((s.tearDown i).sets x).Sublist (s.sets x)) ∧ (s.tearDown i).delivery = s.delivery := by
  rw [tearDown_eq]
  split
  next set _ =>
    rw [(release_sets _ _ _).1, (release_sets _ _ _).2]
    constructor
    · intro x
      rw [deleteHandler_sets]
      split
      · exact List.filter_sublist
      · exact List.Sublist.refl _
    · exact (deleteHandler_rest _ _ _ _ _).2.2.2.2.2.2.2
  · rw [(release_sets _ _ _).1, (release_sets _ _ _).2]
    exact ⟨fun _ => List.Sublist.refl _, rfl⟩

/-- While a callback walks over its handlers, what they do leaves it no more of them, and each of its
calls fewer. -/
theorem ahead_step {s t : CloudClientManager} {e : Event} {d d' : Delivery} (hs : s.step e = some t)
    (hd : s.delivery = some d) (hd' : t.delivery = some d') :
    (t.ahead d').length ≤ (s.ahead d).length ∧
      ∀ outcome, e = .call outcome → (t.ahead d').length < (s.ahead d).length := by
  obtain ⟨ht, hidle⟩ := turns_of_step hs
  have hsync : e.synchronous = true := by
    cases he : e.synchronous with
    | true => rfl
    | false =>
      rw [hidle he] at hd
      contradiction
  have hshrunk : (∀ x, (t.sets x).Sublist (s.sets x)) → t.delivery = s.delivery →
      (t.ahead d').length ≤ (s.ahead d).length := by
    intro hsets hdelivery
    rw [hdelivery, hd] at hd'
    cases hd'
    exact ((hsets d.set).filter _).length_le
  cases ht with
  | subscribe credentialKey credential thingId variableName handler =>
    obtain ⟨hsets, hdelivery⟩ :=
      subscribe_sets s credentialKey credential thingId variableName handler
    refine ⟨hshrunk ?_ hdelivery, fun _ he => by contradiction⟩
    rw [hsets]
    exact fun _ => List.Sublist.refl _
  | tearDown i hi =>
    obtain ⟨hsets, hdelivery⟩ := tearDown_sets s i
    exact ⟨hshrunk hsets hdelivery, fun _ he => by contradiction⟩
  | call d₀ handler rest outcome hd₀ hahead =>
    rw [hd, Option.some.injEq] at hd₀
    subst hd₀
    rw [call_delivery] at hd'
    cases hd'
    rw [call_ahead hahead, hahead]
    have hle := List.length_filter_le (fun h => decide (h ≠ handler)) rest
    have hlt : (rest.filter fun h => decide (h ≠ handler)).length < (handler :: rest).length :=
      Nat.lt_succ_of_le hle
    exact ⟨hlt.le, fun _ _ => hlt⟩
  | delivered d₀ hd₀ hahead => contradiction
  | _ => contradiction

end CloudClientManager

end UnoQ.Cloud
