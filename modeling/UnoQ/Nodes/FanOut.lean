import UnoQ.Nodes.Leases
import UnoQ.Nodes.Silence

/-!
# Who is notified

A bridge calls the handlers of a method one after another. Over every run they are those of the active
nodes in Notification mode, each once, and what the router sends over the bridge of an endpoint reaches
every such node of the endpoint, as there is no second bridge.
-/

namespace UnoQ.Nodes
open Transport Manager Transition

namespace Triggers

variable {s t u : Triggers}

/-- An active node in Notification mode is in the set of its method once. -/
def Subscribed (s : Triggers) : Prop :=
  ∀ x b, (s.triggers x).pc = .active b → (s.triggers x).mode = .notify →
    (s.setOf b (s.triggers x).method).count x = 1

/-! ### The pieces of a step -/

/-- Node `x` moves on, and the others stay in the sets that they are in. -/
theorem subscribed_setPc (h : s.Subscribed) {x : ℕ} {pc : TriggerPc} (hu : u.triggers = s.triggers)
    (hothers : ∀ b method y, y ≠ x → (u.setOf b method).count y = (s.setOf b method).count y)
    (hx : ∀ b, pc = .active b → (s.triggers x).mode = .notify →
      (u.setOf b (s.triggers x).method).count x = 1) : (u.setPc x pc).Subscribed := by
  intro y b hactive hmode
  obtain ⟨hmethod, hmode', -⟩ := setPc_static u x y pc
  rw [setPc_pc] at hactive
  rw [hmode', hu] at hmode
  rw [hmethod, hu]
  change (u.setOf b (s.triggers y).method).count y = 1
  by_cases hyx : y = x
  · subst hyx
    rw [if_pos rfl] at hactive
    exact hx b hactive hmode
  · rw [if_neg hyx, hu] at hactive
    rw [hothers b _ y hyx]
    exact h y b hactive hmode

theorem count_addHandler (s : Triggers) (b x c : ℕ) (method : String) (y : ℕ) : ((s.addHandler b x).setOf c method).count y =
      (s.setOf c method).count y +
        if y = x ∧ c = b ∧ method = (s.triggers x).method then 1 else 0 := by
  unfold addHandler
  rw [setHandlers_setOf]
  split
  next hc =>
    obtain ⟨rfl, rfl⟩ := hc
    rw [List.count_append]
    by_cases hyx : y = x
    · simp [hyx]
    · simp [hyx, Ne.symm hyx]
  next hc =>
    rw [if_neg fun hboth => hc hboth.2]
    rfl

theorem subscribed_subscribe (h : s.Subscribed) {b x : ℕ} (hout : ∀ c method, x ∉ s.setOf c method)
    (hu : u.triggers = s.triggers) (hsets : ∀ c method, u.setOf c method = s.setOf c method) :
    ((u.addHandler b x).setPc x (.active b)).Subscribed := by
  have hout' : ∀ c method, x ∉ u.setOf c method := by
    intro c method
    rw [hsets]
    exact hout c method
  refine subscribed_setPc h hu (fun c method y hyx => ?_) fun c hc _ => ?_
  · rw [count_addHandler, hsets, if_neg fun hboth => hyx hboth.1]
    rfl
  · cases hc
    rw [count_addHandler, hu, if_pos ⟨rfl, rfl, rfl⟩, List.count_eq_zero.mpr (hout' b _)]

theorem setProvider_setOf (s : Triggers) (b x c : ℕ) (method : String) :
    (s.setProvider b x).setOf c method = s.setOf c method := by
  unfold setOf setProvider
  dsimp only
  rw [setTables_tables]
  split
  next hc => rw [hc]
  · rfl

/-- The set that the first subscriber of a method publishes is as empty as none. -/
theorem setHandlers_nil {b : ℕ} {method : String}
    (h : ¬ (s.tables b).notifyHandlers.has method = true) (c : ℕ) (method' : String) :
    (s.setHandlers b method []).setOf c method' = s.setOf c method' := by
  rw [setHandlers_setOf]
  split
  next hc =>
    obtain ⟨rfl, rfl⟩ := hc
    have hnone := InsertMap.has_eq_false.mp (Bool.eq_false_iff.mpr h)
    unfold setOf
    rw [hnone]
    rfl
  · rfl

theorem subscribed_waiting (h : s.Subscribed) {x b : ℕ} (hu : u.triggers = s.triggers)
    (hsets : ∀ c method, u.setOf c method = s.setOf c method) :
    (u.setPc x (.registering b)).Subscribed :=
  subscribed_setPc h hu (fun c method _ _ => by rw [hsets]) (by simp)

theorem subscribed_register (h : s.Subscribed) {b x : ℕ} (hout : ∀ c method, x ∉ s.setOf c method) :
    (s.register b x).Subscribed := by
  unfold register
  split
  next hmode =>
    unfold onNotify
    dsimp only
    split
    · exact subscribed_subscribe h hout rfl fun _ _ => rfl
    next hfirst =>
      split
      · exact subscribed_subscribe h hout rfl (setHandlers_nil hfirst)
      · exact subscribed_waiting h rfl (setHandlers_nil hfirst)
  next hmode =>
    unfold provide
    split
    · refine subscribed_setPc h rfl (fun c method y _ => by rw [setProvider_setOf]) fun c _ hnotify => ?_
      rw [hmode] at hnotify
      contradiction
    · exact subscribed_waiting h rfl fun _ _ => rfl

/-- The node leaves what it was doing, and is in no set. -/
theorem subscribed_leave (h : s.Subscribed) {x : ℕ} {pc : TriggerPc} (hu : u.triggers = s.triggers)
    (htables : u.tables = s.tables) (hpc : ∀ b, pc ≠ .active b) : (u.setPc x pc).Subscribed := by
  refine subscribed_setPc h hu (fun c method y _ => ?_) fun b hb => absurd hb (hpc b)
  unfold setOf
  rw [htables]

theorem subscribed_closeFunction (h : s.Subscribed) (b x : ℕ) : (s.closeFunction b x).Subscribed := by
  unfold closeFunction unsubscribe
  dsimp only
  split
  · refine subscribed_setPc h rfl (fun c method y hyx => ?_) (by simp)
    rw [setHandlers_setOf]
    split
    next hc =>
      obtain ⟨rfl, rfl⟩ := hc
      exact List.count_filter (decide_eq_true hyx)
    · rfl
  · exact subscribed_leave h rfl rfl (by simp)

theorem subscribed_trigger (h : s.Subscribed) (method : String) (mode : TriggerMode)
    (d : TransportDescriptor) (cred : Bool) : (s.trigger method mode d cred).Subscribed := by
  intro y b hactive hmode
  have hat : (s.trigger method mode d cred).triggers y =
      if y = s.nextTrigger then ⟨method, mode, d, s.manager.nextCall, .acquiring⟩
      else s.triggers y := Function.update_apply ..
  rw [hat] at hactive hmode ⊢
  split at hactive
  · contradiction
  next hy =>
    rw [if_neg hy] at hmode ⊢
    exact h y b hactive hmode

/-! ### Steps and runs -/

theorem subscribed_step (hf : s.Filed) (h : s.Subscribed) {ev : Event} (hs : s.step ev = some t) :
    t.Subscribed := by
  cases step_takes hs with
  | trigger method mode d cred => exact subscribed_trigger h method mode d cred
  | manager ev manager _ _ => exact h
  | acquired x b hx _ =>
    unfold acquired
    dsimp only
    split
    · exact subscribed_leave h rfl rfl (by simp)
    · have hout := hf.outside (x := x) (by simp [hx])
      let counted := s.manager.addMethodRef (s.triggers x).descriptor (s.triggers x).method
      exact subscribed_register (s := { s with manager := counted.1 }) h hout
  | acquireFailed x hx => exact subscribed_leave h rfl rfl (by simp)
  | registered x b hx =>
    have hout := hf.outside (x := x) (by simp [hx])
    unfold registered
    split
    · exact subscribed_subscribe h hout rfl fun _ _ => rfl
    next hmode =>
      refine subscribed_setPc h rfl (fun c method y _ => by rw [setProvider_setOf]) fun c _ hnotify => ?_
      rw [hmode] at hnotify
      contradiction
  | registerFailed x b hx => exact subscribed_leave h rfl rfl (by simp)
  | closeFunction x b hx => exact subscribed_closeFunction h b x
  | closed x b hx => exact subscribed_leave h rfl rfl (by simp)
  | request b method => exact h
  | notify b method => exact h

theorem subscribed_reach {ok : Guard Triggers Event} (h : machine.Reach ok s) : s.Subscribed := by
  refine h.invariant (P := Subscribed) (fun u hinit => ?_) fun _ _ _ hr hi hs _ =>
    subscribed_step (filed_reach hr) hi hs
  have hu : u = initial := hinit
  rw [hu]
  intro x b hactive
  contradiction

/-- A NOTIFY makes a bridge call the handlers of the active nodes in Notification mode that are on it
for the method, each once. -/
theorem notified_reach {ok : Guard Triggers Event} (h : machine.Reach ok s) (b : ℕ) (method : String) :
    (s.emits (.notify b method)).Nodup ∧ ∀ x, x ∈ s.emits (.notify b method) ↔
      (s.triggers x).pc = .active b ∧ (s.triggers x).mode = .notify ∧ (s.triggers x).method = method := by
  have hfiled := filed_reach h
  have hsubscribed := subscribed_reach h
  constructor
  · rw [List.nodup_iff_count_le_one]
    intro x
    by_cases hx : x ∈ s.setOf b method
    · obtain ⟨hactive, hmethod, hmode⟩ := hfiled.subscribed b method x hx
      have hone := hsubscribed x b hactive hmode
      rw [hmethod] at hone
      exact Nat.le_of_eq hone
    · have hzero : (s.setOf b method).count x = 0 := List.count_eq_zero.mpr hx
      exact hzero ▸ Nat.zero_le 1
  · intro x
    constructor
    · intro hx
      obtain ⟨hactive, hmethod, hmode⟩ := hfiled.subscribed b method x hx
      exact ⟨hactive, hmode, hmethod⟩
    · rintro ⟨hactive, hmode, rfl⟩
      have hone := hsubscribed x b hactive hmode
      change x ∈ s.setOf b (s.triggers x).method
      exact List.count_pos_iff.mp (hone ▸ Nat.zero_lt_one)

/-- What comes in over the open bridge of an endpoint is heard by the nodes of that endpoint: a NOTIFY
by the active ones in Notification mode for its method, each once, a REQUEST by the active one in
Request mode for its method, if there is one. -/
structure Heard (s : Triggers) (key : String) (b : ℕ) : Prop where
  notified : ∀ method, (s.emits (.notify b method)).Nodup ∧ ∀ x, x ∈ s.emits (.notify b method) ↔
    (∃ c, (s.triggers x).pc = .active c) ∧ (s.triggers x).mode = .notify ∧
      (s.triggers x).key = key ∧ (s.triggers x).method = method
  requested : ∀ x method, s.Owns x key method → s.emits (.request b method) = [x]

theorem heard_reach (h : machine.Reach Orderly s) {key : String} {b : ℕ}
    (hb : s.manager.Live b key) : s.Heard key b := by
  have hsame : ∀ x c, (s.triggers x).pc = .active c → (s.triggers x).key = key → c = b := by
    intro x c hx hkey
    exact (shared_reach h (by rw [hx]; rfl) hkey hb).symm
  constructor
  · intro method
    obtain ⟨hnodup, hmem⟩ := notified_reach h b method
    refine ⟨hnodup, fun x => (hmem x).trans ?_⟩
    constructor
    · rintro ⟨hactive, hmode, hmethod⟩
      have hopened := opened_reach h (by rw [hactive]; rfl)
      refine ⟨⟨b, hactive⟩, hmode, ?_, hmethod⟩
      rw [← hb.1, hopened]
    · rintro ⟨⟨c, hactive⟩, hmode, hkey, hmethod⟩
      rw [hsame x c hactive hkey] at hactive
      exact ⟨hactive, hmode, hmethod⟩
  · rintro x method ⟨⟨c, hactive⟩, hmode, hkey, rfl⟩
    have hprovider := (owned_reach (spared_reach h)).own x c hactive hmode
    rw [hsame x c hactive hkey] at hprovider
    change ((s.tables b).providers.get (s.triggers x).method).toList = [x]
    rw [hprovider]
    rfl

/-- Two nodes subscribe to a method, the first is deactivated and another activated, and one more
provides another method. -/
def crowdedRun : List Event :=
  [.trigger "button" .notify localRouter false, .manager (.built 0), .manager (.connected 0),
    .acquired 0, .registered 0, .trigger "button" .notify localRouter false, .acquired 1,
    .trigger "set_valve" .request localRouter false, .acquired 2, .registered 2, .closeFunction 0,
    .closed 0, .trigger "button" .notify localRouter false, .acquired 3]

def crowdedState : Triggers := machine.after Orderly initial crowdedRun

theorem crowdedRun_heard : crowdedState.emits (.notify 0 "button") = [1, 3] ∧
    crowdedState.emits (.request 0 "set_valve") = [2] ∧
    crowdedState.Heard (describeTransport localRouter) 0 :=
  ⟨by decide +kernel, by decide +kernel, heard_reach ((Machine.Reach.init rfl).after crowdedRun)
    ⟨by decide +kernel, by decide +kernel, by decide +kernel⟩⟩

end Triggers

end UnoQ.Nodes
