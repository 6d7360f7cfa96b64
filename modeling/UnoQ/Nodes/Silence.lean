import UnoQ.Nodes.Trigger

/-!
# Nodes that have been deactivated

A node in Notification mode takes its handler out of the set it is in, so that no notification reaches
it any more. A node in Request mode leaves its handler in the providers of the bridge, where only the
next node that provides the method replaces it.
-/

namespace UnoQ.Nodes
open Transport Manager Transition

/-- `closeFunction` has resolved. -/
def TriggerPc.isClosed : TriggerPc → Bool
  | .closed _ => true
  | _ => false

namespace Triggers

/-- The node that was the last to be stored as the handler of a method on a bridge. -/
def lastProvision (s : Triggers) (b : ℕ) (method : String) : Option ℕ :=
  ((s.provisions.filter fun p => decide (p.bridge = b ∧ p.method = method)).getLast?).map
    Provision.trigger

structure Filed (s : Triggers) : Prop where
  unborn : ∀ x, s.nextTrigger ≤ x → (s.triggers x).pc = .absent
  provided : ∀ b method, (s.tables b).providers.get method = s.lastProvision b method
  subscribed : ∀ b method, ∀ x ∈ s.setOf b method,
    (s.triggers x).pc = .active b ∧ (s.triggers x).method = method ∧ (s.triggers x).mode = .notify

theorem filed_initial : initial.Filed where
  unborn _ _ := rfl
  provided _ _ := rfl
  subscribed b method x h := by simp [initial, setOf] at h

/-! ### The pieces of a step -/

/-- The manager goes on by itself. -/
theorem Filed.manager {s : Triggers} (h : s.Filed) (manager : BridgeManager) :
    Filed { s with manager := manager } := ⟨h.unborn, h.provided, h.subscribed⟩

/-- A node that is in no set moves on. -/
theorem filed_setPc {s : Triggers} (h : s.Filed) {x : ℕ} (pc : TriggerPc)
    (hborn : (s.triggers x).pc ≠ .absent) (hx : ∀ b method, x ∈ s.setOf b method → pc = .active b) :
    (s.setPc x pc).Filed where
  unborn y hy := by
    rw [setPc_pc]
    split
    next hyx => exact absurd (h.unborn x (hyx ▸ hy)) hborn
    · exact h.unborn y hy
  provided := h.provided
  subscribed b method y hy := by
    obtain ⟨hpc, hm, hmode⟩ := h.subscribed b method y hy
    obtain ⟨hm', hmode', -⟩ := setPc_static s x y pc
    refine ⟨?_, hm'.trans hm, hmode'.trans hmode⟩
    rw [setPc_pc]
    split
    next hyx => exact hx b method (hyx ▸ hy)
    · exact hpc

theorem lastProvision_append (s : Triggers) (p : Provision) (b : ℕ) (method : String) :
    lastProvision { s with provisions := s.provisions ++ [p] } b method =
      if p.bridge = b ∧ p.method = method then some p.trigger else s.lastProvision b method := by
  unfold lastProvision
  rw [List.filter_append]
  split
  next hp => simp [hp]
  next hp => simp [hp]

theorem filed_setProvider {s : Triggers} (h : s.Filed) (b x : ℕ) : (s.setProvider b x).Filed := by
  have hset : ∀ c method, (s.setProvider b x).setOf c method = s.setOf c method := by
    intro c method
    unfold setOf setProvider
    dsimp only
    rw [setTables_tables]
    split
    next hc => rw [hc]
    · rfl
  refine ⟨h.unborn, fun c method => ?_, fun c method y hy => ?_⟩
  · have hlast : (s.setProvider b x).lastProvision c method =
        if b = c ∧ (s.triggers x).method = method then some x else s.lastProvision c method :=
      lastProvision_append s ⟨b, (s.triggers x).method, x⟩ c method
    rw [hlast, ← h.provided]
    unfold setProvider
    dsimp only
    rw [setTables_tables]
    by_cases hc : c = b
    · subst hc
      rw [if_pos rfl]
      by_cases hm : (s.triggers x).method = method
      · subst hm
        simp
      · rw [InsertMap.get_set_ne _ _ hm, if_neg fun hb => hm hb.2]
    · rw [if_neg hc, if_neg fun hb => hc hb.1.symm]
  · rw [hset] at hy
    exact h.subscribed c method y hy

theorem setHandlers_setOf (s : Triggers) (b : ℕ) (method : String) (handlers : List ℕ) (c : ℕ)
    (method' : String) : (s.setHandlers b method handlers).setOf c method' =
      if c = b ∧ method' = method then handlers else s.setOf c method' := by
  unfold setOf setHandlers
  dsimp only
  rw [setTables_tables]
  by_cases hc : c = b
  · subst hc
    rw [if_pos rfl]
    by_cases hm : method' = method
    · subst hm
      simp
    · rw [InsertMap.get_set_ne _ _ fun he => hm he.symm, if_neg fun hb => hm hb.2]
  · rw [if_neg hc, if_neg fun hb => hc hb.1]

theorem setHandlers_providers (s : Triggers) (b : ℕ) (method : String) (handlers : List ℕ) (c : ℕ) :
    ((s.setHandlers b method handlers).tables c).providers = (s.tables c).providers := by
  unfold setHandlers
  dsimp only
  rw [setTables_tables]
  split
  next hc => rw [hc]
  · rfl

/-- Handlers leave a set. -/
theorem filed_setHandlers {s : Triggers} (h : s.Filed) {b : ℕ} {method : String} {handlers : List ℕ}
    (hsub : ∀ x ∈ handlers, x ∈ s.setOf b method) : (s.setHandlers b method handlers).Filed := by
  refine ⟨h.unborn, fun c method' => ?_, fun c method' y hy => ?_⟩
  · rw [setHandlers_providers]
    exact h.provided c method'
  · rw [setHandlers_setOf] at hy
    split at hy
    next hc =>
      obtain ⟨rfl, rfl⟩ := hc
      exact h.subscribed c method' y (hsub y hy)
    · exact h.subscribed c method' y hy

/-- A node in Notification mode is added to its set and active from then on. -/
theorem filed_subscribe {s : Triggers} (h : s.Filed) {b x : ℕ} (hborn : (s.triggers x).pc ≠ .absent)
    (hnone : ∀ c method, x ∉ s.setOf c method) (hmode : (s.triggers x).mode = .notify) :
    ((s.addHandler b x).setPc x (.active b)).Filed := by
  obtain ⟨hunborn, hprovided, -⟩ := filed_setPc h (.active b) hborn fun c method hx =>
    absurd hx (hnone c method)
  refine ⟨hunborn, fun c method => ?_, fun c method y hy => ?_⟩
  · exact (congrArg (·.get method) (setHandlers_providers s b _ _ c)).trans (hprovided c method)
  · have hset : y ∈ (s.addHandler b x).setOf c method := hy
    have hpc := setPc_pc (s.addHandler b x) x y (.active b)
    obtain ⟨hm', hmode', -⟩ := setPc_static (s.addHandler b x) x y (.active b)
    rw [hpc, hm', hmode']
    unfold addHandler at hset
    rw [setHandlers_setOf] at hset
    have hold : y ∈ s.setOf c method → (if y = x then TriggerPc.active b else (s.triggers y).pc) =
        .active c ∧ (s.triggers y).method = method ∧ (s.triggers y).mode = .notify := by
      intro hmem
      have hne : y ≠ x := by
        rintro rfl
        exact hnone c method hmem
      rw [if_neg hne]
      exact h.subscribed c method y hmem
    split at hset
    next hc =>
      obtain ⟨rfl, rfl⟩ := hc
      rcases List.mem_append.mp hset with hmem | hmem
      · exact hold hmem
      · rw [List.mem_singleton] at hmem
        subst hmem
        exact ⟨if_pos rfl, rfl, hmode⟩
    · exact hold hset

/-! ### Steps and runs -/

/-- A node that has not become active is in no set. -/
theorem Filed.outside {s : Triggers} (h : s.Filed) {x : ℕ} (hx : ∀ b, (s.triggers x).pc ≠ .active b)
    (b : ℕ) (method : String) : x ∉ s.setOf b method :=
  fun hmem => hx b (h.subscribed b method x hmem).1

theorem filed_withdraw {s : Triggers} (h : s.Filed) {x : ℕ} (pc : TriggerPc)
    (hborn : (s.triggers x).pc ≠ .absent) (hx : ∀ b, (s.triggers x).pc ≠ .active b) :
    ((s.withdraw x).setPc x pc).Filed :=
  filed_setPc (h.manager _) pc hborn fun b method hmem => absurd hmem (h.outside hx b method)

theorem filed_provide {s : Triggers} (h : s.Filed) {b x : ℕ} (hborn : (s.triggers x).pc ≠ .absent)
    (hx : ∀ b, (s.triggers x).pc ≠ .active b) : (s.provide b x).Filed := by
  unfold provide
  split
  · have hset := filed_setProvider h b x
    exact filed_setPc hset _ hborn fun c method hmem => absurd hmem (hset.outside hx c method)
  · exact filed_setPc h _ hborn fun c method hmem => absurd hmem (h.outside hx c method)

theorem filed_onNotify {s : Triggers} (h : s.Filed) {b x : ℕ} (hborn : (s.triggers x).pc ≠ .absent)
    (hx : ∀ b, (s.triggers x).pc ≠ .active b) (hmode : (s.triggers x).mode = .notify) :
    (s.onNotify b x).Filed := by
  unfold onNotify
  dsimp only
  split
  · exact filed_subscribe h hborn (h.outside hx) hmode
  · have hset : (s.setHandlers b (s.triggers x).method []).Filed := filed_setHandlers h (by simp)
    split
    · exact filed_subscribe hset hborn (hset.outside hx) hmode
    · exact filed_setPc hset _ hborn fun c method hmem => absurd hmem (hset.outside hx c method)

theorem filed_register {s : Triggers} (h : s.Filed) {b x : ℕ} (hborn : (s.triggers x).pc ≠ .absent)
    (hx : ∀ b, (s.triggers x).pc ≠ .active b) : (s.register b x).Filed := by
  unfold register
  split
  next hmode => exact filed_onNotify h hborn hx hmode
  · exact filed_provide h hborn hx

theorem filed_registered {s : Triggers} (h : s.Filed) {b x : ℕ}
    (hborn : (s.triggers x).pc ≠ .absent) (hx : ∀ b, (s.triggers x).pc ≠ .active b) :
    (s.registered b x).Filed := by
  unfold registered
  split
  next hmode => exact filed_subscribe h hborn (h.outside hx) hmode
  · have hset := filed_setProvider h b x
    exact filed_setPc hset _ hborn fun c method hmem => absurd hmem (hset.outside hx c method)

/-- `closeFunction` takes a node out of the one set it can be in. -/
theorem filed_closeFunction {s : Triggers} (h : s.Filed) {b x : ℕ}
    (hx : (s.triggers x).pc = .active b) : (s.closeFunction b x).Filed := by
  have hborn : (s.triggers x).pc ≠ .absent := by simp [hx]
  unfold closeFunction unsubscribe
  dsimp only
  split
  next hmode =>
    have hset : (s.setHandlers b (s.triggers x).method
        ((s.setOf b (s.triggers x).method).filter fun y => decide (y ≠ x))).Filed :=
      filed_setHandlers h fun y hy => (List.mem_filter.mp hy).1
    refine filed_setPc hset _ hborn fun c method hmem => ?_
    rw [setHandlers_setOf] at hmem
    split at hmem
    · exact absurd rfl (of_decide_eq_true (List.mem_filter.mp hmem).2)
    next hne =>
      obtain ⟨hpc, hm, -⟩ := h.subscribed c method x hmem
      rw [hx] at hpc
      cases hpc
      exact absurd ⟨rfl, hm.symm⟩ hne
  next hmode =>
    refine filed_setPc h _ hborn fun c method hmem => ?_
    have hnotify := (h.subscribed c method x hmem).2.2
    rw [hmode] at hnotify
    contradiction

theorem filed_trigger {s : Triggers} (h : s.Filed) (method : String) (mode : TriggerMode)
    (descriptor : TransportDescriptor) (cred : Bool) :
    (s.trigger method mode descriptor cred).Filed := by
  have hat : ∀ x, x ≠ s.nextTrigger →
      (s.trigger method mode descriptor cred).triggers x = s.triggers x :=
    fun x hx => Function.update_of_ne hx _ _
  refine ⟨fun x hx => ?_, h.provided, fun b m x hx => ?_⟩
  · have hlt : s.nextTrigger < x := hx
    rw [hat x (by omega)]
    exact h.unborn x (by omega)
  · have hmem : x ∈ s.setOf b m := hx
    have hne : x ≠ s.nextTrigger := by
      rintro rfl
      have hpc := (h.subscribed b m _ hmem).1
      rw [h.unborn _ (Nat.le_refl _)] at hpc
      contradiction
    rw [hat x hne]
    exact h.subscribed b m x hmem

theorem filed_step {s t : Triggers} {ev : Event} (h : s.Filed) (hs : s.step ev = some t) :
    t.Filed := by
  cases step_takes hs with
  | trigger method mode d cred => exact filed_trigger h ..
  | manager ev manager _ _ => exact h.manager manager
  | acquired x b hx _ =>
    unfold acquired
    dsimp only
    have hmanager := h.manager
      (s.manager.addMethodRef (s.triggers x).descriptor (s.triggers x).method).1
    split
    · exact filed_withdraw hmanager _ (by simp [hx]) (by simp [hx])
    · exact filed_register hmanager (by simp [hx]) (by simp [hx])
  | acquireFailed x hx =>
    exact filed_setPc h _ (by simp [hx.1]) fun c method hmem =>
      absurd hmem (h.outside (by simp [hx.1]) c method)
  | registered x b hx => exact filed_registered h (by simp [hx]) (by simp [hx])
  | registerFailed x b hx => exact filed_withdraw h _ (by simp [hx]) (by simp [hx])
  | closeFunction x b hx => exact filed_closeFunction h hx
  | closed x b hx => exact filed_withdraw h _ (by simp [hx]) (by simp [hx])
  | request b method => exact h
  | notify b method => exact h

theorem filed_reach {ok : Guard Triggers Event} {s : Triggers} (h : machine.Reach ok s) :
    s.Filed := by
  refine h.invariant (P := Filed) (fun u hinit => ?_) fun _ _ _ _ hi hs _ => filed_step hi hs
  have hu : u = initial := hinit
  rw [hu]
  exact filed_initial

/-! ### A closed node stays closed -/

theorem setPc_other {s u : Triggers} {x y : ℕ} (pc : TriggerPc) (hu : u.triggers = s.triggers)
    (hx : (s.triggers x).pc.isClosed = true) (hy : (s.triggers y).pc.isClosed = false) :
    (u.setPc y pc).triggers x = s.triggers x := by
  have hne : x ≠ y := by
    rintro rfl
    rw [hx] at hy
    contradiction
  rw [setPc_triggers, if_neg hne, hu]

theorem closed_step {s t : Triggers} {ev : Event} (h : s.Filed) (hs : s.step ev = some t) {x : ℕ}
    (hx : (s.triggers x).pc.isClosed = true) : t.triggers x = s.triggers x := by
  cases step_takes hs with
  | trigger method mode d cred =>
    have hne : x ≠ s.nextTrigger := by
      rintro rfl
      rw [h.unborn _ (Nat.le_refl _)] at hx
      contradiction
    exact Function.update_of_ne hne _ _
  | manager ev manager _ _ => rfl
  | acquired y b hy _ =>
    have hopen : (s.triggers y).pc.isClosed = false := by
      rw [hy]
      rfl
    unfold acquired
    dsimp only
    split
    · exact setPc_other _ rfl hx hopen
    · unfold register
      split
      · unfold onNotify
        dsimp only
        split
        · exact setPc_other _ rfl hx hopen
        · split <;> exact setPc_other _ rfl hx hopen
      · unfold provide
        split <;> exact setPc_other _ rfl hx hopen
  | acquireFailed y hy => exact setPc_other _ rfl hx (by rw [hy.1]; rfl)
  | registered y b hy =>
    unfold registered
    split <;> exact setPc_other _ rfl hx (by rw [hy]; rfl)
  | registerFailed y b hy => exact setPc_other _ rfl hx (by rw [hy]; rfl)
  | closeFunction y b hy =>
    unfold closeFunction unsubscribe
    dsimp only
    split <;> exact setPc_other _ rfl hx (by rw [hy]; rfl)
  | closed y b hy => exact setPc_other _ rfl hx (by rw [hy]; rfl)
  | request b method => rfl
  | notify b method => rfl

theorem closed_run {ok : Guard Triggers Event} {s t : Triggers} (hs : machine.Reach ok s)
    (ht : (machine.startingAt s).Reach ok t) {x : ℕ} (hx : (s.triggers x).pc.isClosed = true) :
    (t.triggers x).pc.isClosed = true := by
  induction ht with
  | init hi =>
    have hi : _ = s := hi
    rw [hi]
    exact hx
  | step hr hstep _ ih =>
    rw [closed_step (filed_reach (hs.append hr)) hstep ih]
    exact ih

/-! ### Who is called -/

theorem mem_emits_request {ok : Guard Triggers Event} {s : Triggers} (h : machine.Reach ok s)
    (b : ℕ) (method : String) (x : ℕ) :
    x ∈ s.emits (.request b method) ↔ s.lastProvision b method = some x := by
  rw [← (filed_reach h).provided]
  exact Option.mem_toList

theorem step_request {s : Triggers} {b : ℕ} (h : s.receives b = true) (method : String) :
    machine.step s (.request b method) = some s := by
  change (if s.receives b = true then some s else none) = some s
  rw [if_pos h]

/-- A REQUEST comes in for a method whose last provider, if it has one, has not been closed. -/
def Provided : Guard Triggers Event := fun s ev _ =>
  match ev with
  | .request b method => ∀ x ∈ s.lastProvision b method, (s.triggers x).pc.isClosed = false
  | _ => True

instance : ∀ s ev t, Decidable (Provided s ev t) := by
  rintro s (_ | _) t <;> dsimp only [Provided] <;> infer_instance

theorem silent_step {s t : Triggers} {ev : Event} (h : machine.Reach Provided s)
    (hok : Provided s ev t) : ∀ x ∈ s.emits ev, (s.triggers x).pc.isClosed = false := by
  intro x hx
  cases ev with
  | request b method => exact hok x ((mem_emits_request h b method x).mp hx)
  | notify b method =>
    rw [((filed_reach h).subscribed b method x hx).1]
    rfl
  | _ => exact absurd hx List.not_mem_nil

theorem silent_of_provided {s t u : Triggers} {ev : Event} (h : machine.Reach Provided s) {x : ℕ}
    (hx : (s.triggers x).pc.isClosed = true) (ht : (machine.startingAt s).Reach Provided t)
    (_ : machine.step t ev = some u) (hok : Provided t ev u) : x ∉ t.emits ev := by
  intro hmem
  have hopen := silent_step (h.append ht) hok x hmem
  rw [closed_run h ht hx] at hopen
  contradiction

/-- A REQUEST that comes in otherwise fires the workflow of a closed node. -/
theorem fires_of_not_provided {ok : Guard Triggers Event} {s t : Triggers} {ev : Event}
    (h : machine.Reach ok s) (hbad : ¬ Provided s ev t) :
    ∃ x ∈ s.emits ev, (s.triggers x).pc.isClosed = true := by
  cases ev with
  | request b method =>
    have hbad' : ¬ ∀ x ∈ s.lastProvision b method, (s.triggers x).pc.isClosed = false := hbad
    push Not at hbad'
    obtain ⟨x, hx, hclosed⟩ := hbad'
    exact ⟨x, (mem_emits_request h b method x).mpr hx, by simpa using hclosed⟩
  | _ => exact absurd trivial hbad

def router : TransportDescriptor := .unix "/var/run/arduino-router.sock"

/-- A node provides a method, a second one subscribes to another method, and the first is
deactivated: the second keeps the bridge open. -/
def sharedRun : List Event :=
  [.trigger "set_valve" .request router false, .manager (.built 0), .manager (.connected 0),
    .acquired 0, .registered 0, .trigger "button" .notify router false, .acquired 1, .registered 1,
    .closeFunction 0, .closed 0]

def sharedState : Triggers := machine.after Provided initial sharedRun

/-- A third node takes the method over. -/
def rearmedState : Triggers :=
  machine.after Provided sharedState [.trigger "set_valve" .request router false, .acquired 2]

theorem rearmedRun_silent : rearmedState.emits (.request 0 "set_valve") = [2] ∧
    0 ∉ rearmedState.emits (.request 0 "set_valve") := by
  have hshared : machine.Reach Provided sharedState := (Machine.Reach.init rfl).after sharedRun
  have hrearmed : (machine.startingAt sharedState).Reach Provided rearmedState := .since ..
  have hstep := step_request (s := rearmedState) (b := 0) (by decide +kernel) "set_valve"
  exact ⟨by decide +kernel,
    silent_of_provided hshared (by decide +kernel) hrearmed hstep (by decide +kernel)⟩

theorem sharedRun_fires : ¬ ∀ (s t u : Triggers) (ev : Event) (x : ℕ), machine.Reach always s →
    (s.triggers x).pc.isClosed = true → (machine.startingAt s).Reach always t →
    machine.step t ev = some u → x ∉ t.emits ev := by
  intro h
  have hreach : machine.Reach always sharedState :=
    ((Machine.Reach.init rfl).after sharedRun : machine.Reach Provided _).mono
      fun _ _ _ _ _ => trivial
  have hstep := step_request (s := sharedState) (b := 0) (by decide +kernel) "set_valve"
  exact h sharedState sharedState sharedState _ 0 hreach (by decide +kernel) (.init rfl) hstep
    (by decide +kernel)

end Triggers

end UnoQ.Nodes
