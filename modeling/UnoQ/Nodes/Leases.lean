import UnoQ.Manager.FailedConnects
import UnoQ.Manager.Sharing
import UnoQ.Nodes.MethodOwner

/-!
# What nodes owe to the manager

The manager shares one bridge an endpoint and closes it after the last release if its callers release
what they were given, once. Trigger nodes do so on every path through `trigger()` and `closeFunction`,
so a run of them is a run of the manager that it accounts for.
-/

namespace UnoQ.Manager
open Transport Transition

/-- The call awaits something. -/
def Pc.pending : Pc → Bool
  | .awaitingClose _ | .resuming | .building | .connecting _ => true
  | _ => false

namespace BridgeManager

/-! ### What the manager does to a call by itself -/

/-- The call goes on from what it awaits, if it goes on at all. -/
def GoesOn (s t : BridgeManager) (c : ℕ) : Prop :=
  ∃ pc, t.calls c = { s.calls c with pc := pc } ∧
    (pc = (s.calls c).pc ∨ (s.calls c).pc.pending = true ∧ ∀ b, pc ≠ .released b)

theorem goesOn_of_eq {s t : BridgeManager} {c : ℕ} (h : t.calls c = s.calls c) : s.GoesOn t c :=
  ⟨(s.calls c).pc, h, .inl rfl⟩

theorem goesOn_setPc {s u : BridgeManager} {x : ℕ} (pc : Pc) (hu : u.calls = s.calls)
    (hx : (s.calls x).pc.pending = true) (hpc : ∀ b, pc ≠ .released b) (c : ℕ) :
    s.GoesOn (u.setPc x pc) c := by
  by_cases hc : c = x
  · subst hc
    refine ⟨pc, ?_, .inr ⟨hx, hpc⟩⟩
    rw [setPc_calls, if_pos rfl, hu]
  · refine goesOn_of_eq ?_
    rw [setPc_calls, if_neg hc, hu]

theorem goesOn_connectFailed {s u : BridgeManager} {x : ℕ} (hu : u.calls = s.calls)
    (hx : (s.calls x).pc.pending = true) (c : ℕ) : s.GoesOn (u.connectFailed x) c := by
  obtain ⟨pc, hcall, hpc⟩ := goesOn_setPc .failed hu hx (by simp) c
  refine ⟨pc, ?_, hpc⟩
  rw [connectFailed_calls, ← setPc_calls]
  exact hcall

/-- The events that the manager takes by itself give back no bridge, and take none from a call. -/
theorem goesOn_step {s t : BridgeManager} {ev : Event} (hs : s.step ev = some t)
    (hown : Nodes.Triggers.ownEvent ev = true) {c : ℕ} (hc : c < s.nextCall) : s.GoesOn t c := by
  cases step_takes hs with
  | acquire d cred => contradiction
  | getBridge d cred => exact goesOn_of_eq ((start_bridges s .getBridge d cred).2.2.2.2 c (by omega))
  | release d holder => contradiction
  | addMethodRef d method => contradiction
  | removeMethodRef d method => contradiction
  | resume x hx =>
    have hcalls : (s.countOwner (s.calls x) 1).calls = s.calls := (countOwner_rest s (s.calls x) 1).2.2.2.1
    have hpending : (s.calls x).pc.pending = true := by
      rw [hx]
      rfl
    have hstay : (s.countOwner (s.calls x) 1).calls x = s.calls x := congrFun hcalls x
    unfold proceed takeBridge
    split
    · have hgo := goesOn_setPc .building hcalls hpending (by simp) c
      unfold setPc at hgo
      rw [hstay] at hgo
      exact hgo
    next b _ =>
      have hgo := goesOn_setPc (.returned b) hcalls hpending (by simp) c
      unfold setPc at hgo
      rw [hstay] at hgo
      exact hgo
  | built x hx =>
    have hpending : (s.calls x).pc.pending = true := by
      rw [hx.1]
      rfl
    exact goesOn_setPc _ rfl hpending (by simp) c
  | buildFailed x hx =>
    have hpending : (s.calls x).pc.pending = true := by
      rw [hx]
      rfl
    exact goesOn_connectFailed rfl hpending c
  | connected x b hx _ =>
    have hpending : (s.calls x).pc.pending = true := by
      rw [hx]
      rfl
    exact goesOn_setPc _ rfl hpending (by simp) c
  | connectFailed x b hx =>
    have hpending : (s.calls x).pc.pending = true := by
      rw [hx]
      rfl
    exact goesOn_connectFailed (u := s.setBridge b (s.bridges b).key .closed) rfl hpending c
  | closeDone b e _ =>
    have hcalls : (s.closeDone b e).calls = (s.finishClose b e).calls := by
      unfold closeDone dropClosed
      dsimp only
      split <;> rfl
    by_cases hwait : (s.calls c).pc = .awaitingClose b
    · refine ⟨.resuming, ?_, .inr ⟨by rw [hwait]; rfl, by simp⟩⟩
      rw [hcalls, finishClose_calls, if_pos hwait]
    · refine goesOn_of_eq ?_
      rw [hcalls, finishClose_calls, if_neg hwait]

/-- A call that has started has taken no bridge yet that it could have given back. -/
theorem start_call (s : BridgeManager) (kind : Kind) (d : TransportDescriptor) (cred : Bool) :
    ((s.start kind d cred).calls s.nextCall).kind = kind ∧
      ∀ b, ((s.start kind d cred).calls s.nextCall).pc ≠ .released b := by
  have hnc := (getEntry_calls s d).2
  unfold start
  dsimp only
  rw [hnc]
  split
  · rw [setCall_calls, if_pos rfl]
    exact ⟨rfl, by simp⟩
  · unfold proceed takeBridge
    split
    · rw [setCall_calls, if_pos rfl]
      exact ⟨rfl, by simp⟩
    · rw [setCall_calls, if_pos rfl]
      exact ⟨rfl, by simp⟩

/-- The manager makes no call of `acquire` by itself. -/
theorem nextCall_step {s t : BridgeManager} {ev : Event} (hs : s.step ev = some t)
    (hown : Nodes.Triggers.ownEvent ev = true) : s.nextCall ≤ t.nextCall ∧
      ∀ c < t.nextCall, s.nextCall ≤ c → (t.calls c).kind ≠ .acquire := by
  have hsame : t.nextCall = s.nextCall → s.nextCall ≤ t.nextCall ∧
      ∀ c < t.nextCall, s.nextCall ≤ c → (t.calls c).kind ≠ .acquire := by
    intro hn
    exact ⟨Nat.le_of_eq hn.symm, fun c hc hle => by omega⟩
  cases step_takes hs with
  | acquire d cred => contradiction
  | getBridge d cred =>
    have hn := (start_bridges s .getBridge d cred).2.2.1
    unfold getBridge
    refine ⟨by omega, fun c hc hle => ?_⟩
    have hcn : c = s.nextCall := by omega
    rw [hcn, (start_call s .getBridge d cred).1]
    simp
  | release d holder => contradiction
  | addMethodRef d method => contradiction
  | removeMethodRef d method => contradiction
  | resume x hx => exact hsame (steady_proceed s (c := x) (by simp [hx])).next.2
  | built x _ => exact hsame rfl
  | buildFailed x _ => exact hsame (connectFailed_next s x)
  | connected x b _ _ => exact hsame rfl
  | connectFailed x b _ => exact hsame (connectFailed_next (s.setBridge b _ .closed) x)
  | closeDone b e _ => exact hsame (steady_closeDone s b e).next.2

theorem methodRef_calls (s : BridgeManager) (d : TransportDescriptor) (method : String) :
    ((s.addMethodRef d method).1.calls = s.calls ∧
      (s.addMethodRef d method).1.nextCall = s.nextCall) ∧
    (s.removeMethodRef d method).1.calls = s.calls ∧
      (s.removeMethodRef d method).1.nextCall = s.nextCall := by
  obtain ⟨hcalls, hnc⟩ := getEntry_calls s d
  refine ⟨⟨hcalls, hnc⟩, ?_⟩
  unfold removeMethodRef
  dsimp only
  split
  · exact ⟨hcalls, hnc⟩
  · exact ⟨hcalls, hnc⟩

/-- A release gives back the bridge of its holder, and touches no other call. -/
theorem release_calls (s : BridgeManager) (d : TransportDescriptor) {c b : ℕ}
    (hc : (s.calls c).pc = .returned b) :
    (∀ x, (s.release d (some c)).calls x =
      if x = c then { s.calls c with pc := .released b } else s.calls x) ∧
    (s.release d (some c)).nextCall = s.nextCall := by
  have hgive : s.giveBack (some c) = s.setPc c (.released b) := by
    simp only [giveBack, hc]
  have hrest : (s.release d (some c)).calls = (s.giveBack (some c)).calls ∧
      (s.release d (some c)).nextCall = (s.giveBack (some c)).nextCall := by
    unfold release
    split
    · exact ⟨rfl, rfl⟩
    · unfold releaseRef
      dsimp only
      split
      · exact ⟨rfl, rfl⟩
      · split <;> exact ⟨rfl, rfl⟩
  rw [hrest.1, hrest.2, hgive]
  exact ⟨fun x => setPc_calls s c x _, rfl⟩

end BridgeManager

end UnoQ.Manager

namespace UnoQ.Nodes
open Transport Manager Transition

/-- Where the call of `acquire` stands while the node that made it stands there. -/
def TriggerPc.Fits : TriggerPc → Pc → Prop
  | .absent, _ => True
  | .acquiring, pc => ∀ b, pc ≠ .released b
  | .registering b, pc | .active b, pc | .closing b, pc => pc = .returned b
  | .closed b, pc => pc = .released b
  | .failed, pc => pc = .failed ∨ ∃ b, pc = .released b

/-- What a call comes to by itself leaves the node that awaits it, or has it, where it is. -/
theorem TriggerPc.Fits.goesOn {pc : TriggerPc} {old new : Pc} (h : pc.Fits old)
    (hpending : old.pending = true) (hnew : ∀ b, new ≠ .released b) : pc.Fits new := by
  cases pc with
  | absent => trivial
  | acquiring => exact hnew
  | registering b | active b | closing b | closed b =>
    have hold : old = _ := h
    rw [hold] at hpending
    contradiction
  | failed =>
    rcases h with hold | ⟨b, hold⟩
    · rw [hold] at hpending
      contradiction
    · rw [hold] at hpending
      contradiction

namespace Triggers

variable {s t : Triggers}

def callOf (s : Triggers) (x : ℕ) : Call := s.manager.calls (s.triggers x).call

/-- A node's call is its own, and is where the node has got with it. Nobody else calls `acquire`. -/
structure Leased (s : Triggers) : Prop where
  unborn : ∀ x, s.nextTrigger ≤ x → (s.triggers x).pc = .absent
  called : ∀ x < s.nextTrigger, (s.triggers x).pc ≠ .absent ∧ (s.triggers x).call < s.manager.nextCall ∧
    (s.callOf x).kind = .acquire ∧ (s.callOf x).descriptor = (s.triggers x).descriptor
  apart : ∀ x < s.nextTrigger, ∀ y < s.nextTrigger, (s.triggers x).call = (s.triggers y).call → x = y
  fits : ∀ x < s.nextTrigger, (s.triggers x).pc.Fits (s.callOf x).pc
  acquirer : ∀ c < s.manager.nextCall, (s.manager.calls c).kind = .acquire →
    ∃ x < s.nextTrigger, (s.triggers x).call = c

theorem leased_initial : initial.Leased where
  unborn _ _ := rfl
  called := by simp [initial]
  apart := by simp [initial]
  fits := by simp [initial]
  acquirer := by simp [initial, BridgeManager.initial]

theorem Leased.born (h : s.Leased) {x : ℕ} (hx : (s.triggers x).pc ≠ .absent) : x < s.nextTrigger := by
  by_contra hle
  exact hx (h.unborn x (Nat.le_of_not_lt hle))

/-! ### The pieces of a step -/

/-- Node `x` moves on to `pc`, and what becomes of its call fits. No other call is touched. -/
theorem Leased.move (h : s.Leased) {x : ℕ} {pc : TriggerPc} {cpc : Pc} (hborn : x < s.nextTrigger)
    (htriggers : t.triggers = Function.update s.triggers x { s.triggers x with pc := pc })
    (hnext : t.nextTrigger = s.nextTrigger) (hnc : t.manager.nextCall = s.manager.nextCall)
    (hcalls : ∀ c, t.manager.calls c =
      if c = (s.triggers x).call then { s.callOf x with pc := cpc } else s.manager.calls c)
    (hpc : pc ≠ .absent) (hfits : pc.Fits cpc) : t.Leased := by
  have hat : ∀ y, t.triggers y = if y = x then { s.triggers x with pc := pc } else s.triggers y := by
    intro y
    rw [htriggers]
    exact Function.update_apply ..
  have hcall : ∀ y, (t.triggers y).call = (s.triggers y).call := by
    intro y
    rw [hat]
    split
    next hy => rw [hy]
    · rfl
  have hself : t.callOf x = { s.callOf x with pc := cpc } := by
    unfold callOf
    rw [hcall, hcalls, if_pos rfl]
    rfl
  have hother : ∀ y < s.nextTrigger, y ≠ x → t.callOf y = s.callOf y := by
    intro y hy hyx
    unfold callOf
    rw [hcall, hcalls, if_neg fun hc => hyx (h.apart y hy x hborn hc)]
  constructor
  · intro y hy
    rw [hnext] at hy
    have hyx : y ≠ x := by omega
    rw [hat, if_neg hyx]
    exact h.unborn y hy
  · intro y hy
    rw [hnext] at hy
    obtain ⟨habsent, hlt, hkind, hdescriptor⟩ := h.called y hy
    rw [hcall, hnc]
    by_cases hyx : y = x
    · subst hyx
      rw [hat, if_pos rfl, hself]
      exact ⟨hpc, hlt, hkind, hdescriptor⟩
    · rw [hat, if_neg hyx, hother y hy hyx]
      exact ⟨habsent, hlt, hkind, hdescriptor⟩
  · intro y hy z hz
    rw [hnext] at hy hz
    rw [hcall, hcall]
    exact h.apart y hy z hz
  · intro y hy
    rw [hnext] at hy
    by_cases hyx : y = x
    · subst hyx
      rw [hat, if_pos rfl, hself]
      exact hfits
    · rw [hat, if_neg hyx, hother y hy hyx]
      exact h.fits y hy
  · intro c hc hkind
    rw [hnc] at hc
    have hold : (s.manager.calls c).kind = .acquire := by
      rw [hcalls] at hkind
      split at hkind
      next hcx =>
        rw [hcx]
        exact hkind
      · exact hkind
    obtain ⟨y, hy, hyc⟩ := h.acquirer c hc hold
    exact ⟨y, hnext ▸ hy, (hcall y).trans hyc⟩

/-- A node goes on, and nothing happens to any call. -/
theorem Leased.onward (h : s.Leased) {x : ℕ} {pc : TriggerPc} (hborn : (s.triggers x).pc ≠ .absent)
    (htriggers : t.triggers = Function.update s.triggers x { s.triggers x with pc := pc })
    (hnext : t.nextTrigger = s.nextTrigger) (hnc : t.manager.nextCall = s.manager.nextCall)
    (hcalls : t.manager.calls = s.manager.calls) (hpc : pc ≠ .absent)
    (hfits : pc.Fits (s.callOf x).pc) : t.Leased := by
  refine h.move (h.born hborn) htriggers hnext hnc (fun c => ?_) hpc hfits
  rw [hcalls]
  split
  next hc => rw [hc]; rfl
  · rfl

/-- `withdraw` gives back the bridge that the node's call was given. -/
theorem Leased.withdraw (h : s.Leased) {x b : ℕ} (pc : TriggerPc)
    (hborn : (s.triggers x).pc ≠ .absent) (hcall : (s.callOf x).pc = .returned b) (hpc : pc ≠ .absent)
    (hfits : pc.Fits (.released b)) {u : Triggers} (hu : u.triggers = s.triggers)
    (hnext : u.nextTrigger = s.nextTrigger) (hcalls : u.manager.calls = s.manager.calls)
    (hnc : u.manager.nextCall = s.manager.nextCall) : ((u.withdraw x).setPc x pc).Leased := by
  have hremoved := (BridgeManager.methodRef_calls u.manager (s.triggers x).descriptor
    (s.triggers x).method).2
  have hreturned : ((u.manager.removeMethodRef (s.triggers x).descriptor
      (s.triggers x).method).1.calls (s.triggers x).call).pc = .returned b := by
    rw [hremoved.1, hcalls]
    exact hcall
  obtain ⟨hreleased, hreleasedNext⟩ := BridgeManager.release_calls _ (s.triggers x).descriptor hreturned
  have hmanager : ((u.withdraw x).setPc x pc).manager =
      (u.manager.removeMethodRef (s.triggers x).descriptor (s.triggers x).method).1.release
        (s.triggers x).descriptor (some (s.triggers x).call) := by
    unfold Triggers.withdraw
    rw [hu]
    rfl
  refine h.move (h.born hborn) ?_ hnext ?_ (fun c => ?_) hpc hfits
  · change Function.update u.triggers x _ = _
    rw [hu]
    exact congrArg (fun r : UnoQTrigger => Function.update s.triggers x { r with pc := pc })
      (congrFun hu x)
  · rw [hmanager, hreleasedNext, hremoved.2, hnc]
  · rw [hmanager, hreleased, hremoved.1, hcalls]
    rfl

theorem leased_manager (h : s.Leased) {ev : BridgeManager.Event} {manager : BridgeManager}
    (hown : ownEvent ev = true) (hs : s.manager.step ev = some manager) :
    Leased { s with manager := manager } := by
  obtain ⟨hle, hnew⟩ := BridgeManager.nextCall_step hs hown
  have hgoes : ∀ x < s.nextTrigger, s.manager.GoesOn manager (s.triggers x).call :=
    fun x hx => BridgeManager.goesOn_step hs hown (h.called x hx).2.1
  constructor
  · exact h.unborn
  · intro x hx
    obtain ⟨habsent, hlt, hkind, hdescriptor⟩ := h.called x hx
    obtain ⟨pc, hcall, -⟩ := hgoes x hx
    refine ⟨habsent, Nat.lt_of_lt_of_le hlt hle, ?_, ?_⟩
    · exact (congrArg Call.kind hcall).trans hkind
    · exact (congrArg Call.descriptor hcall).trans hdescriptor
  · exact h.apart
  · intro x hx
    obtain ⟨pc, hcall, hpc⟩ := hgoes x hx
    have hnow : (callOf { s with manager := manager } x).pc = pc := congrArg Call.pc hcall
    rw [hnow]
    rcases hpc with rfl | ⟨hpending, hreleased⟩
    · exact h.fits x hx
    · exact TriggerPc.Fits.goesOn (h.fits x hx) hpending hreleased
  · intro c hc hkind
    by_cases hold : c < s.manager.nextCall
    · obtain ⟨pc, hcall, -⟩ := BridgeManager.goesOn_step hs hown hold
      exact h.acquirer c hold ((congrArg Call.kind hcall).symm.trans hkind)
    · exact absurd hkind (hnew c hc (Nat.le_of_not_lt hold))

theorem leased_trigger (h : s.Leased) (method : String) (mode : TriggerMode) (d : TransportDescriptor)
    (cred : Bool) : (s.trigger method mode d cred).Leased := by
  obtain ⟨-, -, hnc, hdescriptor, hcalls⟩ := BridgeManager.start_bridges s.manager .acquire d cred
  obtain ⟨hkind, hreleased⟩ := BridgeManager.start_call s.manager .acquire d cred
  have hat : ∀ y, (s.trigger method mode d cred).triggers y =
      if y = s.nextTrigger then ⟨method, mode, d, s.manager.nextCall, .acquiring⟩
      else s.triggers y := fun y => Function.update_apply ..
  have hnext : (s.trigger method mode d cred).nextTrigger = s.nextTrigger + 1 := rfl
  have hmanager : (s.trigger method mode d cred).manager = s.manager.start .acquire d cred := rfl
  have hnew : (s.trigger method mode d cred).callOf s.nextTrigger =
      (s.manager.start .acquire d cred).calls s.manager.nextCall := by
    unfold callOf
    rw [hat, if_pos rfl, hmanager]
  have hold : ∀ y < s.nextTrigger, (s.trigger method mode d cred).triggers y = s.triggers y ∧
      (s.trigger method mode d cred).callOf y = s.callOf y := by
    intro y hy
    have hyn : y ≠ s.nextTrigger := by omega
    have hlt := (h.called y hy).2.1
    refine ⟨by rw [hat, if_neg hyn], ?_⟩
    unfold callOf
    rw [hat, if_neg hyn, hmanager, hcalls _ (by omega)]
  constructor
  · intro y hy
    rw [hnext] at hy
    have hyn : y ≠ s.nextTrigger := by omega
    rw [hat, if_neg hyn]
    exact h.unborn y (by omega)
  · intro y hy
    rw [hnext] at hy
    rcases Nat.lt_succ_iff_lt_or_eq.mp hy with hlt | rfl
    · obtain ⟨habsent, hborn, hkind', hdescriptor'⟩ := h.called y hlt
      rw [(hold y hlt).1, (hold y hlt).2, hmanager, hnc]
      exact ⟨habsent, by omega, hkind', hdescriptor'⟩
    · rw [hnew, hat, if_pos rfl, hmanager, hnc]
      exact ⟨by simp, Nat.lt_succ_self _, hkind, hdescriptor⟩
  · intro y hy z hz hyz
    rw [hnext] at hy hz
    rcases Nat.lt_succ_iff_lt_or_eq.mp hy with hylt | rfl
    · rcases Nat.lt_succ_iff_lt_or_eq.mp hz with hzlt | rfl
      · rw [(hold y hylt).1, (hold z hzlt).1] at hyz
        exact h.apart y hylt z hzlt hyz
      · rw [(hold y hylt).1, hat, if_pos rfl] at hyz
        have hlt := (h.called y hylt).2.1
        rw [hyz] at hlt
        exact absurd hlt (Nat.lt_irrefl _)
    · rcases Nat.lt_succ_iff_lt_or_eq.mp hz with hzlt | rfl
      · rw [(hold z hzlt).1, hat, if_pos rfl] at hyz
        have hlt := (h.called z hzlt).2.1
        rw [← hyz] at hlt
        exact absurd hlt (Nat.lt_irrefl _)
      · rfl
  · intro y hy
    rw [hnext] at hy
    rcases Nat.lt_succ_iff_lt_or_eq.mp hy with hlt | rfl
    · rw [(hold y hlt).1, (hold y hlt).2]
      exact h.fits y hlt
    · rw [hnew, hat, if_pos rfl]
      exact hreleased
  · intro c hc hkind'
    rw [hmanager] at hc hkind'
    by_cases hcn : c = s.manager.nextCall
    · refine ⟨s.nextTrigger, Nat.lt_succ_self _, ?_⟩
      rw [hat, if_pos rfl, hcn]
    · rw [hcalls c hcn] at hkind'
      rw [hnc] at hc
      obtain ⟨y, hy, hyc⟩ := h.acquirer c (by omega) hkind'
      exact ⟨y, Nat.lt_succ_of_lt hy, ((congrArg UnoQTrigger.call (hold y hy).1)).trans hyc⟩

/-! ### Steps and runs -/

theorem Leased.tables (h : s.Leased) {u : Triggers} {x : ℕ} {pc : TriggerPc} (hu : s.Tables x pc u)
    (hborn : (s.triggers x).pc ≠ .absent) (hpc : pc ≠ .absent) (hfits : pc.Fits (s.callOf x).pc) :
    (u.setPc x pc).Leased :=
  h.onward hborn hu.triggers_setPc hu.next (congrArg BridgeManager.nextCall hu.manager)
    (congrArg BridgeManager.calls hu.manager) hpc hfits

theorem Leased.at (h : s.Leased) {x : ℕ} {pc : TriggerPc} (hx : (s.triggers x).pc = pc)
    (hpc : pc ≠ .absent) : pc.Fits (s.callOf x).pc := by
  have hfits := h.fits x (h.born (by rw [hx]; exact hpc))
  rw [hx] at hfits
  exact hfits

theorem leased_step (h : s.Leased) {ev : Event} (hs : s.step ev = some t) : t.Leased := by
  cases step_takes hs with
  | trigger method mode d cred => exact leased_trigger h method mode d cred
  | manager ev manager hown hmanager => exact leased_manager h hown hmanager
  | acquired x b hx hcall =>
    have hborn : (s.triggers x).pc ≠ .absent := by simp [hx]
    have hcounted := (BridgeManager.methodRef_calls s.manager (s.triggers x).descriptor
      (s.triggers x).method).1
    unfold acquired
    dsimp only
    split
    · exact h.withdraw .failed hborn hcall (by simp) (.inr ⟨b, rfl⟩) rfl rfl hcounted.1 hcounted.2
    · obtain ⟨u, pc, hu, hbridge, htables⟩ := register_tables { s with manager :=
        (s.manager.addMethodRef (s.triggers x).descriptor (s.triggers x).method).1 } b x
      rw [hu]
      have hfits : pc ≠ .absent ∧ pc.Fits (s.callOf x).pc := by
        cases pc with
        | registering c | active c | closing c =>
          cases hbridge
          exact ⟨by simp, hcall⟩
        | absent | acquiring | closed | failed => contradiction
      refine h.onward hborn htables.triggers_setPc htables.next ?_ ?_ hfits.1 hfits.2
      · exact (congrArg BridgeManager.nextCall htables.manager).trans hcounted.2
      · exact (congrArg BridgeManager.calls htables.manager).trans hcounted.1
  | acquireFailed x hx =>
    exact h.onward (by simp [hx.1]) rfl rfl rfl rfl (by simp) (.inl hx.2)
  | registered x b hx =>
    have hborn : (s.triggers x).pc ≠ .absent := by simp [hx]
    have hcall : (s.callOf x).pc = .returned b := h.at hx (by simp)
    unfold registered
    split
    next hmode =>
      exact h.tables (tables_setHandlers s b _ _ fun _ _ => hmode) hborn (by simp) hcall
    next hmode => exact h.tables (tables_setProvider s b hmode) hborn (by simp) hcall
  | registerFailed x b hx =>
    have hcall : (s.callOf x).pc = .returned b := h.at hx (by simp)
    exact h.withdraw .failed (by simp [hx]) hcall (by simp) (.inr ⟨b, rfl⟩) rfl rfl rfl rfl
  | closeFunction x b hx =>
    have hborn : (s.triggers x).pc ≠ .absent := by simp [hx]
    have hcall : (s.callOf x).pc = .returned b := h.at hx (by simp)
    unfold closeFunction unsubscribe
    dsimp only
    split
    · exact h.tables (tables_setHandlers s b _ _ (by simp)) hborn (by simp) hcall
    · exact h.onward hborn rfl rfl rfl rfl (by simp) hcall
  | closed x b hx =>
    have hcall : (s.callOf x).pc = .returned b := h.at hx (by simp)
    exact h.withdraw (.closed b) (by simp [hx]) hcall (by simp) rfl rfl rfl rfl rfl
  | request b method => exact h
  | notify b method => exact h

theorem leased_reach {ok : Guard Triggers Event} (h : machine.Reach ok s) : s.Leased := by
  refine h.invariant (P := Leased) (fun u hinit => ?_) fun _ _ _ _ hi hs _ => leased_step hi hs
  have hu : u = initial := hinit
  rw [hu]
  exact leased_initial


/-! ### A run of nodes is a run of the manager -/

/-- Counting of methods, and releases of what is owed, are allowed. -/
structure Admits (ok : Guard BridgeManager BridgeManager.Event) : Prop where
  add : ∀ m d method, ok m (.addMethodRef d method) (m.addMethodRef d method).1
  remove : ∀ m d method, ok m (.removeMethodRef d method) (m.removeMethodRef d method).1
  release : ∀ m d c, m.owes (describeTransport d) c → ok m (.release d (some c)) (m.release d (some c))

variable {ok : Guard BridgeManager BridgeManager.Event} {m : BridgeManager}

theorem Admits.added (hok : Admits ok) (hr : BridgeManager.machine.Reach ok m)
    (d : TransportDescriptor) (method : String) :
    BridgeManager.machine.Reach ok (m.addMethodRef d method).1 :=
  hr.step rfl (hok.add m d method)

/-- `withdraw` releases what the node's call was given. -/
theorem Admits.withdrawn (hok : Admits ok) (h : s.Leased) {x b : ℕ}
    (hborn : (s.triggers x).pc ≠ .absent) (hcall : (s.callOf x).pc = .returned b)
    (hr : BridgeManager.machine.Reach ok m) (hcalls : m.calls = s.manager.calls) :
    BridgeManager.machine.Reach ok
      ((m.removeMethodRef (s.triggers x).descriptor (s.triggers x).method).1.release
        (s.triggers x).descriptor (some (s.triggers x).call)) := by
  have hremoved := (BridgeManager.methodRef_calls m (s.triggers x).descriptor
    (s.triggers x).method).2.1
  obtain ⟨-, -, hkind, hdescriptor⟩ := h.called x (h.born hborn)
  have hr' := hr.step rfl (hok.remove m (s.triggers x).descriptor (s.triggers x).method)
  refine hr'.step rfl (hok.release _ _ _ ?_)
  have hreturned : (s.manager.calls (s.triggers x).call).pc = .returned b := hcall
  unfold BridgeManager.owes
  rw [hremoved, hcalls, hreturned]
  exact ⟨hkind, congrArg describeTransport hdescriptor, trivial⟩

/-- What a node makes the manager do, step by step. -/
theorem manager_answers (hok : Admits ok) (h : s.Leased) {ev : Event} (hs : s.step ev = some t)
    (hr : BridgeManager.machine.Reach ok s.manager)
    (hacquire : ∀ method mode d cred, ev = .trigger method mode d cred →
      ok s.manager (.acquire d cred) (s.manager.acquire d cred))
    (hown : ∀ e m, ownEvent e = true → ev = .manager e → s.manager.step e = some m →
      ok s.manager e m) : BridgeManager.machine.Reach ok t.manager := by
  cases step_takes hs with
  | trigger method mode d cred => exact hr.step rfl (hacquire method mode d cred rfl)
  | manager e m hself hm => exact hr.step hm (hown e m hself rfl hm)
  | acquired x b hx hcall =>
    have hborn : (s.triggers x).pc ≠ .absent := by simp [hx]
    have hadded := hok.added hr (s.triggers x).descriptor (s.triggers x).method
    unfold acquired
    dsimp only
    split
    · exact hok.withdrawn h hborn hcall hadded
        (BridgeManager.methodRef_calls s.manager _ _).1.1
    · obtain ⟨u, pc, hu, -, htables⟩ := register_tables { s with manager :=
        (s.manager.addMethodRef (s.triggers x).descriptor (s.triggers x).method).1 } b x
      rw [hu]
      have hmanager : (u.setPc x pc).manager = _ := htables.manager
      rw [hmanager]
      exact hadded
  | acquireFailed x hx => exact hr
  | registered x b hx =>
    unfold registered
    split
    · exact hr
    · exact hr
  | registerFailed x b hx =>
    have hcall : (s.callOf x).pc = .returned b := h.at hx (by simp)
    exact hok.withdrawn h (by simp [hx]) hcall hr rfl
  | closeFunction x b hx =>
    unfold closeFunction unsubscribe
    dsimp only
    split
    · exact hr
    · exact hr
  | closed x b hx =>
    have hcall : (s.callOf x).pc = .returned b := h.at hx (by simp)
    exact hok.withdrawn h (by simp [hx]) hcall hr rfl
  | request b method => exact hr
  | notify b method => exact hr

theorem matched_own {e : BridgeManager.Event} (hself : ownEvent e = true) (n : BridgeManager) :
    BridgeManager.Matched m e n := by
  cases e with
  | release d holder => contradiction
  | _ => trivial

/-- Nodes release what they were given, once, and nothing else. -/
theorem matched_reach (h : machine.Reach always s) :
    BridgeManager.machine.Reach BridgeManager.Matched s.manager := by
  have hok : Admits BridgeManager.Matched := by
    refine ⟨fun _ _ _ => trivial, fun _ _ _ => trivial, fun m d c hc => ⟨c, rfl, hc⟩⟩
  refine h.simulation Triggers.manager (fun u hu => ?_) fun u ev v hr hm hs _ => ?_
  · have hinit : u = initial := hu
    rw [hinit]
    exact rfl
  · refine manager_answers hok (leased_reach hr) hs hm (fun _ _ _ _ _ => trivial) ?_
    intro e m hself _ _
    exact matched_own hself m

/-- Two nodes want the same method in Request mode. The second one is refused, the registration of the
first fails: each gives back what it was given. -/
def refusedRun : List Event :=
  [.trigger "set_valve" .request localRouter false, .manager (.built 0), .manager (.connected 0),
    .acquired 0, .trigger "set_valve" .request localRouter false, .acquired 1, .registerFailed 0]

def refusedState : Triggers := machine.after always initial refusedRun

theorem refusedRun_matched : (refusedState.callOf 0).pc = .released 0 ∧
    (refusedState.callOf 1).pc = .released 0 ∧
    BridgeManager.machine.Reach BridgeManager.Matched refusedState.manager :=
  ⟨by decide +kernel, by decide +kernel, matched_reach ((Machine.Reach.init rfl).after refusedRun)⟩

/-- Between two awaits of the manager the rest is as it needs it: no two calls connect for a key at the
same time, and a call that waited for a close finds its entry. -/
def Orderly : Guard Triggers Event := fun s ev _ =>
  match ev with
  | .trigger _ _ d cred => BridgeManager.ConnectsAlone s.manager (.acquire d cred) s.manager
  | .manager e =>
    BridgeManager.ConnectsAlone s.manager e s.manager ∧ BridgeManager.FindsEntry s.manager e s.manager
  | _ => True

instance (s : Triggers) : ∀ (ev : Event) (t : Triggers), Decidable (Orderly s ev t)
  | .trigger _ _ d cred, _ =>
    inferInstanceAs (Decidable (BridgeManager.ConnectsAlone s.manager (.acquire d cred) s.manager))
  | .manager e, _ =>
    inferInstanceAs (Decidable (BridgeManager.ConnectsAlone s.manager e s.manager ∧
      BridgeManager.FindsEntry s.manager e s.manager))
  | .acquired _, _ => isTrue trivial
  | .acquireFailed _, _ => isTrue trivial
  | .registered _, _ => isTrue trivial
  | .registerFailed _, _ => isTrue trivial
  | .closeFunction _, _ => isTrue trivial
  | .closed _, _ => isTrue trivial
  | .request _ _, _ => isTrue trivial
  | .notify _ _, _ => isTrue trivial

theorem orderly_reach (h : machine.Reach Orderly s) :
    BridgeManager.machine.Reach BridgeManager.Orderly s.manager := by
  have hidle : ∀ (m : BridgeManager) (e : BridgeManager.Event), m.startsConnecting e = none →
      BridgeManager.ConnectsAlone m e m := by
    intro m e he key hkey
    rw [he] at hkey
    contradiction
  have hok : Admits BridgeManager.Orderly := by
    refine ⟨fun m d method => ?_, fun m d method => ?_, fun m d c hc => ?_⟩
    · exact ⟨hidle m (.addMethodRef d method) rfl, trivial, trivial⟩
    · exact ⟨hidle m (.removeMethodRef d method) rfl, trivial, trivial⟩
    · exact ⟨hidle m (.release d (some c)) rfl, trivial, c, rfl, hc⟩
  refine h.simulation Triggers.manager (fun u hu => ?_) fun u ev v hr hm hs hguard => ?_
  · have hinit : u = initial := hu
    rw [hinit]
    exact rfl
  · refine manager_answers hok (leased_reach hr) hs hm ?_ ?_
    · rintro method mode d cred rfl
      exact ⟨hguard, trivial, trivial⟩
    · rintro e m hself rfl _
      exact ⟨hguard.1, hguard.2, matched_own hself m⟩

/-! ### What an orderly manager does for its nodes -/

/-- No entry with references is dropped. -/
theorem spares_step (hi : m.Inv) {e : BridgeManager.Event} {n : BridgeManager}
    (hs : m.step e = some n) : m.Spares e := by
  have hbusy : ∀ c, (m.calls c).pc.busy = true → m.FailureDrops c → m.Unreferenced (m.calls c).key := by
    intro c hc hdrops e he
    have hcall := hi.calls c
    have hmapped := (hcall.busy hc).1
    have hidle : (m.calls c).pc ≠ .idle := by
      intro hidle
      rw [hidle] at hc
      contradiction
    rw [BridgeManager.Mapped, (hcall.entry hidle).2, Option.mem_def.mp he] at hmapped
    cases hmapped
    exact hdrops.2.2.1
  cases BridgeManager.step_takes hs with
  | buildFailed c hpc => exact hbusy c (by rw [hpc]; rfl)
  | connectFailed c b hpc => exact hbusy c (by rw [hpc]; rfl)
  | closeDone b e hclosing =>
    have hpending := hi.closed b e hclosing
    have hmapped := BridgeManager.mapped_of_pendingClose hi hpending
    have hkey : (m.bridges b).key = m.entryKey e := by rw [hi.closing e b hpending]
    dsimp only [BridgeManager.Spares]
    rw [hclosing]
    intro hdrops x hx
    rw [BridgeManager.Mapped, ← hkey, Option.mem_def.mp hx] at hmapped
    cases hmapped
    exact hdrops.2.2.1
  | _ => trivial

theorem spared_reach (h : machine.Reach Orderly s) : machine.Reach Spared s := by
  induction h with
  | init hi => exact .init hi
  | @step u ev v hr hs hguard ih =>
    refine ih.step hs ?_
    cases step_takes hs with
    | manager e m _ hm => exact spares_step (BridgeManager.owned_reach (orderly_reach hr)).inv hm
    | _ => trivial

/-- What nodes have of the manager: a node that is registered, or about to be, has the one open bridge of
its endpoint, and an endpoint that no node uses or asks for is left with no count, and once its closes
are done with none of the bridges that its nodes were given. -/
structure Tidy (s : Triggers) : Prop where
  opened : ∀ x b, (s.triggers x).pc.bridge = some b →
    s.manager.bridges b = ⟨(s.triggers x).key, .opened⟩
  shared : ∀ x b key c, (s.triggers x).pc.bridge = some b → (s.triggers x).key = key →
    s.manager.Live c key → c = b
  uncounted : ∀ key, (∀ x, (s.triggers x).key = key → (s.triggers x).pc.bridge = none) →
    ∀ method, s.manager.refsOf key method = 0
  closed : ∀ key, (∀ x, (s.triggers x).key = key →
      (s.triggers x).pc.bridge = none ∧ (s.triggers x).pc ≠ .acquiring) →
    (∀ b e, (s.manager.bridges b).key = key → (s.manager.bridges b).status ≠ .closing e) →
    ∀ x < s.nextTrigger, (s.triggers x).key = key → ∀ b, (s.callOf x).pc = .released b →
      (s.manager.bridges b).status = .closed

/-- The call of a node that has a bridge has returned it. -/
theorem Leased.returned (h : s.Leased) {x b : ℕ} (hb : (s.triggers x).pc.bridge = some b) :
    x < s.nextTrigger ∧ (s.callOf x).pc = .returned b := by
  have hborn : x < s.nextTrigger := by
    refine h.born fun habsent => ?_
    rw [habsent] at hb
    contradiction
  refine ⟨hborn, ?_⟩
  have hfits := h.fits x hborn
  cases hpc : (s.triggers x).pc with
  | registering c | active c | closing c =>
    rw [hpc] at hb hfits
    cases hb
    exact hfits
  | absent | acquiring | closed c | failed =>
    rw [hpc] at hb
    contradiction

theorem opened_reach (h : machine.Reach Orderly s) {x b : ℕ} (hb : (s.triggers x).pc.bridge = some b) :
    s.manager.bridges b = ⟨(s.triggers x).key, .opened⟩ := by
  have hleased := leased_reach h
  have howned := BridgeManager.owned_reach (orderly_reach h)
  obtain ⟨hborn, hreturned⟩ := hleased.returned hb
  obtain ⟨-, -, hkind, hdescriptor⟩ := hleased.called x hborn
  have hcall := howned.inv.calls (s.triggers x).call
  have hentry := hcall.holds b hkind hreturned
  have hpc : (s.callOf x).pc ≠ .idle := by
    rw [hreturned]
    simp
  rw [(howned.inv.recorded _ b hentry).2, (hcall.entry hpc).2]
  exact congrArg (BridgeInfo.mk · .opened) (congrArg describeTransport hdescriptor)

/-- An endpoint has no other live bridge than the one of its nodes. -/
theorem shared_reach (h : machine.Reach Orderly s) {x b c : ℕ} {key : String}
    (hb : (s.triggers x).pc.bridge = some b) (hkey : (s.triggers x).key = key)
    (hlive : s.manager.Live c key) : c = b := by
  have hopened := opened_reach h hb
  refine BridgeManager.live_unique (BridgeManager.owned_reach (orderly_reach h)).inv hlive ⟨?_, ?_, ?_⟩
  · rw [hopened]
    exact hkey
  · rw [hopened]
    simp
  · rw [hopened]
    simp

theorem uncounted_reach (h : machine.Reach Orderly s) {key : String}
    (hnone : ∀ x, (s.triggers x).key = key → (s.triggers x).pc.bridge = none) (method : String) :
    s.manager.refsOf key method = 0 := by
  rw [(owned_reach (spared_reach h)).counted, Nat.count_iff_forall_not]
  intro x _ hrefers
  obtain ⟨hbridge, hkey, -⟩ := (refers_iff _ _ _).mp hrefers
  exact hbridge (hnone x hkey)

/-- No call for an endpoint holds a bridge once its nodes hold none. -/
theorem unheld_reach (h : machine.Reach Orderly s) {key : String}
    (hnone : ∀ x, (s.triggers x).key = key →
      (s.triggers x).pc.bridge = none ∧ (s.triggers x).pc ≠ .acquiring) {c d : ℕ}
    (hkind : (s.manager.calls c).kind = .acquire) (hkey : (s.manager.calls c).key = key) :
    (s.manager.calls c).pc ≠ .returned d := by
  intro hreturned
  have hleased := leased_reach h
  have hborn : c < s.manager.nextCall := by
    by_contra hle
    rw [(BridgeManager.owned_reach (orderly_reach h)).inv.idle c (Nat.le_of_not_lt hle)] at hreturned
    contradiction
  obtain ⟨y, hy, hyc⟩ := hleased.acquirer c hborn hkind
  obtain ⟨habsent, -, -, hdescriptor⟩ := hleased.called y hy
  have hfits := hleased.fits y hy
  unfold callOf at hdescriptor hfits
  rw [hyc] at hdescriptor hfits
  obtain ⟨hbridge, hacquiring⟩ := hnone y ((congrArg describeTransport hdescriptor).symm.trans hkey)
  rw [hreturned] at hfits
  cases hpc : (s.triggers y).pc with
  | absent => exact habsent hpc
  | acquiring => exact hacquiring hpc
  | registering e | active e | closing e =>
    rw [hpc] at hbridge
    contradiction
  | closed e =>
    rw [hpc] at hfits
    contradiction
  | failed =>
    rw [hpc] at hfits
    rcases hfits with hfailed | ⟨e, hreleased⟩
    · contradiction
    · contradiction

theorem tidy_reach (h : machine.Reach Orderly s) : s.Tidy := by
  have hleased := leased_reach h
  refine ⟨fun x b hb => opened_reach h hb, fun x b key c hb hkey hlive => shared_reach h hb hkey hlive,
    fun key hnone method => uncounted_reach h hnone method, ?_⟩
  intro key hnone hquiet x hx hkey b hreleased
  obtain ⟨-, -, hkind, hdescriptor⟩ := hleased.called x hx
  have hcallKey : (s.callOf x).key = key := (congrArg describeTransport hdescriptor).trans hkey
  refine BridgeManager.allClosed_of_owned (BridgeManager.owned_reach (orderly_reach h)) key ?_ hquiet
    (s.triggers x).call b hkind hcallKey hreleased
  exact fun c d hkind' hkey' => unheld_reach h hnone hkind' hkey'

/-- Two nodes share a bridge and are deactivated, the first one before the second is. -/
def handedBackRun : List Event :=
  [.trigger "set_valve" .request localRouter false, .manager (.built 0), .manager (.connected 0),
    .acquired 0, .registered 0, .trigger "button" .notify localRouter false, .acquired 1,
    .registered 1, .closeFunction 0, .closed 0, .closeFunction 1, .closed 1, .manager (.closeDone 0)]

def handedBackState : Triggers := machine.after Orderly initial handedBackRun

theorem handedBackRun_tidy : (handedBackState.callOf 0).pc = .released 0 ∧
    (handedBackState.callOf 1).pc = .released 0 ∧
    (handedBackState.manager.bridges 0).status = .closed ∧ handedBackState.Tidy :=
  ⟨by decide +kernel, by decide +kernel, by decide +kernel,
    tidy_reach ((Machine.Reach.init rfl).after handedBackRun)⟩

end Triggers

end UnoQ.Nodes
