import UnoQ.Manager.Keys
import UnoQ.Transport.Routes

/-!
# A bridge for one endpoint

The manager together with the descriptor that each bridge was opened for. Whatever calls overlap, a
caller gets a bridge that was opened for the endpoint of its own descriptor.
-/

namespace UnoQ.Manager
open Transport Transition

/-! ### The descriptor of each bridge -/

/-- The manager, and the descriptor that `Bridge.connect` was called with for each bridge. -/
structure Endpoints where
  manager : BridgeManager
  openedFor : ℕ → TransportDescriptor

namespace Endpoints
open BridgeManager

def initial : Endpoints := ⟨BridgeManager.initial, fun _ => .unix ""⟩

/-- A call that has its transport calls `Bridge.connect` with its own descriptor. -/
def opens (s : Endpoints) : Event → ℕ → TransportDescriptor
  | .built c => Function.update s.openedFor s.manager.nextBridge (s.manager.calls c).descriptor
  | _ => s.openedFor

def step (s : Endpoints) (ev : Event) : Option Endpoints :=
  (s.manager.step ev).map fun manager => ⟨manager, s.opens ev⟩

def machine : Machine Endpoints Event where
  init s := s = initial
  step := step

/-- A call comes with a descriptor whose listen address, if it has one, can be bound to. -/
def ForBindable : Guard Endpoints Event := fun _ ev _ =>
  match ev with
  | .acquire d _ => d.Bindable
  | .getBridge d _ => d.Bindable
  | _ => True

instance : ∀ s ev t, Decidable (ForBindable s ev t) := by
  rintro s (_ | _) t <;> dsimp only [ForBindable] <;> infer_instance

structure Inv (s : Endpoints) : Prop where
  keyed : s.manager.Keyed
  bindable : ∀ c, (s.manager.calls c).pc ≠ .idle → (s.manager.calls c).descriptor.Bindable
  opened : ∀ b < s.manager.nextBridge, (s.openedFor b).Bindable ∧
    describeTransport (s.openedFor b) = (s.manager.bridges b).key

theorem inv_initial : initial.Inv where
  keyed := keyed_initial
  bindable := by simp [initial, BridgeManager.initial]
  opened := by simp [initial, BridgeManager.initial]

theorem inv_steady {s : Endpoints} (h : s.Inv) {manager : BridgeManager} (hk : manager.Keyed)
    (hs : s.manager.Steady manager) : Inv ⟨manager, s.openedFor⟩ where
  keyed := hk
  bindable c hc := by
    change (manager.calls c).descriptor.Bindable
    rw [hs.descriptor c]
    exact h.bindable c (hs.begun c hc)
  opened b hb := by
    have hlt : b < s.manager.nextBridge := hs.next.1 ▸ hb
    obtain ⟨hbind, hkey⟩ := h.opened b hlt
    exact ⟨hbind, hkey.trans (hs.key b).symm⟩

theorem inv_start {s : Endpoints} (h : s.Inv) (kind : Kind) {d : TransportDescriptor} (cred : Bool)
    (hd : d.Bindable) : Inv ⟨s.manager.start kind d cred, s.openedFor⟩ := by
  obtain ⟨hbridges, hnext, -, hnew, hold⟩ := start_bridges s.manager kind d cred
  refine ⟨keyed_start h.keyed kind d cred, fun c hc => ?_, fun b hb => ?_⟩
  · change ((s.manager.start kind d cred).calls c).pc ≠ .idle at hc
    change ((s.manager.start kind d cred).calls c).descriptor.Bindable
    by_cases hcn : c = s.manager.nextCall
    · rw [hcn, hnew]
      exact hd
    · rw [hold c hcn] at hc ⊢
      exact h.bindable c hc
  · change b < (s.manager.start kind d cred).nextBridge at hb
    change _ ∧ _ = ((s.manager.start kind d cred).bridges b).key
    rw [hnext] at hb
    rw [hbridges]
    exact h.opened b hb

theorem inv_built {s : Endpoints} (h : s.Inv) {c : ℕ} (hc : (s.manager.calls c).pc = .building) :
    Inv ⟨s.manager.built c, s.opens (.built c)⟩ := by
  have hidle : (s.manager.calls c).pc ≠ .idle := by simp [hc]
  obtain ⟨⟨hnext, -⟩, hkey, hd, hbegun⟩ := built_bridges s.manager hidle
  have hopens : ∀ b, s.opens (.built c) b =
      if b = s.manager.nextBridge then (s.manager.calls c).descriptor else s.openedFor b :=
    Function.update_apply _ _ _
  refine ⟨keyed_built h.keyed hc, fun x hx => ?_, fun b hb => ?_⟩
  · change ((s.manager.built c).calls x).descriptor.Bindable
    rw [hd]
    exact h.bindable x (hbegun x hx)
  · change b < (s.manager.built c).nextBridge at hb
    change (s.opens (.built c) b).Bindable ∧
      describeTransport (s.opens (.built c) b) = ((s.manager.built c).bridges b).key
    rw [hopens, hkey]
    split
    · exact ⟨h.bindable c hidle, rfl⟩
    · exact h.opened b (by omega)

theorem inv_step {s t : Endpoints} {ev : Event} (h : s.Inv) (hs : s.step ev = some t)
    (hok : ForBindable s ev t) : t.Inv := by
  unfold step at hs
  obtain ⟨manager, hm, rfl⟩ := Option.map_eq_some_iff.mp hs
  have hk := keyed_step h.keyed hm
  cases ev with
  | acquire d cred =>
    cases hm
    exact inv_start h .acquire cred hok
  | getBridge d cred =>
    cases hm
    exact inv_start h .getBridge cred hok
  | built c =>
    simp only [BridgeManager.step] at hm
    split at hm
    next hc =>
      cases hm
      exact inv_built h hc.1
    · contradiction
  | _ => exact inv_steady h hk (steady_step h.keyed hm rfl)

theorem inv_reach {s : Endpoints} (h : machine.Reach ForBindable s) : s.Inv :=
  h.invariant (fun _ hinit => hinit ▸ inv_initial) fun _ _ _ _ hi hs hok => inv_step hi hs hok

/-- No two endpoints share a key, and a call that has returned has a bridge of its own endpoint. -/
theorem routed_reach {s : Endpoints} (h : machine.Reach ForBindable s) :
    (∀ d d' : TransportDescriptor, d.Bindable → d'.Bindable →
      describeTransport d = describeTransport d' → d.route = d'.route) ∧
    ∀ c b, (s.manager.calls c).pc = .returned b →
      (s.openedFor b).route = (s.manager.calls c).descriptor.route := by
  have hi := inv_reach h
  refine ⟨fun d d' => route_inj, fun c b hc => ?_⟩
  obtain ⟨hborn, hkey⟩ := hi.keyed.got c b (by rw [hc]; rfl)
  obtain ⟨hbind, hopened⟩ := hi.opened b hborn
  exact route_inj hbind (hi.bindable c (by simp [hc])) (hopened.trans hkey)

/-- Two boards behind one listener, the second with a nickname that reads like an address. -/
def boardsRun : List Event :=
  [.acquire (.ssh "0.0.0.0" 2222 "q1") true, .built 0, .connected 0,
    .getBridge (.ssh "0.0.0.0" 2222 "q1:2222/q1") true, .built 1, .connected 1,
    .getBridge (.ssh "0.0.0.0" 2222 "q1") true]

def boardsState : Endpoints := machine.after ForBindable initial boardsRun

theorem boardsRun_routed :
    (boardsState.openedFor 0).route = .ssh "0.0.0.0" 2222 "q1" ∧
      (boardsState.openedFor 1).route = .ssh "0.0.0.0" 2222 "q1:2222/q1" ∧
      (Route.ssh "0.0.0.0" 2222 "q1" ≠ .ssh "0.0.0.0" 2222 "q1:2222/q1") := by
  have hrouted := routed_reach (s := boardsState) ((Machine.Reach.init rfl).after boardsRun)
  refine ⟨?_, ?_, by decide⟩
  · exact (hrouted.2 2 0 (by decide +kernel)).trans (by decide +kernel)
  · exact (hrouted.2 1 1 (by decide +kernel)).trans (by decide +kernel)

end Endpoints

end UnoQ.Manager
