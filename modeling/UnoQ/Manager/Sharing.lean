import UnoQ.Manager.Ownership

/-!
# Sharing one bridge per endpoint

What the manager is for: callers of one key share one bridge, and the last release
closes it. Both hold in orderly runs. Two acquires that connect at the same time, or
one that resumes on an entry the close handler has dropped, break them.
-/

namespace UnoQ.Manager.BridgeManager
open Transport Transition

/-- The bridge is open (perhaps closing) or connecting. -/
def Live (s : BridgeManager) (b : ℕ) (key : String) : Prop :=
  (s.bridges b).key = key ∧ (s.bridges b).status ≠ .absent ∧ (s.bridges b).status ≠ .closed

/-- The call has been given the bridge and still uses it: until its release, or for `getBridge`,
which owns nothing, until the bridge is closed. -/
def Holds (s : BridgeManager) (c b : ℕ) (key : String) : Prop :=
  (s.calls c).key = key ∧ (s.calls c).pc = .returned b ∧
    ((s.calls c).kind = .acquire ∨ (s.bridges b).status ≠ .closed)

structure OneBridge (s : BridgeManager) : Prop where
  live : ∀ key b b', s.Live b key → s.Live b' key → b = b'
  held : ∀ key c c' b b', s.Holds c b key → s.Holds c' b' key → b = b'

/-- A bridge from `acquire` that was not given back is the one recorded under its key. -/
def HeldRecorded (s : BridgeManager) : Prop :=
  ∀ c b, (s.calls c).kind = .acquire → (s.calls c).pc = .returned b →
    ∃ e, s.entries.get (s.calls c).key = some e ∧ (s.heap e).bridge = some b

/-- With every acquired bridge of a key given back and no close of the key under way, all those
bridges are closed. -/
def AllClosed (s : BridgeManager) : Prop :=
  ∀ key, (∀ c b, (s.calls c).kind = .acquire → (s.calls c).key = key →
      (s.calls c).pc ≠ .returned b) →
    (∀ b e, (s.bridges b).key = key → (s.bridges b).status ≠ .closing e) →
    ∀ c b, (s.calls c).kind = .acquire → (s.calls c).key = key → (s.calls c).pc = .released b →
      (s.bridges b).status = .closed

def Accounted (s : BridgeManager) : Prop := s.HeldRecorded ∧ s.AllClosed

/-- Where a live bridge is found: at the entry mapped under its key, or with a call that connects
for the key while the entry has none. -/
theorem live_spec {s : BridgeManager} (hi : s.Inv) {b : ℕ} {key : String} (h : s.Live b key) :
    (∃ e, s.Mapped e ∧ s.entryKey e = key ∧
      ((s.heap e).bridge = some b ∨ (s.heap e).pendingClose = some b)) ∨
    ∃ c, (s.calls c).pc = .connecting b ∧ (s.calls c).key = key ∧ s.Mapped (s.calls c).entry ∧
      s.entryKey (s.calls c).entry = key ∧ s.Vacant (s.calls c).entry := by
  obtain ⟨hkey, habsent, hclosed⟩ := h
  cases hst : (s.bridges b).status with
  | absent => exact absurd hst habsent
  | closed => exact absurd hst hclosed
  | connecting =>
    obtain ⟨c, hpc⟩ := hi.opener b hst
    have hcall := hi.calls c
    obtain ⟨hm, hv⟩ := hcall.busy (by simp [hpc, Pc.busy])
    have hk : (s.calls c).key = key := by
      rw [← hkey, hcall.connects b hpc]
    exact Or.inr ⟨c, hpc, hk, hm, (hcall.entry (by simp [hpc])).2.trans hk, hv⟩
  | opened =>
    obtain ⟨e, he⟩ := hi.opened b hst
    refine Or.inl ⟨e, mapped_of_recorded hi he, ?_, Or.inl he⟩
    rw [← hkey, (hi.recorded e b he).2]
  | closing e =>
    have he := hi.closed b e hst
    refine Or.inl ⟨e, mapped_of_pendingClose hi he, ?_, Or.inr he⟩
    rw [← hkey, hi.closing e b he]

theorem live_unique {s : BridgeManager} (hi : s.Inv) {b b' : ℕ} {key : String}
    (h : s.Live b key) (h' : s.Live b' key) : b = b' := by
  rcases live_spec hi h with ⟨e, hm, hk, hb⟩ | ⟨c, hpc, hkc, hm, hk, hv⟩
  · rcases live_spec hi h' with ⟨e', hm', hk', hb'⟩ | ⟨c', hpc', hkc', hm', hk', hv'⟩
    · obtain rfl := mapped_unique hm hm' (hk.trans hk'.symm)
      have hrec := hi.recorded e
      rcases hb with hb | hb <;> rcases hb' with hb' | hb'
      · exact Option.some.inj (hb.symm.trans hb')
      · rw [(hrec b hb).1] at hb'
        contradiction
      · rw [(hrec b' hb').1] at hb
        contradiction
      · exact Option.some.inj (hb.symm.trans hb')
    · obtain rfl := mapped_unique hm hm' (hk.trans hk'.symm)
      rcases hb with hb | hb <;> simp [hv'.1, hv'.2] at hb
  · rcases live_spec hi h' with ⟨e', hm', hk', hb'⟩ | ⟨c', hpc', hkc', hm', hk', hv'⟩
    · obtain rfl := mapped_unique hm hm' (hk.trans hk'.symm)
      rcases hb' with hb' | hb' <;> simp [hv.1, hv.2] at hb'
    · obtain rfl := hi.alone c c' (by simp [hpc, Pc.busy]) (by simp [hpc', Pc.busy])
        (hkc.trans hkc'.symm)
      rw [hpc] at hpc'
      exact Pc.connecting.inj hpc'

theorem live_of_holds {s : BridgeManager} (hi : s.Inv) {c b : ℕ} {key : String}
    (h : s.Holds c b key) : s.Live b key := by
  obtain ⟨hkey, hpc, hkind⟩ := h
  have hcall := hi.calls c
  obtain ⟨hk, habsent, -⟩ := hcall.got b (Or.inl hpc)
  refine ⟨hk.trans hkey, habsent, ?_⟩
  rcases hkind with hkind | hclosed
  · rw [(hi.recorded _ b (hcall.holds b hkind hpc)).2]
    simp
  · exact hclosed

/-- In every orderly run, at every moment, a key has at most one bridge that is open or connecting,
and everyone who holds a bridge for the key holds the same one. -/
theorem oneBridge_of_orderly (s : BridgeManager) (h : machine.Reach Orderly s) : s.OneBridge where
  live _ _ _ hb hb' := live_unique (owned_reach h).inv hb hb'
  held _ _ _ _ _ hc hc' :=
    live_unique (owned_reach h).inv (live_of_holds (owned_reach h).inv hc)
      (live_of_holds (owned_reach h).inv hc')

def router : TransportDescriptor := .unix "/var/run/arduino-router.sock"

def sharedRun : List Event :=
  [.acquire router false, .built 0, .connected 0, .acquire router false]

theorem sharedRun_oneBridge :
    (machine.checked Orderly initial sharedRun).isSome = true ∧
      (machine.after Orderly initial sharedRun).OneBridge :=
  ⟨by decide, oneBridge_of_orderly _ ((Machine.Reach.init rfl).after sharedRun)⟩

/-- Two triggers acquire before either has connected: both open a socket. -/
def concurrentRun : List Event :=
  [.acquire router false, .acquire router false, .built 0, .built 1, .connected 0, .connected 1]

theorem concurrentRun_twoBridges :
    ¬ ∀ s : BridgeManager, machine.Reach Matched s → s.OneBridge := by
  intro hall
  have h := hall _ ((Machine.Reach.init rfl : machine.Reach Matched initial).after concurrentRun)
  have hne := h.live (describeTransport router) 0 1 ⟨by decide, by decide, by decide⟩
    ⟨by decide, by decide, by decide⟩
  exact absurd hne (by decide)

theorem heldRecorded_of_owned {s : BridgeManager} (ho : s.Owned) : s.HeldRecorded := by
  intro c b hkind hpc
  have hcall := ho.inv.calls c
  have hb := hcall.holds b hkind hpc
  have hm := mapped_of_recorded ho.inv hb
  rw [Mapped, (hcall.entry (by simp [hpc])).2] at hm
  exact ⟨_, hm, hb⟩

theorem allClosed_of_owned {s : BridgeManager} (ho : s.Owned) : s.AllClosed := by
  intro key hnone hquiet c b hkind hkey hpc
  obtain ⟨hk, habsent, hconn⟩ := (ho.inv.calls c).got b (Or.inr hpc)
  cases hst : (s.bridges b).status with
  | absent => exact absurd hst habsent
  | connecting => exact absurd hst hconn
  | closed => rfl
  | closing e => exact absurd hst (hquiet b e (hk.trans hkey))
  | opened =>
    -- An open bridge that was once acquired still has an owner, and that owner has not released.
    obtain ⟨e, he⟩ := ho.inv.opened b hst
    have hm := mapped_of_recorded ho.inv he
    have hpos := ho.released c b e hkind hpc he
    rw [ho.refs e hm] at hpos
    have hex : ∃ x, owns e (s.calls x) = true := by
      by_contra hno
      have hzero : s.owners e = 0 := by
        unfold owners
        rw [Nat.count_iff_forall_not]
        intro x _ hx
        exact hno ⟨x, hx⟩
      omega
    obtain ⟨x, hx⟩ := hex
    simp only [owns, Bool.and_eq_true, decide_eq_true_eq] at hx
    obtain ⟨⟨hkx, hex⟩, howning⟩ := hx
    have hcx := ho.inv.calls x
    have hpcx : (s.calls x).pc ≠ .idle := fun h => by simp [h, Pc.owning] at howning
    have hkeyx : (s.calls x).key = key := by
      rw [← (hcx.entry hpcx).2, hex, ← hkey, ← hk, (ho.inv.recorded e b he).2]
    cases hp : (s.calls x).pc with
    | returned b' => exact absurd hp (hnone x b' hkx hkeyx)
    | building =>
      have := (hcx.busy (by simp [hp, Pc.busy])).2.1
      simp [hex, he] at this
    | connecting b' =>
      have := (hcx.busy (by simp [hp, Pc.busy])).2.1
      simp [hex, he] at this
    | _ => simp [hp, Pc.owning] at howning

/-- In every orderly run an acquired bridge stays recorded until it is given back, and none is left
open once all are given back and all closes are done. -/
theorem accounted_of_orderly (s : BridgeManager) (h : machine.Reach Orderly s) : s.Accounted :=
  ⟨heldRecorded_of_owned (owned_reach h), allClosed_of_owned (owned_reach h)⟩

/-- A trigger reconnects while the bridge it released is still closing; a method reference of
another node keeps the entry. -/
def keptRun : List Event :=
  [.acquire router false, .addMethodRef router "echo", .built 0, .connected 0,
    .release router (some 0), .acquire router false, .closeDone 0, .resume 1, .built 1,
    .connected 1, .release router (some 1), .closeDone 1]

theorem keptRun_accounted :
    (machine.checked Orderly initial keptRun).isSome = true ∧
      (machine.after Orderly initial keptRun).Accounted :=
  ⟨by decide, accounted_of_orderly _ ((Machine.Reach.init rfl).after keptRun)⟩

/-- Without that reference the close handler drops the entry on which the waiting call resumes. -/
def droppedRun : List Event :=
  [.acquire router false, .built 0, .connected 0, .release router (some 0), .acquire router false,
    .closeDone 0, .resume 1, .built 1, .connected 1]

def orphaned : BridgeManager := machine.after Matched initial droppedRun

def stranded : BridgeManager := machine.after Matched orphaned [.release router (some 1)]

theorem orphaned_reach : machine.Reach Matched orphaned := (Machine.Reach.init rfl).after droppedRun

theorem stranded_calls (c : ℕ) : (stranded.calls c).pc =
    if c = 0 then .released 0 else if c = 1 then .released 1 else .idle :=
  match c with
  | 0 => rfl
  | 1 => rfl
  | _ + 2 => rfl

theorem stranded_bridges (b : ℕ) : (stranded.bridges b).status =
    if b = 0 then .closed else if b = 1 then .opened else .absent :=
  match b with
  | 0 => rfl
  | 1 => rfl
  | _ + 2 => rfl

theorem droppedRun_orphan :
    (¬ ∀ s : BridgeManager, machine.Reach Matched s → s.HeldRecorded) ∧
      ¬ ∀ s : BridgeManager, machine.Reach Matched s → s.AllClosed := by
  constructor
  · intro hall
    obtain ⟨e, he, -⟩ := hall orphaned orphaned_reach 1 1 (by decide) (by decide)
    have hnone : orphaned.entries.get (orphaned.calls 1).key = none := by decide
    rw [hnone] at he
    contradiction
  · intro hall
    have hclosed := hall stranded (orphaned_reach.after _) (describeTransport router) ?_ ?_ 1 1
      (by decide) (by decide) (by decide)
    · exact absurd hclosed (by decide)
    · intro c b _ _ hpc
      rw [stranded_calls] at hpc
      split at hpc
      · contradiction
      · split at hpc <;> contradiction
    · intro b e _ hst
      rw [stranded_bridges] at hst
      split at hst
      · contradiction
      · split at hst <;> contradiction

end UnoQ.Manager.BridgeManager
