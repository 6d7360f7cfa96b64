import Mathlib.Tactic.Linarith
import UnoQ.Lib.Counting
import UnoQ.Manager.Invariant

/-!
# The reference count

In an orderly run the count of a mapped entry is the number of `acquire` calls that
hold its bridge or are opening one. It is what lets the last release, and no other,
close the bridge.
-/

namespace UnoQ.Manager

def Pc.owning : Pc → Bool
  | .building => true
  | .connecting _ => true
  | .returned _ => true
  | _ => false

namespace BridgeManager
open Transport Counting

def owns (e : ℕ) (call : Call) : Bool :=
  decide (call.kind = .acquire) && decide (call.entry = e) && call.pc.owning

def owners (s : BridgeManager) (e : ℕ) : ℕ :=
  Nat.count (fun c => owns e (s.calls c) = true) s.nextCall

structure Owned (s : BridgeManager) : Prop where
  inv : s.Inv
  refs : ∀ e, s.Mapped e → (s.heap e).refCount = s.owners e
  released : ∀ c b e, (s.calls c).kind = .acquire → (s.calls c).pc = .released b →
    (s.heap e).bridge = some b → 0 < (s.heap e).refCount

theorem owned_initial : initial.Owned where
  inv := inv_initial
  refs := by simp [Mapped, initial]
  released := by simp [initial]

theorem owners_congr {s t : BridgeManager} {e : ℕ} (hn : t.nextCall = s.nextCall)
    (h : ∀ x, owns e (t.calls x) = owns e (s.calls x)) : t.owners e = s.owners e := by
  unfold owners
  simp only [hn, h]

theorem owners_change {s t : BridgeManager} {c e : ℕ} (hn : t.nextCall = s.nextCall)
    (hc : c < s.nextCall) (h : ∀ x, x ≠ c → t.calls x = s.calls x) :
    (t.owners e : ℤ) = s.owners e + (owns e (t.calls c)).toNat - (owns e (s.calls c)).toNat := by
  have hch := count_change (p := fun x => owns e (t.calls x)) (q := fun x => owns e (s.calls x)) hc
    fun x hx => by rw [h x hx]
  unfold owners
  rw [hn]
  omega

theorem Owned.quiet {s t : BridgeManager} (ho : s.Owned) (hi : t.Inv)
    (hn : t.nextCall = s.nextCall) (hmapped : ∀ e, t.Mapped e → s.Mapped e)
    (hrefs : ∀ e, (t.heap e).refCount = (s.heap e).refCount)
    (howns : ∀ e x, owns e (t.calls x) = owns e (s.calls x))
    (hreleased : ∀ c b e, (t.calls c).kind = .acquire → (t.calls c).pc = .released b →
      (t.heap e).bridge = some b →
      (s.calls c).kind = .acquire ∧ (s.calls c).pc = .released b ∧ (s.heap e).bridge = some b) :
    t.Owned where
  inv := hi
  refs e hm := by rw [hrefs, ho.refs e (hmapped e hm), owners_congr hn (howns e)]
  released c b e hk hpc hb := by
    obtain ⟨hk', hpc', hb'⟩ := hreleased c b e hk hpc hb
    rw [hrefs]
    exact ho.released c b e hk' hpc' hb'

theorem owners_fresh {s : BridgeManager} (hi : s.Inv) : s.owners s.nextEntry = 0 := by
  unfold owners
  rw [Nat.count_iff_forall_not]
  intro c _ h
  have hpc : (s.calls c).pc ≠ .idle := by
    intro hidle
    simp [owns, hidle, Pc.owning] at h
  have := ((hi.calls c).entry hpc).1
  simp only [owns, Bool.and_eq_true, decide_eq_true_eq] at h
  omega

theorem owned_allocEntry {s : BridgeManager} (ho : s.Owned) (d : TransportDescriptor)
    (hd : s.entries.get (describeTransport d) = none) : (s.allocEntry d).Owned where
  inv := inv_allocEntry ho.inv d hd
  refs e hm := by
    have hsame : (s.allocEntry d).owners e = s.owners e := owners_congr rfl fun _ => rfl
    rw [hsame]
    by_cases he : e = s.nextEntry
    · subst he
      rw [allocEntry_heap, if_pos rfl, owners_fresh ho.inv]
      rfl
    · have hm' : s.Mapped e := by
        rw [Mapped, allocEntry_entryKey s d he] at hm
        rcases InsertMap.get_set_eq_some hm with ⟨-, hnew⟩ | ⟨-, hold⟩
        · exact absurd hnew he
        · exact hold
      rw [allocEntry_heap, if_neg he, ho.refs e hm']
  released c b e hk hpc hb := by
    rw [allocEntry_heap] at hb ⊢
    split at hb
    · simp [BridgeEntry.new] at hb
    next he =>
      rw [if_neg he]
      exact ho.released c b e hk hpc hb

theorem owned_getEntry {s : BridgeManager} (ho : s.Owned) (d : TransportDescriptor) :
    (s.getEntry d).1.Owned := by
  unfold getEntry
  split
  · exact ho
  next hd => exact owned_allocEntry ho d hd

theorem owned_reserve {s : BridgeManager} (ho : s.Owned) :
    BridgeManager.Owned { s with nextCall := s.nextCall + 1 } where
  inv := inv_reserve ho.inv
  refs e hm := by
    have hidle := ho.inv.idle s.nextCall (Nat.le_refl _)
    have hlast : owns e (s.calls s.nextCall) = false := by simp [owns, hidle, Pc.owning]
    show _ = ((Nat.count (fun c => owns e (s.calls c) = true) (s.nextCall + 1) : ℕ) : ℤ)
    rw [Nat.count_succ, hlast]
    exact ho.refs e hm
  released := ho.released

theorem countOwner_refCount (s : BridgeManager) (call : Call) (n : ℤ) (x : ℕ) :
    ((s.countOwner call n).heap x).refCount =
      (s.heap x).refCount + if call.kind = .acquire ∧ call.entry = x then n else 0 := by
  unfold countOwner
  cases call.kind with
  | acquire =>
    by_cases hx : x = call.entry
    · simp [addRef, setEntry_heap, hx]
    · have : call.entry ≠ x := fun h => hx h.symm
      simp [addRef, setEntry_heap, hx, this]
  | getBridge => simp

theorem owned_proceed {s : BridgeManager} (ho : s.Owned) {c : ℕ} {call : Call}
    (hi : (s.proceed c call).Inv) (hc : c < s.nextCall) (hpc : (s.calls c).pc.owning = false) :
    (s.proceed c call).Owned := by
  obtain ⟨hentries, -, -, hcalls, -, hncalls⟩ := countOwner_rest s call 1
  have hheap : (s.proceed c call).heap = (s.countOwner call 1).heap := by
    unfold proceed takeBridge
    split <;> rfl
  have hbridge : ∀ x, ((s.proceed c call).heap x).bridge = (s.heap x).bridge := fun x => by
    rw [hheap]
    exact (countOwner_same s call 1 x).1
  have hmapped : ∀ e, (s.proceed c call).Mapped e → s.Mapped e := by
    intro e h
    have hent : (s.proceed c call).entries = s.entries := by
      unfold proceed takeBridge
      split <;> exact hentries
    have hkey : (s.proceed c call).entryKey e = s.entryKey e := by
      rw [entryKey, hheap]
      exact (countOwner_same s call 1 e).2.2.2
    rwa [Mapped, hent, hkey] at h
  have hn : (s.proceed c call).nextCall = s.nextCall := by
    unfold proceed takeBridge
    split <;> exact hncalls
  have hother : ∀ x, x ≠ c → (s.proceed c call).calls x = s.calls x := by
    intro x hx
    unfold proceed takeBridge
    split <;> rw [setCall_calls, if_neg hx, hcalls]
  have hself : ((s.proceed c call).calls c).kind = call.kind ∧
      ((s.proceed c call).calls c).entry = call.entry ∧
      ((s.proceed c call).calls c).pc.owning = true := by
    unfold proceed takeBridge
    split <;> rw [setCall_calls, if_pos rfl] <;> exact ⟨rfl, rfl, rfl⟩
  constructor
  · exact hi
  · intro e hm
    have hold : owns e (s.calls c) = false := by simp [owns, hpc]
    have hnew : owns e ((s.proceed c call).calls c) =
        (decide (call.kind = .acquire) && decide (call.entry = e)) := by
      simp [owns, hself]
    rw [hheap, countOwner_refCount, ho.refs e (hmapped e hm), owners_change hn hc hother, hold, hnew]
    by_cases hk : call.kind = .acquire <;> by_cases he : call.entry = e <;> simp [hk, he]
  · intro x b e hk hpcx hb
    rw [hbridge] at hb
    have hx : x ≠ c := by
      intro h
      rw [h] at hpcx
      simp [hpcx, Pc.owning] at hself
    rw [hother x hx] at hk hpcx
    have hpos := ho.released x b e hk hpcx hb
    rw [hheap, countOwner_refCount]
    split <;> omega

theorem owned_start {s : BridgeManager} (ho : s.Owned) (kind : Kind) (d : TransportDescriptor)
    (cred : Bool) (halone : ∀ key ∈ s.startsConnecting (.acquire d cred), ¬ s.connectingFor key) :
    (s.start kind d cred).Owned := by
  have hi := inv_start ho.inv kind d cred halone
  have ho' := owned_reserve (owned_getEntry ho d)
  have hidle : ((s.getEntry d).1.calls (s.getEntry d).1.nextCall).pc = .idle :=
    ho'.inv.idle _ (Nat.le_refl _) |> fun _ => (owned_getEntry ho d).inv.idle _ (Nat.le_refl _)
  unfold start at hi ⊢
  dsimp only at hi ⊢
  split at hi
  next p hp =>
    refine ho'.quiet hi rfl (fun _ h => h) (fun _ => rfl) ?_ ?_
    · intro e x
      rw [setCall_calls]
      split
      next hx =>
        subst hx
        simp [owns, hidle, Pc.owning]
      · rfl
    · intro x b e hk hpc hb
      rw [setCall_calls] at hk hpc
      split at hpc
      · simp at hpc
      next hx =>
        rw [if_neg hx] at hk
        exact ⟨hk, hpc, hb⟩
  next hp =>
    exact owned_proceed ho' hi (Nat.lt_succ_self _) (by simp [hidle, Pc.owning])

theorem owned_built {s : BridgeManager} (ho : s.Owned) {c : ℕ} (hpc : (s.calls c).pc = .building) :
    (s.built c).Owned := by
  have hcalls : ∀ x, (s.built c).calls x =
      if x = c then { s.calls c with pc := .connecting s.nextBridge } else s.calls x :=
    fun x => Function.update_apply s.calls c _ x
  refine ho.quiet (inv_built ho.inv hpc) rfl (fun _ h => h) (fun _ => rfl) ?_ ?_
  · intro e x
    rw [hcalls]
    split
    next hx =>
      subst hx
      simp [owns, hpc, Pc.owning]
    · rfl
  · intro x b e hk hpcx hb
    rw [hcalls] at hk hpcx
    split at hpcx
    · simp at hpcx
    next hx =>
      rw [if_neg hx] at hk
      exact ⟨hk, hpcx, hb⟩

theorem owned_connected {s : BridgeManager} (ho : s.Owned) {c b : ℕ}
    (hpc : (s.calls c).pc = .connecting b) (hsettled : s.settled (s.calls c).entry) :
    (s.connected c b).Owned := by
  have hcalls : ∀ x, (s.connected c b).calls x =
      if x = c then { s.calls c with pc := .returned b } else s.calls x :=
    fun x => Function.update_apply s.calls c _ x
  have hheap : ∀ x, (s.connected c b).heap x =
      if x = (s.calls c).entry then { s.heap (s.calls c).entry with bridge := some b }
      else s.heap x := fun x => Function.update_apply s.heap _ _ x
  refine ho.quiet (inv_connected ho.inv hpc hsettled) rfl ?_ ?_ ?_ ?_
  · intro e h
    have hkey : (s.connected c b).entryKey e = s.entryKey e := by
      rw [entryKey, hheap]
      split
      next he => rw [he, entryKey]
      · rfl
    rwa [Mapped, hkey] at h
  · intro e
    rw [hheap]
    split
    next he => rw [he]
    · rfl
  · intro e x
    rw [hcalls]
    split
    next hx =>
      subst hx
      simp [owns, hpc, Pc.owning]
    · rfl
  · intro x b' e hk hpcx hb
    rw [hcalls] at hk hpcx
    split at hpcx
    · simp at hpcx
    next hx =>
      rw [if_neg hx] at hk
      -- A bridge that is still connecting has never been handed out.
      have hne : b' ≠ b := by
        intro he
        have hgot := (ho.inv.calls x).got b' (Or.inr hpcx)
        have hconn := (ho.inv.calls c).connects b hpc
        simp [OpenedFor, he, hconn] at hgot
      rw [hheap] at hb
      split at hb
      · exact absurd (Option.some.inj hb).symm hne
      · exact ⟨hk, hpcx, hb⟩

theorem owned_dropFailed {s t : BridgeManager} (ho : s.Owned) {c : ℕ}
    (hi : ((t.countOwner (s.calls c) (-1)).dropFailed (s.calls c)).Inv)
    (hb : (s.calls c).pc.busy = true) (hentries : t.entries = s.entries) (hheap : t.heap = s.heap)
    (hn : t.nextCall = s.nextCall)
    (hcalls : ∀ x, t.calls x = if x = c then { s.calls c with pc := .failed } else s.calls x) :
    ((t.countOwner (s.calls c) (-1)).dropFailed (s.calls c)).Owned := by
  have hpc : (s.calls c).pc ≠ .idle := fun h => by simp [h, Pc.busy] at hb
  have hvacant := ((ho.inv.calls c).busy hb).2
  have howning : (s.calls c).pc.owning = true := by
    cases h : (s.calls c).pc <;> simp [h, Pc.busy, Pc.owning] at hb ⊢
  obtain ⟨hent', -, -, hcalls', -, hn'⟩ := countOwner_rest t (s.calls c) (-1)
  have hdrop : ∀ u : BridgeManager, (u.dropFailed (s.calls c)).heap = u.heap ∧
      (u.dropFailed (s.calls c)).calls = u.calls ∧
      (u.dropFailed (s.calls c)).nextCall = u.nextCall := by
    intro u
    unfold dropFailed
    dsimp only
    split <;> exact ⟨rfl, rfl, rfl⟩
  obtain ⟨hdheap, hdcalls, hdn⟩ := hdrop (t.countOwner (s.calls c) (-1))
  have hsame := countOwner_same t (s.calls c) (-1)
  have hmapped : ∀ e, ((t.countOwner (s.calls c) (-1)).dropFailed (s.calls c)).Mapped e →
      s.Mapped e := by
    intro e h
    have hkey : ((t.countOwner (s.calls c) (-1)).dropFailed (s.calls c)).entryKey e =
        s.entryKey e := by
      rw [entryKey, hdheap]
      exact (hsame e).2.2.2.trans (by rw [entryKey, entryKey, hheap])
    rw [Mapped, hkey] at h
    unfold dropFailed at h
    dsimp only at h
    split at h
    · have := (InsertMap.get_delete_eq_some h).2
      rwa [hent', hentries] at this
    · rwa [hent', hentries] at h
  constructor
  · exact hi
  · intro e hm
    have hold : owns e (s.calls c) =
        (decide ((s.calls c).kind = .acquire) && decide ((s.calls c).entry = e)) := by
      simp [owns, howning]
    have hother : ∀ x, x ≠ c →
        ((t.countOwner (s.calls c) (-1)).dropFailed (s.calls c)).calls x = s.calls x := by
      intro x hx
      rw [hdcalls, hcalls', hcalls, if_neg hx]
    have hnew : owns e
        (((t.countOwner (s.calls c) (-1)).dropFailed (s.calls c)).calls c) = false := by
      rw [hdcalls, hcalls', hcalls, if_pos rfl]
      simp [owns, Pc.owning]
    have hch := owners_change (e := e) (hdn.trans (hn'.trans hn))
      (busy_lt ho.inv hpc) hother
    rw [hdheap, countOwner_refCount, hheap, ho.refs e (hmapped e hm), hch, hold, hnew]
    by_cases hk : (s.calls c).kind = .acquire <;> by_cases he : (s.calls c).entry = e <;>
      simp [hk, he]
    omega
  · intro x b e hk hpcx hbr
    rw [hdcalls, hcalls', hcalls] at hk hpcx
    rw [hdheap, (hsame e).1, hheap] at hbr
    split at hpcx
    · simp at hpcx
    next hx =>
      rw [if_neg hx] at hk
      have hpos := ho.released x b e hk hpcx hbr
      have hne : (s.calls c).entry ≠ e := by
        intro he
        rw [← he, hvacant.1] at hbr
        simp at hbr
      rw [hdheap, countOwner_refCount, hheap]
      simpa [hne] using hpos

theorem owned_closeDone {s : BridgeManager} (ho : s.Owned) {b e : ℕ}
    (hb : (s.bridges b).status = .closing e) : (s.closeDone b e).Owned := by
  have hdrop : ∀ (u : BridgeManager) (key : String),
      (u.dropClosed key e).heap = u.heap ∧ (u.dropClosed key e).calls = u.calls ∧
      (u.dropClosed key e).nextCall = u.nextCall ∧
      ∀ k x, (u.dropClosed key e).entries.get k = some x → u.entries.get k = some x := by
    intro u key
    unfold dropClosed
    dsimp only
    split
    · exact ⟨rfl, rfl, rfl, fun k x h => (InsertMap.get_delete_eq_some h).2⟩
    · exact ⟨rfl, rfl, rfl, fun k x h => h⟩
  obtain ⟨hheap, hcalls, hn, hentries⟩ := hdrop (s.finishClose b e) (s.bridges b).key
  have hsame : ∀ x, ((s.finishClose b e).heap x).bridge = (s.heap x).bridge ∧
      ((s.finishClose b e).heap x).refCount = (s.heap x).refCount ∧
      (s.finishClose b e).entryKey x = s.entryKey x := by
    intro x
    by_cases hx : x = e <;> simp [finishClose, setEntry, setBridge, entryKey, hx]
  refine ho.quiet (inv_closeDone ho.inv hb) hn ?_ ?_ ?_ ?_
  · intro x h
    have hkey : (s.closeDone b e).entryKey x = s.entryKey x := by
      rw [entryKey, closeDone, hheap]
      exact (hsame x).2.2
    rw [Mapped, hkey] at h
    exact hentries _ _ h
  · intro x
    rw [closeDone, hheap]
    exact (hsame x).2.1
  · intro x y
    rw [closeDone, hcalls, finishClose_calls]
    split
    next hpc => simp [owns, hpc, Pc.owning]
    · rfl
  · intro x b' y hk hpc hbr
    rw [closeDone, hcalls, finishClose_calls] at hk hpc
    rw [closeDone, hheap, (hsame y).1] at hbr
    split at hpc
    · simp at hpc
    next hne =>
      rw [if_neg hne] at hk
      exact ⟨hk, hpc, hbr⟩

theorem owned_setEntry {s : BridgeManager} (ho : s.Owned) {e : ℕ} {entry : BridgeEntry}
    (hb : entry.bridge = (s.heap e).bridge) (hp : entry.pendingClose = (s.heap e).pendingClose)
    (hd : entry.descriptor = (s.heap e).descriptor) (hr : entry.refCount = (s.heap e).refCount) :
    (s.setEntry e entry).Owned := by
  refine ho.quiet (inv_setEntry ho.inv hb hp hd) rfl ?_ ?_ (fun _ _ => rfl) ?_
  · exact fun x h => (setEntry_mapped hd x).mp h
  · intro x
    rw [setEntry_heap]
    split
    next hx => rw [hx, hr]
    next => rfl
  · intro x b y hk hpc hbr
    refine ⟨hk, hpc, ?_⟩
    rw [setEntry_heap] at hbr
    split at hbr
    next hy => rw [hy, ← hb, hbr]
    next => exact hbr

/-- The manager once the holder `c` of bridge `b` has stopped counting as an owner. -/
def lowered (s : BridgeManager) (c b : ℕ) : BridgeManager :=
  (s.setPc c (.released b)).addRef (s.calls c).entry (-1)

theorem lowered_calls (s : BridgeManager) (c b x : ℕ) :
    (s.lowered c b).calls x = if x = c then { s.calls c with pc := .released b } else s.calls x :=
  setCall_calls s c x _

theorem lowered_heap (s : BridgeManager) (c b x : ℕ) :
    (s.lowered c b).heap x =
      if x = (s.calls c).entry then { s.heap x with refCount := (s.heap x).refCount - 1 }
      else s.heap x := by
  by_cases hx : x = (s.calls c).entry <;>
    simp [lowered, addRef, setEntry_heap, setPc, setCall, hx, Int.sub_eq_add_neg]

theorem lowered_mapped (s : BridgeManager) (c b x : ℕ) :
    (s.lowered c b).Mapped x ↔ s.Mapped x := by
  have hkey : (s.lowered c b).entryKey x = s.entryKey x := by
    rw [entryKey, lowered_heap]
    split <;> rfl
  have hent : (s.lowered c b).entries = s.entries := rfl
  rw [Mapped, Mapped, hkey, hent]

theorem lowered_owners {s : BridgeManager} (hi : s.Inv) {c b : ℕ}
    (hkind : (s.calls c).kind = .acquire) (hpc : (s.calls c).pc = .returned b) (x : ℕ) :
    ((s.lowered c b).owners x : ℤ) = s.owners x - if x = (s.calls c).entry then 1 else 0 := by
  have hcalls := lowered_calls s c b
  have h := owners_change (s := s) (t := s.lowered c b) (e := x) rfl
    (busy_lt hi (c := c) (by simp [hpc])) fun y hy => by rw [hcalls, if_neg hy]
  rw [h, hcalls, if_pos rfl]
  by_cases hx : x = (s.calls c).entry
  · simp [owns, hkind, hpc, Pc.owning, hx]
  · have : (s.calls c).entry ≠ x := fun he => hx he.symm
    simp [owns, Pc.owning, hx, this]

/-- The counts stay right, and every other bridge of a released call keeps its owners. -/
theorem lowered_spec {s : BridgeManager} (ho : s.Owned) {c b : ℕ}
    (hkind : (s.calls c).kind = .acquire) (hpc : (s.calls c).pc = .returned b) :
    (∀ x, (s.lowered c b).Mapped x →
      ((s.lowered c b).heap x).refCount = (s.lowered c b).owners x) ∧
    ∀ x b' e, e ≠ (s.calls c).entry → ((s.lowered c b).calls x).kind = .acquire →
      ((s.lowered c b).calls x).pc = .released b' → ((s.lowered c b).heap e).bridge = some b' →
      0 < ((s.lowered c b).heap e).refCount := by
  constructor
  · intro x hx
    rw [lowered_mapped] at hx
    rw [lowered_owners ho.inv hkind hpc, ← ho.refs x hx, lowered_heap]
    split
    · rfl
    · omega
  · intro x b' e hne hk hpcx hbe
    rw [lowered_heap, if_neg hne] at hbe ⊢
    rw [lowered_calls] at hk hpcx
    split at hpcx
    · cases hpcx
      exact absurd (recorded_unique ho.inv hbe ((ho.inv.calls c).holds b hkind hpc)) hne
    next hx =>
      rw [if_neg hx] at hk
      exact ho.released x b' e hk hpcx hbe

theorem not_owns_of_owners {s : BridgeManager} (hi : s.Inv) {e : ℕ} (hzero : s.owners e = 0)
    (x : ℕ) : owns e (s.calls x) = false := by
  cases hx : owns e (s.calls x) with
  | false => rfl
  | true =>
    have hlt : x < s.nextCall := busy_lt hi fun hidle => by
      simp [owns, hidle, Pc.owning] at hx
    have hnot := not_of_count_eq_zero (p := fun c => owns e (s.calls c)) hzero hlt
    exact hx.symm.trans hnot

theorem beginClose_heap (s : BridgeManager) {e b x : ℕ} (hx : x ≠ e) :
    (s.beginClose e b).heap x = s.heap x := by
  simp [beginClose, setEntry, setBridge, hx]

/-- The bridge of an entry that has no owner left begins to close. -/
theorem owned_beginClose {s : BridgeManager} (hi : s.Inv) {e b : ℕ}
    (hb : (s.heap e).bridge = some b) (hzero : s.owners e = 0)
    (hrefs : ∀ x, s.Mapped x → (s.heap x).refCount = s.owners x)
    (hrel : ∀ c b' x, x ≠ e → (s.calls c).kind = .acquire → (s.calls c).pc = .released b' →
      (s.heap x).bridge = some b' → 0 < (s.heap x).refCount) : (s.beginClose e b).Owned := by
  refine ⟨inv_beginClose hi hb ?_, ?_, ?_⟩
  · intro x hk he b' hpcx
    have := not_owns_of_owners hi hzero x
    simp [owns, hk, he, hpcx, Pc.owning] at this
  · intro x hx
    have hkey : (s.beginClose e b).entryKey x = s.entryKey x := by
      by_cases h : x = e <;> simp [beginClose, entryKey, setEntry, setBridge, h]
    have hsame : (s.beginClose e b).owners x = s.owners x := rfl
    rw [Mapped, hkey] at hx
    rw [hsame]
    by_cases h : x = e
    · subst h
      simp [beginClose, setEntry, setBridge, hzero]
    · rw [beginClose_heap s h]
      exact hrefs x hx
  · intro x b' y hk hpcx hby
    by_cases h : y = e
    · simp [beginClose, setEntry, setBridge, h] at hby
    · rw [beginClose_heap s h] at hby ⊢
      exact hrel x b' y h hk hpcx hby

theorem owned_release {s : BridgeManager} (ho : s.Owned) {d : TransportDescriptor} {c : ℕ}
    (hc : s.owes (describeTransport d) c) : (s.release d (some c)).Owned := by
  obtain ⟨hkind, hkey, hret⟩ := hc
  obtain ⟨b, hpc⟩ : ∃ b, (s.calls c).pc = .returned b := by
    cases h : (s.calls c).pc with
    | returned b => exact ⟨b, rfl⟩
    | _ => simp [h] at hret
  have hcall := ho.inv.calls c
  have hbr := hcall.holds b hkind hpc
  have hget : s.entries.get (describeTransport d) = some (s.calls c).entry := by
    rw [← hkey, ← (hcall.entry (by simp [hpc])).2]
    exact mapped_of_recorded ho.inv hbr
  have hgive : s.giveBack (some c) = s.setPc c (.released b) := by simp [giveBack, hpc]
  have hi₁ := inv_giveBack ho.inv (some c)
  rw [hgive] at hi₁
  have hi₂ : (s.lowered c b).Inv := inv_setEntry hi₁ rfl rfl rfl
  have hbr₂ : ((s.lowered c b).heap (s.calls c).entry).bridge = some b := by
    rw [lowered_heap, if_pos rfl]
    exact hbr
  obtain ⟨hrefs, hrel⟩ := lowered_spec ho hkind hpc
  have hfold : (s.setPc c (.released b)).addRef (s.calls c).entry (-1) = s.lowered c b := rfl
  unfold release
  rw [hget]
  dsimp only
  rw [hgive]
  unfold releaseRef
  dsimp only
  rw [hfold, hbr₂]
  dsimp only
  split
  next hle =>
    have hcount := hrefs _ (mapped_of_recorded hi₂ hbr₂)
    exact owned_beginClose hi₂ hbr₂ (by omega) hrefs hrel
  next hpos =>
    refine ⟨hi₂, hrefs, ?_⟩
    intro x b' e hk hpcx hbe
    by_cases h : e = (s.calls c).entry
    · subst h
      omega
    · exact hrel x b' e h hk hpcx hbe

/-! ### Runs -/

theorem owned_step {s t : BridgeManager} {ev : Event} (ho : s.Owned) (hs : s.step ev = some t)
    (hok : Orderly s ev t) : t.Owned := by
  obtain ⟨halone, hfinds, hmatched⟩ := hok
  cases step_takes hs with
  | acquire d cred => exact owned_start ho .acquire d cred halone
  | getBridge d cred => exact owned_start ho .getBridge d cred halone
  | release d holder =>
    obtain ⟨c, rfl, hc⟩ := hmatched
    exact owned_release ho hc
  | addMethodRef d m => exact owned_setEntry (owned_getEntry ho d) rfl rfl rfl rfl
  | removeMethodRef d m =>
    unfold removeMethodRef
    dsimp only
    split <;> exact owned_setEntry (owned_getEntry ho d) rfl rfl rfl rfl
  | resume c hpc =>
    have hcall := ho.inv.calls c
    obtain ⟨hlt, hkey⟩ := hcall.entry (by simp [hpc])
    have hc := busy_lt ho.inv (c := c) (by simp [hpc])
    have hm : s.Mapped (s.calls c).entry := by
      rw [Mapped, hkey]
      exact hfinds
    refine owned_proceed ho ?_ hc (by simp [hpc, Pc.owning])
    refine inv_proceed ho.inv hc hlt hkey hm (hcall.due hpc).2 ?_ (by simp [hpc])
    intro hb
    exact halone _ (by simp [startsConnecting, hb])
  | built c h => exact owned_built ho h.1
  | buildFailed c hpc =>
    exact owned_dropFailed ho (inv_buildFailed ho.inv hpc) (by simp [hpc, Pc.busy]) rfl rfl rfl
      (fun x => setCall_calls s c x _)
  | connected c _ hpc hsettled => exact owned_connected ho hpc hsettled
  | connectFailed c _ hpc =>
    exact owned_dropFailed ho (inv_connectFailed ho.inv hpc) (by simp [hpc, Pc.busy]) rfl rfl rfl
      (fun x => setCall_calls s c x _)
  | closeDone b _ hb => exact owned_closeDone ho hb

theorem owned_reach {s : BridgeManager} (h : machine.Reach Orderly s) : s.Owned :=
  h.invariant (fun _ hinit => hinit ▸ owned_initial) fun _ _ _ _ ho hs hok => owned_step ho hs hok

end BridgeManager

end UnoQ.Manager
