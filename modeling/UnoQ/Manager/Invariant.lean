import UnoQ.Manager.BridgeManager

/-!
# What orderly runs keep

In an orderly run every live bridge of a key is reached through the entry mapped
under the key: it is recorded there, is being closed for it, or is being opened by
the one call that connects for it.
-/

namespace UnoQ.Manager.BridgeManager
open Transport

def entryKey (s : BridgeManager) (e : ℕ) : String := describeTransport (s.heap e).descriptor

def Mapped (s : BridgeManager) (e : ℕ) : Prop := s.entries.get (s.entryKey e) = some e

def Vacant (s : BridgeManager) (e : ℕ) : Prop :=
  (s.heap e).bridge = none ∧ (s.heap e).pendingClose = none

/-- The bridge was opened for the key, whatever became of it since. -/
def OpenedFor (s : BridgeManager) (b : ℕ) (key : String) : Prop :=
  (s.bridges b).key = key ∧ (s.bridges b).status ≠ .absent ∧ (s.bridges b).status ≠ .connecting

/-- What holds of a call at each place it can stand. -/
structure CallOk (s : BridgeManager) (call : Call) : Prop where
  entry : call.pc ≠ .idle → call.entry < s.nextEntry ∧ s.entryKey call.entry = call.key
  waits : ∀ b, call.pc = .awaitingClose b → (s.heap call.entry).pendingClose = some b
  due : call.pc = .resuming → s.Vacant call.entry
  busy : call.pc.busy = true → s.Mapped call.entry ∧ s.Vacant call.entry
  connects : ∀ b, call.pc = .connecting b → s.bridges b = ⟨call.key, .connecting⟩
  got : ∀ b, call.pc = .returned b ∨ call.pc = .released b → s.OpenedFor b call.key
  holds : ∀ b, call.kind = .acquire → call.pc = .returned b → (s.heap call.entry).bridge = some b

structure Inv (s : BridgeManager) : Prop where
  mapped : ∀ key e, s.entries.get key = some e → e < s.nextEntry ∧ s.entryKey e = key
  unmapped : ∀ e, ¬ s.Mapped e → s.Vacant e
  recorded : ∀ e b, (s.heap e).bridge = some b →
    (s.heap e).pendingClose = none ∧ s.bridges b = ⟨s.entryKey e, .opened⟩
  closing : ∀ e b, (s.heap e).pendingClose = some b → s.bridges b = ⟨s.entryKey e, .closing e⟩
  opener : ∀ b, (s.bridges b).status = .connecting → ∃ c, (s.calls c).pc = .connecting b
  opened : ∀ b, (s.bridges b).status = .opened → ∃ e, (s.heap e).bridge = some b
  closed : ∀ b e, (s.bridges b).status = .closing e → (s.heap e).pendingClose = some b
  unborn : ∀ b, s.nextBridge ≤ b → (s.bridges b).status = .absent
  idle : ∀ c, s.nextCall ≤ c → (s.calls c).pc = .idle
  calls : ∀ c, s.CallOk (s.calls c)
  alone : ∀ c c', (s.calls c).pc.busy = true → (s.calls c').pc.busy = true →
    (s.calls c).key = (s.calls c').key → c = c'

theorem inv_initial : initial.Inv where
  mapped := by simp [initial]
  unmapped := by simp [initial, Vacant, BridgeEntry.new]
  recorded := by simp [initial, BridgeEntry.new]
  closing := by simp [initial, BridgeEntry.new]
  opener := by simp [initial]
  opened := by simp [initial]
  closed := by simp [initial]
  unborn := by simp [initial]
  idle := by simp [initial]
  calls := fun c => by constructor <;> simp [initial, Pc.busy]
  alone := by simp [initial, Pc.busy]

theorem CallOk.frame {s t : BridgeManager} {call : Call} (h : s.CallOk call)
    (hnext : s.nextEntry ≤ t.nextEntry)
    (hkey : call.entry < s.nextEntry → t.entryKey call.entry = s.entryKey call.entry)
    (hwait : ∀ b, call.pc = .awaitingClose b → (s.heap call.entry).pendingClose = some b →
      (t.heap call.entry).pendingClose = some b)
    (hvacant : call.pc = .resuming ∨ call.pc.busy = true → s.Vacant call.entry →
      t.Vacant call.entry)
    (hmapped : call.pc.busy = true → s.Mapped call.entry → t.Mapped call.entry)
    (hconn : ∀ b, call.pc = .connecting b → t.bridges b = s.bridges b)
    (hopen : ∀ b, s.OpenedFor b call.key → t.OpenedFor b call.key)
    (hheld : ∀ b, call.pc = .returned b → (s.heap call.entry).bridge = some b →
      call.kind = .acquire → (t.heap call.entry).bridge = some b) : t.CallOk call where
  entry hpc := by
    obtain ⟨hlt, hk⟩ := h.entry hpc
    exact ⟨Nat.lt_of_lt_of_le hlt hnext, (hkey hlt).trans hk⟩
  waits b hpc := hwait b hpc (h.waits b hpc)
  due hpc := hvacant (Or.inl hpc) (h.due hpc)
  busy hpc := ⟨hmapped hpc (h.busy hpc).1, hvacant (Or.inr hpc) (h.busy hpc).2⟩
  connects b hpc := (hconn b hpc).trans (h.connects b hpc)
  got b hpc := hopen b (h.got b hpc)
  holds b hkind hpc := hheld b hpc (h.holds b hkind hpc) hkind

/-! ### What the pieces of a step keep -/

/-- The entries change, but neither what they hold nor what they are mapped under. -/
structure Refiled (s t : BridgeManager) : Prop where
  bridges : t.bridges = s.bridges ∧ t.nextBridge = s.nextBridge
  calls : t.calls = s.calls ∧ t.nextCall = s.nextCall
  next : s.nextEntry ≤ t.nextEntry
  bridge : ∀ x, (t.heap x).bridge = (s.heap x).bridge
  pendingClose : ∀ x, (t.heap x).pendingClose = (s.heap x).pendingClose
  key : ∀ x, x < s.nextEntry → t.entryKey x = s.entryKey x
  mapped : ∀ x, s.Mapped x → t.Mapped x
  entries : ∀ key x, t.entries.get key = some x → x < t.nextEntry ∧ t.entryKey x = key

theorem Refiled.vacant {s t : BridgeManager} (h : s.Refiled t) (x : ℕ) : t.Vacant x ↔ s.Vacant x := by
  unfold Vacant
  rw [h.bridge, h.pendingClose]

theorem inv_refiled {s t : BridgeManager} (hi : s.Inv) (h : s.Refiled t) : t.Inv := by
  obtain ⟨hb, hnb⟩ := h.bridges
  obtain ⟨hc, hnc⟩ := h.calls
  -- An entry with a bridge is mapped, so its key stays.
  have hkey : ∀ x, ¬ s.Vacant x → t.entryKey x = s.entryKey x := by
    intro x hv
    by_cases hm : s.Mapped x
    · exact h.key x (hi.mapped _ x hm).1
    · exact absurd (hi.unmapped x hm) hv
  constructor
  · exact h.entries
  · intro x hm
    exact (h.vacant x).mpr (hi.unmapped x (fun hs => hm (h.mapped x hs)))
  · intro x b hx
    rw [h.bridge] at hx
    have hv : ¬ s.Vacant x := fun hv => by simp [hv.1] at hx
    rw [h.pendingClose, hkey x hv, hb]
    exact hi.recorded x b hx
  · intro x b hx
    rw [h.pendingClose] at hx
    have hv : ¬ s.Vacant x := fun hv => by simp [hv.2] at hx
    rw [hkey x hv, hb]
    exact hi.closing x b hx
  · intro b hst
    rw [hb] at hst
    rw [hc]
    exact hi.opener b hst
  · intro b hst
    rw [hb] at hst
    obtain ⟨x, hx⟩ := hi.opened b hst
    exact ⟨x, (h.bridge x).trans hx⟩
  · intro b x hst
    rw [hb] at hst
    exact (h.pendingClose x).trans (hi.closed b x hst)
  · intro b hlt
    rw [hb]
    exact hi.unborn b (hnb ▸ hlt)
  · intro c hlt
    rw [hc]
    exact hi.idle c (hnc ▸ hlt)
  · intro c
    rw [hc]
    refine (hi.calls c).frame h.next (h.key _) (fun b _ hw => (h.pendingClose _).trans hw)
      (fun _ hv => (h.vacant _).mpr hv) (fun _ hm => h.mapped _ hm) (fun _ _ => by rw [hb]) ?_
      (fun b _ hr _ => (h.bridge _).trans hr)
    intro b ho
    unfold OpenedFor
    rw [hb]
    exact ho
  · rw [hc]
    exact hi.alone

theorem allocEntry_entryKey (s : BridgeManager) (d : TransportDescriptor) {x : ℕ}
    (hx : x ≠ s.nextEntry) : (s.allocEntry d).entryKey x = s.entryKey x := by
  rw [entryKey, allocEntry_heap, if_neg hx, entryKey]

theorem inv_allocEntry {s : BridgeManager} (hi : s.Inv) (d : TransportDescriptor)
    (hd : s.entries.get (describeTransport d) = none) : (s.allocEntry d).Inv := by
  have hv : s.Vacant s.nextEntry := hi.unmapped _ fun h => by
    have := (hi.mapped _ _ h).1
    omega
  have hkey : ∀ x, x < s.nextEntry → (s.allocEntry d).entryKey x = s.entryKey x :=
    fun x hx => allocEntry_entryKey s d (by omega)
  refine inv_refiled hi ⟨⟨rfl, rfl⟩, ⟨rfl, rfl⟩, Nat.le_succ _, ?_, ?_, hkey, ?_, ?_⟩
  · intro x
    rw [allocEntry_heap]
    split
    next hx => rw [hx, hv.1, BridgeEntry.new]
    next => rfl
  · intro x
    rw [allocEntry_heap]
    split
    next hx => rw [hx, hv.2, BridgeEntry.new]
    next => rfl
  · intro x hm
    have hlt := (hi.mapped _ x hm).1
    have hne : describeTransport d ≠ s.entryKey x := fun he => by
      rw [Mapped, ← he, hd] at hm
      contradiction
    rw [Mapped, hkey x hlt]
    exact (InsertMap.get_set_ne s.entries _ hne).trans hm
  · intro key x hx
    rcases InsertMap.get_set_eq_some hx with ⟨hk, hnew⟩ | ⟨-, hold⟩
    · refine ⟨hnew ▸ Nat.lt_succ_self _, ?_⟩
      rw [entryKey, allocEntry_heap, if_pos hnew, hk]
      rfl
    · obtain ⟨hlt, hk⟩ := hi.mapped key x hold
      exact ⟨Nat.lt_succ_of_lt hlt, (hkey x hlt).trans hk⟩

theorem setEntry_entryKey {s : BridgeManager} {e : ℕ} {entry : BridgeEntry}
    (hd : entry.descriptor = (s.heap e).descriptor) (x : ℕ) :
    (s.setEntry e entry).entryKey x = s.entryKey x := by
  rw [entryKey, setEntry_heap, entryKey]
  split
  next hx => rw [hx, hd]
  next => rfl

theorem setEntry_mapped {s : BridgeManager} {e : ℕ} {entry : BridgeEntry}
    (hd : entry.descriptor = (s.heap e).descriptor) (x : ℕ) :
    (s.setEntry e entry).Mapped x ↔ s.Mapped x := by
  rw [Mapped, setEntry_entryKey hd]
  rfl

theorem inv_setEntry {s : BridgeManager} (hi : s.Inv) {e : ℕ} {entry : BridgeEntry}
    (hb : entry.bridge = (s.heap e).bridge) (hp : entry.pendingClose = (s.heap e).pendingClose)
    (hd : entry.descriptor = (s.heap e).descriptor) : (s.setEntry e entry).Inv := by
  have hkey := setEntry_entryKey (s := s) hd
  refine inv_refiled hi ⟨⟨rfl, rfl⟩, ⟨rfl, rfl⟩, Nat.le_refl _, ?_, ?_, fun x _ => hkey x,
    fun x => (setEntry_mapped hd x).mpr, fun key x hx => ?_⟩
  · intro x
    rw [setEntry_heap]
    split
    next hx => rw [hx, hb]
    next => rfl
  · intro x
    rw [setEntry_heap]
    split
    next hx => rw [hx, hp]
    next => rfl
  · obtain ⟨hlt, hk⟩ := hi.mapped key x hx
    exact ⟨hlt, (hkey x).trans hk⟩

/-- A call that changes stays the only one that connects for its key. -/
theorem alone_setCall {s t : BridgeManager} (hi : s.Inv) {c : ℕ} {call : Call}
    (hcalls : ∀ x, t.calls x = if x = c then call else s.calls x)
    (halone : call.pc.busy = true → ∀ c', (s.calls c').pc.busy = true →
      (s.calls c').key = call.key → c' = c) :
    ∀ x y, (t.calls x).pc.busy = true → (t.calls y).pc.busy = true →
      (t.calls x).key = (t.calls y).key → x = y := by
  intro x y hx hy hk
  rw [hcalls] at hx hk
  rw [hcalls] at hy hk
  by_cases hxc : x = c <;> by_cases hyc : y = c
  · rw [hxc, hyc]
  · rw [if_pos hxc] at hx hk
    rw [if_neg hyc] at hy hk
    rw [hxc, halone hx y hy hk.symm]
  · rw [if_neg hxc] at hx hk
    rw [if_pos hyc] at hy hk
    rw [hyc, halone hy x hx hk]
  · rw [if_neg hxc] at hx hk
    rw [if_neg hyc] at hy hk
    exact hi.alone x y hx hy hk

theorem inv_setCall {s : BridgeManager} (hi : s.Inv) {c : ℕ} {call : Call} (hc : c < s.nextCall)
    (hok : s.CallOk call)
    (halone : call.pc.busy = true → ∀ c', (s.calls c').pc.busy = true →
      (s.calls c').key = call.key → c' = c)
    (hold : ∀ b, (s.calls c).pc ≠ .connecting b) : (s.setCall c call).Inv := by
  have hsame : ∀ {k : Call}, s.CallOk k → (s.setCall c call).CallOk k := fun hk =>
    hk.frame (Nat.le_refl _) (fun _ => rfl) (fun _ _ h => h) (fun _ h => h) (fun _ h => h)
      (fun _ _ => rfl) (fun _ h => h) (fun _ _ h _ => h)
  constructor
  · exact hi.mapped
  · exact hi.unmapped
  · exact hi.recorded
  · exact hi.closing
  · intro b h
    obtain ⟨x, hx⟩ := hi.opener b h
    have hne : x ≠ c := fun he => hold b (he ▸ hx)
    exact ⟨x, by rw [setCall_calls, if_neg hne, hx]⟩
  · exact hi.opened
  · exact hi.closed
  · exact hi.unborn
  · intro x hx
    have hle : s.nextCall ≤ x := hx
    have hne : x ≠ c := by omega
    rw [setCall_calls, if_neg hne]
    exact hi.idle x hle
  · intro x
    rw [setCall_calls]
    split
    · exact hsame hok
    · exact hsame (hi.calls x)
  · exact alone_setCall hi (fun x => setCall_calls s c x call) halone

/-! ### The operations -/

theorem countOwner_same (s : BridgeManager) (call : Call) (n : ℤ) (x : ℕ) :
    ((s.countOwner call n).heap x).bridge = (s.heap x).bridge ∧
      ((s.countOwner call n).heap x).pendingClose = (s.heap x).pendingClose ∧
      ((s.countOwner call n).heap x).methodRefs = (s.heap x).methodRefs ∧
      (s.countOwner call n).entryKey x = s.entryKey x := by
  unfold countOwner
  cases call.kind with
  | acquire =>
    dsimp only
    rw [entryKey, addRef, setEntry_heap]
    split
    next hx => rw [hx]; exact ⟨rfl, rfl, rfl, rfl⟩
    next => exact ⟨rfl, rfl, rfl, rfl⟩
  | getBridge => exact ⟨rfl, rfl, rfl, rfl⟩

@[simp] theorem countOwner_rest (s : BridgeManager) (call : Call) (n : ℤ) :
    (s.countOwner call n).entries = s.entries ∧ (s.countOwner call n).nextEntry = s.nextEntry ∧
      (s.countOwner call n).bridges = s.bridges ∧ (s.countOwner call n).calls = s.calls ∧
      (s.countOwner call n).nextBridge = s.nextBridge ∧
      (s.countOwner call n).nextCall = s.nextCall := by
  unfold countOwner
  cases call.kind <;> exact ⟨rfl, rfl, rfl, rfl, rfl, rfl⟩

theorem giveBack_rest (s : BridgeManager) (holder : Option ℕ) :
    (s.giveBack holder).entries = s.entries ∧ (s.giveBack holder).heap = s.heap ∧
      (s.giveBack holder).nextEntry = s.nextEntry ∧ (s.giveBack holder).bridges = s.bridges := by
  unfold giveBack
  cases holder with
  | none => exact ⟨rfl, rfl, rfl, rfl⟩
  | some c =>
    dsimp only
    split <;> exact ⟨rfl, rfl, rfl, rfl⟩

theorem inv_countOwner {s : BridgeManager} (hi : s.Inv) (call : Call) (n : ℤ) :
    (s.countOwner call n).Inv := by
  unfold countOwner
  cases call.kind with
  | acquire => exact inv_setEntry hi rfl rfl rfl
  | getBridge => exact hi

theorem inv_takeBridge {s : BridgeManager} (hi : s.Inv) {c : ℕ} {call : Call}
    (hc : c < s.nextCall) (he : call.entry < s.nextEntry) (hk : s.entryKey call.entry = call.key)
    (hm : s.Mapped call.entry) (hp : (s.heap call.entry).pendingClose = none)
    (halone : (s.heap call.entry).bridge = none → ¬ s.connectingFor call.key)
    (hold : ∀ b, (s.calls c).pc ≠ .connecting b) : (s.takeBridge c call).Inv := by
  unfold takeBridge
  split
  next hb =>
    refine inv_setCall hi hc ?_ ?_ hold
    · constructor <;> simp_all [Vacant, Call.key]
    · intro _ c' hbusy hkey
      have hlt : c' < s.nextCall := by
        by_contra hge
        rw [hi.idle c' (Nat.le_of_not_lt hge)] at hbusy
        contradiction
      exact absurd ⟨c', hlt, hbusy, hkey⟩ (halone hb)
  next b hb =>
    refine inv_setCall hi hc ?_ (by simp [Pc.busy]) hold
    have hrec := (hi.recorded _ _ hb).2
    constructor <;> simp_all [OpenedFor, Call.key, Pc.busy]

theorem inv_proceed {s : BridgeManager} (hi : s.Inv) {c : ℕ} {call : Call} (hc : c < s.nextCall)
    (he : call.entry < s.nextEntry) (hk : s.entryKey call.entry = call.key)
    (hm : s.Mapped call.entry) (hp : (s.heap call.entry).pendingClose = none)
    (halone : (s.heap call.entry).bridge = none → ¬ s.connectingFor call.key)
    (hold : ∀ b, (s.calls c).pc ≠ .connecting b) : (s.proceed c call).Inv := by
  obtain ⟨hbridge, hpending, -, hkey⟩ := countOwner_same s call 1 call.entry
  obtain ⟨hentries, hnext, -, hcalls, -, hncalls⟩ := countOwner_rest s call 1
  refine inv_takeBridge (inv_countOwner hi call 1) (by omega) (by omega) (hkey.trans hk) ?_ ?_ ?_ ?_
  · rw [Mapped, hentries, hkey]
    exact hm
  · rw [hpending, hp]
  · rw [hbridge, connectingFor, hcalls, hncalls]
    exact halone
  · rw [hcalls]
    exact hold

theorem getEntry_spec {s : BridgeManager} (hi : s.Inv) (d : TransportDescriptor) :
    (s.getEntry d).1.Inv ∧ (s.getEntry d).2 < (s.getEntry d).1.nextEntry ∧
      (s.getEntry d).1.entries.get (describeTransport d) = some (s.getEntry d).2 := by
  unfold getEntry
  split
  next e he => exact ⟨hi, (hi.mapped _ _ he).1, he⟩
  next he => exact ⟨inv_allocEntry hi d he, Nat.lt_succ_self _, InsertMap.get_set_self ..⟩

theorem getEntry_calls (s : BridgeManager) (d : TransportDescriptor) :
    (s.getEntry d).1.calls = s.calls ∧ (s.getEntry d).1.nextCall = s.nextCall := by
  unfold getEntry
  split <;> exact ⟨rfl, rfl⟩

theorem inv_reserve {s : BridgeManager} (hi : s.Inv) :
    BridgeManager.Inv { s with nextCall := s.nextCall + 1 } where
  mapped := hi.mapped
  unmapped := hi.unmapped
  recorded := hi.recorded
  closing := hi.closing
  opener := hi.opener
  opened := hi.opened
  closed := hi.closed
  unborn := hi.unborn
  idle c hc := hi.idle c (Nat.le_of_succ_le hc)
  calls c := (hi.calls c).frame (Nat.le_refl _) (fun _ => rfl) (fun _ _ h => h) (fun _ h => h)
    (fun _ h => h) (fun _ _ => rfl) (fun _ h => h) (fun _ _ h _ => h)
  alone := hi.alone

theorem inv_start {s : BridgeManager} (hi : s.Inv) (kind : Kind) (d : TransportDescriptor)
    (cred : Bool) (halone : ∀ key ∈ s.startsConnecting (.acquire d cred), ¬ s.connectingFor key) :
    (s.start kind d cred).Inv := by
  obtain ⟨hi', hlt, hget⟩ := getEntry_spec hi d
  obtain ⟨hcalls, hnext⟩ := getEntry_calls s d
  have hkey := (hi'.mapped _ _ hget).2
  have hidle : ((s.getEntry d).1.calls (s.getEntry d).1.nextCall).pc = .idle :=
    hi'.idle _ (Nat.le_refl _)
  unfold start
  dsimp only
  split
  next p hp =>
    refine inv_setCall (inv_reserve hi') (Nat.lt_succ_self _) ?_ (by simp [Pc.busy])
      (by simp [hidle])
    constructor <;> simp_all [Pc.busy, Call.key, entryKey]
  next hp =>
    have hm : (s.getEntry d).1.Mapped (s.getEntry d).2 := by
      rw [Mapped, hkey]
      exact hget
    refine inv_proceed (inv_reserve hi') (Nat.lt_succ_self _) hlt hkey hm hp ?_ (by simp [hidle])
    intro hb
    have hfree : ¬ s.connectingFor (describeTransport d) := by
      apply halone
      unfold getEntry at hp hb
      simp only [startsConnecting]
      split at hp <;> simp_all
    rintro ⟨c', hc', hbusy, hk⟩
    dsimp only at hc' hbusy hk
    rw [hcalls] at hbusy hk
    refine hfree ⟨c', ?_, hbusy, hk⟩
    by_contra hge
    rw [hi.idle c' (Nat.le_of_not_lt hge)] at hbusy
    contradiction

/-- A bridge that no entry knows yet changes together with the call that opens it. -/
theorem inv_bridgeOfCall {s t : BridgeManager} (hi : s.Inv) {b c : ℕ} {key : String}
    {status : Status} {call : Call} (hentries : t.entries = s.entries) (hheap : t.heap = s.heap)
    (hnext : t.nextEntry = s.nextEntry ∧ t.nextCall = s.nextCall)
    (hbridges : ∀ x, t.bridges x = if x = b then ⟨key, status⟩ else s.bridges x)
    (hcalls : ∀ x, t.calls x = if x = c then call else s.calls x)
    (hborn : s.nextBridge ≤ t.nextBridge ∧ b < t.nextBridge) (hc : c < s.nextCall)
    (hun : (s.bridges b).status = .absent ∨ (s.bridges b).status = .connecting)
    (hnew : status = .connecting ∧ call.pc = .connecting b ∨ status = .closed)
    (hmine : ∀ c', (s.calls c').pc = .connecting b → c' = c)
    (hold : ∀ b', (s.calls c).pc = .connecting b' → b' = b) (hok : t.CallOk call)
    (halone : call.pc.busy = true → ∀ c', (s.calls c').pc.busy = true →
      (s.calls c').key = call.key → c' = c) : t.Inv := by
  have hkey : ∀ x, t.entryKey x = s.entryKey x := fun x => by rw [entryKey, entryKey, hheap]
  have hknown : ∀ x, (s.bridges x).status ≠ .absent → (s.bridges x).status ≠ .connecting →
      t.bridges x = s.bridges x := by
    intro x habsent hconn
    have hxb : x ≠ b := fun he => by
      rw [he] at habsent hconn
      exact hun.elim habsent hconn
    rw [hbridges, if_neg hxb]
  have hstatus : ∀ x st, (t.bridges x).status = st → st ≠ .connecting → st ≠ .closed →
      (s.bridges x).status = st := by
    intro x st hst hconn hclosed
    rw [hbridges] at hst
    split at hst
    · rcases hnew with ⟨he, -⟩ | he
      · exact absurd (hst.symm.trans he) hconn
      · exact absurd (hst.symm.trans he) hclosed
    · exact hst
  constructor
  · rw [hentries, hnext.1]
    simpa only [hkey] using hi.mapped
  · intro e h
    rw [Vacant, hheap]
    exact hi.unmapped e (by rwa [Mapped, hentries, hkey] at h)
  · intro e b' h
    rw [hheap] at h ⊢
    have hb := hi.recorded e b' h
    rw [hknown b' (by simp [hb.2]) (by simp [hb.2]), hkey]
    exact hb
  · intro e b' h
    rw [hheap] at h
    have hb := hi.closing e b' h
    rw [hknown b' (by simp [hb]) (by simp [hb]), hkey]
    exact hb
  · intro b' h
    by_cases hb : b' = b
    · refine ⟨c, ?_⟩
      rw [hbridges, if_pos hb] at h
      rcases hnew with ⟨-, hcall⟩ | hclosed
      · rw [hcalls, if_pos rfl, hcall, hb]
      · exact absurd (h.symm.trans hclosed) (by simp)
    · rw [hbridges, if_neg hb] at h
      obtain ⟨x, hx⟩ := hi.opener b' h
      have hxc : x ≠ c := fun he => hb (hold b' (he ▸ hx))
      exact ⟨x, by rw [hcalls, if_neg hxc, hx]⟩
  · intro b' h
    rw [hheap]
    exact hi.opened b' (hstatus b' _ h (by simp) (by simp))
  · intro b' e h
    rw [hheap]
    exact hi.closed b' e (hstatus b' _ h (by simp) (by simp))
  · intro b' h
    have hne : b' ≠ b := by omega
    rw [hbridges, if_neg hne]
    exact hi.unborn b' (by omega)
  · intro x hx
    have hne : x ≠ c := by omega
    rw [hcalls, if_neg hne]
    exact hi.idle x (by omega)
  · intro x
    have hx := hi.calls x
    rw [hcalls]
    split
    · exact hok
    next hxc =>
      refine hx.frame (by omega) (fun _ => hkey _) (by simp [hheap]) (by simp [Vacant, hheap])
        (by simp [Mapped, hentries, hkey]) ?_ ?_ (fun _ _ h _ => by rwa [hheap])
      · intro b' hb'
        have hne : b' ≠ b := fun he => hxc (hmine x (he ▸ hb'))
        rw [hbridges, if_neg hne]
      · intro b' h
        rw [OpenedFor, hknown b' h.2.1 h.2.2]
        exact h
  · exact alone_setCall hi hcalls halone

theorem busy_lt {s : BridgeManager} (hi : s.Inv) {c : ℕ} (h : (s.calls c).pc ≠ .idle) :
    c < s.nextCall := by
  by_contra hge
  exact h (hi.idle c (Nat.le_of_not_lt hge))

theorem mapped_of_recorded {s : BridgeManager} (hi : s.Inv) {e b : ℕ}
    (h : (s.heap e).bridge = some b) : s.Mapped e := by
  by_contra hu
  simp [(hi.unmapped e hu).1] at h

theorem mapped_of_pendingClose {s : BridgeManager} (hi : s.Inv) {e b : ℕ}
    (h : (s.heap e).pendingClose = some b) : s.Mapped e := by
  by_contra hu
  simp [(hi.unmapped e hu).2] at h

theorem mapped_unique {s : BridgeManager} {x y : ℕ} (hx : s.Mapped x) (hy : s.Mapped y)
    (hk : s.entryKey x = s.entryKey y) : x = y := by
  rw [Mapped, hk, hy] at hx
  exact (Option.some.inj hx).symm

theorem recorded_unique {s : BridgeManager} (hi : s.Inv) {x y b : ℕ}
    (hx : (s.heap x).bridge = some b) (hy : (s.heap y).bridge = some b) : x = y := by
  have h := (hi.recorded x b hx).2
  rw [(hi.recorded y b hy).2] at h
  exact mapped_unique (mapped_of_recorded hi hx) (mapped_of_recorded hi hy) (by simpa using h.symm)

theorem connecting_unique {s : BridgeManager} (hi : s.Inv) {b c c' : ℕ}
    (h : (s.calls c).pc = .connecting b) (h' : (s.calls c').pc = .connecting b) : c = c' := by
  have hk := (hi.calls c).connects b h
  have hk' := (hi.calls c').connects b h'
  rw [hk] at hk'
  exact hi.alone c c' (by simp [h, Pc.busy]) (by simp [h', Pc.busy]) (by simpa using hk')

theorem inv_built {s : BridgeManager} (hi : s.Inv) {c : ℕ} (hpc : (s.calls c).pc = .building) :
    (s.built c).Inv := by
  have hborn := hi.unborn s.nextBridge (Nat.le_refl _)
  have hbusy : (s.calls c).pc.busy = true := by simp [hpc, Pc.busy]
  have hcall := hi.calls c
  refine inv_bridgeOfCall hi rfl rfl ⟨rfl, rfl⟩ (fun x => Function.update_apply s.bridges _ _ x)
    (fun x => Function.update_apply s.calls c _ x) ⟨Nat.le_succ _, Nat.lt_succ_self _⟩
    (busy_lt hi (by simp [hpc])) (Or.inl hborn) (Or.inl ⟨rfl, rfl⟩) ?_ (by simp [hpc]) ?_ ?_
  · intro c' hc'
    have := (hi.calls c').connects _ hc'
    simp [this] at hborn
  · have hentry := hcall.entry (by simp [hpc])
    have hb := hcall.busy hbusy
    constructor <;> simp [Pc.busy, built, setPc, setCall, setBridge, Call.key]
    · exact hentry
    · exact hb
  · intro _ c' hb' hk
    exact hi.alone c' c hb' hbusy hk

/-! ### A bridge moves on -/

/-- Bridge `b` is recorded at entry `e`, its close begins, or its close ends; `e` has to do with no
other bridge, before or after. -/
structure Moves (s t : BridgeManager) (b e : ℕ) : Prop where
  entries : t.entries = s.entries
  next : t.nextEntry = s.nextEntry ∧ t.nextBridge = s.nextBridge ∧ t.nextCall = s.nextCall
  heap : ∀ x, x ≠ e → t.heap x = s.heap x
  descriptor : (t.heap e).descriptor = (s.heap e).descriptor
  bridges : ∀ x, x ≠ b → t.bridges x = s.bridges x
  key : (s.bridges b).key = s.entryKey e ∧ (t.bridges b).key = s.entryKey e
  mapped : s.Mapped e
  born : (s.bridges b).status ≠ .absent
  only : ∀ x, (s.heap x).bridge = some b ∨ (s.heap x).pendingClose = some b → x = e
  was : ∀ x, (s.heap e).bridge = some x ∨ (s.heap e).pendingClose = some x → x = b
  place :
    ((t.heap e).bridge = some b ∧ (t.heap e).pendingClose = none ∧ (t.bridges b).status = .opened) ∨
    ((t.heap e).bridge = none ∧ (t.heap e).pendingClose = some b ∧
      (t.bridges b).status = .closing e) ∨
    ((t.heap e).bridge = none ∧ (t.heap e).pendingClose = none ∧ (t.bridges b).status = .closed)

namespace Moves

variable {s t : BridgeManager} {b e : ℕ}

theorem entryKey (h : s.Moves t b e) (x : ℕ) : t.entryKey x = s.entryKey x := by
  unfold BridgeManager.entryKey
  by_cases hx : x = e
  · rw [hx, h.descriptor]
  · rw [h.heap x hx]

theorem mapped_iff (h : s.Moves t b e) (x : ℕ) : t.Mapped x ↔ s.Mapped x := by
  rw [Mapped, Mapped, h.entries, h.entryKey]

theorem lt (h : s.Moves t b e) (hi : s.Inv) : b < s.nextBridge := by
  by_contra hge
  exact h.born (hi.unborn b (by omega))

theorem status_ne (h : s.Moves t b e) :
    (t.bridges b).status ≠ .absent ∧ (t.bridges b).status ≠ .connecting := by
  rcases h.place with ⟨-, -, hst⟩ | ⟨-, -, hst⟩ | ⟨-, -, hst⟩ <;> rw [hst] <;> simp

theorem callOk (h : s.Moves t b e) {call : Call} (hok : s.CallOk call)
    (hconn : call.pc ≠ .connecting b)
    (hfree : call.entry = e → ¬ (call.pc = .resuming ∨ call.pc.busy = true))
    (hwait : call.entry = e → ∀ x, call.pc = .awaitingClose x → (t.heap e).pendingClose = some x)
    (hheld : call.entry = e → ∀ x, call.kind = .acquire → call.pc = .returned x →
      (t.heap e).bridge = some x) : t.CallOk call := by
  refine hok.frame (Nat.le_of_eq h.next.1.symm) (fun _ => h.entryKey _) ?_ ?_
    (fun _ hm => (h.mapped_iff _).mpr hm) ?_ ?_ ?_
  · intro x hpc hw
    by_cases hx : call.entry = e
    · rw [hx]
      exact hwait hx x hpc
    · rw [h.heap _ hx]
      exact hw
  · intro hpc hv
    have hx : call.entry ≠ e := fun hx => hfree hx hpc
    rw [Vacant, h.heap _ hx]
    exact hv
  · intro x hpc
    exact h.bridges x (fun he => hconn (he ▸ hpc))
  · intro x ho
    by_cases hx : x = b
    · rw [hx] at ho ⊢
      exact ⟨h.key.2.trans (h.key.1.symm.trans ho.1), h.status_ne⟩
    · rw [OpenedFor, h.bridges x hx]
      exact ho
  · intro x hpc hr hkind
    by_cases hx : call.entry = e
    · rw [hx]
      exact hheld hx x hkind hpc
    · rw [h.heap _ hx]
      exact hr

end Moves

theorem inv_moves {s t : BridgeManager} {b e : ℕ} (hi : s.Inv) (h : s.Moves t b e)
    (hcalls : ∀ c, t.CallOk (t.calls c))
    (hopener : ∀ x c, x ≠ b → (s.calls c).pc = .connecting x → (t.calls c).pc = .connecting x)
    (hidle : ∀ c, (s.calls c).pc = .idle → (t.calls c).pc = .idle)
    (hbusy : ∀ c, (t.calls c).pc.busy = true →
      (s.calls c).pc.busy = true ∧ (t.calls c).key = (s.calls c).key) : t.Inv := by
  have hstatus : ∀ x, x ≠ b → (t.bridges x).status = (s.bridges x).status :=
    fun x hx => by rw [h.bridges x hx]
  constructor
  · intro key x hx
    rw [h.entries] at hx
    obtain ⟨hlt, hk⟩ := hi.mapped key x hx
    exact ⟨h.next.1 ▸ hlt, (h.entryKey x).trans hk⟩
  · intro x hx
    rw [h.mapped_iff] at hx
    have hne : x ≠ e := fun he => hx (he ▸ h.mapped)
    rw [Vacant, h.heap x hne]
    exact hi.unmapped x hx
  · intro x b' hx
    by_cases hxe : x = e
    · rw [hxe] at hx ⊢
      rcases h.place with ⟨hr, hp, hst⟩ | ⟨hr, -⟩ | ⟨hr, -⟩
      · rw [hr] at hx
        cases hx
        refine ⟨hp, ?_⟩
        rw [h.entryKey, ← h.key.2, ← hst]
      · rw [hr] at hx
        contradiction
      · rw [hr] at hx
        contradiction
    · rw [h.heap x hxe] at hx ⊢
      have hne : b' ≠ b := fun he => hxe (h.only x (Or.inl (he ▸ hx)))
      rw [h.bridges b' hne, h.entryKey]
      exact hi.recorded x b' hx
  · intro x b' hx
    by_cases hxe : x = e
    · rw [hxe] at hx ⊢
      rcases h.place with ⟨-, hp, -⟩ | ⟨-, hp, hst⟩ | ⟨-, hp, -⟩
      · rw [hp] at hx
        contradiction
      · rw [hp] at hx
        cases hx
        rw [h.entryKey, ← h.key.2, ← hst]
      · rw [hp] at hx
        contradiction
    · rw [h.heap x hxe] at hx
      have hne : b' ≠ b := fun he => hxe (h.only x (Or.inr (he ▸ hx)))
      rw [h.bridges b' hne, h.entryKey]
      exact hi.closing x b' hx
  · intro b' hst
    have hne : b' ≠ b := fun he => h.status_ne.2 (he ▸ hst)
    rw [hstatus b' hne] at hst
    obtain ⟨c, hc⟩ := hi.opener b' hst
    exact ⟨c, hopener b' c hne hc⟩
  · intro b' hst
    by_cases hb : b' = b
    · rw [hb] at hst ⊢
      rcases h.place with ⟨hr, -⟩ | ⟨-, -, hst'⟩ | ⟨-, -, hst'⟩
      · exact ⟨e, hr⟩
      · rw [hst'] at hst
        contradiction
      · rw [hst'] at hst
        contradiction
    · rw [hstatus b' hb] at hst
      obtain ⟨x, hx⟩ := hi.opened b' hst
      have hxe : x ≠ e := fun he => hb (h.was b' (Or.inl (he ▸ hx)))
      exact ⟨x, by rw [h.heap x hxe, hx]⟩
  · intro b' x hst
    by_cases hb : b' = b
    · rw [hb] at hst ⊢
      rcases h.place with ⟨-, -, hst'⟩ | ⟨-, hp, hst'⟩ | ⟨-, -, hst'⟩
      · rw [hst'] at hst
        contradiction
      · rw [hst'] at hst
        cases hst
        exact hp
      · rw [hst'] at hst
        contradiction
    · rw [hstatus b' hb] at hst
      have hx := hi.closed b' x hst
      have hxe : x ≠ e := fun he => hb (h.was b' (Or.inr (he ▸ hx)))
      rw [h.heap x hxe, hx]
  · intro b' hlt
    rw [h.next.2.1] at hlt
    have := h.lt hi
    rw [hstatus b' (by omega)]
    exact hi.unborn b' hlt
  · intro c hlt
    exact hidle c (hi.idle c (h.next.2.2 ▸ hlt))
  · exact hcalls
  · intro x y hx hy hk
    obtain ⟨hsx, hkx⟩ := hbusy x hx
    obtain ⟨hsy, hky⟩ := hbusy y hy
    exact hi.alone x y hsx hsy (by rw [← hkx, ← hky, hk])

theorem CallOk.vacant {s : BridgeManager} {call : Call} (h : s.CallOk call)
    (hpc : call.pc = .resuming ∨ call.pc.busy = true) : s.Vacant call.entry := by
  rcases hpc with hpc | hpc
  · exact h.due hpc
  · exact (h.busy hpc).2

theorem inv_connected {s : BridgeManager} (hi : s.Inv) {c b : ℕ}
    (hpc : (s.calls c).pc = .connecting b) (hsettled : s.settled (s.calls c).entry) :
    (s.connected c b).Inv := by
  have hcall := hi.calls c
  have hbusy : (s.calls c).pc.busy = true := by simp [hpc, Pc.busy]
  obtain ⟨hen, hek⟩ := hcall.entry (by simp [hpc])
  obtain ⟨hm, hbr, hpend⟩ := hcall.busy hbusy
  have hconn := hcall.connects b hpc
  have hcalls : ∀ x, (s.connected c b).calls x =
      if x = c then { s.calls c with pc := .returned b } else s.calls x :=
    fun x => Function.update_apply s.calls c _ x
  have hheap : ∀ x, (s.connected c b).heap x =
      if x = (s.calls c).entry then { s.heap (s.calls c).entry with bridge := some b }
      else s.heap x :=
    fun x => Function.update_apply s.heap (s.calls c).entry _ x
  have hbridges : ∀ x, (s.connected c b).bridges x =
      if x = b then ⟨(s.calls c).key, .opened⟩ else s.bridges x :=
    fun x => Function.update_apply s.bridges b _ x
  have hmoves : s.Moves (s.connected c b) b (s.calls c).entry := by
    refine ⟨rfl, ⟨rfl, rfl, rfl⟩, fun x hx => by rw [hheap, if_neg hx], by rw [hheap, if_pos rfl],
      fun x hx => by rw [hbridges, if_neg hx], ⟨by rw [hconn, hek], by rw [hbridges, if_pos rfl, hek]⟩,
      hm, by rw [hconn]; simp, ?_, ?_, Or.inl ?_⟩
    · rintro x (hx | hx)
      · have hrec := (hi.recorded x b hx).2
        rw [hconn] at hrec
        simp at hrec
      · have hrec := hi.closing x b hx
        rw [hconn] at hrec
        simp at hrec
    · rintro x (hx | hx)
      · rw [hbr] at hx
        contradiction
      · rw [hpend] at hx
        contradiction
    · rw [hheap, if_pos rfl, hbridges, if_pos rfl]
      exact ⟨rfl, hpend, rfl⟩
  refine inv_moves hi hmoves ?_ ?_ ?_ ?_
  · intro x
    rw [hcalls]
    split
    next hx =>
      have hopen : (s.connected c b).OpenedFor b (s.calls c).key := by
        rw [OpenedFor, hbridges, if_pos rfl]
        simp
      refine ⟨fun _ => ⟨hen, (hmoves.entryKey _).trans hek⟩, by simp, by simp, by simp [Pc.busy],
        by simp, ?_, ?_⟩
      · rintro b' (he | he)
        · cases he
          exact hopen
        · contradiction
      · rintro b' - he
        cases he
        rw [hheap, if_pos rfl]
    next hx =>
      have hcx := hi.calls x
      refine hmoves.callOk hcx (fun he => hx (connecting_unique hi he hpc)) ?_ ?_ ?_
      · -- Its continuation would have run before, and no other call connects for the key.
        rintro he (hdue | hb)
        · exact hsettled x (busy_lt hi (by simp [hdue])) he hdue
        · have hk := (hcx.entry (fun h => by simp [h, Pc.busy] at hb)).2
          exact hx (hi.alone x c hb hbusy (by rw [← hk, he, hek]))
      · intro he b' hw
        have hp := hcx.waits b' hw
        rw [he, hpend] at hp
        contradiction
      · intro he b' hkind hr
        have hh := hcx.holds b' hkind hr
        rw [he, hbr] at hh
        contradiction
  · intro b' x hne hx
    have hxc : x ≠ c := fun he => by
      rw [he, hpc] at hx
      cases hx
      exact hne rfl
    rw [hcalls, if_neg hxc, hx]
  · intro x hx
    have hxc : x ≠ c := fun he => by simp [he, hpc] at hx
    rw [hcalls, if_neg hxc, hx]
  · intro x hx
    rw [hcalls] at hx ⊢
    split at hx
    · simp [Pc.busy] at hx
    next hxc =>
      rw [if_neg hxc]
      exact ⟨hx, rfl⟩

theorem inv_dropKey {s : BridgeManager} (hi : s.Inv) {key : String}
    (hfree : ∀ e, s.entries.get key = some e → s.Vacant e)
    (hnone : ∀ c, (s.calls c).pc.busy = true → (s.calls c).key ≠ key) :
    BridgeManager.Inv { s with entries := s.entries.delete key } where
  mapped k e h := hi.mapped k e (InsertMap.get_delete_eq_some h).2
  unmapped e h := by
    by_cases hk : s.entryKey e = key
    · by_cases hm : s.Mapped e
      · exact hfree e (hk ▸ hm)
      · exact hi.unmapped e hm
    · refine hi.unmapped e fun hm => h ?_
      show (s.entries.delete key).get (s.entryKey e) = some e
      rw [InsertMap.get_delete_ne _ fun he => hk he.symm]
      exact hm
  recorded := hi.recorded
  closing := hi.closing
  opener := hi.opener
  opened := hi.opened
  closed := hi.closed
  unborn := hi.unborn
  idle := hi.idle
  calls c := by
    refine (hi.calls c).frame (Nat.le_refl _) (fun _ => rfl) (fun _ _ h => h) (fun _ h => h) ?_
      (fun _ _ => rfl) (fun _ h => h) (fun _ _ h _ => h)
    intro hb hm
    have hk : key ≠ s.entryKey (s.calls c).entry := by
      intro he
      have hpc : (s.calls c).pc ≠ .idle := fun h => by simp [h, Pc.busy] at hb
      exact hnone c hb (((hi.calls c).entry hpc).2.symm.trans he.symm)
    show (s.entries.delete key).get (s.entryKey (s.calls c).entry) = some (s.calls c).entry
    rw [InsertMap.get_delete_ne _ hk]
    exact hm
  alone := hi.alone

theorem inv_dropFailed {s : BridgeManager} (hi : s.Inv) {call : Call}
    (hm : s.entries.get call.key = some call.entry) (hv : s.Vacant call.entry)
    (hnone : ∀ c, (s.calls c).pc.busy = true → (s.calls c).key ≠ call.key) :
    ((s.countOwner call (-1)).dropFailed call).Inv := by
  obtain ⟨hbridge, hpending, -, -⟩ := countOwner_same s call (-1) call.entry
  obtain ⟨hentries, -, -, hcalls, -, -⟩ := countOwner_rest s call (-1)
  unfold dropFailed
  dsimp only
  split
  · refine inv_dropKey (inv_countOwner hi call (-1)) ?_ (by rw [hcalls]; exact hnone)
    intro e he
    rw [hentries, hm] at he
    cases he
    exact ⟨hbridge.trans hv.1, hpending.trans hv.2⟩
  · exact inv_countOwner hi call (-1)

/-- What a failing call leaves behind for its key: the entry in the map, and nobody connecting. -/
theorem failing_spec {s : BridgeManager} (hi : s.Inv) {c : ℕ} (hb : (s.calls c).pc.busy = true) :
    s.entries.get (s.calls c).key = some (s.calls c).entry ∧ s.Vacant (s.calls c).entry ∧
      ∀ c', c' ≠ c → (s.calls c').pc.busy = true → (s.calls c').key ≠ (s.calls c).key := by
  have hpc : (s.calls c).pc ≠ .idle := fun h => by simp [h, Pc.busy] at hb
  obtain ⟨hm, hv⟩ := (hi.calls c).busy hb
  have hk := ((hi.calls c).entry hpc).2
  exact ⟨hk ▸ hm, hv, fun c' hne hb' he => hne (hi.alone c' c hb' hb he)⟩

theorem failed_nobody {s t : BridgeManager} {c : ℕ}
    (hnone : ∀ c', c' ≠ c → (s.calls c').pc.busy = true → (s.calls c').key ≠ (s.calls c).key)
    (hcalls : t.calls = s.calls) :
    ∀ c', ((t.setPc c .failed).calls c').pc.busy = true →
      ((t.setPc c .failed).calls c').key ≠ (s.calls c).key := by
  intro c' hb'
  rw [setPc_calls] at hb' ⊢
  split at hb'
  · simp [Pc.busy] at hb'
  next hne =>
    rw [if_neg hne, hcalls]
    rw [hcalls] at hb'
    exact hnone c' hne hb'

theorem inv_buildFailed {s : BridgeManager} (hi : s.Inv) {c : ℕ}
    (hpc : (s.calls c).pc = .building) : (s.connectFailed c).Inv := by
  obtain ⟨hm, hv, hnone⟩ := failing_spec hi (c := c) (by simp [hpc, Pc.busy])
  have hi' : (s.setPc c .failed).Inv := by
    refine inv_setCall hi (busy_lt hi (by simp [hpc])) ?_ (by simp [Pc.busy]) (by simp [hpc])
    have hentry := (hi.calls c).entry (by simp [hpc])
    constructor <;> simp [Pc.busy]
    exact hentry
  exact inv_dropFailed hi' hm hv (failed_nobody hnone rfl)

theorem inv_connectFailed {s : BridgeManager} (hi : s.Inv) {c b : ℕ}
    (hpc : (s.calls c).pc = .connecting b) :
    ((s.setBridge b (s.bridges b).key .closed).connectFailed c).Inv := by
  obtain ⟨hm, hv, hnone⟩ := failing_spec hi (c := c) (by simp [hpc, Pc.busy])
  have hconn := (hi.calls c).connects b hpc
  have hborn : b < s.nextBridge := by
    by_contra hge
    have := hi.unborn b (Nat.le_of_not_lt hge)
    simp [hconn] at this
  have hi' : ((s.setBridge b (s.bridges b).key .closed).setPc c .failed).Inv := by
    refine inv_bridgeOfCall hi rfl rfl ⟨rfl, rfl⟩ (fun x => Function.update_apply s.bridges _ _ x)
      (fun x => Function.update_apply s.calls c _ x) ⟨Nat.le_refl _, hborn⟩
      (busy_lt hi (by simp [hpc])) (Or.inr (by rw [hconn])) (Or.inr rfl)
      (fun c' h => connecting_unique hi h hpc) (by simp [hpc]) ?_ (by simp [Pc.busy])
    have hentry := (hi.calls c).entry (by simp [hpc])
    constructor <;> simp [Pc.busy]
    exact hentry
  exact inv_dropFailed hi' hm hv (failed_nobody hnone rfl)

theorem inv_finishClose {s : BridgeManager} (hi : s.Inv) {b e : ℕ}
    (hb : (s.bridges b).status = .closing e) : (s.finishClose b e).Inv := by
  have hpend := hi.closed b e hb
  have hinfo := hi.closing e b hpend
  have hnobridge : (s.heap e).bridge = none := by
    cases h : (s.heap e).bridge with
    | none => rfl
    | some b' =>
      have hp := (hi.recorded e b' h).1
      rw [hpend] at hp
      contradiction
  have hbusy : ¬ s.Vacant e := fun hv => by
    rw [Vacant, hpend] at hv
    exact absurd hv.2 (by simp)
  have hheap : ∀ x, (s.finishClose b e).heap x =
      if x = e then { s.heap e with pendingClose := none } else s.heap x := by
    intro x
    by_cases hx : x = e <;> simp [finishClose, setEntry, setBridge, hx, hpend]
  have hbridges : ∀ x, (s.finishClose b e).bridges x =
      if x = b then ⟨s.entryKey e, .closed⟩ else s.bridges x := by
    intro x
    by_cases hx : x = b <;> simp [finishClose, setEntry, setBridge, hx, hinfo]
  have hmoves : s.Moves (s.finishClose b e) b e := by
    refine ⟨rfl, ⟨rfl, rfl, rfl⟩, fun x hx => by rw [hheap, if_neg hx], by rw [hheap, if_pos rfl],
      fun x hx => by rw [hbridges, if_neg hx], ⟨by rw [hinfo], by rw [hbridges, if_pos rfl]⟩,
      mapped_of_pendingClose hi hpend, by rw [hb]; simp, ?_, ?_, Or.inr (Or.inr ?_)⟩
    · rintro x (hx | hx)
      · have hrec := (hi.recorded x b hx).2
        rw [hinfo] at hrec
        simp at hrec
      · have hrec := hi.closing x b hx
        rw [hinfo] at hrec
        simp only [BridgeInfo.mk.injEq, Status.closing.injEq] at hrec
        exact hrec.2.symm
    · rintro x (hx | hx)
      · rw [hnobridge] at hx
        contradiction
      · rw [hpend] at hx
        exact (Option.some.inj hx).symm
    · rw [hheap, if_pos rfl, hbridges, if_pos rfl]
      exact ⟨hnobridge, rfl, rfl⟩
  have hcalls := finishClose_calls s b e
  refine inv_moves hi hmoves ?_ ?_ ?_ ?_
  · intro x
    have hcx := hi.calls x
    rw [hcalls]
    split
    next hpc =>
      -- A call that waited for this close is due, and finds the entry vacant.
      have hxe : (s.calls x).entry = e := hmoves.only _ (Or.inr (hcx.waits b hpc))
      obtain ⟨hen, hek⟩ := hcx.entry (by simp [hpc])
      refine ⟨fun _ => ⟨hen, (hmoves.entryKey _).trans hek⟩, by simp, fun _ => ?_,
        by simp [Pc.busy], by simp, by simp, by simp⟩
      change (s.finishClose b e).Vacant (s.calls x).entry
      rw [hxe, Vacant, hheap, if_pos rfl]
      exact ⟨hnobridge, rfl⟩
    next hpc =>
      refine hmoves.callOk hcx ?_ (fun he hv => hbusy (he ▸ hcx.vacant hv)) ?_ ?_
      · intro hconn
        have hst := hcx.connects b hconn
        rw [hst] at hb
        contradiction
      · intro he b' hw
        have hp := hcx.waits b' hw
        rw [he, hpend] at hp
        cases hp
        exact absurd hw hpc
      · intro he b' hkind hr
        have hh := hcx.holds b' hkind hr
        rw [he, hnobridge] at hh
        contradiction
  · intro b' x _ hx
    rw [hcalls, if_neg (by simp [hx]), hx]
  · intro x hx
    rw [hcalls, if_neg (by simp [hx]), hx]
  · intro x hx
    rw [hcalls] at hx ⊢
    split at hx
    · simp [Pc.busy] at hx
    next hpc =>
      rw [if_neg hpc]
      exact ⟨hx, rfl⟩

theorem inv_closeDone {s : BridgeManager} (hi : s.Inv) {b e : ℕ}
    (hb : (s.bridges b).status = .closing e) : (s.closeDone b e).Inv := by
  have hi' := inv_finishClose hi hb
  have hpend := hi.closed b e hb
  have hinfo := hi.closing e b hpend
  unfold closeDone dropClosed
  dsimp only
  split
  next h =>
    have hm := mapped_of_pendingClose hi hpend
    have hkey : (s.bridges b).key = s.entryKey e := by rw [hinfo]
    refine inv_dropKey hi' ?_ ?_
    · intro x hx
      have hx' : s.entries.get (s.bridges b).key = some x := hx
      rw [hkey, hm] at hx'
      cases hx'
      exact ⟨h.2.1, h.2.2.2⟩
    · intro c hbusy hk
      rw [finishClose_calls] at hbusy hk
      by_cases hne : (s.calls c).pc = .awaitingClose b
      · simp [hne, Pc.busy] at hbusy
      rw [if_neg hne] at hbusy hk
      have hpc : (s.calls c).pc ≠ .idle := fun h => by simp [h, Pc.busy] at hbusy
      obtain ⟨hmc, -, hpc'⟩ := (hi.calls c).busy hbusy
      have hkc := ((hi.calls c).entry hpc).2
      rw [Mapped, hkc, hk, hkey, hm] at hmc
      cases hmc
      simp [hpend] at hpc'
  · exact hi'

theorem inv_giveBack {s : BridgeManager} (hi : s.Inv) (holder : Option ℕ) :
    (s.giveBack holder).Inv := by
  unfold giveBack
  split
  · exact hi
  next c =>
    split
    next b hpc =>
      have hcall := hi.calls c
      have hentry := hcall.entry (by simp [hpc])
      have hgot := hcall.got b (Or.inl hpc)
      refine inv_setCall hi (busy_lt hi (by simp [hpc])) ?_ (by simp [Pc.busy]) (by simp [hpc])
      constructor <;> simp [Pc.busy]
      · exact hentry
      · exact hgot
    · exact hi

/-- The close of an entry's bridge begins only when no `acquire` holds it any more. -/
theorem inv_beginClose {s : BridgeManager} (hi : s.Inv) {e b : ℕ} (hb : (s.heap e).bridge = some b)
    (hnone : ∀ c, (s.calls c).kind = .acquire → (s.calls c).entry = e →
      ∀ b', (s.calls c).pc ≠ .returned b') : (s.beginClose e b).Inv := by
  obtain ⟨hpend, hinfo⟩ := hi.recorded e b hb
  have hbusy : ¬ s.Vacant e := fun hv => by
    rw [Vacant, hb] at hv
    exact absurd hv.1 (by simp)
  have hheap : ∀ x, (s.beginClose e b).heap x =
      if x = e then { s.heap e with bridge := none, refCount := 0, pendingClose := some b }
      else s.heap x :=
    fun x => Function.update_apply s.heap e _ x
  have hbridges : ∀ x, (s.beginClose e b).bridges x =
      if x = b then ⟨s.entryKey e, .closing e⟩ else s.bridges x := by
    intro x
    by_cases hx : x = b <;> simp [beginClose, setEntry, setBridge, hx, hinfo]
  have hmoves : s.Moves (s.beginClose e b) b e := by
    refine ⟨rfl, ⟨rfl, rfl, rfl⟩, fun x hx => by rw [hheap, if_neg hx], by rw [hheap, if_pos rfl],
      fun x hx => by rw [hbridges, if_neg hx], ⟨by rw [hinfo], by rw [hbridges, if_pos rfl]⟩,
      mapped_of_recorded hi hb, by rw [hinfo]; simp, ?_, ?_, Or.inr (Or.inl ?_)⟩
    · rintro x (hx | hx)
      · exact recorded_unique hi hx hb
      · have hrec := hi.closing x b hx
        rw [hinfo] at hrec
        simp at hrec
    · rintro x (hx | hx)
      · rw [hb] at hx
        exact (Option.some.inj hx).symm
      · rw [hpend] at hx
        contradiction
    · rw [hheap, if_pos rfl, hbridges, if_pos rfl]
      exact ⟨rfl, rfl, rfl⟩
  refine inv_moves hi hmoves ?_ (fun _ _ _ hx => hx) (fun _ hx => hx) (fun _ hx => ⟨hx, rfl⟩)
  intro x
  have hcx := hi.calls x
  change (s.beginClose e b).CallOk (s.calls x)
  refine hmoves.callOk hcx ?_ (fun he hv => hbusy (he ▸ hcx.vacant hv)) ?_
    (fun he b' hkind hr => absurd hr (hnone x hkind he b'))
  · intro hconn
    have hst := hcx.connects b hconn
    rw [hinfo] at hst
    simp at hst
  · intro he b' hw
    have hp := hcx.waits b' hw
    rw [he, hpend] at hp
    contradiction

end UnoQ.Manager.BridgeManager
