import UnoQ.Manager.Invariant

/-!
# Bridges stay with their key

An entry records bridges of its own key only, and a call gets a bridge of the key of its descriptor.
This holds in every run: it does not need the run to be orderly.
-/

namespace UnoQ.Manager
open Transport Transition

/-- The bridge that a call opens, holds, or held. -/
def Pc.bridge : Pc → Option ℕ
  | .connecting b => some b
  | .returned b => some b
  | .released b => some b
  | _ => none

namespace BridgeManager

structure Keyed (s : BridgeManager) : Prop where
  entries : ∀ key e, s.entries.get key = some e → e < s.nextEntry ∧ s.entryKey e = key
  calls : ∀ c, (s.calls c).pc ≠ .idle →
    (s.calls c).entry < s.nextEntry ∧ s.entryKey (s.calls c).entry = (s.calls c).key
  recorded : ∀ e b, (s.heap e).bridge = some b →
    e < s.nextEntry ∧ b < s.nextBridge ∧ (s.bridges b).key = s.entryKey e
  got : ∀ c b, (s.calls c).pc.bridge = some b →
    b < s.nextBridge ∧ (s.bridges b).key = (s.calls c).key

theorem keyed_initial : initial.Keyed where
  entries := by simp [initial]
  calls := by simp [initial]
  recorded := by simp [initial, BridgeEntry.new]
  got := by simp [initial, Pc.bridge]

/-! ### The pieces of a step -/

theorem keyed_allocEntry {s : BridgeManager} (h : s.Keyed) (d : TransportDescriptor) :
    (s.allocEntry d).Keyed := by
  have hkey : ∀ x, x < s.nextEntry → (s.allocEntry d).entryKey x = s.entryKey x :=
    fun x hx => allocEntry_entryKey s d (by omega)
  constructor
  · intro key x hx
    rcases InsertMap.get_set_eq_some hx with ⟨hk, hnew⟩ | ⟨-, hold⟩
    · refine ⟨hnew ▸ Nat.lt_succ_self _, ?_⟩
      rw [entryKey, allocEntry_heap, if_pos hnew, hk]
      rfl
    · obtain ⟨hlt, hk⟩ := h.entries key x hold
      exact ⟨Nat.lt_succ_of_lt hlt, (hkey x hlt).trans hk⟩
  · intro c hc
    obtain ⟨hlt, hk⟩ := h.calls c hc
    exact ⟨Nat.lt_succ_of_lt hlt, (hkey _ hlt).trans hk⟩
  · intro e b hb
    rw [allocEntry_heap] at hb
    split at hb
    · contradiction
    · obtain ⟨hlt, hborn, hk⟩ := h.recorded e b hb
      exact ⟨Nat.lt_succ_of_lt hlt, hborn, hk.trans (hkey e hlt).symm⟩
  · exact h.got

theorem keyed_getEntry {s : BridgeManager} (h : s.Keyed) (d : TransportDescriptor) :
    (s.getEntry d).1.Keyed ∧
      (s.getEntry d).1.entries.get (describeTransport d) = some (s.getEntry d).2 := by
  unfold getEntry
  split
  next e he => exact ⟨h, he⟩
  · exact ⟨keyed_allocEntry h d, InsertMap.get_set_self ..⟩

theorem keyed_setEntry {s : BridgeManager} (h : s.Keyed) (e : ℕ) (entry : BridgeEntry)
    (hd : entry.descriptor = (s.heap e).descriptor)
    (hb : ∀ b, entry.bridge = some b → (s.heap e).bridge = some b ∨
      e < s.nextEntry ∧ b < s.nextBridge ∧ (s.bridges b).key = s.entryKey e) :
    (s.setEntry e entry).Keyed := by
  have hkey := setEntry_entryKey (s := s) hd
  constructor
  · intro key x hx
    rw [hkey]
    exact h.entries key x hx
  · intro c hc
    rw [hkey]
    exact h.calls c hc
  · intro x b hx
    rw [hkey]
    rw [setEntry_heap] at hx
    split at hx
    next hxe =>
      rw [hxe]
      rcases hb b hx with hold | hnew
      · exact h.recorded e b hold
      · exact hnew
    · exact h.recorded x b hx
  · exact h.got

theorem keyed_setCall {s : BridgeManager} (h : s.Keyed) {c : ℕ} {call : Call}
    (hentry : call.entry < s.nextEntry ∧ s.entryKey call.entry = call.key)
    (hb : ∀ b, call.pc.bridge = some b → b < s.nextBridge ∧ (s.bridges b).key = call.key) :
    (s.setCall c call).Keyed := by
  refine ⟨h.entries, ?_, h.recorded, ?_⟩
  · intro x hx
    rw [setCall_calls] at hx ⊢
    split
    · exact hentry
    next hne =>
      rw [if_neg hne] at hx
      exact h.calls x hx
  · intro x b hx
    rw [setCall_calls] at hx ⊢
    split
    next hxc =>
      rw [if_pos hxc] at hx
      exact hb b hx
    next hne =>
      rw [if_neg hne] at hx
      exact h.got x b hx

theorem keyed_setPc {s : BridgeManager} (h : s.Keyed) {c : ℕ} (pc : Pc)
    (hc : (s.calls c).pc ≠ .idle)
    (hb : ∀ b, pc.bridge = some b → b < s.nextBridge ∧ (s.bridges b).key = (s.calls c).key) :
    (s.setPc c pc).Keyed :=
  keyed_setCall h (h.calls c hc) hb

theorem setBridge_key (s : BridgeManager) (b : ℕ) (key : String) (status : Status) (x : ℕ) :
    ((s.setBridge b key status).bridges x).key = if x = b then key else (s.bridges x).key := by
  refine (congrArg BridgeInfo.key (Function.update_apply s.bridges b ⟨key, status⟩ x)).trans ?_
  split <;> rfl

/-- A bridge keeps its key, whatever becomes of it. -/
theorem keyed_setBridge {s : BridgeManager} (h : s.Keyed) {b : ℕ} (key : String) (status : Status)
    (hb : b < s.nextBridge → key = (s.bridges b).key) : (s.setBridge b key status).Keyed := by
  have hkey : ∀ x, x < s.nextBridge → ((s.setBridge b key status).bridges x).key =
      (s.bridges x).key := by
    intro x hx
    rw [setBridge_key]
    split
    next hxb =>
      rw [hxb] at hx ⊢
      exact hb hx
    · rfl
  refine ⟨h.entries, h.calls, ?_, ?_⟩
  · intro e x hx
    obtain ⟨hlt, hborn, hk⟩ := h.recorded e x hx
    exact ⟨hlt, hborn, (hkey x hborn).trans hk⟩
  · intro c x hx
    obtain ⟨hborn, hk⟩ := h.got c x hx
    exact ⟨hborn, (hkey x hborn).trans hk⟩

theorem keyed_deleteKey {s : BridgeManager} (h : s.Keyed) (key : String) :
    Keyed { s with entries := s.entries.delete key } :=
  ⟨fun k e hk => h.entries k e (InsertMap.get_delete_eq_some hk).2, h.calls, h.recorded, h.got⟩

theorem keyed_addRef {s : BridgeManager} (h : s.Keyed) (e : ℕ) (n : ℤ) : (s.addRef e n).Keyed :=
  keyed_setEntry h _ _ rfl fun _ hb => Or.inl hb

theorem keyed_countOwner {s : BridgeManager} (h : s.Keyed) (call : Call) (n : ℤ) :
    (s.countOwner call n).Keyed := by
  unfold countOwner
  cases call.kind with
  | acquire => exact keyed_addRef h ..
  | getBridge => exact h

/-! ### The operations -/

theorem keyed_proceed {s : BridgeManager} (h : s.Keyed) (c : ℕ) {call : Call}
    (hentry : call.entry < s.nextEntry ∧ s.entryKey call.entry = call.key) :
    (s.proceed c call).Keyed := by
  have hcount := keyed_countOwner h call 1
  obtain ⟨-, -, -, hkey⟩ := countOwner_same s call 1 call.entry
  obtain ⟨-, hnext, -⟩ := countOwner_rest s call 1
  have hentry' : call.entry < (s.countOwner call 1).nextEntry ∧
      (s.countOwner call 1).entryKey call.entry = call.key := by
    rw [hnext, hkey]
    exact hentry
  unfold proceed takeBridge
  split
  · exact keyed_setCall hcount hentry' (by simp [Pc.bridge])
  next b hb =>
    refine keyed_setCall hcount hentry' fun b' hb' => ?_
    cases hb'
    obtain ⟨-, hborn, hk⟩ := hcount.recorded _ b hb
    exact ⟨hborn, hk.trans hentry'.2⟩

theorem keyed_start {s : BridgeManager} (h : s.Keyed) (kind : Kind) (d : TransportDescriptor)
    (cred : Bool) : (s.start kind d cred).Keyed := by
  obtain ⟨hgot, hget⟩ := keyed_getEntry h d
  have hentry := hgot.entries _ _ hget
  have hreserved : Keyed { (s.getEntry d).1 with nextCall := (s.getEntry d).1.nextCall + 1 } :=
    ⟨hgot.entries, hgot.calls, hgot.recorded, hgot.got⟩
  unfold start
  dsimp only
  split
  · exact keyed_setCall hreserved hentry (by simp [Pc.bridge])
  · exact keyed_proceed hreserved _ hentry

theorem keyed_built {s : BridgeManager} (h : s.Keyed) {c : ℕ} (hc : (s.calls c).pc = .building) :
    (s.built c).Keyed := by
  have hborn := keyed_setBridge h (b := s.nextBridge) (s.calls c).key .connecting
    fun hlt => absurd hlt (Nat.lt_irrefl _)
  have hgrown : Keyed { s.setBridge s.nextBridge (s.calls c).key .connecting with
      nextBridge := s.nextBridge + 1 } := by
    refine ⟨hborn.entries, hborn.calls, ?_, ?_⟩
    · intro e b hb
      obtain ⟨hlt, hb', hk⟩ := hborn.recorded e b hb
      exact ⟨hlt, Nat.lt_succ_of_lt hb', hk⟩
    · intro c' b hb
      obtain ⟨hb', hk⟩ := hborn.got c' b hb
      exact ⟨Nat.lt_succ_of_lt hb', hk⟩
  unfold built
  refine keyed_setPc hgrown _ (by simp [setBridge, hc]) fun b hb => ?_
  cases hb
  refine ⟨Nat.lt_succ_self _, ?_⟩
  exact (setBridge_key s s.nextBridge _ .connecting s.nextBridge).trans (if_pos rfl)

theorem keyed_connected {s : BridgeManager} (h : s.Keyed) {c b : ℕ}
    (hc : (s.calls c).pc = .connecting b) : (s.connected c b).Keyed := by
  obtain ⟨hborn, hk⟩ := h.got c b (by rw [hc]; rfl)
  have hidle : (s.calls c).pc ≠ .idle := by simp [hc]
  obtain ⟨hlt, hkey⟩ := h.calls c hidle
  have hopened := keyed_setBridge h (b := b) _ .opened fun _ => hk.symm
  have hbridge : ((s.setBridge b (s.calls c).key .opened).bridges b).key = (s.calls c).key := by
    rw [setBridge_key, if_pos rfl]
  unfold connected
  dsimp only
  have hset := keyed_setEntry hopened (s.calls c).entry
    { s.heap (s.calls c).entry with bridge := some b } rfl fun b' hb' => by
      cases hb'
      exact Or.inr ⟨hlt, hborn, hbridge.trans hkey.symm⟩
  refine keyed_setPc hset _ hidle fun b' hb' => ?_
  cases hb'
  exact ⟨hborn, hbridge⟩

theorem keyed_connectFailed {s : BridgeManager} (h : s.Keyed) {c : ℕ}
    (hc : (s.calls c).pc ≠ .idle) : (s.connectFailed c).Keyed := by
  have hcount := keyed_countOwner (keyed_setPc h .failed hc (by simp [Pc.bridge]))
    (s.calls c) (-1)
  unfold connectFailed dropFailed
  dsimp only
  split
  · exact keyed_deleteKey hcount _
  · exact hcount

theorem keyed_giveBack {s : BridgeManager} (h : s.Keyed) (holder : Option ℕ) :
    (s.giveBack holder).Keyed := by
  unfold giveBack
  split
  · exact h
  next c =>
    split
    next b hb =>
      refine keyed_setPc h _ (by simp [hb]) fun b' hb' => ?_
      cases hb'
      exact h.got c b (by rw [hb]; rfl)
    · exact h

theorem keyed_release {s : BridgeManager} (h : s.Keyed) (d : TransportDescriptor)
    (holder : Option ℕ) : (s.release d holder).Keyed := by
  have hgive := keyed_giveBack h holder
  unfold release
  split
  · exact hgive
  next e _ =>
    have hcount := keyed_addRef hgive e (-1)
    unfold releaseRef
    dsimp only
    split
    · exact hcount
    next b hb =>
      split
      · have hset := keyed_setEntry hcount e { ((s.giveBack holder).addRef e (-1)).heap e with
          bridge := none, refCount := 0, pendingClose := some b } rfl (by simp)
        exact keyed_setBridge hset _ _ fun _ => rfl
      · exact hcount

theorem keyed_closeDone {s : BridgeManager} (h : s.Keyed) (b e : ℕ) : (s.closeDone b e).Keyed := by
  have hfinish : (s.finishClose b e).Keyed := by
    have hset := keyed_setEntry (keyed_setBridge h (b := b) _ .closed fun _ => rfl) e { s.heap e with
      pendingClose := if (s.heap e).pendingClose = some b then none else (s.heap e).pendingClose }
      rfl fun _ hb => Or.inl hb
    refine ⟨hset.entries, ?_, hset.recorded, ?_⟩
    · intro c hc
      rw [finishClose_calls] at hc ⊢
      split
      next hwait =>
        have hidle : (s.calls c).pc ≠ .idle := by simp [hwait]
        exact hset.calls c hidle
      next hne =>
        rw [if_neg hne] at hc
        exact hset.calls c hc
    · intro c x hx
      rw [finishClose_calls] at hx ⊢
      split
      next hwait =>
        rw [if_pos hwait] at hx
        contradiction
      next hne =>
        rw [if_neg hne] at hx
        exact hset.got c x hx
  unfold closeDone dropClosed
  dsimp only
  split
  · exact keyed_deleteKey hfinish _
  · exact hfinish

theorem keyed_addMethodRef {s : BridgeManager} (h : s.Keyed) (d : TransportDescriptor)
    (method : String) : (s.addMethodRef d method).1.Keyed :=
  keyed_setEntry (keyed_getEntry h d).1 _ _ rfl fun _ hb => Or.inl hb

theorem keyed_removeMethodRef {s : BridgeManager} (h : s.Keyed) (d : TransportDescriptor)
    (method : String) : (s.removeMethodRef d method).1.Keyed := by
  unfold removeMethodRef
  dsimp only
  split <;> exact keyed_setEntry (keyed_getEntry h d).1 _ _ rfl fun _ hb => Or.inl hb

theorem keyed_step {s t : BridgeManager} {ev : Event} (h : s.Keyed) (hs : s.step ev = some t) :
    t.Keyed := by
  cases step_takes hs with
  | acquire d cred => exact keyed_start h ..
  | getBridge d cred => exact keyed_start h ..
  | release d holder => exact keyed_release h ..
  | addMethodRef d method => exact keyed_addMethodRef h ..
  | removeMethodRef d method => exact keyed_removeMethodRef h ..
  | resume c hc => exact keyed_proceed h c (h.calls c (by simp [hc]))
  | built c hc => exact keyed_built h hc.1
  | buildFailed c hc => exact keyed_connectFailed h (by simp [hc])
  | connected c _ hc _ => exact keyed_connected h hc
  | connectFailed c _ hc =>
    exact keyed_connectFailed (keyed_setBridge h _ .closed fun _ => rfl) (by simp [setBridge, hc])
  | closeDone b e _ => exact keyed_closeDone h b e

/-! ### What a step does to bridges and calls -/

/-- Bridges keep their keys and calls their descriptors, and none begins. -/
structure Steady (s t : BridgeManager) : Prop where
  key : ∀ b, (t.bridges b).key = (s.bridges b).key
  next : t.nextBridge = s.nextBridge ∧ t.nextCall = s.nextCall
  descriptor : ∀ c, (t.calls c).descriptor = (s.calls c).descriptor
  begun : ∀ c, (t.calls c).pc ≠ .idle → (s.calls c).pc ≠ .idle

theorem Steady.refl (s : BridgeManager) : s.Steady s :=
  ⟨fun _ => rfl, ⟨rfl, rfl⟩, fun _ => rfl, fun _ h => h⟩

theorem Steady.trans {s t u : BridgeManager} (h : s.Steady t) (h' : t.Steady u) : s.Steady u where
  key b := (h'.key b).trans (h.key b)
  next := ⟨h'.next.1.trans h.next.1, h'.next.2.trans h.next.2⟩
  descriptor c := (h'.descriptor c).trans (h.descriptor c)
  begun c hc := h.begun c (h'.begun c hc)

theorem Steady.of_eq {s t : BridgeManager} (hb : t.bridges = s.bridges)
    (hn : t.nextBridge = s.nextBridge ∧ t.nextCall = s.nextCall) (hc : t.calls = s.calls) :
    s.Steady t :=
  ⟨fun b => by rw [hb], hn, fun c => by rw [hc], fun c => by rw [hc]; exact id⟩

theorem steady_setPc (s : BridgeManager) {c : ℕ} (pc : Pc) (hc : (s.calls c).pc ≠ .idle) :
    s.Steady (s.setPc c pc) := by
  refine ⟨fun _ => rfl, ⟨rfl, rfl⟩, fun x => ?_, fun x hx => ?_⟩
  · rw [setPc_calls]
    split
    next hxc => rw [hxc]
    · rfl
  · rw [setPc_calls] at hx
    split at hx
    next hxc => exact hxc ▸ hc
    · exact hx

theorem steady_proceed (s : BridgeManager) {c : ℕ} (hc : (s.calls c).pc ≠ .idle) :
    s.Steady (s.proceed c (s.calls c)) := by
  obtain ⟨-, -, hbridges, hcalls, hnext, hnc⟩ := countOwner_rest s (s.calls c) 1
  have hcount : s.Steady (s.countOwner (s.calls c) 1) := .of_eq hbridges ⟨hnext, hnc⟩ hcalls
  have hset : ∀ pc, s.Steady ((s.countOwner (s.calls c) 1).setCall c { s.calls c with pc := pc }) := by
    intro pc
    have hpc := steady_setPc (s.countOwner (s.calls c) 1) pc (c := c) (by rw [hcalls]; exact hc)
    unfold setPc at hpc
    rw [hcalls] at hpc
    exact hcount.trans hpc
  unfold proceed takeBridge
  split <;> exact hset _

/-- A call that begins changes no bridge and no other call. -/
theorem start_bridges (s : BridgeManager) (kind : Kind) (d : TransportDescriptor) (cred : Bool) :
    (s.start kind d cred).bridges = s.bridges ∧
      (s.start kind d cred).nextBridge = s.nextBridge ∧
      (s.start kind d cred).nextCall = s.nextCall + 1 ∧
      ((s.start kind d cred).calls s.nextCall).descriptor = d ∧
      ∀ c, c ≠ s.nextCall → (s.start kind d cred).calls c = s.calls c := by
  obtain ⟨hcalls, hnc⟩ := getEntry_calls s d
  have hgot : (s.getEntry d).1.bridges = s.bridges ∧ (s.getEntry d).1.nextBridge = s.nextBridge := by
    unfold getEntry
    split <;> exact ⟨rfl, rfl⟩
  unfold start proceed takeBridge
  dsimp only
  rw [hnc]
  split
  · refine ⟨hgot.1, hgot.2, rfl, ?_, fun c hc => ?_⟩
    · rw [setCall_calls, if_pos rfl]
    · rw [setCall_calls, if_neg hc]
      exact congrFun hcalls c
  · obtain ⟨-, -, hbridges, hcalls', hnext, hnc'⟩ := countOwner_rest
      { (s.getEntry d).1 with nextCall := s.nextCall + 1 } ⟨kind, d, cred, (s.getEntry d).2, .resuming⟩ 1
    split
    all_goals
      refine ⟨hbridges.trans hgot.1, hnext.trans hgot.2, hnc', ?_, fun c hc => ?_⟩
      · rw [setCall_calls, if_pos rfl]
      · rw [setCall_calls, if_neg hc, hcalls']
        exact congrFun hcalls c

theorem steady_setBridge (s : BridgeManager) (b : ℕ) (status : Status) :
    s.Steady (s.setBridge b (s.bridges b).key status) := by
  refine ⟨fun x => ?_, ⟨rfl, rfl⟩, fun _ => rfl, fun _ hx => hx⟩
  rw [setBridge_key]
  split
  next hx => rw [hx]
  · rfl

theorem steady_setEntry (s : BridgeManager) (e : ℕ) (entry : BridgeEntry) :
    s.Steady (s.setEntry e entry) := .of_eq rfl ⟨rfl, rfl⟩ rfl

theorem steady_beginClose (s : BridgeManager) (e b : ℕ) : s.Steady (s.beginClose e b) :=
  (steady_setEntry s e { s.heap e with bridge := none, refCount := 0, pendingClose := some b }).trans
    (steady_setBridge _ b (.closing e))

theorem steady_getEntry (s : BridgeManager) (d : TransportDescriptor) :
    s.Steady (s.getEntry d).1 := by
  unfold getEntry
  split
  · exact .refl s
  · exact .of_eq rfl ⟨rfl, rfl⟩ rfl

theorem steady_connectFailed (s : BridgeManager) {c : ℕ} (hc : (s.calls c).pc ≠ .idle) :
    s.Steady (s.connectFailed c) := by
  obtain ⟨-, -, hb, hcalls, hn, hnc⟩ := countOwner_rest (s.setPc c .failed) (s.calls c) (-1)
  refine (steady_setPc s .failed hc).trans ?_
  unfold connectFailed dropFailed
  dsimp only
  split <;> exact .of_eq hb ⟨hn, hnc⟩ hcalls

theorem steady_release (s : BridgeManager) (d : TransportDescriptor) (holder : Option ℕ) :
    s.Steady (s.release d holder) := by
  have hgive : s.Steady (s.giveBack holder) := by
    unfold giveBack
    split
    · exact .refl s
    · split
      next b hb => exact steady_setPc s _ (by simp [hb])
      · exact .refl s
  unfold release
  split
  · exact hgive
  next e _ =>
    refine hgive.trans ?_
    unfold releaseRef
    dsimp only
    have hcount := steady_setEntry (s.giveBack holder) e
      { (s.giveBack holder).heap e with refCount := ((s.giveBack holder).heap e).refCount + -1 }
    split
    · exact hcount
    · split
      · exact hcount.trans (steady_beginClose ..)
      · exact hcount

theorem steady_closeDone (s : BridgeManager) (b e : ℕ) : s.Steady (s.closeDone b e) := by
  have hfinish : s.Steady (s.finishClose b e) := by
    refine ⟨(steady_setBridge s b .closed).key, ⟨rfl, rfl⟩, fun x => ?_, fun x hx => ?_⟩
    · rw [finishClose_calls]
      split <;> rfl
    · rw [finishClose_calls] at hx
      split at hx
      next hwait => simp [hwait]
      · exact hx
  refine hfinish.trans ?_
  unfold closeDone dropClosed
  dsimp only
  split
  · exact .of_eq rfl ⟨rfl, rfl⟩ rfl
  · exact .refl _

theorem built_bridges (s : BridgeManager) {c : ℕ} (hc : (s.calls c).pc ≠ .idle) :
    ((s.built c).nextBridge = s.nextBridge + 1 ∧ (s.built c).nextCall = s.nextCall) ∧
      (∀ b, ((s.built c).bridges b).key =
        if b = s.nextBridge then (s.calls c).key else (s.bridges b).key) ∧
      (∀ x, ((s.built c).calls x).descriptor = (s.calls x).descriptor) ∧
      ∀ x, ((s.built c).calls x).pc ≠ .idle → (s.calls x).pc ≠ .idle :=
  ⟨⟨rfl, rfl⟩, fun b => setBridge_key s s.nextBridge _ .connecting b,
    (steady_setPc s (.connecting s.nextBridge) hc).descriptor,
    (steady_setPc s (.connecting s.nextBridge) hc).begun⟩

theorem steady_addMethodRef (s : BridgeManager) (d : TransportDescriptor) (method : String) :
    s.Steady (s.addMethodRef d method).1 :=
  (steady_getEntry s d).trans (steady_setEntry ..)

theorem steady_removeMethodRef (s : BridgeManager) (d : TransportDescriptor) (method : String) :
    s.Steady (s.removeMethodRef d method).1 := by
  refine (steady_getEntry s d).trans ?_
  unfold removeMethodRef
  dsimp only
  split <;> exact steady_setEntry ..

/-- An event that begins a call or a bridge. -/
def Event.begins : Event → Bool
  | .acquire .. => true
  | .getBridge .. => true
  | .built _ => true
  | _ => false

theorem steady_step {s t : BridgeManager} {ev : Event} (h : s.Keyed) (hs : s.step ev = some t)
    (hev : ev.begins = false) : s.Steady t := by
  cases step_takes hs with
  | acquire d cred => contradiction
  | getBridge d cred => contradiction
  | release d holder => exact steady_release ..
  | addMethodRef d method => exact steady_addMethodRef ..
  | removeMethodRef d method => exact steady_removeMethodRef ..
  | resume c hc => exact steady_proceed _ (by simp [hc])
  | built c _ => contradiction
  | buildFailed c hc => exact steady_connectFailed _ (by simp [hc])
  | connected c b hc _ =>
    have hkey := (h.got c b (by rw [hc]; rfl)).2
    have hopen := steady_setBridge s b .opened
    rw [hkey] at hopen
    refine hopen.trans ((steady_setEntry _ (s.calls c).entry
      { s.heap (s.calls c).entry with bridge := some b }).trans
      (steady_setPc _ (.returned b) ?_))
    change (s.calls c).pc ≠ .idle
    simp [hc]
  | connectFailed c b hc =>
    exact (steady_setBridge s b .closed).trans (steady_connectFailed _ (by simp [setBridge, hc]))
  | closeDone b _ _ => exact steady_closeDone ..

/-! ### What lasts -/

/-- What has begun keeps its key or its descriptor. -/
structure Lasts (s t : BridgeManager) : Prop where
  key : ∀ b < s.nextBridge, b < t.nextBridge ∧ (t.bridges b).key = (s.bridges b).key
  descriptor : ∀ c < s.nextCall,
    c < t.nextCall ∧ (t.calls c).descriptor = (s.calls c).descriptor

theorem Steady.lasts {s t : BridgeManager} (h : s.Steady t) : s.Lasts t where
  key b hb := ⟨h.next.1.symm ▸ hb, h.key b⟩
  descriptor c hc := ⟨h.next.2.symm ▸ hc, h.descriptor c⟩

theorem Lasts.trans {s t u : BridgeManager} (h : s.Lasts t) (h' : t.Lasts u) : s.Lasts u where
  key b hb := by
    obtain ⟨hlt, hkey⟩ := h.key b hb
    obtain ⟨hlt', hkey'⟩ := h'.key b hlt
    exact ⟨hlt', hkey'.trans hkey⟩
  descriptor c hc := by
    obtain ⟨hlt, hd⟩ := h.descriptor c hc
    obtain ⟨hlt', hd'⟩ := h'.descriptor c hlt
    exact ⟨hlt', hd'.trans hd⟩

theorem lasts_start (s : BridgeManager) (kind : Kind) (d : TransportDescriptor) (cred : Bool) :
    s.Lasts (s.start kind d cred) := by
  obtain ⟨hbridges, hnext, hcalls, -, hold⟩ := start_bridges s kind d cred
  refine ⟨fun b hb => ?_, fun c hc => ?_⟩
  · rw [hbridges, hnext]
    exact ⟨hb, rfl⟩
  · rw [hcalls, hold c (by omega)]
    exact ⟨by omega, rfl⟩

theorem lasts_step {s t : BridgeManager} {ev : Event} (h : s.Keyed) (hs : s.step ev = some t) :
    s.Lasts t := by
  cases hev : ev.begins with
  | false => exact (steady_step h hs hev).lasts
  | true =>
    cases step_takes hs with
    | acquire d cred => exact lasts_start ..
    | getBridge d cred => exact lasts_start ..
    | built c hc =>
      obtain ⟨⟨hnext, hcalls⟩, hkey, hd, -⟩ := built_bridges s (c := c) (by simp [hc.1])
      refine ⟨fun b hb => ⟨by omega, ?_⟩, fun x hx => ⟨by omega, hd x⟩⟩
      rw [hkey, if_neg (by omega)]
    | _ => contradiction

end BridgeManager

end UnoQ.Manager
