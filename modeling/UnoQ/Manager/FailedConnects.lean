import UnoQ.Manager.Keys

/-!
# A connect that fails

`acquire` and `getBridge` make the entry of a new key before they wait. `acquire` takes its entry away
when the connect fails, and with it one that had been there, if nothing keeps that alive. `getBridge` has
no `catch`, and leaves the entry it has made.
-/

namespace UnoQ.Manager
open Transport Transition

namespace BridgeManager

/-- The entry that the map has under a key. -/
def look (s : BridgeManager) (key : String) : Option BridgeEntry := (s.entries.get key).map s.heap

/-- The key that an event is about. -/
def eventKey (s : BridgeManager) : Event → String
  | .acquire d _ => describeTransport d
  | .getBridge d _ => describeTransport d
  | .release d _ => describeTransport d
  | .addMethodRef d _ => describeTransport d
  | .removeMethodRef d _ => describeTransport d
  | .resume c => (s.calls c).key
  | .built c => (s.calls c).key
  | .buildFailed c => (s.calls c).key
  | .connected c => (s.calls c).key
  | .connectFailed c => (s.calls c).key
  | .closeDone b => (s.bridges b).key

/-! ### A step leaves other keys alone -/

/-- What changes is filed under the key. -/
structure Confined (s t : BridgeManager) (key : String) : Prop where
  next : s.nextEntry ≤ t.nextEntry
  filed : ∀ e < s.nextEntry, t.entryKey e = s.entryKey e
  entries : ∀ key', key' ≠ key → t.entries.get key' = s.entries.get key'
  heap : ∀ e < s.nextEntry, s.entryKey e ≠ key → t.heap e = s.heap e

theorem Confined.of_eq {s t : BridgeManager} {key : String} (hnext : t.nextEntry = s.nextEntry)
    (hentries : t.entries = s.entries) (hheap : t.heap = s.heap) : s.Confined t key where
  next := Nat.le_of_eq hnext.symm
  filed e _ := by unfold entryKey; rw [hheap]
  entries _ _ := by rw [hentries]
  heap _ _ _ := by rw [hheap]

theorem Confined.trans {s t u : BridgeManager} {key : String} (h : s.Confined t key)
    (h' : t.Confined u key) : s.Confined u key where
  next := Nat.le_trans h.next h'.next
  filed e he := (h'.filed e (Nat.lt_of_lt_of_le he h.next)).trans (h.filed e he)
  entries key' hk := (h'.entries key' hk).trans (h.entries key' hk)
  heap e he hk := by
    have hk' : t.entryKey e ≠ key := by rwa [h.filed e he]
    exact (h'.heap e (Nat.lt_of_lt_of_le he h.next) hk').trans (h.heap e he hk)

theorem Confined.look {s t : BridgeManager} {key key' : String} (h : s.Confined t key) (hk : s.Keyed)
    (hne : key' ≠ key) : t.look key' = s.look key' := by
  unfold BridgeManager.look
  rw [h.entries key' hne]
  cases hget : s.entries.get key' with
  | none => rfl
  | some e =>
    obtain ⟨hlt, hkey⟩ := hk.entries key' e hget
    rw [Option.map_some, Option.map_some, h.heap e hlt (by rwa [hkey])]

theorem confined_setEntry (s : BridgeManager) (e : ℕ) (entry : BridgeEntry)
    (hd : entry.descriptor = (s.heap e).descriptor) : s.Confined (s.setEntry e entry) (s.entryKey e) where
  next := Nat.le_refl _
  filed x _ := setEntry_entryKey hd x
  entries _ _ := rfl
  heap x _ hx := by
    have hne : x ≠ e := fun he => hx (by rw [he])
    rw [setEntry_heap, if_neg hne]

theorem confined_deleteKey (s : BridgeManager) (key : String) :
    s.Confined { s with entries := s.entries.delete key } key where
  next := Nat.le_refl _
  filed _ _ := rfl
  entries _ hk := InsertMap.get_delete_ne s.entries (Ne.symm hk)
  heap _ _ _ := rfl

theorem confined_getEntry (s : BridgeManager) (d : TransportDescriptor) :
    s.Confined (s.getEntry d).1 (describeTransport d) := by
  unfold getEntry
  split
  · exact .of_eq rfl rfl rfl
  · constructor
    · exact Nat.le_succ _
    · exact fun e he => allocEntry_entryKey s d (by omega)
    · exact fun key' hk => InsertMap.get_set_ne s.entries _ (Ne.symm hk)
    · intro e he _
      rw [allocEntry_heap, if_neg (by omega)]

theorem confined_countOwner (s : BridgeManager) (call : Call) (n : ℤ) :
    s.Confined (s.countOwner call n) (s.entryKey call.entry) := by
  unfold countOwner
  cases call.kind with
  | acquire => exact confined_setEntry s _ _ rfl
  | getBridge => exact .of_eq rfl rfl rfl

theorem confined_proceed (s : BridgeManager) (c : ℕ) (call : Call) :
    s.Confined (s.proceed c call) (s.entryKey call.entry) := by
  refine (confined_countOwner s call 1).trans ?_
  unfold proceed takeBridge
  split <;> exact .of_eq rfl rfl rfl

theorem confined_start {s : BridgeManager} (h : s.Keyed) (kind : Kind) (d : TransportDescriptor)
    (cred : Bool) : s.Confined (s.start kind d cred) (describeTransport d) := by
  obtain ⟨hgot, hget⟩ := keyed_getEntry h d
  have hentry := (hgot.entries _ _ hget).2
  refine (confined_getEntry s d).trans ?_
  unfold start
  dsimp only
  split
  · exact .of_eq rfl rfl rfl
  · have hproceed := confined_proceed
      { (s.getEntry d).1 with nextCall := (s.getEntry d).1.nextCall + 1 } (s.getEntry d).1.nextCall
      ⟨kind, d, cred, (s.getEntry d).2, .resuming⟩
    have hkey : entryKey { (s.getEntry d).1 with nextCall := (s.getEntry d).1.nextCall + 1 }
        (s.getEntry d).2 = describeTransport d := hentry
    rw [hkey] at hproceed
    refine Confined.trans ?_ hproceed
    exact .of_eq rfl rfl rfl

theorem confined_connectFailed {s : BridgeManager} (h : s.Keyed) {c : ℕ} (hc : (s.calls c).pc ≠ .idle) :
    s.Confined (s.connectFailed c) (s.calls c).key := by
  have hkey := (h.calls c hc).2
  have hcount := confined_countOwner (s.setPc c .failed) (s.calls c) (-1)
  have hsame : (s.setPc c .failed).entryKey (s.calls c).entry = (s.calls c).key := hkey
  rw [hsame] at hcount
  have hset : s.Confined (s.setPc c .failed) (s.calls c).key := .of_eq rfl rfl rfl
  unfold connectFailed dropFailed
  dsimp only
  split
  · exact (hset.trans hcount).trans (confined_deleteKey _ _)
  · exact hset.trans hcount

theorem confined_release {s : BridgeManager} (h : s.Keyed) (d : TransportDescriptor)
    (holder : Option ℕ) : s.Confined (s.release d holder) (describeTransport d) := by
  obtain ⟨hentries, hheap, hnext, -⟩ := giveBack_rest s holder
  have hgiven : s.Confined (s.giveBack holder) (describeTransport d) := .of_eq hnext hentries hheap
  unfold release
  split
  · exact hgiven
  next e he =>
    obtain ⟨hlt, hkey⟩ := h.entries _ e he
    have hcount : (s.giveBack holder).Confined ((s.giveBack holder).addRef e (-1))
        ((s.giveBack holder).entryKey e) := confined_setEntry _ _ _ rfl
    rw [hgiven.filed e hlt, hkey] at hcount
    have hcounted := hgiven.trans hcount
    unfold releaseRef
    dsimp only
    split
    · exact hcounted
    next b hb =>
      split
      · have hclose := confined_setEntry ((s.giveBack holder).addRef e (-1)) e
          { ((s.giveBack holder).addRef e (-1)).heap e with
            bridge := none, refCount := 0, pendingClose := some b } rfl
        rw [hcounted.filed e hlt, hkey] at hclose
        exact (hcounted.trans hclose).trans (.of_eq rfl rfl rfl)
      · exact hcounted

/-- The entry of a background close is filed under the key of its bridge. -/
def ClosesOwn (s : BridgeManager) : Prop :=
  ∀ b e, (s.bridges b).status = .closing e →
    b < s.nextBridge ∧ e < s.nextEntry ∧ s.entryKey e = (s.bridges b).key

theorem confined_closeDone {s : BridgeManager} (h : s.ClosesOwn) {b e : ℕ}
    (hb : (s.bridges b).status = .closing e) : s.Confined (s.closeDone b e) (s.bridges b).key := by
  obtain ⟨-, hlt, hkey⟩ := h b e hb
  have hset := confined_setEntry (s.setBridge b (s.bridges b).key .closed) e
    { s.heap e with
      pendingClose := if (s.heap e).pendingClose = some b then none else (s.heap e).pendingClose } rfl
  have hkey' : (s.setBridge b (s.bridges b).key .closed).entryKey e = (s.bridges b).key := hkey
  rw [hkey'] at hset
  have hbridge : s.Confined (s.setBridge b (s.bridges b).key .closed) (s.bridges b).key :=
    .of_eq rfl rfl rfl
  have hfinish : s.Confined (s.finishClose b e) (s.bridges b).key :=
    (hbridge.trans hset).trans (.of_eq rfl rfl rfl)
  unfold closeDone dropClosed
  dsimp only
  split
  · exact hfinish.trans (confined_deleteKey _ _)
  · exact hfinish

theorem confined_step {s t : BridgeManager} {ev : Event} (h : s.Keyed) (hown : s.ClosesOwn)
    (hs : s.step ev = some t) : s.Confined t (s.eventKey ev) := by
  cases step_takes hs with
  | acquire d cred => exact confined_start h ..
  | getBridge d cred => exact confined_start h ..
  | release d holder => exact confined_release h d holder
  | addMethodRef d method =>
    obtain ⟨hgot, hget⟩ := keyed_getEntry h d
    have hset := confined_setEntry (s.getEntry d).1 (s.getEntry d).2
      { (s.getEntry d).1.heap (s.getEntry d).2 with
        methodRefs := ((s.getEntry d).1.heap (s.getEntry d).2).methodRefs.set method
          ((((s.getEntry d).1.heap (s.getEntry d).2).methodRefs.get method).getD 0 + 1) } rfl
    rw [(hgot.entries _ _ hget).2] at hset
    exact (confined_getEntry s d).trans hset
  | removeMethodRef d method =>
    obtain ⟨hgot, hget⟩ := keyed_getEntry h d
    have hkey := (hgot.entries _ _ hget).2
    refine (confined_getEntry s d).trans ?_
    unfold removeMethodRef
    dsimp only
    split
    all_goals
      rw [← hkey]
      exact confined_setEntry _ _ _ rfl
  | resume c hc =>
    have hproceed := confined_proceed s c (s.calls c)
    rw [(h.calls c (by simp [hc])).2] at hproceed
    exact hproceed
  | built c _ => exact .of_eq rfl rfl rfl
  | buildFailed c hc => exact confined_connectFailed h (by simp [hc])
  | connected c b hc _ =>
    have hset := confined_setEntry (s.setBridge b (s.calls c).key .opened)
      (s.calls c).entry { s.heap (s.calls c).entry with bridge := some b } rfl
    have hkey : (s.setBridge b (s.calls c).key .opened).entryKey (s.calls c).entry =
        (s.calls c).key := (h.calls c (by simp [hc])).2
    rw [hkey] at hset
    have hbridge : s.Confined (s.setBridge b (s.calls c).key .opened) (s.calls c).key :=
      .of_eq rfl rfl rfl
    exact (hbridge.trans hset).trans (.of_eq rfl rfl rfl)
  | connectFailed c b hc =>
    have hbridge : s.Confined (s.setBridge b (s.bridges b).key .closed) (s.calls c).key :=
      .of_eq rfl rfl rfl
    exact hbridge.trans (confined_connectFailed (keyed_setBridge h _ .closed fun _ => rfl)
      (by simp [setBridge, hc]))
  | closeDone b _ hb => exact confined_closeDone hown hb

/-! ### Background closes -/

/-- No background close begins. -/
def ClosesNone (s t : BridgeManager) : Prop :=
  ∀ b e, (t.bridges b).status = .closing e → (s.bridges b).status = .closing e

theorem ClosesNone.of_eq {s t : BridgeManager} (h : t.bridges = s.bridges) : s.ClosesNone t :=
  fun _ _ hb => h ▸ hb

theorem ClosesNone.trans {s t u : BridgeManager} (h : s.ClosesNone t) (h' : t.ClosesNone u) :
    s.ClosesNone u := fun b e hb => h b e (h' b e hb)

theorem closesNone_setBridge (s : BridgeManager) (x : ℕ) (key : String) (status : Status)
    (hstatus : ∀ e, status ≠ .closing e) : s.ClosesNone (s.setBridge x key status) := by
  intro b e h
  have happly : (s.setBridge x key status).bridges b = if b = x then ⟨key, status⟩ else s.bridges b :=
    Function.update_apply ..
  rw [happly] at h
  split at h
  · exact absurd h (hstatus e)
  · exact h

theorem closesNone_proceed (s : BridgeManager) (c : ℕ) (call : Call) :
    s.ClosesNone (s.proceed c call) := by
  have hbridges := (countOwner_rest s call 1).2.2.1
  refine .of_eq ?_
  unfold proceed takeBridge
  split <;> exact hbridges

theorem closesNone_connectFailed (s : BridgeManager) (c : ℕ) : s.ClosesNone (s.connectFailed c) := by
  have hbridges := (countOwner_rest (s.setPc c .failed) (s.calls c) (-1)).2.2.1
  refine .of_eq ?_
  unfold connectFailed dropFailed
  dsimp only
  split <;> exact hbridges

theorem closesNone_getEntry (s : BridgeManager) (d : TransportDescriptor) :
    s.ClosesNone (s.getEntry d).1 := by
  unfold getEntry
  split <;> exact .of_eq rfl

theorem closesNone_closeDone (s : BridgeManager) (b e : ℕ) : s.ClosesNone (s.closeDone b e) := by
  have hclosed := closesNone_setBridge s b (s.bridges b).key .closed (by simp)
  refine hclosed.trans (.of_eq ?_)
  unfold closeDone dropClosed
  dsimp only
  split <;> rfl

/-- A release begins a background close of the bridge that the entry of its key has. -/
theorem closing_release {s : BridgeManager} {d : TransportDescriptor} {holder : Option ℕ} {b e : ℕ}
    (hb : ((s.release d holder).bridges b).status = .closing e) :
    (s.bridges b).status = .closing e ∨
      (s.entries.get (describeTransport d) = some e ∧ (s.heap e).bridge = some b) := by
  obtain ⟨-, hheap, -, hbridges⟩ := giveBack_rest s holder
  unfold release at hb
  split at hb
  · rw [hbridges] at hb
    exact Or.inl hb
  next e' he =>
    unfold releaseRef at hb
    dsimp only at hb
    have hcount : ((s.giveBack holder).addRef e' (-1)).bridges = s.bridges := hbridges
    split at hb
    · rw [hcount] at hb
      exact Or.inl hb
    next x hx =>
      split at hb
      · have hx' : (s.heap e').bridge = some x := by
          unfold addRef at hx
          rw [setEntry_heap, if_pos rfl, hheap] at hx
          exact hx
        have happly : (((s.giveBack holder).addRef e' (-1)).beginClose e' x).bridges b =
            if b = x then ⟨(s.bridges x).key, .closing e'⟩ else s.bridges b := by
          rw [← hcount]
          exact Function.update_apply ..
        rw [happly] at hb
        split at hb
        next hbx =>
          cases hb
          exact Or.inr ⟨he, hbx ▸ hx'⟩
        · exact Or.inl hb
      · rw [hcount] at hb
        exact Or.inl hb

theorem closing_step {s t : BridgeManager} {ev : Event} (hs : s.step ev = some t) {b e : ℕ}
    (hb : (t.bridges b).status = .closing e) : (s.bridges b).status = .closing e ∨
      ∃ d, s.entries.get (describeTransport d) = some e ∧ (s.heap e).bridge = some b := by
  cases step_takes hs with
  | acquire d cred => exact Or.inl (ClosesNone.of_eq (start_bridges s .acquire d cred).1 b e hb)
  | getBridge d cred => exact Or.inl (ClosesNone.of_eq (start_bridges s .getBridge d cred).1 b e hb)
  | release d holder => exact (closing_release hb).imp id fun h => ⟨d, h⟩
  | addMethodRef d method => exact Or.inl (closesNone_getEntry s d b e hb)
  | removeMethodRef d method =>
    refine Or.inl (closesNone_getEntry s d b e ?_)
    unfold removeMethodRef at hb
    dsimp only at hb
    split at hb <;> exact hb
  | resume c _ => exact Or.inl (closesNone_proceed s c (s.calls c) b e hb)
  | built c _ => exact Or.inl (closesNone_setBridge s s.nextBridge _ _ (by simp) b e hb)
  | buildFailed c _ => exact Or.inl (closesNone_connectFailed s c b e hb)
  | connected c x _ _ => exact Or.inl (closesNone_setBridge s x _ _ (by simp) b e hb)
  | connectFailed c x _ =>
    have hclosed := closesNone_setBridge s x (s.bridges x).key .closed (by simp)
    exact Or.inl (hclosed.trans (closesNone_connectFailed _ c) b e hb)
  | closeDone x _ _ => exact Or.inl (closesNone_closeDone s x _ b e hb)

theorem closesOwn_step {s t : BridgeManager} {ev : Event} (h : s.Keyed) (hown : s.ClosesOwn)
    (hs : s.step ev = some t) : t.ClosesOwn := by
  have hconfined := confined_step h hown hs
  have hlasts := lasts_step h hs
  intro b e hb
  have hold : b < s.nextBridge ∧ e < s.nextEntry ∧ s.entryKey e = (s.bridges b).key := by
    rcases closing_step hs hb with hold | ⟨d, hget, hbridge⟩
    · exact hown b e hold
    · obtain ⟨hlt, hborn, hkey⟩ := h.recorded e b hbridge
      exact ⟨hborn, hlt, hkey.symm⟩
  obtain ⟨hborn, hlt, hkey⟩ := hold
  obtain ⟨hborn', hkey'⟩ := hlasts.key b hborn
  refine ⟨hborn', Nat.lt_of_lt_of_le hlt hconfined.next, ?_⟩
  rw [hconfined.filed e hlt, hkey, hkey']

/-! ### Steps of one call -/

/-- The event is a continuation of the call. -/
def Event.continues (c : ℕ) : Event → Bool
  | .resume x => x = c
  | .built x => x = c
  | .buildFailed x => x = c
  | .connected x => x = c
  | .connectFailed x => x = c
  | _ => false

theorem connectFailed_next (s : BridgeManager) (c : ℕ) : (s.connectFailed c).nextCall = s.nextCall := by
  obtain ⟨-, -, -, -, -, hnext⟩ := countOwner_rest (s.setPc c .failed) (s.calls c) (-1)
  unfold connectFailed dropFailed
  dsimp only
  split <;> exact hnext

theorem connectFailed_calls (s : BridgeManager) (c x : ℕ) :
    (s.connectFailed c).calls x = if x = c then { s.calls c with pc := .failed } else s.calls x := by
  obtain ⟨-, -, -, hcalls, -⟩ := countOwner_rest (s.setPc c .failed) (s.calls c) (-1)
  rw [← setPc_calls, ← hcalls]
  unfold connectFailed dropFailed
  dsimp only
  split <;> rfl

/-- What others do to a call: they end the close that it waits for, or give its bridge back. -/
def Undisturbed (s t : BridgeManager) (c : ℕ) : Prop :=
  t.calls c = s.calls c ∨ (∃ b, (s.calls c).pc = .awaitingClose b) ∨
    ∃ b, (s.calls c).pc = .returned b ∧ t.calls c = { s.calls c with pc := .released b }

theorem undisturbed_setCall (s : BridgeManager) {c x : ℕ} (call : Call) (hx : x ≠ c) :
    s.Undisturbed (s.setCall x call) c := by
  refine Or.inl ?_
  rw [setCall_calls, if_neg hx.symm]

theorem undisturbed_connectFailed (s : BridgeManager) {c x : ℕ} (hx : x ≠ c) :
    s.Undisturbed (s.connectFailed x) c := by
  refine Or.inl ?_
  rw [connectFailed_calls, if_neg hx.symm]

theorem undisturbed_release (s : BridgeManager) (d : TransportDescriptor) (holder : Option ℕ) (c : ℕ) :
    s.Undisturbed (s.release d holder) c := by
  have hgive : s.Undisturbed (s.giveBack holder) c := by
    unfold giveBack
    split
    · exact Or.inl rfl
    next x =>
      split
      next b hb =>
        by_cases hx : x = c
        · subst hx
          refine Or.inr (Or.inr ⟨b, hb, ?_⟩)
          rw [setPc_calls, if_pos rfl]
        · exact undisturbed_setCall s _ hx
      · exact Or.inl rfl
  have hcalls : (s.release d holder).calls = (s.giveBack holder).calls := by
    unfold release
    split
    · rfl
    · unfold releaseRef
      dsimp only
      split
      · rfl
      · split <;> rfl
  unfold Undisturbed at hgive ⊢
  rw [hcalls]
  exact hgive

theorem undisturbed_step {s t : BridgeManager} {ev : Event} (hs : s.step ev = some t) {c : ℕ}
    (hc : c < s.nextCall) (hev : ev.continues c = false) : s.Undisturbed t c := by
  cases step_takes hs with
  | acquire d cred => exact Or.inl ((start_bridges s .acquire d cred).2.2.2.2 c (by omega))
  | getBridge d cred => exact Or.inl ((start_bridges s .getBridge d cred).2.2.2.2 c (by omega))
  | release d holder => exact undisturbed_release s d holder c
  | addMethodRef d method => exact Or.inl (congrFun (getEntry_calls s d).1 c)
  | removeMethodRef d method =>
    refine Or.inl ((?_ : _ = (s.getEntry d).1.calls c).trans (congrFun (getEntry_calls s d).1 c))
    unfold removeMethodRef
    dsimp only
    split <;> rfl
  | resume x _ =>
    have hx : x ≠ c := of_decide_eq_false hev
    have hcalls := (countOwner_rest s (s.calls x) 1).2.2.2.1
    refine Or.inl ?_
    unfold proceed takeBridge
    split
    all_goals
      rw [setCall_calls, if_neg hx.symm, hcalls]
  | built x _ => exact undisturbed_setCall _ _ (of_decide_eq_false hev)
  | buildFailed x _ => exact undisturbed_connectFailed s (of_decide_eq_false hev)
  | connected x _ _ _ => exact undisturbed_setCall _ _ (of_decide_eq_false hev)
  | connectFailed x b _ =>
    exact undisturbed_connectFailed (s.setBridge b _ .closed) (of_decide_eq_false hev)
  | closeDone b e _ =>
    by_cases hwait : (s.calls c).pc = .awaitingClose b
    · exact Or.inr (Or.inl ⟨b, hwait⟩)
    · refine Or.inl ?_
      unfold closeDone dropClosed
      dsimp only
      split
      all_goals
        change (s.finishClose b e).calls c = s.calls c
        rw [finishClose_calls, if_neg hwait]

/-! ### The call that fails -/

/-- Nothing is in flight for the key: no call, and no background close. -/
structure Quiet (s : BridgeManager) (key : String) : Prop where
  calls : ∀ c, (s.calls c).key = key → (s.calls c).pc.busy = false ∧ (s.calls c).pc ≠ .resuming ∧
    ∀ b, (s.calls c).pc ≠ .awaitingClose b
  bridges : ∀ b e, (s.bridges b).key = key → (s.bridges b).status ≠ .closing e
  entry : ∀ e ∈ s.entries.get key, (s.heap e).pendingClose = none

/-- The owners of an entry as an operation counts them. -/
def counted (kind : Kind) (entry : BridgeEntry) (n : ℤ) : BridgeEntry :=
  match kind with
  | .acquire => { entry with refCount := entry.refCount + n }
  | .getBridge => entry

/-- The entry that an operation finds or makes. -/
def found (s : BridgeManager) (d : TransportDescriptor) : BridgeEntry :=
  (s.look (describeTransport d)).getD (.new d)

/-- What the failure of an operation leaves under its key. -/
def left (kind : Kind) (entry : BridgeEntry) : Option BridgeEntry :=
  if kind = .acquire ∧ entry.refCount = 0 ∧ entry.methodRefs.size = 0 then none else some entry

/-- Call `c` of an operation that was called in `s`. -/
structure Attempting (s : BridgeManager) (kind : Kind) (d : TransportDescriptor) (c : ℕ)
    (t : BridgeManager) : Prop where
  born : c < t.nextCall
  call : (t.calls c).kind = kind ∧ (t.calls c).key = describeTransport d
  runs : (t.calls c).pc ≠ .resuming ∧ ∀ b, (t.calls c).pc ≠ .awaitingClose b
  busy : (t.calls c).pc.busy = true → t.entries.get (describeTransport d) = some (t.calls c).entry ∧
    t.heap (t.calls c).entry = counted kind (s.found d) 1
  failed : (t.calls c).pc = .failed → t.look (describeTransport d) = left kind (s.found d)

theorem counted_undo (kind : Kind) (entry : BridgeEntry) : counted kind (counted kind entry 1) (-1) = entry := by
  cases kind with
  | acquire =>
    have hback : entry.refCount + 1 + -1 = entry.refCount := by omega
    simp only [counted, hback]
  | getBridge => rfl

theorem countOwner_heap (s : BridgeManager) (call : Call) (n : ℤ) :
    (s.countOwner call n).heap call.entry = counted call.kind (s.heap call.entry) n := by
  unfold countOwner counted
  cases call.kind with
  | acquire =>
    unfold addRef
    rw [setEntry_heap, if_pos rfl]
  | getBridge => rfl

theorem found_open {s : BridgeManager} {d : TransportDescriptor} (hq : s.Quiet (describeTransport d)) :
    (s.found d).pendingClose = none := by
  unfold found look
  cases hget : s.entries.get (describeTransport d) with
  | none => rfl
  | some e => exact hq.entry e hget

theorem getEntry_found (s : BridgeManager) (d : TransportDescriptor) :
    (s.getEntry d).1.heap (s.getEntry d).2 = s.found d := by
  unfold found look getEntry
  cases hget : s.entries.get (describeTransport d) with
  | none =>
    dsimp only
    rw [allocEntry_heap, if_pos rfl]
    rfl
  | some e => rfl

theorem attempting_start {s : BridgeManager} (h : s.Keyed) {d : TransportDescriptor}
    (hq : s.Quiet (describeTransport d)) (kind : Kind) (cred : Bool) :
    s.Attempting kind d s.nextCall (s.start kind d cred) := by
  obtain ⟨-, hget⟩ := keyed_getEntry h d
  have hfound := getEntry_found s d
  have hnext := (getEntry_calls s d).2
  have hborn : s.nextCall < (s.start kind d cred).nextCall := by
    rw [(start_bridges s kind d cred).2.2.1]
    exact Nat.lt_succ_self _
  have hopen : ((s.getEntry d).1.heap (s.getEntry d).2).pendingClose = none := by
    rw [hfound]
    exact found_open hq
  let u : BridgeManager := { (s.getEntry d).1 with nextCall := s.nextCall + 1 }
  let call : Call := ⟨kind, d, cred, (s.getEntry d).2, .resuming⟩
  have hstart : s.start kind d cred = u.proceed s.nextCall call := by
    unfold start
    dsimp only
    rw [hopen, hnext]
  have hentries : (u.countOwner call 1).entries = (s.getEntry d).1.entries := (countOwner_rest u call 1).1
  have hheap : (u.countOwner call 1).heap (s.getEntry d).2 = counted kind (s.found d) 1 := by
    rw [← hfound]
    exact countOwner_heap u call 1
  have hcalls : ∀ call' : Call, ((u.countOwner call 1).setCall s.nextCall call').calls s.nextCall = call' :=
    fun call' => by rw [setCall_calls, if_pos rfl]
  rw [hstart] at hborn ⊢
  unfold proceed takeBridge at hborn ⊢
  split at hborn
  all_goals
    refine ⟨hborn, ?_, ?_, ?_, ?_⟩ <;> rw [hcalls]
  · exact ⟨rfl, rfl⟩
  · exact ⟨by simp, by simp⟩
  · exact fun _ => ⟨hentries ▸ hget, hheap⟩
  · simp
  · exact ⟨rfl, rfl⟩
  · exact ⟨by simp, by simp⟩
  · simp [Pc.busy]
  · simp

/-- The `catch` of `acquire`, if there is one, against the count that the call began with. -/
theorem look_connectFailed {s : BridgeManager} {c : ℕ} (entry : BridgeEntry)
    (hget : s.entries.get (s.calls c).key = some (s.calls c).entry)
    (hheap : s.heap (s.calls c).entry = counted (s.calls c).kind entry 1)
    (hopen : entry.pendingClose = none) :
    (s.connectFailed c).look (s.calls c).key = left (s.calls c).kind entry := by
  let u := (s.setPc c .failed).countOwner (s.calls c) (-1)
  have hentries : u.entries = s.entries := (countOwner_rest (s.setPc c .failed) (s.calls c) (-1)).1
  have hentry : u.heap (s.calls c).entry = entry := by
    have hcount := countOwner_heap (s.setPc c .failed) (s.calls c) (-1)
    have hsame : (s.setPc c .failed).heap (s.calls c).entry = s.heap (s.calls c).entry := rfl
    rw [hsame, hheap, counted_undo] at hcount
    exact hcount
  have hfailed : s.connectFailed c = u.dropFailed (s.calls c) := rfl
  rw [hfailed]
  unfold dropFailed left look
  dsimp only
  rw [hentry, hopen]
  by_cases hdrop : (s.calls c).kind = .acquire ∧ entry.refCount = 0 ∧ entry.methodRefs.size = 0
  · obtain ⟨hkind, hcount, hsize⟩ := hdrop
    simp [hkind, hcount, hsize]
  · have hkeep : ¬ ((s.calls c).kind = .acquire ∧ entry.refCount = 0 ∧ entry.methodRefs.size = 0 ∧
        (none : Option ℕ) = none) := fun h => hdrop ⟨h.1, h.2.1, h.2.2.1⟩
    rw [if_neg hkeep, if_neg hdrop, hentries, hget, Option.map_some, hentry]

section runs

variable {s t u : BridgeManager} {kind : Kind} {d : TransportDescriptor} {c : ℕ} {ev : Event}

/-- A call that has its bridge, or has given it back, is through. -/
theorem Attempting.through (h : s.Attempting kind d c t) (hborn : c < u.nextCall) {pc : Pc}
    (hcall : u.calls c = { t.calls c with pc := pc })
    (hpc : ∃ b, pc = .returned b ∨ pc = .released b) : s.Attempting kind d c u := by
  have hthrough : (pc ≠ .resuming ∧ ∀ b, pc ≠ .awaitingClose b) ∧ pc.busy = false ∧ pc ≠ .failed := by
    obtain ⟨b, rfl | rfl⟩ := hpc
    · exact ⟨⟨nofun, nofun⟩, rfl, nofun⟩
    · exact ⟨⟨nofun, nofun⟩, rfl, nofun⟩
  refine ⟨hborn, ?_, ?_, fun hbusy => ?_, fun hfailed => ?_⟩
  · rw [hcall]
    exact h.call
  · rw [hcall]
    exact hthrough.1
  · rw [hcall, hthrough.2.1] at hbusy
    contradiction
  · rw [hcall] at hfailed
    exact absurd hfailed hthrough.2.2

theorem attempting_failed (hq : s.Quiet (describeTransport d)) (h : s.Attempting kind d c t)
    (hb : (t.calls c).pc.busy = true) : s.Attempting kind d c (t.connectFailed c) := by
  have hcall : (t.connectFailed c).calls c = { t.calls c with pc := .failed } := by
    rw [connectFailed_calls, if_pos rfl]
  obtain ⟨hkind, hkey⟩ := h.call
  obtain ⟨hget, hheap⟩ := h.busy hb
  refine ⟨connectFailed_next t c ▸ h.born, ?_, ?_, ?_, fun _ => ?_⟩
  · rw [hcall]
    exact h.call
  · rw [hcall]
    exact ⟨nofun, nofun⟩
  · rw [hcall]
    exact nofun
  · have hlook := look_connectFailed (s := t) (c := c) (s.found d) (hkey ▸ hget)
      (hkind ▸ hheap) (found_open hq)
    rw [hkey, hkind] at hlook
    exact hlook

theorem attempting_continue (hq : s.Quiet (describeTransport d)) (h : s.Attempting kind d c t)
    (hs : t.step ev = some u) (hev : ev.continues c = true) : s.Attempting kind d c u := by
  cases step_takes hs with
  | resume x hpc =>
    obtain rfl : x = c := of_decide_eq_true hev
    exact absurd hpc h.runs.1
  | built x hpc =>
    obtain rfl : x = c := of_decide_eq_true hev
    have hcall : (t.built x).calls x = { t.calls x with pc := .connecting t.nextBridge } := by
      unfold built
      rw [setPc_calls, if_pos rfl]
      rfl
    refine ⟨h.born, ?_, ?_, fun _ => ?_, ?_⟩
    · rw [hcall]
      exact h.call
    · rw [hcall]
      exact ⟨by simp, by simp⟩
    · rw [hcall]
      exact h.busy (by rw [hpc.1]; rfl)
    · rw [hcall]
      intro hfailed
      contradiction
  | buildFailed x hpc =>
    obtain rfl : x = c := of_decide_eq_true hev
    exact attempting_failed hq h (by rw [hpc]; rfl)
  | connected x b hpc _ =>
    obtain rfl : x = c := of_decide_eq_true hev
    have hcall : (t.connected x b).calls x = { t.calls x with pc := .returned b } := by
      unfold connected
      rw [setPc_calls, if_pos rfl]
      rfl
    exact h.through h.born hcall ⟨b, Or.inl rfl⟩
  | connectFailed x b hpc =>
    obtain rfl : x = c := of_decide_eq_true hev
    have hclosed : s.Attempting kind d x (t.setBridge b (t.bridges b).key .closed) :=
      ⟨h.born, h.call, h.runs, h.busy, h.failed⟩
    exact attempting_failed hq hclosed (by change (t.calls x).pc.busy = true; rw [hpc]; rfl)
  | _ => contradiction

theorem attempting_other (hk : t.Keyed) (hown : t.ClosesOwn) (h : s.Attempting kind d c t)
    (hs : t.step ev = some u) (hev : ev.continues c = false)
    (hkey : t.eventKey ev ≠ describeTransport d) : s.Attempting kind d c u := by
  have hconfined := confined_step hk hown hs
  have hborn := ((lasts_step hk hs).descriptor c h.born).1
  rcases undisturbed_step hs h.born hev with hsame | ⟨b, hwait⟩ | ⟨b, hpc, hgiven⟩
  · refine ⟨hborn, hsame ▸ h.call, hsame ▸ h.runs, ?_, ?_⟩
    · rw [hsame]
      intro hb
      obtain ⟨hget, hheap⟩ := h.busy hb
      obtain ⟨hlt, hfiled⟩ := hk.entries _ _ hget
      rw [hconfined.entries _ hkey.symm, hconfined.heap _ hlt (hfiled ▸ hkey.symm)]
      exact ⟨hget, hheap⟩
    · rw [hsame, hconfined.look hk hkey.symm]
      exact h.failed
  · exact absurd hwait (h.runs.2 b)
  · exact h.through hborn hgiven ⟨b, Or.inr rfl⟩

end runs

/-- Call `c` goes on, and everything else that happens is about the keys of others. -/
def Apart (c : ℕ) (others : String → Prop) : Guard BridgeManager Event := fun s ev _ =>
  ev.continues c = true ∨ (ev.continues c = false ∧ others (s.eventKey ev))

/-- The failure of the operation leaves the entry as it was: `acquire` if there was none, or one that
something keeps alive, `getBridge` if there was one. -/
def Restores (s : BridgeManager) (kind : Kind) (key : String) : Prop :=
  match kind, s.look key with
  | .acquire, none => True
  | .acquire, some entry => ¬ (entry.refCount = 0 ∧ entry.methodRefs.size = 0)
  | .getBridge, none => False
  | .getBridge, some _ => True

theorem left_found (s : BridgeManager) (kind : Kind) (d : TransportDescriptor) :
    left kind (s.found d) = s.look (describeTransport d) ↔ s.Restores kind (describeTransport d) := by
  unfold left found Restores
  cases kind <;> cases hlook : s.look (describeTransport d) with
  | none => simp [BridgeEntry.new, InsertMap.empty, InsertMap.size]
  | some entry => simp

theorem filed_reach {ok : Guard BridgeManager Event} {s : BridgeManager} (h : machine.Reach ok s) :
    s.Keyed ∧ s.ClosesOwn := by
  refine h.invariant (P := fun s => s.Keyed ∧ s.ClosesOwn) ?_ ?_
  · rintro s rfl
    exact ⟨keyed_initial, fun b e hb => by simp [initial] at hb⟩
  · rintro s ev t _ ⟨hk, hown⟩ hs _
    exact ⟨keyed_step hk hs, closesOwn_step hk hown hs⟩

theorem continues_key {s : BridgeManager} {ev : Event} {c : ℕ} (h : ev.continues c = true) :
    s.eventKey ev = (s.calls c).key := by
  cases ev with
  | acquire d cred => contradiction
  | getBridge d cred => contradiction
  | release d holder => contradiction
  | addMethodRef d method => contradiction
  | removeMethodRef d method => contradiction
  | closeDone b => contradiction
  | _ => exact congrArg (fun x => (s.calls x).key) (of_decide_eq_true h)

/-- What holds while the call is under way. -/
structure Along (s : BridgeManager) (kind : Kind) (d : TransportDescriptor) (others : String → Prop)
    (t : BridgeManager) : Prop where
  keyed : t.Keyed
  closesOwn : t.ClosesOwn
  attempting : s.Attempting kind d s.nextCall t
  rest : ∀ key, key ≠ describeTransport d → ¬ others key → t.look key = s.look key

theorem along_start {s : BridgeManager} (hk : s.Keyed) (hown : s.ClosesOwn) {d : TransportDescriptor}
    (hq : s.Quiet (describeTransport d)) (kind : Kind) (cred : Bool) (others : String → Prop) :
    Along s kind d others (s.start kind d cred) := by
  have hconfined := confined_start hk kind d cred
  have hown' : (s.start kind d cred).ClosesOwn := by
    cases kind with
    | acquire =>
      have hs : s.step (.acquire d cred) = some (s.start .acquire d cred) := rfl
      exact closesOwn_step hk hown hs
    | getBridge =>
      have hs : s.step (.getBridge d cred) = some (s.start .getBridge d cred) := rfl
      exact closesOwn_step hk hown hs
  exact ⟨keyed_start hk kind d cred, hown', attempting_start hk hq kind cred,
    fun key hne _ => hconfined.look hk hne⟩

theorem along_step {s t u : BridgeManager} {kind : Kind} {d : TransportDescriptor}
    {others : String → Prop} {ev : Event} (hq : s.Quiet (describeTransport d))
    (hothers : ¬ others (describeTransport d)) (h : Along s kind d others t) (hs : t.step ev = some u)
    (hapart : Apart s.nextCall others t ev u) : Along s kind d others u := by
  have hconfined := confined_step h.keyed h.closesOwn hs
  refine ⟨keyed_step h.keyed hs, closesOwn_step h.keyed h.closesOwn hs, ?_, fun key hne hkey => ?_⟩
  · rcases hapart with hown | ⟨hother, hev⟩
    · exact attempting_continue hq h.attempting hs hown
    · exact attempting_other h.keyed h.closesOwn h.attempting hs hother fun he => hothers (he ▸ hev)
  · have hne' : key ≠ t.eventKey ev := by
      rcases hapart with hown | ⟨-, hev⟩
      · rw [continues_key hown, h.attempting.call.2]
        exact hne
      · exact fun he => hkey (he ▸ hev)
    exact (hconfined.look h.keyed hne').trans (h.rest key hne hkey)

/-- A failed operation leaves the map as it was, but for what others did to their keys, if and only if
`acquire` found no entry or one that is kept alive, or `getBridge` found one. -/
theorem restored_iff {s : BridgeManager} (hreach : machine.Reach always s) (kind : Kind)
    (d : TransportDescriptor) (cred : Bool) (hq : s.Quiet (describeTransport d))
    (others : String → Prop) (hothers : ¬ others (describeTransport d)) {t : BridgeManager}
    (hrun : (machine.startingAt (s.start kind d cred)).Reach (Apart s.nextCall others) t)
    (hfailed : (t.calls s.nextCall).pc = .failed) :
    (∀ key, ¬ others key → t.look key = s.look key) ↔ s.Restores kind (describeTransport d) := by
  obtain ⟨hk, hown⟩ := filed_reach hreach
  have halong : Along s kind d others t := by
    refine hrun.invariant ?_ ?_
    · rintro u rfl
      exact along_start hk hown hq kind cred others
    · intro u ev v _ hu hs hapart
      exact along_step hq hothers hu hs hapart
  have hleft := halong.attempting.failed hfailed
  rw [← left_found, ← hleft]
  constructor
  · exact fun hall => hall _ hothers
  · intro hsame key hkey
    by_cases hd : key = describeTransport d
    · rw [hd]
      exact hsame
    · exact halong.rest key hd hkey

instance (c : ℕ) (others : String → Prop) [DecidablePred others] (s : BridgeManager) (ev : Event)
    (t : BridgeManager) : Decidable (Apart c others s ev t) := by
  unfold Apart
  infer_instance

theorem quiet_initial (key : String) : initial.Quiet key where
  calls c _ := by simp [initial, Pc.busy]
  bridges b e _ := by simp [initial]
  entry e he := by simp [initial] at he

def besideB (key : String) : Prop := key = describeTransport (.unix "/b")

instance : DecidablePred besideB := fun key => inferInstanceAs (Decidable (key = _))

/-- The connect of a first `acquire` fails while another key gets its bridge. -/
def firstFails : BridgeManager :=
  machine.after (Apart 0 besideB) (initial.start .acquire (.unix "/a") false)
    [.built 0, .acquire (.unix "/b") false, .built 1, .connected 1, .connectFailed 0]

theorem firstFails_restored : firstFails.look (describeTransport (.unix "/a")) =
    initial.look (describeTransport (.unix "/a")) := by
  have hrun : (machine.startingAt (initial.start .acquire (.unix "/a") false)).Reach
      (Apart initial.nextCall besideB) firstFails := Machine.Reach.since ..
  exact (restored_iff (.init rfl) .acquire (.unix "/a") false (quiet_initial _) besideB
    (by decide +kernel) hrun (by decide +kernel)).mpr trivial _ (by decide +kernel)

/-- A `getBridge` whose connect fails leaves an entry for a key that had none. -/
theorem getBridge_leaves : ¬ ∀ s : BridgeManager, machine.Reach always s →
    ∀ kind d cred, s.Quiet (describeTransport d) → ∀ others : String → Prop,
      ¬ others (describeTransport d) → ∀ t,
        (machine.startingAt (s.start kind d cred)).Reach (Apart s.nextCall others) t →
          (t.calls s.nextCall).pc = .failed → ∀ key, ¬ others key → t.look key = s.look key := by
  intro hall
  let nobody : String → Prop := fun _ => False
  have hstart : (machine.startingAt (initial.start .getBridge (.unix "/a") false)).Reach
      (Apart initial.nextCall nobody) (initial.start .getBridge (.unix "/a") false) := .init rfl
  have hrun := (hstart.step (e := .built 0) rfl (Or.inl rfl)).step (e := .connectFailed 0) rfl
    (Or.inl rfl)
  have hsame := hall initial (.init rfl) .getBridge (.unix "/a") false (quiet_initial _) nobody id _ hrun
    (by decide +kernel) (describeTransport (.unix "/a")) id
  have hleft := congrArg Option.isSome hsame
  revert hleft
  decide +kernel

end BridgeManager
end UnoQ.Manager
