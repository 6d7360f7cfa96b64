import UnoQ.Manager.Keys

/-!
# Method references

How many references a method has under a key, as the entry in the map has them. The count is lost when
an entry that has references leaves the map: the `catch` of `acquire` and the end of a background close
delete by key, after a look at an entry that may have left the map long ago.
-/

namespace UnoQ.Manager.BridgeManager
open Transport

def refsOf (s : BridgeManager) (key method : String) : ℕ :=
  match s.entries.get key with
  | some e => ((s.heap e).methodRefs.get method).getD 0
  | none => 0

/-- The entry that the map has under the key, if there is one, has no references. -/
def Unreferenced (s : BridgeManager) (key : String) : Prop :=
  ∀ e ∈ s.entries.get key, (s.heap e).methodRefs.size = 0

instance (s : BridgeManager) (key : String) : Decidable (s.Unreferenced key) := by
  unfold Unreferenced
  cases s.entries.get key with
  | none => exact isTrue (by simp)
  | some e => exact decidable_of_iff ((s.heap e).methodRefs.size = 0) (by simp)

/-- The failure of call `c` leaves the entry that it looked up with nothing to keep it alive. -/
def FailureDrops (s : BridgeManager) (c : ℕ) : Prop :=
  let entry := s.heap (s.calls c).entry
  (s.calls c).kind = .acquire ∧ entry.refCount = 1 ∧ entry.methodRefs.size = 0 ∧
    entry.pendingClose = none

instance (s : BridgeManager) (c : ℕ) : Decidable (s.FailureDrops c) := by
  unfold FailureDrops
  infer_instance

/-- The end of the background close of `b` leaves entry `e` with nothing to keep it alive. -/
def CloseDrops (s : BridgeManager) (b e : ℕ) : Prop :=
  let entry := s.heap e
  entry.refCount = 0 ∧ entry.bridge = none ∧ entry.methodRefs.size = 0 ∧
    (entry.pendingClose = none ∨ entry.pendingClose = some b)

instance (s : BridgeManager) (b e : ℕ) : Decidable (s.CloseDrops b e) := by
  unfold CloseDrops
  infer_instance

/-- When a failed connect or a finished close drops an entry, the entry that the map has under the key
has no references. -/
def Spares (s : BridgeManager) : Event → Prop
  | .buildFailed c => s.FailureDrops c → s.Unreferenced (s.calls c).key
  | .connectFailed c => s.FailureDrops c → s.Unreferenced (s.calls c).key
  | .closeDone b =>
    match (s.bridges b).status with
    | .closing e => s.CloseDrops b e → s.Unreferenced (s.bridges b).key
    | _ => True
  | _ => True

instance decidableCloseSpares (s : BridgeManager) (b : ℕ) :
    Decidable (match (s.bridges b).status with
      | .closing e => s.CloseDrops b e → s.Unreferenced (s.bridges b).key
      | _ => True) := by
  rcases (s.bridges b).status with _ | _ <;> infer_instance

instance (s : BridgeManager) : ∀ ev, Decidable (s.Spares ev) := by
  rintro (_ | _) <;> dsimp only [Spares] <;> infer_instance

theorem get_of_size_zero {m : InsertMap String ℕ} (h : m.size = 0) (method : String) :
    m.get method = none := by
  have hnil : m.entries = [] := List.length_eq_zero_iff.mp h
  unfold InsertMap.get
  rw [hnil]
  rfl

/-! ### What operations do to references -/

theorem refsOf_congr {s t : BridgeManager} (he : t.entries = s.entries)
    (hm : ∀ e, (t.heap e).methodRefs = (s.heap e).methodRefs) (key method : String) :
    t.refsOf key method = s.refsOf key method := by
  unfold refsOf
  rw [he]
  cases s.entries.get key with
  | none => rfl
  | some e =>
    dsimp only
    rw [hm]

theorem refsOf_setEntry (s : BridgeManager) (e : ℕ) (entry : BridgeEntry)
    (hm : entry.methodRefs = (s.heap e).methodRefs) (key method : String) :
    (s.setEntry e entry).refsOf key method = s.refsOf key method := by
  refine refsOf_congr (s := s) (t := s.setEntry e entry) rfl (fun x => ?_) key method
  rw [setEntry_heap]
  split
  next hx => rw [hx, hm]
  · rfl

theorem refsOf_addRef (s : BridgeManager) (e : ℕ) (n : ℤ) (key method : String) :
    (s.addRef e n).refsOf key method = s.refsOf key method :=
  refsOf_setEntry s e { s.heap e with refCount := (s.heap e).refCount + n } rfl key method

theorem refsOf_beginClose (s : BridgeManager) (e b : ℕ) (key method : String) :
    (s.beginClose e b).refsOf key method = s.refsOf key method := by
  unfold beginClose
  exact refsOf_setEntry s e
    { s.heap e with bridge := none, refCount := 0, pendingClose := some b } rfl key method

theorem refsOf_getEntry {s : BridgeManager} (h : s.Keyed) (d : TransportDescriptor)
    (key method : String) : (s.getEntry d).1.refsOf key method = s.refsOf key method := by
  unfold getEntry
  split
  · rfl
  next hnone =>
    unfold refsOf
    have hentries : (s.allocEntry d).entries.get key =
        if describeTransport d = key then some s.nextEntry else s.entries.get key :=
      InsertMap.get_set ..
    rw [hentries]
    by_cases hk : describeTransport d = key
    · rw [if_pos hk, ← hk, hnone]
      dsimp only
      rw [allocEntry_heap, if_pos rfl]
      rfl
    · rw [if_neg hk]
      cases he : s.entries.get key with
      | none => rfl
      | some e =>
        have hlt := (h.entries key e he).1
        dsimp only
        rw [allocEntry_heap, if_neg (by omega)]

theorem refsOf_deleteKey {s : BridgeManager} {key : String} (h : s.Unreferenced key)
    (key' method : String) :
    refsOf { s with entries := s.entries.delete key } key' method = s.refsOf key' method := by
  unfold refsOf
  have hentries : (s.entries.delete key).get key' =
      if key = key' then none else s.entries.get key' := InsertMap.get_delete ..
  dsimp only
  rw [hentries]
  by_cases hk : key = key'
  · subst hk
    rw [if_pos rfl]
    cases he : s.entries.get key with
    | none => rfl
    | some e =>
      dsimp only
      rw [get_of_size_zero (h e he)]
      rfl
  · rw [if_neg hk]

theorem refsOf_countOwner (s : BridgeManager) (call : Call) (n : ℤ) (key method : String) :
    (s.countOwner call n).refsOf key method = s.refsOf key method :=
  refsOf_congr (countOwner_rest s call n).1 (fun e => (countOwner_same s call n e).2.2.1) ..

theorem refsOf_proceed (s : BridgeManager) (c : ℕ) (call : Call) (key method : String) :
    (s.proceed c call).refsOf key method = s.refsOf key method := by
  rw [← refsOf_countOwner s call 1]
  unfold proceed takeBridge
  split <;> rfl

theorem refsOf_start {s : BridgeManager} (h : s.Keyed) (kind : Kind) (d : TransportDescriptor)
    (cred : Bool) (key method : String) :
    (s.start kind d cred).refsOf key method = s.refsOf key method := by
  rw [← refsOf_getEntry h d]
  unfold start
  dsimp only
  split
  · rfl
  · exact refsOf_proceed { (s.getEntry d).1 with nextCall := (s.getEntry d).1.nextCall + 1 } ..

theorem refsOf_release (s : BridgeManager) (d : TransportDescriptor) (holder : Option ℕ)
    (key method : String) : (s.release d holder).refsOf key method = s.refsOf key method := by
  obtain ⟨hentries, hheap, -⟩ := giveBack_rest s holder
  have hgiven : (s.giveBack holder).refsOf key method = s.refsOf key method :=
    refsOf_congr hentries (fun e => by rw [hheap]) ..
  unfold release
  split
  · exact hgiven
  next e _ =>
    have hcount := (refsOf_addRef (s.giveBack holder) e (-1) key method).trans hgiven
    unfold releaseRef
    dsimp only
    split
    · exact hcount
    · split
      · exact (refsOf_beginClose ..).trans hcount
      · exact hcount

theorem refsOf_connectFailed {s : BridgeManager} {c : ℕ}
    (hspares : s.FailureDrops c → s.Unreferenced (s.calls c).key) (key method : String) :
    (s.connectFailed c).refsOf key method = s.refsOf key method := by
  have hcount : ((s.setPc c .failed).countOwner (s.calls c) (-1)).refsOf key method =
      s.refsOf key method := refsOf_countOwner (s.setPc c .failed) (s.calls c) (-1) key method
  have hsame := countOwner_same (s.setPc c .failed) (s.calls c) (-1)
  have hentries := (countOwner_rest (s.setPc c .failed) (s.calls c) (-1)).1
  unfold connectFailed dropFailed
  dsimp only
  split
  next hdrop =>
    obtain ⟨hkind, hzero, hsize, hpending⟩ := hdrop
    rw [refsOf_deleteKey ?_, hcount]
    have hrefs : ((s.setPc c .failed).countOwner (s.calls c) (-1)) =
        (s.setPc c .failed).addRef (s.calls c).entry (-1) := by
      unfold countOwner
      rw [hkind]
    have hdrops : s.FailureDrops c := by
      refine ⟨hkind, ?_, ?_, ?_⟩
      · rw [hrefs] at hzero
        have hone : (s.heap (s.calls c).entry).refCount + -1 = 0 := by
          have hheap := setEntry_heap (s.setPc c .failed) (s.calls c).entry (s.calls c).entry
            { (s.setPc c .failed).heap (s.calls c).entry with
              refCount := ((s.setPc c .failed).heap (s.calls c).entry).refCount + -1 }
          rw [if_pos rfl] at hheap
          exact (congrArg BridgeEntry.refCount hheap).symm.trans hzero
        omega
      · rw [(hsame _).2.2.1] at hsize
        exact hsize
      · rw [(hsame _).2.1] at hpending
        exact hpending
    intro e he
    rw [hentries] at he
    rw [(hsame e).2.2.1]
    exact hspares hdrops e he
  · exact hcount

theorem refsOf_closeDone {s : BridgeManager} {b e : ℕ}
    (hspares : s.CloseDrops b e → s.Unreferenced (s.bridges b).key) (key method : String) :
    (s.closeDone b e).refsOf key method = s.refsOf key method := by
  have hheap : ∀ x, (s.finishClose b e).heap x = if x = e then { s.heap e with
      pendingClose := if (s.heap e).pendingClose = some b then none else (s.heap e).pendingClose }
      else s.heap x := fun x => setEntry_heap (s.setBridge b (s.bridges b).key .closed) e x _
  have hmethods : ∀ x, ((s.finishClose b e).heap x).methodRefs = (s.heap x).methodRefs := by
    intro x
    rw [hheap]
    split
    next hx => rw [hx]
    · rfl
  have hfinish : (s.finishClose b e).refsOf key method = s.refsOf key method :=
    refsOf_congr (s := s) (t := s.finishClose b e) rfl hmethods key method
  unfold closeDone dropClosed
  dsimp only
  split
  next hdrop =>
    rw [hheap, if_pos rfl] at hdrop
    obtain ⟨hzero, hbridge, hsize, hpending⟩ := hdrop
    rw [refsOf_deleteKey ?_, hfinish]
    have hdrops : s.CloseDrops b e := by
      refine ⟨hzero, hbridge, hsize, ?_⟩
      by_cases hmine : (s.heap e).pendingClose = some b
      · exact Or.inr hmine
      · exact Or.inl ((if_neg hmine).symm.trans hpending)
    intro x hx
    rw [hmethods]
    exact hspares hdrops x hx
  · exact hfinish

/-! ### Adding and removing a reference -/

/-- An entry of the map is changed under its own key only. -/
theorem refsOf_setMapped {s : BridgeManager} (h : s.Keyed) {key : String} {e : ℕ}
    (he : s.entries.get key = some e) (entry : BridgeEntry) (key' method : String) :
    (s.setEntry e entry).refsOf key' method =
      if key' = key then (entry.methodRefs.get method).getD 0 else s.refsOf key' method := by
  have hentries : (s.setEntry e entry).entries = s.entries := rfl
  unfold refsOf
  rw [hentries]
  by_cases hk : key' = key
  · rw [if_pos hk, hk, he]
    dsimp only
    rw [setEntry_heap, if_pos rfl]
  · rw [if_neg hk]
    cases hx : s.entries.get key' with
    | none => rfl
    | some x =>
      have hne : x ≠ e := by
        intro hxe
        subst hxe
        exact hk ((h.entries key' x hx).2.symm.trans (h.entries key x he).2)
      dsimp only
      rw [setEntry_heap, if_neg hne]

theorem refsOf_mapped {s : BridgeManager} {key : String} {e : ℕ} (he : s.entries.get key = some e)
    (method : String) : s.refsOf key method = ((s.heap e).methodRefs.get method).getD 0 := by
  unfold refsOf
  rw [he]

theorem refsOf_addMethodRef {s : BridgeManager} (h : s.Keyed) (d : TransportDescriptor)
    (method key method' : String) : (s.addMethodRef d method).1.refsOf key method' =
      s.refsOf key method' + if key = describeTransport d ∧ method' = method then 1 else 0 := by
  obtain ⟨hgot, hget⟩ := keyed_getEntry h d
  have hold := refsOf_getEntry h d
  unfold addMethodRef
  dsimp only
  rw [refsOf_setMapped hgot hget]
  by_cases hk : key = describeTransport d
  · subst hk
    rw [if_pos rfl, ← hold, refsOf_mapped hget, InsertMap.get_set]
    by_cases hm : method' = method
    · subst hm
      rw [if_pos rfl, if_pos ⟨rfl, rfl⟩]
      rfl
    · rw [if_neg fun he => hm he.symm, if_neg fun he => hm he.2, Nat.add_zero]
  · rw [if_neg hk, if_neg fun he => hk he.1, hold, Nat.add_zero]

theorem addMethodRef_first {s : BridgeManager} (h : s.Keyed) (d : TransportDescriptor)
    (method : String) :
    (s.addMethodRef d method).2 = decide (s.refsOf (describeTransport d) method = 0) := by
  rw [← refsOf_getEntry h d, refsOf_mapped (keyed_getEntry h d).2]
  rfl

theorem refsOf_removeMethodRef {s : BridgeManager} (h : s.Keyed) (d : TransportDescriptor)
    (method key method' : String) : (s.removeMethodRef d method).1.refsOf key method' =
      s.refsOf key method' - if key = describeTransport d ∧ method' = method then 1 else 0 := by
  obtain ⟨hgot, hget⟩ := keyed_getEntry h d
  have hold := refsOf_getEntry h d
  have hcount := refsOf_mapped hget
  unfold removeMethodRef
  dsimp only
  split
  next hle =>
    rw [refsOf_setMapped hgot hget]
    by_cases hk : key = describeTransport d
    · subst hk
      rw [if_pos rfl, ← hold, hcount, InsertMap.get_delete]
      by_cases hm : method' = method
      · subst hm
        rw [if_pos rfl, if_pos ⟨rfl, rfl⟩]
        change 0 = _
        omega
      · rw [if_neg fun he => hm he.symm, if_neg fun he => hm he.2, Nat.sub_zero]
    · rw [if_neg hk, if_neg fun he => hk he.1, hold, Nat.sub_zero]
  next hgt =>
    rw [refsOf_setMapped hgot hget]
    by_cases hk : key = describeTransport d
    · subst hk
      rw [if_pos rfl, ← hold, hcount, InsertMap.get_set]
      by_cases hm : method' = method
      · subst hm
        rw [if_pos rfl, if_pos ⟨rfl, rfl⟩]
        rfl
      · rw [if_neg fun he => hm he.symm, if_neg fun he => hm he.2, Nat.sub_zero]
    · rw [if_neg hk, if_neg fun he => hk he.1, hold, Nat.sub_zero]

/-! ### The other steps -/

def Event.counts : Event → Bool
  | .addMethodRef .. => true
  | .removeMethodRef .. => true
  | _ => false

theorem refsOf_connected (s : BridgeManager) (c b : ℕ) (key method : String) :
    (s.connected c b).refsOf key method = s.refsOf key method :=
  (refsOf_setEntry (s.setBridge b (s.calls c).key .opened) (s.calls c).entry
    { s.heap (s.calls c).entry with bridge := some b } rfl key method :)

/-- Only adding and removing a reference changes a count, as long as no entry that has references is
dropped. -/
theorem refsOf_step {s t : BridgeManager} {ev : Event} (h : s.Keyed) (hs : s.step ev = some t)
    (hev : ev.counts = false) (hspares : s.Spares ev) (key method : String) :
    t.refsOf key method = s.refsOf key method := by
  cases step_takes hs with
  | acquire d cred => exact refsOf_start h ..
  | getBridge d cred => exact refsOf_start h ..
  | release d holder => exact refsOf_release ..
  | addMethodRef d m => contradiction
  | removeMethodRef d m => contradiction
  | resume c _ => exact refsOf_proceed ..
  | built c _ => rfl
  | buildFailed c _ => exact refsOf_connectFailed hspares ..
  | connected c _ _ _ => exact refsOf_connected ..
  | connectFailed c b _ =>
    exact refsOf_connectFailed (s := s.setBridge b (s.bridges b).key .closed) hspares ..
  | closeDone b _ hb =>
    dsimp only [Spares] at hspares
    rw [hb] at hspares
    exact refsOf_closeDone hspares ..

end UnoQ.Manager.BridgeManager
