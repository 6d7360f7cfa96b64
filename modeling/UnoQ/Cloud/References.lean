import Mathlib.Tactic.Linarith
import UnoQ.Cloud.CloudClientManager
import UnoQ.Lib.Counting

/-!
# The reference count of a cloud entry

The count of an entry in the map is the number of subscriptions that are live or being set up, and
all of these use the entry that the map has for their credential key. So the entry that a teardown
takes out is one that no subscription uses.
-/

namespace UnoQ.Cloud
open Transition Counting

def Phase.holding : Phase → Bool
  | .rejected => false
  | .released => false
  | _ => true

namespace CloudClientManager

def holds (e : ℕ) (sub : Subscription) : Bool := decide (sub.entry = e) && sub.phase.holding

def holders (s : CloudClientManager) (e : ℕ) : ℕ :=
  Nat.count (fun i => holds e (s.subs i) = true) s.nextSub

/-- The map has no key for the entry. -/
def Gone (s : CloudClientManager) (e : ℕ) : Prop := ∀ key, s.entries.get key ≠ some e

structure Refs (s : CloudClientManager) : Prop where
  unborn : ∀ i, s.nextSub ≤ i → (s.subs i).phase.holding = false
  mapped : ∀ key e, s.entries.get key = some e → e < s.nextEntry
  refs : ∀ key e, s.entries.get key = some e → (s.heap e).refCount = s.holders e
  gone : ∀ e, s.Gone e → (s.heap e).refCount ≤ 0
  current : ∀ i, (s.subs i).phase.holding = true →
    s.entries.get (s.subs i).credentialKey = some (s.subs i).entry

theorem refs_initial : initial.Refs where
  unborn i _ := rfl
  mapped key e h := by simp [initial] at h
  refs key e h := by simp [initial] at h
  gone e _ := le_refl 0
  current i h := by simp [initial, Subscription.absent, Phase.holding] at h

theorem Refs.born {s : CloudClientManager} (h : s.Refs) {i : ℕ}
    (hi : (s.subs i).phase.holding = true) : i < s.nextSub := by
  by_contra hlt
  rw [h.unborn i (by omega)] at hi
  contradiction

theorem Refs.entry_lt {s : CloudClientManager} (h : s.Refs) {i : ℕ}
    (hi : (s.subs i).phase.holding = true) : (s.subs i).entry < s.nextEntry :=
  h.mapped _ _ (h.current i hi)

/-- An entry whose count is zero is used by nobody. -/
theorem Refs.unused {s : CloudClientManager} (h : s.Refs) {key : String} {e : ℕ}
    (hkey : s.entries.get key = some e) (hzero : (s.heap e).refCount = 0) {i : ℕ}
    (hi : (s.subs i).phase.holding = true) : (s.subs i).entry ≠ e := by
  intro he
  have hcount : s.holders e = 0 := by
    have := h.refs key e hkey
    omega
  have hnot := not_of_count_eq_zero (p := fun x => holds e (s.subs x)) hcount (h.born hi)
  simp [holds, he, hi] at hnot

/-- A step that moves no subscription in or out of use and changes no count. -/
theorem Refs.quiet {s t : CloudClientManager} (h : s.Refs) (hentries : t.entries = s.entries)
    (hnext : t.nextEntry = s.nextEntry) (hn : t.nextSub = s.nextSub)
    (hrefs : ∀ e, (t.heap e).refCount = (s.heap e).refCount)
    (hsubs : ∀ i, (t.subs i).entry = (s.subs i).entry ∧
      (t.subs i).credentialKey = (s.subs i).credentialKey ∧
      (t.subs i).phase.holding = (s.subs i).phase.holding) : t.Refs where
  unborn i hi := by
    rw [(hsubs i).2.2]
    exact h.unborn i (by omega)
  mapped key e hkey := by
    rw [hentries] at hkey
    rw [hnext]
    exact h.mapped key e hkey
  refs key e hkey := by
    rw [hentries] at hkey
    have hsame : t.holders e = s.holders e := by
      unfold holders
      rw [hn]
      refine count_congr (p := fun i => holds e (t.subs i)) fun i _ => ?_
      obtain ⟨he, -, hp⟩ := hsubs i
      simp only [holds, he, hp]
    rw [hrefs, h.refs key e hkey, hsame]
  gone e hgone := by
    rw [hrefs]
    refine h.gone e fun key => ?_
    rw [← hentries]
    exact hgone key
  current i hi := by
    obtain ⟨he, hkey, hp⟩ := hsubs i
    rw [hentries, he, hkey]
    rw [hp] at hi
    exact h.current i hi

/-- The other fields of an entry may change. -/
theorem refs_modify {s : CloudClientManager} (h : s.Refs) (e : ℕ) (f : ClientEntry → ClientEntry)
    (hf : ∀ entry, (f entry).refCount = entry.refCount) : (s.setEntry e (f (s.heap e))).Refs := by
  refine h.quiet rfl rfl rfl (fun x => ?_) (fun _ => ⟨rfl, rfl, rfl⟩)
  rw [setEntry_modify]
  split
  · exact hf _
  · rfl

theorem setPhase_static (s : CloudClientManager) (i x : ℕ) (phase : Phase) :
    ((s.setPhase i phase).subs x).entry = (s.subs x).entry ∧
      ((s.setPhase i phase).subs x).credentialKey = (s.subs x).credentialKey ∧
      ((s.setPhase i phase).subs x).handler = (s.subs x).handler ∧
      ((s.setPhase i phase).subs x).callback = (s.subs x).callback ∧
      ((s.setPhase i phase).subs x).registration = (s.subs x).registration := by
  rw [setPhase_subs]
  split
  next h => exact ⟨by rw [h], by rw [h], by rw [h], by rw [h]; rfl, by rw [h]; rfl⟩
  · exact ⟨rfl, rfl, rfl, rfl, rfl⟩

theorem setPhase_phase (s : CloudClientManager) (i x : ℕ) (phase : Phase) :
    ((s.setPhase i phase).subs x).phase = if x = i then phase else (s.subs x).phase := by
  rw [setPhase_subs]
  split <;> rfl

theorem refs_setPhase {s : CloudClientManager} (h : s.Refs) {i : ℕ} (phase : Phase)
    (hphase : phase.holding = (s.subs i).phase.holding) : (s.setPhase i phase).Refs := by
  refine h.quiet rfl rfl rfl (fun _ => rfl) fun x => ?_
  obtain ⟨he, hk, -⟩ := setPhase_static s i x phase
  refine ⟨he, hk, ?_⟩
  rw [setPhase_phase]
  split
  next hx => rw [hx, hphase]
  · rfl

/-! ### A subscription begins -/

theorem newEntry_heap (s : CloudClientManager) (credentialKey : String) (x : ℕ) :
    (s.newEntry credentialKey).heap x = if x = s.nextEntry then .new else s.heap x :=
  setEntry_heap s s.nextEntry x .new

theorem refs_newEntry {s : CloudClientManager} (h : s.Refs) {credentialKey : String}
    (hnone : s.entries.get credentialKey = none) : (s.newEntry credentialKey).Refs := by
  have hne : ∀ key e, s.entries.get key = some e → credentialKey ≠ key := by
    rintro key e hkey rfl
    rw [hnone] at hkey
    contradiction
  constructor
  · exact h.unborn
  · intro key e hkey
    rcases InsertMap.get_set_eq_some hkey with ⟨-, rfl⟩ | ⟨-, hold⟩
    · exact Nat.lt_succ_self _
    · exact Nat.lt_succ_of_lt (h.mapped key e hold)
  · intro key e hkey
    have hsame : (s.newEntry credentialKey).holders e = s.holders e := rfl
    rw [hsame, newEntry_heap]
    rcases InsertMap.get_set_eq_some hkey with ⟨-, rfl⟩ | ⟨-, hold⟩
    · have hzero : s.holders s.nextEntry = 0 := by
        unfold holders
        rw [Nat.count_iff_forall_not]
        intro i _ hi
        simp only [holds, Bool.and_eq_true, decide_eq_true_eq] at hi
        have := h.entry_lt hi.2
        omega
      rw [if_pos rfl, hzero]
      rfl
    · have hlt := h.mapped key e hold
      rw [if_neg (by omega)]
      exact h.refs key e hold
  · intro e hgone
    have he : e ≠ s.nextEntry := by
      rintro rfl
      exact hgone credentialKey (InsertMap.get_set_self _ _ _)
    rw [newEntry_heap, if_neg he]
    refine h.gone e fun key hkey => ?_
    exact hgone key ((InsertMap.get_set_ne _ _ (hne key e hkey)).trans hkey)
  · intro i hi
    have hcur := h.current i hi
    exact (InsertMap.get_set_ne _ _ (hne _ _ hcur)).trans hcur

theorem refs_getEntry {s : CloudClientManager} (h : s.Refs) (credentialKey : String) :
    (s.getEntry credentialKey).1.Refs ∧
      (s.getEntry credentialKey).1.entries.get credentialKey = some (s.getEntry credentialKey).2 := by
  unfold getEntry
  split
  next e he => exact ⟨h, he⟩
  next hnone => exact ⟨refs_newEntry h hnone, InsertMap.get_set_self _ _ _⟩

/-- A subscription that holds the entry is added, and counted. -/
theorem refs_hold {s t : CloudClientManager} (h : s.Refs) (sub : Subscription)
    (hkey : s.entries.get sub.credentialKey = some sub.entry) (hsub : sub.phase.holding = true)
    (hentries : t.entries = s.entries) (hnext : t.nextEntry = s.nextEntry)
    (hn : t.nextSub = s.nextSub + 1)
    (hsubs : ∀ i, t.subs i = if i = s.nextSub then sub else s.subs i)
    (hrefs : ∀ e, (t.heap e).refCount =
      (s.heap e).refCount + if e = sub.entry then 1 else 0) : t.Refs := by
  have hholders : ∀ e, (t.holders e : ℤ) = s.holders e + if e = sub.entry then 1 else 0 := by
    intro e
    unfold holders
    rw [hn, count_grow (p := fun i => holds e (t.subs i)) (q := fun i => holds e (s.subs i))
      fun x hx => by rw [hsubs, if_neg hx], hsubs, if_pos rfl]
    by_cases he : e = sub.entry
    · simp [holds, he, hsub]
    · have : sub.entry ≠ e := fun h => he h.symm
      simp [holds, he, this]
  constructor
  · intro i hi
    rw [hsubs, if_neg (by omega)]
    exact h.unborn i (by omega)
  · intro key e hm
    rw [hentries] at hm
    rw [hnext]
    exact h.mapped key e hm
  · intro key e hm
    rw [hentries] at hm
    rw [hrefs, hholders, h.refs key e hm]
  · intro e hgone
    have hgone' : s.Gone e := by
      intro key
      rw [← hentries]
      exact hgone key
    have he : e ≠ sub.entry := by
      rintro rfl
      exact hgone' _ hkey
    rw [hrefs, if_neg he]
    have := h.gone e hgone'
    omega
  · intro i hi
    rw [hsubs] at hi ⊢
    rw [hentries]
    split
    · exact hkey
    next hne =>
      rw [if_neg hne] at hi
      exact h.current i hi

theorem ensureConnected_rest (s : CloudClientManager) (e : ℕ) (credential : CloudCredential) :
    (s.ensureConnected e credential).1.entries = s.entries ∧
      (s.ensureConnected e credential).1.nextEntry = s.nextEntry ∧
      (s.ensureConnected e credential).1.nextSub = s.nextSub ∧
      (s.ensureConnected e credential).1.subs = s.subs ∧
      (∀ x, ((s.ensureConnected e credential).1.heap x).refCount = (s.heap x).refCount) ∧
      (s.ensureConnected e credential).2.holding = true := by
  unfold ensureConnected
  split
  · exact ⟨rfl, rfl, rfl, rfl, fun _ => rfl, rfl⟩
  · split
    · exact ⟨rfl, rfl, rfl, rfl, fun _ => rfl, rfl⟩
    · refine ⟨rfl, rfl, rfl, rfl, fun x => ?_, rfl⟩
      change (((s.setClient _ _).setEntry e _).heap x).refCount = _
      rw [setEntry_heap]
      split
      next hx => rw [hx]
      · rfl

theorem addRef_heap (s : CloudClientManager) (e x : ℕ) (n : ℤ) :
    (s.addRef e n).heap x =
      if x = e then { s.heap x with refCount := (s.heap x).refCount + n } else s.heap x :=
  setEntry_modify s e x fun entry => { entry with refCount := entry.refCount + n }

theorem addRef_refCount (s : CloudClientManager) (e x : ℕ) (n : ℤ) :
    ((s.addRef e n).heap x).refCount = (s.heap x).refCount + if x = e then n else 0 := by
  rw [addRef_heap]
  split
  · rfl
  · rw [Int.add_zero]

theorem refs_subscribe {s : CloudClientManager} (h : s.Refs) (credentialKey : String)
    (credential : CloudCredential) (thingId variableName : String) (handler : ℕ) :
    (s.subscribe credentialKey credential thingId variableName handler).Refs := by
  obtain ⟨hrefs, hkey⟩ := refs_getEntry h credentialKey
  unfold subscribe
  generalize s.getEntry credentialKey = got at hrefs hkey
  obtain ⟨s, e⟩ := got
  dsimp only at hrefs hkey ⊢
  obtain ⟨hentries, hnext, hn, hsubs, hcount, hhold⟩ :=
    ensureConnected_rest (s.addRef e 1) e credential
  refine refs_hold hrefs ⟨credentialKey, thingId, variableName, handler, e, _⟩ hkey hhold hentries
    hnext ?_ ?_ ?_
  · exact congrArg (· + 1) hn
  · intro i
    rw [addSub_subs, hsubs, hn]
    rfl
  · intro x
    exact (hcount x).trans (addRef_refCount s e x 1)

/-! ### A subscription ends -/

/-- A subscription stops holding its entry, and its count is lowered. One that held nothing may be
uncounted again when its entry has left the map. -/
theorem refs_drop {s t : CloudClientManager} (h : s.Refs) {i : ℕ} (phase : Phase)
    (hphase : phase.holding = false)
    (hheld : (s.subs i).phase.holding = true ∨ s.Gone (s.subs i).entry)
    (hentries : t.entries = s.entries) (hnext : t.nextEntry = s.nextEntry)
    (hn : t.nextSub = s.nextSub) (hsubs : t.subs = (s.setPhase i phase).subs)
    (hrefs : ∀ e, (t.heap e).refCount =
      (s.heap e).refCount + if e = (s.subs i).entry then -1 else 0) : t.Refs := by
  have hhold : ∀ x, (t.subs x).phase.holding = true →
      (s.subs x).phase.holding = true ∧ x ≠ i := by
    intro x hx
    rw [hsubs, setPhase_phase] at hx
    split at hx
    · rw [hphase] at hx
      contradiction
    next hne => exact ⟨hx, hne⟩
  constructor
  · intro x hx
    rw [hsubs, setPhase_phase]
    split
    · exact hphase
    · exact h.unborn x (by omega)
  · intro key e hkey
    rw [hentries] at hkey
    rw [hnext]
    exact h.mapped key e hkey
  · intro key e hkey
    rw [hentries] at hkey
    have hother : ∀ x, x ≠ i → holds e (t.subs x) = holds e (s.subs x) := by
      intro x hx
      rw [hsubs, setPhase_subs, if_neg hx]
    have hself : holds e (t.subs i) = false := by
      rw [hsubs, setPhase_subs, if_pos rfl]
      simp [holds, hphase]
    rw [hrefs, h.refs key e hkey]
    rcases hheld with hheld | hgone
    · have hchange := count_change (p := fun x => holds e (t.subs x))
        (q := fun x => holds e (s.subs x)) (h.born hheld) hother
      simp only [hself] at hchange
      unfold holders
      rw [hn]
      by_cases he : e = (s.subs i).entry
      · subst he
        have hwas : holds (s.subs i).entry (s.subs i) = true := by simp [holds, hheld]
        simp only [hwas] at hchange
        simp only [Bool.toNat_true, Bool.toNat_false] at hchange
        rw [if_pos rfl]
        omega
      · have hwas : holds e (s.subs i) = false := by
          have : (s.subs i).entry ≠ e := fun h => he h.symm
          simp [holds, this]
        simp only [hwas] at hchange
        rw [if_neg he]
        omega
    · have he : e ≠ (s.subs i).entry := by
        rintro rfl
        exact hgone key hkey
      have hsame : t.holders e = s.holders e := by
        unfold holders
        rw [hn]
        refine count_congr (p := fun x => holds e (t.subs x)) fun x _ => ?_
        by_cases hx : x = i
        · have : (s.subs i).entry ≠ e := fun h => he h.symm
          rw [hx, hself]
          simp [holds, this]
        · exact hother x hx
      rw [if_neg he, hsame, Int.add_zero]
  · intro e hgone
    have hle := h.gone e fun key => by
      rw [← hentries]
      exact hgone key
    rw [hrefs]
    split <;> omega
  · intro x hx
    obtain ⟨hold, hne⟩ := hhold x hx
    obtain ⟨he, hk, -⟩ := setPhase_static s i x phase
    rw [hsubs, he, hk, hentries]
    exact h.current x hold

theorem teardown_rest (s : CloudClientManager) (credentialKey : String) (e : ℕ) :
    (s.teardown credentialKey e).entries = s.entries.delete credentialKey ∧
      (s.teardown credentialKey e).nextEntry = s.nextEntry ∧
      (s.teardown credentialKey e).nextSub = s.nextSub ∧
      (s.teardown credentialKey e).subs = s.subs ∧
      (s.teardown credentialKey e).sets = s.sets ∧
      (s.teardown credentialKey e).nextSet = s.nextSet ∧
      (s.teardown credentialKey e).nextClient = s.nextClient ∧
      (s.teardown credentialKey e).delivery = s.delivery := by
  unfold teardown
  dsimp only
  split <;> exact ⟨rfl, rfl, rfl, rfl, rfl, rfl, rfl, rfl⟩

theorem teardown_heap (s : CloudClientManager) (credentialKey : String) (e x : ℕ) :
    (s.teardown credentialKey e).heap x =
      if x = e then
        { s.heap e with client := none, handlers := InsertMap.empty, sdkSubscribed := [] }
      else s.heap x := by
  unfold teardown
  dsimp only
  split <;> exact setEntry_heap s e x _

theorem teardown_clients (s : CloudClientManager) (credentialKey : String) (e c : ℕ) :
    (s.teardown credentialKey e).clients c =
      if (s.heap e).client = some c then { s.clients c with state := .disconnected }
      else s.clients c := by
  unfold teardown
  dsimp only
  split
  next c' hc =>
    rw [hc]
    refine (setClient_clients _ c' c _).trans ?_
    by_cases h : c = c'
    · subst h
      rw [if_pos rfl, if_pos rfl]
      rfl
    · rw [if_neg h, if_neg fun he => h (Option.some.inj he).symm]
      rfl
  next hc =>
    rw [hc, if_neg (by simp)]
    rfl

theorem refs_teardown {s : CloudClientManager} (h : s.Refs) {key : String} {e : ℕ}
    (hkey : s.entries.get key = some e) (hzero : (s.heap e).refCount = 0) :
    (s.teardown key e).Refs := by
  obtain ⟨hentries, hnext, hn, hsubs, -⟩ := teardown_rest s key e
  have hrefs : ∀ x, ((s.teardown key e).heap x).refCount = (s.heap x).refCount := by
    intro x
    rw [teardown_heap]
    split
    next hx => rw [hx]
    · rfl
  have hholders : ∀ x, (s.teardown key e).holders x = s.holders x := by
    intro x
    unfold holders
    rw [hn, hsubs]
  constructor
  · rw [hn, hsubs]
    exact h.unborn
  · intro k x hk
    rw [hentries] at hk
    rw [hnext]
    exact h.mapped k x (InsertMap.get_delete_eq_some hk).2
  · intro k x hk
    rw [hentries] at hk
    rw [hrefs, hholders]
    exact h.refs k x (InsertMap.get_delete_eq_some hk).2
  · intro x hgone
    rw [hrefs]
    by_cases hx : x = e
    · rw [hx, hzero]
    · refine h.gone x fun k hk => ?_
      have hne : key ≠ k := by
        rintro rfl
        rw [hkey] at hk
        exact hx (Option.some.inj hk).symm
      refine hgone k ?_
      rw [hentries, InsertMap.get_delete_ne _ hne]
      exact hk
  · intro i hi
    rw [hsubs] at hi ⊢
    rw [hentries]
    have hcur := h.current i hi
    have hne : key ≠ (s.subs i).credentialKey := by
      rintro rfl
      rw [hkey] at hcur
      exact h.unused hkey hzero hi (Option.some.inj hcur).symm
    rw [InsertMap.get_delete_ne _ hne]
    exact hcur

end CloudClientManager

end UnoQ.Cloud
