import UnoQ.Cloud.Connections
import UnoQ.Cloud.Demux

/-!
# The SDK subscriptions of a cloud entry

A key that is marked has been subscribed at the SDK, on the client of the entry, or its call is in
flight. In a run in which no subscription joins a key with a call in flight or with a subscription of
another pair, the SDK then has the pair of every subscription that has resolved, and once.
-/

namespace UnoQ.Cloud
open Transition

def Phase.inFlight : Phase → Bool
  | .subscribing _ _ => true
  | _ => false

theorem Phase.joined_of_inFlight {phase : Phase} (h : phase.inFlight = true) :
    phase.joined = true := by
  cases phase with
  | subscribing c set => rfl
  | opening c => contradiction
  | awaiting c => contradiction
  | resolved => contradiction
  | rejected => contradiction
  | released => contradiction

namespace CloudClientManager

def Marked (s : CloudClientManager) (cb : Callback) : Prop :=
  cb.key ∈ (s.heap cb.entry).sdkSubscribed

/-- An SDK subscription on the client of entry `e`: its mark stands, and no call is in flight. -/
structure Settled (s : CloudClientManager) (e : ℕ) (r : Registration) : Prop where
  callback : r.callback = ⟨e, subKey r.thingId r.variableName⟩
  marked : s.Marked r.callback
  landed : ∀ i, (s.subs i).phase.inFlight = true → (s.subs i).callback ≠ r.callback

structure Sdk (s : CloudClientManager) : Prop where
  marked : ∀ i, (s.subs i).phase.joined = true → s.Marked (s.subs i).callback
  alone : ∀ i j, (s.subs i).phase.inFlight = true → (s.subs j).phase.joined = true →
    (s.subs i).callback = (s.subs j).callback → i = j
  client : ∀ i c set, (s.subs i).phase = .subscribing c set →
    (s.heap (s.subs i).entry).client = some c
  resolved : ∀ i, (s.subs i).phase = .resolved → ∃ c, (s.heap (s.subs i).entry).client = some c ∧
    (s.subs i).registration ∈ (s.clients c).registrations
  settled : ∀ e c r, (s.heap e).client = some c → r ∈ (s.clients c).registrations → s.Settled e r
  distinct : ∀ c, ((s.clients c).registrations.map Registration.callback).Nodup
  backed : ∀ cb, s.Marked cb →
    (∃ i, (s.subs i).phase.inFlight = true ∧ (s.subs i).callback = cb) ∨
      ∃ c, (s.heap cb.entry).client = some c ∧
        ∃ r ∈ (s.clients c).registrations, r.callback = cb

theorem sdk_initial : initial.Sdk where
  marked i h := by simp [initial, Subscription.absent, Phase.joined] at h
  alone i j h := by simp [initial, Subscription.absent, Phase.inFlight] at h
  client i c set h := by simp [initial, Subscription.absent] at h
  resolved i h := by simp [initial, Subscription.absent] at h
  settled e c r h := by simp [initial, ClientEntry.new] at h
  distinct c := List.nodup_nil
  backed cb h := by simp [initial, Marked, ClientEntry.new] at h

/-- A step that leaves the marks and the SDK alone. What has not joined may change. -/
theorem Sdk.quiet {s t : CloudClientManager} (h : s.Sdk)
    (hheap : ∀ e, (t.heap e).client = (s.heap e).client ∧
      (t.heap e).sdkSubscribed = (s.heap e).sdkSubscribed)
    (hclients : ∀ c, (t.clients c).registrations = (s.clients c).registrations)
    (hjoined : ∀ i, (t.subs i).phase.joined = true → t.subs i = s.subs i)
    (hflight : ∀ i, (s.subs i).phase.inFlight = true → t.subs i = s.subs i) : t.Sdk := by
  have hmarked : ∀ cb, t.Marked cb ↔ s.Marked cb := by
    intro cb
    unfold Marked
    rw [(hheap _).2]
  constructor
  · intro i hi
    have hsame := hjoined i hi
    rw [hsame] at hi ⊢
    rw [hmarked]
    exact h.marked i hi
  · intro i j hi hj he
    have hsi := hjoined i (Phase.joined_of_inFlight hi)
    have hsj := hjoined j hj
    rw [hsi] at hi he
    rw [hsj] at hj he
    exact h.alone i j hi hj he
  · intro i c set hi
    have hsame := hjoined i (by rw [hi]; rfl)
    rw [hsame] at hi ⊢
    rw [(hheap _).1]
    exact h.client i c set hi
  · intro i hi
    have hsame := hjoined i (by rw [hi]; rfl)
    rw [hsame] at hi ⊢
    obtain ⟨c, hc, hmem⟩ := h.resolved i hi
    refine ⟨c, ?_, ?_⟩
    · rw [(hheap _).1]
      exact hc
    · rw [hclients]
      exact hmem
  · intro e c r he hr
    rw [(hheap e).1] at he
    rw [hclients] at hr
    have hold := h.settled e c r he hr
    refine ⟨hold.callback, (hmarked _).mpr hold.marked, ?_⟩
    intro i hi
    have hsame := hjoined i (Phase.joined_of_inFlight hi)
    rw [hsame] at hi ⊢
    exact hold.landed i hi
  · intro c
    rw [hclients]
    exact h.distinct c
  · intro cb hcb
    rw [hmarked] at hcb
    rcases h.backed cb hcb with ⟨i, hi, he⟩ | ⟨c, hc, r, hr, he⟩
    · refine Or.inl ⟨i, ?_⟩
      rw [hflight i hi]
      exact ⟨hi, he⟩
    · refine Or.inr ⟨c, ?_, r, ?_, he⟩
      · rw [(hheap _).1]
        exact hc
      · rw [hclients]
        exact hr

theorem sdk_modify {s : CloudClientManager} (h : s.Sdk) (e : ℕ) (f : ClientEntry → ClientEntry)
    (hf : ∀ entry, (f entry).client = entry.client ∧
      (f entry).sdkSubscribed = entry.sdkSubscribed) : (s.setEntry e (f (s.heap e))).Sdk := by
  refine h.quiet (fun x => ?_) (fun _ => rfl) (fun _ _ => rfl) (fun _ _ => rfl)
  rw [setEntry_modify]
  split
  · exact hf _
  · exact ⟨rfl, rfl⟩

theorem sdk_addRef {s : CloudClientManager} (h : s.Sdk) (e : ℕ) (n : ℤ) : (s.addRef e n).Sdk :=
  sdk_modify h e (fun entry => { entry with refCount := entry.refCount + n }) fun _ => ⟨rfl, rfl⟩

/-! ### Subscriptions begin -/

theorem sdk_newEntry {s : CloudClientManager} (h : s.Sdk) (hr : s.Refs) (credentialKey : String) :
    (s.newEntry credentialKey).Sdk := by
  have hheap := newEntry_heap s credentialKey
  have hold : ∀ i, (s.subs i).phase.joined = true →
      (s.newEntry credentialKey).heap (s.subs i).entry = s.heap (s.subs i).entry := by
    intro i hi
    rw [hheap, if_neg (Nat.ne_of_lt (hr.entry_lt (Phase.holding_of_joined hi)))]
  have hclient : ∀ e c, ((s.newEntry credentialKey).heap e).client = some c →
      (s.newEntry credentialKey).heap e = s.heap e := by
    intro e c he
    rw [hheap] at he ⊢
    split at he
    · contradiction
    next hne => rw [if_neg hne]
  have hmarked : ∀ cb, (s.newEntry credentialKey).heap cb.entry = s.heap cb.entry → s.Marked cb →
      (s.newEntry credentialKey).Marked cb := by
    intro cb hcb hm
    unfold Marked
    rw [hcb]
    exact hm
  constructor
  · exact fun i hi => hmarked _ (hold i hi) (h.marked i hi)
  · exact h.alone
  · intro i c set hi
    have hi' : (s.subs i).phase = .subscribing c set := hi
    exact (congrArg _ (hold i (by rw [hi']; rfl))).trans (h.client i c set hi)
  · intro i hi
    have hi' : (s.subs i).phase = .resolved := hi
    obtain ⟨c, hc, hmem⟩ := h.resolved i hi
    exact ⟨c, (congrArg _ (hold i (by rw [hi']; rfl))).trans hc, hmem⟩
  · intro e c r he hr
    have hsame := hclient e c he
    rw [hsame] at he
    obtain ⟨hcb, hm, hlanded⟩ := h.settled e c r he hr
    refine ⟨hcb, hmarked _ ?_ hm, hlanded⟩
    rw [hcb]
    exact hsame
  · exact h.distinct
  · intro cb hcb
    unfold Marked at hcb
    by_cases he : cb.entry = s.nextEntry
    · rw [hheap, if_pos he] at hcb
      contradiction
    · have hsame : (s.newEntry credentialKey).heap cb.entry = s.heap cb.entry := by
        rw [hheap, if_neg he]
      rw [hsame] at hcb
      rcases h.backed cb hcb with hflight | ⟨c, hc, hr⟩
      · exact Or.inl hflight
      · exact Or.inr ⟨c, (congrArg _ hsame).trans hc, hr⟩

theorem sdk_addSub {s : CloudClientManager} (h : s.Sdk)
    (hborn : ∀ i, (s.subs i).phase.holding = true → i < s.nextSub) {sub : Subscription}
    (hsub : sub.phase.joined = false) : (s.addSub sub).Sdk := by
  have hsubs := addSub_subs s sub
  refine h.quiet (fun _ => ⟨rfl, rfl⟩) (fun _ => rfl) ?_ ?_
  · intro i hi
    rw [hsubs] at hi ⊢
    split at hi
    · rw [hsub] at hi
      contradiction
    next hne => rw [if_neg hne]
  · intro i hi
    have := hborn i (Phase.holding_of_joined (Phase.joined_of_inFlight hi))
    rw [hsubs, if_neg (by omega)]

/-- A subscription that has not joined, or leaves, changes its phase. -/
theorem sdk_setPhase {s : CloudClientManager} (h : s.Sdk) {i : ℕ} (phase : Phase)
    (hphase : phase.joined = false) (hi : (s.subs i).phase.inFlight = false) :
    (s.setPhase i phase).Sdk := by
  refine h.quiet (fun _ => ⟨rfl, rfl⟩) (fun _ => rfl) ?_ ?_
  · intro x hx
    rw [setPhase_phase] at hx
    rw [setPhase_subs]
    split at hx
    · rw [hphase] at hx
      contradiction
    next hne => rw [if_neg hne]
  · intro x hx
    rw [setPhase_subs, if_neg]
    rintro rfl
    rw [hi] at hx
    contradiction

/-- A client has no SDK subscriptions when it has just connected. -/
theorem sdk_connected {s : CloudClientManager} (h : s.Sdk) (hl : s.Link) {c : ℕ}
    (hc : (s.clients c).state = .connecting) : (s.connected c).Sdk := by
  have hheap := connected_heap s c
  have hregs : ∀ x, ((s.connected c).clients x).registrations = (s.clients x).registrations :=
    fun x => (setState_rest s c x .connected).2
  have hvacant := (hl.pending _ c (hl.connecting c hc)).vacant (by simp [hc])
  have hkept : ∀ e x, (s.heap e).client = some x → ((s.connected c).heap e).client = some x := by
    intro e x he
    rw [hheap, if_neg]
    · exact he
    · rintro rfl
      rw [hvacant] at he
      contradiction
  have hmarks : ∀ e, ((s.connected c).heap e).sdkSubscribed = (s.heap e).sdkSubscribed := by
    intro e
    rw [hheap]
    split <;> rfl
  have hmarked : ∀ cb, (s.connected c).Marked cb ↔ s.Marked cb := by
    intro cb
    unfold Marked
    rw [hmarks]
  constructor
  · exact fun i hi => (hmarked _).mpr (h.marked i hi)
  · exact h.alone
  · exact fun i x set hi => hkept _ x (h.client i x set hi)
  · intro i hi
    obtain ⟨x, hx, hmem⟩ := h.resolved i hi
    refine ⟨x, hkept _ x hx, ?_⟩
    rw [hregs]
    exact hmem
  · intro e x r he hr
    rw [hheap] at he
    rw [hregs] at hr
    split at he
    · cases he
      rw [hl.silent c hc] at hr
      contradiction
    · obtain ⟨hcb, hm, hlanded⟩ := h.settled e x r he hr
      exact ⟨hcb, (hmarked _).mpr hm, hlanded⟩
  · intro x
    rw [hregs]
    exact h.distinct x
  · intro cb hcb
    rcases h.backed cb ((hmarked cb).mp hcb) with hflight | ⟨x, hx, r, hr, he⟩
    · exact Or.inl hflight
    · refine Or.inr ⟨x, hkept _ x hx, r, ?_, he⟩
      rw [hregs]
      exact hr

/-! ### Subscriptions join -/

theorem mark_heap (s : CloudClientManager) (e : ℕ) (key : String) (x : ℕ) :
    (s.mark e key).heap x =
      if x = e then { s.heap x with sdkSubscribed := (s.heap x).sdkSubscribed ++ [key] }
      else s.heap x :=
  setEntry_modify s e x fun entry => { entry with sdkSubscribed := entry.sdkSubscribed ++ [key] }

theorem mark_marked (s : CloudClientManager) (cb cb' : Callback) :
    (s.mark cb.entry cb.key).Marked cb' ↔ s.Marked cb' ∨ cb' = cb := by
  obtain ⟨e, key⟩ := cb
  obtain ⟨e', key'⟩ := cb'
  unfold Marked
  rw [mark_heap]
  by_cases he : e' = e
  · simp [he]
  · simp [he]

/-- No call of the key is in flight, and the SDK has no subscription of another pair with the key. -/
def Free (s : CloudClientManager) (i c : ℕ) : Prop :=
  (∀ j < s.nextSub, (s.subs j).phase.inFlight = true → (s.subs j).callback ≠ (s.subs i).callback) ∧
    ∀ r ∈ (s.clients c).registrations, subKey r.thingId r.variableName = (s.subs i).key →
      r.thingId = (s.subs i).thingId ∧ r.variableName = (s.subs i).variableName

theorem free_congr {s t : CloudClientManager} {i c : ℕ} (hsubs : t.subs = s.subs)
    (hn : t.nextSub = s.nextSub) (hclients : t.clients = s.clients) : t.Free i c ↔ s.Free i c := by
  unfold Free
  rw [hsubs, hn, hclients]

/-- The key is marked: the SDK has the pair. -/
theorem sdk_resolve {s : CloudClientManager} (h : s.Sdk)
    (hborn : ∀ i, (s.subs i).phase.holding = true → i < s.nextSub) {i c : ℕ}
    (hi : (s.subs i).phase.joined = false) (hc : (s.heap (s.subs i).entry).client = some c)
    (hmarked : s.Marked (s.subs i).callback) (hfree : s.Free i c) :
    (s.setPhase i .resolved).Sdk := by
  obtain ⟨hnone, hpair⟩ := hfree
  have hmem : (s.subs i).registration ∈ (s.clients c).registrations := by
    rcases h.backed _ hmarked with ⟨j, hj, he⟩ | ⟨c', hc', r, hr', he⟩
    · have hlt := hborn j (Phase.holding_of_joined (Phase.joined_of_inFlight hj))
      exact absurd he (hnone j hlt hj)
    · have hsame : c' = c := Option.some.inj (hc'.symm.trans hc)
      subst hsame
      obtain ⟨hcb, -, -⟩ := h.settled _ c' r hc' hr'
      have hkey : subKey r.thingId r.variableName = (s.subs i).key := by
        rw [he] at hcb
        exact (congrArg Callback.key hcb).symm
      obtain ⟨ht, hv⟩ := hpair r hr' hkey
      have hreg : r = (s.subs i).registration := by
        obtain ⟨t, v, cb⟩ := r
        dsimp only at ht hv he
        rw [ht, hv, he]
        rfl
      rw [← hreg]
      exact hr'
  have hphase := fun x => setPhase_phase s i x .resolved
  have hstatic := fun x => setPhase_static s i x .resolved
  have hflight : ∀ x, ((s.setPhase i .resolved).subs x).phase.inFlight = true →
      x ≠ i ∧ (s.subs x).phase.inFlight = true := by
    intro x hx
    rw [hphase] at hx
    split at hx
    · contradiction
    next hne => exact ⟨hne, hx⟩
  constructor
  · intro x hx
    obtain ⟨-, -, -, hcb, -⟩ := hstatic x
    rw [hphase] at hx
    rw [hcb]
    split at hx
    next hxi =>
      rw [hxi]
      exact hmarked
    · exact h.marked x hx
  · intro x y hx hy he
    obtain ⟨hne, hx⟩ := hflight x hx
    obtain ⟨-, -, -, hcbx, -⟩ := hstatic x
    obtain ⟨-, -, -, hcby, -⟩ := hstatic y
    rw [hcbx, hcby] at he
    rw [hphase] at hy
    split at hy
    next hyi =>
      rw [hyi] at he
      exact absurd he (hnone x (hborn x (Phase.holding_of_joined (Phase.joined_of_inFlight hx))) hx)
    · exact h.alone x y hx hy he
  · intro x c' set hx
    rw [hphase] at hx
    rw [(hstatic x).1]
    split at hx
    · contradiction
    · exact h.client x c' set hx
  · intro x hx
    obtain ⟨he, -, -, -, hreg⟩ := hstatic x
    rw [hphase] at hx
    rw [he, hreg]
    split at hx
    next hxi =>
      rw [hxi]
      exact ⟨c, hc, hmem⟩
    · exact h.resolved x hx
  · intro e c' r he hr
    obtain ⟨hcb, hm, hlanded⟩ := h.settled e c' r he hr
    refine ⟨hcb, hm, ?_⟩
    intro x hx
    rw [(hstatic x).2.2.2.1]
    exact hlanded x (hflight x hx).2
  · exact h.distinct
  · intro cb hcb
    rcases h.backed cb hcb with ⟨x, hx, he⟩ | hreg
    · refine Or.inl ⟨x, ?_, (hstatic x).2.2.2.1.trans he⟩
      have hne : x ≠ i := by
        rintro rfl
        rw [Phase.joined_of_inFlight hx] at hi
        contradiction
      rw [hphase, if_neg hne]
      exact hx
    · exact Or.inr hreg

/-- The key is not marked: it is now, and its call is in flight. -/
theorem sdk_subscribe {s t : CloudClientManager} (h : s.Sdk) {i c set : ℕ}
    (hc : (s.heap (s.subs i).entry).client = some c)
    (hmarked : ¬ s.Marked (s.subs i).callback)
    (hclient : ∀ e, (t.heap e).client = (s.heap e).client)
    (hmarks : ∀ cb, t.Marked cb ↔ s.Marked cb ∨ cb = (s.subs i).callback)
    (hclients : t.clients = s.clients) (hsubs : t.subs = (s.setPhase i (.subscribing c set)).subs) :
    t.Sdk := by
  have hphase : ∀ x, (t.subs x).phase = if x = i then .subscribing c set else (s.subs x).phase := by
    intro x
    rw [hsubs]
    exact setPhase_phase s i x _
  have hstatic := fun x => setPhase_static s i x (.subscribing c set)
  rw [← hsubs] at hstatic
  -- The other subscriptions that have joined are of other keys.
  have hother : ∀ x, x ≠ i → (t.subs x).phase.joined = true →
      (s.subs x).phase.joined = true ∧ (s.subs x).callback ≠ (s.subs i).callback := by
    intro x hne hx
    rw [hphase, if_neg hne] at hx
    refine ⟨hx, fun he => hmarked ?_⟩
    rw [← he]
    exact h.marked x hx
  constructor
  · intro x hx
    rw [hmarks, (hstatic x).2.2.2.1]
    by_cases hxi : x = i
    · rw [hxi]
      exact Or.inr rfl
    · exact Or.inl (h.marked x (hother x hxi hx).1)
  · intro x y hx hy he
    rw [(hstatic x).2.2.2.1, (hstatic y).2.2.2.1] at he
    by_cases hxi : x = i <;> by_cases hyi : y = i
    · rw [hxi, hyi]
    · rw [hxi] at he
      exact absurd he.symm (hother y hyi hy).2
    · rw [hyi] at he
      exact absurd he (hother x hxi (Phase.joined_of_inFlight hx)).2
    · rw [hphase, if_neg hxi] at hx
      exact h.alone x y hx (hother y hyi hy).1 he
  · intro x c' set' hx
    rw [hphase] at hx
    rw [hclient, (hstatic x).1]
    split at hx
    next hxi =>
      cases hx
      rw [hxi]
      exact hc
    · exact h.client x c' set' hx
  · intro x hx
    obtain ⟨he, -, -, -, hreg⟩ := hstatic x
    rw [hphase] at hx
    rw [he, hreg, hclient, hclients]
    split at hx
    · contradiction
    · exact h.resolved x hx
  · intro e c' r he hr
    rw [hclient] at he
    rw [hclients] at hr
    obtain ⟨hcb, hm, hlanded⟩ := h.settled e c' r he hr
    refine ⟨hcb, (hmarks _).mpr (Or.inl hm), ?_⟩
    intro x hx
    rw [(hstatic x).2.2.2.1]
    by_cases hxi : x = i
    · rw [hxi]
      intro heq
      rw [← heq] at hm
      exact hmarked hm
    · rw [hphase, if_neg hxi] at hx
      exact hlanded x hx
  · rw [hclients]
    exact h.distinct
  · intro cb hcb
    rw [hclients]
    rcases (hmarks cb).mp hcb with hm | he
    · rcases h.backed cb hm with ⟨x, hx, he⟩ | ⟨c', hc', hr⟩
      · refine Or.inl ⟨x, ?_, (hstatic x).2.2.2.1.trans he⟩
        rw [hphase]
        split
        · rfl
        · exact hx
      · exact Or.inr ⟨c', (hclient _).trans hc', hr⟩
    · refine Or.inl ⟨i, ?_, (hstatic i).2.2.2.1.trans he.symm⟩
      rw [hphase, if_pos rfl]
      rfl

/-! ### Calls of the SDK settle -/

theorem sdkResolved_registrations (s : CloudClientManager) (i c x : ℕ) :
    ((s.sdkResolved i c).clients x).registrations =
      if x = c then (s.clients c).registrations ++ [(s.subs i).registration]
      else (s.clients x).registrations := by
  refine (congrArg CloudClient.registrations (setClient_clients s c x _)).trans ?_
  split <;> rfl

theorem sdk_sdkResolved {s : CloudClientManager} (h : s.Sdk) (hl : s.Link) {i c set : ℕ}
    (hi : (s.subs i).phase = .subscribing c set) : (s.sdkResolved i c).Sdk := by
  have hregs := sdkResolved_registrations s i c
  have hphase : ∀ x, ((s.sdkResolved i c).subs x).phase =
      if x = i then .resolved else (s.subs x).phase := fun x => setPhase_phase _ i x _
  have hstatic : ∀ x, ((s.sdkResolved i c).subs x).entry = (s.subs x).entry ∧
      ((s.sdkResolved i c).subs x).callback = (s.subs x).callback ∧
      ((s.sdkResolved i c).subs x).registration = (s.subs x).registration := by
    intro x
    obtain ⟨he, -, -, hcb, hreg⟩ := setPhase_static (s.setClient c _) i x .resolved
    exact ⟨he, hcb, hreg⟩
  have hflying : (s.subs i).phase.inFlight = true := by rw [hi]; rfl
  have hjoining : (s.subs i).phase.joined = true := by rw [hi]; rfl
  have hc := h.client i c set hi
  have hflight : ∀ x, ((s.sdkResolved i c).subs x).phase.inFlight = true →
      x ≠ i ∧ (s.subs x).phase.inFlight = true := by
    intro x hx
    rw [hphase] at hx
    split at hx
    · contradiction
    next hne => exact ⟨hne, hx⟩
  have hjoined : ∀ x, ((s.sdkResolved i c).subs x).phase.joined = true →
      (s.subs x).phase.joined = true := by
    intro x hx
    rw [hphase] at hx
    split at hx
    next hxi =>
      rw [hxi]
      exact hjoining
    · exact hx
  have hkept : ∀ x r, r ∈ (s.clients x).registrations →
      r ∈ ((s.sdkResolved i c).clients x).registrations := by
    intro x r hr
    rw [hregs]
    split
    next hx =>
      rw [hx] at hr
      exact List.mem_append_left _ hr
    · exact hr
  constructor
  · intro x hx
    rw [(hstatic x).2.1]
    exact h.marked x (hjoined x hx)
  · intro x y hx hy he
    rw [(hstatic x).2.1, (hstatic y).2.1] at he
    exact h.alone x y (hflight x hx).2 (hjoined y hy) he
  · intro x c' set' hx
    rw [hphase] at hx
    rw [(hstatic x).1]
    split at hx
    · contradiction
    · exact h.client x c' set' hx
  · intro x hx
    rw [hphase] at hx
    rw [(hstatic x).1, (hstatic x).2.2]
    split at hx
    next hxi =>
      rw [hxi]
      refine ⟨c, hc, ?_⟩
      rw [hregs, if_pos rfl]
      exact List.mem_append_right _ (List.mem_singleton_self _)
    · obtain ⟨c', hc', hmem⟩ := h.resolved x hx
      exact ⟨c', hc', hkept c' _ hmem⟩
  · intro e c' r he hr
    rw [hregs] at hr
    have hnew : c' = c ∧ r = (s.subs i).registration ∨ r ∈ (s.clients c').registrations := by
      split at hr
      next hcc =>
        rcases List.mem_append.mp hr with hr | hr
        · rw [hcc]
          exact Or.inr hr
        · exact Or.inl ⟨hcc, List.mem_singleton.mp hr⟩
      · exact Or.inr hr
    rcases hnew with ⟨rfl, rfl⟩ | hr
    · have hentry := hl.client_inj he hc
      refine ⟨?_, h.marked i hjoining, ?_⟩
      · rw [hentry]
        rfl
      · intro x hx heq
        rw [(hstatic x).2.1] at heq
        obtain ⟨hne, hx⟩ := hflight x hx
        exact hne (h.alone x i hx hjoining heq)
    · obtain ⟨hcb, hm, hlanded⟩ := h.settled e c' r he hr
      refine ⟨hcb, hm, ?_⟩
      intro x hx
      rw [(hstatic x).2.1]
      exact hlanded x (hflight x hx).2
  · intro x
    rw [hregs]
    split
    · rw [List.map_append, List.map_singleton, ← List.concat_eq_append]
      refine (h.distinct c).concat ?_
      intro hmem
      obtain ⟨r, hr, he⟩ := List.mem_map.mp hmem
      exact (h.settled _ c r hc hr).landed i hflying he.symm
    · exact h.distinct x
  · intro cb hcb
    rcases h.backed cb hcb with ⟨x, hx, he⟩ | ⟨c', hc', r, hr, he⟩
    · by_cases hxi : x = i
      · subst hxi
        subst he
        refine Or.inr ⟨c, hc, (s.subs x).registration, ?_, rfl⟩
        rw [hregs, if_pos rfl]
        exact List.mem_append_right _ (List.mem_singleton_self _)
      · refine Or.inl ⟨x, ?_, (hstatic x).2.1.trans he⟩
        rw [hphase, if_neg hxi]
        exact hx
    · exact Or.inr ⟨c', hc', r, hkept c' r hr, he⟩

theorem unmark_heap (s : CloudClientManager) (e : ℕ) (key : String) (x : ℕ) :
    (s.unmark e key).heap x = if x = e then
      { s.heap x with sdkSubscribed := (s.heap x).sdkSubscribed.filter fun k => decide (k ≠ key) }
      else s.heap x :=
  setEntry_modify s e x fun entry =>
    { entry with sdkSubscribed := entry.sdkSubscribed.filter fun k => decide (k ≠ key) }

theorem unmark_marked (s : CloudClientManager) (cb cb' : Callback) :
    (s.unmark cb.entry cb.key).Marked cb' ↔ s.Marked cb' ∧ cb' ≠ cb := by
  obtain ⟨e, key⟩ := cb
  obtain ⟨e', key'⟩ := cb'
  unfold Marked
  rw [unmark_heap]
  by_cases he : e' = e
  · simp [he]
  · simp [he]

/-- The call fails and its key is not marked any more. No other subscription is of the key. -/
theorem sdk_unmark {s t : CloudClientManager} (h : s.Sdk) {i : ℕ}
    (hi : (s.subs i).phase.inFlight = true)
    (hclient : ∀ e, (t.heap e).client = (s.heap e).client)
    (hmarks : ∀ cb, t.Marked cb ↔ s.Marked cb ∧ cb ≠ (s.subs i).callback)
    (hclients : t.clients = s.clients) (hsubs : t.subs = (s.setPhase i .rejected).subs) : t.Sdk := by
  have hold : ∀ x, (t.subs x).phase.joined = true → x ≠ i ∧ t.subs x = s.subs x := by
    intro x hx
    rw [hsubs] at hx ⊢
    rw [setPhase_phase] at hx
    split at hx
    · contradiction
    next hne => exact ⟨hne, by rw [setPhase_subs, if_neg hne]⟩
  constructor
  · intro x hx
    obtain ⟨hne, hsame⟩ := hold x hx
    rw [hsame] at hx ⊢
    refine (hmarks _).mpr ⟨h.marked x hx, fun he => hne ?_⟩
    exact (h.alone i x hi hx he.symm).symm
  · intro x y hx hy he
    have hsx := (hold x (Phase.joined_of_inFlight hx)).2
    have hsy := (hold y hy).2
    rw [hsx] at hx he
    rw [hsy] at hy he
    exact h.alone x y hx hy he
  · intro x c set hx
    have hsame := (hold x (by rw [hx]; rfl)).2
    rw [hsame] at hx ⊢
    rw [hclient]
    exact h.client x c set hx
  · intro x hx
    have hsame := (hold x (by rw [hx]; rfl)).2
    rw [hsame] at hx ⊢
    rw [hclient, hclients]
    exact h.resolved x hx
  · intro e c r he hr
    rw [hclient] at he
    rw [hclients] at hr
    obtain ⟨hcb, hm, hlanded⟩ := h.settled e c r he hr
    refine ⟨hcb, (hmarks _).mpr ⟨hm, fun heq => hlanded i hi heq.symm⟩, ?_⟩
    intro x hx
    have hsame := (hold x (Phase.joined_of_inFlight hx)).2
    rw [hsame] at hx ⊢
    exact hlanded x hx
  · rw [hclients]
    exact h.distinct
  · intro cb hcb
    obtain ⟨hm, hne⟩ := (hmarks cb).mp hcb
    rw [hclients, hclient]
    rcases h.backed cb hm with ⟨x, hx, he⟩ | hreg
    · refine Or.inl ⟨x, ?_⟩
      have hxi : x ≠ i := by
        rintro rfl
        exact hne he.symm
      rw [hsubs, setPhase_subs, if_neg hxi]
      exact ⟨hx, he⟩
    · exact Or.inr hreg

/-! ### An entry is torn down -/

theorem sdk_teardown {s : CloudClientManager} (h : s.Sdk) {key : String} {e : ℕ}
    (hunused : ∀ i, (s.subs i).phase.holding = true → (s.subs i).entry ≠ e) :
    (s.teardown key e).Sdk := by
  obtain ⟨-, -, -, hsubs, -⟩ := teardown_rest s key e
  have hheap := teardown_heap s key e
  have hregs : ∀ c, ((s.teardown key e).clients c).registrations = (s.clients c).registrations := by
    intro c
    rw [teardown_clients]
    split <;> rfl
  have hother : ∀ x, x ≠ e → (s.teardown key e).heap x = s.heap x := by
    intro x hx
    rw [hheap, if_neg hx]
  have hold : ∀ i, (s.subs i).phase.joined = true →
      (s.teardown key e).heap (s.subs i).entry = s.heap (s.subs i).entry :=
    fun i hi => hother _ (hunused i (Phase.holding_of_joined hi))
  have hmarked : ∀ cb, (s.teardown key e).Marked cb ↔ cb.entry ≠ e ∧ s.Marked cb := by
    intro cb
    unfold Marked
    rw [hheap]
    split
    next he => simp [he]
    next he => simp [he]
  constructor
  · intro i hi
    rw [hsubs] at hi ⊢
    exact (hmarked _).mpr ⟨hunused i (Phase.holding_of_joined hi), h.marked i hi⟩
  · rw [hsubs]
    exact h.alone
  · intro i c set hi
    rw [hsubs] at hi ⊢
    rw [hold i (by rw [hi]; rfl)]
    exact h.client i c set hi
  · intro i hi
    rw [hsubs] at hi ⊢
    obtain ⟨c, hc, hmem⟩ := h.resolved i hi
    refine ⟨c, ?_, ?_⟩
    · rw [hold i (by rw [hi]; rfl)]
      exact hc
    · rw [hregs]
      exact hmem
  · intro x c r hx hr
    have hne : x ≠ e := by
      rintro rfl
      rw [hheap, if_pos rfl] at hx
      contradiction
    rw [hother x hne] at hx
    rw [hregs] at hr
    obtain ⟨hcb, hm, hlanded⟩ := h.settled x c r hx hr
    refine ⟨hcb, (hmarked _).mpr ⟨?_, hm⟩, ?_⟩
    · rw [hcb]
      exact hne
    · rw [hsubs]
      exact hlanded
  · intro c
    rw [hregs]
    exact h.distinct c
  · intro cb hcb
    obtain ⟨hne, hm⟩ := (hmarked cb).mp hcb
    rcases h.backed cb hm with hflight | ⟨c, hc, r, hr, he⟩
    · rw [hsubs]
      exact Or.inl hflight
    · refine Or.inr ⟨c, ?_, r, ?_, he⟩
      · rw [hother _ hne]
        exact hc
      · rw [hregs]
        exact hr

end CloudClientManager

end UnoQ.Cloud
