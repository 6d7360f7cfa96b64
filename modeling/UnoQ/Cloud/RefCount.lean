import UnoQ.Cloud.Books
import UnoQ.Cloud.Delivery

/-!
# Cloud clients live as long as their subscriptions

The count of an entry is the number of its subscriptions, one client serves a credential key, and a
client is connected until the last subscription of its entry ends, and not after.
-/

namespace UnoQ.Cloud
open Transition Counting

/-- The connect of the client has succeeded. -/
def CloudClient.Established (client : CloudClient) : Prop :=
  client.state = .connected ∨ client.state = .disconnected

namespace CloudClientManager

/-- An established client stays so, and stays a client of its entry. -/
def Lasting (s t : CloudClientManager) (c : ℕ) : Prop :=
  (t.clients c).Established ∧ (t.clients c).entry = (s.clients c).entry

theorem Lasting.same {s t : CloudClientManager} {c : ℕ} (hc : (s.clients c).Established)
    (hsame : t.clients c = s.clients c) : s.Lasting t c := by
  unfold Lasting
  rw [hsame]
  exact ⟨hc, rfl⟩

theorem lasting_setState {s t : CloudClientManager} {c x : ℕ} {state : ClientState}
    (hx : (s.clients x).Established) (hc : (s.clients c).state = .connecting)
    (hclients : t.clients = (s.setState c state).clients) : s.Lasting t x := by
  refine .same hx ?_
  rw [hclients]
  unfold setState
  rw [setClient_clients, if_neg]
  rintro rfl
  rcases hx with hx | hx <;> rw [hc] at hx <;> contradiction

theorem lasting_release {s u : CloudClientManager} {x : ℕ} (hx : (s.clients x).Established)
    (hclients : u.clients = s.clients) (key : String) (e : ℕ) : s.Lasting (u.release key e) x := by
  have hsame : (u.addRef e (-1)).clients x = s.clients x := congrFun hclients x
  unfold release
  dsimp only
  split
  · unfold Lasting
    rw [teardown_clients, hsame]
    split
    · exact ⟨Or.inr rfl, rfl⟩
    · exact ⟨hx, rfl⟩
  · exact .same hx hsame

theorem lasting_step {s t : CloudClientManager} {e : Event} (h : s.Books) (hs : s.step e = some t)
    {x : ℕ} (hx : (s.clients x).Established) : s.Lasting t x := by
  have hlt : x < s.nextClient := by
    refine h.link.client_lt ?_
    rcases hx with hx | hx <;> simp [hx]
  obtain ⟨ht, -⟩ := turns_of_step hs
  cases ht with
  | subscribe credentialKey credential thingId variableName handler =>
    refine .same hx ?_
    have hgot : (s.getEntry credentialKey).1.clients = s.clients ∧
        (s.getEntry credentialKey).1.nextClient = s.nextClient := by
      unfold getEntry
      split <;> exact ⟨rfl, rfl⟩
    obtain ⟨hclients, -, -⟩ := ensureConnected_phase ((s.getEntry credentialKey).1.addRef
      (s.getEntry credentialKey).2 1) (s.getEntry credentialKey).2 credential
    rcases hclients x with hsame | ⟨hnew, -⟩
    · exact hsame.trans (congrFun hgot.1 x)
    · have hnext : x = (s.getEntry credentialKey).1.nextClient := hnew
      omega
  | connected c hc => exact lasting_setState hx hc rfl
  | connectFailed c hc => exact lasting_setState hx hc rfl
  | connectSettled i c hi hc => exact .same hx rfl
  | connectThrew i c hi hc => exact .same hx rfl
  | join i c hi hc => exact .same hx (congrFun (join_rest s i c).2.2.2.1 x)
  | sdkResolved i c set hi =>
    have hclients := setClient_clients s c x { s.clients c with
      registrations := (s.clients c).registrations ++ [(s.subs i).registration] }
    change ((s.setClient c _).clients x).Established ∧ ((s.setClient c _).clients x).entry = _
    rw [hclients]
    split
    next hxc =>
      rw [hxc] at hx ⊢
      exact ⟨hx, rfl⟩
    next => exact ⟨hx, rfl⟩
  | sdkThrew i c set hi =>
    rw [sdkThrew_eq]
    refine lasting_release hx ?_ ..
    exact (deleteHandler_rest _ _ _ _ _).2.2.2.2.1
  | tearDown i hi =>
    rw [tearDown_eq]
    split
    · refine lasting_release hx ?_ ..
      exact (deleteHandler_rest _ _ _ _ _).2.2.2.2.1
    · exact lasting_release (u := s.setPhase i .released) hx rfl ..
  | deliver c r value hr =>
    refine .same hx ?_
    unfold onValue
    split <;> rfl
  | call d handler rest outcome hd hahead =>
    exact .same hx (congrFun (call_rest s d handler outcome).2.2.2.2.2.2.1 x)
  | delivered d hd hahead => exact .same hx rfl

theorem lasting_run {s t : CloudClientManager} (hs : machine.Reach Paired s)
    (ht : (machine.startingAt s).Reach Paired t) {c : ℕ} (hc : (s.clients c).Established) :
    s.Lasting t c := by
  induction ht with
  | init hi =>
    have hi : _ = s := hi
    exact .same hc (by rw [hi])
  | step hr hstep _ ih =>
    have hbooks := books_reach (hs.append hr)
    have hnext := lasting_step hbooks hstep ih.1
    exact ⟨hnext.1, hnext.2.trans ih.2⟩

/-- In a state with exact books, a client that was established is connected as long as its entry is
held. -/
theorem established_state {s : CloudClientManager} (h : s.Books) {c : ℕ}
    (hc : (s.clients c).Established) :
    (s.clients c).state = if s.holders (s.clients c).entry = 0 then .disconnected else .connected := by
  rcases hc with hc | hc
  · obtain ⟨i, hi, he⟩ := h.held c hc
    rw [if_neg, hc]
    intro hzero
    have hnot := not_of_count_eq_zero (p := fun x => holds (s.clients c).entry (s.subs x)) hzero
      (h.refs.born hi)
    simp [holds, he, hi] at hnot
  · rw [if_pos (h.refs.holders_gone (h.left c hc).2), hc]

/-- The client is up, or on its way up, for a credential key that is in use. -/
def Serves (s : CloudClientManager) (credentialKey : String) (c : ℕ) : Prop :=
  s.entries.get credentialKey = some (s.clients c).entry ∧
    ((s.clients c).state = .connecting ∨ (s.clients c).state = .connected)

theorem serves_unique {s : CloudClientManager} (h : s.Books) {credentialKey : String} {c c' : ℕ}
    (hc : s.Serves credentialKey c) (hc' : s.Serves credentialKey c') : c = c' := by
  obtain ⟨hkey, hc⟩ := hc
  obtain ⟨hkey', hc'⟩ := hc'
  have he : (s.clients c').entry = (s.clients c).entry :=
    Option.some.inj (hkey'.symm.trans hkey)
  -- A connect begins when the entry has no client, and none is made while it lasts.
  have hapart : ∀ a b, (s.clients a).state = .connecting → (s.clients b).state = .connected →
      (s.clients a).entry = (s.clients b).entry → False := by
    intro a b ha hb hab
    have hvacant := (h.link.pending _ a (h.link.connecting a ha)).vacant (by simp [ha])
    have hclient := h.client b hb
    rw [← hab, hvacant] at hclient
    contradiction
  rcases hc with hc | hc <;> rcases hc' with hc' | hc'
  · have hpend := h.link.connecting c hc
    have hpend' := h.link.connecting c' hc'
    rw [he] at hpend'
    exact Option.some.inj (hpend.symm.trans hpend')
  · exact (hapart c c' hc hc' he.symm).elim
  · exact (hapart c' c hc' hc he).elim
  · have hclient := h.client c hc
    have hclient' := h.client c' hc'
    rw [he] at hclient'
    exact Option.some.inj (hclient.symm.trans hclient')

theorem refCount_holders {s : CloudClientManager} (h : s.Books) (e : ℕ) :
    (s.heap e).refCount = s.holders e := by
  by_cases hmapped : ∃ key, s.entries.get key = some e
  · obtain ⟨key, hkey⟩ := hmapped
    exact h.refs.refs key e hkey
  · have hgone : s.Gone e := fun key hkey => hmapped ⟨key, hkey⟩
    rw [h.zero e hgone, h.refs.holders_gone hgone]
    rfl

theorem refCount_exact {s : CloudClientManager} (h : machine.Reach Paired s) :
    (∀ e, (s.heap e).refCount = s.holders e) ∧
    (∀ credentialKey c c', s.Serves credentialKey c → s.Serves credentialKey c' → c = c') ∧
    ∀ c, (s.clients c).state = .connected → ∀ t, (machine.startingAt s).Reach Paired t →
      (t.clients c).state =
        if t.holders (s.clients c).entry = 0 then .disconnected else .connected := by
  refine ⟨refCount_holders (books_reach h), fun _ _ _ => serves_unique (books_reach h), ?_⟩
  intro c hc t ht
  obtain ⟨hest, hentry⟩ := lasting_run h ht (Or.inl hc)
  rw [← hentry]
  exact established_state (books_reach (h.append ht)) hest

/-- A connect that two triggers wait for fails, a third trigger connects. -/
def retriedRun : List Event :=
  [.subscribe "cred-1" triggerCredential "thing-1" "temp" 7,
    .subscribe "cred-1" triggerCredential "thing-1" "hum" 8, .connectFailed 0, .connectSettled 0,
    .resume 0, .resume 1, .subscribe "cred-1" triggerCredential "thing-1" "temp" 9, .connected 1,
    .connectSettled 2, .resume 2, .sdkResolved 2]

def retriedState : CloudClientManager := machine.after Paired initial retriedRun

/-- Another subscription of the key begins and the SDK refuses it, then the first one ends. -/
def leavingRun : List Event :=
  [.subscribe "cred-1" triggerCredential "thing-1" "hum" 8, .resume 3, .tearDown 2]

def leavingState : CloudClientManager := machine.after Paired retriedState leavingRun

def leftState : CloudClientManager := machine.after Paired retriedState (leavingRun ++ [.sdkThrew 3])

theorem retriedRun_exact : (retriedState.heap 0).refCount = retriedState.holders 0 ∧
    (leavingState.clients 1).state = .connected ∧ (leftState.clients 1).state = .disconnected := by
  have hexact := refCount_exact (s := retriedState) ((Machine.Reach.init rfl).after retriedRun)
  have hup : (retriedState.clients 1).state = .connected := by decide +kernel
  have hleaving : (machine.startingAt retriedState).Reach Paired leavingState := .since ..
  have hleft : (machine.startingAt retriedState).Reach Paired leftState := .since ..
  have hlast := hexact.2.2 1 hup
  have hstill : leavingState.holders (retriedState.clients 1).entry ≠ 0 := by decide +kernel
  have hnone : leftState.holders (retriedState.clients 1).entry = 0 := by decide +kernel
  refine ⟨hexact.1 0, ?_, ?_⟩
  · rw [hlast leavingState hleaving, if_neg hstill]
  · rw [hlast leftState hleft, if_pos hnone]

end CloudClientManager

end UnoQ.Cloud
