import Mathlib.Data.List.NodupEquivFin
import UnoQ.Client.Counted

/-!
# Answers

Which RESPONSE frames a run may contain, and which it must. One REQUEST is answered at
most once, whoever gets there first. That the answer is the handler's own, and that
there is one at all, depends on what `settle` finds in the in-flight table.
-/

namespace UnoQ.Client.Service
open Codec Transition

/-- The msgids of the requests received on the connection are pairwise distinct. -/
def DistinctIds (w : Service) (c : ℕ) : Prop := ∀ m, w.requests.count (c, m) ≤ 1

/-- The frame answers the REQUEST of task `t`, with what its handler came to. -/
def Carries (w : Service) (f : Frame) (m : MapKey) (t : ℕ) : Prop :=
  t < w.nextTask ∧ (w.tasks t).conn = f.conn ∧ (w.tasks t).key = m ∧
    ∃ o, (w.tasks t).outcome = some o ∧ o.reply (w.tasks t).msgid = some f.message

/-- A handler settles on its own connection, or finds no entry under its msgid. -/
def OnOwnConnection (w : Service) : Event → Prop
  | .settle t _ =>
    w.inFlight.get (w.tasks t).key = none ∨ w.link.socket = some (w.tasks t).conn
  | _ => True

/-- A handler with an entry in the table settles with something that can be encoded. -/
def Answerable (mp : Msgpack) (w : Service) : Event → Prop
  | .settle t o => w.inFlight.get (w.tasks t).key = none ∨
      ∃ message, o.reply (w.tasks t).msgid = some message ∧ (mp.encode message).isSome = true
  | _ => True

/-- Every frame a handler wrote answers that handler's own request. -/
def Own (w : Service) : Prop :=
  ∀ f ∈ w.link.sent, ∀ m t, f.response = some (m, .handler t) → w.Carries f m t

def AnsweredSince (w : Service) (t : ℕ) : Prop :=
  ∃ f ∈ w.link.sent.drop (w.tasks t).since,
    f.conn = (w.tasks t).conn ∧ f.response.map Prod.fst = some (w.tasks t).key

/-- The tasks of a connection: in flight or answered while the handler runs, answered when it has
settled. -/
def CoveredOn (w : Service) (c : ℕ) : Prop :=
  ∀ t, t < w.nextTask → (w.tasks t).conn = c →
    ((w.tasks t).outcome = none → w.inFlight.get (w.tasks t).key ≠ none ∨ w.AnsweredSince t) ∧
    ((w.tasks t).outcome ≠ none → w.AnsweredSince t)

def Covered (w : Service) : Prop :=
  ∀ c, w.link.writable = some c → w.link.closedByUs = false → w.CoveredOn c

/-! ### What a handler adds to the frames -/

theorem mem_drain {mp : Msgpack} {f : Frame} (es : List (MapKey × InFlight)) :
    ∀ {l : Link}, f ∈ (drain mp es l).sent →
      f ∈ l.sent ∨ ∃ m, f.response = some (m, .closing) := by
  induction es with
  | nil => exact fun h => Or.inl h
  | cons p rest ih =>
    intro l h
    rcases ih h with h | h
    · rcases mem_send h with h | ⟨-, h, -⟩
      · exact Or.inl h
      · exact Or.inr ⟨p.1, h⟩
    · exact Or.inr h

theorem handler_frame {mp : Msgpack} {options : ReconnectOptions} {w : Service} {e : Event}
    {f : Frame} {m : MapKey} {t : ℕ} (h : f ∈ (w.apply mp options e).link.sent)
    (hr : f.response = some (m, .handler t)) :
    f ∈ w.link.sent ∨ ∃ o, e = .settle t o ∧ m = (w.tasks t).key ∧
      o.reply (w.tasks t).msgid = some f.message ∧ w.inFlight.get (w.tasks t).key ≠ none ∧
      w.link.writable = some f.conn := by
  cases e with
  | write message =>
    rcases w.link.write_cases message none with ⟨-, he⟩ | ⟨c, -, he⟩
    · exact Or.inl (he ▸ h)
    · change f ∈ (w.link.write message none).sent at h
      rw [he, List.mem_append, List.mem_singleton] at h
      rcases h with h | rfl
      · exact Or.inl h
      · contradiction
  | receive c msgid method params handler => exact Or.inl h
  | refuse c msgid method =>
    cases method with
    | none => exact Or.inl h
    | some text =>
      rcases mem_send h with h | ⟨-, h, -⟩
      · exact Or.inl h
      · rw [h] at hr
        cases hr
  | settle x o =>
    change f ∈ (w.settle mp x o).link.sent at h
    rcases settle_cases mp w x o with ⟨-, he⟩ | ⟨message, hrep, hget, he⟩
    · rw [he] at h
      exact Or.inl h
    · rw [he] at h
      rcases mem_send h with h | ⟨h1, h2, h3⟩
      · exact Or.inl h
      · rw [h2] at hr
        cases hr
        exact Or.inr ⟨o, rfl, rfl, h1 ▸ hrep, hget, h3⟩
  | shut connected =>
    cases connected with
    | false => exact Or.inl h
    | true =>
      rcases mem_drain _ h with h | ⟨k, h⟩
      · exact Or.inl h
      · rw [h] at hr
        cases hr
  | close =>
    change f ∈ w.link.close.sent at h
    rw [Link.close_sent] at h
    exact Or.inl h
  | doReconnect r => exact Or.inl h
  | opened r => exact Or.inl h
  | refused r now listener =>
    change f ∈ (w.link.refused options now r listener).sent at h
    rw [Link.refused_sent] at h
    exact Or.inl h
  | caught now listener =>
    change f ∈ (w.link.caught options now listener).sent at h
    rw [Link.caught_sent] at h
    exact Or.inl h
  | reconnected => exact Or.inl h
  | closed c now =>
    change f ∈ (w.link.closed options now c).sent at h
    rw [Link.closed_sent] at h
    exact Or.inl h
  | broken c destroyed => exact Or.inl h

theorem task_apply (mp : Msgpack) (options : ReconnectOptions) {w : Service} (e : Event) {t : ℕ}
    (ht : t < w.nextTask) : t < (w.apply mp options e).nextTask ∧
      ((w.apply mp options e).tasks t = w.tasks t ∨ ∃ o, e = .settle t o ∧
        (w.apply mp options e).tasks t = { w.tasks t with outcome := some o }) := by
  cases e with
  | receive c msgid method params handler =>
    refine ⟨Nat.lt_succ_of_lt ht, Or.inl ?_⟩
    exact (w.receive_tasks c msgid method params handler t).trans (if_neg (by omega))
  | refuse c msgid method =>
    change t < (w.refuse mp c msgid method).nextTask ∧ ((w.refuse mp c msgid method).tasks t = _ ∨ _)
    unfold refuse
    cases method <;> exact ⟨ht, Or.inl rfl⟩
  | settle x o =>
    have hnext : (w.settle mp x o).nextTask = w.nextTask := by
      rcases settle_cases mp w x o with ⟨-, he⟩ | ⟨message, -, -, he⟩ <;> rw [he]
    refine ⟨Nat.lt_of_lt_of_eq ht hnext.symm, ?_⟩
    have htask := w.settle_tasks mp x t o
    by_cases hx : t = x
    · subst hx
      rw [if_pos rfl] at htask
      exact Or.inr ⟨o, rfl, htask⟩
    · rw [if_neg hx] at htask
      exact Or.inl htask
  | shut connected => cases connected <;> exact ⟨ht, Or.inl rfl⟩
  | _ => exact ⟨ht, Or.inl rfl⟩

/-! ### Who answers -/

/-- The handlers that have written a frame have settled. -/
def Authored (w : Service) : Prop :=
  ∀ f ∈ w.link.sent, ∀ m t, f.response = some (m, .handler t) →
    t < w.nextTask ∧ (w.tasks t).outcome ≠ none

theorem authored_initial : initial.Authored := nofun

theorem authored_apply {mp : Msgpack} {options : ReconnectOptions} {w : Service} (h : w.Authored)
    {e : Event} (he : w.enabled e = true) : (w.apply mp options e).Authored := by
  intro f hf m t hr
  rcases handler_frame hf hr with hold | ⟨o, rfl, -, -, -, -⟩
  · obtain ⟨ht, ho⟩ := h f hold m t hr
    obtain ⟨ht', htask⟩ := task_apply mp options e ht
    refine ⟨ht', ?_⟩
    rcases htask with hsame | ⟨o', -, hnew⟩
    · rw [hsame]
      exact ho
    · rw [hnew]
      exact Option.some_ne_none o'
  · have ht : t < w.nextTask ∧ (w.tasks t).outcome.isNone := of_decide_eq_true he
    refine ⟨(task_apply mp options (.settle t o) ht.1).1, ?_⟩
    have htask := w.settle_tasks mp t t o
    rw [if_pos rfl] at htask
    change ((w.settle mp t o).tasks t).outcome ≠ none
    rw [htask]
    exact Option.some_ne_none o

/-- The value that the handler of the task has returned is on the wire, on the connection of its
REQUEST. -/
def Answers (w : Service) (t : ℕ) (value : JsValue) : Prop :=
  ∃ f ∈ w.link.sent, f.conn = (w.tasks t).conn ∧
    f.message = response (w.tasks t).msgid .null value ∧
    f.response = some ((w.tasks t).key, .handler t)

/-- The in-flight table has an entry for the task, the connection of its REQUEST can be written to,
and the value can be encoded. -/
def CanAnswer (mp : Msgpack) (w : Service) (t : ℕ) (value : JsValue) : Prop :=
  w.inFlight.has (w.tasks t).key = true ∧ w.link.writable = some (w.tasks t).conn ∧
    (mp.encode (response (w.tasks t).msgid .null value)).isSome = true

instance (mp : Msgpack) (w : Service) (t : ℕ) (value : JsValue) :
    Decidable (w.CanAnswer mp t value) := inferInstanceAs (Decidable (_ ∧ _ ∧ _))

/-- A handler that returns a value answers with it exactly when it can. -/
theorem answers_settle {mp : Msgpack} {w : Service} {t : ℕ} (h : w.Authored)
    (hopen : (w.tasks t).outcome = none) (value : JsValue) :
    (w.settle mp t (.returned value)).Answers t value ↔ w.CanAnswer mp t value := by
  have htask : (w.settle mp t (.returned value)).tasks t =
      { w.tasks t with outcome := some (.returned value) } := by
    rw [settle_tasks, if_pos rfl]
  unfold Answers
  rw [htask]
  constructor
  · rintro ⟨f, hf, hconn, hmessage, hr⟩
    rcases settle_cases mp w t (.returned value) with ⟨-, heq⟩ | ⟨message, hreply, hget, heq⟩
    · rw [heq] at hf
      exact absurd hopen (h f hf _ t hr).2
    · cases hreply
      rw [heq] at hf
      have hsent : f ∈ (w.link.send mp (response (w.tasks t).msgid .null value)
          (some ((w.tasks t).key, .handler t))).sent := hf
      have hhas : w.inFlight.has (w.tasks t).key = true :=
        InsertMap.has_eq_true.mpr (Option.ne_none_iff_exists'.mp hget)
      unfold Link.send at hsent
      split at hsent
      next henc =>
        rcases w.link.write_cases (response (w.tasks t).msgid .null value)
          (some ((w.tasks t).key, .handler t)) with ⟨-, hsame⟩ | ⟨c, hc, hwritten⟩
        · rw [hsame] at hsent
          exact absurd hopen (h f hsent _ t hr).2
        · rw [hwritten, List.mem_append, List.mem_singleton] at hsent
          rcases hsent with hold | rfl
          · exact absurd hopen (h f hold _ t hr).2
          · exact ⟨hhas, hc.trans (congrArg some hconn), henc⟩
      next => exact absurd hopen (h f hsent _ t hr).2
  · rintro ⟨hhas, hwritable, henc⟩
    refine ⟨⟨(w.tasks t).conn, response (w.tasks t).msgid .null value,
      some ((w.tasks t).key, .handler t)⟩, ?_, rfl, rfl, rfl⟩
    unfold settle
    dsimp only [Outcome.reply]
    rw [if_pos hhas]
    simp [Link.send, henc, Link.write, hwritable]

theorem Answers.mono {w v : Service} {t : ℕ} {value : JsValue} (h : w.Answers t value)
    (hsent : w.link.sent <+: v.link.sent) (hconn : (v.tasks t).conn = (w.tasks t).conn)
    (hmsgid : (v.tasks t).msgid = (w.tasks t).msgid) (hkey : (v.tasks t).key = (w.tasks t).key) :
    v.Answers t value := by
  obtain ⟨f, hf, hr⟩ := h
  refine ⟨f, hsent.subset hf, ?_⟩
  rw [hconn, hmsgid, hkey]
  exact hr

/-! ### The handler's own answer -/

theorem own_apply {mp : Msgpack} {options : ReconnectOptions} {w : Service} (h : w.Own) {e : Event}
    (he : w.enabled e = true) (hg : w.OnOwnConnection e) :
    (w.apply mp options e).Own := by
  intro f hf m t hr
  rcases handler_frame hf hr with hold | ⟨o, rfl, rfl, hrep, hget, hw⟩
  · obtain ⟨ht, hconn, hkey, o, ho, hrep⟩ := h f hold m t hr
    obtain ⟨ht', htask⟩ := task_apply mp options e ht
    rcases htask with hsame | ⟨o', rfl, -⟩
    · unfold Carries
      rw [hsame]
      exact ⟨ht', hconn, hkey, o, ho, hrep⟩
    · -- A handler settles once.
      have hnone : t < w.nextTask ∧ (w.tasks t).outcome.isNone := of_decide_eq_true he
      rw [ho] at hnone
      exact absurd hnone.2 (by simp)
  · have ht : t < w.nextTask ∧ (w.tasks t).outcome.isNone := of_decide_eq_true he
    have hsock := (Link.writable_socket hw).1
    have hconn : (w.tasks t).conn = f.conn := by
      rcases hg with hg | hg
      · exact absurd hg hget
      · rw [hsock] at hg
        exact (Option.some.inj hg).symm
    have htask := w.settle_tasks mp t t o
    rw [if_pos rfl] at htask
    have hlt := (task_apply mp options (.settle t o) ht.1).1
    unfold Carries
    change _ ∧ ((w.settle mp t o).tasks t).conn = _ ∧ ((w.settle mp t o).tasks t).key = _ ∧
      ∃ o', ((w.settle mp t o).tasks t).outcome = some o' ∧
        o'.reply ((w.settle mp t o).tasks t).msgid = some f.message
    rw [htask]
    exact ⟨hlt, hconn, rfl, o, rfl, hrep⟩

theorem own_reach {mp : Msgpack} {options : ReconnectOptions} {w : Service}
    (h : (machine mp options).Reach (fun w e _ => w.OnOwnConnection e) w) : w.Own := by
  refine h.invariant ?_ ?_
  · rintro w rfl f hf
    simp [initial, Link.initial] at hf
  · intro w e v _ ho hs hg
    obtain ⟨he, rfl⟩ := Machine.ofEnabled_step.mp hs
    exact own_apply ho he hg

theorem task_unique {w : Service} (hi : w.Inv) {t u : ℕ} (ht : t < w.nextTask) (hu : u < w.nextTask)
    (hd : w.DistinctIds (w.tasks t).conn) (hconn : (w.tasks u).conn = (w.tasks t).conn)
    (hkey : (w.tasks u).key = (w.tasks t).key) : u = t := by
  have hone := hd (w.tasks t).key
  have hdup : ∀ x y, x < y → y < w.nextTask →
      w.requests[(w.tasks x).index]? = some ((w.tasks t).conn, (w.tasks t).key) →
      w.requests[(w.tasks y).index]? = some ((w.tasks t).conn, (w.tasks t).key) → False := by
    intro x y hxy hy hx' hy'
    obtain ⟨hlx, hgx⟩ := List.getElem?_eq_some_iff.mp hx'
    obtain ⟨hly, hgy⟩ := List.getElem?_eq_some_iff.mp hy'
    have htwo : w.requests.Duplicate ((w.tasks t).conn, (w.tasks t).key) :=
      List.duplicate_iff_exists_distinct_get.mpr
        ⟨⟨_, hlx⟩, ⟨_, hly⟩, hi.ordered x y hxy hy, hgx.symm, hgy.symm⟩
    have hsub : (List.replicate 2 ((w.tasks t).conn, (w.tasks t).key)).Sublist w.requests :=
      List.duplicate_iff_sublist.mp htwo
    have := List.replicate_sublist_iff.mp hsub
    omega
  have hrt := (hi.tasks t ht).request
  have hru := (hi.tasks u hu).request
  rw [hconn, hkey] at hru
  rcases Nat.lt_trichotomy u t with h | h | h
  · exact (hdup u t h ht hru hrt).elim
  · exact h
  · exact (hdup t u h hu hrt hru).elim

/-! ### An answer to every settled handler -/

theorem AnsweredSince.frame {w v : Service} {t : ℕ} (h : w.AnsweredSince t)
    (htask : (v.tasks t).conn = (w.tasks t).conn ∧ (v.tasks t).key = (w.tasks t).key ∧
      (v.tasks t).since = (w.tasks t).since) (hsent : w.link.sent <+: v.link.sent) :
    v.AnsweredSince t := by
  obtain ⟨f, hf, hconn, hkey⟩ := h
  obtain ⟨more, hmore⟩ := hsent
  obtain ⟨h1, h2, h3⟩ := htask
  refine ⟨f, ?_, hconn.trans h1.symm, by rw [hkey, h2]⟩
  rw [h3, ← hmore, List.drop_append]
  exact List.mem_append_left _ hf

theorem CoveredOn.frame {w v : Service} {c : ℕ} (h : w.CoveredOn c) (htasks : v.tasks = w.tasks)
    (hnext : v.nextTask = w.nextTask) (hsent : w.link.sent <+: v.link.sent)
    (hin : ∀ m, w.inFlight.get m ≠ none → v.inFlight.get m ≠ none) : v.CoveredOn c := by
  intro t ht hconn
  rw [htasks] at hconn ⊢
  obtain ⟨h1, h2⟩ := h t (hnext ▸ ht) hconn
  have hsince : w.AnsweredSince t → v.AnsweredSince t :=
    fun ha => ha.frame (by rw [htasks]; exact ⟨rfl, rfl, rfl⟩) hsent
  constructor
  · intro ho
    rcases h1 ho with hget | ha
    · exact Or.inl (hin _ hget)
    · exact Or.inr (hsince ha)
  · exact fun ho => hsince (h2 ho)

theorem coveredOn_receive {w : Service} {d : ℕ} (h : w.CoveredOn d) (c : ℕ) (msgid : JsValue)
    (method : String) (params : JsValue) (handler : ℕ) :
    (w.receive c msgid method params handler).CoveredOn d := by
  intro t ht hconn
  have ht' : t < w.nextTask + 1 := ht
  by_cases hnew : t = w.nextTask
  · have htask := w.receive_tasks c msgid method params handler t
    rw [if_pos hnew] at htask
    rw [htask]
    refine ⟨fun _ => Or.inl ?_, fun ho => absurd rfl ho⟩
    change (w.inFlight.set _ _).get _ ≠ none
    rw [InsertMap.get_set_self]
    simp
  · have htask := w.receive_tasks c msgid method params handler t
    rw [if_neg hnew] at htask
    rw [htask] at hconn ⊢
    obtain ⟨h1, h2⟩ := h t (by omega) hconn
    have hsince : w.AnsweredSince t → (w.receive c msgid method params handler).AnsweredSince t :=
      fun ha => ha.frame (by rw [htask]; exact ⟨rfl, rfl, rfl⟩) List.prefix_rfl
    refine ⟨fun ho => ?_, fun ho => hsince (h2 ho)⟩
    rcases h1 ho with hget | ha
    · refine Or.inl ?_
      change (w.inFlight.set _ _).get _ ≠ none
      rw [InsertMap.get_set]
      split
      · simp
      · exact hget
    · exact Or.inr (hsince ha)

theorem coveredOn_settle {mp : Msgpack} {w : Service} (hi : w.Inv) {c : ℕ} (h : w.CoveredOn c)
    (hw : w.link.writable = some c) {t : ℕ} {o : Outcome} (hg : w.Answerable mp (.settle t o)) :
    (w.settle mp t o).CoveredOn c := by
  have htasks := w.settle_tasks mp t
  have hfields : ∀ x, ((w.settle mp t o).tasks x).conn = (w.tasks x).conn ∧
      ((w.settle mp t o).tasks x).key = (w.tasks x).key ∧
      ((w.settle mp t o).tasks x).since = (w.tasks x).since := by
    intro x
    rw [htasks]
    split
    next hx =>
      subst hx
      exact ⟨rfl, rfl, rfl⟩
    next => exact ⟨rfl, rfl, rfl⟩
  rcases settle_cases mp w t o with ⟨hno, he⟩ | ⟨message, hrep, hget, he⟩
  · -- Nothing is written: there was no entry, so a RESPONSE had been written before.
    have hgone : w.inFlight.get (w.tasks t).key = none := by
      rcases hno with hno | hno
      · rcases hg with hg | ⟨message, hm, -⟩
        · exact hg
        · rw [hno] at hm
          contradiction
      · exact hno
    have hlink : (w.settle mp t o).link = w.link := by rw [he]
    have hin : (w.settle mp t o).inFlight = w.inFlight := by rw [he]
    have hnext : (w.settle mp t o).nextTask = w.nextTask := by rw [he]
    intro x hx hconn
    rw [hnext] at hx
    rw [(hfields x).1] at hconn
    obtain ⟨h1, h2⟩ := h x hx hconn
    have hsince : w.AnsweredSince x → (w.settle mp t o).AnsweredSince x :=
      fun ha => ha.frame (hfields x) (hlink ▸ List.prefix_rfl)
    rw [hin, (hfields x).2.1, htasks]
    by_cases hxt : x = t
    · subst hxt
      rw [if_pos rfl]
      refine ⟨fun ho => by simp at ho, fun _ => hsince ?_⟩
      by_cases ho : (w.tasks x).outcome = none
      · exact (h1 ho).resolve_left (fun hne => hne hgone)
      · exact h2 ho
    · rw [if_neg hxt]
      exact ⟨fun ho => (h1 ho).imp id hsince, fun ho => hsince (h2 ho)⟩
  · obtain ⟨msg, hmsg, henc⟩ := hg.resolve_left hget
    rw [hrep] at hmsg
    cases hmsg
    intro x hx hconn
    have hnext : (w.settle mp t o).nextTask = w.nextTask := by rw [he]
    have hlink : (w.settle mp t o).link =
        w.link.send mp message (some ((w.tasks t).key, .handler t)) := by rw [he]
    have hin : (w.settle mp t o).inFlight = w.inFlight.delete (w.tasks t).key := by rw [he]
    rw [hnext] at hx
    rw [(hfields x).1] at hconn
    have hsent : (w.settle mp t o).link.sent =
        w.link.sent ++ [⟨c, message, some ((w.tasks t).key, .handler t)⟩] := by
      rw [hlink]
      simp [Link.send, henc, Link.write, hw]
    obtain ⟨h1, h2⟩ := h x hx hconn
    have hsince : w.AnsweredSince x → (w.settle mp t o).AnsweredSince x :=
      fun ha => ha.frame (hfields x) (hsent ▸ List.prefix_append _ _)
    by_cases hkey : (w.tasks x).key = (w.tasks t).key
    · -- The frame just written answers every task with this id.
      have hnow : (w.settle mp t o).AnsweredSince x := by
        refine ⟨⟨c, message, some ((w.tasks t).key, .handler t)⟩, ?_, ?_, ?_⟩
        · rw [hsent, (hfields x).2.2, List.drop_append_of_le_length (hi.tasks x hx).since]
          simp
        · rw [(hfields x).1, hconn]
        · rw [(hfields x).2.1, hkey]
          rfl
      exact ⟨fun _ => Or.inr hnow, fun _ => hnow⟩
    · have hxt : x ≠ t := fun hxt => hkey (by rw [hxt])
      rw [hin, (hfields x).2.1, htasks, if_neg hxt, InsertMap.get_delete_ne _ (Ne.symm hkey)]
      exact ⟨fun ho => (h1 ho).imp id hsince, fun ho => hsince (h2 ho)⟩

theorem coveredOn_apply {mp : Msgpack} {options : ReconnectOptions} {w : Service} (hi : w.Inv)
    (hone : w.link.Single) {c : ℕ} (h : w.CoveredOn c) (hw : w.link.writable = some c) {e : Event}
    (he : w.enabled e = true) (hg : w.Answerable mp e) (hshut : e ≠ .shut true)
    (hw' : (w.apply mp options e).link.writable = some c) : (w.apply mp options e).CoveredOn c := by
  have hsent := sent_apply mp options w e
  cases e with
  | receive d msgid method params handler => exact coveredOn_receive h d msgid method params handler
  | refuse d msgid method =>
    have hsame : (w.refuse mp d msgid method).tasks = w.tasks ∧
        (w.refuse mp d msgid method).nextTask = w.nextTask ∧
        (w.refuse mp d msgid method).inFlight = w.inFlight := by
      unfold refuse
      cases method <;> exact ⟨rfl, rfl, rfl⟩
    obtain ⟨htasks, hnext, hin⟩ := hsame
    exact h.frame htasks hnext hsent (fun m hm => hin ▸ hm)
  | settle t o => exact coveredOn_settle hi h hw hg
  | shut connected =>
    cases connected with
    | false => exact h.frame rfl rfl hsent (fun _ hm => hm)
    | true => exact absurd rfl hshut
  | closed d now =>
    have hopen : (w.link.conns d).status = .opened := of_decide_eq_true he
    have hne := (Link.writable_closed hw').2
    exact absurd (hone.single c d (hi.link.socket c (Link.writable_socket hw).1) hopen) hne
  | _ => exact h.frame rfl rfl hsent (fun _ hm => hm)

theorem covered_apply {mp : Msgpack} {options : ReconnectOptions} {w : Service} (hi : w.Inv)
    (hone : w.link.Single) (h : w.Covered) {e : Event} (he : w.enabled e = true) (hg : w.Answerable mp e) :
    (w.apply mp options e).Covered := by
  intro c hw' hcl'
  obtain ⟨hcl, hshut⟩ := closedByUs_apply hcl'
  rcases writable_apply hw' with hw | ⟨r, rfl, rfl⟩
  · exact coveredOn_apply hi hone (h c hw hcl) hw he hg (hshut true) hw'
  · intro t ht hconn
    have hlt := (hi.tasks t ht).conn
    have hconn' : (w.tasks t).conn = w.link.nextConn := hconn
    omega

theorem covered_reach {mp : Msgpack} {options : ReconnectOptions} {w : Service}
    (h : (machine mp options).Reach (fun w e _ => w.Answerable mp e ∧ w.OneByOne e) w) :
    w.Covered := by
  refine h.invariant ?_ ?_
  · rintro w rfl c _ _ t ht
    exact absurd ht (Nat.not_lt_zero t)
  · intro w e v hr hc hs hg
    obtain ⟨he, rfl⟩ := Machine.ofEnabled_step.mp hs
    have hone := single_reach (hr.mono fun _ _ _ _ hg => hg.2)
    exact covered_apply (inv_reach hr) hone hc he hg.1

/-! ### What the other side may rely on -/

/-- No more RESPONSEs than REQUESTs for an id on the connection, so one at most where the ids are
distinct. -/
structure AtMostOnceOn (w : Service) (c : ℕ) : Prop where
  le : ∀ m, w.responses c m ≤ w.requests.count (c, m)
  once : w.DistinctIds c → ∀ m, w.responses c m ≤ 1

/-- No more RESPONSEs than REQUESTs for an id, wherever they are, so one at most when the REQUESTs
come on one connection with distinct ids. -/
structure AtMostOnce (w : Service) : Prop where
  le : ∀ m, w.responsesIn everywhere m ≤ w.requestsIn everywhere m
  once : ∀ c, (∀ p ∈ w.requests, p.1 = c) → w.DistinctIds c → ∀ m, w.responsesIn everywhere m ≤ 1
  all : ∀ f ∈ w.link.sent, isResponse f.message = true →
    ∃ m author, f.response = some (m, author) ∧ f.IsResponse m

theorem Counted.atMostOnceOn {w : Service} {c : ℕ} (h : w.Counted (only c)) : w.AtMostOnceOn c where
  le m := by
    have hle := h.le m
    rw [responsesIn_only, requestsIn_only] at hle
    exact hle
  once hd m := by
    have hle := h.le m
    rw [responsesIn_only, requestsIn_only] at hle
    exact Nat.le_trans hle (hd m)

theorem Counted.atMostOnce {w : Service} (h : w.Counted everywhere) (hi : w.Inv) : w.AtMostOnce where
  le := h.le
  once c hc hd m := by
    refine Nat.le_trans (h.le m) ?_
    have hone := hd m
    rw [← requestsIn_only] at hone
    refine Nat.le_trans (Nat.le_of_eq ?_) hone
    exact List.countP_congr fun p hp => by simp [hc p hp, everywhere, only]
  all f hf hresp := by
    cases hr : f.response with
    | none =>
      rw [hi.plain f hf hr] at hresp
      contradiction
    | some p => exact ⟨p.1, p.2, rfl, hi.frames f hf p.1 p.2 hr⟩

/-- A RESPONSE answers a REQUEST of its own connection. One written by a handler has the outcome of
the invocation which that REQUEST started. -/
structure NoStale (w : Service) : Prop where
  request : ∀ f ∈ w.link.sent, ∀ m author, f.response = some (m, author) → (f.conn, m) ∈ w.requests
  own : w.Own
  only : ∀ f ∈ w.link.sent, ∀ m t, f.response = some (m, .handler t) → w.DistinctIds f.conn →
    ∀ u, u < w.nextTask → (w.tasks u).conn = f.conn → (w.tasks u).key = m → u = t

theorem Own.noStale {w : Service} (ho : w.Own) (hi : w.Inv) (hc : ∀ c, w.AtMostOnceOn c) :
    w.NoStale where
  request f hf m author hr := by
    have hans : f.answers f.conn m = true := by simp [Frame.answers, hr]
    have hpos : 0 < w.responses f.conn m := List.countP_pos_iff.mpr ⟨f, hf, hans⟩
    exact List.count_pos_iff.mp (Nat.lt_of_lt_of_le hpos ((hc f.conn).le m))
  own := ho
  only f hf m t hr hd u hu hconn hkey := by
    obtain ⟨ht, htconn, htkey, -⟩ := ho f hf m t hr
    rw [← htconn] at hd hconn
    rw [← htkey] at hkey
    exact task_unique hi ht hu hd hconn hkey

/-- On the connection in use, while `close` has not been called, a settled handler has its RESPONSE,
with a result or an error. -/
def AllAnswered (w : Service) : Prop :=
  ∀ c, w.link.writable = some c → w.link.closedByUs = false → ∀ t, t < w.nextTask →
    (w.tasks t).conn = c → (w.tasks t).outcome ≠ none →
    ∃ f ∈ w.link.sent.drop (w.tasks t).since, f.conn = c ∧ f.IsResponse (w.tasks t).key

theorem Covered.allAnswered {w : Service} (h : w.Covered) (hi : w.Inv) : w.AllAnswered := by
  intro c hw hc t ht hconn ho
  obtain ⟨f, hf, hfconn, hkey⟩ := (h c hw hc t ht hconn).2 ho
  obtain ⟨p, hp, hfst⟩ := Option.map_eq_some_iff.mp hkey
  refine ⟨f, hf, hfconn.trans hconn, ?_⟩
  rw [← hfst]
  exact hi.frames f (List.mem_of_mem_drop hf) p.1 p.2 hp

end UnoQ.Client.Service
