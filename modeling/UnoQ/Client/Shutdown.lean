import UnoQ.Client.Closing

/-!
# The drain of a close

`close()` answers what is in the in-flight table and then awaits `$/reset` with the
connection still open and the handlers still registered. What comes in meanwhile is
answered too, as long as nothing is in flight when the transport is closed.
-/

namespace UnoQ.Client
open Codec Transition BigEndian

namespace Service

/-! ### What a drain leaves -/

/-- The frames of a drain, when each of its replies can be encoded. -/
def closingFrames (c : ℕ) (es : List (MapKey × InFlight)) : List Frame :=
  es.map fun p => ⟨c, closingReply p.2, some (p.1, .closing)⟩

theorem drain_sent (mp : Msgpack) {c : ℕ} (es : List (MapKey × InFlight)) :
    ∀ {l : Link}, l.writable = some c → (∀ p ∈ es, (mp.encode (closingReply p.2)).isSome = true) →
      (drain mp es l).sent = l.sent ++ closingFrames c es := by
  induction es with
  | nil => exact fun _ _ => (List.append_nil _).symm
  | cons p rest ih =>
    intro l hw henc
    have hsend : l.send mp (closingReply p.2) (some (p.1, .closing)) =
        { l with sent := l.sent ++ [⟨c, closingReply p.2, some (p.1, .closing)⟩] } := by
      simp [Link.send, Link.write, hw, henc p List.mem_cons_self]
    have hw' := (l.sends_send mp (closingReply p.2) (some (p.1, .closing))).writable.trans hw
    rw [drain, ih hw' fun q hq => henc q (List.mem_cons_of_mem _ hq), hsend]
    simp [closingFrames]

/-- Every entry of the in-flight table can be answered by `close`. -/
def Closable (mp : Msgpack) (w : Service) : Prop :=
  ∀ p ∈ w.inFlight.entries, (mp.encode (closingReply p.2)).isSome = true

theorem shut_sent {mp : Msgpack} {w : Service} {c : ℕ} (hw : w.link.writable = some c)
    (h : w.Closable mp) :
    (w.shut mp true).link.sent = w.link.sent ++ closingFrames c w.inFlight.entries :=
  drain_sent mp w.inFlight.entries (l := { w.link with closedByUs := true, reconnectTimer := none })
    hw h

theorem coveredOn_shut {mp : Msgpack} {w : Service} (hi : w.Inv) {c : ℕ} (h : w.CoveredOn c)
    (hw : w.link.writable = some c) (henc : w.Closable mp) : (w.shut mp true).CoveredOn c := by
  intro t ht hconn
  have ht' : t < w.nextTask := ht
  obtain ⟨h1, h2⟩ := h t ht' hconn
  have hsent := shut_sent hw henc
  have hsince : w.AnsweredSince t → (w.shut mp true).AnsweredSince t :=
    fun ha => ha.frame ⟨rfl, rfl, rfl⟩ (hsent ▸ List.prefix_append _ _)
  refine ⟨fun ho => Or.inr ?_, fun ho => hsince (h2 ho)⟩
  rcases h1 ho with hget | ha
  · obtain ⟨e, he⟩ := Option.ne_none_iff_exists'.mp hget
    have hmem := (InsertMap.get_eq_some_iff _).mp he
    refine ⟨⟨c, closingReply e, some ((w.tasks t).key, .closing)⟩, ?_, hconn.symm, rfl⟩
    have hframe : (⟨c, closingReply e, some ((w.tasks t).key, .closing)⟩ : Frame) ∈
        closingFrames c w.inFlight.entries := List.mem_map.mpr ⟨_, hmem, rfl⟩
    change _ ∈ List.drop (w.tasks t).since _
    rw [hsent, List.drop_append_of_le_length (hi.tasks t ht').since]
    exact List.mem_append_right _ hframe
  · exact hsince ha

/-! ### Runs that lose no caller -/

/-- Once `close` was called the connection ends only because the transport ended it. -/
def Undropped (w : Service) : Event → Prop
  | .broken _ _ => w.link.closedByUs = false
  | .closed c _ => w.link.closedByUs = true → (w.link.conns c).ended = true
  | _ => True

/-- Replies can be encoded, and nothing is in flight when the transport is closed. -/
def Drained (mp : Msgpack) (w : Service) : Event → Prop
  | .settle t o => w.Answerable mp (.settle t o)
  | .shut true => w.Closable mp
  | .close => w.link.writable = none ∨ w.inFlight.entries = []
  | _ => True

theorem Drained.answerable {mp : Msgpack} {w : Service} {e : Event} (h : w.Drained mp e) :
    w.Answerable mp e := by
  cases e with
  | settle t o => exact h
  | _ => trivial

/-- The tasks of the connection in use are accounted for, also while it is being closed. -/
def Pursued (w : Service) : Prop := ∀ c, w.link.writable = some c → w.CoveredOn c

theorem coveredOn_drained {mp : Msgpack} {options : ReconnectOptions} {w : Service} (hi : w.Inv)
    (hone : w.link.Single) {c : ℕ} (h : w.CoveredOn c) (hw : w.link.writable = some c) {e : Event}
    (he : w.enabled e = true) (hg : w.Drained mp e)
    (hw' : (w.apply mp options e).link.writable = some c) : (w.apply mp options e).CoveredOn c := by
  by_cases hshut : e = .shut true
  · subst hshut
    exact coveredOn_shut hi h hw hg
  · exact coveredOn_apply hi hone h hw he hg.answerable hshut hw'

theorem pursued_apply {mp : Msgpack} {options : ReconnectOptions} {w : Service} (hi : w.Inv)
    (hone : w.link.Single) (h : w.Pursued) {e : Event} (he : w.enabled e = true) (hg : w.Drained mp e) :
    (w.apply mp options e).Pursued := by
  intro c hw'
  rcases writable_apply hw' with hw | ⟨r, rfl, rfl⟩
  · exact coveredOn_drained hi hone (h c hw) hw he hg hw'
  · intro t ht hconn
    have hlt := (hi.tasks t ht).conn
    have hconn' : (w.tasks t).conn = w.link.nextConn := hconn
    omega

theorem pursued_reach {mp : Msgpack} {options : ReconnectOptions} {w : Service}
    (h : (machine mp options).Reach (fun w e _ => w.Drained mp e ∧ w.OneByOne e) w) : w.Pursued := by
  refine h.invariant ?_ ?_
  · rintro w rfl c _ t ht
    exact absurd ht (Nat.not_lt_zero t)
  · intro w e v hr hp hs hg
    obtain ⟨he, rfl⟩ := Machine.ofEnabled_step.mp hs
    have hone := single_reach (hr.mono fun _ _ _ _ hg => hg.2)
    exact pursued_apply (inv_reach hr) hone hp he hg.1

/-- What becomes of the tasks of a connection that is being closed, from `u` on. -/
structure Owing (u : Service) (c : ℕ) (w : Service) : Prop where
  inv : w.Inv
  single : w.link.Single
  closed : w.link.closedByUs = true
  later : u.nextTask ≤ w.nextTask
  conn : ∀ t < u.nextTask, (w.tasks t).conn = (u.tasks t).conn
  tasks : (w.link.writable = some c ∧ w.CoveredOn c) ∨
    ∀ t < u.nextTask, (w.tasks t).conn = c → w.AnsweredSince t

theorem task_fields (mp : Msgpack) (options : ReconnectOptions) {w : Service} (e : Event) {t : ℕ}
    (ht : t < w.nextTask) : ((w.apply mp options e).tasks t).conn = (w.tasks t).conn ∧
      ((w.apply mp options e).tasks t).key = (w.tasks t).key ∧
      ((w.apply mp options e).tasks t).since = (w.tasks t).since := by
  rcases (task_apply mp options e ht).2 with h | ⟨o, -, h⟩ <;> rw [h] <;> exact ⟨rfl, rfl, rfl⟩

theorem nextTask_apply (mp : Msgpack) (options : ReconnectOptions) (w : Service) (e : Event) :
    w.nextTask ≤ (w.apply mp options e).nextTask := by
  by_contra hlt
  have h := (task_apply mp options (w := w) e (t := (w.apply mp options e).nextTask) (by omega)).1
  omega

/-- A connection that is in use when the transport is closed has nothing in flight then. -/
theorem answered_of_lost {mp : Msgpack} {options : ReconnectOptions} {w : Service} (hi : w.Inv)
    (hone : w.link.Single) {c : ℕ} (h : w.CoveredOn c) (hclosed : w.link.closedByUs = true)
    (hw : w.link.writable = some c) {e : Event} (he : w.enabled e = true) (hg : w.Drained mp e)
    (hu : w.Undropped e) (ho : w.OneByOne e)
    (hlost : (w.apply mp options e).link.writable ≠ some c) :
    ∀ t < w.nextTask, (w.tasks t).conn = c → w.AnsweredSince t := by
  have hopen := hi.link.socket c (Link.writable_socket hw).1
  have hw' := (sends_apply mp options w e).writable
  rw [hw'] at hlost
  cases e with
  | close =>
    have hempty : w.inFlight.entries = [] := by
      rcases hg with hg | hg
      · rw [hw] at hg
        contradiction
      · exact hg
    intro t ht hconn
    obtain ⟨h1, h2⟩ := h t ht hconn
    by_cases ho : (w.tasks t).outcome = none
    · refine (h1 ho).resolve_left fun hget => ?_
      obtain ⟨e, he⟩ := Option.ne_none_iff_exists'.mp hget
      have hmem := (InsertMap.get_eq_some_iff _).mp he
      rw [hempty] at hmem
      contradiction
    · exact h2 ho
  | opened r => exact absurd hopen (ho c (hi.link.lt_nextConn hopen))
  | refused r now listener => exact absurd ((Link.writable_refused ..).trans hw) hlost
  | caught now listener => exact absurd ((Link.writable_caught ..).trans hw) hlost
  | closed d now =>
    have hd : (w.link.conns d).status = .opened := of_decide_eq_true he
    have hended := hu hclosed
    rw [← hone.single c d hopen hd, (Link.writable_socket hw).2.2] at hended
    contradiction
  | broken d destroyed =>
    have hnot : w.link.closedByUs = false := hu
    rw [hclosed] at hnot
    contradiction
  | _ => exact absurd hw hlost

theorem owing_apply {mp : Msgpack} {options : ReconnectOptions} {u w : Service} {c : ℕ}
    (h : u.Owing c w) {e : Event} (he : w.enabled e = true) (hg : w.Drained mp e)
    (hu : w.Undropped e) (ho : w.OneByOne e) : u.Owing c (w.apply mp options e) := by
  have hlater := nextTask_apply mp options w e
  have hkept : (∀ t < u.nextTask, (w.tasks t).conn = c → w.AnsweredSince t) →
      ∀ t < u.nextTask, ((w.apply mp options e).tasks t).conn = c →
        (w.apply mp options e).AnsweredSince t := by
    intro hall t ht hconn
    have hfields := task_fields mp options e (Nat.lt_of_lt_of_le ht h.later)
    exact (hall t ht (hfields.1 ▸ hconn)).frame hfields (sent_apply mp options w e)
  refine ⟨inv_apply h.inv mp options e he, single_apply h.inv.link h.single he ho, ?_,
    h.later.trans hlater, fun t ht => ?_, ?_⟩
  · by_contra hopen
    have hwas := (closedByUs_apply (Bool.not_eq_true _ ▸ hopen)).1
    rw [h.closed] at hwas
    contradiction
  · exact (task_fields mp options e (Nat.lt_of_lt_of_le ht h.later)).1.trans (h.conn t ht)
  · rcases h.tasks with ⟨hw, hcov⟩ | hall
    · by_cases hw' : (w.apply mp options e).link.writable = some c
      · exact Or.inl ⟨hw', coveredOn_drained h.inv h.single hcov hw he hg hw'⟩
      · refine Or.inr (hkept fun t ht => ?_)
        exact answered_of_lost h.inv h.single hcov h.closed hw he hg hu ho hw' t
          (Nat.lt_of_lt_of_le ht h.later)
    · exact Or.inr (hkept hall)

end Service

/-- The `close()` awaits the reply to `$/reset`. -/
def Closing.resets : Closing → Bool
  | .resetting _ => true
  | _ => false

namespace Bridge

/-- A `close()` that has not come to the transport yet, or has taken its connection away. -/
structure Pending (c x : ℕ) (s : Bridge) : Prop where
  born : c < s.service.link.nextConn
  state : (∃ k, s.closings x = .resetting k) ∨ s.service.link.writable ≠ some c

theorem Pending.samePhase {s t : Bridge} {c x : ℕ} (h : s.Pending c x) (hp : s.SamePhase t) :
    t.Pending c x := by
  refine ⟨?_, ?_⟩
  · rw [hp.link_eq]
    exact h.born
  · rw [hp.closings, hp.link.writable]
    exact h.state

theorem nextConn_moves {host : Host} {s u : Bridge} {e : Event} (hm : Moves host s e u) :
    s.service.link.nextConn ≤ u.service.link.nextConn := by
  cases hm with
  | shut hc =>
    rw [closeTransport_link, Link.close_eq]
    exact Nat.le_refl _
  | tearDown x k hx => rw [closeTransport_link, Link.close_eq]
  | closed d hidle hd =>
    change _ ≤ (s.service.link.closed host.options s.calls.now d).nextConn
    rw [Link.closed_eq]
  | opened r hidle hr => exact Nat.le_succ _
  | refused r hidle hr =>
    change _ ≤ (s.service.link.refused host.options s.calls.now r s.errorListener).nextConn
    rw [Link.refused_eq]
  | caught r hr =>
    change _ ≤ (s.service.link.caught host.options s.calls.now s.errorListener).nextConn
    rw [Link.caught_eq]
  | _ => exact Nat.le_refl _

theorem writable_moves {host : Host} {s u : Bridge} {e : Event} {c : ℕ} (hm : Moves host s e u)
    (hc : c < s.service.link.nextConn) (hw : u.service.link.writable = some c) :
    s.service.link.writable = some c := by
  cases hm with
  | shut hd =>
    rw [closeTransport_link, Link.writable_close] at hw
    contradiction
  | tearDown x k hx =>
    rw [closeTransport_link, Link.writable_close] at hw
    contradiction
  | broken d destroyed hidle hd => exact Link.writable_broken hw
  | closed d hidle hd => exact (Link.writable_closed hw).1
  | opened r hidle hr =>
    have hnew : c = s.service.link.nextConn := Link.writable_opened hw
    omega
  | refused r hidle hr => exact (Link.writable_refused ..).symm.trans hw
  | caught r hr => exact (Link.writable_caught ..).symm.trans hw
  | _ => exact hw

theorem pending_moves {host : Host} {s u : Bridge} {e : Event} {c x : ℕ} (hs : s.Shutting)
    (h : s.Pending c x) (hm : Moves host s e u) : u.Pending c x := by
  refine ⟨h.born.trans_le (nextConn_moves hm), ?_⟩
  rcases h.state with ⟨k, hk⟩ | hlost
  · have hlt : x < s.nextClosing := hs.lt_nextClosing (by simp [hk])
    cases hm with
    | reset j hj =>
      refine Or.inl ⟨k, ?_⟩
      rw [setClosing_closings, if_neg (by omega)]
      exact hk
    | shut hj =>
      refine Or.inr ?_
      rw [closeTransport_link, Link.writable_close]
      simp
    | tearDown y j hy =>
      refine Or.inr ?_
      rw [closeTransport_link, Link.writable_close]
      simp
    | finish y conn hy hconn =>
      have hne : x ≠ y := by
        rintro rfl
        rw [hk] at hy
        contradiction
      refine Or.inl ⟨k, ?_⟩
      rw [setClosing_closings, if_neg hne]
      exact hk
    | _ => exact Or.inl ⟨k, hk⟩
  · exact Or.inr fun hw => hlost (writable_moves hm h.born hw)

/-! ### Nobody is left waiting -/

/-- The transport does not drop by itself once `close()` was called. -/
def Undropped : Guard Bridge Event := fun s e _ =>
  match e with
  | .broken c destroyed => s.service.Undropped (.broken c destroyed)
  | .closed c => s.service.Undropped (.closed c s.calls.now)
  | _ => True

/-- The replies to settled handlers and to those that `close()` finds can be encoded, and none is in
flight when the transport is closed. -/
def Drained (host : Host) : Guard Bridge Event := fun s e _ =>
  match e with
  | .settle t o => s.service.Drained host.mp (.settle t o)
  | .close =>
    if s.calls.connected then s.service.Drained host.mp (.shut true)
    else s.service.Drained host.mp .close
  | .resumeClose x => (s.closings x).resets = true → s.service.Drained host.mp .close
  | _ => True

instance (s : Bridge) : ∀ (e : Event) (t : Bridge), Decidable (Undropped s e t) := by
  rintro (_ | _) t <;> dsimp only [Undropped, Service.Undropped] <;> infer_instance

instance (mp : Msgpack) (w : Service) : Decidable (w.Closable mp) :=
  inferInstanceAs (Decidable (∀ p ∈ w.inFlight.entries, _))

instance (w : Service) (t : ℕ) : Decidable (w.AnsweredSince t) :=
  inferInstanceAs (Decidable (∃ f ∈ w.link.sent.drop (w.tasks t).since, _))

instance (host : Host) (s : Bridge) : ∀ (e : Event) (t : Bridge), Decidable (Drained host s e t) := by
  rintro (_ | _) t <;> dsimp only [Drained, Service.Drained, Service.Answerable] <;> infer_instance

/-- The condition, in runs in which the transport does not drop. -/
def Attentive (host : Host) : Guard Bridge Event := Undropped.and ((Drained host).and OneByOne)

instance (host : Host) (s : Bridge) (e : Event) (t : Bridge) : Decidable (Attentive host s e t) :=
  inferInstanceAs (Decidable (Undropped.and ((Drained host).and OneByOne) s e t))

theorem governs_undropped (host : Host) : Governs host Undropped fun w e _ => w.Undropped e where
  plain w e v he := by cases e <;> trivial
  settle _ _ _ _ _ := trivial
  shut _ _ _ := trivial
  close _ _ _ _ := trivial
  resumeClose _ _ _ _ _ _ := trivial
  opened _ _ _ _ := trivial
  caught _ _ _ _ _ := trivial
  closed _ _ _ h := h
  broken _ _ _ _ h := h

theorem governs_drained (host : Host) : Governs host (Drained host) fun w e _ => w.Drained host.mp e where
  plain w e v he := by cases e <;> trivial
  settle _ _ _ _ h := h
  shut s u h := by
    cases hc : s.calls.connected with
    | false => trivial
    | true =>
      simp only [Drained, hc, if_true] at h
      exact h
  close s u h hc := by
    simp only [Drained, hc, Bool.false_eq_true, if_false] at h
    exact h
  resumeClose s x k u h hx := h (by rw [hx]; rfl)
  opened _ _ _ _ := trivial
  caught _ _ _ _ _ := trivial
  closed _ _ _ _ := trivial
  broken _ _ _ _ _ := trivial

theorem governs_attentive (host : Host) : Governs host (Attentive host) fun w e _ =>
    w.Undropped e ∧ w.Drained host.mp e ∧ w.OneByOne e :=
  (governs_undropped host).and ((governs_drained host).and (oneByOne_governs host))

theorem pending_since {host : Host} {ok : Guard Bridge Event} {s v : Bridge} {c x : ℕ}
    (hs : (machine host).Reach ok s) (h : s.Pending c x)
    (hv : ((machine host).startingAt s).Reach ok v) : v.Pending c x := by
  refine hv.invariant ?_ ?_
  · rintro _ rfl
    exact h
  · intro u e v hu hp hstep hg
    obtain ⟨he, rfl⟩ := Machine.ofEnabled_step.mp (show (machine host).step u e = some v from hstep)
    obtain ⟨w, hm, hsame⟩ := moves_apply host he
    exact (pending_moves (shutting_reach (hs.append hu)) hp hm).samePhase hsame

theorem owing_since {host : Host} {s v : Bridge} {c : ℕ} (hs : (machine host).Reach (Attentive host) s)
    (hclosed : s.service.link.closedByUs = true) (hw : s.service.link.writable = some c)
    (hv : ((machine host).startingAt s).Reach (Attentive host) v) :
    s.service.Owing c v.service := by
  have hstart := serviceRun_reach (governs_attentive host) hs
  have hpursued := Service.pursued_reach (hstart.mono fun _ _ _ _ hg => hg.2)
  have hrun := serviceRun_since (governs_attentive host) hs hv
  refine hrun.invariant ?_ ?_
  · rintro _ rfl
    exact ⟨service_inv hs, single_reach hs.right.right, hclosed, Nat.le_refl _, fun _ _ => rfl,
      Or.inl ⟨hw, hpursued c hw⟩⟩
  · intro w e u _ ho hstep hg
    obtain ⟨he, rfl⟩ := Machine.ofEnabled_step.mp hstep
    exact Service.owing_apply ho he hg.2.1 hg.1 hg.2.2

/-- While `close()` number `x` awaits the reply to `$/reset`, the connection `c` is still in use: what
came in on it by then has been answered when that `close()` resolves. -/
theorem answered_of_drained (host : Host) (s v : Bridge) (c x k : ℕ)
    (hs : (machine host).Reach (Attentive host) s) (hx : s.closings x = .resetting k)
    (hw : s.service.link.writable = some c)
    (hv : ((machine host).startingAt s).Reach (Attentive host) v) (hresolved : v.Resolved x) (t : ℕ)
    (ht : t < s.service.nextTask) (hconn : (s.service.tasks t).conn = c) :
    v.service.AnsweredSince t := by
  have hclosed := (shutting_reach hs).closed x (by simp [hx])
  have howing := owing_since hs hclosed hw hv
  have hborn : c < s.service.link.nextConn := by
    rw [← hconn]
    exact ((service_inv hs).tasks t ht).conn
  have hpending := pending_since hs ⟨hborn, Or.inl ⟨k, hx⟩⟩ hv
  rcases howing.tasks with ⟨hw', -⟩ | hall
  · rcases hpending.state with ⟨j, hj⟩ | hlost
    · rw [hresolved.2] at hj
      contradiction
    · exact absurd hw' hlost
  · exact hall t ht ((howing.conn t ht).trans hconn)

/-- One REQUEST is in flight when `close()` is called; another comes while it awaits `$/reset`. -/
def lateRequest : List Event :=
  providing ++ [.data 0 [0x94, 0, 1, 0xa1, 102, 0x90], .dispatch none, .close,
    .data 0 [0x94, 0, 2, 0xa1, 102, 0x90], .dispatch none]

/-- The router answers `$/reset`, and `close()` goes on to its end. -/
def resetAnswered : List Event :=
  [.data 0 [0x94, 1, 2, 0xc0, 0xc3], .dispatch none, .resumeCall 1, .resumeClose 0, .closed 0,
    .resumeClose 0]

theorem lateRequest_answered :
    ((machine referenceHost).after (Attentive referenceHost)
      ((machine referenceHost).after (Attentive referenceHost) initial lateRequest)
      (.settle 1 (.returned (.nat 20)) :: resetAnswered)).service.AnsweredSince 1 :=
  answered_of_drained referenceHost _ _ 0 0 1 ((Machine.Reach.init rfl).after lateRequest)
    (by decide +kernel) (by decide +kernel) (.since _ _ _ _) (by decide +kernel) 1
    (by decide +kernel) (by decide +kernel)

theorem lateRequest_unanswered : ¬ ∀ (s v : Bridge) (c x k : ℕ),
    (machine referenceHost).Reach Undropped s → s.closings x = .resetting k →
    s.service.link.writable = some c → ((machine referenceHost).startingAt s).Reach Undropped v →
    v.Resolved x → ∀ t < s.service.nextTask, (s.service.tasks t).conn = c → v.service.AnsweredSince t := by
  intro hall
  have hanswered := hall _ _ 0 0 1 ((Machine.Reach.init rfl).after lateRequest) (by decide +kernel)
    (by decide +kernel) (.since _ _ _ resetAnswered) (by decide +kernel) 1 (by decide +kernel)
    (by decide +kernel)
  exact absurd hanswered (by decide +kernel)

end Bridge

end UnoQ.Client
