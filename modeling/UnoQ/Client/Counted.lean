import UnoQ.Client.Service

/-!
# Requests and responses, counted

How the RESPONSE frames with an id compare with the REQUESTs received with it, on the
connections of a scope: on all of them, or on one. The in-flight table knows nothing of
connections, so the scope must not tell the open ones apart.
-/

namespace UnoQ.Client
open Codec Transition

def Frame.answersIn (P : ℕ → Bool) (m : MapKey) (f : Frame) : Bool :=
  P f.conn ∧ f.response.map Prod.fst = some m

namespace Service

/-! ### What a step adds to the frames -/

theorem sends_post (w : Service) (message : Option JsValue) : w.link.Sends (w.post message).link := by
  cases message with
  | none => exact w.link.sends_refl
  | some m => exact w.link.sends_write m none

theorem sends_refuse (mp : Msgpack) (w : Service) (c : ℕ) (msgid : JsValue) (method : Option String) :
    w.link.Sends (w.refuse mp c msgid method).link := by
  unfold refuse
  cases method with
  | none => exact w.link.sends_refl
  | some text => exact w.link.sends_send mp _ _

theorem sends_settle (mp : Msgpack) (w : Service) (t : ℕ) (o : Outcome) :
    w.link.Sends (w.settle mp t o).link := by
  rcases settle_cases mp w t o with ⟨-, h⟩ | ⟨message, -, -, h⟩
  · rw [h]
    exact w.link.sends_refl
  · rw [h]
    exact w.link.sends_send mp _ _

theorem sends_drain (mp : Msgpack) (es : List (MapKey × InFlight)) :
    ∀ l : Link, l.Sends (drain mp es l) := by
  induction es with
  | nil => exact Link.sends_refl
  | cons p rest ih => exact fun l => (l.sends_send mp _ _).trans (ih _)

/-- What an event does to the link, but for frames. -/
def Event.onLink (options : ReconnectOptions) (l : Link) : Event → Link
  | .shut _ => { l with closedByUs := true, reconnectTimer := none }
  | .close => l.close
  | .doReconnect r => l.doReconnect r
  | .opened r => l.opened r
  | .refused r now listener => l.refused options now r listener
  | .caught now listener => l.caught options now listener
  | .reconnected => { l with reconnectAttempt := 0 }
  | .closed c now => l.closed options now c
  | .broken c destroyed => l.broken c destroyed
  | _ => l

theorem sends_apply (mp : Msgpack) (options : ReconnectOptions) (w : Service) (e : Event) :
    (e.onLink options w.link).Sends (w.apply mp options e).link := by
  cases e with
  | write message => exact sends_post w (some message)
  | refuse c msgid method => exact sends_refuse mp w c msgid method
  | settle t o => exact sends_settle mp w t o
  | shut connected =>
    change Link.Sends _ (w.shut mp connected).link
    unfold shut
    dsimp only
    split
    · exact sends_drain mp _ _
    · exact Link.sends_refl _
  | _ => exact Link.sends_refl _

theorem sent_apply (mp : Msgpack) (options : ReconnectOptions) (w : Service) (e : Event) :
    w.link.sent <+: (w.apply mp options e).link.sent := by
  have hsame : (e.onLink options w.link).sent = w.link.sent := by
    cases e with
    | close => exact w.link.close_sent
    | refused r now listener => exact Link.refused_sent ..
    | caught now listener => exact Link.caught_sent ..
    | closed c now => exact Link.closed_sent ..
    | _ => rfl
  obtain ⟨more, h⟩ := sends_apply mp options w e
  rw [h, ← hsame]
  exact List.prefix_append _ _

/-- Only a `connect()` makes another connection one that can be written to. -/
theorem writable_apply {mp : Msgpack} {options : ReconnectOptions} {w : Service} {e : Event} {c : ℕ}
    (h : (w.apply mp options e).link.writable = some c) :
    w.link.writable = some c ∨ ∃ r, e = .opened r ∧ c = w.link.nextConn := by
  rw [(sends_apply mp options w e).writable] at h
  cases e with
  | close =>
    rw [show Event.onLink options w.link .close = w.link.close from rfl, Link.writable_close] at h
    contradiction
  | opened r => exact Or.inr ⟨r, rfl, Link.writable_opened h⟩
  | refused r now listener => exact Or.inl ((Link.writable_refused ..).symm.trans h)
  | caught now listener => exact Or.inl ((Link.writable_caught ..).symm.trans h)
  | closed d now => exact Or.inl (Link.writable_closed h).1
  | broken d destroyed => exact Or.inl (Link.writable_broken h)
  | _ => exact Or.inl h

theorem closedByUs_apply {mp : Msgpack} {options : ReconnectOptions} {w : Service} {e : Event}
    (h : (w.apply mp options e).link.closedByUs = false) :
    w.link.closedByUs = false ∧ ∀ connected, e ≠ .shut connected := by
  obtain ⟨more, he⟩ := sends_apply mp options w e
  rw [he] at h
  have h' : (e.onLink options w.link).closedByUs = false := h
  cases e with
  | shut connected => contradiction
  | close =>
    rw [show Event.onLink options w.link .close = w.link.close from rfl, Link.close_eq] at h'
    exact ⟨h', by simp⟩
  | refused r now listener =>
    rw [show Event.onLink options w.link (.refused r now listener) =
      w.link.refused options now r listener from rfl, Link.refused_eq] at h'
    exact ⟨h', by simp⟩
  | caught now listener =>
    rw [show Event.onLink options w.link (.caught now listener) = w.link.caught options now listener
      from rfl, Link.caught_eq] at h'
    exact ⟨h', by simp⟩
  | closed d now =>
    rw [show Event.onLink options w.link (.closed d now) = w.link.closed options now d from rfl,
      Link.closed_eq] at h'
    exact ⟨h', by simp⟩
  | _ => exact ⟨h', by simp⟩

/-! ### One connection at a time -/

/-- No `connect()` resolves while an earlier connection is open. -/
def OneByOne (w : Service) : Event → Prop
  | .opened _ => w.link.NoneOpen
  | _ => True

theorem single_apply {mp : Msgpack} {options : ReconnectOptions} {w : Service} (hi : w.link.Inv)
    (h : w.link.Single) {e : Event} (he : w.enabled e = true) (hg : w.OneByOne e) :
    (w.apply mp options e).link.Single := by
  refine Link.single_sends ?_ (sends_apply mp options w e)
  cases e with
  | shut connected => exact ⟨h.single, h.current⟩
  | close => exact Link.single_close hi h
  | doReconnect r => exact ⟨h.single, h.current⟩
  | opened r => exact Link.single_opened (hi.noneOpen_iff.mp hg) r
  | refused r now listener => exact Link.single_refused h options now r listener
  | caught now listener => exact Link.single_caught h options now listener
  | reconnected => exact ⟨h.single, h.current⟩
  | closed c now => exact Link.single_closed h options now (of_decide_eq_true he)
  | broken c destroyed => exact Link.single_broken h c destroyed
  | _ => exact h

theorem single_reach {mp : Msgpack} {options : ReconnectOptions} {w : Service}
    (h : (machine mp options).Reach (fun w e _ => w.OneByOne e) w) : w.link.Single := by
  refine h.invariant (P := fun w => w.link.Single) ?_ ?_
  · rintro w rfl
    exact Link.single_initial
  · intro w e v hr hsingle hs hg
    obtain ⟨he, rfl⟩ := Machine.ofEnabled_step.mp hs
    exact single_apply (inv_reach hr).link hsingle he hg

/-! ### Counting in a scope -/

def responsesIn (w : Service) (P : ℕ → Bool) (m : MapKey) : ℕ :=
  w.link.sent.countP (·.answersIn P m)

def requestsIn (w : Service) (P : ℕ → Bool) (m : MapKey) : ℕ :=
  w.requests.countP fun r => P r.1 && decide (r.2 = m)

def everywhere : ℕ → Bool := fun _ => true

def only (c : ℕ) : ℕ → Bool := fun d => d = c

/-- No more RESPONSEs than REQUESTs, and fewer while the id is in flight. -/
structure Counted (P : ℕ → Bool) (w : Service) : Prop where
  le : ∀ m, w.responsesIn P m ≤ w.requestsIn P m
  room : ∀ c m, w.link.IsOpen c → P c = true → w.inFlight.get m ≠ none →
    w.responsesIn P m < w.requestsIn P m

end Service

/-- The scope has all open connections or none. -/
def Link.Undivided (P : ℕ → Bool) (l : Link) : Prop := ∀ c d, l.IsOpen c → l.IsOpen d → P c = P d

theorem Link.undivided_everywhere (l : Link) : l.Undivided Service.everywhere := fun _ _ _ _ => rfl

theorem Link.Single.undivided {l : Link} (h : l.Single) (P : ℕ → Bool) : l.Undivided P := by
  intro c d hc hd
  rw [h.single c d hc hd]

namespace Service

variable {P : ℕ → Bool} {w : Service}

theorem Counted.frame {v : Service} (h : w.Counted P)
    (hres : ∀ m, v.responsesIn P m = w.responsesIn P m) (hreq : v.requests = w.requests)
    (hroom : ∀ c m, v.link.IsOpen c → P c = true → v.inFlight.get m ≠ none →
      w.inFlight.get m ≠ none ∧ ∃ d, w.link.IsOpen d ∧ P d = true) : v.Counted P := by
  have hcount : ∀ m, v.requestsIn P m = w.requestsIn P m := by
    intro m
    unfold requestsIn
    rw [hreq]
  constructor
  · intro m
    rw [hres, hcount]
    exact h.le m
  · intro c m hc hP hm
    obtain ⟨hget, d, hd, hPd⟩ := hroom c m hc hP hm
    rw [hres, hcount]
    exact h.room d m hd hPd hget

theorem answersIn_reply (c : ℕ) (m k : MapKey) (message : JsValue) (author : Author) :
    (Frame.mk c message (some (k, author))).answersIn P m = decide (P c = true ∧ k = m) := by
  simp [Frame.answersIn]

theorem count_send (mp : Msgpack) (l : Link) (message : JsValue) (k m : MapKey) (author : Author) :
    (l.send mp message (some (k, author))).sent.countP (·.answersIn P m) ≤
      l.sent.countP (·.answersIn P m) + if l.socket.any P = true ∧ k = m then 1 else 0 := by
  rcases l.send_cases mp message (some (k, author)) with he | ⟨d, hd, he⟩
  · rw [he]
    exact Nat.le_add_right _ _
  · rw [he, (Link.writable_socket hd).1]
    simp only [List.countP_append, List.countP_singleton, answersIn_reply, Option.any_some,
      decide_eq_true_eq]
    exact Nat.le_refl _

theorem responsesIn_write (w : Service) (message : JsValue) (m : MapKey) :
    (w.post (some message)).responsesIn P m = w.responsesIn P m := by
  change (w.link.write message none).sent.countP _ = w.link.sent.countP _
  rcases w.link.write_cases message none with ⟨-, he⟩ | ⟨c, -, he⟩
  · rw [he]
  · rw [he, List.countP_append]
    simp [Frame.answersIn]

theorem requestsIn_append (w : Service) (c : ℕ) (k m : MapKey) :
    ({ w with requests := w.requests ++ [(c, k)] } : Service).requestsIn P m =
      w.requestsIn P m + if P c = true ∧ k = m then 1 else 0 := by
  simp [requestsIn, List.countP_append, List.countP_singleton]

theorem open_socket (hi : w.link.Inv) (h : w.link.socket.any P = true) :
    ∃ c, w.link.IsOpen c ∧ P c = true := by
  cases hs : w.link.socket with
  | none => simp [hs] at h
  | some c => exact ⟨c, hi.socket c hs, by simpa [hs] using h⟩

theorem counted_receive (h : w.Counted P) (hagree : w.link.Undivided P) {c : ℕ}
    (hc : w.link.IsOpen c) (msgid : JsValue) (method : String) (params : JsValue) (handler : ℕ) :
    (w.receive c msgid method params handler).Counted P := by
  have hreq : ∀ m, (w.receive c msgid method params handler).requestsIn P m =
      w.requestsIn P m + if P c = true ∧ msgid.mapKey w.requests.length = m then 1 else 0 :=
    fun m => w.requestsIn_append c _ m
  constructor
  · intro m
    rw [hreq]
    exact Nat.le_trans (h.le m) (Nat.le_add_right _ _)
  · intro d m hd hP hm
    rw [hreq]
    change w.responsesIn P m < _
    by_cases hkey : msgid.mapKey w.requests.length = m
    · rw [if_pos ⟨(hagree c d hc hd).trans hP, hkey⟩]
      exact Nat.lt_succ_of_le (h.le m)
    · have hget : w.inFlight.get m ≠ none := by
        have hset : (w.receive c msgid method params handler).inFlight.get m = w.inFlight.get m :=
          (InsertMap.get_set _ _ _ _).trans (if_neg hkey)
        rw [← hset]
        exact hm
      exact Nat.lt_of_lt_of_le (h.room d m hd hP hget) (Nat.le_add_right _ _)

theorem counted_refuse (hi : w.link.Inv) (h : w.Counted P) (hagree : w.link.Undivided P) {c : ℕ}
    (hc : w.link.IsOpen c) (mp : Msgpack) (msgid : JsValue) (method : Option String) :
    (w.refuse mp c msgid method).Counted P := by
  have hreq : ∀ m, (w.refuse mp c msgid method).requestsIn P m =
      w.requestsIn P m + if P c = true ∧ msgid.mapKey w.requests.length = m then 1 else 0 := by
    intro m
    rw [← requestsIn_append]
    cases method <;> rfl
  -- The RESPONSE, if any, is in the scope only if its REQUEST is.
  have hres : ∀ m, (w.refuse mp c msgid method).responsesIn P m ≤
      w.responsesIn P m + if P c = true ∧ msgid.mapKey w.requests.length = m then 1 else 0 := by
    intro m
    cases method with
    | none => exact Nat.le_add_right _ _
    | some text =>
      refine Nat.le_trans (count_send mp w.link _ _ m .unregistered) (Nat.add_le_add_left ?_ _)
      split
      next hhit =>
        obtain ⟨d, hd, hP⟩ := open_socket hi hhit.1
        rw [if_pos ⟨(hagree c d hc hd).trans hP, hhit.2⟩]
      next => exact Nat.zero_le _
  have hsame : (w.refuse mp c msgid method).inFlight = w.inFlight ∧
      (w.refuse mp c msgid method).link.conns = w.link.conns := by
    unfold refuse
    cases method with
    | none => exact ⟨rfl, rfl⟩
    | some text => exact ⟨rfl, (send_socket mp w.link _ _).2.1⟩
  constructor
  · intro m
    have := hres m
    have := h.le m
    rw [hreq]
    omega
  · intro d m hd hP hm
    rw [hsame.1] at hm
    unfold Link.IsOpen at hd
    rw [hsame.2] at hd
    have := hres m
    have := h.room d m hd hP hm
    rw [hreq]
    omega

theorem counted_settle (hi : w.link.Inv) (h : w.Counted P) (mp : Msgpack) (t : ℕ) (o : Outcome) :
    (w.settle mp t o).Counted P := by
  rcases settle_cases mp w t o with ⟨-, he⟩ | ⟨message, -, hget, he⟩
  · rw [he]
    exact ⟨h.le, h.room⟩
  · rw [he]
    have hcount := fun m => count_send (P := P) mp w.link message (w.tasks t).key m (.handler t)
    obtain ⟨-, hconns, -⟩ := send_socket mp w.link message (some ((w.tasks t).key, .handler t))
    constructor
    · intro m
      refine Nat.le_trans (hcount m) ?_
      have hle := h.le m
      split
      next hhit =>
        obtain ⟨c, hc, hP⟩ := open_socket hi hhit.1
        exact h.room c m hc hP (hhit.2 ▸ hget)
      next => exact hle
    · intro c m hc hP hm
      obtain ⟨e, hm⟩ := Option.ne_none_iff_exists'.mp hm
      obtain ⟨hne, hold⟩ := InsertMap.get_delete_eq_some hm
      unfold Link.IsOpen at hc
      rw [hconns] at hc
      have hm' := hcount m
      rw [if_neg fun hhit => hne hhit.2.symm] at hm'
      exact Nat.lt_of_le_of_lt hm' (h.room c m hc hP (by simp [hold]))

theorem count_drain (mp : Msgpack) {requests : MapKey → ℕ} (es : List (MapKey × InFlight)) :
    ∀ {l : Link}, (es.map Prod.fst).Nodup →
    (∀ m, l.sent.countP (·.answersIn P m) ≤ requests m) →
    (l.socket.any P = true → ∀ p ∈ es, l.sent.countP (·.answersIn P p.1) < requests p.1) →
    ∀ m, (drain mp es l).sent.countP (·.answersIn P m) ≤ requests m := by
  induction es with
  | nil => exact fun _ hle _ => hle
  | cons p rest ih =>
    intro l hn hle hroom
    rw [List.map_cons, List.nodup_cons] at hn
    have hcount := fun m => count_send (P := P) mp l (closingReply p.2) p.1 m .closing
    obtain ⟨hs, -⟩ := send_socket mp l (closingReply p.2) (some (p.1, .closing))
    refine ih hn.2 (fun m => ?_) fun hany q hq => ?_
    · refine Nat.le_trans (hcount m) ?_
      have := hle m
      split
      next hhit => exact hhit.2 ▸ hroom hhit.1 p List.mem_cons_self
      next => exact this
    · rw [hs] at hany
      have hne : p.1 ≠ q.1 := fun he => hn.1 (he ▸ List.mem_map_of_mem hq)
      have hq' := hcount q.1
      rw [if_neg fun hhit => hne hhit.2] at hq'
      exact Nat.lt_of_le_of_lt hq' (hroom hany q (List.mem_cons_of_mem _ hq))

theorem counted_shut (hi : w.link.Inv) (h : w.Counted P) (mp : Msgpack) (connected : Bool) :
    (w.shut mp connected).Counted P := by
  unfold shut
  dsimp only
  split
  · constructor
    · refine count_drain mp w.inFlight.entries
        (l := { w.link with closedByUs := true, reconnectTimer := none }) w.inFlight.nodup h.le ?_
      intro hany p hp
      obtain ⟨c, hc, hP⟩ := open_socket hi hany
      exact h.room c p.1 hc hP (by simp [(InsertMap.get_eq_some_iff _).mpr hp])
    · exact fun _ m _ _ hm => absurd (InsertMap.get_empty m) hm
  · exact ⟨h.le, h.room⟩

theorem responsesIn_only (w : Service) (c : ℕ) (m : MapKey) :
    w.responsesIn (only c) m = w.responses c m := by
  unfold responsesIn responses Frame.answersIn Frame.answers only
  simp only [decide_eq_true_eq]

theorem requestsIn_only (w : Service) (c : ℕ) (m : MapKey) :
    w.requestsIn (only c) m = w.requests.count (c, m) := by
  unfold requestsIn only
  rw [List.count_eq_countP]
  refine List.countP_congr fun p _ => ?_
  simp [Prod.ext_iff]

theorem counted_apply {mp : Msgpack} {options : ReconnectOptions} (hi : w.Inv) (h : w.Counted P)
    {e : Event} (he : w.enabled e = true) (hagree : w.link.Undivided P)
    (hagree' : (w.apply mp options e).link.Undivided P) : (w.apply mp options e).Counted P := by
  have hkeep : ∀ l : Link, l.sent = w.link.sent → (∀ c, l.IsOpen c → w.link.IsOpen c) →
      ({ w with link := l } : Service).Counted P := by
    intro l hsent hopen
    refine h.frame (fun m => ?_) rfl fun c m hc hP hm => ⟨hm, c, hopen c hc, hP⟩
    unfold responsesIn
    rw [hsent]
  cases e with
  | write message =>
    refine h.frame (w.responsesIn_write message) rfl fun c m hc hP hm => ⟨hm, c, ?_, hP⟩
    obtain ⟨more, hmore⟩ := w.link.sends_write message none
    change (w.link.write message none).IsOpen c at hc
    rw [hmore] at hc
    exact hc
  | receive c msgid method params handler =>
    exact counted_receive h hagree ((w.reads_iff c).mp he).1 msgid method params handler
  | refuse c msgid method =>
    exact counted_refuse hi.link h hagree ((w.reads_iff c).mp he).1 mp msgid method
  | settle t o => exact counted_settle hi.link h mp t o
  | shut connected => exact counted_shut hi.link h mp connected
  | close => exact hkeep _ w.link.close_sent fun c hc => (w.link.close_conns c).1.symm.trans hc
  | doReconnect r => exact hkeep _ rfl fun c hc => hc
  | opened r =>
    -- What is in flight came on an open connection, and the scope takes the new one for its like.
    refine h.frame (fun _ => rfl) rfl fun c m hc hP hm => ⟨hm, ?_⟩
    obtain ⟨d, hd⟩ := hi.busy m hm
    have hne : d ≠ w.link.nextConn := Nat.ne_of_lt (hi.link.lt_nextConn hd)
    have hd' : (w.link.opened r).IsOpen d := by
      unfold Link.IsOpen
      rw [Link.opened_conns, if_neg hne]
      exact hd
    exact ⟨d, hd, (hagree' d c hd' hc).trans hP⟩
  | refused r now listener =>
    refine hkeep _ (Link.refused_sent ..) fun c hc => ?_
    rw [Link.refused_eq] at hc
    exact hc
  | caught now listener =>
    refine hkeep _ (Link.caught_sent ..) fun c hc => ?_
    rw [Link.caught_eq] at hc
    exact hc
  | reconnected => exact hkeep _ rfl fun c hc => hc
  | closed c now =>
    refine h.frame (fun m => ?_) rfl fun _ m _ _ hm => absurd (InsertMap.get_empty m) hm
    change (w.link.closed options now c).sent.countP _ = _
    rw [Link.closed_sent]
    rfl
  | broken c destroyed =>
    exact hkeep _ rfl fun d hd => (w.link.broken_status c d destroyed).symm.trans hd

theorem counted_reach {mp : Msgpack} {options : ReconnectOptions} {ok : Guard Service Event}
    (hagree : ∀ v, (machine mp options).Reach ok v → v.link.Undivided P)
    (h : (machine mp options).Reach ok w) : w.Counted P := by
  refine h.invariant ?_ ?_
  · rintro w rfl
    exact ⟨fun _ => Nat.le_refl 0, fun _ m _ _ hm => absurd (InsertMap.get_empty m) hm⟩
  · intro w e v hr hc hs hg
    have hafter := hagree v (hr.step hs hg)
    obtain ⟨he, rfl⟩ := Machine.ofEnabled_step.mp hs
    exact counted_apply (inv_reach hr) hc he (hagree w hr) hafter

end Service

end UnoQ.Client
