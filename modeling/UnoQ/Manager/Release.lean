import UnoQ.Client.Undropped

/-!
# The last release

What `release` starts when the refcount of a bridge comes to zero: it waits for the active
handlers, for 60 s at most, and then closes the bridge. The bridge goes on meanwhile, and
REQUESTs go on coming in. The wait is a loop; each round waits for the handlers that were
active when it began.
-/

namespace UnoQ.Manager
open Codec Transition Client

def DRAIN_TIMEOUT_MS : ℤ := 60000

/-- Where `waitForActiveHandlers` stands. A round awaits the handlers of its snapshot or its timer,
which is due at `due`. -/
inductive Drain
  | idle
  | waiting (snapshot : List ℕ) (due deadline : ℤ)
  | drained
  | closing
  deriving DecidableEq

/-- A bridge, and what its release makes of it. `activeHandlers` are the handlers that have not
settled, or whose `finally` has not run; `releasedAt` records when the release was. -/
structure Release where
  bridge : Bridge
  activeHandlers : List ℕ
  drain : Drain
  releasedAt : ℤ

namespace Release

/-- The head of the loop of `waitForActiveHandlers`. -/
def nextRound (s : Release) (deadline : ℤ) : Release :=
  if s.activeHandlers = [] then { s with drain := .drained }
  else
    let remaining := deadline - s.bridge.calls.now
    if remaining ≤ 0 then { s with drain := .drained }
    else
      let due := s.bridge.calls.now + setTimeoutDelay remaining
      { s with drain := .waiting s.activeHandlers due deadline }

def waitForActiveHandlers (s : Release) (timeoutMs : ℤ) : Release :=
  if s.activeHandlers = [] then { s with drain := .drained }
  else s.nextRound (s.bridge.calls.now + timeoutMs)

def release (s : Release) : Release :=
  ({ s with releasedAt := s.bridge.calls.now } : Release).waitForActiveHandlers DRAIN_TIMEOUT_MS

def resume (s : Release) : Release :=
  match s.drain with
  | .waiting _ _ deadline => s.nextRound deadline
  | _ => s

def close (host : Host) (s : Release) : Release :=
  { s with bridge := s.bridge.close host, drain := .closing }

/-- A handler becomes active when its REQUEST is dispatched; the end of the connection makes the
bridge forget them all. -/
def track (active : List ℕ) (s t : Bridge) : Bridge.Event → List ℕ
  | .closed _ => []
  | _ => active ++ List.range' s.service.nextTask (t.service.nextTask - s.service.nextTask)

def onBridge (host : Host) (s : Release) (e : Bridge.Event) : Release :=
  let bridge := s.bridge.apply host e
  { s with bridge := bridge, activeHandlers := track s.activeHandlers s.bridge bridge e }

/-! ### The machine -/

def initial : Release := ⟨.initial, [], .idle, 0⟩

/-- `finished t` is the `finally` of a handler's task; only the end of the wait closes the bridge. -/
inductive Event
  | bridge (e : Bridge.Event)
  | finished (t : ℕ)
  | release
  | resume
  | close

def isClose : Bridge.Event → Bool
  | .close => true
  | _ => false

def settled (s : Release) (t : ℕ) : Bool := (s.bridge.service.tasks t).outcome.isSome

/-- A round is over: its handlers have settled and their `finally` has run, or its timer fires. -/
def roundOver (s : Release) : Bool :=
  match s.drain with
  | .waiting snapshot due _ =>
    (s.bridge.quiet && snapshot.all fun t => s.settled t && decide (t ∉ s.activeHandlers)) ||
      (s.bridge.idle && decide (due ≤ s.bridge.calls.now))
  | _ => false

def enabled (s : Release) : Event → Bool
  | .bridge e => !isClose e && s.bridge.enabled e
  | .finished t => s.bridge.quiet && decide (t ∈ s.activeHandlers) && s.settled t
  | .release => decide (s.drain = .idle)
  | .resume => s.roundOver
  | .close => s.bridge.quiet && decide (s.drain = .drained)

def apply (host : Host) (s : Release) : Event → Release
  | .bridge e => s.onBridge host e
  | .finished t => { s with activeHandlers := s.activeHandlers.filter (· ≠ t) }
  | .release => s.release
  | .resume => s.resume
  | .close => s.close host

def machine (host : Host) : Machine Release Event :=
  .ofEnabled (· = initial) (fun s e => s.enabled e = true) (apply host)

/-- The connection does not drop, REQUESTs come with numbers of their own, and handlers settle with
what can be encoded. -/
def Graceful (host : Host) : Guard Release Event := fun s e t =>
  match e with
  | .bridge e => Bridge.Steady host s.bridge e t.bridge
  | .close => Bridge.Steady host s.bridge .close t.bridge
  | _ => True

instance (host : Host) (s : Release) : ∀ (e : Event) (t : Release), Decidable (Graceful host s e t) := by
  rintro (_ | _) t <;> dsimp only [Graceful] <;> infer_instance

/-! ### The bridge in it -/

theorem bridge_step {host : Host} {s t : Release} {e : Event} (h : (machine host).step s e = some t)
    (hg : Graceful host s e t) : t.bridge = s.bridge ∨ ∃ b,
      (Bridge.machine host).step s.bridge b = some t.bridge ∧ Bridge.Steady host s.bridge b t.bridge := by
  obtain ⟨he, rfl⟩ := Machine.ofEnabled_step.mp h
  cases e with
  | bridge b =>
    have hb : isClose b = false ∧ s.bridge.enabled b = true := by simpa [enabled] using he
    exact Or.inr ⟨b, Machine.ofEnabled_step.mpr ⟨hb.2, rfl⟩, hg⟩
  | close => exact Or.inr ⟨.close, Machine.ofEnabled_step.mpr ⟨rfl, rfl⟩, hg⟩
  | finished t => exact Or.inl rfl
  | release =>
    refine Or.inl ?_
    change s.release.bridge = s.bridge
    unfold release waitForActiveHandlers nextRound
    dsimp only
    repeat' split
    all_goals rfl
  | resume =>
    refine Or.inl ?_
    change s.resume.bridge = s.bridge
    unfold resume nextRound
    dsimp only
    repeat' split
    all_goals rfl

theorem bridge_reach {host : Host} {s : Release} (h : (machine host).Reach (Graceful host) s) :
    (Bridge.machine host).Reach (Bridge.Steady host) s.bridge := by
  refine h.simulation Release.bridge ?_ ?_
  · intro s hs
    cases hs
    rfl
  · intro s e t _ ih hstep hg
    rcases bridge_step hstep hg with hsame | ⟨b, hb, hgb⟩
    · rw [hsame]
      exact ih
    · exact ih.step hb hgb

theorem bridge_since {host : Host} {s t : Release}
    (h : ((machine host).startingAt s).Reach (Graceful host) t) :
    ((Bridge.machine host).startingAt s.bridge).Reach (Bridge.Steady host) t.bridge := by
  refine h.simulation Release.bridge ?_ ?_
  · intro t ht
    cases ht
    rfl
  · intro u e v _ ih hstep hg
    rcases bridge_step (show (machine host).step u e = some v from hstep) hg with
      hsame | ⟨b, hb, hgb⟩
    · rw [hsame]
      exact ih
    · exact ih.step hb hgb

/-! ### The wait -/

def deadline (s : Release) : ℤ := s.releasedAt + DRAIN_TIMEOUT_MS

def AllSettled (s : Release) : Prop := ∀ t < s.bridge.service.nextTask, s.settled t = true

structure Inv (s : Release) : Prop where
  born : ∀ t ∈ s.activeHandlers, t < s.bridge.service.nextTask
  opened : s.drain ≠ .closing → s.bridge.service.link.closedByUs = false
  active : s.drain ≠ .closing → ∀ t < s.bridge.service.nextTask,
    s.settled t = true ∨ t ∈ s.activeHandlers
  waiting : ∀ snapshot due deadline, s.drain = .waiting snapshot due deadline →
    deadline = s.deadline ∧ due ≤ deadline ∧ ∀ t ∈ snapshot, t < s.bridge.service.nextTask

theorem setTimeoutDelay_le {ms : ℤ} (h : 1 ≤ ms) : setTimeoutDelay ms ≤ ms := by
  unfold setTimeoutDelay
  split
  · exact Int.le_refl ms
  · exact h

/-- A round ends the wait or begins another one. -/
theorem nextRound_cases (s : Release) (d : ℤ) :
    (s.nextRound d = { s with drain := .drained } ∧
      (s.activeHandlers = [] ∨ d ≤ s.bridge.calls.now)) ∨
    ∃ due, s.nextRound d = { s with drain := .waiting s.activeHandlers due d } ∧ due ≤ d ∧
      s.activeHandlers ≠ [] ∧ s.bridge.calls.now < d := by
  unfold nextRound
  split
  next hnil => exact Or.inl ⟨rfl, Or.inl hnil⟩
  next hne =>
    dsimp only
    split
    next hle => exact Or.inl ⟨rfl, Or.inr (by omega)⟩
    next hlt =>
      have hdelay := setTimeoutDelay_le (show 1 ≤ d - s.bridge.calls.now by omega)
      refine Or.inr ⟨s.bridge.calls.now + setTimeoutDelay (d - s.bridge.calls.now), rfl, ?_, hne, ?_⟩
      · omega
      · omega

theorem release_cases (s : Release) :
    (s.release = { s with releasedAt := s.bridge.calls.now, drain := .drained } ∧
      s.activeHandlers = []) ∨
    ∃ due, s.release = { s with
        releasedAt := s.bridge.calls.now
        drain := .waiting s.activeHandlers due (s.bridge.calls.now + DRAIN_TIMEOUT_MS) } ∧
      due ≤ s.bridge.calls.now + DRAIN_TIMEOUT_MS := by
  unfold release waitForActiveHandlers
  split
  next hnil => exact Or.inl ⟨rfl, hnil⟩
  next hne =>
    rcases nextRound_cases { s with releasedAt := s.bridge.calls.now }
      (s.bridge.calls.now + DRAIN_TIMEOUT_MS) with ⟨h, hend⟩ | ⟨due, h, hdue, -⟩
    · rcases hend with hend | hend
      · exact absurd hend hne
      · have hlate : s.bridge.calls.now + 60000 ≤ s.bridge.calls.now := hend
        omega
    · exact Or.inr ⟨due, h, hdue⟩

theorem later_step {host : Host} {s t : Bridge} {b : Bridge.Event}
    (hs : (Bridge.machine host).Reach (Bridge.Steady host) s)
    (hstep : (Bridge.machine host).step s b = some t) (hg : Bridge.Steady host s b t) :
    s.service.Later t.service := by
  have hone : ((Bridge.machine host).startingAt s).Reach (Bridge.Steady host) s := .init rfl
  exact Bridge.later_since hs (hone.step hstep hg)

theorem mem_track {active : List ℕ} {s t : Bridge} {b : Bridge.Event} (hb : ∀ c, b ≠ .closed c)
    (hle : s.service.nextTask ≤ t.service.nextTask) (x : ℕ) : x ∈ track active s t b ↔
      x ∈ active ∨ (s.service.nextTask ≤ x ∧ x < t.service.nextTask) := by
  have htrack : track active s t b =
      active ++ List.range' s.service.nextTask (t.service.nextTask - s.service.nextTask) := by
    cases b with
    | closed c => exact absurd rfl (hb c)
    | _ => rfl
  rw [htrack, List.mem_append, List.mem_range'_1]
  have hadd : s.service.nextTask + (t.service.nextTask - s.service.nextTask) = t.service.nextTask := by
    omega
  rw [hadd]

theorem inv_onBridge {host : Host} {s : Release} (hs : (machine host).Reach (Graceful host) s)
    (h : s.Inv) {b : Bridge.Event} (hb : isClose b = false) (he : s.bridge.enabled b = true)
    (hg : Bridge.Steady host s.bridge b (s.bridge.apply host b)) : (s.onBridge host b).Inv := by
  have hreach := bridge_reach hs
  have hlater := later_step hreach (Machine.ofEnabled_step.mpr ⟨he, rfl⟩) hg
  have hopened : s.drain ≠ .closing → (s.bridge.apply host b).service.link.closedByUs = false := by
    intro hd
    rw [Bridge.closedByUs_apply he (fun hc => by rw [hc] at hb; contradiction)]
    exact h.opened hd
  have hwaiting : ∀ snapshot due deadline, s.drain = .waiting snapshot due deadline →
      deadline = s.deadline ∧ due ≤ deadline ∧
        ∀ t ∈ snapshot, t < (s.bridge.apply host b).service.nextTask := by
    intro snapshot due deadline hd
    obtain ⟨h1, h2, h3⟩ := h.waiting snapshot due deadline hd
    exact ⟨h1, h2, fun t ht => Nat.lt_of_lt_of_le (h3 t ht) hlater.nextTask⟩
  by_cases hclosed : ∃ c, b = .closed c
  · obtain ⟨c, rfl⟩ := hclosed
    refine ⟨fun t ht => absurd ht List.not_mem_nil, hopened, fun hd => ?_, hwaiting⟩
    have hc : s.bridge.idle = true ∧ s.bridge.service.link.IsOpen c := by
      simpa [Bridge.enabled, Link.IsOpen] using he
    exact absurd hg (Bridge.not_ended hreach (h.opened hd) hc.2)
  · have hmem : ∀ x, x ∈ track s.activeHandlers s.bridge (s.bridge.apply host b) b ↔ x ∈ s.activeHandlers ∨
        (s.bridge.service.nextTask ≤ x ∧ x < (s.bridge.apply host b).service.nextTask) :=
      mem_track (fun c hc => hclosed ⟨c, hc⟩) hlater.nextTask
    refine ⟨fun t ht => ?_, hopened, fun hd t ht => ?_, hwaiting⟩
    · rcases (hmem t).mp ht with hold | hnew
      · exact Nat.lt_of_lt_of_le (h.born t hold) hlater.nextTask
      · exact hnew.2
    · by_cases hlt : t < s.bridge.service.nextTask
      · rcases h.active hd t hlt with hsettled | hactive
        · exact Or.inl (hlater.settled t hlt hsettled)
        · exact Or.inr ((hmem t).mpr (Or.inl hactive))
      · exact Or.inr ((hmem t).mpr (Or.inr ⟨by omega, ht⟩))

theorem inv_drained {s : Release} (h : s.Inv) (hd : s.drain ≠ .closing) (start : ℤ) :
    ({ s with releasedAt := start, drain := .drained } : Release).Inv where
  born := h.born
  opened _ := h.opened hd
  active _ := h.active hd
  waiting _ _ _ hw := by contradiction

theorem inv_waiting {s : Release} (h : s.Inv) (hd : s.drain ≠ .closing) {start due d : ℤ}
    (hdeadline : d = start + DRAIN_TIMEOUT_MS) (hdue : due ≤ d) :
    ({ s with releasedAt := start, drain := .waiting s.activeHandlers due d } : Release).Inv where
  born := h.born
  opened _ := h.opened hd
  active _ := h.active hd
  waiting snapshot due' d' hw := by
    cases hw
    exact ⟨hdeadline, hdue, h.born⟩

theorem inv_step {host : Host} {s t : Release} {e : Event} (hs : (machine host).Reach (Graceful host) s)
    (h : s.Inv) (hstep : (machine host).step s e = some t) (hg : Graceful host s e t) : t.Inv := by
  obtain ⟨he, rfl⟩ := Machine.ofEnabled_step.mp hstep
  cases e with
  | bridge b =>
    have hb : isClose b = false ∧ s.bridge.enabled b = true := by simpa [enabled] using he
    exact inv_onBridge hs h hb.1 hb.2 hg
  | finished x =>
    have hx : (s.bridge.quiet = true ∧ x ∈ s.activeHandlers) ∧ s.settled x = true := by
      simpa [enabled] using he
    refine { h with born := fun t ht => h.born t (List.mem_of_mem_filter ht), active := fun hd t ht => ?_ }
    rcases h.active hd t ht with hsettled | hactive
    · exact Or.inl hsettled
    · by_cases htx : t = x
      · exact Or.inl (htx ▸ hx.2)
      · exact Or.inr (List.mem_filter.mpr ⟨hactive, by simp [htx]⟩)
  | release =>
    have hidle : s.drain = .idle := of_decide_eq_true he
    have hd : s.drain ≠ .closing := by simp [hidle]
    change s.release.Inv
    rcases release_cases s with ⟨hr, -⟩ | ⟨due, hr, hdue⟩
    · rw [hr]
      exact inv_drained h hd _
    · rw [hr]
      exact inv_waiting h hd rfl hdue
  | resume =>
    change s.resume.Inv
    unfold resume
    split
    next snapshot due d hw =>
      have hd : s.drain ≠ .closing := by simp [hw]
      obtain ⟨hdeadline, -, -⟩ := h.waiting snapshot due d hw
      rcases nextRound_cases s d with ⟨hr, -⟩ | ⟨due', hr, hdue, -⟩
      · rw [hr]
        exact inv_drained h hd s.releasedAt
      · rw [hr]
        exact inv_waiting h hd hdeadline hdue
    next => exact h
  | close =>
    have hlater := later_step (bridge_reach hs) (b := .close) (Machine.ofEnabled_step.mpr ⟨rfl, rfl⟩) hg
    refine ⟨fun t ht => Nat.lt_of_lt_of_le (h.born t ht) hlater.nextTask, fun hd => absurd rfl hd,
      fun hd => absurd rfl hd, fun _ _ _ hw => ?_⟩
    contradiction

theorem inv_reach {host : Host} {s : Release} (h : (machine host).Reach (Graceful host) s) : s.Inv := by
  refine h.invariant ?_ ?_
  · intro s hs
    cases hs
    refine ⟨fun t ht => absurd ht List.not_mem_nil, fun _ => rfl,
      fun _ t ht => absurd ht (Nat.not_lt_zero t), fun _ _ _ hw => ?_⟩
    contradiction
  · intro s e t hr hi hstep hg
    exact inv_step hr hi hstep hg

/-- The steps of the wait itself: no time passes, and the bridge is left alone. -/
def Internal : Guard Release Event := fun _ e _ =>
  match e with
  | .finished _ | .resume => True
  | _ => False

theorem quiet_of_idle {b : Bridge} (h : b.idle = true) : b.quiet = true := by
  have hq : b.quiet = true ∧ _ := of_decide_eq_true h
  exact hq.1

/-- The `finally` of every settled handler can run, one after the other. -/
theorem all_finished {host : Host} {s : Release} (h : s.Inv) (hidle : s.bridge.idle = true)
    (hall : s.AllSettled) (l : List ℕ) : ∀ u : Release, ((machine host).startingAt s).Reach Internal u →
      u.bridge = s.bridge → u.drain = s.drain → (∀ x ∈ u.activeHandlers, x ∈ s.activeHandlers ∧ x ∈ l) →
      ∃ v : Release, ((machine host).startingAt s).Reach Internal v ∧ v.bridge = s.bridge ∧
        v.drain = s.drain ∧ v.activeHandlers = [] := by
  induction l with
  | nil =>
    intro u hu hb hd hsub
    exact ⟨u, hu, hb, hd, List.eq_nil_iff_forall_not_mem.mpr fun x hx => by simpa using (hsub x hx).2⟩
  | cons y rest ih =>
    intro u hu hb hd hsub
    by_cases hy : y ∈ u.activeHandlers
    · have hsettled : u.settled y = true := by
        unfold settled
        rw [hb]
        exact hall y (h.born y (hsub y hy).1)
      have hen : u.enabled (.finished y) = true := by
        have hq := quiet_of_idle hidle
        rw [← hb] at hq
        simp [enabled, hq, hy, hsettled]
      refine ih _ (hu.step (Machine.ofEnabled_step.mpr ⟨hen, rfl⟩) trivial) hb hd fun x hx => ?_
      obtain ⟨hx, hxy⟩ := List.mem_filter.mp hx
      obtain ⟨hold, hmem⟩ := hsub x hx
      exact ⟨hold, (List.mem_cons.mp hmem).resolve_left (by simpa using hxy)⟩
    · refine ih u hu hb hd fun x hx => ?_
      obtain ⟨hold, hmem⟩ := hsub x hx
      exact ⟨hold, (List.mem_cons.mp hmem).resolve_left fun hxy => hy (hxy ▸ hx)⟩

theorem resume_waiting {s : Release} {snapshot : List ℕ} {due d : ℤ}
    (hw : s.drain = .waiting snapshot due d) : s.resume = s.nextRound d := by
  unfold resume
  rw [hw]

theorem Inv.allSettled {s : Release} (h : s.Inv) (hd : s.drain ≠ .closing) (hnil : s.activeHandlers = []) :
    s.AllSettled := by
  intro t ht
  rcases h.active hd t ht with hsettled | hactive
  · exact hsettled
  · rw [hnil] at hactive
    contradiction

theorem ends_of_inv {host : Host} {s : Release} (h : s.Inv) {snapshot : List ℕ} {due d : ℤ}
    (hw : s.drain = .waiting snapshot due d) (hidle : s.bridge.idle = true)
    (hend : s.AllSettled ∨ s.deadline ≤ s.bridge.calls.now) : ∃ t : Release,
      ((machine host).startingAt s).Reach Internal t ∧ t.bridge = s.bridge ∧ t.drain = .drained := by
  obtain ⟨hdeadline, hdue, hsnapshot⟩ := h.waiting snapshot due d hw
  -- A state in which the round is over and the next one ends the wait.
  have hfinal : ∀ v : Release, ((machine host).startingAt s).Reach Internal v → v.bridge = s.bridge →
      v.drain = s.drain → v.roundOver = true → (v.activeHandlers = [] ∨ d ≤ v.bridge.calls.now) →
      ∃ t : Release, ((machine host).startingAt s).Reach Internal t ∧ t.bridge = s.bridge ∧
        t.drain = .drained := by
    intro v hv hb hd hover hdone
    have hres : v.resume = { v with drain := .drained } := by
      rw [resume_waiting (hd.trans hw)]
      rcases nextRound_cases v d with ⟨hr, -⟩ | ⟨due', -, -, hne, hlt⟩
      · exact hr
      · rcases hdone with hnil | hlate
        · exact absurd hnil hne
        · omega
    have hen : v.enabled .resume = true := hover
    refine ⟨v.resume, hv.step (Machine.ofEnabled_step.mpr ⟨hen, rfl⟩) trivial, ?_, ?_⟩
    · rw [hres]
      exact hb
    · rw [hres]
  rcases hend with hall | hlate
  · obtain ⟨v, hv, hb, hd, hnil⟩ := all_finished h hidle hall s.activeHandlers s
      (.init rfl) rfl rfl fun x hx => ⟨hx, hx⟩
    refine hfinal v hv hb hd ?_ (Or.inl hnil)
    have hq := quiet_of_idle hidle
    rw [← hb] at hq
    simp only [roundOver, hd.trans hw, hq, hnil, Bool.true_and, Bool.or_eq_true]
    refine Or.inl (List.all_eq_true.mpr fun x hx => ?_)
    have hsettled : v.settled x = true := by
      unfold settled
      rw [hb]
      exact hall x (hsnapshot x hx)
    simp [hsettled]
  · rw [← hdeadline] at hlate
    have hfire : due ≤ s.bridge.calls.now := by omega
    exact hfinal s (.init rfl) rfl rfl (by simp [roundOver, hw, hidle, hfire]) (Or.inr hlate)

theorem only_of_inv {host : Host} {s t : Release} {e : Event} (h : s.Inv)
    (hstep : (machine host).step s e = some t) (hne : s.drain ≠ .drained) (hd : t.drain = .drained) :
    s.AllSettled ∨ s.deadline ≤ s.bridge.calls.now := by
  obtain ⟨he, rfl⟩ := Machine.ofEnabled_step.mp hstep
  cases e with
  | bridge b => exact absurd hd hne
  | finished x => exact absurd hd hne
  | close => contradiction
  | release =>
    have hidle : s.drain = .idle := of_decide_eq_true he
    change s.release.drain = .drained at hd
    rcases release_cases s with ⟨-, hnil⟩ | ⟨due, hr, -⟩
    · exact Or.inl (h.allSettled (by simp [hidle]) hnil)
    · rw [hr] at hd
      contradiction
  | resume =>
    change s.resume.drain = .drained at hd
    cases hw : s.drain with
    | waiting snapshot due d =>
      obtain ⟨hdeadline, -, -⟩ := h.waiting snapshot due d hw
      rw [resume_waiting hw] at hd
      rcases nextRound_cases s d with ⟨-, hnil | hlate⟩ | ⟨due', hr, -⟩
      · exact Or.inl (h.allSettled (by simp [hw]) hnil)
      · exact Or.inr (hdeadline ▸ hlate)
      · rw [hr] at hd
        contradiction
    | _ =>
      simp only [enabled, roundOver, hw] at he
      contradiction

/-- The wait comes to its end by itself once every handler has settled or the deadline has passed, and
not before. -/
structure DrainLaw (host : Host) (s : Release) : Prop where
  ends : ∀ snapshot due d, s.drain = .waiting snapshot due d → s.bridge.idle = true →
    (s.AllSettled ∨ s.deadline ≤ s.bridge.calls.now) →
    ∃ t, ((machine host).startingAt s).Reach Internal t ∧ t.bridge = s.bridge ∧ t.drain = .drained
  only : ∀ e t, (machine host).step s e = some t → s.drain ≠ .drained → t.drain = .drained →
    s.AllSettled ∨ s.deadline ≤ s.bridge.calls.now

/-! ### No answer is lost -/

/-- Between `s`, where `close` is called, and `v`: exactly one RESPONSE, the handler's own if it had
settled by then. -/
structure AnsweredOnce (s v : Service) (t : ℕ) : Prop where
  once : v.responses (s.tasks t).conn (s.tasks t).key = 1
  reply : ∃ f ∈ v.link.sent, s.Replies t f

theorem answers_of_replies {w : Service} {t : ℕ} {f : Frame} (h : w.Replies t f) :
    f.answers (w.tasks t).conn (w.tasks t).key = true := by
  obtain ⟨hconn, hrest⟩ := h
  have hkey : f.response.map Prod.fst = some (w.tasks t).key := by
    split at hrest
    · rw [hrest.1]
      rfl
    · rw [hrest.1]
      rfl
  simp [Frame.answers, hconn, hkey]

theorem answeredOnce_of_sent {host : Host} {s : Service} {b : Bridge}
    (hb : (Bridge.machine host).Reach (Bridge.Steady host) b) {t : ℕ} {f : Frame}
    (hf : f ∈ b.service.link.sent) (hr : s.Replies t f) : AnsweredOnce s b.service t := by
  refine ⟨Nat.le_antisymm ?_ ?_, f, hf, hr⟩
  · have hdistinct := Service.distinctIds_of_nodup (Bridge.numbered_reach hb).1 (s.tasks t).conn
    have hone := Bridge.oneByOne_reach (Bridge.vacant_steady hb)
    exact (Bridge.atMostOnceOn_reach hone _).once hdistinct _
  · exact List.countP_pos_iff.mpr ⟨f, hf, answers_of_replies hr⟩

/-- The drain of `close` answers whoever is left, with the connection still in use. -/
theorem replies_close {host : Host} {s : Bridge} (hm : Service.EncodesClosing host.mp)
    (hs : (Bridge.machine host).Reach (Bridge.Steady host) s)
    (hopen : s.service.link.closedByUs = false) {t : ℕ} (ht : t < s.service.nextTask) :
    (s.close host).service.link.writable = some (s.service.tasks t).conn ∧
      ∃ f ∈ (s.close host).service.link.sent, s.service.Replies t f := by
  have hprecise := Bridge.precise_reach hs hopen
  have hconn := Bridge.connected_reach hs hopen
  have henc := hprecise.closable hm (Bridge.numbered_reach hs)
  obtain ⟨f, hf, hr⟩ := Service.replies_shut hprecise henc ht
  rcases Bridge.close_parts host s with ⟨-, -, hservice⟩ | ⟨hdown, -⟩
  · have hshut := (Service.sends_apply host.mp host.options s.service (.shut true)).writable
    have hshut' : (s.service.shut host.mp true).link.writable = s.service.link.writable := hshut
    rw [hservice, hconn]
    obtain ⟨more, hmore⟩ := Service.sends_post (s.service.shut host.mp true)
      ((s.calls.invoke "$/reset" [] ⟨some 500, none⟩).outgoing host.mp s.calls.nextCall)
    rw [(Service.sends_post _ _).writable, hshut', hprecise.writable, hprecise.conn t ht]
    refine ⟨rfl, f, ?_, hr⟩
    rw [hmore]
    exact List.mem_append_left _ hf
  · rw [hconn] at hdown
    contradiction

/-- In every graceful run the wait ends when it should, and each REQUEST dispatched before the bridge
is closed has its one RESPONSE while the connection can still be written to. -/
theorem release_answers (host : Host) (hm : Service.EncodesClosing host.mp) (s : Release)
    (hs : (machine host).Reach (Graceful host) s) : DrainLaw host s ∧
    ∀ u v, (machine host).step s .close = some u → Graceful host s .close u →
      ((machine host).startingAt u).Reach (Graceful host) v →
      ∀ t < s.bridge.service.nextTask,
        u.bridge.service.link.writable = some (s.bridge.service.tasks t).conn ∧
        AnsweredOnce s.bridge.service u.bridge.service t ∧
        AnsweredOnce s.bridge.service v.bridge.service t := by
  have hinv := inv_reach hs
  refine ⟨⟨fun _ _ _ => ends_of_inv hinv, fun _ _ => only_of_inv hinv⟩, fun u v hstep hg hv t ht => ?_⟩
  have hu := hs.step hstep hg
  obtain ⟨he, rfl⟩ := Machine.ofEnabled_step.mp hstep
  have hd : s.bridge.quiet = true ∧ s.drain = .drained := by simpa [enabled] using he
  have hopen := hinv.opened (by simp [hd.2])
  obtain ⟨hwritable, f, hf, hr⟩ := replies_close hm (bridge_reach hs) hopen ht
  have hlater := Bridge.later_since (bridge_reach hu) (bridge_since hv)
  exact ⟨hwritable, answeredOnce_of_sent (bridge_reach hu) hf hr,
    answeredOnce_of_sent (bridge_reach (hu.append hv)) (hlater.sent.subset hf) hr⟩

def released : List Bridge.Event :=
  Bridge.providing ++ [.data 0 [0x94, 0, 1, 0xa1, 102, 0x90, 0x94, 0, 2, 0xa1, 102, 0x90],
    .dispatch none, .dispatch none]

/-- Two handlers are active when the last reference goes, and a third REQUEST comes during the wait.
Only the first handler settles in time. -/
def releasedRun : List Event :=
  released.map .bridge ++ [.release, .bridge (.settle 0 (.returned (.nat 10))), .finished 0,
    .bridge (.data 0 [0x94, 0, 3, 0xa1, 102, 0x90]), .bridge (.dispatch none),
    .bridge (.tick 60000), .resume]

def drainedState : Release :=
  (machine referenceHost).after (Graceful referenceHost) initial releasedRun

/-- After `close` the second handler settles, too late for an answer of its own. -/
def closedState : Release :=
  (machine referenceHost).after (Graceful referenceHost) (drainedState.close referenceHost)
    [.bridge (.settle 1 (.returned (.nat 20)))]

theorem releasedRun_answers : AnsweredOnce drainedState.bridge.service closedState.bridge.service 0 ∧
    AnsweredOnce drainedState.bridge.service closedState.bridge.service 1 ∧
    AnsweredOnce drainedState.bridge.service closedState.bridge.service 2 := by
  have hstart : (machine referenceHost).Reach (Graceful referenceHost) initial := .init rfl
  have hanswers := (release_answers referenceHost Service.reference_encodesClosing drainedState
    (hstart.after releasedRun)).2 _ closedState (Machine.ofEnabled_step.mpr ⟨by decide +kernel, rfl⟩)
    (by decide +kernel) (.since _ _ _ _)
  exact ⟨(hanswers 0 (by decide +kernel)).2.2, (hanswers 1 (by decide +kernel)).2.2,
    (hanswers 2 (by decide +kernel)).2.2⟩

end Release

end UnoQ.Manager
