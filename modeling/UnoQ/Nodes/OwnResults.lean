import UnoQ.Client.Frames
import UnoQ.Client.Progress
import UnoQ.Nodes.CallNode

/-!
# Every item has its own result

Runs of Call and Tool nodes share bridges, and a bridge has calls of all of them under way at a time,
with drops and retries. Yet what a run puts out for an item is the answer to the REQUEST of that item: to
its method and its parameters, and made at most once unless the user says that more do no harm.
-/

namespace UnoQ.Nodes
open Codec Transition History Client PerItem

/-- The run has called for its item. -/
def CallPc.called : CallPc → Bool
  | .calling _ _ _ => true
  | _ => false

/-- The parameters of an item come to this call. -/
def CallParameters.Prepares (js : TextPlatform) (item : CallParameters) (call : PreparedCall) : Prop :=
  ∃ resolved, item.prepare js resolved = .ok call

/-- The invocation calls what was prepared. -/
structure Invokes (c : Calls) (k : ℕ) (call : PreparedCall) : Prop where
  born : k < c.nextCall
  method : (c.calls k).method = call.method
  params : (c.calls k).params = call.params
  idempotent : (c.calls k).idempotent = call.idempotent

theorem Invokes.keep {c d : Calls} {k : ℕ} {call : PreparedCall} (h : Invokes c k call)
    (hk : c.Keeps d) : Invokes d k call := by
  obtain ⟨hmethod, hparams, hidempotent⟩ := hk.call k h.born
  exact ⟨h.born.trans_le hk.born, hmethod.trans h.method, hparams.trans h.params,
    hidempotent.trans h.idempotent⟩

/-- What an invocation writes and what it is settled with are its own. -/
structure Requested (c : Calls) (k : ℕ) (call : PreparedCall) : Prop extends Invokes c k call where
  requests : ∀ a id, .wrote k a id ∈ c.log → request id call.method call.params ∈ c.requests
  answered : ∀ a id r, .settled k a (some id) r ∈ c.log →
    Before c.log (.wrote k a id) (.settled k a (some id) r)
  once : call.idempotent = false → c.log.countP (·.writes k) ≤ 1

theorem Invokes.requested {c : Calls} {k : ℕ} {call : PreparedCall} (h : Invokes c k call)
    (hi : c.Inv) : Requested c k call := by
  refine ⟨h, ?_, ?_, ?_⟩
  · intro a id hwrote
    refine List.mem_filterMap.mpr ⟨_, hwrote, ?_⟩
    simp only [Calls.written, h.method, h.params]
  · intro a id r hsettled
    obtain ⟨past, rest, hlog⟩ := List.append_of_mem hsettled
    obtain ⟨x, y, hpast⟩ := List.append_of_mem (hi.causal past _ rest hlog).1
    refine ⟨x, y, rest, ?_⟩
    rw [hlog, hpast, List.append_assoc, List.cons_append]
  · intro hidempotent
    exact hi.frames k (h.idempotent.trans hidempotent)

theorem carries_callWithOptions (mp : Msgpack) (c : Calls) (call : PreparedCall) :
    Invokes (c.callWithOptions mp call.method call.params
      ⟨some call.timeoutMs, some call.idempotent⟩) c.nextCall call := by
  have hstart : Invokes (c.invoke call.method call.params
      ⟨some call.timeoutMs, some call.idempotent⟩) c.nextCall call := by
    refine ⟨Nat.lt_succ_self _, ?_, ?_, ?_⟩ <;> simp [Calls.invoke]
  exact hstart.keep (Calls.keeps_attempt mp _ _)

namespace CallRuns

variable {host : ℕ → Host} {js : TextPlatform} {encodeError : List JsValue → String}
  {s t : CallRuns}

def callsOf (s : CallRuns) (k : BridgeCall) : Calls := (s.bridges k.bridge).calls

/-- How an output comes about. -/
inductive Justified (js : TextPlatform) (encodeError : List JsValue → String) (s : CallRuns) (x i : ℕ)
    (item : CallParameters) : CallOutput → Prop
  | result {k : BridgeCall} {call : PreparedCall} {a id : ℕ} {v : JsValue} (hm : ⟨x, i, k⟩ ∈ s.made)
    (hcall : item.Prepares js call)
    (hsettled : .settled k.invocation a (some id) (.result v) ∈ (s.callsOf k).log) :
    Justified js encodeError s x i item (.result call.method call.params (nullish v))
  | failed {k : BridgeCall} {call : PreparedCall} {err : BridgeError} (hm : ⟨x, i, k⟩ ∈ s.made)
    (hcall : item.Prepares js call)
    (hdone : ((s.callsOf k).calls k.invocation).pc = .done (.failure err)) :
    Justified js encodeError s x i item (.error (errorMessage encodeError call.params err))
  | refused {call : PreparedCall} (rejection : String) (hnone : s.Unasked x i)
    (hcall : item.Prepares js call) :
    Justified js encodeError s x i item (.refused call.method call.params rejection)
  | uncalled (message : String) (hnone : s.Unasked x i) :
    Justified js encodeError s x i item (.error message)

def facts (js : TextPlatform) (encodeError : List JsValue → String) (s : CallRuns) :
    ItemLoops.Facts CallParameters CallPc CallOutput BridgeCall where
  point x i item
    | .preparing => True
    | .opening call => item.Prepares js call
    | .calling call b k => item.Prepares js call ∧ ⟨x, i, b, k⟩ ∈ s.made
  job m item := ∃ call, item.Prepares js call ∧ Invokes (s.callsOf m.job) m.job.invocation call
  settled m := ∃ r, ((s.callsOf m.job).calls m.job.invocation).pc = .done r
  output x i item := s.Justified js encodeError x i item

/-- A step of the bridges takes nothing back. -/
structure Extends (s t : CallRuns) : Prop where
  calls : ∀ k, (s.callsOf k).Keeps (t.callsOf k)
  done : ∀ k r, ((s.callsOf k).calls k.invocation).pc = .done r →
    ((t.callsOf k).calls k.invocation).pc = .done r
  made : ∀ m ∈ s.made, m ∈ t.made

theorem Justified.keep {x i : ℕ} {item : CallParameters} {output : CallOutput}
    (h : s.Justified js encodeError x i item output) (he : s.Extends t)
    (hnone : s.Unasked x i → t.Unasked x i) : t.Justified js encodeError x i item output := by
  cases h with
  | @result k call a id v hm hcall hsettled =>
    exact .result (he.made _ hm) hcall ((he.calls k).log.subset hsettled)
  | @failed k call err hm hcall hdone => exact .failed (he.made _ hm) hcall (he.done _ _ hdone)
  | refused rejection hn hcall => exact .refused rejection (hnone hn) hcall
  | uncalled message hn => exact .uncalled message (hnone hn)

structure Inv (host : ℕ → Host) (js : TextPlatform) (encodeError : List JsValue → String)
    (s : CallRuns) : Prop where
  bridges : ∀ b, (Bridge.machine (host b)).Reach always (s.bridges b)
  sound : s.toItemLoops.Sound CallPc.called (s.facts js encodeError)
  invocations : (s.made.map Job.job).Nodup

theorem inv_initial : initial.Inv host js encodeError where
  bridges _ := .init rfl
  sound := ItemLoops.sound_initial
  invocations := List.nodup_nil

/-- What is true of runs stays true when the bridges go on. -/
theorem sound_extend {l : ItemLoops CallParameters CallPc CallOutput BridgeCall}
    (h : l.Sound CallPc.called (s.facts js encodeError)) (he : s.Extends t)
    (hnone : ∀ x i, i < (l.runs x).index → s.Unasked x i → t.Unasked x i) :
    l.Sound CallPc.called (t.facts js encodeError) := by
  refine h.imp ?_ ?_ ?_ ?_
  · intro x i item p _ hp
    cases p with
    | preparing => trivial
    | opening call => exact hp
    | calling call b k => exact ⟨hp.1, he.made _ hp.2⟩
  · rintro m - item ⟨call, hprepares, hinvokes⟩
    exact ⟨call, hprepares, hinvokes.keep (he.calls m.job)⟩
  · rintro m - ⟨r, hr⟩
    exact ⟨r, he.done m.job r hr⟩
  · intro x i item output _ hi hj
    exact hj.keep he (hnone x i hi)

/-- The runs go on by themselves. -/
theorem sound_loops {l : ItemLoops CallParameters CallPc CallOutput BridgeCall}
    (h : l.Sound CallPc.called (s.facts js encodeError)) (hbridges : t.bridges = s.bridges)
    (hmade : t.made = s.made) : l.Sound CallPc.called (t.facts js encodeError) := by
  refine sound_extend h ⟨?_, ?_, ?_⟩ ?_
  · intro k
    unfold callsOf
    rw [hbridges]
    exact .refl _
  · intro k r hr
    unfold callsOf
    rw [hbridges]
    exact hr
  · intro m hm
    rw [hmade]
    exact hm
  · intro x i _ hnone m hm
    rw [hmade] at hm
    exact hnone m hm

/-! ### Steps of a run -/

theorem inv_next (h : s.Inv host js encodeError) {x : ℕ} {p : CallPc} (hpc : (s.runs x).pc = some p)
    {output : CallOutput}
    (hsettled : ∀ m ∈ s.made, m.place = (x, (s.runs x).index) → (s.facts js encodeError).settled m)
    (hj : s.At x (s.runs x).index (s.Justified js encodeError x (s.runs x).index · output)) :
    (s.next x output).Inv host js encodeError where
  bridges := h.bridges
  sound := by
    have hsound := h.sound.next hpc .preparing (fun _ _ => trivial) hsettled hj
    exact sound_loops hsound rfl rfl
  invocations := h.invocations

theorem inv_fail (h : s.Inv host js encodeError) {x : ℕ} {p : CallPc} (hpc : (s.runs x).pc = some p)
    {message : String}
    (hsettled : ∀ m ∈ s.made, m.place = (x, (s.runs x).index) → (s.facts js encodeError).settled m)
    (hj : s.At x (s.runs x).index (s.Justified js encodeError x (s.runs x).index · (.error message))) :
    (s.fail x message).Inv host js encodeError := by
  have hmade : (s.fail x message).made = s.made := ItemLoops.fail_made
  refine ⟨h.bridges, ?_, ?_⟩
  · have hsound := h.sound.fail hpc message .preparing (fun _ _ => trivial) hsettled hj
    exact sound_loops hsound rfl hmade
  · rw [hmade]
    exact h.invocations

theorem inv_prepared (h : s.Inv host js encodeError) {x : ℕ} {item : CallParameters}
    (hpc : (s.runs x).pc = some .preparing) (hitem : (s.runs x).items[(s.runs x).index]? = some item)
    (resolved : Except String Unit) (gates : Except String (Option String)) :
    (s.prepared js x item resolved gates).Inv host js encodeError := by
  have hnone : s.Unasked x (s.runs x).index := h.sound.unasked hpc rfl
  unfold prepared
  cases hprepare : item.prepare js resolved with
  | error message => exact inv_fail h hpc hnone.settled ⟨item, hitem, .uncalled message hnone⟩
  | ok call =>
    have hprepares : item.Prepares js call := ⟨resolved, hprepare⟩
    cases gates with
    | error message => exact inv_fail h hpc hnone.settled ⟨item, hitem, .uncalled message hnone⟩
    | ok verdict =>
      cases verdict with
      | some rejection =>
        exact inv_next h hpc hnone.settled ⟨item, hitem, .refused rejection hnone hprepares⟩
      | none =>
        have hsound := h.sound.goto hpc (.opening call) (by simp [CallPc.called])
          ⟨item, hitem, hprepares⟩
        exact ⟨h.bridges, sound_loops hsound rfl rfl, h.invocations⟩

theorem inv_settled (h : s.Inv host js encodeError) {x b k : ℕ} {call : PreparedCall}
    {r : Client.Settlement} (hpc : (s.runs x).pc = some (.calling call b k))
    (hdone : ((s.bridges b).calls.calls k).pc = .done r) :
    (s.settled encodeError x call r).Inv host js encodeError := by
  obtain ⟨item, hitem, hprepares, hmade⟩ := h.sound.points x _ hpc
  have hsettled : ∀ m ∈ s.made, m.place = (x, (s.runs x).index) → (s.facts js encodeError).settled m := by
    intro m hm hplace
    rw [h.sound.only hmade hm hplace]
    exact ⟨r, hdone⟩
  unfold settled
  cases r with
  | result v =>
    -- a call resolves with what a RESPONSE has settled one of its attempts with
    obtain ⟨a, id, hlog⟩ := ((Bridge.calls_inv (h.bridges b)).calls k).result v hdone
    exact inv_next h hpc hsettled ⟨item, hitem, .result hmade hprepares hlog⟩
  | failure err => exact inv_fail h hpc hsettled ⟨item, hitem, .failed hmade hprepares hdone⟩

theorem inv_execute (h : s.Inv host js encodeError) (gated continueOnFail : Bool)
    (items : List CallParameters) : (s.execute gated continueOnFail items).Inv host js encodeError where
  bridges := h.bridges
  sound := by
    have hsound := h.sound.execute continueOnFail items .preparing fun _ _ => trivial
    exact sound_loops hsound rfl rfl
  invocations := h.invocations

/-! ### Steps of a bridge -/

/-- The state in which one bridge has taken a step. -/
def onBridge (host : ℕ → Host) (s : CallRuns) (b : ℕ) (e : Bridge.Event) : CallRuns :=
  { s with bridges := Function.update s.bridges b ((s.bridges b).apply (host b) e) }

theorem onBridge_self {b : ℕ} {e : Bridge.Event} :
    (s.onBridge host b e).bridges b = (s.bridges b).apply (host b) e := Function.update_self ..

theorem onBridge_other {b c : ℕ} {e : Bridge.Event} (hc : c ≠ b) :
    (s.onBridge host b e).bridges c = s.bridges c := Function.update_of_ne hc _ _

theorem extends_onBridge (h : s.Inv host js encodeError) {b : ℕ} {e : Bridge.Event}
    (he : (s.bridges b).enabled e = true) : s.Extends (s.onBridge host b e) := by
  refine ⟨?_, ?_, fun m hm => hm⟩
  · rintro ⟨c, k⟩
    unfold callsOf
    by_cases hc : c = b
    · rw [hc, onBridge_self]
      exact Bridge.keeps_step (host b) he
    · rw [onBridge_other hc]
      exact .refl _
  · rintro ⟨c, k⟩ r hr
    unfold callsOf
    by_cases hc : c = b
    · subst hc
      rw [onBridge_self]
      exact Bridge.done_step (Bridge.calls_inv (h.bridges c)) he hr
    · rw [onBridge_other hc]
      exact hr

theorem bridges_onBridge (h : s.Inv host js encodeError) {b : ℕ} {e : Bridge.Event}
    (he : (s.bridges b).enabled e = true) :
    ∀ c, (Bridge.machine (host c)).Reach always ((s.onBridge host b e).bridges c) := by
  intro c
  by_cases hc : c = b
  · subst hc
    rw [onBridge_self]
    exact (h.bridges c).take e he trivial
  · rw [onBridge_other hc]
    exact h.bridges c

theorem inv_onBridge (h : s.Inv host js encodeError) {b : ℕ} {e : Bridge.Event}
    (he : (s.bridges b).enabled e = true) : (s.onBridge host b e).Inv host js encodeError where
  bridges := bridges_onBridge h he
  sound := sound_extend h.sound (extends_onBridge h he) fun _ _ _ hnone => hnone
  invocations := h.invocations

/-- The invocation is new on its bridge, and the item has made none before. -/
theorem inv_opened (h : s.Inv host js encodeError) {x : ℕ} {call : PreparedCall} (b : ℕ)
    (hpc : (s.runs x).pc = some (.opening call)) : (s.opened host x b call).Inv host js encodeError := by
  obtain ⟨item, hitem, hprepares⟩ := h.sound.points x _ hpc
  let e : Bridge.Event := .callWithOptions call.method call.params
    ⟨some call.timeoutMs, some call.idempotent⟩
  have he : (s.bridges b).enabled e = true := rfl
  have hgrows := extends_onBridge h he
  let k : BridgeCall := ⟨b, (s.bridges b).calls.nextCall⟩
  have hmade : (s.opened host x b call).made = s.made ++ [⟨x, (s.runs x).index, k⟩] := rfl
  have hextends : s.Extends (s.opened host x b call) :=
    ⟨hgrows.calls, hgrows.done, fun m hm => List.mem_append_left _ hm⟩
  have hinvokes : Invokes ((s.opened host x b call).callsOf k) k.invocation call := by
    change Invokes ((s.onBridge host b e).bridges b).calls _ call
    rw [onBridge_self]
    exact carries_callWithOptions (host b).mp (s.bridges b).calls call
  refine ⟨bridges_onBridge h he, ?_, ?_⟩
  · have hsound := sound_extend h.sound hextends ?_
    · refine hsound.ask hpc rfl rfl ⟨item, hitem, hprepares, ?_⟩ ⟨item, hitem, call, hprepares, hinvokes⟩
      rw [hmade]
      exact List.mem_append_right _ (List.mem_singleton.mpr rfl)
    · exact fun y i hi hnone => hnone.ask hi _ _
  · rw [hmade, List.map_append]
    refine h.invocations.append (List.nodup_singleton _) ?_
    intro k' hold hnew
    obtain ⟨m, hm, rfl⟩ := List.mem_map.mp hold
    obtain ⟨-, -, call', -, hcarries⟩ := h.sound.jobs m hm
    have hlt := hcarries.born
    rw [List.mem_singleton.mp hnew] at hlt
    exact Nat.lt_irrefl _ hlt

/-! ### Runs -/

theorem inv_step (h : s.Inv host js encodeError) {e : Event} (hs : s.step host js encodeError e = some t) :
    t.Inv host js encodeError := by
  cases effect_of_step hs with
  | bridge he => exact inv_onBridge h he
  | execute gated continueOnFail items => exact inv_execute h gated continueOnFail items
  | prepared resolved gates hpc hitem => exact inv_prepared h hpc hitem resolved gates
  | @unopened x call message hpc =>
    obtain ⟨item, hitem, -⟩ := h.sound.points x _ hpc
    have hnone : s.Unasked x (s.runs x).index := h.sound.unasked hpc rfl
    exact inv_fail h hpc hnone.settled ⟨item, hitem, .uncalled message hnone⟩
  | opened b hpc => exact inv_opened h b hpc
  | settled hpc hdone => exact inv_settled h hpc hdone

theorem inv_reach {ok : Guard CallRuns Event} (h : (machine host js encodeError).Reach ok s) :
    s.Inv host js encodeError := by
  refine h.invariant ?_ ?_
  · rintro s rfl
    exact inv_initial
  · intro s e t _ hi hs _
    exact inv_step hi hs

/-- Outputs stand in the order of the items. Each item has made one invocation or none, which nothing
else has made, which carries what the parameters of the item come to, and which has been settled when
the loop goes on. -/
structure Served (js : TextPlatform) (encodeError : List JsValue → String) (s : CallRuns) : Prop where
  paired : ∀ x, (s.runs x).Paired
  outputs : ∀ x i d, (s.runs x).returnData[i]? = some d →
    s.At x i (s.Justified js encodeError x i · d.json)
  places : (s.made.map Job.place).Nodup
  invocations : (s.made.map Job.job).Nodup
  requested : ∀ m ∈ s.made, s.At m.run m.item fun item =>
    ∃ call, item.Prepares js call ∧ Requested (s.callsOf m.job) m.job.invocation call
  sequential : ∀ m ∈ s.made, m.item < (s.runs m.run).index ∨ (s.runs m.run).pc = none →
    ∃ r, ((s.callsOf m.job).calls m.job.invocation).pc = .done r
  recorded : ∀ b, (s.bridges b).Recorded

/-- Whatever else happens on the bridges: drops, retries, other calls, answers in any order. -/
theorem served_reach (h : (machine host js encodeError).Reach always s) : s.Served js encodeError := by
  have hi := inv_reach h
  refine ⟨hi.sound.paired, hi.sound.outputs, hi.sound.places, hi.invocations, ?_, hi.sound.settled, ?_⟩
  · intro m hm
    refine (hi.sound.jobs m hm).imp ?_
    rintro item ⟨call, hprepares, hinvokes⟩
    exact ⟨call, hprepares, hinvokes.requested (Bridge.calls_inv (hi.bridges m.job.bridge))⟩
  · intro b
    exact Bridge.recorded_reach (hi.bridges b)

def plainItem (method : String) (params : List FieldParameter) : CallParameters :=
  ⟨.ok method, .ok .fields, .ok .undefined, .ok params, .ok none, .ok false⟩

/-- Two nodes call over one bridge, and the answers come in the wrong order. The second item of the
first node has a number that is none. -/
def crossedRun : List Event :=
  [.execute false true [plainItem " read " [], plainItem "turn" [⟨.number, .str "left"⟩]],
    .execute true true [plainItem "write" [⟨.boolean, .str "TRUE"⟩]],
    .prepared 0 (.ok ()) (.ok none), .opened 0 7, .prepared 1 (.ok ()) (.ok none), .opened 1 7,
    .bridge 7 (.data 0 [0x94, 1, 2, 0xc0, 42]), .bridge 7 (.dispatch none), .bridge 7 (.resumeCall 1),
    .bridge 7 (.data 0 [0x94, 1, 1, 0xc0, 41]), .bridge 7 (.dispatch none), .bridge 7 (.resumeCall 0),
    .settled 1, .settled 0, .prepared 0 (.ok ()) (.ok none)]

def crossedState : CallRuns :=
  (machine (fun _ => referenceHost) plainPlatform fun _ => "").after always initial crossedRun

theorem crossedRun_served : crossedState.Served plainPlatform (fun _ => "") ∧
    (crossedState.runs 0).returnData.map (fun d => (d.json, d.pairedItem)) =
      [(.result "read" [] (.nat 41), 0), (.error "Parameter #1: \"left\" is not a valid number", 1)] ∧
    (crossedState.runs 1).returnData.map (fun d => (d.json, d.pairedItem)) =
      [(.result "write" [.bool true] (.nat 42), 0)] := by
  have hinit : (machine (fun _ => referenceHost) plainPlatform fun _ => "").Reach always initial :=
    .init rfl
  exact ⟨served_reach (hinit.after crossedRun), rfl, rfl⟩

end CallRuns

end UnoQ.Nodes
