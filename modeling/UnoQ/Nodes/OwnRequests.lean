import UnoQ.Cloud.Bearers
import UnoQ.Lib.History
import UnoQ.Nodes.CloudNode

/-!
# Every item has its own request

Runs of Arduino Cloud nodes share the throttle and the access tokens with each other. Yet an item makes
one request or none, for its own property and under the credential of its run; what is put out for it is
made of the answer to that request; and the requests of a run go out in the order of its items, each
after the one before has been answered.
-/

namespace UnoQ.Nodes
open Codec Transition History Cloud PerItem

/-- The run has called a wrapper for its item. -/
def CloudPc.called : CloudPc → Bool
  | .calling _ _ => true
  | _ => false

/-- The parameters of an item come to this call, and under this credential to this request. -/
def CloudParameters.Asks (js : DatePlatform) (item : CloudParameters) (credential : TokenRequest)
    (call : CloudCall) (request : SdkRequest) : Prop :=
  item.prepare js = .ok call ∧ ∃ now, item.request js now credential call = .ok request

namespace CloudRuns

variable {js : DatePlatform} {s t : CloudRuns}

/-- How an output comes about. -/
inductive Justified (js : DatePlatform) (s : CloudRuns) (x i : ℕ) (item : CloudParameters) :
    CloudOutput → Prop
  | result {job : RestJob} {call : CloudCall} {answer : SdkAnswer} {output : CloudOutput}
    (hm : ⟨x, i, job⟩ ∈ s.made) (hcall : item.Asks js (s.credentials x) call job.request)
    (hanswer : s.outcome job.call = some (.ok answer))
    (houtput : call.output js job.request answer = .ok output) : Justified js s x i item output
  | failed {job : RestJob} {call : CloudCall} {answer : Except String SdkAnswer} {message : String}
    (hm : ⟨x, i, job⟩ ∈ s.made) (hcall : item.Asks js (s.credentials x) call job.request)
    (hanswer : s.outcome job.call = some answer)
    (hfails : answer.bind (call.output js job.request) = .error message) :
    Justified js s x i item (.error message)
  | refused {call : CloudCall} (refusal : Refusal) (hnone : s.Unasked x i)
    (hcall : item.prepare js = .ok call) : Justified js s x i item (call.refused refusal)
  | uncalled (message : String) (hnone : s.Unasked x i) : Justified js s x i item (.error message)

/-- The wrapper was called for this call, under the credential of the run. -/
structure Wraps (s : CloudRuns) (m : Job RestJob) (call : CloudCall) : Prop where
  born : m.job.call < s.api.nextCall
  operation : (s.api.calls m.job.call).operation = call.operation.wrapper
  credential : (s.api.calls m.job.call).credential = s.credentials m.run

def facts (js : DatePlatform) (s : CloudRuns) :
    ItemLoops.Facts CloudParameters CloudPc CloudOutput RestJob where
  point x i item
    | .preparing => True
    | .calling call job => item.Asks js (s.credentials x) call job.request ∧ ⟨x, i, job⟩ ∈ s.made
  job m item := ∃ call, item.Asks js (s.credentials m.run) call m.job.request ∧ s.Wraps m call
  settled m := (s.outcome m.job.call).isSome = true
  output x i item := s.Justified js x i item

/-- A step takes nothing back; of the credentials, those of the runs below `n`. -/
structure Extends (n : ℕ) (s t : CloudRuns) : Prop where
  born : s.api.nextCall ≤ t.api.nextCall
  operation : ∀ c < s.api.nextCall, (t.api.calls c).operation = (s.api.calls c).operation
  credential : ∀ c < s.api.nextCall, (t.api.calls c).credential = (s.api.calls c).credential
  outcome : ∀ c < s.api.nextCall, ∀ answer, s.outcome c = some answer → t.outcome c = some answer
  credentials : ∀ x < n, t.credentials x = s.credentials x
  made : ∀ m ∈ s.made, m ∈ t.made

/-- The requests go out in the order of the items. -/
def Ordered (s : CloudRuns) (xs : List ℕ) : Prop :=
  ∀ m ∈ s.made, ∀ n ∈ s.made, m.run = n.run → m.item < n.item →
    (s.api.calls m.job.call).phase = .requested → (s.api.calls n.job.call).phase = .requested →
    Before xs m.job.call n.job.call

theorem Justified.keep {n x i : ℕ} {item : CloudParameters} {output : CloudOutput}
    (h : s.Justified js x i item output) (he : s.Extends n t)
    (hborn : ∀ m ∈ s.made, m.job.call < s.api.nextCall) (hx : x < n)
    (hnone : s.Unasked x i → t.Unasked x i) : t.Justified js x i item output := by
  have hcredential := he.credentials x hx
  cases h with
  | @result job call answer output hm hcall hanswer houtput =>
    exact .result (he.made _ hm) (hcredential ▸ hcall) (he.outcome _ (hborn _ hm) _ hanswer) houtput
  | @failed job call answer message hm hcall hanswer hfails =>
    exact .failed (he.made _ hm) (hcredential ▸ hcall) (he.outcome _ (hborn _ hm) _ hanswer) hfails
  | refused refusal hn hcall => exact .refused refusal (hnone hn) hcall
  | uncalled message hn => exact .uncalled message (hnone hn)

/-- What is true of runs stays true when the wrappers go on. -/
theorem sound_extend {l : ItemLoops CloudParameters CloudPc CloudOutput RestJob}
    (h : l.Sound CloudPc.called (s.facts js)) (he : s.Extends l.nextRun t) (hmade : l.made = s.made)
    (hnone : ∀ x i, i < (l.runs x).index → s.Unasked x i → t.Unasked x i) :
    l.Sound CloudPc.called (t.facts js) := by
  have hborn : ∀ m ∈ s.made, m.job.call < s.api.nextCall := by
    rw [← hmade]
    intro m hm
    obtain ⟨item, -, call, -, hwraps⟩ := h.jobs m hm
    exact hwraps.born
  refine h.imp ?_ ?_ ?_ ?_
  · intro x i item p hx hp
    cases p with
    | preparing => trivial
    | calling call job => exact ⟨(he.credentials x hx).symm ▸ hp.1, he.made _ hp.2⟩
  · rintro m hm item ⟨call, hasks, hwraps⟩
    have hcredential := he.credentials m.run (h.born m hm).1
    refine ⟨call, hcredential.symm ▸ hasks, hwraps.born.trans_le he.born, ?_, ?_⟩
    · rw [he.operation _ hwraps.born]
      exact hwraps.operation
    · rw [he.credential _ hwraps.born, hcredential]
      exact hwraps.credential
  · intro m hm hended
    obtain ⟨answer, hanswer⟩ := Option.isSome_iff_exists.mp hended
    exact Option.isSome_iff_exists.mpr ⟨answer, he.outcome _ (hborn m (hmade ▸ hm)) _ hanswer⟩
  · intro x i item output hx hi hj
    exact hj.keep he hborn hx (hnone x i hi)

/-- The runs go on by themselves. -/
theorem sound_loops {l : ItemLoops CloudParameters CloudPc CloudOutput RestJob}
    (h : l.Sound CloudPc.called (s.facts js)) (hapi : t.api = s.api) (hanswers : t.answers = s.answers)
    (hcredentials : t.credentials = s.credentials) (hmade : t.made = s.made) (hl : l.made = s.made) :
    l.Sound CloudPc.called (t.facts js) := by
  refine sound_extend h ⟨?_, ?_, ?_, ?_, ?_, ?_⟩ hl ?_
  · rw [hapi]
  · intro c _
    rw [hapi]
  · intro c _
    rw [hapi]
  · intro c _ answer hanswer
    unfold outcome
    rw [hapi, hanswers]
    exact hanswer
  · intro x _
    rw [hcredentials]
  · intro m hm
    rw [hmade]
    exact hm
  · intro x i _ hnone m hm
    rw [hmade] at hm
    exact hnone m hm

structure Inv (js : DatePlatform) (s : CloudRuns) : Prop where
  api : RestApi.machine.Reach RestApi.NulFreeCalls s.api
  sound : s.toItemLoops.Sound CloudPc.called (s.facts js)
  calls : (s.made.map (·.job.call)).Nodup
  free : ∀ x < s.nextRun, (s.credentials x).NulFree
  answered : ∀ c, s.answers c ≠ none → (s.api.calls c).phase = .requested
  ordered : ∃ xs, s.api.Requesters xs ∧ s.Ordered xs

theorem inv_initial (now : ℤ) : (initial now).Inv js where
  api := .init ⟨now, rfl⟩
  sound := ItemLoops.sound_initial
  calls := List.nodup_nil
  free x hx := absurd hx (Nat.not_lt_zero x)
  answered c hc := absurd rfl hc
  ordered := by
    obtain ⟨xs, hxs⟩ := RestApi.requesters_reach (.init ⟨now, rfl⟩)
    refine ⟨xs, hxs, ?_⟩
    intro m hm
    contradiction

theorem Inv.born (h : s.Inv js) {m : Job RestJob} (hm : m ∈ s.made) : m.job.call < s.api.nextCall := by
  obtain ⟨item, -, call, -, hwraps⟩ := h.sound.jobs m hm
  exact hwraps.born

/-! ### Steps of a run -/

theorem inv_next (h : s.Inv js) {x : ℕ} {p : CloudPc} (hpc : (s.runs x).pc = some p)
    {output : CloudOutput}
    (hsettled : ∀ m ∈ s.made, m.place = (x, (s.runs x).index) → (s.facts js).settled m)
    (hj : s.At x (s.runs x).index (s.Justified js x (s.runs x).index · output)) :
    (s.next x output).Inv js where
  api := h.api
  sound := by
    have hsound := h.sound.next hpc .preparing (fun _ _ => trivial) hsettled hj
    exact sound_loops hsound rfl rfl rfl rfl rfl
  calls := h.calls
  free := h.free
  answered := h.answered
  ordered := h.ordered

theorem inv_fail (h : s.Inv js) {x : ℕ} {p : CloudPc} (hpc : (s.runs x).pc = some p) {message : String}
    (hsettled : ∀ m ∈ s.made, m.place = (x, (s.runs x).index) → (s.facts js).settled m)
    (hj : s.At x (s.runs x).index (s.Justified js x (s.runs x).index · (.error message))) :
    (s.fail x message).Inv js := by
  have hmade : (s.fail x message).made = s.made := ItemLoops.fail_made
  have hsound := h.sound.fail hpc message .preparing (fun _ _ => trivial) hsettled hj
  constructor
  · exact h.api
  · exact sound_loops hsound rfl rfl rfl hmade hmade
  · rw [hmade]
    exact h.calls
  · intro y hy
    have hnext : (s.fail x message).nextRun = s.nextRun := ItemLoops.fail_nextRun
    exact h.free y (hnext ▸ hy)
  · exact h.answered
  · unfold Ordered
    rw [hmade]
    exact h.ordered

theorem inv_execute (h : s.Inv js) {credential : TokenRequest} (hfree : credential.NulFree)
    (continueOnFail : Bool) (items : List CloudParameters) :
    (s.execute credential continueOnFail items).Inv js := by
  have hold : ∀ y < s.nextRun, (s.execute credential continueOnFail items).credentials y =
      s.credentials y := fun y hy => Function.update_of_ne (Nat.ne_of_lt hy) _ _
  constructor
  · exact h.api
  · have hsound := sound_extend (t := s.execute credential continueOnFail items) h.sound
      ⟨le_rfl, fun _ _ => rfl, fun _ _ => rfl, fun _ _ _ hanswer => hanswer, hold, fun m hm => hm⟩ rfl
      fun _ _ _ hnone => hnone
    exact hsound.execute continueOnFail items .preparing fun _ _ => trivial
  · exact h.calls
  · intro y hy
    by_cases hy' : y = s.nextRun
    · rw [hy']
      change (Function.update s.credentials s.nextRun credential s.nextRun).NulFree
      rw [Function.update_self]
      exact hfree
    · have hlt : y < s.nextRun := lt_of_le_of_ne (Nat.lt_succ_iff.mp hy) hy'
      rw [hold y hlt]
      exact h.free y hlt
  · exact h.answered
  · exact h.ordered

theorem inv_answered (h : s.Inv js) {c : ℕ} (answer : Except String SdkAnswer)
    (hphase : (s.api.calls c).phase = .requested) (hnone : s.answers c = none) :
    { s with answers := Function.update s.answers c (some answer) }.Inv js := by
  constructor
  · exact h.api
  · refine sound_extend h.sound ⟨le_rfl, fun _ _ => rfl, fun _ _ => rfl, ?_, fun _ _ => rfl,
      fun m hm => hm⟩ rfl fun _ _ _ hn => hn
    intro b _ answer' hanswer
    unfold outcome at hanswer ⊢
    by_cases hb : b = c
    · rw [hb, hphase] at hanswer
      rw [hnone] at hanswer
      contradiction
    · dsimp only
      rw [Function.update_of_ne hb]
      exact hanswer
  · exact h.calls
  · exact h.free
  · intro b hb
    by_cases hbc : b = c
    · rw [hbc]
      exact hphase
    · dsimp only at hb
      rw [Function.update_of_ne hbc] at hb
      exact h.answered b hb
  · exact h.ordered

/-! ### Steps of the wrappers -/

theorem ended_of_outcome {c : ℕ} {answer : Except String SdkAnswer} (h : s.outcome c = some answer) :
    (s.api.calls c).phase.ended = true := by
  unfold outcome at h
  split at h
  next hphase =>
    rw [hphase]
    rfl
  next hphase =>
    rw [hphase]
    rfl
  next => contradiction

/-- The call of a turn that is over has no more to do. -/
theorem Inv.past (h : s.Inv js) {m n : Job RestJob} (hm : m ∈ s.made) (hn : n ∈ s.made)
    (hrun : m.run = n.run) (hitem : m.item < n.item) : (s.api.calls m.job.call).phase.ended = true := by
  have hle := (h.sound.born n hn).2
  have hended := h.sound.settled m hm (.inl (by rw [hrun]; omega))
  obtain ⟨answer, hanswer⟩ := Option.isSome_iff_exists.mp hended
  exact ended_of_outcome hanswer

theorem ordered_api (h : s.Inv js) {e : RestApi.Event} {api : RestApi} (hs : s.api.step e = some api) :
    ∃ xs, api.Requesters xs ∧ { s with api := api }.Ordered xs := by
  obtain ⟨xs, hxs, hordered⟩ := h.ordered
  have hendures := RestApi.endures_step hs
  have hnext := hxs.step h.api hs
  refine ⟨xs ++ e.requester, hnext, ?_⟩
  intro m hm n hn hrun hitem hmreq hnreq
  change (api.calls m.job.call).phase = .requested at hmreq
  change (api.calls n.job.call).phase = .requested at hnreq
  -- the earlier call was over before this step, so it is not the one that requests
  rw [hendures.ended _ (h.born hm) (h.past hm hn hrun hitem)] at hmreq
  by_cases hold : (s.api.calls n.job.call).phase = .requested
  · exact (hordered m hm n hn hrun hitem hmreq hold).append _
  · have hmem := (hnext.2.1 n.job.call).mpr hnreq
    rcases List.mem_append.mp hmem with hin | hnew
    · exact absurd ((hxs.2.1 _).mp hin) hold
    · cases e with
      | request c =>
        rw [List.mem_singleton.mp hnew]
        exact .snoc ((hxs.2.1 _).mpr hmreq) c
      | _ => contradiction

theorem inv_api (h : s.Inv js) {e : RestApi.Event} {api : RestApi} (hs : s.api.step e = some api)
    (hok : RestApi.NulFreeCalls s.api e api) : { s with api := api }.Inv js := by
  have hendures := RestApi.endures_step hs
  constructor
  · exact h.api.step hs hok
  · refine sound_extend h.sound ⟨hendures.born, hendures.operation, hendures.credential, ?_,
      fun _ _ => rfl, fun m hm => hm⟩ rfl fun _ _ _ hn => hn
    intro c hc answer hanswer
    have hphase := hendures.ended c hc (ended_of_outcome hanswer)
    unfold outcome at hanswer ⊢
    dsimp only
    rw [hphase]
    exact hanswer
  · exact h.calls
  · exact h.free
  · intro c hc
    have hphase := h.answered c hc
    have hborn := RestApi.born_of (RestApi.unborn_reach h.api) (x := c) (by simp [hphase])
    change (api.calls c).phase = .requested
    rw [hendures.ended c hborn (by rw [hphase]; rfl)]
    exact hphase
  · exact ordered_api h hs

/-- The wrapper's call is new, and the item has made none before. -/
theorem inv_callRest (h : s.Inv js) {x : ℕ} {item : CloudParameters} {call : CloudCall}
    {request : SdkRequest} (hpc : (s.runs x).pc = some .preparing)
    (hitem : (s.runs x).items[(s.runs x).index]? = some item)
    (hasks : item.Asks js (s.credentials x) call request) : (s.callRest x call request).Inv js := by
  let job : RestJob := ⟨s.api.nextCall, request⟩
  let e : RestApi.Event := .call call.operation.wrapper (s.credentials x)
  have hbegun : { s with api := s.api.call call.operation.wrapper (s.credentials x) }.Inv js :=
    inv_api (e := e) h rfl (h.free x (h.sound.lt hpc))
  have hmade : (s.callRest x call request).made = s.made ++ [⟨x, (s.runs x).index, job⟩] := rfl
  have hnew : (s.callRest x call request).api.calls job.call =
      ⟨call.operation.wrapper, s.credentials x, .queued⟩ := RestApi.calls_call_self ..
  constructor
  · exact hbegun.api
  · have hsound := sound_extend (t := s.callRest x call request) hbegun.sound
      ⟨le_rfl, fun _ _ => rfl, fun _ _ => rfl, fun _ _ _ hanswer => hanswer, fun _ _ => rfl,
        fun m hm => List.mem_append_left _ hm⟩ rfl fun y i hi hnone => hnone.ask hi _ _
    refine hsound.ask hpc rfl rfl ⟨item, hitem, hasks, ?_⟩ ⟨item, hitem, call, hasks, ?_⟩
    · rw [hmade]
      exact List.mem_append_right _ (List.mem_singleton.mpr rfl)
    · refine ⟨Nat.lt_succ_self _, ?_, ?_⟩
      · rw [hnew]
      · rw [hnew]
        rfl
  · rw [hmade, List.map_append]
    refine h.calls.append (List.nodup_singleton _) ?_
    intro c hold hlast
    obtain ⟨m, hm, rfl⟩ := List.mem_map.mp hold
    have hborn := h.born hm
    rw [List.mem_singleton.mp hlast] at hborn
    exact Nat.lt_irrefl _ hborn
  · exact h.free
  · exact hbegun.answered
  · obtain ⟨xs, hxs, hordered⟩ := hbegun.ordered
    refine ⟨xs, hxs, ?_⟩
    intro m hm n hn hrun hitem hmreq hnreq
    have hold : ∀ k ∈ (s.callRest x call request).made,
        ((s.callRest x call request).api.calls k.job.call).phase = .requested → k ∈ s.made := by
      intro k hk hreq
      rcases List.mem_append.mp hk with hin | hlast
      · exact hin
      · rw [List.mem_singleton.mp hlast, hnew] at hreq
        contradiction
    exact hordered m (hold m hm hmreq) n (hold n hn hnreq) hrun hitem hmreq hnreq

theorem inv_prepared (h : s.Inv js) {x : ℕ} {item : CloudParameters}
    (hpc : (s.runs x).pc = some .preparing) (hitem : (s.runs x).items[(s.runs x).index]? = some item)
    (gates : Except String (Option Refusal)) : (s.prepared js x item gates).Inv js := by
  have hnone : s.Unasked x (s.runs x).index := h.sound.unasked hpc rfl
  unfold prepared
  cases hprepare : item.prepare js with
  | error message => exact inv_fail h hpc hnone.settled ⟨item, hitem, .uncalled message hnone⟩
  | ok call =>
    cases gates with
    | error message => exact inv_fail h hpc hnone.settled ⟨item, hitem, .uncalled message hnone⟩
    | ok verdict =>
      cases verdict with
      | some refusal => exact inv_next h hpc hnone.settled ⟨item, hitem, .refused refusal hnone hprepare⟩
      | none =>
        dsimp only
        cases hrequest : item.request js s.api.now (s.credentials x) call with
        | error message => exact inv_fail h hpc hnone.settled ⟨item, hitem, .uncalled message hnone⟩
        | ok request => exact inv_callRest h hpc hitem ⟨hprepare, s.api.now, hrequest⟩

theorem inv_settled (h : s.Inv js) {x : ℕ} {call : CloudCall} {job : RestJob}
    {answer : Except String SdkAnswer} (hpc : (s.runs x).pc = some (.calling call job))
    (hanswer : s.outcome job.call = some answer) : (s.settled js x call job.request answer).Inv js := by
  obtain ⟨item, hitem, hasks, hmade⟩ := h.sound.points x _ hpc
  have hsettled : ∀ m ∈ s.made, m.place = (x, (s.runs x).index) → (s.facts js).settled m := by
    intro m hm hplace
    rw [h.sound.only hmade hm hplace]
    exact Option.isSome_iff_exists.mpr ⟨answer, hanswer⟩
  unfold settled
  cases houtput : answer.bind (call.output js job.request) with
  | error message => exact inv_fail h hpc hsettled ⟨item, hitem, .failed hmade hasks hanswer houtput⟩
  | ok output =>
    cases answer with
    | error message => contradiction
    | ok answer => exact inv_next h hpc hsettled ⟨item, hitem, .result hmade hasks hanswer houtput⟩

/-! ### Runs -/

/-- Wrappers are called under credentials without NUL. -/
def NulFreeRuns (s : CloudRuns) : Event → CloudRuns → Prop
  | .api e, t => RestApi.NulFreeCalls s.api e t.api
  | .execute credential _ _, _ => credential.NulFree
  | _, _ => True

theorem inv_step (h : s.Inv js) {e : Event} (hs : s.step js e = some t) (hok : s.NulFreeRuns e t) :
    t.Inv js := by
  cases effect_of_step hs with
  | api hapi => exact inv_api h hapi hok
  | execute credential continueOnFail items => exact inv_execute h hok continueOnFail items
  | prepared gates hpc hitem => exact inv_prepared h hpc hitem gates
  | answered answer hphase hnone => exact inv_answered h answer hphase hnone
  | settled hpc hanswer => exact inv_settled h hpc hanswer

theorem inv_reach (h : (machine js).Reach NulFreeRuns s) : s.Inv js := by
  refine h.invariant ?_ ?_
  · rintro s ⟨now, rfl⟩
    exact inv_initial now
  · intro s e t _ hi hs hok
    exact inv_step hi hs hok

/-- Outputs stand in the order of the items. Each item has called one wrapper or none, for what its own
parameters come to and under the credential of its run; that call is over when the loop goes on, and
`xs` being the calls that have requested, in their order, those of a run stand in the order of its items. -/
structure Itemised (js : DatePlatform) (s : CloudRuns) : Prop where
  paired : ∀ x, (s.runs x).Paired
  outputs : ∀ x i d, (s.runs x).returnData[i]? = some d → s.At x i (s.Justified js x i · d.json)
  places : (s.made.map Job.place).Nodup
  calls : (s.made.map (·.job.call)).Nodup
  wrapped : ∀ m ∈ s.made, s.At m.run m.item fun item =>
    ∃ call, item.Asks js (s.credentials m.run) call m.job.request ∧ s.Wraps m call
  sequential : ∀ m ∈ s.made, m.item < (s.runs m.run).index ∨ (s.runs m.run).pc = none →
    (s.outcome m.job.call).isSome = true
  ordered : ∃ xs, s.api.Requesters xs ∧ s.Ordered xs

/-- Whatever else goes on under the credentials, and in whichever order the SDK answers. -/
theorem itemised_reach (h : (machine js).Reach NulFreeRuns s) : s.Itemised js := by
  have hi := inv_reach h
  exact ⟨hi.sound.paired, hi.sound.outputs, hi.sound.places, hi.calls, hi.sound.jobs, hi.sound.settled,
    hi.ordered⟩

instance (s : CloudRuns) : ∀ (e : Event) (t : CloudRuns), Decidable (NulFreeRuns s e t)
  | .api e, t => inferInstanceAs (Decidable (RestApi.NulFreeCalls s.api e t.api))
  | .execute credential _ _, _ => inferInstanceAs (Decidable credential.NulFree)
  | .prepared _ _, _ => isTrue trivial
  | .answered _ _, _ => isTrue trivial
  | .settled _, _ => isTrue trivial

/-- A platform that cannot read dates. -/
def undatedPlatform : DatePlatform := ⟨plainPlatform, fun _ => none, fun _ => ""⟩

def plainProperty (operation : CloudOperation) (propertyId : String) : CloudParameters :=
  ⟨.ok "property", .ok operation, .ok " thing ", .ok propertyId, .ok .auto, .ok (.str "true"),
    .ok (.str "soon"), .ok .undefined⟩

def doorProperty : PropertySummary := ⟨.str "Door", .str "door", .str "BOOL", .str "READ", .undefined, .null⟩

/-- Two nodes under one credential: the one sets a property and reads another, the other reads a third
one in between, and a history whose date is none. -/
def sharedCredentialRun : List Event :=
  [.execute RestApi.account true [plainProperty .set "led", plainProperty .get "door"],
    .execute RestApi.account true [plainProperty .get "door", plainProperty .getHistory "door"],
    .prepared 0 (.ok none), .prepared 1 (.ok none), .api (.link 0), .api (.link 1),
    .api (.getAccessToken 0), .api (.getAccessToken 1),
    .api (.answered 0 (.payload (some "token") (some 300))), .api (.settle 0), .api (.resume 1), .api (.request 1),
    .api (.resume 0), .api (.request 0), .answered 1 (.ok ⟨.ok doorProperty, none⟩), .settled 1,
    .answered 0 (.ok ⟨.error "", none⟩), .settled 0, .prepared 0 (.ok none), .api (.link 2),
    .api (.getAccessToken 2), .api (.request 2), .prepared 1 (.ok none)]

def sharedCredentialState : CloudRuns :=
  (machine undatedPlatform).after NulFreeRuns (initial 0) sharedCredentialRun

theorem sharedCredentialRun_itemised : sharedCredentialState.Itemised undatedPlatform ∧
    sharedCredentialState.api.requests.map RestRequest.operation =
      [.getProperty, .publishProperty, .getProperty] ∧
    (sharedCredentialState.runs 0).returnData.map (fun d => (d.json, d.pairedItem)) =
      [(.published "thing" "led" (.bool true), 0)] ∧
    (sharedCredentialState.runs 1).returnData.map (fun d => (d.json, d.pairedItem)) =
      [(.property "thing" "door" { doorProperty with last_value := .null }, 0),
        (.error "\"to\" is not a valid date: soon", 1)] := by
  have hinit : (machine undatedPlatform).Reach NulFreeRuns (initial 0) := .init ⟨0, rfl⟩
  exact ⟨itemised_reach (hinit.after sharedCredentialRun), by decide +kernel,
    by with_unfolding_all rfl, by with_unfolding_all rfl⟩

end CloudRuns

end UnoQ.Nodes
