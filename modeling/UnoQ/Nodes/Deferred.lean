import UnoQ.Nodes.PendingRequests

/-!
# Whose answer a deferred request gets

No promise is settled twice, whatever happens. Whether it is settled by the answer meant
for it depends on the msgids: the map knows a request by nothing else, so two requests
with one msgid, from two boards or two connections of one, take each other's entries.
-/

namespace UnoQ.Nodes
open Codec Transition Client

def Timer.isArmed : Timer → Bool
  | .armed _ => true
  | _ => false

namespace Requests

/-- The request is settled with these, if any; its timer is over, and the map is left like this. -/
def finish (s : Requests) (r : ℕ) (timer : Timer) (xs : List Settlement) (pending : PendingRequests) :
    Requests :=
  { s.setRequest r { s.request r with timer := timer, settlements := (s.request r).settlements ++ xs } with
    pending := pending }

theorem finish_request (s : Requests) (r : ℕ) (timer : Timer) (xs : List Settlement)
    (pending : PendingRequests) (x : ℕ) : (s.finish r timer xs pending).request x =
      if x = r then
        { s.request r with timer := timer, settlements := (s.request r).settlements ++ xs }
      else s.request x :=
  Function.update_apply s.request _ _ x

/-- Entries are those of requests whose timer runs, and these have not been settled. -/
structure Inv (s : Requests) : Prop where
  own : ∀ m r, s.pending.entries.get m = some r →
    r < s.next ∧ m = .int (s.request r).msgid ∧ (s.request r).timer.isArmed = true
  armed : ∀ r, (s.request r).timer.isArmed = true → (s.request r).settlements = []
  once : ∀ r, (s.request r).settlements.length ≤ 1

/-- Every running request has its entry, every other one its answer. -/
structure Kept (s : Requests) : Prop where
  entry : ∀ r < s.next, (s.request r).timer.isArmed = true →
    s.pending.entries.get (.int (s.request r).msgid) = some r
  answered : ∀ r < s.next, (s.request r).timer.isArmed = false → (s.request r).settlements ≠ []

/-! ### What the steps do -/

theorem clearTimeout_eq {s : Requests} {r : ℕ} (h : (s.request r).timer.isArmed = true) :
    s.clearTimeout r = s.setTimer r .cleared := by
  unfold clearTimeout
  cases ht : (s.request r).timer with
  | armed due => rfl
  | _ =>
    rw [ht] at h
    contradiction

/-- A turn of the loop finds no entry, or takes one and settles its request unless it fails. -/
theorem respond_cases (js : Platform) {s : Requests} (h : s.Inv) (p : RespondParameters) (item : Item) :
    ((s.respond js p item).2 = s ∧
      ∀ call, readItem js p item = .ok call → s.pending.entries.get call.msgid = none) ∨
    ∃ call r xs, readItem js p item = .ok call ∧ s.pending.entries.get call.msgid = some r ∧
      (s.respond js p item).2 = s.finish r .cleared xs ⟨s.pending.entries.delete call.msgid⟩ ∧
      ((∃ message, makeResponse js p call.respondWith item call.options = .error message ∧ xs = []) ∨
        ∃ x, makeResponse js p call.respondWith item call.options = .ok x ∧ xs = [x]) := by
  unfold respond PendingRequests.take
  cases hread : readItem js p item with
  | error message => exact Or.inl ⟨rfl, fun call hc => by contradiction⟩
  | ok call =>
    dsimp only
    cases hget : s.pending.entries.get call.msgid with
    | none =>
      refine Or.inl ⟨rfl, fun call' hc => ?_⟩
      cases hc
      exact hget
    | some r =>
      obtain ⟨-, -, harmed⟩ := h.own _ _ hget
      dsimp only
      rw [clearTimeout_eq (s := { s with pending := ⟨s.pending.entries.delete call.msgid⟩ }) harmed]
      cases hmake : makeResponse js p call.respondWith item call.options with
      | error message =>
        refine Or.inr ⟨call, r, [], rfl, hget, ?_, Or.inl ⟨message, hmake, rfl⟩⟩
        simp only [finish, setTimer, setRequest, List.append_nil]
      | ok x =>
        refine Or.inr ⟨call, r, [x], rfl, hget, ?_, Or.inr ⟨x, hmake, rfl⟩⟩
        simp only [finish, settle, setTimer, setRequest, Function.update_self, Function.update_idem]

/-- The timer rejects its request if there is an entry under the msgid, be it another's. -/
theorem timedOut_cases (s : Requests) (r : ℕ) :
    (s.pending.entries.get (.int (s.request r).msgid) = none ∧
      s.timedOut r = s.finish r .fired [] s.pending) ∨
    ∃ e, s.pending.entries.get (.int (s.request r).msgid) = some e ∧
      s.timedOut r = s.finish r .fired [.rejected (noRespondNode (s.request r).trigger.timeoutMs)]
        ⟨s.pending.entries.delete (.int (s.request r).msgid)⟩ := by
  unfold timedOut PendingRequests.take
  have hself : ((s.setTimer r .fired).request r) = { s.request r with timer := .fired } :=
    Function.update_self _ _ _
  dsimp only
  rw [hself]
  dsimp only
  cases hget : s.pending.entries.get (.int (s.request r).msgid) with
  | none =>
    rw [show (s.setTimer r .fired).pending = s.pending from rfl, hget]
    refine Or.inl ⟨rfl, ?_⟩
    simp only [finish, setTimer, setRequest, List.append_nil]
  | some e =>
    rw [show (s.setTimer r .fired).pending = s.pending from rfl, hget]
    refine Or.inr ⟨e, rfl, ?_⟩
    simp only [finish, settle, setTimer, setRequest, Function.update_self, Function.update_idem]

/-! ### At most once -/

theorem inv_finish {s : Requests} (h : s.Inv) {r : ℕ} {timer : Timer} {xs : List Settlement}
    {pending : PendingRequests} (harmed : (s.request r).timer.isArmed = true)
    (htimer : timer.isArmed = false) (hxs : xs.length ≤ 1)
    (hsub : ∀ m x, pending.entries.get m = some x →
      s.pending.entries.get m = some x ∧ m ≠ .int (s.request r).msgid) :
    (s.finish r timer xs pending).Inv := by
  have hrequest := s.finish_request r timer xs pending
  constructor
  · intro m x hx
    obtain ⟨hx, hm⟩ := hsub m x hx
    obtain ⟨hlt, hkey, hrunning⟩ := h.own m x hx
    have hne : x ≠ r := by
      rintro rfl
      exact hm hkey
    rw [hrequest, if_neg hne]
    exact ⟨hlt, hkey, hrunning⟩
  · intro x hx
    rw [hrequest] at hx ⊢
    split at hx
    next =>
      rw [htimer] at hx
      contradiction
    next hne =>
      rw [if_neg hne]
      exact h.armed x hx
  · intro x
    rw [hrequest]
    split
    next =>
      change ((s.request r).settlements ++ xs).length ≤ 1
      rw [h.armed r harmed, List.nil_append]
      exact hxs
    next => exact h.once x

theorem handle_request (s : Requests) (trigger : DeferredTrigger) (connection msgid : ℕ) (params : JsValue)
    (x : ℕ) : (s.handle trigger connection msgid params).request x =
      if x = s.next then
        ⟨trigger, connection, msgid, params, .armed (s.now + setTimeoutDelay trigger.timeoutMs), []⟩
      else s.request x :=
  Function.update_apply s.request _ _ x

theorem inv_handle {s : Requests} (h : s.Inv) (trigger : DeferredTrigger) (connection msgid : ℕ)
    (params : JsValue) : (s.handle trigger connection msgid params).Inv := by
  have hrequest := s.handle_request trigger connection msgid params
  constructor
  · intro m x hx
    rcases InsertMap.get_set_eq_some hx with ⟨rfl, rfl⟩ | ⟨-, hold⟩
    · rw [hrequest, if_pos rfl]
      exact ⟨Nat.lt_succ_self _, rfl, rfl⟩
    · obtain ⟨hlt, hkey, hrunning⟩ := h.own m x hold
      rw [hrequest, if_neg (by omega)]
      exact ⟨Nat.lt_succ_of_lt hlt, hkey, hrunning⟩
  · intro x hx
    rw [hrequest] at hx ⊢
    split at hx
    next heq => rw [if_pos heq]
    next hne =>
      rw [if_neg hne]
      exact h.armed x hx
  · intro x
    rw [hrequest]
    split
    next => exact Nat.zero_le 1
    next => exact h.once x

theorem inv_initial : Inv initial where
  own _ _ h := by contradiction
  armed _ _ := rfl
  once _ := Nat.zero_le 1

theorem sub_delete {s : Requests} {m : JsNumber} (k : JsNumber) (x : ℕ)
    (h : (s.pending.entries.delete m).get k = some x) : s.pending.entries.get k = some x ∧ k ≠ m :=
  ⟨(InsertMap.get_delete_eq_some h).2, (InsertMap.get_delete_eq_some h).1⟩

theorem inv_respond {js : Platform} {s : Requests} (h : s.Inv) (p : RespondParameters) (item : Item) :
    (s.respond js p item).2.Inv := by
  rcases respond_cases js h p item with ⟨hsame, -⟩ | ⟨call, r, xs, -, hget, heq, hxs⟩
  · rw [hsame]
    exact h
  · obtain ⟨-, hkey, harmed⟩ := h.own _ _ hget
    rw [heq]
    refine inv_finish h harmed rfl ?_ fun k x hx => hkey ▸ sub_delete k x hx
    rcases hxs with ⟨-, -, rfl⟩ | ⟨x, -, rfl⟩
    · exact Nat.zero_le 1
    · exact Nat.le_refl 1

theorem inv_timedOut {s : Requests} (h : s.Inv) {r : ℕ} (harmed : (s.request r).timer.isArmed = true) :
    (s.timedOut r).Inv := by
  rcases timedOut_cases s r with ⟨hnone, heq⟩ | ⟨e, hget, heq⟩
  · rw [heq]
    refine inv_finish h harmed rfl (Nat.zero_le 1) fun k x hx => ⟨hx, ?_⟩
    rintro rfl
    rw [hnone] at hx
    contradiction
  · rw [heq]
    exact inv_finish h harmed rfl (Nat.le_refl 1) sub_delete

theorem enabled_timeout {s : Requests} {r : ℕ} (h : s.enabled (.timeout r) = true) :
    r < s.next ∧ (s.request r).timer.isArmed = true := by
  simp only [enabled] at h
  split at h
  next due htimer =>
    rw [htimer]
    exact ⟨of_decide_eq_true (Bool.and_eq_true_iff.mp h).1, rfl⟩
  · contradiction

theorem inv_reach {js : Platform} {ok : Guard Requests Event} {s : Requests}
    (h : (machine js).Reach ok s) : s.Inv := by
  refine h.invariant ?_ ?_
  · intro s hs
    cases hs
    exact inv_initial
  · intro s e t _ hi hstep _
    obtain ⟨he, rfl⟩ := Machine.ofEnabled_step.mp hstep
    cases e with
    | request trigger connection msgid params => exact inv_handle hi trigger connection msgid params
    | respond origin p item => exact inv_respond hi p item
    | timeout r => exact inv_timedOut hi (enabled_timeout he).2
    | tick ms => exact { hi with }

/-- The loop of `execute` is a run of its turns. -/
theorem execute_reach (js : Platform) (continueOnFail : Bool) (items : List (RespondParameters × Item)) :
    ∀ {s : Requests}, (machine js).Reach always s →
      (machine js).Reach always (s.execute js continueOnFail items).2 := by
  induction items with
  | nil => exact fun h => h
  | cons first rest ih =>
    intro s h
    obtain ⟨p, item⟩ := first
    have hturn : (machine js).Reach always (s.respond js p item).2 :=
      h.take (.respond none p item) rfl trivial
    unfold execute
    cases hr : s.respond js p item with
    | mk result t =>
      rw [hr] at hturn
      cases result with
      | ok output => exact ih hturn
      | error message =>
        cases continueOnFail with
        | true => exact ih hturn
        | false => exact hturn

/-! ### Requests that do not mix -/

/-- The parameters can be evaluated, and the node looks for the envelope where the Trigger puts it. -/
def readsEnvelope (p : RespondParameters) : Bool :=
  match p.respondWith, p.options with
  | .ok _, .ok options => decide (options.field = DEFAULT_METADATA_FIELD)
  | _, _ => false

/-- If there is an entry for the item, its response can be made. -/
def canAnswer (js : Platform) (s : Requests) (p : RespondParameters) (item : Item) : Bool :=
  match readItem js p item with
  | .error _ => true
  | .ok call => !s.pending.has call.msgid ||
    (makeResponse js p call.respondWith item call.options).toBool

/-- A request comes under a msgid that has no entry. A Respond node on the item of a request reads its
envelope and finds its entry, if one, and who takes an entry can make the response. -/
def Unmixed (js : Platform) : Guard Requests Event := fun s e _ =>
  match e with
  | .request _ _ msgid _ => s.pending.has (.int msgid) = false
  | .respond origin p item =>
    (∀ r ∈ origin, readsEnvelope p = true ∧
      ∀ x ∈ s.pending.entries.get (.int (s.request r).msgid), x = r) ∧ s.canAnswer js p item = true
  | _ => True

instance (js : Platform) (s : Requests) : ∀ (e : Event) (t : Requests), Decidable (Unmixed js s e t) := by
  rintro (_ | _) t <;> dsimp only [Unmixed] <;> infer_instance

theorem kept_initial : Kept initial where
  entry _ h := absurd h (Nat.not_lt_zero _)
  answered _ h := absurd h (Nat.not_lt_zero _)

/-- A request that runs is settled and its own entry taken. -/
theorem kept_finish {s : Requests} (h : s.Kept) {r : ℕ} {timer : Timer} {x : Settlement}
    (htimer : timer.isArmed = false) (hget : s.pending.entries.get (.int (s.request r).msgid) = some r) :
    (s.finish r timer [x] ⟨s.pending.entries.delete (.int (s.request r).msgid)⟩).Kept := by
  have hrequest := s.finish_request r timer [x]
    ⟨s.pending.entries.delete (.int (s.request r).msgid)⟩
  constructor
  · intro y hy hrunning
    rw [hrequest] at hrunning ⊢
    split at hrunning
    next =>
      rw [htimer] at hrunning
      contradiction
    next hne =>
      rw [if_neg hne]
      have hentry := h.entry y hy hrunning
      have hkey : JsNumber.int (s.request r).msgid ≠ .int (s.request y).msgid := by
        intro hk
        rw [← hk, hget] at hentry
        exact hne (Option.some.inj hentry).symm
      change (s.pending.entries.delete _).get _ = some y
      rw [InsertMap.get_delete_ne _ hkey]
      exact hentry
  · intro y hy hover
    rw [hrequest] at hover ⊢
    split at hover
    next heq =>
      rw [if_pos heq]
      exact List.append_ne_nil_of_right_ne_nil _ (List.cons_ne_nil _ _)
    next hne =>
      rw [if_neg hne]
      exact h.answered y hy hover

theorem kept_handle {s : Requests} (h : s.Kept) {trigger : DeferredTrigger} {connection msgid : ℕ}
    {params : JsValue} (hfree : s.pending.has (.int msgid) = false) :
    (s.handle trigger connection msgid params).Kept := by
  have hrequest := s.handle_request trigger connection msgid params
  have hnone : s.pending.entries.get (.int msgid) = none := InsertMap.has_eq_false.mp hfree
  constructor
  · intro y hy hrunning
    have hy' : y < s.next + 1 := hy
    rw [hrequest] at hrunning ⊢
    split at hrunning
    next heq =>
      rw [if_pos heq, heq]
      exact InsertMap.get_set_self _ _ _
    next hne =>
      rw [if_neg hne]
      have hentry := h.entry y (by omega) hrunning
      have hkey : JsNumber.int msgid ≠ .int (s.request y).msgid := by
        intro hk
        rw [← hk, hnone] at hentry
        contradiction
      change (s.pending.entries.set _ _).get _ = some y
      rw [InsertMap.get_set_ne _ _ hkey]
      exact hentry
  · intro y hy hover
    have hy' : y < s.next + 1 := hy
    rw [hrequest] at hover ⊢
    split at hover
    next => contradiction
    next hne =>
      rw [if_neg hne]
      exact h.answered y (by omega) hover

/-- Who takes an entry settles its request. -/
theorem respond_settles {js : Platform} {s : Requests} (h : s.Inv) {p : RespondParameters} {item : Item}
    (hanswer : s.canAnswer js p item = true) :
    ((s.respond js p item).2 = s ∧
      ∀ call, readItem js p item = .ok call → s.pending.entries.get call.msgid = none) ∨
    ∃ call r x, readItem js p item = .ok call ∧ s.pending.entries.get call.msgid = some r ∧
      (s.respond js p item).2 = s.finish r .cleared [x] ⟨s.pending.entries.delete call.msgid⟩ := by
  rcases respond_cases js h p item with hnone | ⟨call, r, xs, hread, hget, heq, hxs⟩
  · exact Or.inl hnone
  · rcases hxs with ⟨message, hfail, -⟩ | ⟨x, -, rfl⟩
    · have hhas : s.pending.has call.msgid = true := InsertMap.has_eq_true.mpr ⟨r, hget⟩
      simp only [canAnswer, hread, hhas, hfail, Except.toBool, Bool.not_true, Bool.or_self] at hanswer
      contradiction
    · exact Or.inr ⟨call, r, x, hread, hget, heq⟩

theorem kept_respond {js : Platform} {s : Requests} (hi : s.Inv) (h : s.Kept) {p : RespondParameters}
    {item : Item} (hanswer : s.canAnswer js p item = true) : (s.respond js p item).2.Kept := by
  rcases respond_settles hi hanswer with ⟨hsame, -⟩ | ⟨call, r, x, -, hget, heq⟩
  · rw [hsame]
    exact h
  · obtain ⟨-, hkey, -⟩ := hi.own _ _ hget
    rw [heq, hkey]
    exact kept_finish h rfl (hkey ▸ hget)

theorem kept_timedOut {s : Requests} (h : s.Kept) {r : ℕ} (hr : r < s.next)
    (harmed : (s.request r).timer.isArmed = true) : (s.timedOut r).Kept := by
  have hentry := h.entry r hr harmed
  rcases timedOut_cases s r with ⟨hnone, -⟩ | ⟨e, -, heq⟩
  · rw [hentry] at hnone
    contradiction
  · rw [heq]
    exact kept_finish h rfl hentry

theorem kept_reach {js : Platform} {s : Requests} (h : (machine js).Reach (Unmixed js) s) : s.Kept := by
  refine h.invariant ?_ ?_
  · intro s hs
    cases hs
    exact kept_initial
  · intro s e t hr hk hstep hg
    obtain ⟨he, rfl⟩ := Machine.ofEnabled_step.mp hstep
    cases e with
    | request trigger connection msgid params => exact kept_handle hk hg
    | respond origin p item => exact kept_respond (inv_reach hr) hk hg.2
    | timeout r =>
      obtain ⟨hlt, harmed⟩ := enabled_timeout he
      exact kept_timedOut hk hlt harmed
    | tick ms => exact { hk with }

/-! ### Every request its own answer -/

/-- No promise is settled twice, and none is left open by its own timeout. -/
structure Settled (s : Requests) : Prop where
  once : ∀ r, (s.request r).settlements.length ≤ 1
  timeout : ∀ r < s.next, (s.request r).timer = .fired → (s.request r).settlements ≠ []

/-- Afterwards the request is settled, and nothing has happened to the others. -/
def SettlesOwn (s t : Requests) (r : ℕ) : Prop :=
  (t.request r).settlements ≠ [] ∧ ∀ x, x ≠ r → (t.request x).settlements = (s.request x).settlements

/-- An item with the envelope leads to the request's msgid. -/
theorem readItem_of_bears (js : Platform) {p : RespondParameters} {item : Item} {q : Request}
    (hreads : readsEnvelope p = true) (hbears : bears item q = true) :
    ∃ call, readItem js p item = .ok call ∧ call.msgid = .int q.msgid := by
  unfold readsEnvelope at hreads
  split at hreads
  next respondWith options hwith hoptions =>
    have hfield : options.field = DEFAULT_METADATA_FIELD := of_decide_eq_true hreads
    unfold bears at hbears
    split at hbears
    next n hn =>
      have hmsgid : n = .int q.msgid := of_decide_eq_true hbears
      refine ⟨⟨respondWith, options, n⟩, ?_, hmsgid⟩
      unfold readItem
      rw [hwith, hoptions]
      dsimp only
      rw [hfield, hn, hmsgid]
      rfl
    · contradiction
  · contradiction

theorem respond_settlesOwn {js : Platform} {s : Requests} (hi : s.Inv) (hk : s.Kept) {r : ℕ}
    (hr : r < s.next) {p : RespondParameters} {item : Item} (hbears : bears item (s.request r) = true)
    (hreads : readsEnvelope p = true)
    (hown : ∀ x ∈ s.pending.entries.get (.int (s.request r).msgid), x = r)
    (hanswer : s.canAnswer js p item = true) : SettlesOwn s (s.respond js p item).2 r := by
  obtain ⟨call, hread, hmsgid⟩ := readItem_of_bears js hreads hbears
  rcases respond_settles hi hanswer with ⟨hsame, hnone⟩ | ⟨call', e, x, hread', hget, heq⟩
  · rw [hsame]
    refine ⟨?_, fun _ _ => rfl⟩
    have hgone := hnone call hread
    rw [hmsgid] at hgone
    cases hrunning : (s.request r).timer.isArmed with
    | false => exact hk.answered r hr hrunning
    | true =>
      rw [hk.entry r hr hrunning] at hgone
      contradiction
  · rw [hread] at hread'
    cases hread'
    rw [hmsgid] at hget
    have her : e = r := hown e hget
    subst her
    have hrequest := s.finish_request e .cleared [x] ⟨s.pending.entries.delete call.msgid⟩
    rw [heq]
    refine ⟨?_, fun y hy => ?_⟩
    · rw [hrequest, if_pos rfl]
      exact List.append_ne_nil_of_right_ne_nil _ (List.cons_ne_nil _ _)
    · rw [hrequest, if_neg hy]

/-- In every run in which requests do not mix, each one is settled once, by its timeout at the latest,
and a Respond node on its item settles it and no other. -/
theorem settled_of_unmixed (js : Platform) (s : Requests) (h : (machine js).Reach (Unmixed js) s) :
    s.Settled ∧ ∀ r p item t, (machine js).step s (.respond (some r) p item) = some t →
      Unmixed js s (.respond (some r) p item) t → SettlesOwn s t r := by
  have hi := inv_reach h
  have hk := kept_reach h
  refine ⟨⟨hi.once, fun r hr hfired => hk.answered r hr (by rw [hfired]; rfl)⟩, ?_⟩
  intro r p item t hstep hg
  obtain ⟨he, rfl⟩ := Machine.ofEnabled_step.mp hstep
  have hitem : r < s.next ∧ bears item (s.request r) = true := by
    simpa [enabled] using he
  obtain ⟨hreads, hown⟩ := hg.1 r rfl
  exact respond_settlesOwn hi hk hitem.1 hitem.2 hreads hown hg.2

def plainPlatform : Platform := ⟨fun _ => .nan, fun _ => .error "Unexpected token", fun _ => ""⟩

/-- Two boards ask, the first under the msgid 1. -/
def twoBoards (msgid : ℕ) : List Event :=
  [.request ⟨"ask", "ssh:q1", 1000⟩ 0 1 (.arr []), .request ⟨"ask", "ssh:q2", 1000⟩ 1 msgid (.arr [])]

def answerText : RespondParameters :=
  ⟨.ok .text, .ok ⟨none, none⟩, .ok "", .ok "done", .ok .null⟩

/-- The state after a Respond node has run on the first board's item. -/
def answerFirst (s : Requests) : Requests :=
  s.apply plainPlatform (.respond (some 0) answerText (s.request 0).item)

theorem twoBoards_settlesOwn :
    SettlesOwn ((machine plainPlatform).after (Unmixed plainPlatform) initial (twoBoards 2))
      (answerFirst ((machine plainPlatform).after (Unmixed plainPlatform) initial (twoBoards 2))) 0 :=
  (settled_of_unmixed plainPlatform _ ((Machine.Reach.init rfl).after (twoBoards 2))).2 0 answerText _ _
    (Machine.ofEnabled_step.mpr ⟨by decide +kernel, rfl⟩) (by decide +kernel)

theorem twoBoards_mixed : ¬ ∀ (js : Platform) (s : Requests), (machine js).Reach always s →
    s.Settled ∧ ∀ r p item t, (machine js).step s (.respond (some r) p item) = some t →
      SettlesOwn s t r := by
  intro hall
  have hsettles := (hall plainPlatform _ ((Machine.Reach.init rfl).after (twoBoards 1))).2 0 answerText _
    (answerFirst ((machine plainPlatform).after always initial (twoBoards 1)))
    (Machine.ofEnabled_step.mpr ⟨by decide +kernel, rfl⟩)
  have hopen : ((answerFirst ((machine plainPlatform).after always initial
      (twoBoards 1))).request 0).settlements.isEmpty = true := by decide +kernel
  exact hsettles.1 (List.isEmpty_iff.mp hopen)

end Requests

end UnoQ.Nodes
