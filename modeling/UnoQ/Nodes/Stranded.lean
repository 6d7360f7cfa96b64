import UnoQ.Nodes.Deferred

/-!
# A response that cannot be made

`execute` takes the request out of the map and stops its timer, and then looks for something to answer.
When a parameter of the response cannot be evaluated, or its text is no JSON, nobody can settle the
request any more.
-/

namespace UnoQ.Nodes
open Codec Transition Client

namespace Requests

/-- The request waits in the map, and its timer runs. -/
def Waits (s : Requests) (r : ℕ) : Prop :=
  s.pending.entries.get (.int (s.request r).msgid) = some r ∧ (s.request r).timer.isArmed = true

/-- Every request that waits in `s` still waits in `t`, or has been settled. -/
def Spared (s t : Requests) : Prop := ∀ r, s.Waits r → t.Waits r ∨ (t.request r).settlements ≠ []

/-- Nobody is left to settle the request. -/
structure Stranded (s : Requests) (r : ℕ) : Prop where
  gone : ∀ m, s.pending.entries.get m ≠ some r
  stopped : (s.request r).timer.isArmed = false
  unsettled : (s.request r).settlements = []

/-- What the mode of the response needs can be evaluated, and the JSON of a text parsed. -/
def evaluates (js : Platform) (p : RespondParameters) : RespondWith → Bool
  | .incomingItem => true
  | .text => p.responseText.toBool
  | .error => p.errorMessage.toBool
  | .json =>
    match p.responseJson with
    | .error _ => false
    | .ok (.str raw) => (js.parseJson raw).toBool
    | .ok _ => true

/-- If the envelope of the item leads to a request, a response to it can be made. -/
def Answerable (js : Platform) (s : Requests) (p : RespondParameters) (item : Item) : Prop :=
  ∀ call, readItem js p item = .ok call → s.pending.has call.msgid = true →
    evaluates js p call.respondWith = true

/-- The envelope of the item leads to a request. -/
def Leads (js : Platform) (s : Requests) (p : RespondParameters) (item : Item) : Prop :=
  ∃ call, readItem js p item = .ok call ∧ s.pending.has call.msgid = true

/-- Each item that `execute` comes to is answerable when it does. -/
def AllAnswerable (js : Platform) (continueOnFail : Bool) :
    Requests → List (RespondParameters × Item) → Prop
  | _, [] => True
  | s, (p, item) :: rest => s.Answerable js p item ∧
    (continueOnFail = true ∨ s.Leads js p item →
      AllAnswerable js continueOnFail (s.respond js p item).2 rest)

variable {js : Platform} {s t u : Requests} {p : RespondParameters} {item : Item} {r : ℕ}

theorem makeResponse_toBool (js : Platform) (p : RespondParameters) (respondWith : RespondWith)
    (item : Item) (options : RespondOptions) :
    (makeResponse js p respondWith item options).toBool = evaluates js p respondWith := by
  cases respondWith with
  | incomingItem =>
    unfold makeResponse resolveValue
    dsimp only
    split <;> rfl
  | text =>
    unfold makeResponse resolveValue evaluates
    cases p.responseText <;> rfl
  | error =>
    unfold makeResponse evaluates
    cases p.errorMessage <;> rfl
  | json =>
    unfold makeResponse resolveValue evaluates
    cases p.responseJson with
    | error message => rfl
    | ok raw =>
      cases raw with
      | str raw =>
        dsimp only
        cases js.parseJson raw <;> rfl
      | _ => rfl

/-! ### One item -/

theorem settled_respond (hi : s.Inv) (h : (s.request r).settlements ≠ []) :
    ((s.respond js p item).2.request r).settlements ≠ [] := by
  rcases respond_cases js hi p item with ⟨hsame, -⟩ | ⟨call, x, xs, -, -, heq, -⟩
  · rw [hsame]
    exact h
  · rw [heq, finish_request]
    split
    next hr =>
      subst hr
      exact List.append_ne_nil_of_left_ne_nil h _
    · exact h

theorem waits_finish {timer : Timer} {xs : List Settlement} {m : JsNumber} {x : ℕ}
    (hget : s.pending.entries.get m = some x) (hne : r ≠ x) :
    (s.finish x timer xs ⟨s.pending.entries.delete m⟩).Waits r ↔ s.Waits r := by
  unfold Waits
  rw [finish_request, if_neg hne]
  have hentries : (s.finish x timer xs ⟨s.pending.entries.delete m⟩).pending.entries =
      s.pending.entries.delete m := rfl
  rw [hentries, InsertMap.get_delete]
  constructor
  · rintro ⟨hr, harmed⟩
    split at hr
    · contradiction
    · exact ⟨hr, harmed⟩
  · rintro ⟨hr, harmed⟩
    have hkey : ¬ m = .int (s.request r).msgid := by
      rintro rfl
      rw [hget] at hr
      exact hne (Option.some.inj hr).symm
    rw [if_neg hkey]
    exact ⟨hr, harmed⟩

theorem waits_of_respond (hi : s.Inv) (h : (s.respond js p item).2.Waits r) : s.Waits r := by
  rcases respond_cases js hi p item with ⟨hsame, -⟩ | ⟨call, x, xs, -, hget, heq, -⟩
  · rw [hsame] at h
    exact h
  · rw [heq] at h
    by_cases hr : r = x
    · have harmed := h.2
      rw [finish_request, if_pos hr] at harmed
      contradiction
    · exact (waits_finish hget hr).mp h

theorem stranded_respond (hi : s.Inv) (h : s.Stranded r) : (s.respond js p item).2.Stranded r := by
  rcases respond_cases js hi p item with ⟨hsame, -⟩ | ⟨call, x, xs, -, hget, heq, -⟩
  · rw [hsame]
    exact h
  · have hr : r ≠ x := by
      rintro rfl
      exact h.gone _ hget
    rw [heq]
    refine ⟨fun m hm => h.gone m (InsertMap.get_delete_eq_some hm).2, ?_, ?_⟩
    · rw [finish_request, if_neg hr]
      exact h.stopped
    · rw [finish_request, if_neg hr]
      exact h.unsettled

/-- An answerable item leaves no request without anyone to settle it. -/
theorem spared_respond (hi : s.Inv) (h : s.Answerable js p item) :
    Spared s (s.respond js p item).2 := by
  intro r hr
  rcases respond_cases js hi p item with ⟨hsame, -⟩ | ⟨call, x, xs, hread, hget, heq, hxs⟩
  · rw [hsame]
    exact Or.inl hr
  · rw [heq]
    by_cases hrx : r = x
    · subst hrx
      refine Or.inr ?_
      rcases hxs with ⟨message, hmake, -⟩ | ⟨y, -, rfl⟩
      · have heval := h call hread (InsertMap.has_eq_true.mpr ⟨r, hget⟩)
        rw [← makeResponse_toBool js p call.respondWith item call.options, hmake] at heval
        contradiction
      · rw [finish_request, if_pos rfl]
        exact List.append_ne_nil_of_right_ne_nil _ (List.cons_ne_nil _ _)
    · exact Or.inl ((waits_finish hget hrx).mpr hr)

/-- Any other item strands the request that it leads to. -/
theorem stranded_of_unanswerable (hi : s.Inv) (h : ¬ s.Answerable js p item) :
    ∃ r, s.Waits r ∧ (s.respond js p item).2.Stranded r := by
  unfold Answerable at h
  simp only [not_forall] at h
  obtain ⟨call, hread, hhas, heval⟩ := h
  rcases respond_cases js hi p item with ⟨-, hnone⟩ | ⟨call', r, xs, hread', hget, heq, hxs⟩
  · obtain ⟨r, hget⟩ := InsertMap.has_eq_true.mp hhas
    rw [hnone call hread] at hget
    contradiction
  · rw [hread] at hread'
    cases hread'
    obtain ⟨-, hkey, harmed⟩ := hi.own _ _ hget
    refine ⟨r, ⟨hkey ▸ hget, harmed⟩, ?_⟩
    rcases hxs with ⟨message, -, rfl⟩ | ⟨y, hmake, -⟩
    · rw [heq]
      refine ⟨fun m hm => ?_, ?_, ?_⟩
      · obtain ⟨hne, hold⟩ := InsertMap.get_delete_eq_some hm
        exact hne ((hi.own m r hold).2.1.trans hkey.symm)
      · rw [finish_request, if_pos rfl]
        rfl
      · rw [finish_request, if_pos rfl]
        change (s.request r).settlements ++ [] = []
        rw [List.append_nil]
        exact hi.armed r harmed
    · rw [← makeResponse_toBool js p call.respondWith item call.options, hmake] at heval
      exact absurd rfl heval

/-- `execute` goes on after an answerable item if that led to a request, or if it goes on anyway. -/
theorem respond_ok (h : s.Answerable js p item) :
    (s.respond js p item).1.toBool = true ↔ s.Leads js p item := by
  unfold Answerable at h
  unfold Leads respond PendingRequests.take PendingRequests.has
  cases hread : readItem js p item with
  | error message =>
    refine iff_of_false (by simp [Except.toBool]) ?_
    rintro ⟨call, hcall, -⟩
    contradiction
  | ok call =>
    have heval := h call hread
    dsimp only
    cases hget : s.pending.entries.get call.msgid with
    | none =>
      refine iff_of_false (by simp [Except.toBool]) ?_
      rintro ⟨call', hcall, hhas⟩
      cases hcall
      rw [InsertMap.has_eq_true, hget] at hhas
      simp at hhas
    | some r =>
      have hhas : s.pending.entries.has call.msgid = true := InsertMap.has_eq_true.mpr ⟨r, hget⟩
      have hmake := heval hhas
      rw [← makeResponse_toBool js p call.respondWith item call.options] at hmake
      refine iff_of_true ?_ ⟨call, rfl, hhas⟩
      dsimp only
      cases hm : makeResponse js p call.respondWith item call.options with
      | error message =>
        rw [hm] at hmake
        contradiction
      | ok x => rfl

/-! ### All items -/

theorem execute_cons (js : Platform) (continueOnFail : Bool) (s : Requests) (p : RespondParameters)
    (item : Item) (rest : List (RespondParameters × Item)) :
    (s.execute js continueOnFail ((p, item) :: rest)).2 =
      if continueOnFail = true ∨ (s.respond js p item).1.toBool = true then
        ((s.respond js p item).2.execute js continueOnFail rest).2
      else (s.respond js p item).2 := by
  cases hr : s.respond js p item with
  | mk result t =>
    cases result with
    | ok output => simp [execute, hr, Except.toBool]
    | error message => cases continueOnFail <;> simp [execute, hr, Except.toBool]

theorem execute_kept (js : Platform) (continueOnFail : Bool) (items : List (RespondParameters × Item)) :
    ∀ {s : Requests}, s.Inv → (s.execute js continueOnFail items).2.Inv ∧
      (∀ r, (s.request r).settlements ≠ [] →
        ((s.execute js continueOnFail items).2.request r).settlements ≠ []) ∧
      (∀ r, s.Stranded r → (s.execute js continueOnFail items).2.Stranded r) := by
  induction items with
  | nil => exact fun hi => ⟨hi, fun _ h => h, fun _ h => h⟩
  | cons first rest ih =>
    intro s hi
    obtain ⟨p, item⟩ := first
    have hturn : (s.respond js p item).2.Inv := inv_respond hi p item
    obtain ⟨hinv, hsettled, hstranded⟩ := ih hturn
    rw [execute_cons]
    split
    · exact ⟨hinv, fun r h => hsettled r (settled_respond hi h),
        fun r h => hstranded r (stranded_respond hi h)⟩
    · exact ⟨hturn, fun r h => settled_respond hi h, fun r h => stranded_respond hi h⟩

theorem stranded_not_spared (hr : s.Waits r) (h : t.Stranded r) : ¬ Spared s t := by
  intro hspared
  rcases hspared r hr with hwaits | hsettled
  · exact h.gone _ hwaits.1
  · exact hsettled h.unsettled

theorem spared_execute (js : Platform) (continueOnFail : Bool)
    (items : List (RespondParameters × Item)) : ∀ {s : Requests}, s.Inv →
      (Spared s (s.execute js continueOnFail items).2 ↔ AllAnswerable js continueOnFail s items) := by
  induction items with
  | nil => exact fun _ => iff_of_true (fun _ h => Or.inl h) trivial
  | cons first rest ih =>
    intro s hi
    obtain ⟨p, item⟩ := first
    have hturn : (s.respond js p item).2.Inv := inv_respond hi p item
    unfold AllAnswerable
    rw [execute_cons]
    by_cases hanswer : s.Answerable js p item
    · rw [← respond_ok hanswer, and_iff_right hanswer]
      split
      next hgo =>
        obtain ⟨-, hsettled, -⟩ := execute_kept js continueOnFail rest hturn
        rw [← ih hturn, imp_iff_right hgo]
        constructor
        · exact fun hspared r hr => hspared r (waits_of_respond hi hr)
        · intro hspared r hr
          rcases spared_respond hi hanswer r hr with hwaits | hdone
          · exact hspared r hwaits
          · exact Or.inr (hsettled r hdone)
      next hstop => exact iff_of_true (spared_respond hi hanswer) fun hgo => absurd hgo hstop
    · obtain ⟨r, hr, hstranded⟩ := stranded_of_unanswerable hi hanswer
      refine iff_of_false ?_ fun h => hanswer h.1
      split
      · exact stranded_not_spared hr ((execute_kept js continueOnFail rest hturn).2.2 r hstranded)
      · exact stranded_not_spared hr hstranded

/-- After `execute`, every request that was waiting still waits or has been settled if and only if each
item was answerable when its turn came. -/
theorem spared_iff (js : Platform) {s : Requests} (h : (machine js).Reach always s)
    (continueOnFail : Bool) (items : List (RespondParameters × Item)) :
    Spared s (s.execute js continueOnFail items).2 ↔ AllAnswerable js continueOnFail s items :=
  spared_execute js continueOnFail items (inv_reach h)

/-- One request waits. -/
def asked : Requests :=
  (machine plainPlatform).after always initial [.request ⟨"ask", "ssh:q1", 1000⟩ 0 1 (.arr [])]

theorem asked_reach : (machine plainPlatform).Reach always asked := (Machine.Reach.init rfl).after _

theorem answerable_text {js : Platform} {s : Requests} {item : Item} :
    s.Answerable js answerText item := by
  intro call hread _
  have hwith : call.respondWith = .text := by
    unfold readItem answerText at hread
    dsimp only at hread
    split at hread
    · contradiction
    · cases hread
      rfl
  rw [hwith]
  rfl

/-- An item without an envelope fails, and the next one is answered. -/
theorem asked_spared : Spared asked (asked.execute plainPlatform true
    [(answerText, []), (answerText, (asked.request 0).item)]).2 :=
  (spared_iff plainPlatform asked_reach true
    [(answerText, []), (answerText, (asked.request 0).item)]).mpr
      ⟨answerable_text, fun _ => ⟨answerable_text, fun _ => trivial⟩⟩

/-- A response that is no JSON. -/
def answerGarbled : RespondParameters :=
  ⟨.ok .json, .ok ⟨none, none⟩, .ok "", .ok "", .ok (.str "done,")⟩

theorem asked_stranded : ¬ ∀ (js : Platform) (s : Requests), (machine js).Reach always s →
    ∀ continueOnFail items, Spared s (s.execute js continueOnFail items).2 := by
  intro hall
  have hspared := hall plainPlatform asked asked_reach true [(answerGarbled, (asked.request 0).item)]
  rcases hspared 0 ⟨by decide +kernel, by decide +kernel⟩ with hwaits | hsettled
  · exact absurd hwaits.2 (by decide +kernel)
  · exact hsettled (List.isEmpty_iff.mp (by decide +kernel))

end Requests
end UnoQ.Nodes
