import Mathlib.Data.List.Count
import UnoQ.Nodes.SlidingCap

/-!
# What an item is charged for

`recordCall` stands right behind the gates. The tool opens its bridge after that, and a history
reads its dates, before the call is made; either may fail, and the item then ends with its error
while the history has been told of a call that nobody has made. Here the calls that are made are
recorded beside the charges, each with its run and the place of its item.
-/

namespace UnoQ.Nodes
open Transition

/-- A node and which of its items have something between their record and their call that can
fail. -/
structure CallingNode (Params : Type) extends Node Params where
  exposed : Params → Bool

/-- Every call awaits `getBridge` first. -/
def toolCalls : CallingNode ToolParams := { unoQTool with exposed := fun _ => true }

/-- The third operation calls `readDate` first. -/
def propertyCalls : CallingNode PropertyParams :=
  { arduinoCloud with exposed := fun p => p.operation != "get" && p.operation != "set" }

/-- What a `recordCall` has added to the history, and for which item of which run. -/
structure Charge where
  execution : ℕ
  item : ℕ
  key : String
  chargedAt : ℤ

namespace Charge

def place (c : Charge) : ℕ × ℕ := (c.execution, c.item)

def timestamp (c : Charge) : String × ℤ := (c.key, c.chargedAt)

end Charge

/-- The `calls` are the calls of `callWithOptions`, or of the REST operation. -/
structure Ledger (Params : Type) where
  gates : Gates Params
  charges : List Charge
  calls : List (ℕ × ℕ)

/-- The event is one of those up to the guard. -/
def Gates.Event.early {Params : Type} : Gates.Event Params → Bool
  | .record _ | .settled .. => false
  | _ => true

namespace Ledger

variable {Params : Type}

def initial (now : ℤ) : Ledger Params := ⟨.initial now, [], []⟩

/-- Where the run stands: its number, and that of its item. -/
def place (s : Ledger Params) (x : ℕ) : ℕ × ℕ := (x, (s.gates.executions x).returnData.length)

/-- The charge of the item of the run that is at `recordCall`. -/
def charge (node : Node Params) (s : Ledger Params) (x : ℕ) (item : GatedItem Params) : Charge where
  execution := x
  item := (s.gates.executions x).returnData.length
  key := node.counterKey (s.gates.executions x).nodeId item.params
  chargedAt := s.gates.now

/-- The item is recorded. -/
def record (node : Node Params) (s : Ledger Params) (x : ℕ) (item : GatedItem Params) :
    Ledger Params :=
  { s with
    gates := s.gates.record node x item
    charges := s.charges ++ [s.charge node x item] }

/-- The call of the item is made. -/
def call (s : Ledger Params) (x : ℕ) : Ledger Params := { s with calls := s.calls ++ [s.place x] }

/-- `call`: the call of the item is made, `settled`: it ends, `unreached`: the item fails before it
is made. -/
inductive Event (Params : Type)
  | early (e : Gates.Event Params)
  | record (x : ℕ)
  | call (x : ℕ)
  | settled (x : ℕ) (error : Option String)
  | unreached (x : ℕ) (message : String)

def step (node : CallingNode Params) (s : Ledger Params) : Event Params → Option (Ledger Params)
  | .early e =>
    if e.early = true then (s.gates.step node.toNode e).map fun g => { s with gates := g } else none
  | .record x =>
    (s.gates.itemAt x .recording).map fun item => s.record node.toNode x item
  | .call x =>
    if (s.gates.itemAt x .calling).isSome ∧ s.place x ∉ s.calls then some (s.call x) else none
  | .settled x error =>
    if s.place x ∈ s.calls then
      (s.gates.step node.toNode (.settled x error)).map fun g => { s with gates := g }
    else none
  | .unreached x message =>
    match s.gates.itemAt x .calling with
    | some item =>
      if node.exposed item.params = true ∧ s.place x ∉ s.calls then
        some { s with gates := s.gates.fail node.toNode x message }
      else none
    | none => none

def machine (node : CallingNode Params) : Machine (Ledger Params) (Event Params) where
  init s := ∃ now, s = initial now
  step := step node

/-- What a step does, and on what condition. -/
inductive Effect (node : CallingNode Params) (s : Ledger Params) : Event Params → Ledger Params → Prop
  | early {e : Gates.Event Params} {g : Gates Params} : e.early = true →
    s.gates.step node.toNode e = some g → Effect node s (.early e) { s with gates := g }
  | record {x : ℕ} {item : GatedItem Params} : s.gates.itemAt x .recording = some item →
    Effect node s (.record x) (s.record node.toNode x item)
  | call {x : ℕ} {item : GatedItem Params} : s.gates.itemAt x .calling = some item →
    s.place x ∉ s.calls → Effect node s (.call x) (s.call x)
  | settled {x : ℕ} {error : Option String} {g : Gates Params} : s.place x ∈ s.calls →
    s.gates.step node.toNode (.settled x error) = some g →
    Effect node s (.settled x error) { s with gates := g }
  | unreached {x : ℕ} {item : GatedItem Params} (message : String) :
    s.gates.itemAt x .calling = some item → node.exposed item.params = true → s.place x ∉ s.calls →
    Effect node s (.unreached x message) { s with gates := s.gates.fail node.toNode x message }

theorem effect_of_step {node : CallingNode Params} {s t : Ledger Params} {e : Event Params}
    (h : step node s e = some t) : Effect node s e t := by
  cases e with
  | early e =>
    simp only [step] at h
    split at h
    next he =>
      obtain ⟨g, hg, rfl⟩ := Option.map_eq_some_iff.mp h
      exact .early he hg
    next => contradiction
  | record x =>
    obtain ⟨item, hitem, rfl⟩ := Option.map_eq_some_iff.mp h
    exact .record hitem
  | call x =>
    simp only [step] at h
    split at h
    next hc =>
      cases h
      obtain ⟨item, hitem⟩ := Option.isSome_iff_exists.mp hc.1
      exact .call hitem hc.2
    next => contradiction
  | settled x error =>
    simp only [step] at h
    split at h
    next hcalled =>
      obtain ⟨g, hg, rfl⟩ := Option.map_eq_some_iff.mp h
      exact .settled hcalled hg
    next => contradiction
  | unreached x message =>
    simp only [step] at h
    split at h
    next item hitem =>
      split at h
      next hc =>
        cases h
        exact .unreached message hitem hc.1 hc.2
      next => contradiction
    next => contradiction

/-- How often the item has been charged. -/
def charged (s : Ledger Params) (p : ℕ × ℕ) : ℕ := (s.charges.map Charge.place).count p

/-- The item has passed the gates and has not ended. -/
def Awaits (s : Ledger Params) (x i : ℕ) : Prop :=
  (s.gates.executions x).pc = .calling ∧ i = (s.gates.executions x).returnData.length

/-- What the history has been told are the calls that were made, but for the items that are still
about to make theirs. -/
structure Exact (s : Ledger Params) : Prop where
  recorded : s.gates.passed = s.charges.map Charge.timestamp
  once : ∀ p, s.charged p ≤ 1
  made : ∀ p, s.calls.count p ≤ s.charged p
  called : ∀ x i, ¬ s.Awaits x i → s.charged (x, i) = s.calls.count (x, i)

/-- No item fails between its record and its call. -/
def Reached : Guard (Ledger Params) (Event Params) := fun _ e _ =>
  match e with
  | .unreached .. => False
  | _ => True

instance (s : Ledger Params) : ∀ e t, Decidable (Reached s e t) := by
  rintro (_ | _ | _ | _ | _) t <;> dsimp only [Reached] <;> infer_instance

end Ledger

/-! ### Places in a run -/

/-- `calling` is the middle of an item. -/
def GatePc.rank : GatePc → ℕ
  | .calling => 1
  | .ended => 2
  | _ => 0

theorem GatePc.rank_le (pc : GatePc) : pc.rank ≤ 2 := by
  cases pc <;> decide

theorem GatePc.rank_eq_one {pc : GatePc} : pc.rank = 1 ↔ pc = .calling := by
  cases pc <;> decide

section Positions

variable {Params : Type} {node : Node Params}

/-- A run goes through three places for every item. -/
def Execution.position (r : Execution Params) : ℕ := 3 * r.returnData.length + r.pc.rank

theorem Execution.position_calling {r : Execution Params} {i : ℕ} :
    r.position = 3 * i + 1 ↔ r.pc = .calling ∧ i = r.returnData.length := by
  have hle := r.pc.rank_le
  rw [← GatePc.rank_eq_one]
  unfold position
  omega

theorem Execution.position_mod {r : Execution Params} : r.position % 3 = 1 ↔ r.pc = .calling := by
  have hle := r.pc.rank_le
  rw [← GatePc.rank_eq_one]
  unfold position
  omega

/-- The run leaves an item, or ends. -/
def Execution.Passes (r r' : Execution Params) : Prop :=
  r.position < r'.position ∧ r'.position % 3 ≠ 1

theorem Execution.passes_next {r r' : Execution Params}
    (hlen : r'.returnData.length = r.returnData.length + 1) (hpc : r'.pc ≠ .calling) :
    r.Passes r' := by
  have hle := r.pc.rank_le
  have hle' := r'.pc.rank_le
  have hne : r'.pc.rank ≠ 1 := fun h => hpc (GatePc.rank_eq_one.mp h)
  unfold Execution.Passes Execution.position
  omega

theorem Execution.passes_ended {r r' : Execution Params} (hpc : r.pc ≠ .ended)
    (hlen : r'.returnData.length = r.returnData.length) (hended : r'.pc = .ended) :
    r.Passes r' := by
  have hle : r.pc.rank ≤ 1 := by
    revert hpc
    cases r.pc <;> decide
  have hrank : r'.pc.rank = 2 := by rw [hended, GatePc.rank]
  unfold Execution.Passes Execution.position
  omega

namespace Gates

theorem next_passes (s : Gates Params) (x : ℕ) (output : Output) :
    ∃ r turn, s.next node x output = s.setExecution x r turn ∧ (s.executions x).Passes r := by
  refine ⟨_, _, rfl, Execution.passes_next List.length_append ?_⟩
  dsimp only
  cases (s.executions x).items.tail.isEmpty <;> exact nofun

theorem fail_passes (node : Node Params) {s : Gates Params} {x : ℕ} (hpc : (s.executions x).pc ≠ .ended)
    (message : String) : ∃ r turn, s.fail node x message = s.setExecution x r turn ∧
      (s.executions x).Passes r := by
  unfold fail
  by_cases hc : (s.executions x).continueOnFail = true
  · rw [if_pos hc]
    exact next_passes s x _
  · rw [if_neg hc]
    exact ⟨_, _, rfl, Execution.passes_ended hpc rfl rfl⟩

theorem settled_passes (node : Node Params) {s : Gates Params} {x : ℕ} (hpc : (s.executions x).pc ≠ .ended)
    (error : Option String) : ∃ r turn, (match error with
      | some message => s.fail node x message
      | none => s.next node x .result) = s.setExecution x r turn ∧ (s.executions x).Passes r := by
  cases error with
  | some message => exact fail_passes node hpc message
  | none => exact next_passes s x .result

/-- The run stays before the call of its item, or passes it. -/
def Before (s t : Gates Params) (x : ℕ) : Prop :=
  ∃ r turn, t = s.setExecution x r turn ∧
    (r.position = (s.executions x).position ∨ (s.executions x).Passes r)

theorem before_goTo {s : Gates Params} {x : ℕ} {pc : GatePc}
    (hpc : (s.executions x).pc.rank = 0) (hto : pc.rank = 0) : Before s (s.goTo x pc) x := by
  refine ⟨_, _, rfl, .inl ?_⟩
  unfold Execution.position
  rw [hpc, hto]

theorem before_next (s : Gates Params) (x : ℕ) (output : Output) :
    Before s (s.next node x output) x := by
  obtain ⟨r, turn, heq, hpasses⟩ := next_passes s x output
  exact ⟨r, turn, heq, .inr hpasses⟩

theorem before_check {s : Gates Params} {x : ℕ} (hpc : (s.executions x).pc.rank = 0)
    (item : GatedItem Params) : Before s (s.check node x item) x := by
  unfold check
  cases item.rateLimit.rateLimitCap with
  | none => exact before_goTo hpc rfl
  | some cap =>
    dsimp only
    split
    · exact before_goTo hpc rfl
    · exact before_next s x _

theorem before_guard {s : Gates Params} {x : ℕ} (hpc : (s.executions x).pc.rank = 0)
    (item : GatedItem Params) (counted : ℤ) (body : GuardBudget → GuardResult) :
    Before s (s.guard node x item counted body) x := by
  have hne : (s.executions x).pc ≠ .ended := by
    intro h
    rw [h] at hpc
    contradiction
  unfold guard
  by_cases hg : item.guarded = true
  · rw [if_pos hg]
    dsimp only
    split
    · exact before_goTo hpc rfl
    · exact before_next s x _
    · obtain ⟨r, turn, heq, hpasses⟩ := fail_passes node hne _
      exact ⟨r, turn, heq, .inr hpasses⟩
  · rw [if_neg hg]
    exact before_goTo hpc rfl

/-- Runs go on, and none gets to a call. -/
structure Onward (s t : Gates Params) : Prop where
  passed : t.passed = s.passed
  next : s.nextExecution ≤ t.nextExecution
  unborn : ∀ x, t.nextExecution ≤ x → t.executions x = s.executions x
  later : ∀ x, x < s.nextExecution → (s.executions x).position ≤ (t.executions x).position
  called : ∀ x, (t.executions x).position % 3 = 1 →
    (t.executions x).position = (s.executions x).position

/-- Nothing happens to an item that is about to make its call. -/
structure Quiet (s t : Gates Params) : Prop extends Onward s t where
  calling : ∀ x, x < s.nextExecution → (s.executions x).position % 3 = 1 →
    (t.executions x).position = (s.executions x).position

theorem quiet_execute (s : Gates Params) (nodeId : String) (continueOnFail : Bool)
    (items : List (GatedItem Params)) : Quiet s (s.execute nodeId continueOnFail items) := by
  have hother : ∀ y, y ≠ s.nextExecution →
      (s.execute nodeId continueOnFail items).executions y = s.executions y :=
    fun y hy => Function.update_of_ne hy _ _
  refine ⟨⟨rfl, Nat.le_succ _, ?unborn, ?later, ?called⟩, ?calling⟩
  case unborn =>
    intro y hy
    have hlt : s.nextExecution + 1 ≤ y := hy
    exact hother y (by omega)
  case later =>
    intro y hy
    rw [hother y (by omega)]
  case calling =>
    intro y hy _
    rw [hother y (by omega)]
  case called =>
    intro y hpos
    by_cases hy : y = s.nextExecution
    · have hnew : (s.execute nodeId continueOnFail items).executions s.nextExecution =
          ⟨nodeId, continueOnFail, items, [], if items.isEmpty then .ended else .preparing,
            .initial⟩ := Function.update_self ..
      rw [hy, hnew, Execution.position_mod] at hpos
      dsimp only at hpos
      split at hpos <;> contradiction
    · rw [hother y hy]

theorem onward_set {s : Gates Params} {x : ℕ} (hx : x < s.nextExecution) {r : Execution Params}
    (turn : Option ℕ) (hr : r.position = (s.executions x).position ∨ (s.executions x).Passes r) :
    Onward s (s.setExecution x r turn) := by
  have hself : (s.setExecution x r turn).executions x = r := setExecution_self
  have hother : ∀ y, y ≠ x → (s.setExecution x r turn).executions y = s.executions y :=
    fun y hy => setExecution_other hy
  constructor
  case passed => rfl
  case next => exact Nat.le_refl _
  case unborn =>
    intro y hy
    have hge : s.nextExecution ≤ y := hy
    exact hother y (by omega)
  case later =>
    intro y _
    by_cases hyx : y = x
    · rw [hyx, hself]
      rcases hr with hsame | hpasses
      · exact hsame.ge
      · exact hpasses.1.le
    · rw [hother y hyx]
  case called =>
    intro y hone
    by_cases hyx : y = x
    · rw [hyx, hself] at hone ⊢
      rcases hr with hsame | hpasses
      · exact hsame
      · exact absurd hone hpasses.2
    · rw [hother y hyx]

theorem quiet_before {s t : Gates Params} {x : ℕ} (hx : x < s.nextExecution)
    (hpc : (s.executions x).pc.rank = 0) (h : Before s t x) : Quiet s t := by
  obtain ⟨r, turn, rfl, hr⟩ := h
  refine ⟨onward_set hx turn hr, ?_⟩
  intro y _ hone
  have hyx : y ≠ x := by
    rintro rfl
    unfold Execution.position at hone
    omega
  exact congrArg Execution.position (setExecution_other hyx)

/-- Unborn runs have not begun. -/
def Unborn (s : Gates Params) : Prop := ∀ x, s.nextExecution ≤ x → s.executions x = .absent

theorem Unborn.born {s : Gates Params} (h : s.Unborn) {x : ℕ} {pc : GatePc} {item : GatedItem Params}
    (hitem : s.itemAt x pc = some item) : x < s.nextExecution := by
  by_contra hge
  obtain ⟨-, -, hhead⟩ := itemAt_some hitem
  rw [h x (by omega)] at hhead
  contradiction

theorem quiet_early {s t : Gates Params} (h : s.Unborn) {e : Event Params} (he : e.early = true)
    (hstep : s.step node e = some t) : Quiet s t := by
  have hrank : ∀ {x pc item}, s.itemAt x pc = some item → pc.rank = 0 →
      x < s.nextExecution ∧ (s.executions x).pc.rank = 0 := by
    intro x pc item hitem hpc
    rw [(itemAt_some hitem).1]
    exact ⟨h.born hitem, hpc⟩
  cases e with
  | tick ms =>
    cases hstep
    exact ⟨⟨rfl, Nat.le_refl _, fun _ _ => rfl, fun _ _ => Nat.le_refl _, fun _ _ => rfl⟩,
      fun _ _ _ => rfl⟩
  | execute nodeId continueOnFail items =>
    simp only [step] at hstep
    split at hstep
    next =>
      cases hstep
      exact quiet_execute s nodeId continueOnFail items
    next => contradiction
  | prepared x =>
    obtain ⟨item, hitem, rfl⟩ := Option.map_eq_some_iff.mp hstep
    obtain ⟨hx, hpc⟩ := hrank hitem rfl
    refine quiet_before hx hpc ⟨_, _, rfl, .inl ?_⟩
    unfold Execution.position
    rw [hpc]
    rfl
  | unprepared x message =>
    obtain ⟨item, hitem, rfl⟩ := Option.map_eq_some_iff.mp hstep
    obtain ⟨hx, hpc⟩ := hrank hitem rfl
    have hne : (s.executions x).pc ≠ .ended := by
      rw [(itemAt_some hitem).1]
      decide
    obtain ⟨r, turn, heq, hpasses⟩ := fail_passes node hne message
    exact quiet_before hx hpc ⟨r, turn, heq, .inr hpasses⟩
  | check x =>
    obtain ⟨item, hitem, rfl⟩ := Option.map_eq_some_iff.mp hstep
    obtain ⟨hx, hpc⟩ := hrank hitem rfl
    exact quiet_before hx hpc (before_check hpc item)
  | guard x ms body =>
    obtain ⟨item, hitem, rfl⟩ := Option.map_eq_some_iff.mp hstep
    obtain ⟨hx, hpc⟩ := hrank hitem rfl
    have hlater : ((s.elapse ms).executions x).pc.rank = 0 := hpc
    have hbefore : (s.elapse ms).Before ((s.elapse ms).guard node x item s.now body) x :=
      before_guard hlater item s.now body
    have hquiet : (s.elapse ms).Quiet ((s.elapse ms).guard node x item s.now body) :=
      quiet_before hx hlater hbefore
    exact { hquiet with }
  | record x => contradiction
  | settled x error => contradiction

end Gates

end Positions

/-! ### The books -/

namespace Ledger

variable {Params : Type} {node : CallingNode Params}

/-- What holds in every run, whether items reach their calls or not. -/
structure Booked (s : Ledger Params) : Prop where
  unborn : s.gates.Unborn
  recorded : s.gates.passed = s.charges.map Charge.timestamp
  free : ∀ x i, s.gates.nextExecution ≤ x → s.charged (x, i) = 0
  ahead : ∀ x i, (s.gates.executions x).position ≤ 3 * i → s.charged (x, i) = 0
  awaiting : ∀ x i, (s.gates.executions x).position = 3 * i + 1 → s.charged (x, i) = 1
  once : ∀ p, s.charged p ≤ 1
  made : ∀ p, s.calls.count p ≤ s.charged p

/-- Items that do not await their call have been charged for the calls that they have made. -/
def Settled (s : Ledger Params) : Prop :=
  ∀ x i, (s.gates.executions x).position ≠ 3 * i + 1 → s.charged (x, i) = s.calls.count (x, i)

/-- An item has been charged and has ended without a call. -/
def Stray (s : Ledger Params) : Prop :=
  ∃ x i, x < s.gates.nextExecution ∧ 3 * i + 1 < (s.gates.executions x).position ∧
    s.calls.count (x, i) < s.charged (x, i)

theorem booked_initial (now : ℤ) : (initial now : Ledger Params).Booked where
  unborn _ _ := rfl
  recorded := rfl
  free _ _ _ := rfl
  ahead _ _ _ := rfl
  awaiting x i h := by
    have htwo : (2 : ℕ) = 3 * i + 1 := h
    omega
  once _ := Nat.zero_le 1
  made _ := Nat.le_refl 0

theorem booked_onward {s : Ledger Params} (h : s.Booked) {g : Gates Params}
    (hg : s.gates.Onward g) : Booked { s with gates := g } where
  unborn x hx := (hg.unborn x hx).trans (h.unborn x (hg.next.trans hx))
  recorded := hg.passed.trans h.recorded
  free x i hx := h.free x i (hg.next.trans hx)
  ahead x i hpos := by
    by_cases hx : x < s.gates.nextExecution
    · exact h.ahead x i ((hg.later x hx).trans hpos)
    · exact h.free x i (by omega)
  awaiting x i hpos := by
    have hsame := hg.called x (by
      show (g.executions x).position % 3 = 1
      have hpos' : (g.executions x).position = 3 * i + 1 := hpos
      omega)
    exact h.awaiting x i (hsame.symm.trans hpos)
  once := h.once
  made := h.made

theorem stray_onward {s : Ledger Params} (h : s.Stray) {g : Gates Params}
    (hg : s.gates.Onward g) : Stray { s with gates := g } := by
  obtain ⟨x, i, hx, hpos, hlt⟩ := h
  exact ⟨x, i, hx.trans_le hg.next, hpos.trans_le (hg.later x hx), hlt⟩

theorem settled_quiet {s : Ledger Params} (h : s.Booked) (hs : s.Settled) {g : Gates Params}
    (hg : s.gates.Quiet g) : Settled { s with gates := g } := by
  intro x i hpos
  by_cases hx : x < s.gates.nextExecution
  · refine hs x i fun hone => hpos ?_
    exact (hg.calling x hx (by omega)).trans hone
  · have hfree : s.charged (x, i) = 0 := h.free x i (by omega)
    have hmade := h.made (x, i)
    show s.charged (x, i) = s.calls.count (x, i)
    omega

/-! ### Records and calls -/

theorem place_calling {s : Ledger Params} {x : ℕ} {item : GatedItem Params}
    (hitem : s.gates.itemAt x .calling = some item) {i : ℕ} :
    (s.gates.executions x).position = 3 * i + 1 ↔ (x, i) = s.place x := by
  rw [Execution.position_calling, and_iff_right (Gates.itemAt_some hitem).1]
  unfold place
  rw [Prod.mk.injEq, and_iff_right rfl]

theorem charged_record (s : Ledger Params) (x : ℕ) (item : GatedItem Params) (p : ℕ × ℕ) :
    (s.record node.toNode x item).charged p = s.charged p + if p = s.place x then 1 else 0 := by
  unfold charged record
  rw [List.map_append, List.count_append]
  congr 1
  show List.count p [s.place x] = _
  rw [List.count_singleton]
  by_cases hp : p = s.place x
  · simp [hp]
  · simp [hp, Ne.symm hp]

section Record

variable {s : Ledger Params} {x : ℕ} {item : GatedItem Params}

theorem position_recording (hitem : s.gates.itemAt x .recording = some item) :
    (s.gates.executions x).position = 3 * (s.gates.executions x).returnData.length := by
  unfold Execution.position
  rw [(Gates.itemAt_some hitem).1]
  rfl

theorem position_record (hitem : s.gates.itemAt x .recording = some item) (y : ℕ) :
    ((s.record node.toNode x item).gates.executions y).position =
      (s.gates.executions y).position + if y = x then 1 else 0 := by
  unfold record
  by_cases hyx : y = x
  · subst hyx
    rw [if_pos rfl, Gates.record_self]
    unfold Execution.position
    rw [(Gates.itemAt_some hitem).1]
    rfl
  · rw [if_neg hyx, Gates.record_other hyx, Nat.add_zero]

theorem place_recording (hitem : s.gates.itemAt x .recording = some item) {y i : ℕ} :
    (y, i) = s.place x ↔ y = x ∧ (s.gates.executions y).position = 3 * i := by
  have hbefore := position_recording hitem
  unfold place
  rw [Prod.mk.injEq]
  refine and_congr_right fun hy => ?_
  rw [hy]
  omega

/-- Places that the run has left, or comes to later, are not charged. -/
theorem charged_record_other (hitem : s.gates.itemAt x .recording = some item) {y i : ℕ}
    (hpos : y = x → (s.gates.executions y).position ≠ 3 * i) :
    (s.record node.toNode x item).charged (y, i) = s.charged (y, i) := by
  have hplace : (y, i) ≠ s.place x := fun heq =>
    hpos ((place_recording hitem).mp heq).1 ((place_recording hitem).mp heq).2
  rw [charged_record, if_neg hplace, Nat.add_zero]

theorem booked_record (h : s.Booked) (hitem : s.gates.itemAt x .recording = some item) :
    (s.record node.toNode x item).Booked := by
  have hx : x < s.gates.nextExecution := h.unborn.born hitem
  constructor
  case unborn =>
    intro y hy
    have hge : s.gates.nextExecution ≤ y := hy
    have hyx : y ≠ x := by omega
    exact (Gates.record_other hyx).trans (h.unborn y hge)
  case recorded =>
    show s.gates.passed ++ [(s.charge node.toNode x item).timestamp] = _
    rw [h.recorded]
    unfold record
    rw [List.map_append]
    rfl
  case free =>
    intro y i hy
    have hge : s.gates.nextExecution ≤ y := hy
    rw [charged_record_other hitem fun hyx => absurd hyx (by omega)]
    exact h.free y i hge
  case ahead =>
    intro y i hpos
    rw [position_record hitem] at hpos
    rw [charged_record_other hitem]
    · exact h.ahead y i (by omega)
    · intro hyx
      rw [if_pos hyx] at hpos
      omega
  case awaiting =>
    intro y i hpos
    rw [position_record hitem] at hpos
    by_cases hyx : y = x
    · rw [if_pos hyx] at hpos
      have hpos' : (s.gates.executions y).position = 3 * i := by omega
      have hplace := (place_recording hitem).mpr ⟨hyx, hpos'⟩
      rw [charged_record, if_pos hplace, h.ahead y i hpos'.le]
    · rw [if_neg hyx] at hpos
      rw [charged_record_other hitem fun heq => absurd heq hyx]
      exact h.awaiting y i hpos
  case once =>
    intro p
    rw [charged_record]
    by_cases hp : p = s.place x
    · have hpos := ((place_recording hitem).mp hp).2
      rw [if_pos hp, h.ahead p.1 p.2 hpos.le]
    · rw [if_neg hp]
      exact h.once p
  case made =>
    intro p
    rw [charged_record]
    exact (h.made p).trans (Nat.le_add_right _ _)

theorem settled_record (hs : s.Settled) (hitem : s.gates.itemAt x .recording = some item) :
    (s.record node.toNode x item).Settled := by
  intro y i hpos
  rw [position_record hitem] at hpos
  rw [charged_record_other hitem]
  · refine hs y i fun hone => ?_
    by_cases hyx : y = x
    · have hbefore := position_recording hitem
      rw [hyx] at hone
      omega
    · rw [if_neg hyx] at hpos
      exact hpos hone
  · intro hyx
    rw [if_pos hyx] at hpos
    omega

theorem stray_record (hs : s.Stray) (hitem : s.gates.itemAt x .recording = some item) :
    (s.record node.toNode x item).Stray := by
  obtain ⟨y, i, hy, hpos, hlt⟩ := hs
  refine ⟨y, i, hy, ?_, hlt.trans_le ?_⟩
  · rw [position_record hitem]
    exact hpos.trans_le (Nat.le_add_right _ _)
  · rw [charged_record]
    exact Nat.le_add_right _ _

end Record

section Call

variable {s : Ledger Params} {x : ℕ} {item : GatedItem Params}

theorem count_call (s : Ledger Params) (x : ℕ) (p : ℕ × ℕ) :
    (s.call x).calls.count p = s.calls.count p + if p = s.place x then 1 else 0 := by
  unfold call
  rw [List.count_append]
  congr 1
  rw [List.count_singleton]
  by_cases hp : p = s.place x
  · simp [hp]
  · simp [hp, Ne.symm hp]

theorem charged_place (h : s.Booked) (hitem : s.gates.itemAt x .calling = some item) :
    s.charged (s.place x) = 1 := h.awaiting x _ ((place_calling hitem).mpr rfl)

theorem booked_call (h : s.Booked) (hitem : s.gates.itemAt x .calling = some item)
    (hnot : s.place x ∉ s.calls) : (s.call x).Booked where
  unborn := h.unborn
  recorded := h.recorded
  free := h.free
  ahead := h.ahead
  awaiting := h.awaiting
  once := h.once
  made p := by
    rw [count_call]
    by_cases hp : p = s.place x
    · subst hp
      have hone := charged_place h hitem
      have hzero : s.calls.count (s.place x) = 0 := List.count_eq_zero.mpr hnot
      show _ ≤ s.charged (s.place x)
      rw [if_pos rfl, hzero, hone]
    · rw [if_neg hp]
      exact h.made p

theorem count_call_other (hitem : s.gates.itemAt x .calling = some item) {y i : ℕ}
    (hpos : (s.gates.executions y).position ≠ 3 * i + 1) :
    (s.call x).calls.count (y, i) = s.calls.count (y, i) := by
  have hplace : (y, i) ≠ s.place x := by
    intro heq
    have hy : y = x := congrArg Prod.fst heq
    subst hy
    exact hpos ((place_calling hitem).mpr heq)
  rw [count_call, if_neg hplace, Nat.add_zero]

theorem settled_call (hs : s.Settled) (hitem : s.gates.itemAt x .calling = some item) :
    (s.call x).Settled := by
  intro y i hpos
  rw [count_call_other hitem hpos]
  exact hs y i hpos

theorem stray_call (hs : s.Stray) (hitem : s.gates.itemAt x .calling = some item) :
    (s.call x).Stray := by
  obtain ⟨y, i, hy, hpos, hlt⟩ := hs
  refine ⟨y, i, hy, hpos, ?_⟩
  rw [count_call_other hitem hpos.ne']
  exact hlt

end Call

/-! ### Ends -/

section Leave

variable {s : Ledger Params} {x : ℕ} {item : GatedItem Params} {r : Execution Params}

theorem settled_leave (h : s.Booked) (hs : s.Settled)
    (hitem : s.gates.itemAt x .calling = some item) (hcalled : s.place x ∈ s.calls)
    (turn : Option ℕ) : Settled { s with gates := s.gates.setExecution x r turn } := by
  intro y i hpos
  by_cases hone : (s.gates.executions y).position = 3 * i + 1
  · have hyx : y = x := by
      by_contra hyx
      have hsame : (s.gates.setExecution x r turn).executions y = s.gates.executions y :=
        Gates.setExecution_other hyx
      exact hpos ((congrArg Execution.position hsame).trans hone)
    subst hyx
    have hplace := (place_calling hitem).mp hone
    have hmade := h.made (s.place y)
    have hcharged := charged_place h hitem
    have hpositive : 0 < s.calls.count (s.place y) := List.count_pos_iff.mpr hcalled
    show s.charged (y, i) = s.calls.count (y, i)
    rw [hplace]
    omega
  · exact hs y i hone

theorem stray_leave (h : s.Booked) (hitem : s.gates.itemAt x .calling = some item)
    (hnot : s.place x ∉ s.calls) (hr : (s.gates.executions x).Passes r) (turn : Option ℕ) :
    Stray { s with gates := s.gates.setExecution x r turn } := by
  have hself : (s.gates.setExecution x r turn).executions x = r := Gates.setExecution_self
  have hpos : (s.gates.executions x).position =
      3 * (s.gates.executions x).returnData.length + 1 := (place_calling hitem).mpr rfl
  have hcharged := charged_place h hitem
  have hzero : s.calls.count (s.place x) = 0 := List.count_eq_zero.mpr hnot
  refine ⟨x, (s.gates.executions x).returnData.length, h.unborn.born hitem, ?_, ?_⟩
  · show _ < ((s.gates.setExecution x r turn).executions x).position
    rw [hself, ← hpos]
    exact hr.1
  · show s.calls.count (s.place x) < s.charged (s.place x)
    omega

end Leave

/-! ### Runs -/

/-- An item is charged for, makes its call, ends, or ends without a call; or nothing happens to the
items that await theirs. -/
theorem step_cases {s t : Ledger Params} {e : Event Params} (h : s.gates.Unborn)
    (hstep : (machine node).step s e = some t) :
    (∃ e' g, e = .early e' ∧ t = { s with gates := g } ∧ s.gates.Quiet g) ∨
    (∃ x item, e = .record x ∧ s.gates.itemAt x .recording = some item ∧
      t = s.record node.toNode x item) ∨
    (∃ x item, e = .call x ∧ s.gates.itemAt x .calling = some item ∧ s.place x ∉ s.calls ∧
      t = s.call x) ∨
    (∃ x item r turn, s.gates.itemAt x .calling = some item ∧ (s.gates.executions x).Passes r ∧
      t = { s with gates := s.gates.setExecution x r turn } ∧
      ((∃ error, e = .settled x error ∧ s.place x ∈ s.calls) ∨
        (∃ message, e = .unreached x message ∧ s.place x ∉ s.calls))) := by
  cases effect_of_step hstep with
  | @early e g he hg => exact .inl ⟨e, g, rfl, rfl, Gates.quiet_early h he hg⟩
  | @record x item hitem => exact .inr (.inl ⟨x, item, rfl, hitem, rfl⟩)
  | @call x item hitem hnot => exact .inr (.inr (.inl ⟨x, item, rfl, hitem, hnot, rfl⟩))
  | @settled x error g hcalled hg =>
    obtain ⟨item, hitem, rfl⟩ := Option.map_eq_some_iff.mp hg
    have hne : (s.gates.executions x).pc ≠ .ended := by
      rw [(Gates.itemAt_some hitem).1]
      decide
    obtain ⟨r, turn, heq, hr⟩ := Gates.settled_passes node.toNode hne error
    refine .inr (.inr (.inr ⟨x, item, r, turn, hitem, hr, ?_, .inl ⟨error, rfl, hcalled⟩⟩))
    exact congrArg (fun g => { s with gates := g }) heq
  | @unreached x item message hitem _ hnot =>
    have hne : (s.gates.executions x).pc ≠ .ended := by
      rw [(Gates.itemAt_some hitem).1]
      decide
    obtain ⟨r, turn, heq, hr⟩ := Gates.fail_passes node.toNode hne message
    refine .inr (.inr (.inr ⟨x, item, r, turn, hitem, hr, ?_, .inr ⟨message, rfl, hnot⟩⟩))
    rw [heq]

theorem booked_step {s t : Ledger Params} {e : Event Params} (h : s.Booked)
    (hstep : (machine node).step s e = some t) : t.Booked := by
  rcases step_cases h.unborn hstep with ⟨-, g, -, rfl, hg⟩ | ⟨x, item, -, hitem, rfl⟩ |
    ⟨x, item, -, hitem, hnot, rfl⟩ | ⟨x, item, r, turn, hitem, hr, rfl, -⟩
  · exact booked_onward h hg.toOnward
  · exact booked_record h hitem
  · exact booked_call h hitem hnot
  · exact booked_onward h (Gates.onward_set (h.unborn.born hitem) turn (.inr hr))

theorem booked_reach {ok : Guard (Ledger Params) (Event Params)} {s : Ledger Params}
    (h : (machine node).Reach ok s) : s.Booked := by
  refine h.invariant (P := Booked) ?_ ?_
  · intro s hs
    obtain ⟨now, rfl⟩ := hs
    exact booked_initial now
  · intro s e t _ hs hstep _
    exact booked_step hs hstep

theorem settled_initial (now : ℤ) : (initial now : Ledger Params).Settled := fun _ _ _ => rfl

theorem settled_step {s t : Ledger Params} {e : Event Params} (h : s.Booked) (hs : s.Settled)
    (hstep : (machine node).step s e = some t) (hg : Reached s e t) : t.Settled := by
  rcases step_cases h.unborn hstep with ⟨-, g, -, rfl, hq⟩ | ⟨x, item, -, hitem, rfl⟩ |
    ⟨x, item, -, hitem, hnot, rfl⟩ | ⟨x, item, r, turn, hitem, hr, rfl, hend⟩
  · exact settled_quiet h hs hq
  · exact settled_record hs hitem
  · exact settled_call hs hitem
  · rcases hend with ⟨error, -, hcalled⟩ | ⟨message, rfl, -⟩
    · exact settled_leave h hs hitem hcalled turn
    · exact hg.elim

theorem settled_reach {s : Ledger Params} (h : (machine node).Reach Reached s) : s.Settled := by
  refine h.invariant (P := Settled) ?_ ?_
  · intro s hs
    obtain ⟨now, rfl⟩ := hs
    exact settled_initial now
  · intro s e t hr hs hstep hg
    exact settled_step (booked_reach hr) hs hstep hg

theorem stray_step {s t : Ledger Params} {e : Event Params} (h : s.Booked)
    (hstep : (machine node).step s e = some t) (hs : s.Stray ∨ ¬ Reached s e t) : t.Stray := by
  rcases step_cases h.unborn hstep with ⟨e', g, rfl, rfl, hq⟩ | ⟨x, item, rfl, hitem, rfl⟩ |
    ⟨x, item, rfl, hitem, hnot, rfl⟩ | ⟨x, item, r, turn, hitem, hr, rfl, hend⟩
  · exact stray_onward (hs.resolve_right fun hn => hn trivial) hq.toOnward
  · exact stray_record (hs.resolve_right fun hn => hn trivial) hitem
  · exact stray_call (hs.resolve_right fun hn => hn trivial) hitem
  · rcases hend with ⟨error, rfl, -⟩ | ⟨message, -, hnot⟩
    · have hstray : s.Stray := hs.resolve_right fun hn => hn trivial
      exact stray_onward hstray (Gates.onward_set (h.unborn.born hitem) turn (.inr hr))
    · exact stray_leave h hitem hnot hr turn

/-- A run either lets every item reach its call, or leaves one that never will. -/
theorem reached_or_stray {s : Ledger Params} (h : (machine node).Reach always s) :
    (machine node).Reach Reached s ∨ s.Stray :=
  h.guarded_or fun _ _ _ hr hstep hs => stray_step (booked_reach hr) hstep hs

theorem exact_of_settled {s : Ledger Params} (h : s.Booked) (hs : s.Settled) : s.Exact where
  recorded := h.recorded
  once := h.once
  made := h.made
  called x i hnot := hs x i fun hpos => hnot (Execution.position_calling.mp hpos)

theorem Stray.not_exact {s : Ledger Params} (hs : s.Stray) : ¬ s.Exact := by
  intro h
  obtain ⟨x, i, -, hpos, hlt⟩ := hs
  have hnot : ¬ s.Awaits x i := by
    intro hawaits
    have hone := Execution.position_calling.mpr hawaits
    omega
  have heq := h.called x i hnot
  omega

theorem Exact.ended {s : Ledger Params} (h : s.Exact) {x : ℕ}
    (hpc : (s.gates.executions x).pc = .ended) (i : ℕ) :
    s.charged (x, i) = s.calls.count (x, i) := by
  refine h.called x i ?_
  rintro ⟨hcalling, -⟩
  rw [hpc] at hcalling
  contradiction

/-- After any run the charges are those of the calls exactly when no item has failed between its
record and its call. -/
theorem exact_iff (node : CallingNode Params) (s : Ledger Params)
    (h : (machine node).Reach always s) : s.Exact ↔ (machine node).Reach Reached s := by
  constructor
  · intro hexact
    exact (reached_or_stray h).resolve_right fun hs => hs.not_exact hexact
  · intro hr
    exact exact_of_settled (booked_reach hr) (settled_reach hr)

theorem gates_reach {s : Ledger Params} (h : (machine node).Reach always s) :
    (Gates.machine node.toNode).Reach always s.gates := by
  refine h.simulation (N := Gates.machine node.toNode) Ledger.gates ?_ ?_
  · intro s hs
    obtain ⟨now, rfl⟩ := hs
    exact ⟨now, rfl⟩
  · intro s e t _ hr hstep _
    cases effect_of_step hstep with
    | early _ hg => exact hr.step hg trivial
    | @record x item hitem =>
      have hrecord : (Gates.machine node.toNode).step s.gates (.record x) =
          some (s.gates.record node.toNode x item) :=
        Option.map_eq_some_iff.mpr ⟨item, hitem, rfl⟩
      exact hr.step hrecord trivial
    | call => exact hr
    | @settled x error g _ hg =>
      have hsettled : (Gates.machine node.toNode).step s.gates (.settled x error) = some g := hg
      exact hr.step hsettled trivial
    | @unreached x item message hitem =>
      have hfail : (Gates.machine node.toNode).step s.gates (.settled x (some message)) =
          some (s.gates.fail node.toNode x message) :=
        Option.map_eq_some_iff.mpr ⟨item, hitem, rfl⟩
      exact hr.step hfail trivial

/-- One item of a tool, up to where its bridge is opened. -/
def opening : List (Event ToolParams) :=
  [.early (.execute "node" true [⟨⟨"set_led", none⟩, ⟨none, none⟩, false⟩]), .early (.prepared 0),
    .early (.check 0), .early (.guard 0 0 fun _ => .returned .undefined "undefined"), .record 0]

def calledState : Ledger ToolParams :=
  (machine toolCalls).after always (initial 0) (opening ++ [.call 0, .settled 0 none])

theorem calledState_exact : calledState.calls = [(0, 0)] ∧ calledState.Exact := by
  have hinit : (machine toolCalls).Reach Reached (initial 0) := .init ⟨0, rfl⟩
  have halways : (machine toolCalls).Reach always (initial 0) := .init ⟨0, rfl⟩
  have hsame : calledState = (machine toolCalls).after Reached (initial 0)
      (opening ++ [.call 0, .settled 0 none]) :=
    Machine.after_mono (fun _ _ _ _ => trivial) (by decide +kernel)
  refine ⟨by decide +kernel, (exact_iff toolCalls _ (halways.after _)).mpr ?_⟩
  exact hsame ▸ hinit.after _

/-- The bridge cannot be opened. -/
def refusedState : Ledger ToolParams :=
  (machine toolCalls).after always (initial 0) (opening ++ [.unreached 0 "connect ECONNREFUSED"])

/-- A history with a date that is none. -/
def undated : List (Event PropertyParams) :=
  [.early (.execute "node" true [⟨⟨"thing", "property", "getHistory"⟩, ⟨none, none⟩, false⟩]),
    .early (.prepared 0), .early (.check 0),
    .early (.guard 0 0 fun _ => .returned .undefined "undefined"), .record 0,
    .unreached 0 "\"to\" is not a valid date: tomorrow"]

def undatedState : Ledger PropertyParams := (machine propertyCalls).after always (initial 0) undated

theorem unreached_charged :
    (¬ ∀ s, (machine toolCalls).Reach always s → s.Exact) ∧
      ¬ ∀ s, (machine propertyCalls).Reach always s → s.Exact := by
  constructor
  · intro h
    have hinit : (machine toolCalls).Reach always (initial 0) := .init ⟨0, rfl⟩
    have hexact := h refusedState (hinit.after _)
    have hcalled := hexact.ended (x := 0) (by decide +kernel) 0
    have hne : refusedState.charged (0, 0) ≠ refusedState.calls.count (0, 0) := by decide +kernel
    exact hne hcalled
  · intro h
    have hinit : (machine propertyCalls).Reach always (initial 0) := .init ⟨0, rfl⟩
    have hexact := h undatedState (hinit.after _)
    have hcalled := hexact.ended (x := 0) (by decide +kernel) 0
    have hne : undatedState.charged (0, 0) ≠ undatedState.calls.count (0, 0) := by decide +kernel
    exact hne hcalled

end Ledger

end UnoQ.Nodes
