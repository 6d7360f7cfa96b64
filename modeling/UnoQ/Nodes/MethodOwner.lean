import UnoQ.Lib.Counting
import UnoQ.Manager.MethodRefs
import UnoQ.Nodes.Trigger

/-!
# One owner for a Request method

`trigger()` counts its method before it registers a handler, and a node in Request mode that is not the
first one gives up. So the count decides who owns a method, and it is right as long as the manager does
not drop an entry that has references.
-/

namespace UnoQ.Nodes
open Transport Manager Transition

/-- The bridge of a node that is between `addMethodRef` and `removeMethodRef`. -/
def TriggerPc.bridge : TriggerPc → Option ℕ
  | .registering b => some b
  | .active b => some b
  | .closing b => some b
  | _ => none

def UnoQTrigger.refers (t : UnoQTrigger) (key method : String) : Bool :=
  t.pc.bridge.isSome && decide (t.key = key ∧ t.method = method)

namespace Triggers

/-- The node is active in Request mode. -/
def Owns (s : Triggers) (x : ℕ) (key method : String) : Prop :=
  (∃ b, (s.triggers x).pc = .active b) ∧ (s.triggers x).mode = .request ∧
    (s.triggers x).key = key ∧ (s.triggers x).method = method

structure SingleOwner (s : Triggers) : Prop where
  sole : ∀ x y key method, s.Owns x key method → s.Owns y key method → x = y
  own : ∀ x b, (s.triggers x).pc = .active b → (s.triggers x).mode = .request →
    (s.tables b).providers.get (s.triggers x).method = some x
  counted : ∀ key method, s.manager.refsOf key method =
    Nat.count (fun x => (s.triggers x).refers key method = true) s.nextTrigger

/-- The manager drops no entry that has references. -/
def Spared : Guard Triggers Event := fun s ev _ =>
  match ev with
  | .manager ev => s.manager.Spares ev
  | _ => True

instance : ∀ s ev t, Decidable (Spared s ev t) := by
  rintro s (_ | _) t <;> dsimp only [Spared] <;> infer_instance

/-! ### The invariant -/

structure Owned (s : Triggers) : Prop where
  keyed : s.manager.Keyed
  unborn : ∀ x, s.nextTrigger ≤ x → (s.triggers x).pc = .absent
  called : ∀ x, (s.triggers x).pc = .acquiring → (s.triggers x).call < s.manager.nextCall ∧
    (s.manager.calls (s.triggers x).call).descriptor = (s.triggers x).descriptor
  bridge : ∀ x b, (s.triggers x).pc.bridge = some b →
    b < s.manager.nextBridge ∧ (s.manager.bridges b).key = (s.triggers x).key
  counted : ∀ key method, s.manager.refsOf key method =
    Nat.count (fun x => (s.triggers x).refers key method = true) s.nextTrigger
  sole : ∀ x y key method, (s.triggers x).mode = .request → (s.triggers y).mode = .request →
    (s.triggers x).refers key method = true → (s.triggers y).refers key method = true → x = y
  own : ∀ x b, (s.triggers x).pc = .active b → (s.triggers x).mode = .request →
    (s.tables b).providers.get (s.triggers x).method = some x

theorem refers_iff (t : UnoQTrigger) (key method : String) :
    t.refers key method = true ↔ t.pc.bridge ≠ none ∧ t.key = key ∧ t.method = method := by
  unfold UnoQTrigger.refers
  rw [Bool.and_eq_true, decide_eq_true_iff, Option.isSome_iff_ne_none]

theorem refers_of_bridge_none {t : UnoQTrigger} (h : t.pc.bridge = none) (key method : String) :
    t.refers key method = false := by
  unfold UnoQTrigger.refers
  rw [h]
  rfl

/-- A node that refers to its method counts for it. -/
theorem refers_of_bridge {t : UnoQTrigger} (h : t.pc.bridge ≠ none) (key method : String) :
    (t.refers key method).toNat = if key = t.key ∧ method = t.method then 1 else 0 := by
  by_cases hk : key = t.key ∧ method = t.method
  · rw [if_pos hk, (refers_iff t key method).mpr ⟨h, hk.1.symm, hk.2.symm⟩]
    rfl
  · rw [if_neg hk]
    cases hr : t.refers key method with
    | false => rfl
    | true =>
      obtain ⟨-, hkey, hmethod⟩ := (refers_iff t key method).mp hr
      exact absurd ⟨hkey.symm, hmethod.symm⟩ hk

theorem owned_initial : initial.Owned where
  keyed := BridgeManager.keyed_initial
  unborn _ _ := rfl
  called := by simp [initial]
  bridge := by simp [initial, TriggerPc.bridge]
  counted _ _ := rfl
  sole x y key method _ _ hx := by simp [initial, UnoQTrigger.refers, TriggerPc.bridge] at hx
  own := by simp [initial]

/-! ### What a step does -/

/-- Node `x` moves on to `pc`, all other nodes stay where they are. -/
structure Moves (s : Triggers) (x : ℕ) (pc : TriggerPc) (t : Triggers) : Prop where
  triggers : t.triggers = Function.update s.triggers x { s.triggers x with pc := pc }
  next : t.nextTrigger = s.nextTrigger
  born : (s.triggers x).pc ≠ .absent
  leaves : pc ≠ .acquiring
  keyed : t.manager.Keyed
  lasts : s.manager.Lasts t.manager
  bridge : ∀ b, pc.bridge = some b →
    b < t.manager.nextBridge ∧ (t.manager.bridges b).key = (s.triggers x).key
  refs : ∀ key method, t.manager.refsOf key method + ((s.triggers x).refers key method).toNat =
    s.manager.refsOf key method + ((t.triggers x).refers key method).toNat
  first : (s.triggers x).pc.bridge = none → pc.bridge ≠ none → (s.triggers x).mode = .request →
    s.manager.refsOf (s.triggers x).key (s.triggers x).method = 0
  providers : ∀ b method, (t.tables b).providers.get method =
    if pc = .active b ∧ (s.triggers x).mode = .request ∧ method = (s.triggers x).method then some x
    else (s.tables b).providers.get method

theorem Moves.at {s t : Triggers} {x : ℕ} {pc : TriggerPc} (h : s.Moves x pc t) (y : ℕ) :
    t.triggers y = if y = x then { s.triggers x with pc := pc } else s.triggers y := by
  rw [h.triggers]
  exact Function.update_apply ..

theorem Owned.born {s : Triggers} (h : s.Owned) {x : ℕ} (hx : (s.triggers x).pc ≠ .absent) :
    x < s.nextTrigger := by
  by_contra hle
  exact hx (h.unborn x (Nat.le_of_not_lt hle))

theorem counted_moves {s t : Triggers} {x : ℕ} {pc : TriggerPc} (h : s.Owned) (hm : s.Moves x pc t)
    (key method : String) : t.manager.refsOf key method =
      Nat.count (fun y => (t.triggers y).refers key method = true) t.nextTrigger := by
  have hchange := Counting.count_change (p := fun y => (s.triggers y).refers key method)
    (q := fun y => (t.triggers y).refers key method) (h.born hm.born) fun y hy => by
      rw [hm.at, if_neg hy]
  have hrefs := hm.refs key method
  have hcounted := h.counted key method
  rw [hm.next]
  omega

/-- A node that begins to refer to a method in Request mode is the only one to do so. -/
theorem sole_moves {s t : Triggers} {x : ℕ} {pc : TriggerPc} (h : s.Owned) (hm : s.Moves x pc t)
    {y : ℕ} (hy : y ≠ x) {key method : String} (hmode : (t.triggers x).mode = .request)
    (hmode' : (s.triggers y).mode = .request) (hx : (t.triggers x).refers key method = true)
    (hy' : (s.triggers y).refers key method = true) : False := by
  rw [hm.at, if_pos rfl] at hx hmode
  obtain ⟨hbridge, hkey, hmethod⟩ := (refers_iff _ key method).mp hx
  have hnone : (s.triggers x).pc.bridge = none := by
    by_contra hsome
    have hold : (s.triggers x).refers key method = true :=
      (refers_iff _ key method).mpr ⟨hsome, hkey, hmethod⟩
    exact hy (h.sole y x key method hmode' hmode hy' hold)
  have hzero : s.manager.refsOf key method = 0 := by
    rw [← hkey, ← hmethod]
    exact hm.first hnone hbridge hmode
  rw [h.counted] at hzero
  have hborn : (s.triggers y).pc ≠ .absent := by
    intro habsent
    have hsome := ((refers_iff _ key method).mp hy').1
    rw [habsent] at hsome
    exact hsome rfl
  have hfree := Counting.not_of_count_eq_zero (p := fun z => (s.triggers z).refers key method) hzero
    (h.born hborn)
  rw [hy'] at hfree
  contradiction

theorem owned_moves {s t : Triggers} {x : ℕ} {pc : TriggerPc} (h : s.Owned) (hm : s.Moves x pc t) :
    t.Owned := by
  have hsole : ∀ y z key method, (t.triggers y).mode = .request → (t.triggers z).mode = .request →
      (t.triggers y).refers key method = true → (t.triggers z).refers key method = true → y = z := by
    intro y z key method hymode hzmode hy hz
    by_cases hyx : y = x
    · by_cases hzx : z = x
      · rw [hyx, hzx]
      · subst hyx
        rw [hm.at z, if_neg hzx] at hzmode hz
        exact (sole_moves h hm hzx hymode hzmode hy hz).elim
    · rw [hm.at y, if_neg hyx] at hymode hy
      by_cases hzx : z = x
      · subst hzx
        exact (sole_moves h hm hyx hzmode hymode hz hy).elim
      · rw [hm.at z, if_neg hzx] at hzmode hz
        exact h.sole y z key method hymode hzmode hy hz
  have hbridge : ∀ y b, (t.triggers y).pc.bridge = some b →
      b < t.manager.nextBridge ∧ (t.manager.bridges b).key = (t.triggers y).key := by
    intro y b hb
    rw [hm.at] at hb ⊢
    split
    next hyx =>
      rw [if_pos hyx] at hb
      exact hm.bridge b hb
    next hyx =>
      rw [if_neg hyx] at hb
      obtain ⟨hlt, hkey⟩ := h.bridge y b hb
      obtain ⟨hlt', hkey'⟩ := hm.lasts.key b hlt
      exact ⟨hlt', hkey'.trans hkey⟩
  refine ⟨hm.keyed, fun y hy => ?_, fun y hy => ?_, hbridge, counted_moves h hm, hsole,
    fun y b hy hmode => ?_⟩
  · rw [hm.next] at hy
    rw [hm.at, if_neg]
    · exact h.unborn y hy
    · intro hyx
      exact hm.born (hyx ▸ h.unborn y hy)
  · rw [hm.at] at hy ⊢
    split
    next hyx =>
      rw [if_pos hyx] at hy
      exact absurd hy hm.leaves
    next hyx =>
      rw [if_neg hyx] at hy
      obtain ⟨hlt, hd⟩ := h.called y hy
      obtain ⟨hlt', hd'⟩ := hm.lasts.descriptor _ hlt
      exact ⟨hlt', hd'.trans hd⟩
  · -- A provider of `y`'s method that `x` has just stored on the bridge of `y` is one of its key.
    rw [hm.providers]
    split
    next hx =>
      have hyx : y = x := by
        obtain ⟨hpc, hxmode, hmethod⟩ := hx
        have hxt : t.triggers x = { s.triggers x with pc := pc } := by rw [hm.at, if_pos rfl]
        have hkeys : (t.triggers x).key = (t.triggers y).key :=
          (hbridge x b (by rw [hxt, hpc]; rfl)).2.symm.trans (hbridge y b (by rw [hy]; rfl)).2
        refine hsole y x (t.triggers y).key (t.triggers y).method hmode ?_ ?_ ?_
        · rw [hxt]
          exact hxmode
        · exact (refers_iff _ _ _).mpr ⟨by simp [hy, TriggerPc.bridge], rfl, rfl⟩
        · refine (refers_iff _ _ _).mpr ⟨?_, hkeys, ?_⟩
          · simp [hxt, hpc, TriggerPc.bridge]
          · rw [hmethod, hxt]
      rw [hyx]
    next hx =>
      have hyx : y ≠ x := by
        intro hyx
        rw [hyx, hm.at, if_pos rfl] at hy hmode hx
        exact hx ⟨hy, hmode, rfl⟩
      rw [hm.at, if_neg hyx] at hy hmode ⊢
      exact h.own y b hy hmode

theorem owned_manager {s : Triggers} (h : s.Owned) {manager : BridgeManager}
    (hkeyed : manager.Keyed) (hlasts : s.manager.Lasts manager)
    (hrefs : ∀ key method, manager.refsOf key method = s.manager.refsOf key method) :
    Owned { s with manager := manager } := by
  refine ⟨hkeyed, h.unborn, fun x hx => ?_, fun x b hb => ?_, fun key method => ?_, h.sole, h.own⟩
  · obtain ⟨hlt, hd⟩ := h.called x hx
    obtain ⟨hlt', hd'⟩ := hlasts.descriptor _ hlt
    exact ⟨hlt', hd'.trans hd⟩
  · obtain ⟨hlt, hkey⟩ := h.bridge x b hb
    obtain ⟨hlt', hkey'⟩ := hlasts.key b hlt
    exact ⟨hlt', hkey'.trans hkey⟩
  · exact (hrefs key method).trans (h.counted key method)

/-- A node that starts has nothing yet. -/
theorem owned_trigger {s : Triggers} (h : s.Owned) (method : String) (mode : TriggerMode)
    (d : TransportDescriptor) (cred : Bool) : (s.trigger method mode d cred).Owned := by
  obtain ⟨-, -, hcalls, hnew, -⟩ := BridgeManager.start_bridges s.manager .acquire d cred
  have hlasts := BridgeManager.lasts_start s.manager .acquire d cred
  have hat : ∀ y, (s.trigger method mode d cred).triggers y =
      if y = s.nextTrigger then ⟨method, mode, d, s.manager.nextCall, .acquiring⟩
      else s.triggers y := fun y => Function.update_apply ..
  have hrefers : ∀ y key m, ((s.trigger method mode d cred).triggers y).refers key m =
      (s.triggers y).refers key m := by
    intro y key m
    rw [hat]
    split
    next hy =>
      have habsent := h.unborn y (Nat.le_of_eq hy.symm)
      rw [refers_of_bridge_none (t := s.triggers y) (by rw [habsent]; rfl)]
      exact refers_of_bridge_none rfl key m
    · rfl
  refine ⟨BridgeManager.keyed_start h.keyed .acquire d cred, fun y hy => ?_, fun y hy => ?_,
    fun y b hb => ?_, fun key m => ?_, fun y z key m hymode hzmode hy hz => ?_,
    fun y b hy hmode => ?_⟩
  · have hlt : s.nextTrigger < y := hy
    rw [hat, if_neg (by omega)]
    exact h.unborn y (by omega)
  · rw [hat] at hy ⊢
    split
    · exact ⟨Nat.lt_of_lt_of_eq (Nat.lt_succ_self _) hcalls.symm, hnew⟩
    next hne =>
      rw [if_neg hne] at hy
      obtain ⟨hlt, hd⟩ := h.called y hy
      obtain ⟨hlt', hd'⟩ := hlasts.descriptor _ hlt
      exact ⟨hlt', hd'.trans hd⟩
  · rw [hat] at hb ⊢
    split
    next hy =>
      rw [if_pos hy] at hb
      contradiction
    next hne =>
      rw [if_neg hne] at hb
      obtain ⟨hlt, hkey⟩ := h.bridge y b hb
      obtain ⟨hlt', hkey'⟩ := hlasts.key b hlt
      exact ⟨hlt', hkey'.trans hkey⟩
  · have hgrow := Counting.count_grow
      (p := fun y => ((s.trigger method mode d cred).triggers y).refers key m)
      (q := fun y => (s.triggers y).refers key m) (n := s.nextTrigger) fun y _ => hrefers y key m
    have hnone : ((s.trigger method mode d cred).triggers s.nextTrigger).refers key m = false := by
      rw [hrefers]
      exact refers_of_bridge_none (by rw [h.unborn _ (Nat.le_refl _)]; rfl) key m
    have hrefs : (s.trigger method mode d cred).manager.refsOf key m = s.manager.refsOf key m :=
      BridgeManager.refsOf_start h.keyed ..
    rw [hnone] at hgrow
    rw [hrefs, h.counted]
    exact hgrow.symm
  · rw [hrefers] at hy hz
    have hold : ∀ w, (s.triggers w).refers key m = true →
        ((s.trigger method mode d cred).triggers w).mode = (s.triggers w).mode := by
      intro w hw
      rw [hat, if_neg]
      intro hnew
      rw [refers_of_bridge_none (by rw [h.unborn w (Nat.le_of_eq hnew.symm)]; rfl)] at hw
      contradiction
    rw [hold y hy] at hymode
    rw [hold z hz] at hzmode
    exact h.sole y z key m hymode hzmode hy hz
  · rw [hat] at hy hmode ⊢
    split at hy
    · contradiction
    next hne =>
      rw [if_neg hne] at hmode ⊢
      exact h.own y b hy hmode

/-! ### The moves -/

theorem owned_references {s : Triggers} (h : s.Owned) {x : ℕ} (hx : (s.triggers x).pc.bridge ≠ none) :
    1 ≤ s.manager.refsOf (s.triggers x).key (s.triggers x).method := by
  rw [h.counted]
  by_contra hzero
  have hborn : (s.triggers x).pc ≠ .absent := by
    intro habsent
    rw [habsent] at hx
    exact hx rfl
  have hfree := Counting.not_of_count_eq_zero (p := fun y => (s.triggers y).refers _ _)
    (Nat.lt_one_iff.mp (Nat.lt_of_not_le hzero)) (h.born hborn)
  rw [(refers_iff _ _ _).mpr ⟨hx, rfl, rfl⟩] at hfree
  contradiction

/-- What `withdraw` does to the manager. -/
theorem withdraw_manager {s : Triggers} (h : s.manager.Keyed) (x : ℕ) :
    (s.withdraw x).manager.Keyed ∧ s.manager.Lasts (s.withdraw x).manager ∧
      ∀ key method, (s.withdraw x).manager.refsOf key method = s.manager.refsOf key method -
        if key = (s.triggers x).key ∧ method = (s.triggers x).method then 1 else 0 := by
  have hremoved := BridgeManager.keyed_removeMethodRef h (s.triggers x).descriptor
    (s.triggers x).method
  have hsteady := (BridgeManager.steady_removeMethodRef s.manager (s.triggers x).descriptor
    (s.triggers x).method).trans
    (BridgeManager.steady_release _ (s.triggers x).descriptor (some (s.triggers x).call))
  refine ⟨BridgeManager.keyed_release hremoved .., hsteady.lasts, fun key method => ?_⟩
  exact (BridgeManager.refsOf_release ..).trans (BridgeManager.refsOf_removeMethodRef h ..)

/-- A node that holds a reference gives it up. -/
theorem moves_withdraw {s : Triggers} (h : s.Owned) {x : ℕ} {pc : TriggerPc}
    (hx : (s.triggers x).pc.bridge ≠ none) (hpc : pc.bridge = none) (hleaves : pc ≠ .acquiring) :
    s.Moves x pc ((s.withdraw x).setPc x pc) := by
  obtain ⟨hkeyed, hlasts, hrefs⟩ := withdraw_manager h.keyed x
  refine ⟨rfl, rfl, ?_, hleaves, hkeyed, hlasts, by simp [hpc], fun key method => ?_,
    fun hnone => absurd hnone hx, fun b method => ?_⟩
  · intro habsent
    rw [habsent] at hx
    exact hx rfl
  · have hone := owned_references h hx
    have hafter : (((s.withdraw x).setPc x pc).triggers x).refers key method = false :=
      refers_of_bridge_none (by rw [setPc_pc, if_pos rfl, hpc]) key method
    have hmanager : ((s.withdraw x).setPc x pc).manager.refsOf key method = _ := hrefs key method
    rw [hmanager, hafter, refers_of_bridge hx]
    split
    next hk =>
      obtain ⟨rfl, rfl⟩ := hk
      exact Nat.sub_add_cancel hone
    · rfl
  · rw [if_neg]
    · rfl
    · intro hb
      rw [hb.1] at hpc
      contradiction

/-- Only the tables change, and a provider only when node `x` becomes active in Request mode. -/
structure Tables (s : Triggers) (x : ℕ) (pc : TriggerPc) (u : Triggers) : Prop where
  manager : u.manager = s.manager
  triggers : u.triggers = s.triggers
  next : u.nextTrigger = s.nextTrigger
  providers : ∀ b method, (u.tables b).providers.get method =
    if pc = .active b ∧ (s.triggers x).mode = .request ∧ method = (s.triggers x).method then some x
    else (s.tables b).providers.get method

theorem tables_setProvider (s : Triggers) (b : ℕ) {x : ℕ} (hmode : (s.triggers x).mode = .request) :
    s.Tables x (.active b) (s.setProvider b x) := by
  refine ⟨rfl, rfl, rfl, fun c method => ?_⟩
  have htables : (s.setProvider b x).tables c = if c = b then
      { s.tables b with providers := (s.tables b).providers.set (s.triggers x).method x }
      else s.tables c := setTables_tables s b c _
  rw [htables]
  by_cases hc : c = b
  · subst hc
    rw [if_pos rfl]
    dsimp only
    rw [InsertMap.get_set]
    by_cases hm : (s.triggers x).method = method
    · rw [if_pos hm, if_pos ⟨rfl, hmode, hm.symm⟩]
    · rw [if_neg hm, if_neg fun hb => hm hb.2.2.symm]
  · rw [if_neg hc, if_neg]
    rintro ⟨hb, -⟩
    cases hb
    exact hc rfl

theorem tables_of_providers {s u : Triggers} {x : ℕ} {pc : TriggerPc} (hm : u.manager = s.manager)
    (ht : u.triggers = s.triggers) (hn : u.nextTrigger = s.nextTrigger)
    (hp : ∀ b, (u.tables b).providers = (s.tables b).providers)
    (hpc : ∀ b, pc = .active b → (s.triggers x).mode = .notify) : s.Tables x pc u := by
  refine ⟨hm, ht, hn, fun b method => ?_⟩
  rw [hp, if_neg]
  rintro ⟨hactive, hmode, -⟩
  rw [hpc b hactive] at hmode
  contradiction

theorem tables_setHandlers (s : Triggers) (b : ℕ) (method : String) (handlers : List ℕ) {x : ℕ}
    {pc : TriggerPc} (hpc : ∀ c, pc = .active c → (s.triggers x).mode = .notify) :
    s.Tables x pc (s.setHandlers b method handlers) := by
  refine tables_of_providers rfl rfl rfl (fun c => ?_) hpc
  unfold setHandlers
  dsimp only
  rw [setTables_tables]
  split
  next hc => rw [hc]
  · rfl

theorem Tables.trans {s u v : Triggers} {x : ℕ} {pc : TriggerPc} (h : s.Tables x pc u)
    (h' : u.Tables x pc v) : s.Tables x pc v := by
  refine ⟨h'.manager.trans h.manager, h'.triggers.trans h.triggers, h'.next.trans h.next,
    fun b method => ?_⟩
  rw [h'.providers, h.providers, h.triggers]
  split <;> rfl

/-- The node becomes active, or waits for the answer to `$/register`. -/
theorem register_tables (s : Triggers) (b x : ℕ) : ∃ u pc,
    s.register b x = u.setPc x pc ∧ pc.bridge = some b ∧ s.Tables x pc u := by
  have hwaits : s.Tables x (.registering b) s :=
    tables_of_providers rfl rfl rfl (fun _ => rfl) (by simp)
  cases hmode : (s.triggers x).mode with
  | notify =>
    have hset : ∀ (u : Triggers) (pc : TriggerPc), u.triggers = s.triggers →
        ∀ method handlers, u.Tables x pc (u.setHandlers b method handlers) :=
      fun u pc hu method handlers => tables_setHandlers u b method handlers fun _ _ => by
        rw [hu]
        exact hmode
    unfold register onNotify
    rw [hmode]
    dsimp only
    split
    · exact ⟨_, .active b, rfl, rfl, hset s _ rfl ..⟩
    · split
      · refine ⟨_, .active b, rfl, rfl, (hset s _ rfl (s.triggers x).method []).trans ?_⟩
        exact hset (s.setHandlers b (s.triggers x).method []) _ rfl ..
      · exact ⟨_, .registering b, rfl, rfl, hset s _ rfl ..⟩
  | request =>
    unfold register provide
    rw [hmode]
    dsimp only
    split
    · exact ⟨_, .active b, rfl, rfl, tables_setProvider s b hmode⟩
    · exact ⟨_, .registering b, rfl, rfl, hwaits⟩

theorem Tables.triggers_setPc {s u : Triggers} {x : ℕ} {pc : TriggerPc} (hu : s.Tables x pc u) :
    (u.setPc x pc).triggers = Function.update s.triggers x { s.triggers x with pc := pc } := by
  unfold setPc
  rw [hu.triggers]

/-- A node that holds a reference keeps it. -/
theorem moves_on {s u : Triggers} (h : s.Owned) {x b : ℕ} {pc : TriggerPc}
    (hx : (s.triggers x).pc.bridge = some b) (hpc : pc.bridge = some b) (hu : s.Tables x pc u) :
    s.Moves x pc (u.setPc x pc) := by
  have htriggers := hu.triggers_setPc
  refine ⟨htriggers, hu.next, ?_, ?_, ?_, ?_, fun c hc => ?_, fun key method => ?_, ?_,
    hu.providers⟩
  · intro habsent
    rw [habsent] at hx
    contradiction
  · intro hacquiring
    rw [hacquiring] at hpc
    contradiction
  · exact hu.manager ▸ h.keyed
  · exact hu.manager ▸ (BridgeManager.Steady.refl s.manager).lasts
  · have hmanager : (u.setPc x pc).manager = s.manager := hu.manager
    rw [hpc] at hc
    cases hc
    rw [hmanager]
    exact h.bridge x b hx
  · have hmanager : (u.setPc x pc).manager = s.manager := hu.manager
    have hsame : ((u.setPc x pc).triggers x).refers key method =
        (s.triggers x).refers key method := by
      rw [htriggers, Function.update_self]
      unfold UnoQTrigger.refers
      rw [hx, hpc]
      rfl
    rw [hmanager, hsame]
  · intro hnone
    rw [hx] at hnone
    contradiction

/-- `addMethodRef`, and the node goes on to register its handler. -/
theorem moves_counted {s : Triggers} (h : s.Owned) {x b : ℕ} (hx : (s.triggers x).pc = .acquiring)
    (hcall : (s.manager.calls (s.triggers x).call).pc = .returned b)
    (hfirst : (s.triggers x).mode = .request →
      s.manager.refsOf (s.triggers x).key (s.triggers x).method = 0) :
    ∃ pc, s.Moves x pc (register { s with manager :=
      (s.manager.addMethodRef (s.triggers x).descriptor (s.triggers x).method).1 } b x) := by
  obtain ⟨u, pc, heq, hpc, hu⟩ := register_tables { s with manager :=
    (s.manager.addMethodRef (s.triggers x).descriptor (s.triggers x).method).1 } b x
  have hkeyed := BridgeManager.keyed_addMethodRef h.keyed (s.triggers x).descriptor
    (s.triggers x).method
  have hlasts := (BridgeManager.steady_addMethodRef s.manager (s.triggers x).descriptor
    (s.triggers x).method).lasts
  have htriggers := hu.triggers_setPc
  have hmanager : (u.setPc x pc).manager = _ := hu.manager
  refine ⟨pc, ?_⟩
  rw [heq]
  refine ⟨htriggers, hu.next, by simp [hx], ?_, hmanager ▸ hkeyed, hmanager ▸ hlasts, fun c hc => ?_,
    fun key method => ?_, fun _ _ => hfirst, hu.providers⟩
  · intro hacquiring
    rw [hacquiring] at hpc
    contradiction
  · rw [hpc] at hc
    cases hc
    obtain ⟨hborn, hkey⟩ := h.keyed.got _ b (by rw [hcall]; rfl)
    obtain ⟨hborn', hkey'⟩ := hlasts.key b hborn
    rw [hmanager]
    refine ⟨hborn', hkey'.trans (hkey.trans ?_)⟩
    exact congrArg describeTransport (h.called x hx).2
  · have hbefore : (s.triggers x).refers key method = false :=
      refers_of_bridge_none (by rw [hx]; rfl) key method
    have hafter : (((u.setPc x pc).triggers x).refers key method).toNat =
        if key = (s.triggers x).key ∧ method = (s.triggers x).method then 1 else 0 := by
      rw [htriggers, Function.update_self]
      exact refers_of_bridge (t := { s.triggers x with pc := pc }) (by simp [hpc]) key method
    rw [hbefore, hafter, hmanager]
    exact BridgeManager.refsOf_addMethodRef h.keyed ..

/-- A node in Request mode that finds its method taken gives its reference back at once. -/
theorem moves_refused {s : Triggers} (h : s.Owned) {x : ℕ} (hx : (s.triggers x).pc = .acquiring) :
    s.Moves x .failed ((withdraw { s with manager :=
      (s.manager.addMethodRef (s.triggers x).descriptor (s.triggers x).method).1 } x).setPc x
        .failed) := by
  have hkeyed := BridgeManager.keyed_addMethodRef h.keyed (s.triggers x).descriptor
    (s.triggers x).method
  have hlasts := (BridgeManager.steady_addMethodRef s.manager (s.triggers x).descriptor
    (s.triggers x).method).lasts
  obtain ⟨hkeyed', hlasts', hrefs⟩ := withdraw_manager (s := { s with manager :=
    (s.manager.addMethodRef (s.triggers x).descriptor (s.triggers x).method).1 }) hkeyed x
  refine ⟨rfl, rfl, by simp [hx], by simp, hkeyed', hlasts.trans hlasts', by simp [TriggerPc.bridge],
    fun key method => ?_, by simp [TriggerPc.bridge], fun b method => ?_⟩
  · have hbefore : (s.triggers x).refers key method = false :=
      refers_of_bridge_none (by rw [hx]; rfl) key method
    rw [hbefore, refers_of_bridge_none (by rw [setPc_pc, if_pos rfl]; rfl)]
    refine congrArg (· + 0) ((hrefs key method).trans ?_)
    dsimp only
    rw [BridgeManager.refsOf_addMethodRef h.keyed]
    exact Nat.add_sub_cancel ..
  · rw [if_neg (by simp)]
    rfl

/-- A failed `acquire` leaves the count alone. -/
theorem moves_failed {s : Triggers} (h : s.Owned) {x : ℕ} (hx : (s.triggers x).pc = .acquiring) :
    s.Moves x .failed (s.setPc x .failed) := by
  refine ⟨rfl, rfl, by simp [hx], by simp, h.keyed, (BridgeManager.Steady.refl _).lasts,
    by simp [TriggerPc.bridge], fun key method => ?_, by simp [TriggerPc.bridge], fun b method => ?_⟩
  · rw [refers_of_bridge_none (t := s.triggers x) (by rw [hx]; rfl),
      refers_of_bridge_none (by rw [setPc_pc, if_pos rfl]; rfl)]
    rfl
  · rw [if_neg (by simp)]
    rfl

theorem step_cases {s t : Triggers} {ev : Event} (h : s.Owned) (hs : s.step ev = some t)
    (hok : Spared s ev t) :
    (∃ x pc, s.Moves x pc t) ∨
    (∃ method mode d cred, t = s.trigger method mode d cred) ∨
    ∃ manager : BridgeManager, manager.Keyed ∧ s.manager.Lasts manager ∧
      (∀ key method, manager.refsOf key method = s.manager.refsOf key method) ∧
      t = { s with manager := manager } := by
  cases step_takes hs with
  | trigger method mode d cred => exact Or.inr (Or.inl ⟨method, mode, d, cred, rfl⟩)
  | manager ev manager hown hm =>
    have hcounts : ev.counts = false := by
      cases ev <;> first | rfl | contradiction
    exact Or.inr (Or.inr ⟨manager, BridgeManager.keyed_step h.keyed hm,
      BridgeManager.lasts_step h.keyed hm,
      BridgeManager.refsOf_step h.keyed hm hcounts hok, rfl⟩)
  | acquired x b hx hcall =>
    left
    unfold acquired
    dsimp only
    split
    · exact ⟨x, .failed, moves_refused h hx⟩
    next hfree =>
      obtain ⟨pc, hm⟩ := moves_counted h hx hcall fun hmode => by
        by_contra hrefs
        have hfirst := BridgeManager.addMethodRef_first h.keyed (s.triggers x).descriptor
          (s.triggers x).method
        exact hfree ⟨hmode, hfirst.trans (decide_eq_false hrefs)⟩
      exact ⟨x, pc, hm⟩
  | acquireFailed x hx => exact Or.inl ⟨x, .failed, moves_failed h hx.1⟩
  | registered x b hx =>
    left
    refine ⟨x, .active b, ?_⟩
    unfold registered
    split
    next hmode =>
      exact moves_on h (by rw [hx]; rfl) rfl (tables_setHandlers s b _ _ fun _ _ => hmode)
    next hmode => exact moves_on h (by rw [hx]; rfl) rfl (tables_setProvider s b hmode)
  | registerFailed x b hx =>
    exact Or.inl ⟨x, .failed, moves_withdraw h (by simp [hx, TriggerPc.bridge]) rfl (by simp)⟩
  | closeFunction x b hx =>
    left
    refine ⟨x, .closing b, ?_⟩
    unfold closeFunction unsubscribe
    dsimp only
    split
    · exact moves_on h (by rw [hx]; rfl) rfl (tables_setHandlers s b _ _ (by simp))
    · exact moves_on h (by rw [hx]; rfl) rfl (tables_of_providers rfl rfl rfl (fun _ => rfl) (by simp))
  | closed x b hx =>
    exact Or.inl ⟨x, .closed b, moves_withdraw h (by simp [hx, TriggerPc.bridge]) rfl (by simp)⟩
  | request b method =>
    exact Or.inr (Or.inr ⟨s.manager, h.keyed, (BridgeManager.Steady.refl _).lasts,
      fun _ _ => rfl, rfl⟩)
  | notify b method =>
    exact Or.inr (Or.inr ⟨s.manager, h.keyed, (BridgeManager.Steady.refl _).lasts,
      fun _ _ => rfl, rfl⟩)

/-! ### Runs -/

theorem owned_step {s t : Triggers} {ev : Event} (h : s.Owned) (hs : s.step ev = some t)
    (hok : Spared s ev t) : t.Owned := by
  rcases step_cases h hs hok with
    ⟨x, pc, hm⟩ | ⟨method, mode, d, cred, rfl⟩ | ⟨manager, hkeyed, hlasts, hrefs, rfl⟩
  · exact owned_moves h hm
  · exact owned_trigger h method mode d cred
  · exact owned_manager h hkeyed hlasts hrefs

theorem owned_reach {s : Triggers} (h : machine.Reach Spared s) : s.Owned :=
  h.invariant (fun _ hinit => hinit ▸ owned_initial) fun _ _ _ _ hi hs hok => owned_step hi hs hok

theorem Owned.single {s : Triggers} (h : s.Owned) : s.SingleOwner := by
  refine ⟨fun x y key method hx hy => ?_, h.own, h.counted⟩
  obtain ⟨⟨b, hb⟩, hmode, hkey, hmethod⟩ := hx
  obtain ⟨⟨c, hc⟩, hmode', hkey', hmethod'⟩ := hy
  refine h.sole x y key method hmode hmode' ?_ ?_
  · exact (refers_iff _ _ _).mpr ⟨by simp [hb, TriggerPc.bridge], hkey, hmethod⟩
  · exact (refers_iff _ _ _).mpr ⟨by simp [hc, TriggerPc.bridge], hkey', hmethod'⟩

/-- A node that fails takes back what it has counted, and nothing else. -/
theorem failed_step {s t : Triggers} {ev : Event} (h : s.Owned) (hs : s.step ev = some t)
    (hok : Spared s ev t) {x : ℕ} (hx : (s.triggers x).pc ≠ .failed)
    (hfail : (t.triggers x).pc = .failed) (key method : String) :
    t.manager.refsOf key method + ((s.triggers x).refers key method).toNat =
      s.manager.refsOf key method := by
  rcases step_cases h hs hok with ⟨y, pc, hm⟩ | ⟨m, mode, d, cred, rfl⟩ | ⟨manager, -, -, -, rfl⟩
  · have hyx : x = y := by
      by_contra hne
      rw [hm.at, if_neg hne] at hfail
      exact hx hfail
    subst hyx
    have hnone : (t.triggers x).refers key method = false :=
      refers_of_bridge_none (by rw [hfail]; rfl) key method
    rw [hm.refs, hnone]
    rfl
  · have hat : (s.trigger m mode d cred).triggers x =
        if x = s.nextTrigger then ⟨m, mode, d, s.manager.nextCall, .acquiring⟩
        else s.triggers x := Function.update_apply ..
    rw [hat] at hfail
    split at hfail
    · contradiction
    · exact absurd hfail hx
  · exact absurd hfail hx

theorem singleOwner_of_spared {s : Triggers} (h : machine.Reach Spared s) :
    s.SingleOwner ∧ ∀ t ev x, s.step ev = some t → Spared s ev t → (s.triggers x).pc ≠ .failed →
      (t.triggers x).pc = .failed → ∀ key method,
        t.manager.refsOf key method + ((s.triggers x).refers key method).toNat =
          s.manager.refsOf key method :=
  ⟨(owned_reach h).single, fun _ _ _ hs hok hx hfail => failed_step (owned_reach h) hs hok hx hfail⟩

theorem step_acquired {s : Triggers} {x b : ℕ} (hx : (s.triggers x).pc = .acquiring)
    (hcall : (s.manager.calls (s.triggers x).call).pc = .returned b) :
    s.step (.acquired x) = some (s.acquired b x) := by
  simp only [step, hx, hcall]

def localRouter : TransportDescriptor := .unix "/var/run/arduino-router.sock"

/-- A node provides a method, and a second one has been given the same bridge. -/
def rivalRun : List Event :=
  [.trigger "set_valve" .request localRouter false, .manager (.built 0), .manager (.connected 0),
    .acquired 0, .registered 0, .trigger "set_valve" .request localRouter false]

def rivalState : Triggers := machine.after Spared initial rivalRun

/-- The second node gives up. -/
theorem rivalRun_single :
    (rivalState.tables 0).providers.get "set_valve" = some 0 ∧
      ((rivalState.acquired 0 1).triggers 1).pc = .failed ∧
      (rivalState.acquired 0 1).manager.refsOf (describeTransport localRouter) "set_valve" =
        rivalState.manager.refsOf (describeTransport localRouter) "set_valve" := by
  have hsingle := singleOwner_of_spared (s := rivalState) ((Machine.Reach.init rfl).after rivalRun)
  have hmethod : (rivalState.triggers 0).method = "set_valve" := by decide +kernel
  have hown := hsingle.1.own 0 0 (by decide +kernel) (by decide +kernel)
  have hfailed := hsingle.2 _ (.acquired 1) 1
    (step_acquired (b := 0) (by decide +kernel) (by decide +kernel)) trivial (by decide +kernel)
    (by decide +kernel) (describeTransport localRouter) "set_valve"
  have hnone : (rivalState.triggers 1).refers (describeTransport localRouter) "set_valve" = false := by
    decide +kernel
  rw [hmethod] at hown
  rw [hnone] at hfailed
  exact ⟨hown, by decide +kernel, hfailed⟩

/-- The first owner of the bridge has closed, and a second node waits for the end of that close. It goes
on with an entry that has left the map, and by the time its connect fails a third node has an entry of
its own under the key. -/
def droppedRun : List Event :=
  [.trigger "set_valve" .request localRouter false, .manager (.built 0), .manager (.connected 0),
    .acquired 0, .registered 0, .closeFunction 0, .closed 0, .trigger "button" .notify localRouter false,
    .manager (.closeDone 0), .manager (.resume 1), .trigger "set_valve" .request localRouter false,
    .manager (.built 2), .manager (.connected 2), .acquired 2, .registered 2, .manager (.built 1),
    .manager (.connectFailed 1)]

def droppedState : Triggers := machine.after always initial droppedRun

theorem droppedRun_uncounted : ¬ ∀ s : Triggers, machine.Reach always s → s.SingleOwner := by
  intro h
  have hreach : machine.Reach always droppedState := (Machine.Reach.init rfl).after droppedRun
  have hcounted := (h droppedState hreach).counted (describeTransport localRouter) "set_valve"
  have hlost : droppedState.manager.refsOf (describeTransport localRouter) "set_valve" ≠
      Nat.count (fun x => (droppedState.triggers x).refers (describeTransport localRouter)
        "set_valve" = true) droppedState.nextTrigger := by decide +kernel
  exact hlost hcounted

end Triggers

end UnoQ.Nodes
