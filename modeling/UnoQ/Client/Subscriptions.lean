import UnoQ.Client.Record

/-!
# Subscriptions and their registration

`onNotify` publishes the set of a method before it awaits `$/register`, and takes a set that is there
for a method that is registered. So a set whose registration failed, or is still awaited, passes for a
subscription. The bridge is taken together with a record of the `$/register` calls that its sets stand for.
-/

namespace UnoQ.Client
open Codec Transition

/-- `asked` has the `$/register` calls that `onNotify` made, by method. -/
structure Subscriptions where
  bridge : Bridge
  asked : List (String × ℕ)

namespace Subscriptions
open Bridge

def initial : Subscriptions := ⟨Bridge.initial, []⟩

/-- The first subscriber of a method that is not provided asks for its registration. -/
def asks (s : Subscriptions) : Event → List (String × ℕ)
  | .onNotify method _ =>
    if s.bridge.notifyHandlers.has method = false ∧ s.bridge.providers.has method = false then
      s.asked ++ [(method, s.bridge.calls.nextCall)]
    else s.asked
  | _ => s.asked

def step (host : Host) (s : Subscriptions) (e : Event) : Option Subscriptions :=
  ((Bridge.machine host).step s.bridge e).map fun bridge => ⟨bridge, s.asks e⟩

def machine (host : Host) : Machine Subscriptions Event where
  init s := s = initial
  step := step host

/-! ### All or nothing -/

/-- A `$/register` has been acknowledged on behalf of the set of the method. -/
def Acknowledged (s : Subscriptions) (method : String) : Prop :=
  ∃ k, (method, k) ∈ s.asked ∧ s.bridge.calls.acknowledged k = true

/-- The method of an `onNotify` call that resolves at this step: at once, or with the answer to its
`$/register`. Calls for a method that is provided are left out. -/
def resolves (s : Subscriptions) : Event → Option String
  | .onNotify method _ =>
    if s.bridge.providers.has method = false ∧ s.bridge.notifyHandlers.has method = true then
      some method
    else none
  | .resumeRegistration g =>
    match s.bridge.registrations g with
    | .onNotify method _ k =>
      match s.bridge.outcome k with
      | some (.result _) => some method
      | _ => none
    | _ => none
  | _ => none

/-- The method of an `onNotify` call that rejects at this step. -/
def rejects (s : Subscriptions) : Event → Option String
  | .resumeRegistration g =>
    match s.bridge.registrations g with
    | .onNotify method _ k =>
      match s.bridge.outcome k with
      | some (.failure _) => some method
      | _ => none
    | _ => none
  | _ => none

/-- A rejected call had found no set, so it leaves none. -/
structure AllOrNothing (s : Subscriptions) (e : Event) (t : Subscriptions) : Prop where
  resolved : ∀ method ∈ s.resolves e, s.Acknowledged method
  rejected : ∀ method ∈ s.rejects e, t.bridge.notifyHandlers.get method = none

/-- No `$/register` of an `onNotify` fails, and no `onNotify` comes for a method that is not provided
while the `$/register` for its set has not been acknowledged. -/
def Registers : Guard Subscriptions Event := fun s e _ =>
  match e with
  | .onNotify method _ =>
    s.bridge.providers.has method = false →
      ∀ g < s.bridge.nextRegistration,
        match s.bridge.registrations g with
        | .onNotify method' _ k => method' = method → s.bridge.calls.acknowledged k = true
        | _ => True
  | .resumeRegistration g =>
    match s.bridge.registrations g with
    | .onNotify _ _ k =>
      match s.bridge.outcome k with
      | some (.failure _) => False
      | _ => True
    | _ => True
  | _ => True

instance decidableRegistered (s : Subscriptions) (method : String) (g : ℕ) :
    Decidable (match s.bridge.registrations g with
      | .onNotify method' _ k => method' = method → s.bridge.calls.acknowledged k = true
      | _ => True) := by
  rcases s.bridge.registrations g with _ | _ <;> infer_instance

instance decidableUnfailed (s : Subscriptions) (g : ℕ) :
    Decidable (match s.bridge.registrations g with
      | .onNotify _ _ k =>
        match s.bridge.outcome k with
        | some (.failure _) => False
        | _ => True
      | _ => True) := by
  rcases s.bridge.registrations g with _ | _ | ⟨method, handler, k⟩
  · infer_instance
  · infer_instance
  · dsimp only
    rcases s.bridge.outcome k with _ | _ | _ <;> infer_instance

instance : ∀ s e t, Decidable (Registers s e t) := by
  rintro s (_ | _) t <;> dsimp only [Registers] <;> infer_instance

end Subscriptions

/-! ### Handler tables -/

namespace Bridge

/-- The operations on the handler tables. -/
def Event.files : Event → Bool
  | .provide .. => true
  | .onNotify .. => true
  | .unsubscribe .. => true
  | .resumeRegistration _ => true
  | _ => false

structure SameTables (s t : Bridge) : Prop where
  providers : t.providers = s.providers
  notifyHandlers : t.notifyHandlers = s.notifyHandlers
  registrations : t.registrations = s.registrations
  nextRegistration : t.nextRegistration = s.nextRegistration

theorem sameTables_replayNext (host : Host) (s : Bridge) (r : ℕ) (todo : List String) :
    s.SameTables (s.replayNext host r todo) := by
  cases todo <;> exact ⟨rfl, rfl, rfl, rfl⟩

theorem sameTables_handleMessage (host : Host) (s : Bridge) (msg : List JsValue) (th : Option ℕ) :
    s.SameTables (s.handleMessage host msg th) := by
  unfold handleMessage handleResponse handleRequest handleNotify
  dsimp only
  split
  · split
    · exact ⟨rfl, rfl, rfl, rfl⟩
    · split <;> exact ⟨rfl, rfl, rfl, rfl⟩
  · split
    · split <;> exact ⟨rfl, rfl, rfl, rfl⟩
    · split <;> exact ⟨rfl, rfl, rfl, rfl⟩

theorem sameTables_apply (host : Host) (s : Bridge) {e : Event} (he : e.files = false) :
    s.SameTables (s.apply host e) := by
  cases e with
  | provide method handler => contradiction
  | onNotify method handler => contradiction
  | unsubscribe method handler => contradiction
  | resumeRegistration g => contradiction
  | close =>
    change s.SameTables (s.close host)
    unfold close
    dsimp only
    split <;> exact ⟨rfl, rfl, rfl, rfl⟩
  | dispatch thrower =>
    change s.SameTables (s.dispatch host thrower)
    unfold dispatch
    split
    next msg _ _ =>
      have hmessage := sameTables_handleMessage host s msg thrower
      dsimp only
      split <;> exact ⟨hmessage.providers, hmessage.notifyHandlers, hmessage.registrations,
        hmessage.nextRegistration⟩
    · exact ⟨rfl, rfl, rfl, rfl⟩
  | resumeReplay r =>
    change s.SameTables (s.resumeReplay host r)
    have hr := resumes host s r
    generalize s.resumeReplay host r = t at hr ⊢
    cases hr with
    | dialed => exact { sameTables_replayNext host s.connected r s.methods with }
    | next todo => exact sameTables_replayNext host s r todo
    | _ => exact ⟨rfl, rfl, rfl, rfl⟩
  | resumeClose x =>
    change s.SameTables (s.resumeClose x)
    unfold resumeClose
    split <;> exact ⟨rfl, rfl, rfl, rfl⟩
  | _ => exact ⟨rfl, rfl, rfl, rfl⟩

end Bridge

namespace Subscriptions
open Bridge

/-! ### The invariants -/

/-- Whose calls the record has. -/
structure Recorded (s : Subscriptions) : Prop where
  unborn : ∀ g, s.bridge.nextRegistration ≤ g → s.bridge.registrations g = .idle
  published : ∀ g method handler k, s.bridge.registrations g = .onNotify method handler k →
    s.bridge.notifyHandlers.has method = true ∧ (method, k) ∈ s.asked
  asked : ∀ method k, (method, k) ∈ s.asked →
    s.bridge.notifyHandlers.has method = true ∧ k < s.bridge.calls.nextCall
  once : ∀ method k k', (method, k) ∈ s.asked → (method, k') ∈ s.asked → k = k'

/-- A set stands for a method that is provided, or whose registration is awaited or acknowledged. -/
def Backed (s : Subscriptions) : Prop :=
  ∀ method, s.bridge.notifyHandlers.has method = true → s.bridge.providers.has method = true ∨
    (∃ g handler k, s.bridge.registrations g = .onNotify method handler k) ∨ s.Acknowledged method

theorem recorded_initial : initial.Recorded where
  unborn _ _ := rfl
  published g method handler k h := by simp [initial, Bridge.initial] at h
  asked method k h := by simp [initial] at h
  once method k k' h := by simp [initial] at h

theorem backed_initial : initial.Backed := fun _ h => absurd h Bool.false_ne_true

/-- No registration of an `onNotify` begins. -/
theorem Recorded.frame {s t : Subscriptions} (h : s.Recorded) (hasked : t.asked = s.asked)
    (hborn : s.bridge.calls.nextCall ≤ t.bridge.calls.nextCall)
    (hhas : ∀ m, s.bridge.notifyHandlers.has m = true → t.bridge.notifyHandlers.has m = true)
    (hold : ∀ g, t.bridge.registrations g = s.bridge.registrations g ∨
      ∀ m handler k, t.bridge.registrations g ≠ .onNotify m handler k)
    (hunborn : ∀ g, t.bridge.nextRegistration ≤ g → t.bridge.registrations g = .idle) :
    t.Recorded := by
  refine ⟨hunborn, fun g m handler k hg => ?_, fun m k hk => ?_, fun m k k' hk hk' => ?_⟩
  · rcases hold g with hsame | hnone
    · rw [hsame] at hg
      obtain ⟨hset, hmem⟩ := h.published g m handler k hg
      exact ⟨hhas m hset, hasked ▸ hmem⟩
    · exact absurd hg (hnone m handler k)
  · rw [hasked] at hk
    obtain ⟨hset, hlt⟩ := h.asked m k hk
    exact ⟨hhas m hset, Nat.lt_of_lt_of_le hlt hborn⟩
  · rw [hasked] at hk hk'
    exact h.once m k k' hk hk'

theorem register_registrations (host : Host) (b : Bridge) (method : String) (f : ℕ → Registration)
    (g : ℕ) : (b.register host method f).registrations g =
      if g = b.nextRegistration then f b.calls.nextCall else b.registrations g :=
  Function.update_apply ..

theorem registered_registrations (b : Bridge) (x g : ℕ) :
    (b.registered x).registrations g = if g = x then .idle else b.registrations g :=
  Function.update_apply ..

theorem resumeRegistration_cases (b : Bridge) (x : ℕ) :
    (b.registrations x = .idle ∧ b.resumeRegistration x = b) ∨
    (∃ method handler, b.resumeRegistration x =
      { b.registered x with providers := b.providers.set method handler } ∧
      ∀ m handler k, b.registrations x ≠ .onNotify m handler k) ∨
    (∃ method handler k v, b.registrations x = .onNotify method handler k ∧
      b.outcome k = some (.result v) ∧
      b.resumeRegistration x = (b.registered x).subscribe method handler) ∨
    (b.resumeRegistration x = b.registered x ∧ ∀ m handler k v,
      b.registrations x = .onNotify m handler k → b.outcome k ≠ some (.result v)) := by
  unfold resumeRegistration
  split
  next hx => exact Or.inl ⟨hx, rfl⟩
  next method handler k hx =>
    right
    split
    · exact Or.inl ⟨method, handler, rfl, by simp [hx]⟩
    · exact Or.inr (Or.inr ⟨rfl, by simp [hx]⟩)
  next method handler k hx =>
    right
    right
    split
    next v hv => exact Or.inl ⟨method, handler, k, v, hx, hv, rfl⟩
    next hnone =>
      refine Or.inr ⟨rfl, fun m handler' k' v hm hv => ?_⟩
      rw [hx] at hm
      cases hm
      exact hnone v hv

/-- The bridge with an empty set published for the method. -/
def published (b : Bridge) (method : String) : Bridge :=
  { b with notifyHandlers := b.notifyHandlers.set method [] }

theorem onNotify_cases (host : Host) (b : Bridge) (method : String) (handler : ℕ) :
    (b.notifyHandlers.has method = true ∧ b.onNotify host method handler = b.subscribe method handler) ∨
    (b.notifyHandlers.has method = false ∧ b.providers.has method = true ∧
      b.onNotify host method handler = (published b method).subscribe method handler) ∨
    (b.notifyHandlers.has method = false ∧ b.providers.has method = false ∧
      b.onNotify host method handler =
        (published b method).register host method (.onNotify method handler)) := by
  unfold onNotify
  split
  next l hl => exact Or.inl ⟨InsertMap.has_eq_true.mpr ⟨l, hl⟩, rfl⟩
  next hnone =>
    have hno := InsertMap.has_eq_false.mpr hnone
    right
    dsimp only
    split
    next hp => exact Or.inl ⟨hno, hp, rfl⟩
    next hp => exact Or.inr ⟨hno, Bool.eq_false_iff.mpr hp, rfl⟩

theorem subscribe_has (b : Bridge) (method : String) (handler : ℕ) (m : String) :
    (b.subscribe method handler).notifyHandlers.has m = true ↔
      method = m ∨ b.notifyHandlers.has m = true := InsertMap.has_set ..

theorem asks_registered {s : Subscriptions} {method : String} {handler : ℕ}
    (h : s.bridge.notifyHandlers.has method = true ∨ s.bridge.providers.has method = true) :
    s.asks (.onNotify method handler) = s.asked := by
  refine if_neg fun hnew => ?_
  rcases h with h | h
  · rw [hnew.1] at h
    contradiction
  · rw [hnew.2] at h
    contradiction

theorem recorded_onNotify {host : Host} {s : Subscriptions} (h : s.Recorded) (method : String)
    (handler : ℕ) : Recorded ⟨s.bridge.onNotify host method handler, s.asks (.onNotify method handler)⟩ := by
  rcases onNotify_cases host s.bridge method handler with
    ⟨hset, heq⟩ | ⟨hset, hp, heq⟩ | ⟨hset, hp, heq⟩
  · rw [asks_registered (Or.inl hset), heq]
    refine h.frame rfl (Nat.le_refl _) (fun m hm => ?_) (fun _ => Or.inl rfl) h.unborn
    exact (subscribe_has ..).mpr (Or.inr hm)
  · rw [asks_registered (Or.inr hp), heq]
    refine h.frame rfl (Nat.le_refl _) (fun m hm => ?_) (fun _ => Or.inl rfl) h.unborn
    exact (subscribe_has ..).mpr (Or.inr ((InsertMap.has_set ..).mpr (Or.inr hm)))
  · have hasks : s.asks (.onNotify method handler) =
        s.asked ++ [(method, s.bridge.calls.nextCall)] := if_pos ⟨hset, hp⟩
    have hnew : ∀ k, (method, k) ∉ s.asked := by
      intro k hk
      rw [(h.asked method k hk).1] at hset
      contradiction
    have hhas : ∀ m, ((published s.bridge method).register host method
        (.onNotify method handler)).notifyHandlers.has m = true ↔
        method = m ∨ s.bridge.notifyHandlers.has m = true := fun m => InsertMap.has_set ..
    have hreg := register_registrations host (published s.bridge method) method
      (.onNotify method handler)
    have hcall : s.bridge.calls.nextCall + 1 ≤ ((published s.bridge method).register host method
        (.onNotify method handler)).calls.nextCall :=
      (Calls.keeps_attempt host.mp (s.bridge.calls.invoke "$/register" [.str method] ⟨none, none⟩)
        s.bridge.calls.nextCall).born
    rw [hasks, heq]
    refine ⟨fun g hg => ?_, fun g m handler' k hg => ?_, fun m k hk => ?_, fun m k k' hk hk' => ?_⟩
    · have hlt : s.bridge.nextRegistration < g := hg
      dsimp only
      rw [hreg]
      exact (if_neg (Nat.ne_of_gt hlt)).trans (h.unborn g (Nat.le_of_lt hlt))
    · dsimp only at hg ⊢
      rw [hreg] at hg
      split at hg
      · cases hg
        exact ⟨(hhas _).mpr (Or.inl rfl), List.mem_append_right _ (List.mem_singleton.mpr rfl)⟩
      · obtain ⟨hset', hmem⟩ := h.published g m handler' k hg
        exact ⟨(hhas m).mpr (Or.inr hset'), List.mem_append_left _ hmem⟩
    · rcases List.mem_append.mp hk with hk | hk
      · obtain ⟨hset', hlt⟩ := h.asked m k hk
        exact ⟨(hhas m).mpr (Or.inr hset'), by dsimp only; omega⟩
      · rw [List.mem_singleton] at hk
        cases hk
        exact ⟨(hhas method).mpr (Or.inl rfl), hcall⟩
    · rcases List.mem_append.mp hk with hk | hk
      · rcases List.mem_append.mp hk' with hk' | hk'
        · exact h.once m k k' hk hk'
        · rw [List.mem_singleton] at hk'
          cases hk'
          exact absurd hk (hnew k)
      · rw [List.mem_singleton] at hk
        cases hk
        rcases List.mem_append.mp hk' with hk' | hk'
        · exact absurd hk' (hnew k')
        · rw [List.mem_singleton] at hk'
          cases hk'
          rfl

theorem unsubscribe_tables (b : Bridge) (method : String) (handler : ℕ) :
    (b.unsubscribe method handler).registrations = b.registrations ∧
      (b.unsubscribe method handler).nextRegistration = b.nextRegistration ∧
      (b.unsubscribe method handler).providers = b.providers ∧
      (b.unsubscribe method handler).calls = b.calls ∧
      ∀ m, (b.unsubscribe method handler).notifyHandlers.has m = b.notifyHandlers.has m := by
  unfold unsubscribe
  split
  · exact ⟨rfl, rfl, rfl, rfl, fun _ => rfl⟩
  next l hl =>
    refine ⟨rfl, rfl, rfl, rfl, fun m => ?_⟩
    rw [Bool.eq_iff_iff]
    refine (InsertMap.has_set ..).trans ⟨fun hor => ?_, Or.inr⟩
    rcases hor with hm | hm
    · rw [← hm]
      exact InsertMap.has_eq_true.mpr ⟨l, hl⟩
    · exact hm

theorem recorded_apply {host : Host} {s : Subscriptions} (h : s.Recorded) {e : Event}
    (he : s.bridge.enabled e = true) : Recorded ⟨s.bridge.apply host e, s.asks e⟩ := by
  have hborn := (keeps_step host he).born
  cases hfiles : e.files with
  | false =>
    have htables := sameTables_apply host s.bridge hfiles
    have hasks : s.asks e = s.asked := by
      cases e <;> first | rfl | contradiction
    refine h.frame hasks hborn (fun m hm => ?_) (fun g => Or.inl ?_) fun g hg => ?_
    · dsimp only
      rw [htables.notifyHandlers]
      exact hm
    · dsimp only
      rw [htables.registrations]
    · dsimp only at hg ⊢
      rw [htables.nextRegistration] at hg
      rw [htables.registrations]
      exact h.unborn g hg
  | true =>
    cases e with
    | provide method handler =>
      change Recorded ⟨s.bridge.provide host method handler, s.asked⟩
      have hprovide : s.bridge.calls.nextCall ≤ (s.bridge.provide host method handler).calls.nextCall :=
        hborn
      unfold provide at hprovide ⊢
      split
      · exact h.frame rfl (Nat.le_refl _) (fun _ hm => hm) (fun _ => Or.inl rfl) h.unborn
      next hp =>
        rw [if_neg hp] at hprovide
        have hreg := register_registrations host s.bridge method (.provide method handler)
        refine h.frame rfl hprovide (fun _ hm => hm) (fun g => ?_) fun g hg => ?_
        · dsimp only
          rw [hreg]
          split
          · exact Or.inr (by simp)
          · exact Or.inl rfl
        · have hlt : s.bridge.nextRegistration < g := hg
          dsimp only
          rw [hreg, if_neg (Nat.ne_of_gt hlt)]
          exact h.unborn g (Nat.le_of_lt hlt)
    | onNotify method handler => exact recorded_onNotify h method handler
    | unsubscribe method handler =>
      obtain ⟨hreg, hnext, -, -, hhas⟩ := unsubscribe_tables s.bridge method handler
      refine h.frame rfl hborn (fun m hm => (hhas m).trans hm) (fun g => Or.inl ?_) fun g hg => ?_
      · exact congrFun hreg g
      · have hle : s.bridge.nextRegistration ≤ g := hnext ▸ hg
        exact (congrFun hreg g).trans (h.unborn g hle)
    | resumeRegistration x =>
      change Recorded ⟨s.bridge.resumeRegistration x, s.asked⟩
      have hregistered : Recorded ⟨s.bridge.registered x, s.asked⟩ := by
        refine h.frame rfl (Nat.le_refl _) (fun _ hm => hm) (fun g => ?_) fun g hg => ?_
        · dsimp only
          rw [registered_registrations]
          split
          · exact Or.inr (by simp)
          · exact Or.inl rfl
        · dsimp only
          rw [registered_registrations]
          split
          · rfl
          · exact h.unborn g hg
      rcases resumeRegistration_cases s.bridge x with ⟨-, heq⟩ | ⟨m, handler, heq, -⟩ |
        ⟨m, handler, k, v, -, -, heq⟩ | ⟨heq, -⟩
      · rw [heq]
        exact h
      · rw [heq]
        exact hregistered.frame rfl (Nat.le_refl _) (fun _ hm => hm) (fun _ => Or.inl rfl)
          hregistered.unborn
      · rw [heq]
        exact hregistered.frame rfl (Nat.le_refl _)
          (fun _ hm => (subscribe_has ..).mpr (Or.inr hm)) (fun _ => Or.inl rfl) hregistered.unborn
      · rw [heq]
        exact hregistered
    | _ => contradiction

theorem Acknowledged.keep {s t : Subscriptions} {m : String} (h : s.Acknowledged m)
    (hasked : ∀ k, (m, k) ∈ s.asked → (m, k) ∈ t.asked)
    (hkeeps : s.bridge.calls.Keeps t.bridge.calls) : t.Acknowledged m := by
  obtain ⟨k, hk, hack⟩ := h
  exact ⟨k, hasked k hk, hkeeps.acknowledged hack⟩

theorem asked_prefix (s : Subscriptions) (e : Event) {p : String × ℕ} (h : p ∈ s.asked) :
    p ∈ s.asks e := by
  unfold asks
  split
  · split
    · exact List.mem_append_left _ h
    · exact h
  · exact h

theorem Backed.frame {s t : Subscriptions} (h : s.Backed)
    (hhas : ∀ m, t.bridge.notifyHandlers.has m = true → s.bridge.notifyHandlers.has m = true ∨
      t.bridge.providers.has m = true ∨
      (∃ g handler k, t.bridge.registrations g = .onNotify m handler k) ∨ t.Acknowledged m)
    (hproviders : ∀ m, s.bridge.providers.has m = true → t.bridge.providers.has m = true)
    (hreg : ∀ g m handler k, s.bridge.registrations g = .onNotify m handler k →
      t.bridge.registrations g = .onNotify m handler k ∨ t.Acknowledged m)
    (hack : ∀ m, s.Acknowledged m → t.Acknowledged m) : t.Backed := by
  intro m hm
  rcases hhas m hm with hold | hnew
  · rcases h m hold with hp | ⟨g, handler, k, hg⟩ | ha
    · exact Or.inl (hproviders m hp)
    · rcases hreg g m handler k hg with hsame | ha
      · exact Or.inr (Or.inl ⟨g, handler, k, hsame⟩)
      · exact Or.inr (Or.inr ha)
    · exact Or.inr (Or.inr (hack m ha))
  · exact hnew

theorem backed_onNotify {host : Host} {s : Subscriptions} (hr : s.Recorded) (h : s.Backed)
    (method : String) (handler : ℕ)
    (hack : ∀ m, s.Acknowledged m → Acknowledged
      ⟨s.bridge.onNotify host method handler, s.asks (.onNotify method handler)⟩ m) :
    Backed ⟨s.bridge.onNotify host method handler, s.asks (.onNotify method handler)⟩ := by
  rcases onNotify_cases host s.bridge method handler with
    ⟨hset, heq⟩ | ⟨hset, hp, heq⟩ | ⟨hset, hp, heq⟩
  all_goals rw [heq] at hack ⊢
  · refine h.frame (fun m hm => ?_) (fun _ hm => hm) (fun _ _ _ _ hg => Or.inl hg) hack
    rcases (subscribe_has ..).mp hm with hm | hm
    · exact Or.inl (hm ▸ hset)
    · exact Or.inl hm
  · refine h.frame (fun m hm => ?_) (fun _ hm => hm) (fun _ _ _ _ hg => Or.inl hg) hack
    have hm' : method = m ∨ method = m ∨ s.bridge.notifyHandlers.has m = true :=
      ((subscribe_has ..).mp hm).imp_right (InsertMap.has_set ..).mp
    rcases hm' with hm | hm | hm
    · exact Or.inr (Or.inl (hm ▸ hp))
    · exact Or.inr (Or.inl (hm ▸ hp))
    · exact Or.inl hm
  · have hreg := register_registrations host (published s.bridge method) method
      (.onNotify method handler)
    refine h.frame (fun m hm => ?_) (fun _ hm => hm) (fun g m handler' k hg => ?_) hack
    · rcases (InsertMap.has_set ..).mp hm with hm | hm
      · subst hm
        exact Or.inr (Or.inr (Or.inl ⟨_, handler, _, (hreg _).trans (if_pos rfl)⟩))
      · exact Or.inl hm
    · left
      dsimp only
      rw [hreg, if_neg]
      · exact hg
      · intro hnew
        rw [hr.unborn g (Nat.le_of_eq hnew.symm)] at hg
        contradiction

theorem backed_resumeRegistration {s : Subscriptions} (hr : s.Recorded) (h : s.Backed)
    (hi : s.bridge.calls.Inv) {x : ℕ} (hready : s.bridge.registrationReady x = true)
    (hok : ∀ t, Registers s (.resumeRegistration x) t) :
    Backed ⟨s.bridge.resumeRegistration x, s.asked⟩ := by
  -- The registration that ends here has been acknowledged, as it has not failed.
  have hends : ∀ m handler k, s.bridge.registrations x = .onNotify m handler k → s.Acknowledged m := by
    intro m handler k hx
    have hg := hok s
    unfold Registers at hg
    unfold registrationReady at hready
    dsimp only at hg
    rw [hx] at hg hready
    dsimp only at hg hready
    obtain ⟨r, hout⟩ := Option.isSome_iff_exists.mp hready
    rw [hout] at hg
    cases r with
    | result v =>
      refine ⟨k, (hr.published x m handler k hx).2, ?_⟩
      unfold outcome at hout
      split at hout
      next r hpc =>
        cases hout
        exact Calls.acknowledged_of_result hi hpc
      · contradiction
    | failure err => exact hg.elim
  have hregistered : Backed ⟨s.bridge.registered x, s.asked⟩ := by
    refine h.frame (fun _ hm => Or.inl hm) (fun _ hm => hm) (fun g m handler k hg => ?_)
      fun _ ha => ha
    by_cases hgx : g = x
    · exact Or.inr (hends m handler k (hgx ▸ hg))
    · left
      dsimp only
      rw [registered_registrations, if_neg hgx]
      exact hg
  rcases resumeRegistration_cases s.bridge x with ⟨-, heq⟩ | ⟨m, handler, heq, -⟩ |
    ⟨m, handler, k, v, hx, -, heq⟩ | ⟨heq, -⟩
  all_goals rw [heq]
  · exact h
  · exact hregistered.frame (fun _ hm => Or.inl hm)
      (fun _ hm => (InsertMap.has_set ..).mpr (Or.inr hm)) (fun _ _ _ _ hg => Or.inl hg)
      fun _ ha => ha
  · refine hregistered.frame (fun m' hm => ?_) (fun _ hm => hm) (fun _ _ _ _ hg => Or.inl hg)
      fun _ ha => ha
    rcases (subscribe_has ..).mp hm with hm | hm
    · subst hm
      exact Or.inl (hr.published x m handler k hx).1
    · exact Or.inl hm
  · exact hregistered

theorem backed_apply {host : Host} {s : Subscriptions} (hr : s.Recorded) (h : s.Backed)
    (hi : s.bridge.calls.Inv) {e : Event} (he : s.bridge.enabled e = true)
    (hok : ∀ t, Registers s e t) : Backed ⟨s.bridge.apply host e, s.asks e⟩ := by
  have hack : ∀ m, s.Acknowledged m → Acknowledged ⟨s.bridge.apply host e, s.asks e⟩ m :=
    fun m ha => ha.keep (fun k hk => asked_prefix s e hk) (keeps_step host he)
  cases hfiles : e.files with
  | false =>
    have htables := sameTables_apply host s.bridge hfiles
    refine h.frame (fun m hm => Or.inl ?_) (fun m hm => ?_) (fun g m handler k hg => Or.inl ?_) hack
    · dsimp only at hm
      rw [htables.notifyHandlers] at hm
      exact hm
    · dsimp only
      rw [htables.providers]
      exact hm
    · dsimp only
      rw [htables.registrations]
      exact hg
  | true =>
    cases e with
    | provide method handler =>
      change Backed ⟨s.bridge.provide host method handler, s.asked⟩
      change ∀ m, s.Acknowledged m → Acknowledged ⟨s.bridge.provide host method handler, s.asked⟩ m
        at hack
      unfold provide at hack ⊢
      split
      next hp =>
        rw [if_pos hp] at hack
        exact h.frame (fun _ hm => Or.inl hm) (fun _ hm => (InsertMap.has_set ..).mpr (Or.inr hm))
          (fun _ _ _ _ hg => Or.inl hg) hack
      next hp =>
        rw [if_neg hp] at hack
        have hreg := register_registrations host s.bridge method (.provide method handler)
        refine h.frame (fun _ hm => Or.inl hm) (fun _ hm => hm) (fun g m handler' k hg => Or.inl ?_) hack
        dsimp only
        rw [hreg, if_neg]
        · exact hg
        · intro hnew
          rw [hr.unborn g (Nat.le_of_eq hnew.symm)] at hg
          contradiction
    | onNotify method handler => exact backed_onNotify hr h method handler hack
    | unsubscribe method handler =>
      obtain ⟨hreg, -, hproviders, -, hhas⟩ := unsubscribe_tables s.bridge method handler
      refine h.frame (fun m hm => Or.inl ((hhas m).symm.trans hm)) (fun m hm => ?_)
        (fun g m handler' k hg => Or.inl ((congrFun hreg g).trans hg)) hack
      exact (congrArg (·.has m) hproviders).trans hm
    | resumeRegistration x =>
      have hx : s.bridge.quiet = true ∧ s.bridge.registrationReady x = true := by
        simpa [enabled] using he
      exact backed_resumeRegistration hr h hi hx.2 hok
    | _ => contradiction

/-! ### Runs -/

theorem step_eq {host : Host} {s t : Subscriptions} {e : Event} (hs : (machine host).step s e = some t) :
    s.bridge.enabled e = true ∧ t = ⟨s.bridge.apply host e, s.asks e⟩ := by
  obtain ⟨he, ht⟩ := Machine.ofEnabled_map.mp hs
  exact ⟨he, ht.symm⟩

theorem step_of_enabled {host : Host} {s : Subscriptions} {e : Event} (he : s.bridge.enabled e = true) :
    (machine host).step s e = some ⟨s.bridge.apply host e, s.asks e⟩ :=
  Machine.ofEnabled_map.mpr ⟨he, rfl⟩

theorem bridge_reach {host : Host} {ok : Guard Subscriptions Event} {s : Subscriptions}
    (h : (machine host).Reach ok s) : (Bridge.machine host).Reach always s.bridge := by
  refine h.carried Subscriptions.bridge (fun u hu => ?_) fun u e v hs => ?_
  · have hu : u = initial := hu
    rw [hu]
    rfl
  · obtain ⟨he, rfl⟩ := step_eq hs
    exact Machine.ofEnabled_step.mpr ⟨he, rfl⟩

theorem recorded_reach {host : Host} {ok : Guard Subscriptions Event} {s : Subscriptions}
    (h : (machine host).Reach ok s) : s.Recorded := by
  refine h.invariant (P := Recorded) (fun u hu => ?_) fun u e v _ hr hs _ => ?_
  · have hu : u = initial := hu
    rw [hu]
    exact recorded_initial
  · obtain ⟨he, rfl⟩ := step_eq hs
    exact recorded_apply hr he

theorem backed_reach {host : Host} {s : Subscriptions} (h : (machine host).Reach Registers s) :
    s.Backed := by
  refine h.invariant (P := Backed) (fun u hu => ?_) fun u e v hu hb hs hok => ?_
  · have hu : u = initial := hu
    rw [hu]
    exact backed_initial
  · obtain ⟨he, rfl⟩ := step_eq hs
    exact backed_apply (recorded_reach hu) hb (calls_inv (bridge_reach hu)) he fun _ => hok

theorem rejects_published {s : Subscriptions} (hr : s.Recorded) {e : Event} {method : String}
    (h : method ∈ s.rejects e) : ∃ g handler k err, e = .resumeRegistration g ∧
      s.bridge.registrations g = .onNotify method handler k ∧
      s.bridge.outcome k = some (.failure err) ∧ s.bridge.notifyHandlers.has method = true := by
  unfold rejects at h
  split at h
  next g =>
    split at h
    next m handler k hg =>
      split at h
      next err hk =>
        cases h
        exact ⟨g, handler, k, err, rfl, hg, hk, (hr.published g _ handler k hg).1⟩
      · contradiction
    · contradiction
  · contradiction

theorem resolved_of_registers {s t : Subscriptions} {e : Event} (hr : s.Recorded) (hb : s.Backed)
    (hi : s.bridge.calls.Inv) (hok : Registers s e t) : ∀ m ∈ s.resolves e, s.Acknowledged m := by
  intro m hm
  cases e with
  | onNotify method handler =>
    unfold resolves at hm
    dsimp only at hm
    split at hm
    next hset =>
      have hm : method = m := Option.some.inj hm
      subst hm
      rcases hb method hset.2 with hp | ⟨g, handler', k, hg⟩ | ha
      · rw [hset.1] at hp
        contradiction
      · have hlt : g < s.bridge.nextRegistration := by
          by_contra hge
          rw [hr.unborn g (Nat.le_of_not_lt hge)] at hg
          contradiction
        have hack := hok hset.1 g hlt
        rw [hg] at hack
        exact ⟨k, (hr.published g method handler' k hg).2, hack rfl⟩
      · exact ha
    · contradiction
  | resumeRegistration g =>
    unfold resolves at hm
    dsimp only at hm
    split at hm
    next method handler k hg =>
      split at hm
      next v hk =>
        have hm : method = m := Option.some.inj hm
        subst hm
        refine ⟨k, (hr.published g method handler k hg).2, ?_⟩
        unfold outcome at hk
        split at hk
        next r hpc =>
          cases hk
          exact Calls.acknowledged_of_result hi hpc
        · contradiction
      · contradiction
    · contradiction
  | _ => contradiction

theorem registers_resume_iff {s t : Subscriptions} {g : ℕ} :
    Registers s (.resumeRegistration g) t ↔ s.rejects (.resumeRegistration g) = none := by
  unfold Registers rejects
  dsimp only
  cases s.bridge.registrations g with
  | onNotify method handler k =>
    dsimp only
    generalize s.bridge.outcome k = r
    rcases r with _ | _ | _ <;> simp
  | _ => simp

/-- A set is never taken out again. -/
theorem resumeRegistration_has (b : Bridge) (x : ℕ) {m : String}
    (h : b.notifyHandlers.has m = true) : (b.resumeRegistration x).notifyHandlers.has m = true := by
  rcases resumeRegistration_cases b x with ⟨-, heq⟩ | ⟨m', handler, heq, -⟩ |
    ⟨m', handler, k, v, -, -, heq⟩ | ⟨heq, -⟩
  all_goals rw [heq]
  · exact h
  · exact h
  · exact (subscribe_has ..).mpr (Or.inr h)
  · exact h

/-- In a run that has met the condition so far, a step is all or nothing exactly when it meets it. -/
theorem allOrNothing_iff (host : Host) {s t : Subscriptions} {e : Event}
    (h : (machine host).Reach Registers s) (hs : (machine host).step s e = some t) :
    s.AllOrNothing e t ↔ Registers s e t := by
  have hr := recorded_reach h
  have hi := calls_inv (bridge_reach h)
  obtain ⟨he, rfl⟩ := step_eq hs
  constructor
  · intro hall
    cases e with
    | onNotify method handler =>
      intro hp g hlt
      cases hg : s.bridge.registrations g with
      | onNotify method' handler' k =>
        intro hm
        subst hm
        obtain ⟨hset, hk⟩ := hr.published g method' handler' k hg
        obtain ⟨k', hk', hack⟩ := hall.resolved method' (if_pos ⟨hp, hset⟩)
        rw [hr.once method' k k' hk hk']
        exact hack
      | _ => trivial
    | resumeRegistration g =>
      rw [registers_resume_iff]
      cases hm : s.rejects (.resumeRegistration g) with
      | none => rfl
      | some method =>
        obtain ⟨-, -, -, -, -, -, -, hset⟩ := rejects_published hr hm
        have hnone := hall.rejected method hm
        rw [← InsertMap.has_eq_false] at hnone
        have hset' := resumeRegistration_has s.bridge g hset
        rw [show (s.bridge.resumeRegistration g).notifyHandlers.has method = false from hnone] at hset'
        contradiction
    | _ => trivial
  · intro hok
    refine ⟨resolved_of_registers hr (backed_reach h) hi hok, fun m hm => ?_⟩
    obtain ⟨g, -, -, -, rfl, -⟩ := rejects_published hr hm
    rw [registers_resume_iff.mp hok] at hm
    contradiction

/-- The router answers the `$/register` of the first subscriber, and then a second one comes. -/
def sharedRun : List Event :=
  [.onNotify "button" 7, .data 0 [0x94, 1, 1, 0xc0, 0xc3], .dispatch none, .resumeCall 0,
    .resumeRegistration 0]

def sharedState : Subscriptions := (machine referenceHost).after Registers initial sharedRun

theorem sharedRun_acknowledged :
    sharedState.resolves (.onNotify "button" 8) = some "button" ∧ sharedState.Acknowledged "button" := by
  have hreach : (machine referenceHost).Reach Registers sharedState :=
    (Machine.Reach.init rfl).after sharedRun
  have hstep : (machine referenceHost).step sharedState (.onNotify "button" 8) = some
      ⟨sharedState.bridge.apply referenceHost (.onNotify "button" 8),
        sharedState.asks (.onNotify "button" 8)⟩ := step_of_enabled rfl
  have hresolves : sharedState.resolves (.onNotify "button" 8) = some "button" := by decide +kernel
  exact ⟨hresolves, ((allOrNothing_iff referenceHost hreach hstep).mpr (by decide +kernel)).resolved
    "button" hresolves⟩

/-- The router turns the `$/register` of the first subscriber down. -/
def refusedRun : List Event :=
  [.onNotify "button" 7, .data 0 [0x94, 1, 1, 0xa2, 110, 111, 0xc0], .dispatch none, .resumeCall 0]

def refusedState : Subscriptions := (machine referenceHost).after always initial refusedRun

/-- The rejected call leaves its set behind, and the next subscriber takes it for a registered one. -/
theorem refusedRun_published : ¬ ∀ (host : Host) (s t : Subscriptions) (e : Event),
    (machine host).Reach always s → (machine host).step s e = some t → s.AllOrNothing e t := by
  intro hall
  have hreach : (machine referenceHost).Reach always refusedState :=
    (Machine.Reach.init rfl).after refusedRun
  have hstep : (machine referenceHost).step refusedState (.resumeRegistration 0) = some
      ⟨refusedState.bridge.apply referenceHost (.resumeRegistration 0),
        refusedState.asks (.resumeRegistration 0)⟩ := step_of_enabled (by decide +kernel)
  have hnone := (hall referenceHost _ _ _ hreach hstep).rejected "button" (by decide +kernel)
  have hsome : (refusedState.bridge.apply referenceHost
      (.resumeRegistration 0)).notifyHandlers.get "button" ≠ none := by decide +kernel
  exact hsome hnone

end Subscriptions

end UnoQ.Client
