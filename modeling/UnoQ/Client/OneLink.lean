import UnoQ.Client.Inbound
import UnoQ.Client.Lifecycle
import UnoQ.Lib.Counting

/-!
# One link

A bridge is to be on one link at a time: a connection, a `connect()` in progress, or its reconnect timer,
whatever becomes of earlier reconnect attempts, which may still be in their replay, and after `close()`.
The one step that can put a second beside the first is the `catch` of `doReconnect` after a replay that
threw: it schedules an attempt without a look at the connection. It gets there when an 'error' listener was
attached since the throw.
-/

namespace UnoQ.Client
open Codec Transition

namespace Link

def opens (l : Link) (c : ℕ) : Bool := (l.conns c).status = .opened

/-- How many connections are open, plus the `connect()` calls in progress, plus the armed timer. -/
def links (l : Link) : ℕ :=
  Nat.count (fun c => l.opens c = true) l.nextConn + l.dialing.length +
    l.reconnectTimer.isSome.toNat

structure OneLink (l : Link) : Prop where
  counted : ∀ c, l.IsOpen c → c < l.nextConn
  one : l.links ≤ 1

theorem opens_iff (l : Link) (c : ℕ) : l.opens c = true ↔ l.IsOpen c := by
  simp [opens, IsOpen]

theorem Inv.oneLink {l : Link} (hi : l.Inv) (hs : l.Single) (h : l.Lone) : l.OneLink := by
  refine ⟨fun c => hi.lt_nextConn, ?_⟩
  unfold links
  by_cases hc : ∃ c, l.IsOpen c
  · obtain ⟨c, hc⟩ := hc
    obtain ⟨hdialing, htimer⟩ := h.alone c hc
    have hcount := Counting.count_le_one (p := l.opens)
      (fun x y hx hy => hs.single x y ((l.opens_iff x).mp hx) ((l.opens_iff y).mp hy)) l.nextConn
    rw [hdialing, htimer]
    exact hcount
  · have hzero : Nat.count (fun c => l.opens c = true) l.nextConn = 0 :=
      Counting.count_eq_zero fun c _ => by
        by_contra hopened
        exact hc ⟨c, by simpa [opens, IsOpen] using hopened⟩
    rw [hzero, Nat.zero_add]
    cases htimer : l.reconnectTimer with
    | none => exact h.dials
    | some due =>
      have hdialing := h.armed (by simp [htimer])
      rw [hdialing]
      exact Nat.le_refl 1

/-- An armed timer leaves room for nothing else. -/
theorem OneLink.vacant {l : Link} (h : l.OneLink) (harmed : l.reconnectTimer ≠ none) :
    l.NoneOpen ∧ l.dialing = [] := by
  have hone := h.one
  obtain ⟨due, hdue⟩ := Option.ne_none_iff_exists'.mp harmed
  unfold links at hone
  rw [hdue, Option.isSome_some, Bool.toNat_true] at hone
  have hcount : Nat.count (fun c => l.opens c = true) l.nextConn = 0 := by omega
  refine ⟨fun c hc hopen => ?_, List.length_eq_zero_iff.mp (by omega)⟩
  have hclosed := Counting.not_of_count_eq_zero hcount hc
  rw [(l.opens_iff c).mpr hopen] at hclosed
  contradiction

end Link

namespace Service

/-- The `catch` of `doReconnect` that comes to arm the timer finds no connection open and no `connect()`
in progress. -/
def Vacant (w : Service) : Event → Prop
  | .caught _ listener => listener = true → w.link.closedByUs = false → w.link.reconnectTimer = none →
      w.link.NoneOpen ∧ w.link.dialing = []
  | _ => True

theorem oneByOne_of_lone {w : Service} (hi : w.link.Inv) (h : w.link.Lone) {e : Event}
    (he : w.enabled e = true) : w.OneByOne e := by
  cases e with
  | opened r => exact hi.noneOpen_iff.mpr (h.noneOpen (of_decide_eq_true he))
  | _ => trivial

theorem lone_apply {mp : Msgpack} {options : ReconnectOptions} {w : Service} (hi : w.link.Inv)
    (hs : w.link.Single) (h : w.link.Lone) {e : Event} (he : w.enabled e = true) (hg : w.Vacant e) :
    (w.apply mp options e).link.Lone := by
  refine Link.lone_sends ?_ (sends_apply mp options w e)
  cases e with
  | shut connected => exact ⟨fun c hc => ⟨(h.alone c hc).1, rfl⟩, fun hn => absurd rfl hn, h.dials⟩
  | close => exact Link.lone_close h
  | doReconnect r => exact Link.lone_doReconnect h (Option.isSome_iff_ne_none.mp he) r
  | opened r => exact Link.lone_opened h (of_decide_eq_true he)
  | refused r now listener => exact Link.lone_refused h options now (of_decide_eq_true he) listener
  | caught now listener =>
    refine Link.lone_caught h options now fun hl hc ht => ?_
    exact ⟨hi.noneOpen_iff.mp (hg hl hc ht).1, (hg hl hc ht).2⟩
  | reconnected => exact ⟨h.alone, h.armed, h.dials⟩
  | closed c now => exact Link.lone_closed hs h options now (of_decide_eq_true he)
  | broken c destroyed => exact Link.lone_broken h c destroyed
  | _ => exact h

theorem lone_reach {mp : Msgpack} {options : ReconnectOptions} {w : Service}
    (h : (machine mp options).Reach (fun w e _ => w.Vacant e) w) : w.link.Single ∧ w.link.Lone := by
  refine h.invariant (P := fun w => w.link.Single ∧ w.link.Lone) ?_ ?_
  · rintro w rfl
    exact ⟨Link.single_initial, Link.lone_initial⟩
  · intro w e v hr hboth hs hg
    obtain ⟨he, rfl⟩ := Machine.ofEnabled_step.mp hs
    have hi := (inv_reach hr).link
    exact ⟨single_apply hi hboth.1 he (oneByOne_of_lone hi hboth.2 he),
      lone_apply hi hboth.1 hboth.2 he hg⟩

end Service

namespace Bridge

/-- When the `catch` of `doReconnect`, after a replay that threw, comes to schedule an attempt (there is
an 'error' listener by then, `close()` was not called and the timer is not armed), no connection is open
and no `connect()` in progress. -/
def CatchesVacant : Guard Bridge Event := fun s e _ =>
  match e with
  | .resumeReplay r => s.replays r = .threw →
      s.service.Vacant (.caught s.calls.now s.errorListener)
  | _ => True

instance (s : Bridge) : ∀ (e : Event) (t : Bridge), Decidable (CatchesVacant s e t) := by
  rintro (_ | _) t <;> dsimp only [CatchesVacant, Service.Vacant] <;> infer_instance

theorem catchesVacant_governs (host : Host) : Governs host CatchesVacant fun w e _ => w.Vacant e where
  plain w e v he := by
    cases e with
    | caught now listener => contradiction
    | _ => trivial
  settle _ _ _ _ _ := trivial
  shut _ _ _ := trivial
  close _ _ _ _ := trivial
  resumeClose _ _ _ _ _ _ := trivial
  opened _ _ _ _ := trivial
  caught _ _ _ hg hr := hg hr
  closed _ _ _ _ := trivial
  broken _ _ _ _ _ := trivial

theorem lone_reach {host : Host} {s : Bridge} (h : (machine host).Reach CatchesVacant s) :
    s.service.link.Single ∧ s.service.link.Lone :=
  Service.lone_reach (serviceRun_reach (catchesVacant_governs host) h)

/-- A `connect()` that begins with nothing else about resolves with no connection open. -/
theorem oneByOne_reach {host : Host} {s : Bridge} (h : (machine host).Reach CatchesVacant s) :
    (machine host).Reach OneByOne s := by
  induction h with
  | init hi => exact .init hi
  | @step s e t hs hstep hg ih =>
    refine ih.step hstep ?_
    obtain ⟨he, -⟩ := Machine.ofEnabled_step.mp hstep
    cases e with
    | opened r =>
      have hidle : s.idle = true ∧ s.service.enabled (.opened r) = true := by
        simpa [enabled, Service.enabled] using he
      exact Service.oneByOne_of_lone (service_inv hs).link (lone_reach hs).2 hidle.2
    | _ => trivial

theorem oneLink_of_catchesVacant (host : Host) {s : Bridge}
    (h : (machine host).Reach CatchesVacant s) : s.service.link.OneLink :=
  (service_inv h).link.oneLink (lone_reach h).1 (lone_reach h).2

/-- Two methods are provided, and the connection is lost; it is lost once more when the replay awaits
its first answer, and the next attempt is under way before the replay has noticed. -/
def interruptedRun : List Event :=
  providing ++ [.provide "g" 8, .data 0 [0x94, 1, 2, 0xc0, 0xc3], .dispatch none, .resumeCall 1,
    .resumeRegistration 1, .listen true] ++ reconnecting ++
    [.broken 1 true, .closed 1, .tick 200, .reconnectTimer, .resumeCall 2, .resumeReplay 0]

def interruptedState : Bridge := (machine referenceHost).after CatchesVacant initial interruptedRun

theorem interruptedRun_oneLink : interruptedState.replays 0 ≠ .idle ∧
    interruptedState.service.link.dialing = [1] ∧ interruptedState.service.link.OneLink :=
  ⟨by decide +kernel, by decide +kernel,
    oneLink_of_catchesVacant referenceHost ((Machine.Reach.init rfl).after interruptedRun)⟩

/-- A step against the condition breaks the claim at once. -/
theorem not_oneLink_of_caught {host : Host} {s : Bridge} {r : ℕ}
    (hr : s.replays r = .threw) (hg : ¬ CatchesVacant s (.resumeReplay r) (s.resumeReplay host r)) :
    ¬ (s.resumeReplay host r).service.link.OneLink := by
  intro hone
  refine hg fun _ hl hc ht => ?_
  have hstep : (s.resumeReplay host r).service.link =
      s.service.link.caught host.options s.calls.now s.errorListener := by
    unfold resumeReplay
    rw [hr]
    rfl
  have harmed : (s.service.link.caught host.options s.calls.now s.errorListener).reconnectTimer ≠ none := by
    simp [Link.caught, Link.scheduleReconnect, hl, hc, ht]
  rw [hstep] at hone
  obtain ⟨hnone, hd⟩ := hone.vacant harmed
  rw [Link.caught_eq] at hnone hd
  exact ⟨hnone, hd⟩

/-- The router refuses the `$/register` of a replay, and answers a call of the user's, who then listens
for 'error', in one chunk. The next attempt is made beside the connection. -/
def doubledRun : List Event :=
  providing ++ reconnecting ++
    [.callWithOptions "read" [] ⟨none, none⟩,
      .data 1 [0x94, 1, 2, 0xa2, 110, 111, 0xc0, 0x94, 1, 3, 0xc0, 0xc3], .dispatch none, .dispatch none,
      .resumeCall 1, .resumeReplay 0, .resumeCall 2, .listen true, .resumeReplay 0, .tick 200,
      .reconnectTimer, .opened 1]

def doubledState : Bridge := (machine referenceHost).after always initial doubledRun

theorem doubledRun_twoLinks : doubledState.service.link.IsOpen 1 ∧ doubledState.service.link.IsOpen 2 ∧
    ¬ ∀ s : Bridge, (machine referenceHost).Reach always s → s.service.link.OneLink := by
  refine ⟨by decide +kernel, by decide +kernel, fun hall => ?_⟩
  have hone := (hall doubledState ((Machine.Reach.init rfl).after doubledRun)).one
  exact absurd hone (by decide +kernel)

end Bridge

end UnoQ.Client
