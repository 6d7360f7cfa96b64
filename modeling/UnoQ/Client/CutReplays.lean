import UnoQ.Client.Replays

/-!
# Replays that were cut

The other side of what a replay needs: once its connection has ended while a replay awaits an answer on
it, whatever happens later, the 'reconnect' of that replay comes without the methods being registered on
the connection, if it comes.
-/

namespace UnoQ.Client
open Codec Transition

theorem Link.closed_status (options : ReconnectOptions) (now : ℤ) (l : Link) (d c : ℕ) :
    ((l.closed options now d).conns c).status = if c = d then .closed else (l.conns c).status := by
  rw [Link.closed_eq]
  dsimp only
  rw [Function.update_apply]
  split
  · rfl
  · rfl

namespace Bridge

/-- A connection is born, and ends, once. -/
theorem status_moves {host : Host} {s u : Bridge} {e : Event} (hi : s.service.link.Inv)
    (hm : Moves host s e u) (c : ℕ) :
    (u.service.link.conns c).status = (s.service.link.conns c).status ∨
      (s.service.link.conns c).status = .absent ∨ (u.service.link.conns c).status = .closed := by
  cases hm with
  | shut hdown =>
    rw [closeTransport_link]
    exact Or.inl (Link.close_conns _ c).1
  | tearDown x k hx =>
    rw [closeTransport_link]
    exact Or.inl (Link.close_conns _ c).1
  | broken d destroyed hidle hd => exact Or.inl (s.service.link.broken_status d c destroyed)
  | closed d hidle hd =>
    have hstatus := Link.closed_status host.options s.calls.now s.service.link d c
    by_cases hcd : c = d
    · rw [if_pos hcd] at hstatus
      exact Or.inr (Or.inr hstatus)
    · rw [if_neg hcd] at hstatus
      exact Or.inl hstatus
  | opened r hidle hr =>
    by_cases hnew : c = s.service.link.nextConn
    · exact Or.inr (Or.inl (hi.unborn c (Nat.le_of_eq hnew.symm)))
    · exact Or.inl (congrArg Conn.status (Function.update_of_ne hnew _ _))
  | refused r hidle hr =>
    refine Or.inl ?_
    change ((s.service.link.refused host.options s.calls.now r s.errorListener).conns c).status = _
    rw [Link.refused_eq]
  | caught r hr =>
    refine Or.inl ?_
    change ((s.service.link.caught host.options s.calls.now s.errorListener).conns c).status = _
    rw [Link.caught_eq]
  | _ => exact Or.inl rfl

theorem status_apply (host : Host) {s : Bridge} {e : Event} (hi : s.service.link.Inv)
    (he : s.enabled e = true) (c : ℕ) :
    ((s.apply host e).service.link.conns c).status = (s.service.link.conns c).status ∨
      (s.service.link.conns c).status = .absent ∨
      ((s.apply host e).service.link.conns c).status = .closed := by
  obtain ⟨u, hm, hp⟩ := moves_apply host he
  rw [hp.link_eq]
  exact status_moves hi hm c

/-! ### An attempt connects once -/

/-- The reconnect attempts that are still to connect are distinct, and have no replay yet. -/
structure Unopened (s : Bridge) : Prop where
  idle : ∀ r ∈ s.service.link.dialing, s.replays r = .idle
  nodup : s.service.link.dialing.Nodup

theorem dialing_moves {host : Host} {s u : Bridge} {e : Event} (hm : Moves host s e u) :
    u.service.link.dialing = s.service.link.dialing ∨
      (∃ x, u.service.link.dialing = s.service.link.dialing.erase x) ∨
      u.service.link.dialing = s.nextReplay :: s.service.link.dialing := by
  cases hm with
  | shut hc =>
    rw [closeTransport_link, Link.close_eq]
    exact Or.inl rfl
  | tearDown x k hx =>
    rw [closeTransport_link, Link.close_eq]
    exact Or.inl rfl
  | closed c hidle hc =>
    change (s.service.link.closed host.options s.calls.now c).dialing = _ ∨ _
    rw [Link.closed_eq]
    exact Or.inl rfl
  | opened x hidle hx => exact Or.inr (Or.inl ⟨x, rfl⟩)
  | refused x hidle hx =>
    refine Or.inr (Or.inl ⟨x, ?_⟩)
    change (s.service.link.refused host.options s.calls.now x s.errorListener).dialing = _
    rw [Link.refused_eq]
  | reconnectTimer ht =>
    change (if s.service.link.closedByUs = true then _ else _) = _ ∨ _ ∨
      (if s.service.link.closedByUs = true then _ else _) = _
    split
    · exact Or.inl rfl
    · exact Or.inr (Or.inr rfl)
  | caught x hx =>
    change (s.service.link.caught host.options s.calls.now s.errorListener).dialing = _ ∨ _
    rw [Link.caught_eq]
    exact Or.inl rfl
  | _ => exact Or.inl rfl

theorem mem_dialing_moves {host : Host} {s u : Bridge} {e : Event} (hm : Moves host s e u) {r : ℕ}
    (hr : r ∈ u.service.link.dialing) : r ∈ s.service.link.dialing ∨ r = s.nextReplay := by
  rcases dialing_moves hm with hsame | ⟨x, herase⟩ | hcons
  · rw [hsame] at hr
    exact Or.inl hr
  · rw [herase] at hr
    exact Or.inl (List.mem_of_mem_erase hr)
  · rw [hcons, List.mem_cons] at hr
    exact hr.symm

/-- Where a replay is when a step has brought it there. -/
theorem replays_moves {host : Host} {s u : Bridge} {e : Event} (hm : Moves host s e u) (r : ℕ) :
    u.replays r = s.replays r ∨ (e = .opened r ∧ r ∈ s.service.link.dialing) ∨
      (s.replays r ≠ .idle ∧ u.replays r ≠ .dialed) := by
  cases hm with
  | opened x hidle hx =>
    by_cases hrx : r = x
    · subst hrx
      exact Or.inr (Or.inl ⟨rfl, hx⟩)
    · exact Or.inl ((setReplay_replays _ x r _).trans (if_neg hrx))
  | connected x replay hx hne =>
    by_cases hrx : r = x
    · subst hrx
      refine Or.inr (Or.inr ⟨by simp [hx], ?_⟩)
      rw [setReplay_replays, if_pos rfl]
      exact hne
    · exact Or.inl ((setReplay_replays _ x r _).trans (if_neg hrx))
  | replay x replay hx hd hne =>
    by_cases hrx : r = x
    · subst hrx
      refine Or.inr (Or.inr ⟨hx, ?_⟩)
      rw [setReplay_replays, if_pos rfl]
      exact hne
    · exact Or.inl ((setReplay_replays _ x r _).trans (if_neg hrx))
  | caught x hx =>
    by_cases hrx : r = x
    · subst hrx
      refine Or.inr (Or.inr ⟨by simp [hx], ?_⟩)
      rw [setReplay_replays, if_pos rfl]
      simp
    · exact Or.inl ((setReplay_replays (s.caught host) x r _).trans (if_neg hrx))
  | _ => exact Or.inl rfl

theorem unopened_moves {host : Host} {s u : Bridge} {e : Event} (hs : s.Shutting) (h : s.Unopened)
    (hm : Moves host s e u) : u.Unopened := by
  constructor
  · intro r hr
    rcases replays_moves hm r with hsame | ⟨rfl, hold⟩ | ⟨hne, -⟩
    · rw [hsame]
      rcases mem_dialing_moves hm hr with hold | hnew
      · exact h.idle r hold
      · by_contra hne
        have hlt := hs.replays r hne
        omega
    · -- An attempt that has connected is one no more.
      cases hm with
      | stay => exact h.idle r hr
      | opened x hidle hx => exact absurd hr h.nodup.not_mem_erase
    · rcases mem_dialing_moves hm hr with hold | hnew
      · exact absurd (h.idle r hold) hne
      · have hlt := hs.replays r hne
        omega
  · rcases dialing_moves hm with hsame | ⟨x, herase⟩ | hcons
    · rw [hsame]
      exact h.nodup
    · rw [herase]
      exact h.nodup.erase x
    · rw [hcons, List.nodup_cons]
      refine ⟨fun hmem => ?_, h.nodup⟩
      have hlt := hs.dialing _ hmem
      omega

theorem unopened_reach {host : Host} {ok : Guard Bridge Event} {s : Bridge}
    (h : (machine host).Reach ok s) : s.Unopened := by
  refine h.invariant (P := Unopened) (fun u hu => ?_) fun u e v hreach hu hs _ => ?_
  · have hu : u = initial := hu
    rw [hu]
    exact ⟨fun r hr => absurd hr List.not_mem_nil, List.nodup_nil⟩
  · obtain ⟨he, rfl⟩ := Machine.ofEnabled_step.mp hs
    obtain ⟨w, hm, hp⟩ := moves_apply host he
    have hw := unopened_moves (shutting_reach hreach) hu hm
    have hlink := hp.link_eq
    refine ⟨fun r hr => ?_, ?_⟩
    · rw [hlink] at hr
      rw [hp.replays]
      exact hw.idle r hr
    · rw [hlink]
      exact hw.nodup

theorem ended_apply {host : Host} {s : Bridge} {e : Event} (hi : s.service.link.Inv)
    (he : s.enabled e = true) {c : ℕ} (hc : (s.service.link.conns c).status = .closed) :
    ((s.apply host e).service.link.conns c).status = .closed := by
  rcases status_apply host hi he c with hsame | habsent | hclosed
  · rw [hsame]
    exact hc
  · rw [hc] at habsent
    contradiction
  · exact hclosed

theorem nextReplay_moves {host : Host} {s u : Bridge} {e : Event} (hm : Moves host s e u) :
    s.nextReplay ≤ u.nextReplay := by
  cases hm with
  | reconnectTimer ht => exact Nat.le_succ _
  | _ => exact Nat.le_refl _

/-- The reconnect attempt has connected. -/
structure Opened (s : Bridge) (r : ℕ) : Prop where
  born : r < s.nextReplay
  dialing : r ∉ s.service.link.dialing
  dialed : s.replays r ≠ .dialed

theorem opened_apply {host : Host} {s : Bridge} {e : Event} {r : ℕ} (h : s.Opened r)
    (he : s.enabled e = true) : (s.apply host e).Opened r := by
  obtain ⟨u, hm, hp⟩ := moves_apply host he
  refine ⟨?_, ?_, ?_⟩
  · rw [hp.nextReplay]
    exact Nat.lt_of_lt_of_le h.born (nextReplay_moves hm)
  · rw [hp.link_eq]
    intro hr
    have hborn := h.born
    rcases mem_dialing_moves hm hr with hold | hnew
    · exact h.dialing hold
    · omega
  · rw [hp.replays]
    rcases replays_moves hm r with hsame | ⟨-, hold⟩ | ⟨-, hne⟩
    · rw [hsame]
      exact h.dialed
    · exact absurd hold h.dialing
    · exact hne

end Bridge

namespace Replays
open Bridge

/-- The connection that a replay began with is taken down once. -/
theorem conn_notes (s : Replays) (e : Event) (r : ℕ) :
    (e = .resumeReplay r ∧ s.bridge.replays r = .dialed ∧
      (s.notes e r).conn = s.bridge.service.link.socket) ∨
    ¬ (e = .resumeReplay r ∧ s.bridge.replays r = .dialed) ∧
      (s.notes e r).conn = (s.rounds r).conn := by
  by_cases hre : e = .resumeReplay r
  · subst hre
    have hnotes : s.notes (.resumeReplay r) r = s.goOn r := Function.update_self ..
    rw [hnotes]
    unfold goOn
    dsimp only
    cases hr : s.bridge.replays r with
    | idle => exact Or.inr ⟨by simp, rfl⟩
    | dialed => exact Or.inl ⟨rfl, rfl, rfl⟩
    | registering todo k => exact Or.inr ⟨by simp, rfl⟩
    | returned | threw => exact Or.inr ⟨by simp, rfl⟩
  · refine Or.inr ⟨fun h => hre h.1, ?_⟩
    cases e with
    | resumeReplay x =>
      have hrx : r ≠ x := fun h => hre (by rw [h])
      exact congrArg Round.conn (Function.update_of_ne hrx _ _)
    | _ => rfl

/-! ### A cut stays -/

/-- The connection that the replay began with has ended. -/
structure Cut (s : Replays) (r : ℕ) : Prop where
  opened : s.bridge.Opened r
  ended : ∃ c, (s.rounds r).conn = some c ∧ (s.bridge.service.link.conns c).status = .closed

theorem cut_step {host : Host} {s t : Replays} {e : Event} {r : ℕ} (hi : s.bridge.service.link.Inv)
    (h : s.Cut r) (hstep : (machine host).step s e = some t) : t.Cut r := by
  obtain ⟨he, rfl⟩ := step_eq hstep
  obtain ⟨c, hconn, hclosed⟩ := h.ended
  refine ⟨opened_apply h.opened he, c, ?_, ended_apply hi he hclosed⟩
  rcases conn_notes s e r with ⟨-, hdialed, -⟩ | ⟨-, hsame⟩
  · exact absurd hdialed h.opened.dialed
  · exact hsame.trans hconn

/-- The connection of a replay ends while that awaits an answer. -/
theorem cut_closed {host : Host} {ok : Guard Replays Event} {s t : Replays} {c r k : ℕ}
    {todo : List String} (h : (machine host).Reach ok s)
    (hr : s.bridge.replays r = .registering todo k) (hconn : (s.rounds r).conn = some c)
    (hstep : (machine host).step s (.closed c) = some t) : t.Cut r := by
  have hbridge := bridge_reach h
  have hne : s.bridge.replays r ≠ .idle := by simp [hr]
  have hopened : s.bridge.Opened r := {
    born := (shutting_reach hbridge).replays r hne
    dialing := fun hdialing => hne ((unopened_reach hbridge).idle r hdialing)
    dialed := by simp [hr] }
  obtain ⟨he, rfl⟩ := step_eq hstep
  exact ⟨opened_apply hopened he, c, hconn, (Link.closed_status ..).trans (if_pos rfl)⟩

/-- Once the connection of a replay has ended under it, its 'reconnect' comes incomplete, if it comes. -/
theorem incomplete_of_cut {host : Host} {s t u v : Replays} {e : Event} {c r k : ℕ}
    {todo : List String} (h : (machine host).Reach always s)
    (hr : s.bridge.replays r = .registering todo k) (hconn : (s.rounds r).conn = some c)
    (hclosed : (machine host).step s (.closed c) = some t)
    (hu : ((machine host).startingAt t).Reach always u) (hstep : (machine host).step u e = some v) :
    ¬ v.Complete r := by
  intro hcomplete
  have ht : (machine host).Reach always t := h.step hclosed trivial
  have hcut : u.Cut r := by
    refine hu.invariant (P := fun w => w.Cut r) (fun w hw => ?_) fun w e' x hw hcut hs _ => ?_
    · have hw : w = t := hw
      rw [hw]
      exact cut_closed h hr hconn hclosed
    · exact cut_step (service_inv (bridge_reach (ht.append hw))).link hcut hs
  have hlast := cut_step (service_inv (bridge_reach (ht.append hu))).link hcut hstep
  obtain ⟨d, hd, hopen, -⟩ := hcomplete.carried
  obtain ⟨d', hconn', hended⟩ := hlast.ended
  rw [hd, Option.some.injEq] at hconn'
  subst hconn'
  rw [show (v.bridge.service.link.conns d).status = .opened from hopen] at hended
  contradiction

end Replays

end UnoQ.Client
