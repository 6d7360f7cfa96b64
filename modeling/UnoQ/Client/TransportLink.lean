import Mathlib.Data.List.Nodup
import UnoQ.Client.Link
import UnoQ.Transport.SocketTransport
import UnoQ.Transport.SshTransport

/-!
# The link as its transports implement it

The link of a bridge says what the bridge sees of its transport. Here the transports are compared
with it: seen as a link, a transport of either kind takes exactly the steps that the link allows, and
writes exactly where the link is writable.
-/

namespace UnoQ.Client
open BigEndian Transition Transport

namespace Link

/-- A bridge that leaves it to its transport what happens next. -/
def offline : ReconnectOptions := ⟨false, 0, 0⟩

/-- What a transport does to the link by itself: it may not open a connection that no `connect()` is
in progress for, nor close one that is not open. -/
inductive TransportStep (l : Link) : Link → Prop
  | idle : TransportStep l l
  | dial (r : ℕ) (hr : r ∉ l.dialing) : TransportStep l (l.doReconnect r)
  | opened (r : ℕ) (hr : r ∈ l.dialing) : TransportStep l (l.opened r)
  | refused (r : ℕ) (hr : r ∈ l.dialing) : TransportStep l (l.refused offline 0 r false)
  | broken (c : ℕ) (hc : l.IsOpen c) (destroyed : Bool) : TransportStep l (l.broken c destroyed)
  | closed (c : ℕ) (hc : l.IsOpen c) : TransportStep l (l.closed offline 0 c)
  | close : TransportStep l l.close

end Link

/-! ### Streams as connections -/

def connOf (x : Stream) : Conn :=
  ⟨if x.status = .closed then .closed else .opened, x.destroyed, x.ended⟩

def connAt (u : Streams) (c : ℕ) : Conn :=
  match u.resolved[c]? with
  | none => ⟨.absent, false, false⟩
  | some k => connOf (u.streams k)

def dialing (u : Streams) : List ℕ :=
  ((List.range u.next).filter fun k => (u.streams k).promise = .pending).reverse

/-- Connections are numbered in the order in which they came up. -/
def linkOf (u : Streams) : Link where
  conns := connAt u
  nextConn := u.resolved.length
  socket := u.current.map u.resolved.idxOf
  dialing := dialing u
  reconnectTimer := none
  reconnectAttempt := 0
  closedByUs := false
  sent := []

section View

variable {u : Streams} {k : ℕ} {x : Stream}

theorem connAt_idxOf (hk : k ∈ u.resolved) : connAt u (u.resolved.idxOf k) = connOf (u.streams k) := by
  have hlt := List.idxOf_lt_length_of_mem hk
  unfold connAt
  rw [List.getElem?_eq_getElem hlt, List.getElem_idxOf hlt]

theorem isOpen_of_up (h : u.Inv) (hk : (u.streams k).status = .up) :
    (linkOf u).IsOpen (u.resolved.idxOf k) := by
  have hmem := (h.mem k).mpr (h.resolved hk)
  change (connAt u (u.resolved.idxOf k)).status = .opened
  rw [connAt_idxOf hmem]
  simp [connOf, hk]

theorem mem_dialing : k ∈ dialing u ↔ k < u.next ∧ (u.streams k).promise = .pending := by
  simp [dialing]

theorem dialing_nodup (u : Streams) : (dialing u).Nodup :=
  List.nodup_reverse.mpr (List.nodup_range.filter _)

theorem dialing_set (hx : x.promise = .pending ↔ (u.streams k).promise = .pending) :
    dialing (u.set k x) = dialing u := by
  unfold dialing
  refine congrArg List.reverse (List.filter_congr ?_)
  intro y _
  rw [Streams.set_streams]
  split
  next hy => simp [hy, hx]
  next => rfl

/-- A `connect()` that settles is no longer in progress. -/
theorem dialing_settled (hx : x.promise ≠ .pending) : dialing (u.set k x) = (dialing u).erase k := by
  rw [(dialing_nodup u).erase_eq_filter]
  unfold dialing
  rw [List.filter_reverse, List.filter_filter]
  refine congrArg List.reverse (List.filter_congr ?_)
  intro y _
  rw [Streams.set_streams]
  by_cases hy : y = k
  · simp [hy, hx]
  · simp [hy]

/-- A stream that came up changes as a connection does. -/
theorem linkOf_set (h : u.Inv) (hk : k ∈ u.resolved)
    (hx : x.promise = .pending ↔ (u.streams k).promise = .pending) :
    linkOf (u.set k x) = (linkOf u).setConn (u.resolved.idxOf k) (connOf x) := by
  have hconns : connAt (u.set k x) = Function.update (connAt u) (u.resolved.idxOf k) (connOf x) := by
    funext c
    rw [Function.update_apply]
    unfold connAt
    change (match u.resolved[c]? with
      | none => _
      | some y => connOf ((u.set k x).streams y)) = _
    split
    next hnone =>
      rw [if_neg]
      rintro rfl
      rw [List.getElem?_eq_none_iff] at hnone
      exact absurd (List.idxOf_lt_length_of_mem hk) (Nat.not_lt.mpr hnone)
    next y hy =>
      obtain ⟨hlt, hget⟩ := List.getElem?_eq_some_iff.mp hy
      have hindex : u.resolved.idxOf y = c := by
        rw [← hget]
        exact h.nodup.idxOf_getElem c hlt
      rw [Streams.set_streams]
      by_cases hyk : y = k
      · rw [if_pos hyk, if_pos (by rw [← hindex, hyk])]
      · rw [if_neg hyk, if_neg]
        intro hc
        rw [hc] at hindex
        exact hyk (List.idxOf_inj (hget ▸ List.getElem_mem hlt) |>.mp hindex)
  unfold linkOf Link.setConn
  rw [hconns, dialing_set hx]
  rfl

/-- A stream that never came up is not seen. -/
theorem connAt_set (hk : k ∉ u.resolved) : connAt (u.set k x) = connAt u := by
  funext c
  unfold connAt
  change (match u.resolved[c]? with
    | none => _
    | some y => connOf ((u.set k x).streams y)) = _
  split
  next => rfl
  next y hy =>
    rw [Streams.set_streams, if_neg]
    rintro rfl
    exact hk (List.mem_of_getElem? hy)

theorem linkOf_begin (h : u.Inv) : linkOf u.begin = (linkOf u).doReconnect u.next := by
  have hnew := (h.born u.next).mp (Nat.le_refl _)
  have hout : u.next ∉ u.resolved := h.not_mem (by simp [hnew])
  have hdialing : dialing u.begin = u.next :: dialing u := by
    unfold dialing
    change ((List.range (u.next + 1)).filter _).reverse = _
    rw [List.range_succ, List.filter_append, List.reverse_append]
    have hfirst : ([u.next].filter fun k => decide ((u.begin.streams k).promise = .pending)) = [u.next] := by
      simp [Streams.begin, Stream.dialed]
    rw [hfirst, List.reverse_singleton, List.singleton_append]
    refine congrArg (List.cons u.next) (congrArg List.reverse (List.filter_congr ?_))
    intro y hy
    rw [List.mem_range] at hy
    have hne : y ≠ u.next := Nat.ne_of_lt hy
    simp [Streams.begin, hne]
  have hconns : connAt u.begin = connAt u := connAt_set hout
  unfold linkOf Link.doReconnect
  rw [hconns, hdialing]
  rfl

theorem linkOf_resolve (h : u.Inv) (hk : (u.streams k).promise = .pending) :
    linkOf (u.resolve k) = (linkOf u).opened k := by
  have hout : k ∉ u.resolved := h.not_mem (by simp [hk])
  have hdialed := (h.ok k).dialed hk
  have hconns : connAt (u.resolve k) =
      Function.update (connAt u) u.resolved.length ⟨.opened, false, false⟩ := by
    funext c
    rw [Function.update_apply]
    unfold connAt Streams.resolve
    dsimp only
    by_cases hc : c = u.resolved.length
    · rw [if_pos hc, hc, List.getElem?_concat_length]
      simp [connOf, hdialed, Stream.dialed]
    · rw [if_neg hc, List.getElem?_append]
      by_cases hlt : c < u.resolved.length
      · rw [if_pos hlt, List.getElem?_eq_getElem hlt]
        have hne : u.resolved[c] ≠ k := by
          rintro rfl
          exact hout (List.getElem_mem hlt)
        simp [hne]
      · have hzero : c - u.resolved.length ≠ 0 := by omega
        rw [if_neg hlt, List.getElem?_eq_none (Nat.not_lt.mp hlt)]
        cases hsub : c - u.resolved.length with
        | zero => exact absurd hsub hzero
        | succ n => rfl
  have hdialing : dialing (u.resolve k) = (dialing u).erase k := dialing_settled (by simp)
  have hsocket : (u.resolve k).current.map (u.resolve k).resolved.idxOf = some u.resolved.length := by
    simp [Streams.resolve, List.idxOf_append, hout]
  have hlength : (u.resolve k).resolved.length = u.resolved.length + 1 := by simp [Streams.resolve]
  unfold linkOf Link.opened
  rw [hconns, hdialing, hsocket, hlength]

theorem linkOf_reject (h : u.Inv) (hk : (u.streams k).promise = .pending) (message : String)
    (destroyed : Bool) :
    linkOf (u.reject k message destroyed) = (linkOf u).refused Link.offline 0 k false := by
  have hout : k ∉ u.resolved := h.not_mem (by simp [hk])
  have hconns : connAt (u.reject k message destroyed) = connAt u := connAt_set hout
  have hdialing : dialing (u.reject k message destroyed) = (dialing u).erase k :=
    dialing_settled (by simp)
  unfold linkOf Link.refused
  rw [hconns, hdialing]
  rfl

theorem linkOf_gone (h : u.Inv) {message : String} (hk : (u.streams k).promise = .rejected message) :
    linkOf (u.gone k) = linkOf u := by
  have hout : k ∉ u.resolved := h.not_mem (by simp [hk])
  have hconns : connAt (u.gone k) = connAt u := connAt_set hout
  have hdialing : dialing (u.gone k) = dialing u := dialing_set (by simp)
  unfold linkOf
  rw [hconns, hdialing]
  rfl

theorem linkOf_broken (h : u.Inv) (hk : (u.streams k).status = .up) (destroyed : Bool) :
    linkOf (u.broken k destroyed) = (linkOf u).broken (u.resolved.idxOf k) destroyed := by
  have hmem := (h.mem k).mpr (h.resolved hk)
  unfold Streams.broken Link.broken
  rw [linkOf_set h hmem (by simp)]
  change _ = (linkOf u).setConn _ { connAt u (u.resolved.idxOf k) with
    destroyed := (connAt u (u.resolved.idxOf k)).destroyed || destroyed
    ended := (connAt u (u.resolved.idxOf k)).ended || !destroyed }
  rw [connAt_idxOf hmem]
  rfl

theorem linkOf_emit (u : Streams) (k : ℕ) (e : TransportEvent) : linkOf (u.emit k e) = linkOf u := rfl

theorem linkOf_error (h : u.Inv) (hk : (u.streams k).status = .up) (message : String) :
    linkOf (u.error k message) = (linkOf u).broken (u.resolved.idxOf k) true := by
  have hmem := (h.mem k).mpr (h.resolved hk)
  unfold Streams.error Link.broken
  rw [linkOf_emit, linkOf_set h hmem (by simp)]
  change _ = (linkOf u).setConn _ { connAt u (u.resolved.idxOf k) with
    destroyed := (connAt u (u.resolved.idxOf k)).destroyed || true
    ended := (connAt u (u.resolved.idxOf k)).ended || !true }
  rw [connAt_idxOf hmem]
  simp [connOf]

/-- The index of a connection that came up names it. -/
theorem idxOf_eq_iff (h : u.Inv) {y : ℕ} (hy : u.current = some y) (k : ℕ) :
    u.resolved.idxOf y = u.resolved.idxOf k ↔ y = k := by
  have hmem := (h.mem y).mpr (h.resolved (h.current y hy).2)
  exact List.idxOf_inj hmem

theorem linkOf_closed (h : u.Inv) (hk : (u.streams k).status = .up) :
    linkOf (u.closed k) = (linkOf u).closed Link.offline 0 (u.resolved.idxOf k) := by
  have hmem := (h.mem k).mpr (h.resolved hk)
  have hset := linkOf_set (x := { u.streams k with status := .closed }) h hmem (by simp)
  have hconn : connOf { u.streams k with status := .closed } =
      { connAt u (u.resolved.idxOf k) with status := .closed } := by
    rw [connAt_idxOf hmem]
    simp [connOf]
  have hsocket : (u.closed k).current.map u.resolved.idxOf =
      if u.current.map u.resolved.idxOf = some (u.resolved.idxOf k) then none
      else u.current.map u.resolved.idxOf := by
    unfold Streams.closed
    cases hcur : u.current with
    | none => rfl
    | some y =>
      have hsame : some (u.resolved.idxOf y) = some (u.resolved.idxOf k) ↔ some y = some k := by
        rw [Option.some_inj, Option.some_inj]
        exact idxOf_eq_iff h hcur k
      simp only [Option.map_some, hsame]
      split
      · rfl
      · rfl
  unfold Streams.closed at hsocket ⊢
  dsimp only at hsocket
  have hl : (linkOf u).closed Link.offline 0 (u.resolved.idxOf k) =
      { (linkOf u).setConn (u.resolved.idxOf k)
          { connAt u (u.resolved.idxOf k) with status := .closed } with
        socket := if u.current.map u.resolved.idxOf = some (u.resolved.idxOf k) then none
          else u.current.map u.resolved.idxOf } := rfl
  rw [hl, ← hconn, ← hset, ← hsocket]
  rfl

theorem linkOf_close (h : u.Inv) : linkOf u.close.1 = (linkOf u).close := by
  unfold Streams.close Link.close
  cases hcur : u.current with
  | none =>
    have hsocket : (linkOf u).socket = none := by simp [linkOf, hcur]
    rw [hsocket]
  | some k =>
    obtain ⟨-, hup⟩ := h.current k hcur
    have hmem := (h.mem k).mpr (h.resolved hup)
    have hsocket : (linkOf u).socket = some (u.resolved.idxOf k) := by simp [linkOf, hcur]
    have hconn : (linkOf u).conns (u.resolved.idxOf k) = connOf (u.streams k) := connAt_idxOf hmem
    rw [hsocket]
    dsimp only
    rw [hconn]
    by_cases hdestroyed : (u.streams k).destroyed
    · simp only [hdestroyed, connOf, if_true]
      rfl
    · have hbroken := linkOf_broken h hup false
      unfold Link.broken at hbroken
      rw [hconn] at hbroken
      simp only [hdestroyed, connOf, Bool.false_eq_true, if_false] at hbroken ⊢
      simpa using hbroken

/-- The bytes go to the stream behind the connection that the link can be written to, and nowhere if
there is none. -/
def WritesAsLink (u v : Streams) (bytes : Bytes) : Prop :=
  match (linkOf u).writable with
  | none => v.sent = u.sent
  | some c => ∃ k, u.resolved[c]? = some k ∧ v.sent = u.sent ++ [(k, bytes)]

theorem write_cases (h : u.Inv) (bytes : Bytes) :
    (linkOf u).TransportStep (linkOf (u.write bytes).1) ∧ WritesAsLink u (u.write bytes).1 bytes := by
  unfold Streams.write WritesAsLink Link.writable
  cases hcur : u.current with
  | none =>
    have hsocket : (linkOf u).socket = none := by simp [linkOf, hcur]
    rw [hsocket]
    exact ⟨.idle, rfl⟩
  | some k =>
    obtain ⟨-, hup⟩ := h.current k hcur
    have hmem := (h.mem k).mpr (h.resolved hup)
    have hlt := List.idxOf_lt_length_of_mem hmem
    have hsocket : (linkOf u).socket = some (u.resolved.idxOf k) := by simp [linkOf, hcur]
    have hconn : (linkOf u).conns (u.resolved.idxOf k) = connOf (u.streams k) := connAt_idxOf hmem
    have hfound : u.resolved[u.resolved.idxOf k]? = some k := by
      rw [List.getElem?_eq_getElem hlt, List.getElem_idxOf hlt]
    rw [hsocket]
    dsimp only
    rw [hconn]
    by_cases hdestroyed : (u.streams k).destroyed
    · simp only [hdestroyed, connOf, if_true, true_or, and_true]
      exact .idle
    · by_cases hended : (u.streams k).ended
      · simp only [hdestroyed, hended, connOf, Bool.false_eq_true, if_false, if_true, or_true]
        rw [linkOf_broken h hup true]
        exact ⟨.broken _ (isOpen_of_up h hup) true, rfl⟩
      · simp only [hdestroyed, hended, connOf, Bool.false_eq_true, if_false, or_self]
        refine ⟨?_, k, hfound, rfl⟩
        rw [← hcur]
        exact .idle

/-- Whatever a transport does to its streams, the link may do. -/
theorem transportStep_act {v : Streams} (h : u.Inv) (hact : u.Act v) :
    (linkOf u).TransportStep (linkOf v) := by
  cases hact with
  | idle => exact .idle
  | begin =>
    rw [linkOf_begin h]
    refine .dial _ fun hin => ?_
    exact absurd (mem_dialing.mp hin).1 (Nat.lt_irrefl _)
  | resolve hk =>
    rw [linkOf_resolve h hk]
    exact .opened _ (mem_dialing.mpr ⟨h.lt (by simp [hk]), hk⟩)
  | reject hk message destroyed =>
    rw [linkOf_reject h hk]
    exact .refused _ (mem_dialing.mpr ⟨h.lt (by simp [hk]), hk⟩)
  | data hk chunk => exact .idle
  | error hk message =>
    rw [linkOf_error h hk]
    exact .broken _ (isOpen_of_up h hk) true
  | closed hk =>
    rw [linkOf_closed h hk]
    exact .closed _ (isOpen_of_up h hk)
  | gone message hk =>
    rw [linkOf_gone h hk]
    exact .idle
  | broken hk destroyed =>
    rw [linkOf_broken h hk]
    exact .broken _ (isOpen_of_up h hk) destroyed
  | write bytes => exact (write_cases h bytes).1
  | close =>
    rw [linkOf_close h]
    exact .close

end View

/-! ### The two kinds of transport -/

theorem socketTransport_link {opts : SocketOptions} {s t : SocketTransport} {e : SocketTransport.Event}
    (h : (SocketTransport.machine opts).Reach always s)
    (hs : (SocketTransport.machine opts).step s e = some t) :
    (linkOf s.streams).TransportStep (linkOf t.streams) ∧
      ∀ bytes, e = .write bytes → WritesAsLink s.streams t.streams bytes := by
  have hinv := SocketTransport.inv_reach h
  refine ⟨transportStep_act hinv.streams (SocketTransport.act_step hinv hs), ?_⟩
  rintro bytes rfl
  obtain ⟨-, rfl⟩ := Machine.ofEnabled_step.mp hs
  exact (write_cases hinv.streams bytes).2

/-- A TLS transport that has just come up, at its second attempt. -/
def connectedState : SocketTransport :=
  (SocketTransport.machine SocketTransport.relay).after always SocketTransport.initial
    (SocketTransport.retriedRun.take 8)

theorem connectedState_link : (linkOf connectedState.streams).writable = some 0 ∧
    WritesAsLink connectedState.streams (connectedState.write [0x94]).streams [0x94] := by
  refine ⟨by decide +kernel, ?_⟩
  have hrun : (SocketTransport.machine SocketTransport.relay).Reach always connectedState :=
    (Machine.Reach.init rfl).after _
  have hstep : (SocketTransport.machine SocketTransport.relay).step connectedState (.write [0x94]) =
      some (connectedState.write [0x94]) := rfl
  exact (socketTransport_link hrun hstep).2 [0x94] rfl

theorem sshTransport_link {s t : SshTransport} {e : SshTransport.Event}
    (h : SshTransport.machine.Reach always s) (hs : SshTransport.machine.step s e = some t) :
    (linkOf s.streams).TransportStep (linkOf t.streams) ∧
      ∀ bytes, e = .write bytes → WritesAsLink s.streams t.streams bytes := by
  have hinv := SshTransport.inv_reach h
  refine ⟨transportStep_act hinv (SshTransport.act_step hs), ?_⟩
  rintro bytes rfl
  obtain ⟨-, rfl⟩ := Machine.ofEnabled_step.mp hs
  exact (write_cases hinv bytes).2

end UnoQ.Client
