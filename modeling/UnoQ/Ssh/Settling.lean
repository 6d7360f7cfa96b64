import UnoQ.Ssh.WaiterBook

/-!
# Waiters are settled once

Each step of the server keeps the queues and the book, and so does the callback of a timer. So in
every run a waiter is settled at most once, and by its own device if that registers in time.
-/

namespace UnoQ.Ssh
open Transition

namespace Waiting

/-! ### Steps of the server -/

section
variable {w : Waiting} {e : SshServer.Event} {t : SshServer}

theorem next_server (hset : setTimeout w.server e = []) (hclear : clearTimeout w.server e = [])
    (hforward : Routing.forwardOf w.server e = none) (hclose : isClose e = false) :
    w.next e t = { w with server := t } := by
  unfold next arrivals
  rw [hset, hclear, hforward, hclose, disarm_nil]
  rfl

theorem queues_idle (hq : w.Queues) (h : Idle w.server t) : Queues { w with server := t } where
  queue nick p := by
    show _ ↔ ∃ l, t.waiters.get nick = some l ∧ p ∈ l
    rw [h.waiters]
    exact hq.queue nick p
  nonempty nick := by
    show t.waiters.get nick ≠ some []
    rw [h.waiters]
    exact hq.nonempty nick
  registered nick entry he := by
    show t.waiters.get nick = none
    rw [h.waiters]
    exact hq.registered nick entry (h.registry nick entry he)
  unbound hb := hq.unbound (h.bound hb)
  lists nick l hl := by
    have hold : t.waiters.get nick = some l := hl
    rw [h.waiters] at hold
    exact hq.lists nick l hold
  ids := by
    show (w.timerIds ++ t.settled.map Prod.fst).Nodup
    rw [h.settled]
    exact hq.ids
  born id hid := by
    show id < t.nextWaiter
    rw [h.nextWaiter]
    have hold : id ∈ w.timerIds ++ t.settled.map Prod.fst := hid
    rw [h.settled] at hold
    exact hq.born id hold

theorem book_server (hb : w.Book) (h : t.settled = w.server.settled) : Book { w with server := t } := by
  have hids : settledIds { w with server := t } = w.settledIds := congrArg (List.map Prod.fst) h
  constructor
  · exact hb.begun
  · exact hb.named
  · rw [hids]
    exact hb.held
  · rw [hids]
    exact hb.done
  · rw [hids]
    exact hb.fired
  · rw [hids]
    exact hb.closed
  · intro a ha
    show _ ∈ t.settled
    rw [h]
    exact hb.arrived a ha
  · intro b hmem entry hdev
    have hold : (b.1, WaitOutcome.device entry) ∈ t.settled := hdev
    rw [h] at hold
    exact hb.own b hmem entry hold

/-- A call that does not come to wait. -/
def answer (w : Waiting) (outcome : WaitOutcome) : Waiting :=
  { w with server := { w.server with
      nextWaiter := w.server.nextWaiter + 1
      settled := w.server.settled ++ [(w.server.nextWaiter, outcome)] } }

theorem answer_settledIds (w : Waiting) (outcome : WaitOutcome) :
    (w.answer outcome).settledIds = w.settledIds ++ [w.server.nextWaiter] := List.map_append

theorem queues_answer (hq : w.Queues) (outcome : WaitOutcome) : (w.answer outcome).Queues := by
  have hfresh : w.server.nextWaiter ∉ w.timerIds ++ w.settledIds :=
    fun hmem => Nat.lt_irrefl _ (hq.born _ hmem)
  refine ⟨hq.queue, hq.nonempty, hq.registered, hq.unbound, hq.lists, ?_, fun id hid => ?_⟩
  · rw [answer_settledIds, ← List.append_assoc, ← List.concat_eq_append]
    exact hq.ids.concat hfresh
  · rw [answer_settledIds, ← List.append_assoc] at hid
    show id < w.server.nextWaiter + 1
    rcases List.mem_append.mp hid with hold | hnew
    · exact Nat.lt_succ_of_lt (hq.born id hold)
    · rw [List.mem_singleton.mp hnew]
      exact Nat.lt_succ_self _

theorem begun_lt (hq : w.Queues) (hb : w.Book) {b : ℕ × String} (hmem : b ∈ w.begun) :
    b.1 < w.server.nextWaiter := by
  rcases hb.held b hmem with hsettled | ⟨p, hp, hid⟩
  · exact hq.born _ (List.mem_append_right _ hsettled)
  · rw [← hid]
    exact hq.born _ (List.mem_append_left _ (mem_timerIds hp))

theorem book_answer (hq : w.Queues) (hb : w.Book) (outcome : WaitOutcome) : (w.answer outcome).Book := by
  have hkept : ∀ id ∈ w.settledIds, id ∈ (w.answer outcome).settledIds := by
    intro id hid
    rw [answer_settledIds]
    exact List.mem_append_left _ hid
  refine ⟨hb.begun, hb.named, fun b hmem => ?_, fun b hmem hsettled => ?_, fun id hid => hkept id (hb.fired id hid),
    fun id hid => hkept id (hb.closed id hid), fun a ha => List.mem_append_left _ (hb.arrived a ha),
    fun b hmem entry hdev => ?_⟩
  · rcases hb.held b hmem with hsettled | hpending
    · exact Or.inl (hkept _ hsettled)
    · exact Or.inr hpending
  · have hlt := begun_lt hq hb hmem
    rw [answer_settledIds] at hsettled
    rcases List.mem_append.mp hsettled with hold | hnew
    · exact hb.done b hmem hold
    · rw [List.mem_singleton.mp hnew] at hlt
      exact absurd hlt (Nat.lt_irrefl _)
  · have hlt := begun_lt hq hb hmem
    rcases List.mem_append.mp hdev with hold | hnew
    · exact hb.own b hmem entry hold
    · rw [(Prod.mk.inj (List.mem_singleton.mp hnew)).1] at hlt
      exact absurd hlt (Nat.lt_irrefl _)

/-- A call that comes to wait. -/
def await (w : Waiting) (nick : String) (timeoutMs : ℕ) : Waiting :=
  let p : PendingConnect := ⟨w.server.nextWaiter, timeoutMs⟩
  { w with
    server := { w.server with
      nextWaiter := w.server.nextWaiter + 1
      waiters := w.server.waiters.set nick ((w.server.waiters.get nick).getD [] ++ [p]) }
    timers := (nick, p) :: w.timers
    begun := (p.id, nick) :: w.begun }

theorem next_await {nick : String} {timeoutMs : ℕ}
    (hset : setTimeout w.server e = [(nick, ⟨w.server.nextWaiter, timeoutMs⟩)])
    (hclear : clearTimeout w.server e = []) (hforward : Routing.forwardOf w.server e = none)
    (hclose : isClose e = false) :
    w.next e (w.await nick timeoutMs).server = w.await nick timeoutMs := by
  unfold next arrivals
  rw [hset, hclear, hforward, hclose, disarm_nil]
  rfl

theorem queues_await (hq : w.Queues) {nick : String} (hbound : w.server.bound = true)
    (hnone : w.server.registry.get nick = none) (timeoutMs : ℕ) : (w.await nick timeoutMs).Queues := by
  have hfresh : w.server.nextWaiter ∉ w.timerIds ++ w.settledIds :=
    fun hmem => Nat.lt_irrefl _ (hq.born _ hmem)
  constructor
  · intro nick' p
    show (nick', p) ∈ (nick, _) :: w.timers ↔ ∃ l, (w.server.waiters.set nick _).get nick' = some l ∧ p ∈ l
    by_cases hnick : nick = nick'
    · subst hnick
      rw [InsertMap.get_set_self, List.mem_cons, ← hq.mem_getD]
      simp [or_comm]
    · have hne : (nick', p) ≠ (nick, ⟨w.server.nextWaiter, timeoutMs⟩) :=
        fun heq => hnick (Prod.mk.inj heq).1.symm
      rw [InsertMap.get_set_ne _ _ hnick, List.mem_cons, or_iff_right hne]
      exact hq.queue nick' p
  · intro nick' hget
    rcases InsertMap.get_set_eq_some hget with ⟨-, hnil⟩ | ⟨-, hold⟩
    · exact absurd hnil.symm (List.append_ne_nil_of_right_ne_nil _ (List.cons_ne_nil _ _))
    · exact hq.nonempty nick' hold
  · intro nick' entry he
    have hne : nick ≠ nick' := by
      rintro rfl
      have hold : w.server.registry.get nick = some entry := he
      rw [hnone] at hold
      contradiction
    show (w.server.waiters.set nick _).get nick' = none
    rw [InsertMap.get_set_ne _ _ hne]
    exact hq.registered nick' entry he
  · intro hb
    have hunbound : w.server.bound = false := hb
    rw [hbound] at hunbound
    contradiction
  · intro nick' l hl
    rcases InsertMap.get_set_eq_some hl with ⟨-, rfl⟩ | ⟨-, hold⟩
    · rw [List.map_append, List.map_singleton, ← List.concat_eq_append]
      refine List.Nodup.concat ?_ ?_
      · intro hmem
        obtain ⟨p, hp, hid⟩ := List.mem_map.mp hmem
        have hnext : p.id = w.server.nextWaiter := hid
        apply hfresh
        rw [← hnext]
        exact List.mem_append_left _ (mem_timerIds (hq.mem_getD.mp hp))
      · cases hget : w.server.waiters.get nick with
        | none => exact List.nodup_nil
        | some l => exact hq.lists nick l hget
    · exact hq.lists nick' l hold
  · exact List.nodup_cons.mpr ⟨hfresh, hq.ids⟩
  · intro id hid
    show id < w.server.nextWaiter + 1
    rcases List.mem_cons.mp hid with rfl | hold
    · exact Nat.lt_succ_self _
    · exact Nat.lt_succ_of_lt (hq.born id hold)

theorem book_await (hq : w.Queues) (hb : w.Book) (nick : String) (timeoutMs : ℕ) :
    (w.await nick timeoutMs).Book := by
  have hfresh : w.server.nextWaiter ∉ w.settledIds :=
    fun hmem => Nat.lt_irrefl _ (hq.born _ (List.mem_append_right _ hmem))
  constructor
  · intro t ht
    rcases List.mem_cons.mp ht with rfl | hold
    · exact List.mem_cons_self
    · exact List.mem_cons_of_mem _ (hb.begun t hold)
  · refine List.nodup_cons.mpr ⟨fun hmem => ?_, hb.named⟩
    obtain ⟨b, hbegun, hid⟩ := List.mem_map.mp hmem
    have hlt := begun_lt hq hb hbegun
    rw [hid] at hlt
    exact Nat.lt_irrefl _ hlt
  · intro b hmem
    rcases List.mem_cons.mp hmem with rfl | hold
    · exact Or.inr ⟨_, List.mem_cons_self, rfl⟩
    · rcases hb.held b hold with hsettled | ⟨p, hp, hid⟩
      · exact Or.inl hsettled
      · exact Or.inr ⟨p, List.mem_cons_of_mem _ hp, hid⟩
  · intro b hmem hsettled
    rcases List.mem_cons.mp hmem with rfl | hold
    · exact absurd hsettled hfresh
    · exact hb.done b hold hsettled
  · exact hb.fired
  · exact hb.closed
  · exact hb.arrived
  · intro b hmem entry hdev
    rcases List.mem_cons.mp hmem with rfl | hold
    · exact absurd (mem_settledIds hdev) hfresh
    · exact hb.own b hold entry hdev

/-! ### Steps that settle waiters -/

/-- Those who still wait for a device are the ones with a timer in its queue. -/
theorem mem_stillWaiting (hq : w.Queues) (hb : w.Book) {nick : String} {id : ℕ} :
    id ∈ w.stillWaiting nick ↔ ∃ p, (nick, p) ∈ w.timers ∧ p.id = id := by
  unfold stillWaiting
  simp only [List.mem_map, List.mem_filter, decide_eq_true_eq]
  constructor
  · rintro ⟨b, ⟨hbegun, rfl, hfired, hclosed, harrived⟩, rfl⟩
    rcases hb.held b hbegun with hsettled | hpending
    · rcases hb.done b hbegun hsettled with hf | hc | ha
      · exact absurd hf hfired
      · exact absurd hc hclosed
      · exact absurd (List.mem_map.mp ha) harrived
    · exact hpending
  · rintro ⟨p, hp, rfl⟩
    have hopen := hq.unsettled hp
    refine ⟨(p.id, nick), ⟨hb.begun _ hp, rfl, ?_, ?_, ?_⟩, rfl⟩
    · exact fun hf => hopen (hb.fired _ hf)
    · exact fun hc => hopen (hb.closed _ hc)
    · rintro ⟨a, ha, hid⟩
      have hsettled := mem_settledIds (hb.arrived a ha)
      rw [hid] at hsettled
      exact hopen hsettled

theorem next_install {nick : String} {entry : RegistryEntry} (hset : setTimeout w.server e = [])
    (hclear : clearTimeout w.server e = (w.server.waiters.get nick).getD [])
    (hforward : Routing.forwardOf w.server e = some (nick, entry.client)) (hclose : isClose e = false) :
    w.next e (w.server.installEntry nick entry) = { w with
      server := w.server.installEntry nick entry
      timers := disarm w.timers ((w.server.waiters.get nick).getD [])
      arrived := (w.stillWaiting nick).map (fun id => (id, entry)) ++ w.arrived } := by
  have hget : (w.server.installEntry nick entry).registry.get nick = some entry :=
    InsertMap.get_set_self _ _ _
  unfold next arrivals
  rw [hset, hclear, hforward, hclose]
  dsimp only
  rw [hget]
  rfl

theorem queue_distinct (hq : w.Queues) (nick : String) :
    (((w.server.waiters.get nick).getD []).map PendingConnect.id).Nodup := by
  cases hget : w.server.waiters.get nick with
  | none => exact List.nodup_nil
  | some l => exact hq.lists nick l hget

theorem install_keeps (hq : w.Queues) (hb : w.Book) {nick : String} {entry : RegistryEntry}
    (hnext : w.next e (w.server.installEntry nick entry) = { w with
      server := w.server.installEntry nick entry
      timers := disarm w.timers ((w.server.waiters.get nick).getD [])
      arrived := (w.stillWaiting nick).map (fun id => (id, entry)) ++ w.arrived }) :
    (w.next e (w.server.installEntry nick entry)).Queues ∧
      (w.next e (w.server.installEntry nick entry)).Book := by
  have hsettles : Settles w (w.next e (w.server.installEntry nick entry))
      ((w.server.waiters.get nick).getD []) (.device entry) := by
    rw [hnext]
    exact ⟨rfl, rfl, rfl, rfl, fun p hp => ⟨nick, hq.mem_getD.mp hp⟩, queue_distinct hq nick⟩
  have hids := hsettles.ids hq
  have hborn := hsettles.born hq
  have hstill : ∀ id, id ∈ w.stillWaiting nick ↔
      id ∈ ((w.server.waiters.get nick).getD []).map PendingConnect.id := by
    intro id
    rw [mem_stillWaiting hq hb, List.mem_map]
    exact exists_congr fun p => and_congr_left fun _ => hq.mem_getD.symm
  have hbook : (w.next e (w.server.installEntry nick entry)).Book := by
    refine hsettles.book hb ?_ ?_ ?_ ?_ ?_ ?_ <;> rw [hnext]
    · exact fun id hid => Or.inl hid
    · exact fun id hid => Or.inl (hb.closed id hid)
    · intro a ha
      rcases List.mem_append.mp ha with hnew | hold
      · obtain ⟨id, hid, rfl⟩ := List.mem_map.mp hnew
        exact Or.inr ⟨(hstill id).mp hid, rfl⟩
      · exact Or.inl hold
    · exact ⟨List.Subset.refl _, List.Subset.refl _, List.subset_append_right _ _⟩
    · intro p hp
      refine Or.inr (Or.inr ?_)
      rw [List.map_append, List.map_map]
      exact List.mem_append_left _
        (List.mem_map.mpr ⟨p.id, (hstill _).mpr (List.mem_map_of_mem hp), rfl⟩)
    · intro p hp entry' hsame
      cases hsame
      exact List.mem_append_left _
        (List.mem_map.mpr ⟨p.id, (hstill _).mpr (List.mem_map_of_mem hp), rfl⟩)
  refine ⟨?_, hbook⟩
  rw [hnext] at hids hborn ⊢
  refine ⟨fun nick' p => ?_, fun nick' hget => ?_, fun nick' entry' he => ?_, fun hb => ?_,
    fun nick' l hl => ?_, hids, hborn⟩
  · show (nick', p) ∈ disarm w.timers _ ↔ ∃ l, (w.server.waiters.delete nick).get nick' = some l ∧ p ∈ l
    rw [mem_disarm, hq.mem_getD]
    by_cases hnick : nick = nick'
    · subst hnick
      rw [InsertMap.get_delete_self]
      simp
    · rw [InsertMap.get_delete_ne _ hnick, ← hq.queue]
      constructor
      · exact fun hmem => hmem.1
      · intro hmem
        refine ⟨hmem, fun hother => hnick ?_⟩
        exact (Prod.mk.inj (hq.timer_inj hother hmem rfl)).1
  · exact hq.nonempty nick' (InsertMap.get_delete_eq_some hget).2
  · show (w.server.waiters.delete nick).get nick' = none
    rcases InsertMap.get_set_eq_some he with ⟨rfl, -⟩ | ⟨hkey, hold⟩
    · exact InsertMap.get_delete_self _ _
    · rw [InsertMap.get_delete_ne _ (Ne.symm hkey)]
      exact hq.registered nick' entry' hold
  · show disarm w.timers _ = []
    rw [hq.unbound hb]
    rfl
  · exact hq.lists nick' l (InsertMap.get_delete_eq_some hl).2

theorem get_waitExpired (s : SshServer) (nick nick' : String) (p : PendingConnect) :
    (s.waitExpired nick p).waiters.get nick' =
      if nick = nick' then
        if ((s.waiters.get nick).getD []).erase p = [] then none
        else some (((s.waiters.get nick).getD []).erase p)
      else s.waiters.get nick' := by
  unfold SshServer.waitExpired
  dsimp only
  split
  · rw [InsertMap.get_delete]
  · rw [InsertMap.get_set]

theorem fire_keeps (hq : w.Queues) (hb : w.Book) {nick : String} {p : PendingConnect}
    (hp : (nick, p) ∈ w.timers) : (w.fire nick p).Queues ∧ (w.fire nick p).Book := by
  have hsettles : Settles w (w.fire nick p) [p] (.failed ("device '" ++ nick ++
      "' not connected (waited " ++ toString p.timeoutMs ++ "ms)")) := by
    refine ⟨rfl, rfl, rfl, rfl, fun x hx => ?_, List.nodup_singleton _⟩
    rw [List.mem_singleton.mp hx]
    exact ⟨nick, hp⟩
  have hbook : (w.fire nick p).Book := by
    refine hsettles.book hb ?_ (fun id hid => Or.inl (hb.closed id hid)) (fun a ha => Or.inl ha)
      ⟨List.subset_cons_self _ _, List.Subset.refl _, List.Subset.refl _⟩ ?_ ?_
    · intro id hid
      rcases List.mem_cons.mp hid with rfl | hold
      · exact Or.inr List.mem_cons_self
      · exact Or.inl hold
    · intro x hx
      rw [List.mem_singleton.mp hx]
      exact Or.inl List.mem_cons_self
    · intro x _ entry hdev
      contradiction
  have hnodup : ((w.server.waiters.get nick).getD []).Nodup := (queue_distinct hq nick).of_map
  have hmem : p ∈ (w.server.waiters.get nick).getD [] := hq.mem_getD.mpr hp
  refine ⟨⟨fun nick' x => ?_, fun nick' hget => ?_, fun nick' entry he => ?_, fun hunbound => ?_,
    fun nick' l hl => ?_, hsettles.ids hq, hsettles.born hq⟩, hbook⟩
  · show (nick', x) ∈ disarm w.timers [p] ↔
      ∃ l, (w.server.waitExpired nick p).waiters.get nick' = some l ∧ x ∈ l
    rw [mem_disarm, get_waitExpired, List.mem_singleton]
    by_cases hnick : nick = nick'
    · subst hnick
      rw [if_pos rfl, ← hq.mem_getD, and_comm, ← hnodup.mem_erase_iff]
      split
      next hnil => simp [hnil]
      next hsome => simp
    · rw [if_neg hnick, ← hq.queue]
      constructor
      · exact fun h => h.1
      · intro h
        refine ⟨h, ?_⟩
        rintro rfl
        exact hnick (Prod.mk.inj (hq.timer_inj hp h rfl)).1
  · have hexpired : (w.server.waitExpired nick p).waiters.get nick' = some [] := hget
    rw [get_waitExpired] at hexpired
    split at hexpired
    · split at hexpired
      · contradiction
      next hsome => exact hsome (Option.some.inj hexpired)
    · exact hq.nonempty nick' hexpired
  · have hnone := hq.registered nick' entry he
    show (w.server.waitExpired nick p).waiters.get nick' = none
    rw [get_waitExpired]
    split
    next hsame =>
      subst hsame
      rw [hnone] at hmem
      contradiction
    · exact hnone
  · rw [hq.unbound hunbound] at hp
    contradiction
  · have hexpired : (w.server.waitExpired nick p).waiters.get nick' = some l := hl
    rw [get_waitExpired] at hexpired
    split at hexpired
    · split at hexpired
      · contradiction
      · rw [← Option.some.inj hexpired]
        exact (queue_distinct hq nick).sublist (List.erase_sublist.map _)
    · exact hq.lists nick' l hexpired

theorem mem_queued {p : PendingConnect} (hq : w.Queues) :
    p ∈ (w.server.waiters.entries.map (·.2)).flatten ↔ ∃ nick, (nick, p) ∈ w.timers := by
  rw [List.mem_flatten]
  constructor
  · rintro ⟨l, hl, hp⟩
    obtain ⟨⟨nick, l'⟩, hentry, rfl⟩ := List.mem_map.mp hl
    exact ⟨nick, (hq.queue nick p).mpr ⟨l', (InsertMap.get_eq_some_iff _).mpr hentry, hp⟩⟩
  · rintro ⟨nick, ht⟩
    obtain ⟨l, hget, hp⟩ := (hq.queue nick p).mp ht
    exact ⟨l, List.mem_map.mpr ⟨(nick, l), (InsertMap.get_eq_some_iff _).mp hget, rfl⟩, hp⟩

theorem queued_distinct (hq : w.Queues) :
    ((w.server.waiters.entries.map (·.2)).flatten.map PendingConnect.id).Nodup := by
  have hget : ∀ x ∈ w.server.waiters.entries, w.server.waiters.get x.1 = some x.2 :=
    fun x hx => (InsertMap.get_eq_some_iff _).mpr hx
  rw [List.map_flatten, List.map_map, List.nodup_flatten]
  constructor
  · intro l hl
    obtain ⟨x, hx, rfl⟩ := List.mem_map.mp hl
    exact hq.lists x.1 x.2 (hget x hx)
  · rw [List.pairwise_map]
    refine (List.pairwise_map.mp w.server.waiters.nodup).imp_of_mem ?_
    intro x y hx hy hne id hid hid'
    obtain ⟨p, hp, rfl⟩ := List.mem_map.mp hid
    obtain ⟨p', hp', hsame⟩ := List.mem_map.mp hid'
    have ht : (x.1, p) ∈ w.timers := (hq.queue _ _).mpr ⟨x.2, hget x hx, hp⟩
    have ht' : (y.1, p') ∈ w.timers := (hq.queue _ _).mpr ⟨y.2, hget y hy, hp'⟩
    exact hne (Prod.mk.inj (hq.timer_inj ht ht' hsame.symm)).1

theorem next_close {ps : List PendingConnect} (hset : setTimeout w.server e = [])
    (hclear : clearTimeout w.server e = ps) (hforward : Routing.forwardOf w.server e = none)
    (hclose : isClose e = true) :
    w.next e w.server.close = { w with
      server := w.server.close
      timers := disarm w.timers ps
      closed := w.begun.map Prod.fst ++ w.closed } := by
  unfold next arrivals
  rw [hset, hclear, hforward, hclose]
  rfl

/-- A call of `close` settles everyone who waits; on a server that is not bound nobody does. -/
theorem close_keeps (hq : w.Queues) (hb : w.Book) {ps : List PendingConnect}
    (hps : ps = if w.server.bound then (w.server.waiters.entries.map (·.2)).flatten else [])
    (hnext : w.next e w.server.close = { w with
      server := w.server.close
      timers := disarm w.timers ps
      closed := w.begun.map Prod.fst ++ w.closed }) :
    (w.next e w.server.close).Queues ∧ (w.next e w.server.close).Book := by
  have hall : ∀ t ∈ w.timers, t.2 ∈ ps := by
    intro t ht
    cases hbound : w.server.bound with
    | false =>
      rw [hq.unbound hbound] at ht
      contradiction
    | true =>
      rw [hps, hbound]
      exact (mem_queued hq).mpr ⟨t.1, ht⟩
  have hnone : disarm w.timers ps = [] := by
    unfold disarm
    rw [List.filter_eq_nil_iff]
    intro t ht
    simpa using hall t ht
  have hsettles : Settles w (w.next e w.server.close) ps (.failed "SshServer closed") := by
    rw [hnext]
    refine ⟨rfl, ?_, ?_, rfl, fun p hp => ?_, ?_⟩
    · show w.server.close.settled = _
      unfold SshServer.close
      cases hbound : w.server.bound with
      | false => simp [hps, hbound]
      | true => simp [hps, hbound]
    · show w.server.close.nextWaiter = _
      unfold SshServer.close
      split <;> rfl
    · rw [hps] at hp
      split at hp
      · exact (mem_queued hq).mp hp
      · contradiction
    · rw [hps]
      split
      · exact queued_distinct hq
      · exact List.nodup_nil
  have hids := hsettles.ids hq
  have hborn := hsettles.born hq
  have hbook : (w.next e w.server.close).Book := by
    refine hsettles.book hb ?_ ?_ ?_ ?_ ?_ ?_ <;> rw [hnext]
    · exact fun id hid => Or.inl hid
    · intro id hid
      rcases List.mem_append.mp hid with hbegun | hold
      · obtain ⟨b, hmem, rfl⟩ := List.mem_map.mp hbegun
        rcases hb.held b hmem with hsettled | ⟨p, hp, hid⟩
        · exact Or.inl hsettled
        · exact Or.inr (List.mem_map.mpr ⟨p, hall _ hp, hid⟩)
      · exact Or.inl (hb.closed id hold)
    · exact fun a ha => Or.inl ha
    · exact ⟨List.Subset.refl _, List.subset_append_right _ _, List.Subset.refl _⟩
    · intro p hp
      obtain ⟨nick, ht⟩ := hsettles.armed p hp
      refine Or.inr (Or.inl (List.mem_append_left _ ?_))
      exact List.mem_map.mpr ⟨_, hb.begun _ ht, rfl⟩
    · intro p _ entry hdev
      contradiction
  refine ⟨?_, hbook⟩
  rw [hnext, hnone] at hids hborn ⊢
  have hget : ∀ nick, w.server.close.waiters.get nick = none := by
    intro nick
    unfold SshServer.close
    cases hbound : w.server.bound with
    | false =>
      have hempty := hq.queue nick
      rw [hq.unbound hbound] at hempty
      cases hwait : w.server.waiters.get nick with
      | none => simpa using hwait
      | some l =>
        cases l with
        | nil => exact absurd hwait (hq.nonempty nick)
        | cons p l => exact absurd ((hempty p).mpr ⟨_, hwait, List.mem_cons_self⟩) List.not_mem_nil
    | true => rfl
  refine ⟨fun nick p => ?_, fun nick hnil => ?_, fun nick _ _ => hget nick, fun _ => rfl,
    fun nick l hl => ?_, hids, hborn⟩
  · show _ ↔ ∃ l, w.server.close.waiters.get nick = some l ∧ p ∈ l
    simp [hget]
  · have hsome : w.server.close.waiters.get nick = some [] := hnil
    rw [hget] at hsome
    contradiction
  · have hsome : w.server.close.waiters.get nick = some l := hl
    rw [hget] at hsome
    contradiction

/-- What holds of the timers and of the book is kept by every step of the server. -/
theorem effect_keeps (hq : w.Queues) (hb : w.Book) (h : Effect w.server e t) :
    (w.next e t).Queues ∧ (w.next e t).Book := by
  cases h with
  | idle hidle hset hclear hforward hclose =>
    rw [next_server hset hclear hforward hclose]
    exact ⟨queues_idle hq hidle, book_server hb hidle.settled⟩
  | answered outcome hset hclear hforward hclose =>
    rw [next_server hset hclear hforward hclose]
    exact ⟨queues_answer hq outcome, book_answer hq hb outcome⟩
  | queued nick timeoutMs hbound hnone hset hclear hforward hclose =>
    change (w.next e (w.await nick timeoutMs).server).Queues ∧
      (w.next e (w.await nick timeoutMs).server).Book
    rw [next_await hset hclear hforward hclose]
    exact ⟨queues_await hq hbound hnone timeoutMs, book_await hq hb nick timeoutMs⟩
  | installed nick entry hset hclear hforward hclose =>
    exact install_keeps hq hb (next_install hset hclear hforward hclose)
  | close hset hclear hforward hclose =>
    exact close_keeps hq hb rfl (next_close hset hclear hforward hclose)

end

/-! ### Every run -/

theorem step_cases {verify : Ed25519} {w w' : Waiting} {e : Event} (h : (machine verify).step w e = some w') :
    (∃ x s, e = .server x ∧ Effect w.server x s ∧ w.server.step verify x = some s ∧ w' = w.next x s) ∨
    ∃ nick p, e = .fire nick p ∧ (nick, p) ∈ w.timers ∧ w' = w.fire nick p := by
  cases e with
  | server x =>
    change (if isTimer x = true then none else _) = some w' at h
    split at h
    · contradiction
    next htimer =>
      obtain ⟨s, hstep, rfl⟩ := Option.map_eq_some_iff.mp h
      exact Or.inl ⟨x, s, rfl, effect_of_step hstep htimer, hstep, rfl⟩
  | fire nick p =>
    change (if (nick, p) ∈ w.timers then _ else none) = some w' at h
    split at h
    next hp =>
      cases h
      exact Or.inr ⟨nick, p, rfl, hp, rfl⟩
    · contradiction

theorem inv_reach {verify : Ed25519} {w : Waiting} (h : (machine verify).Reach always w) :
    w.Queues ∧ w.Book := by
  refine h.invariant (P := fun w => w.Queues ∧ w.Book) ?_ ?_
  · rintro _ rfl
    exact ⟨queues_initial, book_initial⟩
  · intro w e w' _ hinv hs _
    rcases step_cases hs with ⟨x, s, -, heffect, -, rfl⟩ | ⟨nick, p, -, hp, rfl⟩
    · exact effect_keeps hinv.1 hinv.2 heffect
    · exact fire_keeps hinv.1 hinv.2 hp

/-- A timer fires only for a waiter in a queue, so the server takes the step of its own machine. -/
theorem server_reach {verify : Ed25519} {w : Waiting} (h : (machine verify).Reach always w) :
    (SshServer.machine verify).Reach always w.server := by
  refine h.simulation Waiting.server ?_ ?_
  · rintro _ rfl
    rfl
  · intro w e w' hw ih hs _
    rcases step_cases hs with ⟨x, s, -, -, hstep, rfl⟩ | ⟨nick, p, -, hp, rfl⟩
    · exact ih.step hstep trivial
    · have hqueued := (inv_reach hw).1.mem_getD.mpr hp
      have hexpired : (SshServer.machine verify).step w.server (.waitExpired nick p) =
          some (w.fire nick p).server := if_pos hqueued
      exact ih.step hexpired trivial

/-- Each waiter is settled once and by the right device. -/
structure SettledOnce (w : Waiting) : Prop where
  once : w.settledIds.Nodup
  fired : ∀ id ∈ w.fired, id ∈ w.settledIds
  closed : ∀ id ∈ w.closed, id ∈ w.settledIds
  registered : ∀ nick entry, w.server.registry.get nick = some entry → w.server.waiters.get nick = none
  arrived : ∀ id entry, (id, entry) ∈ w.arrived → (id, .device entry) ∈ w.server.settled
  own : ∀ id nick entry, (id, nick) ∈ w.begun → (id, .device entry) ∈ w.server.settled →
    (id, entry) ∈ w.arrived
  nonempty : ∀ nick, w.server.waiters.get nick ≠ some []

theorem settledOnce_reach (verify : Ed25519) (w : Waiting) (h : (machine verify).Reach always w) :
    w.SettledOnce := by
  obtain ⟨hq, hb⟩ := inv_reach h
  constructor
  · exact (List.nodup_append.mp hq.ids).2.1
  · exact hb.fired
  · exact hb.closed
  · exact hq.registered
  · exact fun id entry hmem => hb.arrived _ hmem
  · exact fun id nick entry hmem hdev => hb.own _ hmem entry hdev
  · exact hq.nonempty

/-- One waiter's device registers, one's timer fires, and one is there when the server closes. -/
def waitingRun : List Event :=
  [.server (.listen SshServer.sampleConfig), .server .bound, .server (.connect "q1"),
    .server (.connect "q2"), .server .connection,
    .server (.authentication 0 1700000000000 SshServer.copiedCertificate),
    .server (.request 0 "tcpip-forward" none),
    .fire "q2" ⟨1, SshServer.sampleConfig.connectTimeoutMs⟩, .server (.connect "q2"), .server .close]

theorem waitingRun_settled :
    ((machine SshServer.caOnly).after always initial waitingRun).settledIds = [0, 1, 2] ∧
      ((machine SshServer.caOnly).after always initial waitingRun).SettledOnce :=
  ⟨by decide +kernel, settledOnce_reach SshServer.caOnly _ ((Machine.Reach.init rfl).after waitingRun)⟩

end Waiting

end UnoQ.Ssh
