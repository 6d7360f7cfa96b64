import UnoQ.Ssh.Waiters

/-!
# The queues and the book

Which timers are set, and what the record of the waiters says of how their calls were settled.
Whoever settles waiters, be it a registration, a timer or `close`, takes away their timers and
enters them in the record.
-/

namespace UnoQ.Ssh
namespace Waiting

/-! ### Timers and queues -/

def timerIds (w : Waiting) : List ℕ := w.timers.map fun t => t.2.id

def settledIds (w : Waiting) : List ℕ := w.server.settled.map Prod.fst

/-- A timer is set exactly for the waiters in the queues, and no waiter with a timer is settled. -/
structure Queues (w : Waiting) : Prop where
  queue : ∀ nick p, (nick, p) ∈ w.timers ↔ ∃ l, w.server.waiters.get nick = some l ∧ p ∈ l
  nonempty : ∀ nick, w.server.waiters.get nick ≠ some []
  registered : ∀ nick entry, w.server.registry.get nick = some entry →
    w.server.waiters.get nick = none
  unbound : w.server.bound = false → w.timers = []
  lists : ∀ nick l, w.server.waiters.get nick = some l → (l.map PendingConnect.id).Nodup
  ids : (w.timerIds ++ w.settledIds).Nodup
  born : ∀ id ∈ w.timerIds ++ w.settledIds, id < w.server.nextWaiter

/-- What has befallen the waiters agrees with how their calls were settled. -/
structure Book (w : Waiting) : Prop where
  begun : ∀ t ∈ w.timers, (t.2.id, t.1) ∈ w.begun
  named : (w.begun.map Prod.fst).Nodup
  held : ∀ b ∈ w.begun, b.1 ∈ w.settledIds ∨ ∃ p, (b.2, p) ∈ w.timers ∧ p.id = b.1
  done : ∀ b ∈ w.begun, b.1 ∈ w.settledIds →
    b.1 ∈ w.fired ∨ b.1 ∈ w.closed ∨ b.1 ∈ w.arrived.map Prod.fst
  fired : ∀ id ∈ w.fired, id ∈ w.settledIds
  closed : ∀ id ∈ w.closed, id ∈ w.settledIds
  arrived : ∀ a ∈ w.arrived, (a.1, .device a.2) ∈ w.server.settled
  own : ∀ b ∈ w.begun, ∀ entry, (b.1, .device entry) ∈ w.server.settled → (b.1, entry) ∈ w.arrived

theorem mem_timerIds {w : Waiting} {t : String × PendingConnect} (h : t ∈ w.timers) :
    t.2.id ∈ w.timerIds := List.mem_map_of_mem (f := fun t => t.2.id) h

theorem mem_settledIds {w : Waiting} {id : ℕ} {outcome : WaitOutcome}
    (h : (id, outcome) ∈ w.server.settled) : id ∈ w.settledIds :=
  List.mem_map_of_mem (f := Prod.fst) h

namespace Queues

theorem timer_inj {w : Waiting} (h : w.Queues) {t u : String × PendingConnect} (ht : t ∈ w.timers)
    (hu : u ∈ w.timers) (hid : t.2.id = u.2.id) : t = u :=
  List.inj_on_of_nodup_map (List.nodup_append.mp h.ids).1 ht hu hid

theorem unsettled {w : Waiting} (h : w.Queues) {t : String × PendingConnect} (ht : t ∈ w.timers) :
    t.2.id ∉ w.settledIds :=
  fun hs => (List.nodup_append.mp h.ids).2.2 _ (mem_timerIds ht) _ hs rfl

theorem mem_getD {w : Waiting} (h : w.Queues) {nick : String} {p : PendingConnect} :
    p ∈ (w.server.waiters.get nick).getD [] ↔ (nick, p) ∈ w.timers := by
  rw [h.queue]
  cases w.server.waiters.get nick with
  | none => simp
  | some l => simp

end Queues

theorem queues_initial : initial.Queues where
  queue _ _ := by simp [initial, SshServer.initial]
  nonempty _ := by simp [initial, SshServer.initial]
  registered _ _ h := by contradiction
  unbound _ := rfl
  lists _ _ h := by contradiction
  ids := List.nodup_nil
  born _ h := by contradiction

theorem book_initial : initial.Book where
  begun _ h := by contradiction
  named := List.nodup_nil
  held _ h := by contradiction
  done _ h := by contradiction
  fired _ h := by contradiction
  closed _ h := by contradiction
  arrived _ h := by contradiction
  own _ h := by contradiction

theorem mem_disarm {timers : List (String × PendingConnect)} {ps : List PendingConnect}
    {t : String × PendingConnect} : t ∈ disarm timers ps ↔ t ∈ timers ∧ t.2 ∉ ps := by
  unfold disarm
  rw [List.mem_filter, decide_eq_true_iff]

theorem disarm_nil (timers : List (String × PendingConnect)) : disarm timers [] = timers := by
  unfold disarm
  rw [List.filter_eq_self]
  intro t _
  simp

/-! ### Settling waiters -/

/-- Some of the waiters are settled, all with one outcome, and their timers are gone. -/
structure Settles (w w' : Waiting) (ps : List PendingConnect) (outcome : WaitOutcome) : Prop where
  timers : w'.timers = disarm w.timers ps
  settled : w'.server.settled = w.server.settled ++ ps.map fun p => (p.id, outcome)
  nextWaiter : w'.server.nextWaiter = w.server.nextWaiter
  begun : w'.begun = w.begun
  armed : ∀ p ∈ ps, ∃ nick, (nick, p) ∈ w.timers
  distinct : (ps.map PendingConnect.id).Nodup

namespace Settles

variable {w w' : Waiting} {ps : List PendingConnect} {outcome : WaitOutcome}

theorem settledIds (h : Settles w w' ps outcome) :
    w'.settledIds = w.settledIds ++ ps.map PendingConnect.id := by
  unfold Waiting.settledIds
  rw [h.settled, List.map_append, List.map_map]
  rfl

theorem kept (h : Settles w w' ps outcome) {id : ℕ} (hid : id ∈ w.settledIds) : id ∈ w'.settledIds := by
  rw [h.settledIds]
  exact List.mem_append_left _ hid

theorem added (h : Settles w w' ps outcome) {id : ℕ} (hid : id ∈ ps.map PendingConnect.id) :
    id ∈ w'.settledIds := by
  rw [h.settledIds]
  exact List.mem_append_right _ hid

theorem timerIds (h : Settles w w' ps outcome) : w'.timerIds.Sublist w.timerIds := by
  unfold Waiting.timerIds
  rw [h.timers]
  exact List.Sublist.map _ List.filter_sublist

theorem pending (h : Settles w w' ps outcome) {id : ℕ} (hid : id ∈ ps.map PendingConnect.id) :
    id ∈ w.timerIds := by
  obtain ⟨p, hp, rfl⟩ := List.mem_map.mp hid
  obtain ⟨nick, hmem⟩ := h.armed p hp
  exact mem_timerIds hmem

/-- No call is settled again, and none that is settled keeps its timer. -/
theorem ids (h : Settles w w' ps outcome) (hq : w.Queues) : (w'.timerIds ++ w'.settledIds).Nodup := by
  obtain ⟨htimers, hsettled, hapart⟩ := List.nodup_append.mp hq.ids
  rw [h.settledIds]
  refine List.nodup_append.mpr ⟨htimers.sublist h.timerIds, ?_, ?_⟩
  · refine List.nodup_append.mpr ⟨hsettled, h.distinct, fun x hx y hy hxy => ?_⟩
    exact hapart y (h.pending hy) x hx hxy.symm
  · intro x hx y hy hxy
    rcases List.mem_append.mp hy with hy | hy
    · exact hapart x (h.timerIds.subset hx) y hy hxy
    · obtain ⟨t, ht, rfl⟩ := List.mem_map.mp hx
      obtain ⟨p, hp, rfl⟩ := List.mem_map.mp hy
      obtain ⟨nick, hmem⟩ := h.armed p hp
      rw [h.timers] at ht
      obtain ⟨htimer, hother⟩ := mem_disarm.mp ht
      have hsame : t = (nick, p) := hq.timer_inj htimer hmem hxy
      rw [hsame] at hother
      exact hother hp

theorem born (h : Settles w w' ps outcome) (hq : w.Queues) :
    ∀ id ∈ w'.timerIds ++ w'.settledIds, id < w'.server.nextWaiter := by
  intro id hid
  rw [h.nextWaiter]
  apply hq.born
  rw [h.settledIds] at hid
  rcases List.mem_append.mp hid with hid | hid
  · exact List.mem_append_left _ (h.timerIds.subset hid)
  · rcases List.mem_append.mp hid with hid | hid
    · exact List.mem_append_right _ hid
    · exact List.mem_append_left _ (h.pending hid)

/-- The book is kept when those who are settled are entered in it, and nobody else. -/
theorem book (h : Settles w w' ps outcome) (hb : w.Book)
    (hfired : ∀ id ∈ w'.fired, id ∈ w.fired ∨ id ∈ ps.map PendingConnect.id)
    (hclosed : ∀ id ∈ w'.closed, id ∈ w.settledIds ∨ id ∈ ps.map PendingConnect.id)
    (harrived : ∀ a ∈ w'.arrived, a ∈ w.arrived ∨ a.1 ∈ ps.map PendingConnect.id ∧ outcome = .device a.2)
    (hkept : w.fired ⊆ w'.fired ∧ w.closed ⊆ w'.closed ∧ w.arrived ⊆ w'.arrived)
    (hentered : ∀ p ∈ ps, p.id ∈ w'.fired ∨ p.id ∈ w'.closed ∨ p.id ∈ w'.arrived.map Prod.fst)
    (hdevice : ∀ p ∈ ps, ∀ entry, outcome = .device entry → (p.id, entry) ∈ w'.arrived) : w'.Book := by
  obtain ⟨hkeptFired, hkeptClosed, hkeptArrived⟩ := hkept
  constructor
  · intro t ht
    rw [h.timers] at ht
    rw [h.begun]
    exact hb.begun t (mem_disarm.mp ht).1
  · rw [h.begun]
    exact hb.named
  · intro b hmem
    rw [h.begun] at hmem
    rcases hb.held b hmem with hsettled | ⟨p, hp, hid⟩
    · exact Or.inl (h.kept hsettled)
    · by_cases hps : p ∈ ps
      · exact Or.inl (h.added (hid ▸ List.mem_map_of_mem hps))
      · refine Or.inr ⟨p, ?_, hid⟩
        rw [h.timers]
        exact mem_disarm.mpr ⟨hp, hps⟩
  · intro b hmem hsettled
    rw [h.begun] at hmem
    rw [h.settledIds] at hsettled
    rcases List.mem_append.mp hsettled with hold | hnew
    · rcases hb.done b hmem hold with hf | hc | ha
      · exact Or.inl (hkeptFired hf)
      · exact Or.inr (Or.inl (hkeptClosed hc))
      · exact Or.inr (Or.inr (List.map_subset _ hkeptArrived ha))
    · obtain ⟨p, hp, hid⟩ := List.mem_map.mp hnew
      rw [← hid]
      exact hentered p hp
  · intro id hid
    rcases hfired id hid with hold | hnew
    · exact h.kept (hb.fired id hold)
    · exact h.added hnew
  · intro id hid
    rcases hclosed id hid with hold | hnew
    · exact h.kept hold
    · exact h.added hnew
  · intro a ha
    rw [h.settled]
    rcases harrived a ha with hold | ⟨hnew, houtcome⟩
    · exact List.mem_append_left _ (hb.arrived a hold)
    · obtain ⟨p, hp, hid⟩ := List.mem_map.mp hnew
      refine List.mem_append_right _ (List.mem_map.mpr ⟨p, hp, ?_⟩)
      rw [hid, houtcome]
  · intro b hmem entry hdev
    rw [h.begun] at hmem
    rw [h.settled] at hdev
    rcases List.mem_append.mp hdev with hold | hnew
    · exact hkeptArrived (hb.own b hmem entry hold)
    · obtain ⟨p, hp, heq⟩ := List.mem_map.mp hnew
      obtain ⟨hid, houtcome⟩ := Prod.mk.inj heq
      rw [← hid]
      exact hdevice p hp entry houtcome

end Settles

end Waiting

end UnoQ.Ssh
