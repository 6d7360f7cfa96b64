import Mathlib.Data.List.Induction
import UnoQ.Nodes.RateLimiter

/-!
# The retry hint

A refusal by `checkRateLimit` names the moment at which the oldest call leaves the window. That is
the moment at which a call is allowed again as long as no more than the cap are left behind it: the
history of a key may be longer than the cap when the cap was lowered, or not yet there, while the
calls were made.
-/

namespace UnoQ.Nodes.RateLimiter
open RateLimitWindow

/-- The history after these calls of `recordCall`. -/
def recorded (calls : List (String × ℤ)) : RateLimiter :=
  calls.foldl (fun s call => s.recordCall call.1 call.2) initial

theorem recorded_snoc (calls : List (String × ℤ)) (key : String) (now : ℤ) :
    recorded (calls ++ [(key, now)]) = (recorded calls).recordCall key now := by
  unfold recorded
  rw [List.foldl_append]
  rfl

theorem timestamps_recorded (calls : List (String × ℤ)) (key : String) :
    ((recorded calls).timestamps key).Sublist (calls.map Prod.snd) := by
  induction calls using List.reverseRecOn with
  | nil => exact List.Sublist.slnil
  | append_singleton calls call ih =>
    obtain ⟨key', now⟩ := call
    rw [recorded_snoc, timestamps_recordCall, List.map_append]
    by_cases hk : key' = key
    · subst hk
      rw [if_pos rfl]
      have hkept : (Windows.after (now - day.WINDOW_MS) ((recorded calls).timestamps key')).Sublist
          (calls.map Prod.snd) := List.filter_sublist.trans ih
      exact hkept.append (List.Sublist.refl [now])
    · rw [if_neg hk]
      exact ih.trans (List.sublist_append_left _ _)

theorem timestamps_ordered {calls : List (String × ℤ)}
    (h : (calls.map Prod.snd).Pairwise (· ≤ ·)) (key : String) :
    ((recorded calls).timestamps key).Pairwise (· ≤ ·) :=
  h.sublist (timestamps_recorded calls key)

/-! ### What the hint promises -/

/-- The calls in the window that are later than the oldest one there. -/
def laterThanOldest (s : RateLimiter) (key : String) (window : RateLimitWindow) (now : ℤ) : ℕ :=
  match s.activeTimestamps key window.WINDOW_MS now with
  | [] => 0
  | oldest :: rest => (Windows.after oldest rest).length

/-- With nothing recorded in between, calls are refused until the hint is over, and allowed then. -/
structure HintExact (s : RateLimiter) (key : String) (maxCalls : ℤ) (window : RateLimitWindow)
    (now retryAfterMs : ℤ) : Prop where
  refused : ∀ t, now ≤ t → t < now + retryAfterMs → s.checkRateLimit key maxCalls window t ≠ .allowed
  allowed : s.checkRateLimit key maxCalls window (now + retryAfterMs) = .allowed

section Refusal

variable {s : RateLimiter} {key : String} {window : RateLimitWindow} {now oldest : ℤ}
variable {rest : List ℤ}

theorem oldest_le (hs : (s.timestamps key).Pairwise (· ≤ ·))
    (hactive : s.activeTimestamps key window.WINDOW_MS now = oldest :: rest) :
    ∀ x ∈ oldest :: rest, oldest ≤ x := by
  have hsorted : (oldest :: rest).Pairwise (· ≤ ·) := by
    rw [← hactive]
    exact hs.sublist List.filter_sublist
  intro x hx
  rcases List.mem_cons.mp hx with rfl | hx
  · exact le_rfl
  · exact List.rel_of_pairwise_cons hsorted hx

/-- No call leaves the window before the oldest one. -/
theorem active_until (hs : (s.timestamps key).Pairwise (· ≤ ·))
    (hactive : s.activeTimestamps key window.WINDOW_MS now = oldest :: rest) {t : ℤ}
    (hnow : now ≤ t) (ht : t < oldest + window.WINDOW_MS) :
    s.activeTimestamps key window.WINDOW_MS t = oldest :: rest := by
  have hcut : now - window.WINDOW_MS ≤ t - window.WINDOW_MS := by omega
  have hsame : Windows.after (t - window.WINDOW_MS) (oldest :: rest) = oldest :: rest := by
    refine List.filter_eq_self.mpr fun x hx => ?_
    have hle := oldest_le hs hactive x hx
    have hlt : t - window.WINDOW_MS < x := by omega
    simpa using hlt
  have hlater := Windows.after_after hcut (s.timestamps key)
  unfold activeTimestamps at hactive ⊢
  rw [← hlater, hactive, hsame]

/-- When the oldest call leaves the window, those that were made with it leave too. -/
theorem countInWindow_expiry
    (hactive : s.activeTimestamps key window.WINDOW_MS now = oldest :: rest) :
    s.countInWindow key window (oldest + window.WINDOW_MS) = s.laterThanOldest key window now := by
  have hmem : oldest ∈ s.activeTimestamps key window.WINDOW_MS now := by
    rw [hactive]
    exact List.mem_cons_self
  have hin : now - window.WINDOW_MS < oldest := by
    simpa using List.of_mem_filter hmem
  have hcut : oldest + window.WINDOW_MS - window.WINDOW_MS = oldest := by omega
  have hlater := Windows.after_after hin.le (s.timestamps key)
  have hhead : Windows.after oldest (oldest :: rest) = Windows.after oldest rest := by
    simp [Windows.after]
  unfold laterThanOldest countInWindow
  rw [hactive]
  unfold activeTimestamps at hactive ⊢
  rw [hcut, ← hlater, hactive, hhead]

end Refusal

/-- The hint of a refusal is exact if and only if fewer calls than the cap are later than the oldest
one in the window. -/
theorem hintExact_iff (calls : List (String × ℤ)) (hcalls : (calls.map Prod.snd).Pairwise (· ≤ ·))
    (key : String) (maxCalls : ℤ) (hcap : 1 ≤ maxCalls) (window : RateLimitWindow) (now ms : ℤ)
    (hrefused : (recorded calls).checkRateLimit key maxCalls window now = .refused (some ms)) :
    (recorded calls).HintExact key maxCalls window now ms ↔
      ((recorded calls).laterThanOldest key window now : ℤ) < maxCalls := by
  have hs := timestamps_ordered hcalls key
  generalize recorded calls = s at hrefused hs ⊢
  obtain ⟨ms', hms', hpos, hresets⟩ := checkRateLimit_refused (by omega) hrefused
  cases hms'
  unfold resetsInMs at hresets
  cases hactive : s.activeTimestamps key window.WINDOW_MS now with
  | nil =>
    rw [hactive] at hresets
    contradiction
  | cons oldest rest =>
    rw [hactive, List.head?_cons, Option.map_some, Option.some.injEq] at hresets
    have hend : now + ms = oldest + window.WINDOW_MS := by omega
    have hexpiry := countInWindow_expiry hactive
    constructor
    · intro h
      have hallowed := (checkRateLimit_allowed ..).mp h.allowed
      rw [hend, hexpiry] at hallowed
      exact hallowed
    · intro h
      constructor
      · intro t hnow ht hallowed
        rw [checkRateLimit_allowed] at hallowed
        have hcount : s.countInWindow key window t = s.countInWindow key window now := by
          unfold countInWindow
          rw [active_until hs hactive hnow (by omega), hactive]
        have hover : ¬ ((s.countInWindow key window now : ℕ) : ℤ) < maxCalls := by
          intro hlt
          rw [(checkRateLimit_allowed ..).mpr hlt] at hrefused
          contradiction
        rw [hcount] at hallowed
        exact hover hallowed
      · rw [checkRateLimit_allowed, hend, hexpiry]
        exact h

/-- Two calls of a tool, a second apart. -/
def twoCalls : List (String × ℤ) := [("tool", 0), ("tool", 1000)]

/-- A cap that the calls have just reached. -/
theorem reachedCap_exact :
    (recorded twoCalls).checkRateLimit "tool" 2 .minute 2000 = .refused (some 58000) ∧
      (recorded twoCalls).HintExact "tool" 2 .minute 2000 58000 :=
  ⟨by decide +kernel, (hintExact_iff twoCalls (by decide) "tool" 2 (by decide) .minute 2000 58000
    (by decide +kernel)).mpr (by decide +kernel)⟩

/-- A cap that was lowered after the calls: when the first has left the window, the second still
fills it. -/
theorem loweredCap_inexact : ¬ ∀ (calls : List (String × ℤ)), (calls.map Prod.snd).Pairwise (· ≤ ·) →
    ∀ (key : String) (maxCalls : ℤ), 1 ≤ maxCalls → ∀ (window : RateLimitWindow) (now ms : ℤ),
      (recorded calls).checkRateLimit key maxCalls window now = .refused (some ms) →
        (recorded calls).HintExact key maxCalls window now ms := by
  intro hall
  have hexact := hall twoCalls (by decide) "tool" 1 (by decide) .minute 2000 58000 (by decide +kernel)
  have hrefused : (recorded twoCalls).checkRateLimit "tool" 1 .minute (2000 + 58000) ≠ .allowed := by
    decide +kernel
  exact hrefused hexact.allowed

end UnoQ.Nodes.RateLimiter
