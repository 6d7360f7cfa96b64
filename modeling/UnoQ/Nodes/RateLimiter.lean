import UnoQ.Lib.InsertMap
import UnoQ.Lib.Windows

/-!
# The rate limiter

The call history that the Rate Limit field and the guards of a node package look at: the
times of the calls of each counter key, kept for a day. Both packages have the same code,
and a history of their own.
-/

namespace UnoQ.Nodes

inductive RateLimitWindow
  | minute
  | hour
  | day
  deriving DecidableEq

namespace RateLimitWindow

def text : RateLimitWindow → String
  | .minute => "minute"
  | .hour => "hour"
  | .day => "day"

def WINDOW_MS : RateLimitWindow → ℤ
  | .minute => 60000
  | .hour => 3600000
  | .day => 86400000

theorem ms_le_day (window : RateLimitWindow) : window.WINDOW_MS ≤ day.WINDOW_MS := by
  cases window <;> decide

end RateLimitWindow

/-- A refusal says when a slot is free; the time is not a number where a cap below one finds no
call. -/
inductive RateLimitVerdict
  | allowed
  | refused (retryAfterMs : Option ℤ)
  deriving DecidableEq

structure RateLimiter where
  counters : InsertMap String (List ℤ)

namespace RateLimiter
open RateLimitWindow

def initial : RateLimiter := ⟨InsertMap.empty⟩

def timestamps (s : RateLimiter) (key : String) : List ℤ := (s.counters.get key).getD []

def activeTimestamps (s : RateLimiter) (key : String) (windowMs now : ℤ) : List ℤ :=
  Windows.after (now - windowMs) (s.timestamps key)

def checkRateLimit (s : RateLimiter) (key : String) (maxCalls : ℤ) (window : RateLimitWindow)
    (now : ℤ) : RateLimitVerdict :=
  let active := s.activeTimestamps key window.WINDOW_MS now
  if maxCalls ≤ active.length then
    .refused (active.head?.map fun oldest => max 0 (oldest + window.WINDOW_MS - now))
  else .allowed

def countInWindow (s : RateLimiter) (key : String) (window : RateLimitWindow) (now : ℤ) : ℕ :=
  (s.activeTimestamps key window.WINDOW_MS now).length

def resetsInMs (s : RateLimiter) (key : String) (window : RateLimitWindow) (now : ℤ) : Option ℤ :=
  (s.activeTimestamps key window.WINDOW_MS now).head?.map fun oldest =>
    max 0 (oldest + window.WINDOW_MS - now)

def recordCall (s : RateLimiter) (key : String) (now : ℤ) : RateLimiter :=
  let existing := Windows.after (now - day.WINDOW_MS) (s.timestamps key)
  ⟨s.counters.set key (existing ++ [now])⟩

@[simp] theorem timestamps_initial (key : String) : initial.timestamps key = [] := rfl

theorem timestamps_recordCall (s : RateLimiter) (key key' : String) (now : ℤ) :
    (s.recordCall key now).timestamps key' =
      if key = key' then Windows.after (now - day.WINDOW_MS) (s.timestamps key) ++ [now]
      else s.timestamps key' := by
  unfold recordCall
  simp only [timestamps, InsertMap.get_set]
  by_cases hk : key = key'
  · rw [if_pos hk, if_pos hk, Option.getD_some]
  · rw [if_neg hk, if_neg hk]

/-- A call is allowed exactly when fewer than the cap are in the window. -/
theorem checkRateLimit_allowed (s : RateLimiter) (key : String) (maxCalls : ℤ)
    (window : RateLimitWindow) (now : ℤ) :
    s.checkRateLimit key maxCalls window now = .allowed ↔
      ((s.countInWindow key window now : ℕ) : ℤ) < maxCalls := by
  unfold checkRateLimit countInWindow
  by_cases h : maxCalls ≤ ((s.activeTimestamps key window.WINDOW_MS now).length : ℤ)
  · rw [if_pos h]
    constructor
    · intro he
      contradiction
    · intro hlt
      omega
  · rw [if_neg h]
    constructor
    · intro _
      omega
    · intro _
      rfl

/-- A positive cap that refuses a call says how long the oldest call stays in the window. -/
theorem checkRateLimit_refused {s : RateLimiter} {key : String} {maxCalls : ℤ}
    {window : RateLimitWindow} {now : ℤ} {retryAfterMs : Option ℤ} (hcap : 0 < maxCalls)
    (h : s.checkRateLimit key maxCalls window now = .refused retryAfterMs) :
    ∃ ms, retryAfterMs = some ms ∧ 0 < ms ∧ s.resetsInMs key window now = some ms := by
  unfold checkRateLimit at h
  by_cases hc : maxCalls ≤ ((s.activeTimestamps key window.WINDOW_MS now).length : ℤ)
  · rw [if_pos hc] at h
    injection h with h
    cases hl : s.activeTimestamps key window.WINDOW_MS now with
    | nil =>
      rw [hl, List.length_nil] at hc
      omega
    | cons oldest rest =>
      have hmem : oldest ∈ s.activeTimestamps key window.WINDOW_MS now := by simp [hl]
      have hactive : now - window.WINDOW_MS < oldest := by
        simpa using List.of_mem_filter hmem
      rw [hl, List.head?_cons, Option.map_some] at h
      refine ⟨max 0 (oldest + window.WINDOW_MS - now), h.symm, ?_, ?_⟩
      · omega
      · unfold resetsInMs
        rw [hl, List.head?_cons, Option.map_some]
  · rw [if_neg hc] at h
    contradiction

end RateLimiter

end UnoQ.Nodes
