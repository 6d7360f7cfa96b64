import UnoQ.Client.Frames

/-!
# What a caller may rely on

The contract of `callWithOptions` and the correlation of RESPONSEs, for whole runs of a
bridge: any mix of calls, answers in any order, timers, drops, reconnects and closes.
-/

namespace UnoQ.Client.Bridge
open Codec Transition BigEndian

/-- A call that is answered out of order and twice, and one that survives a drop: its first REQUEST
is lost with the connection, its second goes out on the next. -/
def racedRun : List Event :=
  [.callWithOptions "read" [] ⟨none, some true⟩, .callWithOptions "write" [] ⟨none, none⟩,
    .data 0 [0x94, 1, 2, 0xc0, 42], .dispatch none, .data 0 [0x94, 1, 2, 0xc0, 43], .dispatch none,
    .resumeCall 1, .broken 0 true, .closed 0, .resumeCall 0, .tick 200, .reconnectTimer, .opened 0,
    .resumeReplay 0, .resumeReplay 0, .resumeCall 0, .data 1 [0x94, 1, 3, 0xc0, 44], .dispatch none,
    .resumeCall 0]

/-! ### Retries -/

/-- In every run, retries keep to the contract, by the record and by the frames. -/
theorem retryContract_reach (host : Host) (s : Bridge) (h : (machine host).Reach always s) :
    s.calls.RetryContract ∧ s.Recorded :=
  ⟨(calls_inv h).retryContract, recorded_reach h⟩

theorem racedRun_retries :
    ((machine referenceHost).after always initial racedRun).service.link.requests.length = 3 ∧
      ((machine referenceHost).after always initial racedRun).calls.RetryContract ∧
      ((machine referenceHost).after always initial racedRun).Recorded :=
  ⟨by decide +kernel, retryContract_reach referenceHost _ ((Machine.Reach.init rfl).after racedRun)⟩

/-! ### Correlation -/

theorem flagFree_noWrap : FlagFree Calls.NoWrap where
  up := fun c h => absurd h (Nat.lt_irrefl c.allocated)
  from_up := fun _ _ h => h

/-- In every run in which no attempt stays pending while 2^31 further ids are allocated, RESPONSEs
go where they belong. -/
theorem correlated_of_noWrap (host : Host) (s : Bridge)
    (h : (machine host).Reach (fun s _ t => s.calls.NoWrap t.calls) s) : s.calls.Correlated :=
  (Calls.tied_reach (calls_reach flagFree_noWrap (fun _ _ _ hg => hg) h)).correlated

/-- Fewer than 2^31 ids have been allocated in all. -/
def Unwrapped : Guard Bridge Event := fun _ _ t => t.calls.allocated < 2 ^ 31

instance (s : Bridge) (e : Event) (t : Bridge) : Decidable (Unwrapped s e t) :=
  inferInstanceAs (Decidable (t.calls.allocated < 2 ^ 31))

theorem noWrap_of_unwrapped {s : Bridge} {e : Event} {t : Bridge} (h : Unwrapped s e t) :
    s.calls.NoWrap t.calls := by
  intro _ a _
  have hlt : t.calls.allocated < 2 ^ 31 := h
  omega

theorem racedRun_correlated :
    ((machine referenceHost).checked Unwrapped initial racedRun).isSome = true ∧
      ((machine referenceHost).after Unwrapped initial racedRun).calls.Correlated :=
  ⟨by decide +kernel, correlated_of_noWrap referenceHost _
    (((Machine.Reach.init rfl).after racedRun).mono fun _ _ _ _ h => noWrap_of_unwrapped h)⟩

end UnoQ.Client.Bridge
