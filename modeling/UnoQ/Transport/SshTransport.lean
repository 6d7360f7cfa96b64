import UnoQ.Lib.Transition
import UnoQ.Transport.Streams

/-!
# The SSH transport

`ssh.ts`. The stream comes from a function given to the transport, whose promise settles as it likes;
what follows that promise runs before the stream can emit anything.
-/

namespace UnoQ.Transport
open BigEndian Transition

structure SshTransport where
  streams : Streams

namespace SshTransport

def initial : SshTransport := ⟨.initial⟩

/-- `acquired` and `unavailable`: what `opts.connect()` has promised comes, or does not. -/
inductive Event
  | connect
  | acquired (k : ℕ)
  | unavailable (k : ℕ) (message : String)
  | data (k : ℕ) (chunk : Bytes)
  | error (k : ℕ) (message : String)
  | closed (k : ℕ)
  | broken (k : ℕ) (destroyed : Bool)
  | write (bytes : Bytes)
  | close

def enabled (s : SshTransport) : Event → Prop
  | .acquired k => (s.streams.streams k).promise = .pending
  | .unavailable k _ => (s.streams.streams k).promise = .pending
  | .data k _ => (s.streams.streams k).status = .up ∧ (s.streams.streams k).destroyed = false
  | .error k _ => (s.streams.streams k).status = .up ∧ (s.streams.streams k).errored = false
  | .closed k => (s.streams.streams k).status = .up
  | .broken k _ => (s.streams.streams k).status = .up
  | _ => True

instance (s : SshTransport) : ∀ e, Decidable (enabled s e)
  | .connect => isTrue trivial
  | .acquired _ => inferInstanceAs (Decidable (_ = _))
  | .unavailable _ _ => inferInstanceAs (Decidable (_ = _))
  | .data _ _ => inferInstanceAs (Decidable (_ ∧ _))
  | .error _ _ => inferInstanceAs (Decidable (_ ∧ _))
  | .closed _ => inferInstanceAs (Decidable (_ = _))
  | .broken _ _ => inferInstanceAs (Decidable (_ = _))
  | .write _ => isTrue trivial
  | .close => isTrue trivial

def apply (s : SshTransport) : Event → SshTransport
  | .connect => ⟨s.streams.begin⟩
  | .acquired k => ⟨s.streams.resolve k⟩
  | .unavailable k message => ⟨s.streams.reject k message false⟩
  | .data k chunk => ⟨s.streams.data k chunk⟩
  | .error k message => ⟨s.streams.error k message⟩
  | .closed k => ⟨s.streams.closed k⟩
  | .broken k destroyed => ⟨s.streams.broken k destroyed⟩
  | .write bytes => ⟨(s.streams.write bytes).1⟩
  | .close => ⟨s.streams.close.1⟩

def machine : Machine SshTransport Event := .ofEnabled (· = initial) enabled apply

/-- Every step of an SSH transport is an act on its streams. -/
theorem act_step {s t : SshTransport} {e : Event} (hs : machine.step s e = some t) :
    s.streams.Act t.streams := by
  obtain ⟨hen, rfl⟩ := Machine.ofEnabled_step.mp hs
  cases e with
  | connect => exact .begin
  | acquired k => exact .resolve hen
  | unavailable k message => exact .reject hen message false
  | data k chunk => exact .data hen.1 chunk
  | error k message => exact .error hen.1 message
  | closed k => exact .closed hen
  | broken k destroyed => exact .broken hen destroyed
  | write bytes => exact .write bytes
  | close => exact .close

theorem inv_reach {ok : Guard SshTransport Event} {s : SshTransport} (h : machine.Reach ok s) :
    s.streams.Inv := by
  refine h.invariant (P := fun s => s.streams.Inv) ?_ ?_
  · rintro s rfl
    exact Streams.inv_initial
  · intro s e t _ hi hs _
    exact Streams.inv_act hi (act_step hs)

end SshTransport

end UnoQ.Transport
