import Mathlib.Tactic.Ring
import Mathlib.Tactic.NormNum

/-!
# Bytes and big-endian integers

Fixed-width unsigned integers, most significant byte first, and the two's
complement reading of such an integer.
-/

namespace BigEndian

abbrev Bytes := List UInt8

/-- The low `w` bytes of `n`, most significant first. -/
def encode : ℕ → ℕ → Bytes
  | 0, _ => []
  | w + 1, n => UInt8.ofNat (n / 256 ^ w) :: encode w n

def decode : Bytes → ℕ
  | [] => 0
  | b :: bs => b.toNat * 256 ^ bs.length + decode bs

@[simp] theorem encode_length (w n : ℕ) : (encode w n).length = w := by
  induction w with
  | zero => rfl
  | succ w ih => simp [encode, ih]

theorem encode_mod (w n k : ℕ) : encode w (n + k * 256 ^ w) = encode w n := by
  induction w generalizing k with
  | zero => rfl
  | succ w ih =>
    have hsplit : n + k * 256 ^ (w + 1) = n + (k * 256) * 256 ^ w := by ring
    have hdiv : (n + (k * 256) * 256 ^ w) / 256 ^ w = n / 256 ^ w + k * 256 :=
      Nat.add_mul_div_right n (k * 256) (by positivity)
    simp only [encode]
    rw [hsplit, hdiv, ih]
    congr 1
    apply UInt8.toNat_inj.mp
    simp only [UInt8.toNat_ofNat']
    omega

theorem decode_encode (w n : ℕ) (h : n < 256 ^ w) : decode (encode w n) = n := by
  induction w generalizing n with
  | zero =>
    simp only [pow_zero] at h
    simp only [encode, decode]
    omega
  | succ w ih =>
    have hpos : 0 < 256 ^ w := by positivity
    have hq : n / 256 ^ w < 256 := by
      rw [Nat.div_lt_iff_lt_mul hpos]
      calc n < 256 ^ (w + 1) := h
        _ = 256 * 256 ^ w := by ring
    have hrest : encode w n = encode w (n % 256 ^ w) := by
      conv_lhs => rw [← Nat.mod_add_div' n (256 ^ w)]
      exact encode_mod w _ _
    simp only [encode, decode, encode_length, UInt8.toNat_ofNat']
    rw [hrest, ih _ (Nat.mod_lt n hpos), Nat.mod_eq_of_lt hq]
    exact Nat.div_add_mod' n (256 ^ w)

theorem decode_lt (bs : Bytes) : decode bs < 256 ^ bs.length := by
  induction bs with
  | nil => simp [decode]
  | cons b bs ih =>
    have hb : b.toNat + 1 ≤ 256 := b.toNat_lt
    calc decode (b :: bs) < b.toNat * 256 ^ bs.length + 256 ^ bs.length := Nat.add_lt_add_left ih _
      _ = (b.toNat + 1) * 256 ^ bs.length := by ring
      _ ≤ 256 * 256 ^ bs.length := Nat.mul_le_mul_right _ hb
      _ = 256 ^ (b :: bs).length := by rw [List.length_cons, pow_succ, Nat.mul_comm]

theorem encode_decode (bs : Bytes) : encode bs.length (decode bs) = bs := by
  induction bs with
  | nil => rfl
  | cons b bs ih =>
    have hpos : 0 < 256 ^ bs.length := by positivity
    have hdiv : decode (b :: bs) / 256 ^ bs.length = b.toNat := by
      rw [decode, Nat.add_comm, Nat.add_mul_div_right _ _ hpos, Nat.div_eq_of_lt (decode_lt bs)]
      omega
    have hrest : encode bs.length (decode (b :: bs)) = encode bs.length (decode bs) := by
      rw [decode, Nat.add_comm, encode_mod]
    simp only [List.length_cons, encode]
    rw [hdiv, hrest, ih, UInt8.ofNat_toNat]

/-- The unsigned pattern of an integer in `w` bytes. -/
def unsigned (w : ℕ) (i : ℤ) : ℕ := (i % (256 ^ w : ℕ)).toNat

def signed (w n : ℕ) : ℤ := if 2 * n < 256 ^ w then n else (n : ℤ) - (256 ^ w : ℕ)

theorem unsigned_lt (w : ℕ) (i : ℤ) : unsigned w i < 256 ^ w := by
  have hpos : (0 : ℤ) < (256 ^ w : ℕ) := by positivity
  have h := Int.emod_lt_of_pos i hpos
  have h' := Int.emod_nonneg i hpos.ne'
  unfold unsigned
  omega

theorem signed_unsigned (w : ℕ) (i : ℤ) (lo : -(256 ^ w : ℕ) ≤ 2 * i) (hi : 2 * i < (256 ^ w : ℕ)) :
    signed w (unsigned w i) = i := by
  have hpos : (0 : ℤ) < (256 ^ w : ℕ) := by positivity
  unfold signed unsigned
  by_cases hneg : 0 ≤ i
  · have hmod : i % (256 ^ w : ℕ) = i := Int.emod_eq_of_lt hneg (by omega)
    rw [hmod, if_pos (by omega)]
    omega
  · have hmod : i % (256 ^ w : ℕ) = i + (256 ^ w : ℕ) := by
      rw [← Int.add_emod_right]
      exact Int.emod_eq_of_lt (by omega) (by omega)
    rw [hmod, if_neg (by omega)]
    omega

theorem unsigned_nonneg (w : ℕ) (i : ℤ) (lo : 0 ≤ i) (hi : i < (256 ^ w : ℕ)) :
    (unsigned w i : ℤ) = i := by
  unfold unsigned
  rw [Int.emod_eq_of_lt lo hi]
  omega

end BigEndian
