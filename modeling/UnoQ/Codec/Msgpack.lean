import UnoQ.Codec.JsValue

/-!
# The third-party codec

`@msgpack/msgpack` is not part of the repository. What the bridge uses of it is a
structure of its two functions; what its documentation promises of `decodeMulti` is
a named assumption on that structure. `reference` is one such codec, written from
the format and its documented choices, which shows that the assumption can be met.
-/

namespace UnoQ.Codec
open MessagePack BigEndian

/-- The functions of the codec library. `encode` is `none` where it throws; `decodeMulti` returns
the values it yields and whether it then throws instead of ending. -/
structure Msgpack extends Conversions where
  encode : JsValue → Option Bytes
  decodeMulti : Bytes → List JsValue × Bool

def Msgpack.value (mp : Msgpack) (w : Wire) : JsValue := jsValue mp.toConversions w

/-- Documented behaviour of `decodeMulti`: spec-conformant values are yielded in order, and an
input that ends inside a value makes it throw after the last complete one. -/
structure Msgpack.Documented (mp : Msgpack) : Prop where
  decodes : ∀ (ws : List Wire) (t : Bytes), (∀ w ∈ ws, w.Valid) → (∀ w ∈ ws, accepted w = true) →
    Truncated t → mp.decodeMulti (bytesAll ws ++ t) = (ws.map mp.value, !t.isEmpty)

/-! ### A reference codec -/

def packDouble (neg : Bool) (m k : ℕ) : ℕ :=
  let sign := if neg then 2 ^ 63 else 0
  let l := Nat.log2 m
  if m = 0 then sign
  else if k < l + 1023 then sign + (l + 1023 - k) * 2 ^ 52 + (m * 2 ^ 52 / 2 ^ l - 2 ^ 52)
  else sign + m * 2 ^ 1074 / 2 ^ k

def doubleBits : JsNumber → ℕ
  | .int i => packDouble (decide (i < 0)) i.natAbs 0
  | .frac neg m k => packDouble neg m k
  | .inf neg => (if neg then 2 ^ 63 else 0) + 0x7ff * 2 ^ 52
  | .nan => 0x7ff8 * 2 ^ 48

/-- Safe integers in the shortest format, every other number as a double. -/
def encodeNumber : JsNumber → Wire
  | .int i =>
    if i.natAbs < 2 ^ 53 then
      if 0 ≤ i then
        if i < 0x80 then .int .positiveFix i
        else if i < 0x100 then .int .uint8 i
        else if i < 0x10000 then .int .uint16 i
        else if i < 0x100000000 then .int .uint32 i
        else .int .uint64 i
      else if -0x20 ≤ i then .int .negativeFix i
      else if -0x80 ≤ i then .int .int8 i
      else if -0x8000 ≤ i then .int .int16 i
      else if -0x80000000 ≤ i then .int .int32 i
      else .int .int64 i
    else .float64 (doubleBits (.int i))
  | n => .float64 (doubleBits n)

def shortest (k : Kind) (n : ℕ) : LenFormat :=
  if (k.tag .fix n).isSome then .fix
  else if (k.tag .len8 n).isSome ∧ n < 0x100 then .len8
  else if n < 0x10000 then .len16
  else .len32

/-- The time in seconds and nanoseconds, in the shortest of the three formats. -/
def timestampData : Option ℤ → Bytes
  | none => encode 12 0
  | some ms =>
    let sec := ms / 1000
    let nsec := (ms % 1000).toNat * 1000000
    if 0 ≤ sec ∧ sec < 2 ^ 34 then
      if nsec = 0 ∧ sec < 2 ^ 32 then encode 4 sec.toNat else encode 8 (nsec * 2 ^ 34 + sec.toNat)
    else encode 4 nsec ++ encode 8 (unsigned 8 sec)

/-- Encodes with at most the given number of nesting levels. -/
def encodeLevels : ℕ → JsValue → Option Bytes
  | 0, _ => none
  | _ + 1, .undefined => some Wire.nil.bytes
  | _ + 1, .null => some Wire.nil.bytes
  | _ + 1, .bool b => some (Wire.bool b).bytes
  | _ + 1, .num n => some (encodeNumber n).bytes
  | _ + 1, .str s => some (Wire.str (shortest .str (utf8Bytes s).length) s).bytes
  | _ + 1, .bin data => some (Wire.bin (shortest .bin data.length) data).bytes
  | _ + 1, .ext type data => some (Wire.ext (shortest .ext data.length) type data).bytes
  | levels + 1, .arr items =>
    (items.mapM (encodeLevels levels)).map fun parts =>
      header .array (shortest .array items.length) items.length ++ parts.flatten
  | levels + 1, .obj props =>
    (props.mapM fun p => (encodeLevels levels p.2).map fun v =>
      (Wire.str (shortest .str (utf8Bytes p.1).length) p.1).bytes ++ v).map fun parts =>
      header .map (shortest .map props.length) props.length ++ parts.flatten
  | _ + 1, .date ms =>
    let data := timestampData ms
    some (Wire.ext (shortest .ext data.length) timestampType data).bytes
  | _ + 1, .foreign _ => none

def maxDepth : ℕ := 100

def referenceKey : JsNumber → String
  | .int i => toString i
  | .frac neg m k => (if neg then "-" else "") ++ toString m ++ "/2^" ++ toString k
  | .inf neg => if neg then "-Infinity" else "Infinity"
  | .nan => "NaN"

def nanoseconds (data : Bytes) : ℤ :=
  let n := decode data
  if data.length = 4 then n * 1000000000
  else if data.length = 8 then (n % 2 ^ 34 * 1000000000 + n / 2 ^ 34 : ℕ)
  else signed 8 (decode (data.drop 4)) * 1000000000 + decode (data.take 4)

/-- The time is cut to milliseconds; one that is too far away makes the date invalid. -/
def referenceDate (data : Bytes) : Option ℤ :=
  let ms := (nanoseconds data).tdiv 1000000
  if ms.natAbs ≤ 8640000000000000 then some ms else none

def referenceConversions : Conversions := ⟨referenceKey, referenceDate⟩

def reference : Msgpack where
  toConversions := referenceConversions
  encode := encodeLevels maxDepth
  decodeMulti bs :=
    let r := parseAll accepted (bs.length + 1) bs
    (r.1.map (jsValue referenceConversions), r.2)

theorem length_le_bytesAll (ws : List Wire) : ws.length ≤ (bytesAll ws).length := by
  induction ws with
  | nil => exact Nat.zero_le _
  | cons w ws ih =>
    have hw : 0 < w.bytes.length := List.length_pos_iff.mpr (bytes_ne_nil w)
    simp only [bytesAll, List.length_cons, List.length_append]
    omega

theorem reference_documented : reference.Documented where
  decodes := by
    intro ws t hv ha ht
    have hf : ws.length < (bytesAll ws ++ t).length + 1 := by
      have := length_le_bytesAll ws
      rw [List.length_append]
      omega
    simp only [reference, parseAll_bytesAll ht _ ws hv ha hf]
    rfl

end UnoQ.Codec
