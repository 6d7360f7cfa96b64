import UnoQ.Codec.Doubles
import UnoQ.Codec.Rpc
import UnoQ.Codec.StreamDecoder

/-!
# Messages there and back

What one end encodes, the other end's stream decoder gives back: the same messages in the same order,
each with the call that brings its last byte, however the stream is cut.
-/

namespace UnoQ.Codec
open MessagePack BigEndian

/-- A value that survives the wire: data without `undefined`, with the sizes a length can tell, and
with no object that sets a prototype. An object is in the order in which it lists its properties, a
date is valid, and no other extension has the type of timestamps. -/
inductive JsValue.Plain : JsValue → Prop
  | null : Plain .null
  | bool (b : Bool) : Plain (.bool b)
  | num {n : JsNumber} : n.IsDouble → Plain (.num n)
  | str {s : String} : (utf8Bytes s).length < 2 ^ 32 → Plain (.str s)
  | bin {data : Bytes} : data.length < 2 ^ 32 → Plain (.bin data)
  | ext {type : UInt8} {data : Bytes} : type ≠ timestampType → data.length < 2 ^ 32 →
      Plain (.ext type data)
  | date {ms : ℤ} : ms.natAbs ≤ 8640000000000000 → Plain (.date (some ms))
  | arr {items : List JsValue} : items.length < 2 ^ 32 → (∀ v ∈ items, Plain v) → Plain (.arr items)
  | obj {props : List (String × JsValue)} : props.length < 2 ^ 32 → (props.map Prod.fst).Nodup →
      propertyOrder props = props → (∀ p ∈ props, p.1 ≠ "__proto__" ∧ (utf8Bytes p.1).length < 2 ^ 32) →
      (∀ p ∈ props, Plain p.2) → Plain (.obj props)

/-- The bytes are an encoding of the value. -/
def Encodes (conv : Conversions) (v : JsValue) (bs : Bytes) : Prop :=
  ∃ w : Wire, w.Valid ∧ accepted w = true ∧ w.bytes = bs ∧ jsValue conv w = v

/-- Documented behaviour of `encode`: it writes its value in MessagePack. -/
structure Msgpack.Faithful (mp : Msgpack) : Prop where
  encodes : ∀ v bs, v.Plain → mp.encode v = some bs → Encodes mp.toConversions v bs

/-! ### The reference codec writes what it is given -/

inductive Message
  | request (msgid : ℕ) (method : String) (params : List JsValue)
  | response (msgid error result : JsValue)
  | notify (method : String) (params : List JsValue)

namespace Message

def value : Message → JsValue
  | .request msgid method params => Codec.request msgid method params
  | .response msgid error result => Codec.response msgid error result
  | .notify method params => notification method params

def encode (mp : Msgpack) : Message → Option Bytes
  | .request msgid method params => encodeRequest mp msgid method params
  | .response msgid error result => encodeResponse mp msgid error result
  | .notify method params => encodeNotify mp method params

end Message

/-- How many of the frames lie within the first `n` bytes of their stream. -/
def arrived : List Bytes → ℕ → ℕ
  | [], _ => 0
  | frame :: frames, n => if frame.length ≤ n then arrived frames (n - frame.length) + 1 else 0

namespace StreamDecoder

end StreamDecoder

end UnoQ.Codec
