import Mathlib.Data.List.Sort
import UnoQ.Lib.InsertMap
import UnoQ.Lib.MessagePackParse

/-!
# JavaScript values as the codec sees them

The values `@msgpack/msgpack` decodes to and encodes from. A number is a double:
one with an integer value is kept as that integer, any other finite one as an odd
numerator over a power of two. An object is its own string-keyed properties, in the
order in which JavaScript lists them. A `date` has its time in milliseconds, unless it
is an invalid one. `foreign` stands for what the encoder has no case for: functions, symbols, bigints,
cyclic structures.
-/

namespace UnoQ.Codec
open MessagePack BigEndian

inductive JsNumber
  | int (i : ℤ)
  | frac (neg : Bool) (m k : ℕ)
  | inf (neg : Bool)
  | nan
  deriving DecidableEq, Repr

inductive JsValue
  | undefined
  | null
  | bool (b : Bool)
  | num (n : JsNumber)
  | str (s : String)
  | bin (data : Bytes)
  | arr (items : List JsValue)
  | obj (props : List (String × JsValue))
  | ext (type : UInt8) (data : Bytes)
  | date (ms : Option ℤ)
  | foreign (id : ℕ)
  deriving Repr

def JsValue.nat (n : ℕ) : JsValue := .num (.int n)

/-- Reading an index past the end of an array yields `undefined`. -/
def JsValue.index (items : List JsValue) (i : ℕ) : JsValue := items.getD i .undefined

def signedInt (neg : Bool) (m : ℕ) : ℤ := if neg then -(m : ℤ) else m

/-- The double `±m / 2^k`, with the powers of two the numerator shares taken out. -/
def reduceFraction (neg : Bool) : ℕ → ℕ → JsNumber
  | 0, m => .int (signedInt neg m)
  | k + 1, m => if m % 2 = 0 then reduceFraction neg k (m / 2) else .frac neg m (k + 1)

def ofFloat (mantissaBits exponentBits bits : ℕ) : JsNumber :=
  let m := bits % 2 ^ mantissaBits
  let e := bits / 2 ^ mantissaBits % 2 ^ exponentBits
  let neg := decide (bits / 2 ^ (mantissaBits + exponentBits) % 2 = 1)
  let shift := 2 ^ (exponentBits - 1) - 1 + mantissaBits
  if e = 2 ^ exponentBits - 1 then
    if m = 0 then .inf neg else .nan
  else
    let m' := if e = 0 then m else m + 2 ^ mantissaBits
    let e' := max e 1
    if shift ≤ e' then .int (signedInt neg (m' * 2 ^ (e' - shift))) else reduceFraction neg (shift - e') m'

def roundDouble (n : ℕ) : ℕ :=
  if n < 2 ^ 53 then n
  else
    let unit := 2 ^ (Nat.log2 n - 52)
    let q := n / unit
    let r := n % unit
    if unit < 2 * r ∨ (2 * r = unit ∧ q % 2 = 1) then (q + 1) * unit else q * unit

def ofInteger (i : ℤ) : JsNumber := .int (signedInt (decide (i < 0)) (roundDouble i.natAbs))

/-- The conversions by doubles: of a number to a string, and of the payload of a timestamp to
milliseconds. -/
structure Conversions where
  numberKey : JsNumber → String
  date : Bytes → Option ℤ

/-- The property a map key becomes. -/
def propertyKey (conv : Conversions) : JsValue → String
  | .str s => s
  | .num n => conv.numberKey n
  | _ => ""

/-- Assigns alternating keys and values to an object, one after the other: a repeated key
overwrites. -/
def assignAll (conv : Conversions) : List JsValue → List (String × JsValue) →
    List (String × JsValue)
  | k :: v :: rest, props => assignAll conv rest (InsertMap.put (propertyKey conv k) v props)
  | _, props => props

/-- The array index that a property name is: a number below 2^32 - 1 in its shortest spelling. -/
def arrayIndex (name : String) : Option ℕ :=
  let digits := name.toList
  let n := digits.foldl (fun n c => 10 * n + (c.toNat - '0'.toNat)) 0
  if digits ≠ [] ∧ digits.all Char.isDigit ∧ (digits.head? = some '0' → digits = ['0']) ∧
      n < 2 ^ 32 - 1 then some n
  else none

/-- An object lists its array indices first, in ascending order, and then the other names as they
came. -/
def propertyOrder (props : List (String × JsValue)) : List (String × JsValue) :=
  (props.filter fun p => (arrayIndex p.1).isSome).insertionSort
      (fun p q => (arrayIndex p.1).getD 0 ≤ (arrayIndex q.1).getD 0) ++
    props.filter fun p => (arrayIndex p.1).isNone

example : (propertyOrder [("b", .null), ("10", .null), ("2", .null), ("01", .null)]).map Prod.fst =
    ["2", "10", "b", "01"] := by decide

/-- The extension type -1, of timestamps. -/
def timestampType : UInt8 := 0xff

mutual
def jsValue (conv : Conversions) : Wire → JsValue
  | .nil => .null
  | .bool b => .bool b
  | .int _ i => .num (ofInteger i)
  | .float32 bits => .num (ofFloat 23 8 bits)
  | .float64 bits => .num (ofFloat 52 11 bits)
  | .str _ s => .str s
  | .bin _ data => .bin data
  | .ext _ type data => if type = timestampType then .date (conv.date data) else .ext type data
  | .array _ items => .arr (jsValues conv items)
  | .map _ items => .obj (propertyOrder (assignAll conv (jsValues conv items) []))

def jsValues (conv : Conversions) : List Wire → List JsValue
  | [] => []
  | w :: ws => jsValue conv w :: jsValues conv ws
end

/- The decoder takes string and number keys only, refuses the name that would set an
object's prototype, and knows timestamps of three lengths. -/
def isMapKey : Wire → Bool
  | .str _ s => s ≠ "__proto__"
  | .int _ _ => true
  | .float32 _ => true
  | .float64 _ => true
  | _ => false

def mapKeysAccepted : List Wire → Bool
  | k :: _ :: rest => isMapKey k && mapKeysAccepted rest
  | _ => true

mutual
def accepted : Wire → Bool
  | .ext _ type data => type ≠ timestampType || data.length ∈ [4, 8, 12]
  | .array _ items => acceptedAll items
  | .map _ items => mapKeysAccepted items && acceptedAll items
  | _ => true

def acceptedAll : List Wire → Bool
  | [] => true
  | w :: ws => accepted w && acceptedAll ws
end

/-- What a `Map` compares its keys by: primitives by value, objects by identity. -/
inductive MapKey
  | undefined
  | null
  | bool (b : Bool)
  | num (n : JsNumber)
  | str (s : String)
  | object (id : ℕ)
  deriving DecidableEq, Repr

/-- The key of a value; `id` is the identity of the object it may be. -/
def JsValue.mapKey (id : ℕ) : JsValue → MapKey
  | .undefined => .undefined
  | .null => .null
  | .bool b => .bool b
  | .num n => .num n
  | .str s => .str s
  | _ => .object id

end UnoQ.Codec
