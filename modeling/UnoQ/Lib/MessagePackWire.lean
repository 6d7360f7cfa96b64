import UnoQ.Lib.BigEndian

/-!
# The MessagePack wire format

A `Wire` is one spec-conformant encoding of a value: the tree of values together
with the format chosen at every node, so that non-minimal widths and the two
float formats are kept apart. `Wire.bytes` lays it out; `node` reads one header
with its scalar or string payload, and `parse` reads a given number of complete
values, with the outcome of a truncated input kept apart from a malformed one.
-/

namespace MessagePack
open BigEndian

/-- Where a length is stored: in the tag itself, or in the 1, 2 or 4 bytes after it. -/
inductive LenFormat
  | fix
  | len8
  | len16
  | len32
  deriving DecidableEq, Repr

inductive IntFormat
  | positiveFix
  | negativeFix
  | uint8
  | uint16
  | uint32
  | uint64
  | int8
  | int16
  | int32
  | int64
  deriving DecidableEq, Repr

inductive Kind
  | str
  | bin
  | ext
  | array
  | map
  deriving DecidableEq, Repr

/- The items of a map are its keys and values in alternation. -/
inductive Wire
  | nil
  | bool (b : Bool)
  | int (f : IntFormat) (i : ℤ)
  | float32 (bits : ℕ)
  | float64 (bits : ℕ)
  | str (f : LenFormat) (s : String)
  | bin (f : LenFormat) (data : Bytes)
  | ext (f : LenFormat) (type : UInt8) (data : Bytes)
  | array (f : LenFormat) (items : List Wire)
  | map (f : LenFormat) (items : List Wire)
  deriving Repr

def LenFormat.width : LenFormat → ℕ
  | .fix => 0
  | .len8 => 1
  | .len16 => 2
  | .len32 => 4

/-- The tag of a sized value of length `n`; `none` where the format table has no such entry. -/
def Kind.tag : Kind → LenFormat → ℕ → Option ℕ
  | .str, .fix, n => if n < 32 then some (0xa0 + n) else none
  | .str, .len8, _ => some 0xd9
  | .str, .len16, _ => some 0xda
  | .str, .len32, _ => some 0xdb
  | .bin, .fix, _ => none
  | .bin, .len8, _ => some 0xc4
  | .bin, .len16, _ => some 0xc5
  | .bin, .len32, _ => some 0xc6
  | .ext, .fix, 1 => some 0xd4
  | .ext, .fix, 2 => some 0xd5
  | .ext, .fix, 4 => some 0xd6
  | .ext, .fix, 8 => some 0xd7
  | .ext, .fix, 16 => some 0xd8
  | .ext, .fix, _ => none
  | .ext, .len8, _ => some 0xc7
  | .ext, .len16, _ => some 0xc8
  | .ext, .len32, _ => some 0xc9
  | .array, .fix, n => if n < 16 then some (0x90 + n) else none
  | .array, .len8, _ => none
  | .array, .len16, _ => some 0xdc
  | .array, .len32, _ => some 0xdd
  | .map, .fix, n => if n < 16 then some (0x80 + n) else none
  | .map, .len8, _ => none
  | .map, .len16, _ => some 0xde
  | .map, .len32, _ => some 0xdf

/-- The length `n` can be written for this kind in this format. -/
def Kind.Fits (k : Kind) (f : LenFormat) (n : ℕ) : Prop :=
  (k.tag f n).isSome = true ∧ (f = .fix ∨ n < 256 ^ f.width)

instance (k : Kind) (f : LenFormat) (n : ℕ) : Decidable (k.Fits f n) :=
  inferInstanceAs (Decidable (_ ∧ _))

def header (k : Kind) (f : LenFormat) (n : ℕ) : Bytes :=
  UInt8.ofNat ((k.tag f n).getD 0) :: BigEndian.encode f.width n

def IntFormat.width : IntFormat → ℕ
  | .positiveFix | .negativeFix => 0
  | .uint8 | .int8 => 1
  | .uint16 | .int16 => 2
  | .uint32 | .int32 => 4
  | .uint64 | .int64 => 8

def IntFormat.isSigned : IntFormat → Bool
  | .int8 | .int16 | .int32 | .int64 => true
  | _ => false

def IntFormat.Fits (f : IntFormat) (i : ℤ) : Prop :=
  match f with
  | .positiveFix => 0 ≤ i ∧ i < 128
  | .negativeFix => -32 ≤ i ∧ i < 0
  | f => if f.isSigned then -(256 ^ f.width : ℕ) ≤ 2 * i ∧ 2 * i < (256 ^ f.width : ℕ)
      else 0 ≤ i ∧ i < (256 ^ f.width : ℕ)

instance (f : IntFormat) (i : ℤ) : Decidable (f.Fits i) := by
  unfold IntFormat.Fits
  cases f <;> exact inferInstance

def IntFormat.tag : IntFormat → ℤ → ℕ
  | .positiveFix, i => i.toNat
  | .negativeFix, i => (256 + i).toNat
  | .uint8, _ => 0xcc
  | .uint16, _ => 0xcd
  | .uint32, _ => 0xce
  | .uint64, _ => 0xcf
  | .int8, _ => 0xd0
  | .int16, _ => 0xd1
  | .int32, _ => 0xd2
  | .int64, _ => 0xd3

def utf8Bytes (s : String) : Bytes := s.toUTF8.data.toList

def ofUtf8 (bs : Bytes) : Option String := String.fromUTF8? ⟨bs.toArray⟩

mutual
def Wire.bytes : Wire → Bytes
  | .nil => [0xc0]
  | .bool b => [if b then 0xc3 else 0xc2]
  | .int f i => UInt8.ofNat (f.tag i) :: BigEndian.encode f.width (unsigned f.width i)
  | .float32 bits => 0xca :: BigEndian.encode 4 bits
  | .float64 bits => 0xcb :: BigEndian.encode 8 bits
  | .str f s => header .str f (utf8Bytes s).length ++ utf8Bytes s
  | .bin f data => header .bin f data.length ++ data
  | .ext f type data => header .ext f data.length ++ type :: data
  | .array f items => header .array f items.length ++ bytesAll items
  | .map f items => header .map f (items.length / 2) ++ bytesAll items

def bytesAll : List Wire → Bytes
  | [] => []
  | w :: ws => w.bytes ++ bytesAll ws
end

mutual
/-- The encoding is spec-conformant: every number and length fits the format written for it. -/
def Wire.Valid : Wire → Prop
  | .nil => True
  | .bool _ => True
  | .int f i => f.Fits i
  | .float32 bits => bits < 256 ^ 4
  | .float64 bits => bits < 256 ^ 8
  | .str f s => Kind.str.Fits f (utf8Bytes s).length
  | .bin f data => Kind.bin.Fits f data.length
  | .ext f _ data => Kind.ext.Fits f data.length
  | .array f items => Kind.array.Fits f items.length ∧ validAll items
  | .map f items => Kind.map.Fits f (items.length / 2) ∧ items.length % 2 = 0 ∧ validAll items

def validAll : List Wire → Prop
  | [] => True
  | w :: ws => w.Valid ∧ validAll ws
end

mutual
def Wire.nodes : Wire → ℕ
  | .array _ items => 1 + nodesAll items
  | .map _ items => 1 + nodesAll items
  | _ => 1

def nodesAll : List Wire → ℕ
  | [] => 0
  | w :: ws => w.nodes + nodesAll ws
end

theorem bytesAll_append (xs ys : List Wire) : bytesAll (xs ++ ys) = bytesAll xs ++ bytesAll ys := by
  induction xs with
  | nil => rfl
  | cons w ws ih => simp [bytesAll, ih]

theorem validAll_iff (ws : List Wire) : validAll ws ↔ ∀ w ∈ ws, w.Valid := by
  induction ws with
  | nil => simp [validAll]
  | cons w ws ih => simp [validAll, ih]

theorem bytes_ne_nil (w : Wire) : w.bytes ≠ [] := by
  cases w <;> simp [Wire.bytes, header]

/-! ### Reading -/

/-- A read either yields a value and the rest of the input, or stops because the input ended
inside a value, or because no value starts this way. -/
inductive Res (α : Type)
  | ok (value : α) (rest : Bytes)
  | incomplete
  | malformed
  deriving Repr

variable {α β : Type}

def Res.bind (r : Res α) (f : α → Bytes → Res β) : Res β :=
  match r with
  | .ok a rest => f a rest
  | .incomplete => .incomplete
  | .malformed => .malformed

@[simp] theorem Res.bind_ok (a : α) (rest : Bytes) (f : α → Bytes → Res β) :
    (Res.ok a rest).bind f = f a rest := rfl

theorem Res.bind_eq_ok {r : Res α} {f : α → Bytes → Res β} {b : β} {rest : Bytes} :
    r.bind f = .ok b rest ↔ ∃ a mid, r = .ok a mid ∧ f a mid = .ok b rest := by
  constructor
  · intro h
    cases r with
    | ok a mid => exact ⟨a, mid, rfl, h⟩
    | incomplete => contradiction
    | malformed => contradiction
  · rintro ⟨a, mid, rfl, h⟩
    exact h

def takeN (n : ℕ) (bs : Bytes) : Res Bytes :=
  if n ≤ bs.length then .ok (bs.take n) (bs.drop n) else .incomplete

inductive Node
  | leaf (w : Wire)
  | array (f : LenFormat) (n : ℕ)
  | map (f : LenFormat) (n : ℕ)

inductive Shape
  | scalar (width : ℕ) (build : ℕ → Wire)
  | sized (k : Kind) (f : LenFormat) (inTag : ℕ)
  | invalid

def shape (t : ℕ) : Shape :=
  if t < 0x80 then .scalar 0 fun _ => .int .positiveFix t
  else if t < 0x90 then .sized .map .fix (t - 0x80)
  else if t < 0xa0 then .sized .array .fix (t - 0x90)
  else if t < 0xc0 then .sized .str .fix (t - 0xa0)
  else if t < 0xe0 then
    match t with
    | 0xc0 => .scalar 0 fun _ => .nil
    | 0xc2 => .scalar 0 fun _ => .bool false
    | 0xc3 => .scalar 0 fun _ => .bool true
    | 0xc4 => .sized .bin .len8 0
    | 0xc5 => .sized .bin .len16 0
    | 0xc6 => .sized .bin .len32 0
    | 0xc7 => .sized .ext .len8 0
    | 0xc8 => .sized .ext .len16 0
    | 0xc9 => .sized .ext .len32 0
    | 0xca => .scalar 4 .float32
    | 0xcb => .scalar 8 .float64
    | 0xcc => .scalar 1 fun n => .int .uint8 n
    | 0xcd => .scalar 2 fun n => .int .uint16 n
    | 0xce => .scalar 4 fun n => .int .uint32 n
    | 0xcf => .scalar 8 fun n => .int .uint64 n
    | 0xd0 => .scalar 1 fun n => .int .int8 (signed 1 n)
    | 0xd1 => .scalar 2 fun n => .int .int16 (signed 2 n)
    | 0xd2 => .scalar 4 fun n => .int .int32 (signed 4 n)
    | 0xd3 => .scalar 8 fun n => .int .int64 (signed 8 n)
    | 0xd4 => .sized .ext .fix 1
    | 0xd5 => .sized .ext .fix 2
    | 0xd6 => .sized .ext .fix 4
    | 0xd7 => .sized .ext .fix 8
    | 0xd8 => .sized .ext .fix 16
    | 0xd9 => .sized .str .len8 0
    | 0xda => .sized .str .len16 0
    | 0xdb => .sized .str .len32 0
    | 0xdc => .sized .array .len16 0
    | 0xdd => .sized .array .len32 0
    | 0xde => .sized .map .len16 0
    | 0xdf => .sized .map .len32 0
    | _ => .invalid
  else .scalar 0 fun _ => .int .negativeFix ((t : ℤ) - 256)

/-- Reads what follows the length `n` of a sized value. -/
def content (k : Kind) (f : LenFormat) (n : ℕ) (bs : Bytes) : Res Node :=
  match k with
  | .str => (takeN n bs).bind fun data rest =>
      match ofUtf8 data with
      | none => .malformed
      | some s => .ok (.leaf (.str f s)) rest
  | .bin => (takeN n bs).bind fun data rest => .ok (.leaf (.bin f data)) rest
  | .ext => (takeN 1 bs).bind fun type rest => (takeN n rest).bind fun data rest =>
      .ok (.leaf (.ext f (type.headD 0) data)) rest
  | .array => .ok (.array f n) bs
  | .map => .ok (.map f n) bs

def Shape.read (sh : Shape) (bs : Bytes) : Res Node :=
  match sh with
  | .scalar w build => (takeN w bs).bind fun data rest =>
      .ok (.leaf (build (BigEndian.decode data))) rest
  | .sized k f inTag => (takeN f.width bs).bind fun data rest =>
      content k f (if f = .fix then inTag else BigEndian.decode data) rest
  | .invalid => .malformed

def node : Bytes → Res Node
  | [] => .incomplete
  | t :: rest => (shape t.toNat).read rest

/-- Reads `n` complete values. Every value takes at least one unit of fuel and one byte, so the
length of the input is fuel enough. -/
def parse : ℕ → ℕ → Bytes → Res (List Wire)
  | _, 0, bs => .ok [] bs
  | 0, _ + 1, _ => .incomplete
  | fuel + 1, n + 1, bs => (node bs).bind fun x rest =>
    match x with
    | .leaf w => (parse fuel n rest).bind fun ws rest => .ok (w :: ws) rest
    | .array f m => (parse fuel m rest).bind fun items rest =>
        (parse fuel n rest).bind fun ws rest => .ok (.array f items :: ws) rest
    | .map f m => (parse fuel (2 * m) rest).bind fun items rest =>
        (parse fuel n rest).bind fun ws rest => .ok (.map f items :: ws) rest

end MessagePack
