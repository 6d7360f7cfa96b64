import Mathlib.Data.List.Infix
import UnoQ.Lib.BigEndian

/-!
# Text functions of the platform

What the SSH code uses of Node's buffers and of JavaScript strings: decoding UTF-8
(with the replacement character for every malformed part), decoding base64, and
`trim().split(/\s+/)`.
-/

namespace UnoQ.Ssh
open BigEndian

/-! ### `buffer.toString('utf8')` -/

/-- A multi-byte sequence being read: the bytes still expected, the bits so far, and the range the
next byte must lie in. -/
structure Sequence where
  needed : ℕ
  bits : ℕ
  lower : ℕ
  upper : ℕ

def replacementChar : Char := Char.ofNat 0xfffd

/-- The first byte of a sequence: what it completes at once, and what it opens. -/
def firstByte (b : ℕ) : List Char × Option Sequence :=
  if b < 0x80 then ([Char.ofNat b], none)
  else if b < 0xc2 then ([replacementChar], none)
  else if b < 0xe0 then ([], some ⟨1, b % 0x20, 0x80, 0xbf⟩)
  else if b < 0xf0 then
    ([], some ⟨2, b % 0x10, if b = 0xe0 then 0xa0 else 0x80, if b = 0xed then 0x9f else 0xbf⟩)
  else if b < 0xf5 then
    ([], some ⟨3, b % 8, if b = 0xf0 then 0x90 else 0x80, if b = 0xf4 then 0x8f else 0xbf⟩)
  else ([replacementChar], none)

def nextByte : Option Sequence → ℕ → List Char × Option Sequence
  | none, b => firstByte b
  | some q, b =>
    if q.lower ≤ b ∧ b ≤ q.upper then
      let bits := q.bits * 64 + b % 64
      if q.needed = 1 then ([Char.ofNat bits], none)
      else ([], some ⟨q.needed - 1, bits, 0x80, 0xbf⟩)
    else
      -- The broken sequence is replaced, and the byte is read again as a first one.
      (replacementChar :: (firstByte b).1, (firstByte b).2)

def decodeChars : Option Sequence → Bytes → List Char
  | none, [] => []
  | some _, [] => [replacementChar]
  | q, b :: bs => (nextByte q b.toNat).1 ++ decodeChars (nextByte q b.toNat).2 bs

def toUtf8String (bs : Bytes) : String := String.ofList (decodeChars none bs)

/-! ### `Buffer.from(text, 'base64')` -/

/-- Both alphabets are accepted. -/
def base64Value (c : Char) : Option ℕ :=
  if 'A' ≤ c ∧ c ≤ 'Z' then some (c.toNat - 'A'.toNat)
  else if 'a' ≤ c ∧ c ≤ 'z' then some (c.toNat - 'a'.toNat + 26)
  else if '0' ≤ c ∧ c ≤ '9' then some (c.toNat - '0'.toNat + 52)
  else if c = '+' ∨ c = '-' then some 62
  else if c = '/' ∨ c = '_' then some 63
  else none

def base64Bytes : List ℕ → Bytes
  | a :: b :: c :: d :: rest =>
    UInt8.ofNat (a * 4 + b / 16) :: UInt8.ofNat (b % 16 * 16 + c / 4) ::
      UInt8.ofNat (c % 4 * 64 + d) :: base64Bytes rest
  | [a, b, c] => [UInt8.ofNat (a * 4 + b / 16), UInt8.ofNat (b % 16 * 16 + c / 4)]
  | [a, b] => [UInt8.ofNat (a * 4 + b / 16)]
  | _ => []

/-- The low bytes of the UTF-16 units of a character, which are all that the decoder looks at. -/
def lowBytes (c : Char) : List Char :=
  if c.toNat < 0x10000 then [Char.ofNat (c.toNat % 256)]
  else [Char.ofNat ((c.toNat - 0x10000) / 0x400 % 256), Char.ofNat (c.toNat % 256)]

/-- The first `=` ends the input; other characters outside the alphabets are skipped. -/
def fromBase64 (text : String) : Bytes :=
  base64Bytes (((text.toList.flatMap lowBytes).takeWhile (· ≠ '=')).filterMap base64Value)

example : fromBase64 "QU\nJD" = [65, 66, 67] ∧ fromBase64 "\u0151UJD" = [65, 66, 67] := by decide

/-! ### Strings -/

def spaceCodes : List ℕ :=
  [9, 10, 11, 12, 13, 0x20, 0xa0, 0x1680, 0x2000, 0x2001, 0x2002, 0x2003, 0x2004, 0x2005, 0x2006,
    0x2007, 0x2008, 0x2009, 0x200a, 0x2028, 0x2029, 0x202f, 0x205f, 0x3000, 0xfeff]

def isSpace (c : Char) : Bool := decide (c.toNat ∈ spaceCodes)

def trim (text : String) : String :=
  String.ofList ((text.toList.dropWhile isSpace).reverse.dropWhile isSpace).reverse

/-- The parts of `text.trim().split(/\s+/)`; blank text has one empty part. -/
def splitAtSpaces (text : String) : List String :=
  match (text.toList.splitOnP isSpace).filter (· ≠ []) with
  | [] => [""]
  | parts => parts.map String.ofList

/-- The test `text.includes(part)`. -/
def includes (text part : String) : Bool := decide (part.toList <:+: text.toList)

example : splitAtSpaces " ssh-ed25519  AAAA comment\n" = ["ssh-ed25519", "AAAA", "comment"] := by
  decide

end UnoQ.Ssh
