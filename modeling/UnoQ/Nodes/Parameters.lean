import UnoQ.Nodes.PendingRequests

/-!
# The parameters of a call

What a node makes of the fields in which its user writes the parameters of a method or the value of a
property. The fields hold text mostly, but an expression can put any value into them. Conversions of
text are the platform's.
-/

namespace UnoQ.Nodes
open Codec
open Ssh (trim)

/-- A platform with `String` of a value that is not primitive, which may throw. -/
structure TextPlatform extends Platform where
  stringOf : JsValue → Except String String

def TextPlatform.string (js : TextPlatform) : JsValue → Except String String
  | .undefined => .ok "undefined"
  | .null => .ok "null"
  | .bool b => .ok (if b then "true" else "false")
  | .num n => .ok (js.numberText n)
  | .str s => .ok s
  | v => js.stringOf v

/-- A platform that reads no number and no JSON. -/
def plainPlatform : TextPlatform := ⟨⟨fun _ => .nan, fun _ => .error "", fun _ => ""⟩, fun _ => .ok ""⟩

/-- `v ?? null` -/
def nullish : JsValue → JsValue
  | .undefined => .null
  | v => v

inductive ParameterType
  | string
  | number
  | boolean
  | json
  deriving DecidableEq

/-- The texts of the errors, given the value as a text, or what `JSON.parse` has thrown. -/
structure CoerceTexts where
  notNumber : String → String
  notBoolean : String → String
  notJson : String → String

/-! ### Single values -/

/-- `toLowerCase()`, as far as the two words go that the result is compared with: no letter outside
ASCII has one of theirs as its lower case. -/
def lowerCase (s : String) : String := String.ofList (s.toList.map Char.toLower)

section
variable (js : TextPlatform)

def toNumber (texts : CoerceTexts) (raw : JsValue) : Except String JsValue :=
  match raw with
  | .num n => .ok (.num n)
  | _ =>
    (js.string raw).bind fun text =>
      let s := trim text
      let n := js.number s
      if s = "" ∨ n = .nan then .error (texts.notNumber text) else .ok (.num n)

def toBoolean (texts : CoerceTexts) (raw : JsValue) : Except String JsValue :=
  match raw with
  | .bool b => .ok (.bool b)
  | _ =>
    (js.string raw).bind fun text =>
      let s := lowerCase (trim text)
      if s = "true" ∨ s = "1" then .ok (.bool true)
      else if s = "false" ∨ s = "0" ∨ s = "" then .ok (.bool false)
      else .error (texts.notBoolean text)

def toJson (texts : CoerceTexts) (raw : JsValue) : Except String JsValue :=
  match raw with
  | .str s =>
    match js.parseJson s with
    | .ok value => .ok value
    | .error message => .error (texts.notJson message)
  | _ => .ok raw

def toText (raw : JsValue) : Except String JsValue :=
  match raw with
  | .undefined => .ok (.str "")
  | .null => .ok (.str "")
  | _ => (js.string raw).map .str

def coerceWith (texts : CoerceTexts) (type : ParameterType) (raw : JsValue) : Except String JsValue :=
  match type with
  | .string => toText js raw
  | .number => toNumber js texts raw
  | .boolean => toBoolean js texts raw
  | .json => toJson js texts raw

end

/-! ### `UnoQCall.node.ts` and `UnoQTool.node.ts` -/

def parameterText (paramIndex : ℕ) (text : String) : String :=
  "Parameter #" ++ toString (paramIndex + 1) ++ ": " ++ text

def parameterTexts (paramIndex : ℕ) : CoerceTexts where
  notNumber raw := parameterText paramIndex ("\"" ++ raw ++ "\" is not a valid number")
  notBoolean raw :=
    parameterText paramIndex ("\"" ++ raw ++ "\" is not a valid boolean (use true/false)")
  notJson message := parameterText paramIndex ("invalid JSON — " ++ message)

inductive ParametersMode
  | none
  | fields
  | json
  deriving DecidableEq

structure FieldParameter where
  type : ParameterType
  value : JsValue

/-- What the parameters of a node come to for an item; evaluating one may fail. -/
structure CallParameters where
  method : Except String String
  parametersMode : Except String ParametersMode
  parametersJson : Except String JsValue
  parameters : Except String (List FieldParameter)
  timeout : Except String (Option ℤ)
  idempotent : Except String Bool

section
variable (js : TextPlatform)

def coerce (entry : FieldParameter) (paramIndex : ℕ) : Except String JsValue :=
  coerceWith js (parameterTexts paramIndex) entry.type entry.value

/-- The entries from the one with the index on. -/
def coerceAll : ℕ → List FieldParameter → Except String (List JsValue)
  | _, [] => .ok []
  | paramIndex, entry :: entries =>
    (coerce js entry paramIndex).bind fun value =>
      (coerceAll (paramIndex + 1) entries).map (value :: ·)

def buildParams (p : CallParameters) (mode : ParametersMode) : Except String (List JsValue) :=
  match mode with
  | .none => .ok []
  | .json =>
    p.parametersJson.bind fun raw =>
      (toJson js ⟨id, id, fun message => "Parameters (JSON) is not valid JSON: " ++ message⟩ raw).bind
        fun parsed =>
          match parsed with
          | .arr items => .ok items
          | _ => .error "Parameters (JSON) must be a JSON array"
  | .fields => p.parameters.bind (coerceAll js 0)

end

/-- The values stand in the order of the entries, each one what its own entry comes to. -/
theorem coerceAll_ok {js : TextPlatform} {entries : List FieldParameter} :
    ∀ {n : ℕ} {values : List JsValue}, coerceAll js n entries = .ok values ↔
      values.length = entries.length ∧ ∀ i entry, entries[i]? = some entry →
        ∃ value, values[i]? = some value ∧ coerce js entry (n + i) = .ok value := by
  induction entries with
  | nil =>
    intro n values
    simp [coerceAll, eq_comm]
  | cons entry entries ih =>
    intro n values
    constructor
    · intro h
      unfold coerceAll at h
      cases hvalue : coerce js entry n with
      | error message =>
        rw [hvalue] at h
        contradiction
      | ok value =>
        rw [hvalue] at h
        cases hrest : coerceAll js (n + 1) entries with
        | error message =>
          rw [Except.bind, hrest] at h
          contradiction
        | ok rest =>
          rw [Except.bind, hrest] at h
          cases h
          obtain ⟨hlength, hall⟩ := ih.mp hrest
          refine ⟨by simp [hlength], ?_⟩
          intro i e he
          cases i with
          | zero =>
            cases he
            exact ⟨value, rfl, hvalue⟩
          | succ i =>
            obtain ⟨v, hv, hcoerce⟩ := hall i e he
            refine ⟨v, hv, ?_⟩
            rw [show n + (i + 1) = n + 1 + i by omega]
            exact hcoerce
    · rintro ⟨hlength, hall⟩
      obtain ⟨value, hfirst, hvalue⟩ := hall 0 entry rfl
      cases values with
      | nil => contradiction
      | cons v rest =>
        cases hfirst
        have hrest : coerceAll js (n + 1) entries = .ok rest := by
          refine ih.mpr ⟨by simpa using hlength, ?_⟩
          intro i e he
          obtain ⟨w, hw, hcoerce⟩ := hall (i + 1) e he
          refine ⟨w, hw, ?_⟩
          rw [show n + 1 + i = n + (i + 1) by omega]
          exact hcoerce
        rw [Nat.add_zero] at hvalue
        unfold coerceAll
        rw [hvalue, Except.bind, hrest]
        rfl

/-- The error is that of the first entry that is wrong. -/
theorem coerceAll_error {js : TextPlatform} {entries : List FieldParameter} {message : String} :
    ∀ {n : ℕ}, coerceAll js n entries = .error message ↔ ∃ i entry, entries[i]? = some entry ∧
      coerce js entry (n + i) = .error message ∧ ∃ values, coerceAll js n (entries.take i) = .ok values := by
  induction entries with
  | nil =>
    intro n
    simp [coerceAll]
  | cons entry entries ih =>
    intro n
    constructor
    · intro h
      unfold coerceAll at h
      cases hvalue : coerce js entry n with
      | error message' =>
        rw [hvalue] at h
        cases h
        exact ⟨0, entry, rfl, hvalue, [], rfl⟩
      | ok value =>
        rw [hvalue] at h
        cases hrest : coerceAll js (n + 1) entries with
        | ok rest =>
          rw [Except.bind, hrest] at h
          contradiction
        | error message' =>
          rw [Except.bind, hrest] at h
          cases h
          obtain ⟨i, e, he, hcoerce, values, hvalues⟩ := ih.mp hrest
          refine ⟨i + 1, e, he, ?_, value :: values, ?_⟩
          · rw [show n + (i + 1) = n + 1 + i by omega]
            exact hcoerce
          · rw [List.take_succ_cons, coerceAll, hvalue, Except.bind, hvalues]
            rfl
    · rintro ⟨i, e, he, hcoerce, values, hvalues⟩
      cases i with
      | zero =>
        cases he
        unfold coerceAll
        rw [show coerce js entry n = .error message from hcoerce]
        rfl
      | succ i =>
        rw [List.take_succ_cons, coerceAll] at hvalues
        unfold coerceAll
        cases hvalue : coerce js entry n with
        | error message' =>
          rw [hvalue] at hvalues
          contradiction
        | ok value =>
          rw [hvalue] at hvalues
          cases htaken : coerceAll js (n + 1) (entries.take i) with
          | error message' =>
            rw [Except.bind, htaken] at hvalues
            contradiction
          | ok taken =>
            have hrest : coerceAll js (n + 1) entries = .error message := by
              refine ih.mpr ⟨i, e, he, ?_, taken, htaken⟩
              rw [show n + 1 + i = n + (i + 1) by omega]
              exact hcoerce
            rw [Except.bind, hrest]
            rfl

/-! ### `ArduinoCloud.node.ts` -/

inductive ValueType
  | auto
  | string
  | number
  | boolean
  | json
  deriving DecidableEq

def valueTexts : CoerceTexts where
  notNumber raw := "\"" ++ raw ++ "\" is not a valid number"
  notBoolean raw := "\"" ++ raw ++ "\" is not a valid boolean (use true/false)"
  notJson message := "Value is not valid JSON: " ++ message

/-- One digit or more. -/
def isDigits (s : List Char) : Bool := !s.isEmpty && s.all (·.isDigit)

/-- `/^-?\d+(?:\.\d+)?$/` -/
def isDecimal (s : String) : Bool :=
  let unsigned := match s.toList with
    | '-' :: rest => rest
    | cs => cs
  match unsigned.span (· ≠ '.') with
  | (whole, []) => isDigits whole
  | (whole, _ :: fraction) => isDigits whole && isDigits fraction

/-- An object or array literal, by its first and last character. -/
def isLiteral (s : String) : Bool :=
  (s.toList.head? = some (Char.ofNat 0x7b) && s.toList.getLast? = some (Char.ofNat 0x7d)) ||
    (s.toList.head? = some '[' && s.toList.getLast? = some ']')

/-- What the text is taken for when the user has not said. -/
def parseAuto (js : TextPlatform) (raw : String) : JsValue :=
  let s := trim raw
  if s = "" then .str raw
  else if s = "true" then .bool true
  else if s = "false" then .bool false
  else if isDecimal s then .num (js.number s)
  else if isLiteral s then
    match js.parseJson s with
    | .ok value => value
    | .error _ => .str raw
  else .str raw

def parseValue (js : TextPlatform) (type : ValueType) (raw : JsValue) : Except String JsValue :=
  match type with
  | .auto =>
    match raw with
    | .str s => .ok (parseAuto js s)
    | _ => .ok raw
  | .string => coerceWith js valueTexts .string raw
  | .number => coerceWith js valueTexts .number raw
  | .boolean => coerceWith js valueTexts .boolean raw
  | .json => coerceWith js valueTexts .json raw

end UnoQ.Nodes
