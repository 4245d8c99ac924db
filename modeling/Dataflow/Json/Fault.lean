import Dataflow.Text.OneOf

/-! # Faults in a JSON text

Why a text does not decode, by cause. A text is read once from front to back, straight into the
record that is wanted, so there is one fault: the first in reading order, be it of syntax or of
meaning.
-/

namespace Dataflow.Json

/-- What was being read when the text ended. -/
inductive Place
  | value
  | string
  | list
  | object
deriving DecidableEq

/-- The kind of text that ended too soon, as the message names it. -/
def Place.text : Place → String
  | .value => "a value"
  | .string => "a string"
  | .list => "a list"
  | .object => "an object"

/-- Why a text does not decode. -/
inductive Fault
  | ended (place : Place)
  | expectedValue
  | expectedIdent
  | invalidNumber
  | numberOutOfRange
  | expectedColon
  | expectedCommaOrBrace
  | expectedCommaOrBracket
  | trailingComma
  | keyNotString
  /-- Something stands where the text should end or a list should close. -/
  | trailingCharacters
  | controlCharacter
  | invalidEscape
  | unfinishedPair
  | loneSurrogate
  | tooDeep
  | wrongType (found expected : String)
  | integerOutOfRange (n : Nat)
  | missingField (name : String)
  | repeatedField (name : String)
  | unknownVariant (tag : String) (known : List String)
  | tooShort (length : Nat) (expected : String)
  | repeatedOutput (key : String)
deriving DecidableEq

/-- The message without its position, which a caller adds. -/
def Fault.message : Fault → String
  | .ended place => s!"EOF while parsing {place.text}"
  | .expectedValue => "expected value"
  | .expectedIdent => "expected ident"
  | .invalidNumber => "invalid number"
  | .numberOutOfRange => "number out of range"
  | .expectedColon => "expected `:`"
  | .expectedCommaOrBrace => "expected `,` or `\x7d`"
  | .expectedCommaOrBracket => "expected `,` or `]`"
  | .trailingComma => "trailing comma"
  | .keyNotString => "key must be a string"
  | .trailingCharacters => "trailing characters"
  | .controlCharacter => "control character (\\u0000-\\u001F) found while parsing a string"
  | .invalidEscape => "invalid escape"
  | .unfinishedPair => "unexpected end of hex escape"
  | .loneSurrogate => "lone leading surrogate in hex escape"
  | .tooDeep => "recursion limit exceeded"
  | .wrongType found expected => s!"invalid type: {found}, expected {expected}"
  | .integerOutOfRange n => s!"invalid value: integer `{n}`, expected i64"
  | .missingField name => s!"missing field `{name}`"
  | .repeatedField name => s!"duplicate field `{name}`"
  | .unknownVariant tag known => s!"unknown variant `{tag}`, expected {Text.oneOf known}"
  | .tooShort length expected => s!"invalid length {length}, expected {expected}"
  | .repeatedOutput key => s!"duplicate output key '{key}'"

/-- The outcome of reading from the front of a text: what was read and the text after it, or the
first fault. -/
abbrev Step (α : Type) := Except Fault (α × List Char)

/-- Continues on the rest of the text, or stops with the fault. -/
def Step.andThen {α β : Type} (step : Step α) (next : α → List Char → Except Fault β) :
    Except Fault β :=
  match step with
  | .error fault => .error fault
  | .ok (a, rest) => next a rest

@[simp] theorem Step.andThen_ok {α β : Type} (a : α) (rest : List Char)
    (next : α → List Char → Except Fault β) :
    Step.andThen (.ok (a, rest)) next = next a rest := rfl

@[simp] theorem Step.andThen_error {α β : Type} (fault : Fault)
    (next : α → List Char → Except Fault β) :
    Step.andThen (.error fault : Step α) next = .error fault := rfl

theorem Step.andThen_eq_ok {α β : Type} {step : Step α} {next : α → List Char → Except Fault β}
    {b : β} (h : step.andThen next = .ok b) :
    ∃ a rest, step = .ok (a, rest) ∧ next a rest = .ok b := by
  cases step with
  | error fault => cases h
  | ok p => exact ⟨p.1, p.2, rfl, h⟩

end Dataflow.Json
