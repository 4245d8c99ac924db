import Dataflow.Json.Reader

/-! # Reading records and tagged values

A record is written as an object with its fields in any order, or as a list of its fields in order
of declaration. While it is read its fields are gathered in a draft; `Record.finish` makes the
record from the draft and names a required field that is missing.

* `Field`, `Record`: how a record is read.
* `Record.read`: reads a record from either form.
* `unitTag`, `valueTag`: read one of several names, alone or with a value.
-/

namespace Dataflow.Json

open Token Reader

variable {δ α : Type}

/-! ## Records -/

/-- A field of a record with drafts in `δ`. -/
structure Field (δ : Type) where
  name : String
  required : Bool
  isSet : δ → Bool
  read : Nat → δ → List Char → Step δ

/-- A field that `get?` finds in a draft and `set` puts there. -/
def Field.of {β : Type} (name : String) (required : Bool) (get? : δ → Option β)
    (set : δ → β → δ) (read : Nat → List Char → Step β) : Field δ where
  name := name
  required := required
  isSet draft := (get? draft).isSome
  read depth draft cs := (read depth cs).andThen fun b rest => .ok (set draft b, rest)

/-- How a record is read. -/
structure Record (δ α : Type) where
  name : String
  fields : List (Field δ)
  blank : δ
  /-- The record of a draft, with defaults for the fields that have one. -/
  finish : δ → Except Fault α

namespace Record

/-- The value of a field that has no default. -/
def need {β : Type} (name : String) : Option β → Except Fault β
  | some b => .ok b
  | none => .error (.missingField name)

/-- What a message says was expected. -/
def described (r : Record δ α) : String :=
  s!"struct {r.name}"

/-- Reads a member of an object behind its key. A member that is no field is passed over. -/
def member (r : Record δ α) (depth : Nat) (draft : δ) (key : String) (cs : List Char) : Step δ :=
  match r.fields.find? fun f => f.name = key with
  | none =>
    (passed (colon cs)).andThen fun _ cs => (skip cs).andThen fun _ rest => .ok (draft, rest)
  | some f =>
    if f.isSet draft then .error (.repeatedField key)
    else (passed (colon cs)).andThen fun _ cs => f.read depth draft cs

/-- Reads fields in order from a list, of which `index` have been passed; `first` tells whether
none has been read. The list may end before fields that are not required. -/
def positions (r : Record δ α) (depth : Nat) :
    List (Field δ) → Nat → Bool → δ → List Char → Step δ
  | [], _, _, draft, cs => .ok (draft, cs)
  | f :: fields, index, first, draft, cs =>
    let next (cs : List Char) : Step δ :=
      (f.read depth draft cs).andThen fun draft rest =>
        r.positions depth fields (index + 1) false draft rest
    match dropBlank cs with
    | [] => .error (.ended .list)
    | ']' :: rest =>
      if f.required then
        .error (.tooShort index s!"{r.described} with {r.fields.length} elements")
      else r.positions depth fields (index + 1) first draft (']' :: rest)
    | c :: rest =>
      if first then next (c :: rest)
      else if c = ',' then
        match dropBlank rest with
        | [] => .error (.ended .value)
        | ']' :: _ => .error .trailingComma
        | cs => next cs
      else .error .expectedCommaOrBracket

/-- The closing bracket of a list whose fields have all been read. -/
def closeList (cs : List Char) : Except Fault (List Char) :=
  match dropBlank cs with
  | [] => .error (.ended .list)
  | ']' :: rest => .ok rest
  | ',' :: rest =>
    match dropBlank rest with
    | ']' :: _ => .error .trailingComma
    | _ => .error .trailingCharacters
  | _ => .error .trailingCharacters

/-- Reads a record from an object by field name or from an array by position. -/
def read (r : Record δ α) (depth : Nat) (cs : List Char) : Step α :=
  match dropBlank cs with
  | '{' :: rest =>
    match depth with
    | 0 => .error .tooDeep
    | depth + 1 =>
      (Reader.object .reading Token.string (r.member depth) r.blank rest).andThen fun draft rest =>
        (r.finish draft).map fun a => (a, rest)
  | '[' :: rest =>
    match depth with
    | 0 => .error .tooDeep
    | depth + 1 =>
      (r.positions depth r.fields 0 true r.blank rest).andThen fun draft rest =>
        match r.finish draft, closeList rest with
        | .ok a, .ok rest => .ok (a, rest)
        | .error fault, _ => .error fault
        | _, .error fault => .error fault
  | cs => .error (mismatch r.described cs)

end Record

/-! ## Tags -/

/-- The variant a tag selects; the message for any other tag lists all of them. -/
def known {β : Type} (variants : List (String × β)) (tag : String) : Except Fault β :=
  match variants.lookup tag with
  | some b => .ok b
  | none => .error (.unknownVariant tag (variants.map (·.1)))

/-- Reads the single key of an object that stands for a variant. -/
def tagKey (cs : List Char) : Step String :=
  match dropBlank cs with
  | [] => .error (.ended .object)
  | '"' :: rest => Token.string rest
  | '}' :: _ => .error .expectedValue
  | _ => .error .keyNotString

/-- The closing brace of an object that stands for a tag and has one member. -/
def closeTag (cs : List Char) : Except Fault (List Char) :=
  match dropBlank cs with
  | [] => .error (.ended .object)
  | '}' :: rest => .ok rest
  | _ => .error .expectedValue

/-- Reads the `null` that may stand under the tag of a variant without content. -/
def unit (cs : List Char) : Step Unit :=
  match dropBlank cs with
  | 'n' :: rest => passed (literal ['u', 'l', 'l'] rest)
  | cs => .error (mismatch "unit" cs)

/-- Reads a tagged value: `bare` makes it from a tag alone and `full` from the tag of an object
with one member and from that member's value. The tag is checked as soon as it is read. -/
def tagged {β : Type} (variants : List (String × β)) (bare : β → Except Fault α)
    (full : Nat → β → List Char → Step α) (depth : Nat) (cs : List Char) : Step α :=
  match dropBlank cs with
  | [] => .error (.ended .value)
  | '"' :: rest =>
    (Token.string rest).andThen fun tag rest =>
      match known variants tag with
      | .error fault => .error fault
      | .ok b => (bare b).map fun a => (a, rest)
  | '{' :: rest =>
    match depth with
    | 0 => .error .tooDeep
    | depth + 1 =>
      (tagKey rest).andThen fun tag rest =>
        match known variants tag with
        | .error fault => .error fault
        | .ok b =>
          (passed (colon rest)).andThen fun _ rest =>
            (full depth b rest).andThen fun a rest =>
              (closeTag rest).map fun rest => (a, rest)
  | _ => .error .expectedValue

/-- Reads one of several names, as a string or as the key of an object with the value `null`. -/
def unitTag (variants : List (String × α)) : Nat → List Char → Step α :=
  tagged variants .ok fun _ a cs => (unit cs).andThen fun _ rest => .ok (a, rest)

/-- Reads an object with one member whose key is a name and whose value is read as the name
asks. -/
def valueTag (variants : List (String × (Nat → List Char → Step α))) :
    Nat → List Char → Step α :=
  tagged variants (fun _ => .error (.wrongType "unit variant" "newtype variant"))
    fun depth read cs => read depth cs

end Dataflow.Json
