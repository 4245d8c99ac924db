import Dataflow.Invocation

/-! # Reading command lines

A command line is a run of tokens: options with values, flags, the name of a command, and operands.
Options that every command shares may stand before and behind the command's name; behind it they
count more. An option whose value is another token is settled late: when the next option, flag or
operand comes, or at the end. So a fault in its value is found only then.

* `Reading`: what has been read, with the option that is not settled yet.
* `readTokens`: reads the tokens before a command's name, or those behind it.
* `Invocation.ofTokens`: what a command line asks for.
-/

namespace Dataflow

namespace CommandLine

/-! ## What can be given -/

/-- The names of commands. -/
inductive Verb
  | validate
  | edges
  | order
  | filter
  | schema
deriving DecidableEq

namespace Verb

/-- The word on the command line. -/
def name : Verb → String
  | .validate => "validate"
  | .edges => "edges"
  | .order => "order"
  | .filter => "filter"
  | .schema => "schema"

/-- Every command, in the order the synopsis lists them. -/
def all : List Verb := [.validate, .edges, .order, .filter, .schema]

/-- The command a word selects. -/
def ofName? (token : String) : Option Verb :=
  all.find? fun v => v.name = token

/-- Whether the command works on a definition file; only the schema does not. -/
def takesFile (v : Verb) : Bool :=
  v ≠ .schema

end Verb

/-- What takes a value. -/
inductive Slot
  | config
  | level
  | layout
  | rendering
  | start
  | stop
  | file
deriving DecidableEq

/-- What takes no value. -/
inductive Flag
  | json
  | help
  | version
deriving DecidableEq

/-- What a name stands for. -/
inductive Param
  | slot (s : Slot)
  | flag (f : Flag)
deriving DecidableEq

/-- What the long name of an option stands for, before the command's name or behind it. -/
def longName? (verb : Option Verb) : String → Option Param
  | "config" => some (.slot .config)
  | "level" => some (.slot .level)
  | "log-format" => some (.slot .layout)
  | "output" => some (.slot .rendering)
  | "json" => some (.flag .json)
  | "help" => some (.flag .help)
  | "version" => if verb = none then some (.flag .version) else none
  | "from" => if verb = some .filter then some (.slot .start) else none
  | "to" => if verb = some .filter then some (.slot .stop) else none
  | _ => none

/-- What the short name of an option stands for, before the command's name or behind it. -/
def shortName? (verb : Option Verb) : Char → Option Param
  | 'l' => some (.slot .level)
  | 'o' => some (.slot .rendering)
  | 'h' => some (.flag .help)
  | 'V' => if verb = none then some (.flag .version) else none
  | _ => none

/-! ## What is given -/

/-- The values given so far, on one side of the command's name. -/
structure Given where
  config : Option String := none
  level : Option Log.Level := none
  layout : Option Log.Layout := none
  rendering : Option Rendering := none
  json : Bool := false
  start : List String := []
  stop : List String := []
  file : Option String := none
deriving DecidableEq

/-- The choice that a token names, if none has been made. -/
def chosen {α : Type} (old : Option α) (name : α → String) (all : List α) (token : String) :
    Except Usage (Option α) :=
  if old.isSome then .error .repeated
  else
    match all.find? fun a => name a = token with
    | some a => .ok (some a)
    | none => .error .badValue

/-- Sets a path slot, which takes one non-empty value. -/
def path (old : Option String) (token : String) : Except Usage (Option String) :=
  if old.isSome then .error .repeated
  else if token = "" then .error .badValue
  else .ok (some token)

/-- Fills a slot; all but the two selections take one value only. -/
def Given.give (g : Given) (s : Slot) (token : String) : Except Usage Given :=
  match s with
  | .config => (path g.config token).map fun p => { g with config := p }
  | .level =>
    (chosen g.level Log.Level.name Log.Level.all token).map fun l => { g with level := l }
  | .layout =>
    (chosen g.layout Log.Layout.name Log.Layout.all token).map fun l => { g with layout := l }
  | .rendering =>
    (chosen g.rendering Rendering.name Rendering.all token).map fun r => { g with rendering := r }
  | .start => .ok { g with start := g.start ++ [token] }
  | .stop => .ok { g with stop := g.stop ++ [token] }
  | .file => (path g.file token).map fun p => { g with file := p }

/-- What has been read on one side of the command's name. -/
structure Reading where
  given : Given
  /-- What is not settled yet, with its value if that has been read. -/
  pending : Option (Slot × Option String)

namespace Reading

/-- Nothing given and no option open. -/
def start : Reading := ⟨{}, none⟩

/-- Whether the last option still needs its value, so that the next token is taken for it. -/
def awaits (r : Reading) : Bool :=
  r.pending.any fun (_, value) => value.isNone

/-- Whether the file slot is filled, or will be by the pending token. -/
def hasFile (r : Reading) : Bool :=
  r.given.file.isSome || r.pending.any fun (s, _) => s = .file

/-- Closes the pending option; one that never got its value is an error. -/
def settle (r : Reading) : Except Usage Given :=
  match r.pending with
  | none => .ok r.given
  | some (_, none) => .error .badValue
  | some (s, some token) => r.given.give s token

/-- Opens an option; a value in the same token closes it at once. -/
def option (r : Reading) (s : Slot) (value : Option String) : Except Usage Reading := do
  let g ← r.settle
  match value with
  | some token => return ⟨← g.give s token, none⟩
  | none => return ⟨g, some (s, none)⟩

/-- Takes an option without a value. Help and version stop the reading. -/
def flag (r : Reading) (f : Flag) : Except Usage Reading := do
  let g ← r.settle
  match f with
  | .json => if g.json then throw .repeated else return ⟨{ g with json := true }, none⟩
  | .help => throw .help
  | .version => throw .version

/-- Reads a token as a value: of the option that waits for one, or as the operand. -/
def operand (r : Reading) (token : String) : Except Usage Reading := do
  let g ← r.settle
  return ⟨g, some (.file, some token)⟩

end Reading

/-! ## Tokens -/

/-- What a token looks like. -/
inductive Token
  | dashes
  /-- Two dashes and a name, perhaps with a value behind an equals sign. -/
  | long (name : String) (value : Option String)
  /-- One dash and a letter, perhaps with a value behind it. -/
  | short (letter : Char) (value : Option String)
  | plain

namespace Token

/-- The value behind a letter; an equals sign may stand between them. -/
def shortValue? : List Char → Option String
  | [] => none
  | '=' :: value => some (.ofList value)
  | value => some (.ofList value)

/-- The value of `--name=value`, given the text from the `=` on. -/
def longValue? : List Char → Option String
  | [] => none
  | _ :: value => some (.ofList value)

/-- Sorts a token by its dashes. -/
def ofChars : List Char → Token
  | ['-', '-'] => .dashes
  | '-' :: '-' :: cs =>
    .long (.ofList (cs.takeWhile (· ≠ '='))) (longValue? (cs.dropWhile (· ≠ '=')))
  | '-' :: c :: cs => .short c (shortValue? cs)
  | _ => .plain

/-- Sorts a token as it comes from the shell. -/
def ofString (token : String) : Token :=
  ofChars token.toList

end Token

/-! ## Reading tokens -/

/-- The word that asks for help where a command's name may stand. -/
def helpWord : String := "help"

/-- Reads what a name stands for, with the value that is attached to it. -/
def readNamed (r : Reading) (param : Option Param) (value : Option String) : Except Usage Reading :=
  match param, value with
  | none, _ => .error .unknownArgument
  | some (.slot s), value => r.option s value
  | some (.flag _), some _ => .error .unexpectedValue
  | some (.flag f), none => r.flag f

/-- Reads a letter, with the text behind it. Behind the letter of a flag stand further letters, but
every flag with a letter ends the reading. -/
def readLetter (verb : Option Verb) (r : Reading) (letter : Char) (value : Option String) :
    Except Usage Reading :=
  match shortName? verb letter with
  | none => .error .unknownArgument
  | some (.slot s) => r.option s value
  | some (.flag f) => r.flag f

/-- Reads a token that is an operand; `trailing` tells whether two dashes came before. -/
def readOperand (verb : Option Verb) (trailing : Bool) (r : Reading) (token : String) :
    Except Usage Reading :=
  match verb with
  | some v =>
    if v.takesFile && !r.hasFile then r.operand token else .error .unknownArgument
  | none =>
    if trailing && ((Verb.ofName? token).isSome || token = helpWord) then .error .unknownArgument
    else .error .unknownCommand

/-- The answer to a request for help on the commands that some tokens name. -/
def helpOn : List String → Usage
  | [] => .help
  | [token] =>
    if (Verb.ofName? token).isSome || token = helpWord then .help else .unknownCommand
  | _ => .unknownCommand

/-- Reads the tokens on one side of the command's name. Before it, the reading ends at that name
and gives the tokens behind it. -/
def readTokens (verb : Option Verb) (trailing : Bool) (r : Reading) :
    List String → Except Usage (Reading × Option (Verb × List String))
  | [] => .ok (r, none)
  | token :: rest =>
    if trailing then
      (readOperand verb true r token).bind fun r => readTokens verb true r rest
    else if verb = none && !r.awaits && token = helpWord then .error (helpOn rest)
    else
      match if verb = none && !r.awaits then Verb.ofName? token else none with
      | some v => .ok (r, some (v, rest))
      | none =>
        match Token.ofString token with
        | .dashes => readTokens verb true r rest
        | .long name value =>
          (readNamed r (longName? verb name) value).bind fun r => readTokens verb false r rest
        | .short letter value =>
          (readLetter verb r letter value).bind fun r => readTokens verb false r rest
        | .plain =>
          match r.pending with
          | some (s, none) => readTokens verb false ⟨r.given, some (s, some token)⟩ rest
          | _ => (readOperand verb false r token).bind fun r => readTokens verb false r rest

/-- What is given at the end of the tokens. A settings file that the environment names has to be
one that could be given. -/
def finish (environment : Option String) (r : Reading) : Except Usage Given := do
  let g ← r.settle
  if g.config.isNone && environment = some "" then throw .badValue
  return g

/-- Completes a command with what was given; every one but the schema misses its file. -/
def Verb.command (v : Verb) (g : Given) : Except Usage Command :=
  match v, g.file with
  | .schema, _ => .ok .schema
  | _, none => .error .missingFile
  | .validate, some file => .ok (.validate file)
  | .edges, some file => .ok (.edges file)
  | .order, some file => .ok (.order file)
  | .filter, some file => .ok (.filter file g.start g.stop)

end CommandLine

open CommandLine in
/-- What a command line asks for; `environment` is the settings file that the environment names,
which counts if no token names one. -/
def Invocation.ofTokens (environment : Option String) (tokens : List String) :
    Except Usage Invocation := do
  let (outer, named) ← readTokens none false .start tokens
  match named with
  | none =>
    let g ← finish environment outer
    throw (if g = {} ∧ environment = none then .nothing else .missingCommand)
  | some (v, rest) =>
    let (inner, _) ← readTokens (some v) false .start rest
    let own ← finish environment inner
    let c ← v.command own
    let shared ← finish environment outer
    return {
      command := c
      config := (own.config.or shared.config).or environment
      level := own.level.or shared.level
      layout := own.layout.or shared.layout
      rendering := own.rendering.or shared.rendering
      json := own.json || shared.json }

end Dataflow
