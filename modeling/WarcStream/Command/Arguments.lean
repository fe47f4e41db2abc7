import WarcStream.Command.Options
/-!
# Understanding a command line

The words of a command line are first cut into tokens, which needs nothing but
the names of the options that take a value. The tokens are then read in their
order, first those before the command and then those behind it; the shared
options may stand in either place. What is wrong first decides, so a request
for help is answered if nothing before it is wrong. An option that is not
given may be set by an environment variable, which must then hold a value the
option has.
-/

namespace WarcStream.Command

/-- Why no command is run. -/
inductive Stop where
  /-- The command line is wrong. -/
  | usage
  /-- The command line asks for this text. -/
  | information (text : String)
  deriving DecidableEq, Repr

/-- The name and the version of the program. -/
def programVersion : String := "warcseq 0.1.0"

/-- How the program is used. -/
def usageText : String :=
  "Usage: warcseq [OPTIONS] <dump|check|frame|version> [INPUT]\n"

/-! ## Tokens -/

/-- A part of a command line. -/
inductive Token where
  /-- An option with its value. -/
  | option (name value : String)
  /-- An option whose value is missing. -/
  | bare (name : String)
  /-- A word that is an option without a value. -/
  | flag (name : String)
  /-- Options of one letter. -/
  | letters (first : Char)
  /-- Any other word; `escaped` behind two dashes. -/
  | operand (word : String) (escaped : Bool)
  deriving DecidableEq, Repr

/-- The options that take a value. -/
def valueOptions : List String :=
  ["format", "log-format", "log-level", "protocol", "stream-format", "max-frame-size", "count"]

/-- The characters before the first equals sign, and those behind it, if there is one. -/
def cutAtEquals : List Char → List Char × Option (List Char)
  | [] => ([], none)
  | '=' :: rest => ([], some rest)
  | c :: rest =>
    let (name, value) := cutAtEquals rest
    (c :: name, value)

/-- What a single word is. -/
inductive Word where
  /-- Two dashes. -/
  | escape
  | long (name : String) (value : Option String)
  | short (first : Char)
  | plain
  deriving DecidableEq, Repr

/-- What a word is. -/
def wordOf (word : String) : Word :=
  match word.toList with
  | ['-', '-'] => .escape
  | '-' :: '-' :: rest =>
    let (name, value) := cutAtEquals rest
    .long (String.ofList name) (value.map String.ofList)
  | ['-'] => .plain
  | '-' :: first :: _ => .short first
  | _ => .plain

/-- The tokens of a command line. -/
def tokens : List String → List Token
  | [] => []
  | word :: rest =>
    match wordOf word with
    | .escape => rest.map fun word => .operand word true
    | .plain => .operand word false :: tokens rest
    | .short first => .letters first :: tokens rest
    | .long name (some value) => .option name value :: tokens rest
    | .long name none =>
      if valueOptions.contains name then
        match rest with
        | value :: rest => .option name value :: tokens rest
        | [] => [.bare name]
      else .flag name :: tokens rest

/-! ## Shared options -/

/-- The shared options that were given. -/
structure Given where
  output : Option OutputFormat := none
  logLayout : Option Log.Layout := none
  verbosity : Option Log.Verbosity := none
  protocol : Option ProtocolVersion := none
  stream : Option StreamFormat := none
  limit : Option Nat := none
  deriving DecidableEq, Repr

/-- Gives an option the value that `read` finds in a text. An option is given once. -/
def giveOnce {α : Type} (read : String → Option α) (value : String) (old : Option α) :
    Except Stop (Option α) :=
  match old, read value with
  | none, some new => .ok (some new)
  | _, _ => .error .usage

/-- A natural number. -/
def readCount (s : String) : Option Nat := (Text.natural? s).map UInt64.toNat

/-- Gives a shared option its value. -/
def Given.set (g : Given) (name value : String) : Except Stop Given :=
  match name with
  | "format" => return { g with output := ← giveOnce outputOfName? value g.output }
  | "log-format" => return { g with logLayout := ← giveOnce layoutOfName? value g.logLayout }
  | "log-level" => return { g with verbosity := ← giveOnce verbosityOfName? value g.verbosity }
  | "protocol" => return { g with protocol := ← giveOnce ProtocolVersion.ofText? value g.protocol }
  | "stream-format" => return { g with stream := ← giveOnce StreamFormat.ofText? value g.stream }
  | "max-frame-size" => return { g with limit := ← giveOnce readCount value g.limit }
  | _ => .error .usage

/-- A variable's value for an option that was not given. -/
def fromVariable {α : Type} (read : String → Option α) (setting : Option String)
    (given : Option α) : Except Stop (Option α) :=
  match given, setting with
  | some value, _ => .ok (some value)
  | none, none => .ok none
  | none, some text =>
    match read text with
    | some value => .ok (some value)
    | none => .error .usage

/-- The options with those that were not given taken from an environment. -/
def Given.complete (g : Given) (environment : List (String × String)) : Except Stop Given := do
  let logLayout ←
    fromVariable layoutOfName? (environment.lookup "WARCSEQ_LOG_FORMAT") g.logLayout
  let verbosity ←
    fromVariable verbosityOfName? (environment.lookup "WARCSEQ_LOG_LEVEL") g.verbosity
  let protocol ←
    fromVariable ProtocolVersion.ofText? (environment.lookup "WARCSEQ_PROTOCOL") g.protocol
  let stream ←
    fromVariable StreamFormat.ofText? (environment.lookup "WARCSEQ_STREAM_FORMAT") g.stream
  return { g with logLayout, verbosity, protocol, stream }

/-- The options of two places; those of the second win. -/
def Given.over (first second : Given) : Given :=
  { output := second.output <|> first.output
    logLayout := second.logLayout <|> first.logLayout
    verbosity := second.verbosity <|> first.verbosity
    protocol := second.protocol <|> first.protocol
    stream := second.stream <|> first.stream
    limit := second.limit <|> first.limit }

/-- The options with the usual values for those that were not given. -/
def Given.shared (g : Given) : Shared :=
  let usual : Shared := {}
  { output := g.output.getD usual.output
    logLayout := g.logLayout.getD usual.logLayout
    verbosity := g.verbosity.getD usual.verbosity
    protocol := g.protocol.getD usual.protocol
    stream := g.stream.getD usual.stream
    limit := g.limit }

/-! ## Commands -/

/-- The name of a command. -/
inductive Verb where
  | dump
  | check
  | frame
  | version
  deriving DecidableEq, Repr

/-- The command with this name. -/
def Verb.ofName? : String → Option Verb
  | "dump" => some .dump
  | "check" => some .check
  | "frame" => some .frame
  | "version" => some .version
  | _ => none

/-- What was given behind a command. -/
structure Behind where
  given : Given := {}
  input : Option Input := none
  count : Option Nat := none
  /-- The flag of the command. -/
  flag : Bool := false
  deriving DecidableEq, Repr

/-- The flag that a command has, if it has one. -/
def Verb.flag? : Verb → Option String
  | .check => some "require-eof"
  | .version => some "extended"
  | .dump | .frame => none

/-- Reads a token behind a command. -/
def Behind.take (b : Behind) (verb : Verb) : Token → Except Stop Behind
  | .option name value => do
    if verb = .dump ∧ name = "count" then
      return { b with count := ← giveOnce readCount value b.count }
    else return { b with given := ← b.given.set name value }
  | .flag name =>
    if name = "help" then .error (.information usageText)
    else if verb.flag? = some name ∧ b.flag = false then .ok { b with flag := true }
    else .error .usage
  | .letters first =>
    if first = 'h' then .error (.information usageText) else .error .usage
  | .operand word _ =>
    if verb = .version ∨ b.input.isSome then .error .usage
    else .ok { b with input := some (.ofText word) }
  | .bare _ => .error .usage

/-- The command with what was given behind it. -/
def Behind.action (b : Behind) (verb : Verb) : Action :=
  let input := b.input.getD .stdin
  match verb with
  | .dump => .dump input b.count
  | .check => .check input b.flag
  | .frame => .frame input
  | .version => .version b.flag

/-- Help was asked for, in general or on a command. -/
def helpOn : List Token → Stop
  | [] => .information usageText
  | [.operand word false] =>
    if word = "help" ∨ (Verb.ofName? word).isSome then .information usageText else .usage
  | _ => .usage

/-- Reads the tokens up to the command, and gives those behind it. -/
def upToVerb (given : Given) : List Token → Except Stop (Given × Verb × List Token)
  | [] => .error .usage
  | .option name value :: rest => do
    let given ← given.set name value
    upToVerb given rest
  | .flag name :: _ =>
    if name = "help" then .error (.information usageText)
    else if name = "version" then .error (.information (programVersion ++ "\n"))
    else .error .usage
  | .letters first :: _ =>
    if first = 'h' then .error (.information usageText)
    else if first = 'V' then .error (.information (programVersion ++ "\n"))
    else .error .usage
  | .operand word false :: rest =>
    match Verb.ofName? word with
    | some verb => .ok (given, verb, rest)
    | none => .error (if word = "help" then helpOn rest else .usage)
  | .operand _ true :: _ | .bare _ :: _ => .error .usage

/-- Understands a command line in an environment. -/
def Invocation.ofArguments (arguments : List String) (environment : List (String × String)) :
    Except Stop Invocation := do
  let (before, verb, rest) ← upToVerb {} (tokens arguments)
  let behind ← rest.foldlM (fun b token => b.take verb token) ({} : Behind)
  -- each place falls back on the environment by itself, so a bad one spoils the place without it
  let completeBefore ← before.complete environment
  let completeBehind ← behind.given.complete environment
  let fromVariables := completeBefore.over completeBehind
  return { shared := (fromVariables.over (before.over behind.given)).shared
           action := behind.action verb }

end WarcStream.Command
