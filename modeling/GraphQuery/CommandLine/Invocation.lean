import GraphQuery.CommandLine.Options
import GraphQuery.Decimal.Signed

/-!
# Invocations

What the arguments of the program ask for: to compile a query, to show the
settings, or to tell about the program itself.  `Invocation.ofArguments` reads
the options in front of the command, the command, and the options behind it.

The format may be given in front of the command and behind it; the latter
counts.
-/

namespace GraphQuery.CommandLine

/-- How a statement is shown. -/
inductive Format where
  | text
  | json
  deriving DecidableEq

/-- The format with a name. -/
def Format.ofName? (name : String) : Option Format :=
  if name = "text" then some text
  else if name = "json" then some json
  else none

/-- A query that is to be compiled. -/
structure Compilation where
  function : String
  /-- The arguments of the root function, each with its kind. -/
  arguments : List String
  paths : List String
  first? : Option Int64
  offset? : Option Int64
  ascending? : Option String
  descending? : Option String
  name? : Option String
  /-- The values of the parameters are shown too. -/
  showsBindings : Bool

/-- What the program is asked for. -/
inductive Invocation where
  /-- Nothing that could be understood. -/
  | refused
  | help
  | version
  | compile (c : Compilation) (format : Format)
  /-- Show the settings of a file, or of the one that the environment names. -/
  | showSettings (path? : Option String)

namespace Invocation

/-- The integer of a value. -/
def integer? (value : String) : Option Int64 :=
  match Decimal.Signed.read value with
  | .ok n => some n
  | .error _ => none

/-- A value is taken as it is. -/
def any (_ : String) : Bool := true

/-- The option for the format. -/
def formatSpec : Spec := ⟨"format", .one fun v => (Format.ofName? v).isSome⟩

/-- The option for help. -/
def helpSpec : Spec := ⟨"help", .stop 'h'⟩

/-- The options in front of the command. -/
def specs : List Spec := [formatSpec, helpSpec, ⟨"version", .stop 'V'⟩]

/-- The options for compiling a query. -/
def compileSpecs : List Spec :=
  [⟨"func", .one any⟩, ⟨"arg", .many⟩, ⟨"field", .many⟩,
    ⟨"first", .one fun v => (integer? v).isSome⟩, ⟨"offset", .one fun v => (integer? v).isSome⟩,
    ⟨"order-asc", .one any⟩, ⟨"order-desc", .one any⟩, ⟨"name", .one any⟩, ⟨"vars", .nothing⟩,
    formatSpec, helpSpec]

/-- The options for showing the settings. A file has a name. -/
def settingsSpecs : List Spec :=
  [⟨"path", .one fun v => !v.isEmpty⟩, formatSpec, helpSpec]

/-- The format, as it is given behind the command, in front of it, or not at all. -/
def format (before after : Options) : Format :=
  ((after.value? "format").or (before.value? "format") >>= Format.ofName?).getD .text

/-- The query that is described by the options. It needs a function. -/
def compilation? (given : Options) : Option Compilation :=
  (given.value? "func").map fun function =>
    { function
      arguments := given.values "arg"
      paths := given.values "field"
      first? := given.value? "first" >>= integer?
      offset? := given.value? "offset" >>= integer?
      ascending? := given.value? "order-asc"
      descending? := given.value? "order-desc"
      name? := given.value? "name"
      showsBindings := given.has "vars" }

/-- What is asked for by a command with its options. -/
def ofCommand (command : String) (before after : Options) : Invocation :=
  if command = "compile" then
    match compilation? after with
    | some c => compile c (format before after)
    | none => refused
  else showSettings (after.value? "path")

/-- The options that a command has. -/
def specsOf? (command : String) : Option (List Spec) :=
  if command = "compile" then some compileSpecs
  else if command = "config" then some settingsSpecs
  else none

/-- What is asked for by an option that stops. -/
def ofStop (name : String) : Invocation := if name = "version" then version else help

/-- Nothing stands behind the options, save perhaps the mark of their end. -/
def isOver (rest : List String) : Bool := rest.isEmpty || rest == ["--"]

/-- What is asked for by the arguments. -/
def ofArguments (args : List String) : Invocation :=
  match scan specs [] args with
  | .refused | .done _ [] => refused
  | .stopped name => ofStop name
  | .done before (command :: rest) =>
    match specsOf? command with
    | none => refused
    | some specs =>
      match scan specs [] rest with
      | .refused => refused
      | .stopped name => ofStop name
      | .done after rest => if isOver rest then ofCommand command before after else refused

end Invocation

end GraphQuery.CommandLine
