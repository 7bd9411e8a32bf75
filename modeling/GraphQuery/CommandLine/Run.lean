import GraphQuery.CommandLine.Invocation
import GraphQuery.Settings.Toml
import GraphQuery.Statement

/-!
# Running the program

`run` says what the program does with its arguments: it ends with a `Result`,
or it needs a file of settings first, and `showFile` says what it does with
that.  Nothing here touches the machine.
-/

namespace GraphQuery.CommandLine

/-- What the program leaves behind when it ends. -/
structure Result where
  status : Nat
  /-- What is written to the standard output. -/
  output : String
  /-- What is written to the standard error. -/
  complaint : String
  deriving DecidableEq

namespace Result

/-- The program has done what it was asked for. -/
def success (output : String) : Result := ⟨0, output, ""⟩

/-- The program could not do what it was asked for. -/
def failure (message : String) : Result := ⟨1, "", "error: " ++ message ++ "\n"⟩

/-- The program gave up half way. -/
def abandoned (message : String) : Result := ⟨101, "", "error: " ++ message ++ "\n"⟩

/-- The program could not understand what it was asked for. -/
def refusal (message : String) : Result := ⟨2, "", message⟩

end Result

/-! ## Texts about the program -/

/-- The name and the version of the program. -/
def versionText : String := "dqlc 0.1.0\n"

/-- How the program is used. -/
def usageText : String :=
  "Usage: dqlc [--format text|json] compile --func NAME [--arg KIND=VALUE]... [--field PATH]...\n"
    ++ "            [--first N] [--offset N] [--order-asc PREDICATE] [--order-desc PREDICATE]\n"
    ++ "            [--name NAME] [--vars]\n"
    ++ "       dqlc config [--path FILE]\n"

/-- What the program is for, and how it is used. -/
def helpText : String := "Compile graph queries from the command line\n\n" ++ usageText

/-! ## Compiling a query -/

/-- The value of an argument of the root function, which is given as its kind, an equals sign and
its text. -/
def value (argument : String) : Except String Value :=
  match splitValue argument.toList with
  | (_, none) => .error ("argument '" ++ argument ++ "' must look like KIND=VALUE")
  | (kind, some text) =>
    if kind = "pred" ∨ kind = "predicate" then .ok (.predicate text)
    else if kind = "uid" then .ok (.uid text)
    else if kind = "string" ∨ kind = "str" then .ok (.string text)
    else if kind = "int" then
      ((Decimal.Signed.read text).mapError Decimal.Signed.Fault.message).map .int
    else .error ("unknown argument kind '" ++ kind ++ "'")

namespace Compilation

/-- The steps that build the query, once its parts were read. -/
def steps (c : Compilation) (arguments : List Value) (selection : Selection) : List Query.Step :=
  .root (.named c.function arguments) :: (c.name?.map Query.Step.name).toList
    ++ .select selection :: (c.first?.map fun n => .modify .root (.page (.first n))).toList
    ++ (c.offset?.map fun n => .modify .root (.page (.offset n))).toList
    ++ (c.ascending?.map fun p => .modify .root (.order ⟨.ascending, p⟩)).toList
    ++ (c.descending?.map fun p => .modify .root (.order ⟨.descending, p⟩)).toList

/-- The statement of the query. -/
def statement (c : Compilation) : Except String Statement := do
  let arguments ← c.arguments.mapM value
  let selection ← (Selection.ofPaths c.paths).mapError Error.message
  (Query.empty.build (c.steps arguments selection)).compile.mapError Error.message

/-- The values of the parameters as an object. -/
def bindings (s : Statement) : Json :=
  .object (s.bindings.map fun b => (b.1, .string b.2))

/-- The statement as it is shown. -/
def present (c : Compilation) (format : Format) (s : Statement) : String :=
  match format with
  | .text =>
    s.text ++ "\n" ++ if c.showsBindings then (bindings s).pretty "" ++ "\n" else ""
  | .json =>
    (Json.object [("query", .string s.text), ("vars", bindings s)]).pretty "" ++ "\n"

/-- Compile the query and show its statement. -/
def run (c : Compilation) (format : Format) : Result :=
  match c.statement with
  | .ok s => .success (c.present format s)
  | .error message => .failure message

end Compilation

/-! ## Showing settings -/

/-- A file, as far as the program can read it. -/
inductive File where
  | missing
  | text (s : String)
  /-- The file is there, but it cannot be read. -/
  | unreadable (reason : String)

/-- The settings in words, where those that cannot be written are at fault. -/
def settingsText (s : Settings) : Result :=
  match s.toToml with
  | .ok t => .success t
  | .error .largeInteger => .failure "invalid config: an integer is too large"
  | .error .longRun => .abandoned "too many quotes in a row"

/-- Show the settings of the file with the given name, or the standard ones if it is missing. -/
def showFile (path : String) (file : File) : Result :=
  match file with
  | .missing => settingsText .standard
  | .unreadable reason => .failure ("failed to read config " ++ path ++ ": " ++ reason)
  | .text t =>
    match Settings.load t with
    | .ok s => settingsText s
    | .error (.invalid f) => .failure f.message
    | .error _ => .failure ("failed to parse config " ++ path ++ ": no settings in TOML")

/-! ## All of it -/

/-- Where the program looks for settings if the arguments do not say so. -/
structure Environment where
  /-- The file that the environment names. -/
  named? : Option String
  /-- The file at its usual place. -/
  usual? : Option String

/-- What the program does next. -/
inductive Next where
  | finish (r : Result)
  /-- Read a file and show its settings. -/
  | load (path : String)

/-- What the program does to show settings. A file that is named has a name. -/
def loadSettings (env : Environment) (path? : Option String) : Next :=
  match path?.or env.named? with
  | some "" => .finish (.refusal ("error: the name of a file is empty\n\n" ++ usageText))
  | some path => .load path
  | none =>
    match env.usual? with
    | some path => .load path
    | none => .finish (settingsText .standard)

/-- What the program does with its arguments. -/
def run (env : Environment) (args : List String) : Next :=
  match Invocation.ofArguments args with
  | .refused => .finish (.refusal ("error: the arguments cannot be understood\n\n" ++ usageText))
  | .help => .finish (.success helpText)
  | .version => .finish (.success versionText)
  | .compile c format => .finish (c.run format)
  | .showSettings path? => loadSettings env path?

end GraphQuery.CommandLine
