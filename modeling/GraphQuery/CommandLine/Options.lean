/-!
# Options on a command line

An option is a word that begins with two dashes.  Its value stands behind an
equals sign in the same argument, or is the next argument, which then must not
begin with a dash, unless it is a dash and nothing else.

`scan` takes the options at the front of a list of arguments.  An option that
stops is acted on as soon as it is reached, whatever comes behind it; it may
be given by its letter behind a single dash too.
-/

namespace GraphQuery.CommandLine

/-- What an option wants, and how often it may be given. -/
inductive Want where
  /-- No value; it is given once. -/
  | nothing
  /-- A value; it is given once. -/
  | one (accepts : String → Bool)
  /-- A value each time it is given. -/
  | many
  /-- No value; nothing behind it matters. -/
  | stop (letter : Char)

/-- An option that may be given. -/
structure Spec where
  name : String
  want : Want

/-- An option that was given, with its value or the empty text. -/
structure Given where
  name : String
  value : String
  deriving DecidableEq

/-- The options that were given, in order. -/
abbrev Options := List Given

/-- What came of looking for options. -/
inductive Scan where
  /-- Something cannot be understood. -/
  | refused
  /-- An option was reached that stops. -/
  | stopped (name : String)
  /-- The options, in order, and the arguments behind them. -/
  | done (given : Options) (rest : List String)

namespace Options

/-- The value of the first option with a name. -/
def value? (name : String) (given : Options) : Option String :=
  (given.find? (·.name == name)).map Given.value

/-- The values of all options with a name. -/
def values (name : String) (given : Options) : List String :=
  (given.filter (·.name == name)).map Given.value

/-- An option with the name was given. -/
def has (name : String) (given : Options) : Bool :=
  given.any (·.name == name)

end Options

/-- A word behind two dashes: the name of an option, and the value behind an equals sign. -/
def splitValue (cs : List Char) : String × Option String :=
  (.ofList (cs.takeWhile (· != '=')),
    match cs.dropWhile (· != '=') with
    | [] => none
    | _ :: value => some (.ofList value))

/-- An argument, by the dashes in front of it. -/
inductive Word where
  /-- The end of all options. -/
  | escape
  /-- An option, perhaps with a value. -/
  | long (name : String) (value? : Option String)
  /-- A letter behind a single dash, and whatever follows it. -/
  | short (letter : Char)
  /-- Anything else. -/
  | plain

/-- What an argument looks like. -/
def Word.ofString (s : String) : Word :=
  match s.toList with
  | ['-', '-'] => escape
  | '-' :: '-' :: cs => long (splitValue cs).1 (splitValue cs).2
  | '-' :: letter :: _ => short letter
  | _ => plain

/-- The option stops and has the given letter. -/
def Spec.hasLetter (s : Spec) (letter : Char) : Bool :=
  match s.want with
  | .stop l => l == letter
  | _ => false

/-- The option that stops and has the given letter. -/
def stopName? (specs : List Spec) (letter : Char) : Option String :=
  (specs.find? (·.hasLetter letter)).map Spec.name

/-- The options that were given before, and one more, if it may be given and its value is right. -/
def add? (spec : Spec) (value : String) (given : Options) : Option Options :=
  match spec.want with
  | .many => some (given ++ [⟨spec.name, value⟩])
  | .one accepts =>
    if given.has spec.name || !accepts value then none
    else some (given ++ [⟨spec.name, value⟩])
  | .nothing => if given.has spec.name then none else some (given ++ [⟨spec.name, value⟩])
  | .stop _ => none

/-- The options at the front of the arguments, behind those that were given before. -/
def scan (specs : List Spec) (given : Options) : List String → Scan
  | [] => .done given []
  | arg :: rest =>
    match Word.ofString arg with
    | .escape | .plain => .done given (arg :: rest)
    | .short letter =>
      match stopName? specs letter with
      | some name => .stopped name
      | none => .refused
    | .long name value? =>
      match specs.find? (·.name == name) with
      | none => .refused
      | some spec =>
        match spec.want, value?, rest with
        | .stop _, none, _ => .stopped name
        | .stop _, some _, _ | .nothing, some _, _ => .refused
        | .nothing, none, rest =>
          match add? spec "" given with
          | none => .refused
          | some given => scan specs given rest
        | .one _, some value, rest | .many, some value, rest =>
          match add? spec value given with
          | none => .refused
          | some given => scan specs given rest
        | .one _, none, value :: rest | .many, none, value :: rest =>
          if Word.ofString value matches .plain then
            match add? spec value given with
            | none => .refused
            | some given => scan specs given rest
          else .refused
        | .one _, none, [] | .many, none, [] => .refused

end GraphQuery.CommandLine
