/-!
# The arguments of the program

The first argument names a command, and the others belong to it.  Each command takes one
operand and some switches, in any order; a switch may be given once.  A switch with a value
takes it from the same argument or from the next one.  An argument that begins with `-` is a
switch, except for `-` alone and for everything behind `--`.

Arguments are read from the left, and the first one that asks for help or is wrong decides.
-/

namespace Hydration.CommandLine

/-- What help can be asked for. -/
inductive Topic where
  | program
  | tokens
  | parse
  | run
  | help
deriving DecidableEq, Repr, Inhabited

/-- What the program is asked to do. -/
inductive Request where
  /-- List the tokens of a requirement. -/
  | tokens (expression : String)
  /-- Show the tree of a requirement. -/
  | parse (expression : String) (json : Bool)
  /-- Run the scenario in a file, with the options in another one if it is given. -/
  | run (scenario : String) (options : Option String) (json : Bool)
  | help (topic : Topic)
  | version
deriving DecidableEq, Repr, Inhabited

/-- A switch of a command. -/
structure Switch where
  long : String
  short : Option Char := none
  takesValue : Bool := false
deriving DecidableEq, Repr, Inhabited

/-- The switch for the layout of the output. -/
def jsonSwitch : Switch := { long := "json" }

/-- The switch for a file of options. -/
def optionsSwitch : Switch := { long := "options", short := some 'o', takesValue := true }

/-- What one argument is. -/
inductive Argument where
  | operand (text : String)
  /-- The mark behind which there are only operands. -/
  | separator
  | help
  /-- A switch with the value in the same argument. -/
  | switch (s : Switch) (value : Option String)
  | unknown
deriving DecidableEq, Repr, Inhabited

/-- A switch that is called by its long name, which may be followed by `=` and a value. -/
def Argument.ofLong (switches : List Switch) (cs : List Char) : Argument :=
  let name := String.ofList (cs.takeWhile (· != '='))
  let value := match cs.dropWhile (· != '=') with
    | '=' :: value => some (String.ofList value)
    | _ => none
  match switches.find? (·.long == name) with
  | some s => if value.isSome && !s.takesValue then unknown else switch s value
  | none => if name == "help" && value.isNone then help else unknown

/-- A switch that is called by one character, which may be followed by a value. -/
def Argument.ofShort (switches : List Switch) (c : Char) (cs : List Char) : Argument :=
  match switches.find? (·.short == some c) with
  | some s =>
    match cs with
    | [] => switch s none
    | '=' :: value => switch s (some (String.ofList value))
    | value => switch s (some (String.ofList value))
  | none => if c == 'h' then help else unknown

/-- What an argument is for a command with some switches. -/
def Argument.of (switches : List Switch) (text : String) : Argument :=
  match text.toList with
  | ['-', '-'] => separator
  | '-' :: '-' :: cs => ofLong switches cs
  | '-' :: c :: cs => ofShort switches c cs
  | _ => operand text

/-- The arguments of a command that have been read. -/
structure Given where
  operand : Option String := none
  /-- The switches with their values. -/
  switches : List (Switch × Option String) := []

namespace Given

variable (g : Given)

/-- Adds an operand, of which there is only one. -/
def addOperand (text : String) : Option Given :=
  if g.operand.isSome then none else some { g with operand := some text }

/-- Adds a switch that has not been given before. -/
def addSwitch (s : Switch) (value : Option String) : Option Given :=
  if g.switches.any (·.1 == s) then none
  else some { g with switches := (s, value) :: g.switches }

/-- Whether a switch is given. -/
def has (s : Switch) : Bool :=
  g.switches.any (·.1 == s)

/-- The value of a switch. -/
def value? (s : Switch) : Option String :=
  (g.switches.lookup s).join

end Given

/-- What the arguments of a command come to. -/
inductive Reading where
  | given (g : Given)
  | help
  | wrong

/-- What to do with an argument that has been added, if it could be. -/
def Reading.continue? (g? : Option Given) (go : Given → Reading) : Reading :=
  match g? with
  | some g => go g
  | none => wrong

/-- Reads the arguments of a command with some switches. -/
def readArguments (switches : List Switch) : List String → Given → Reading
  | [], g => .given g
  | arg :: rest, g =>
    match Argument.of switches arg with
    | .unknown => .wrong
    | .help => .help
    | .operand text => .continue? (g.addOperand text) (readArguments switches rest)
    | .separator => .continue? (rest.foldlM Given.addOperand g) .given
    | .switch s value =>
      if s.takesValue && value.isNone then
        match rest with
        | [] => .wrong
        | next :: rest =>
          match Argument.of switches next with
          | .operand text => .continue? (g.addSwitch s (some text)) (readArguments switches rest)
          | _ => .wrong
      else .continue? (g.addSwitch s value) (readArguments switches rest)

/-- The request of a command whose arguments have been read. -/
def requestOf (topic : Topic) (request : String → Given → Request) : Reading → Option Request
  | .wrong => none
  | .help => some (.help topic)
  | .given g => g.operand.map fun operand => request operand g

/-- The help that is asked for by the names of commands. -/
def helpRequest : List String → Option Request
  | [] => some (.help .program)
  | ["tokens"] => some (.help .tokens)
  | ["parse"] => some (.help .parse)
  | ["run"] => some (.help .run)
  | ["help"] => some (.help .help)
  | _ => none

/-- The request made by the switches of the program itself. -/
def programRequest (arg : String) : Option Request :=
  if arg == "--help" || arg.startsWith "-h" then some (.help .program)
  else if arg == "--version" || arg.startsWith "-V" then some .version
  else none

/-- The request made by all arguments; none if they are not in order. -/
def Request.ofArguments? : List String → Option Request
  | [] => none
  | "tokens" :: args =>
    requestOf .tokens (fun expression _ => .tokens expression) (readArguments [] args {})
  | "parse" :: args =>
    requestOf .parse (fun expression g => .parse expression (g.has jsonSwitch))
      (readArguments [jsonSwitch] args {})
  | "run" :: args =>
    requestOf .run (fun scenario g => .run scenario (g.value? optionsSwitch) (g.has jsonSwitch))
      (readArguments [jsonSwitch, optionsSwitch] args {})
  | "help" :: topics => helpRequest topics
  | arg :: _ => programRequest arg

end Hydration.CommandLine
