/-!
# Switches of a command line

A command takes switches, which begin with hyphens, and other arguments. A switch has a
long name behind two hyphens and may have a letter behind one; letters can be written
together. A switch with a value takes it from behind an equals sign, from the rest of a
group of letters, or from the next argument. Two hyphens alone end the switches.

Arguments are read from left to right. A switch with a value waits until the next argument
has been recognised, so an argument that nothing fits is reported before what is wrong
with the switch that waits.
-/

namespace Highlighter.Command

/-- What a switch is for. -/
inductive Use where
  /-- It is given once or not at all. -/
  | flag
  /-- It is given any number of times. -/
  | count
  /-- It has a value, which may be empty or not. -/
  | value (emptyAllowed : Bool)
  /-- It asks for the version in place of everything else. -/
  | version
  /-- It asks for help in place of everything else. -/
  | help
  deriving DecidableEq, Repr

/-- A switch of a command. -/
structure Switch where
  long : String
  short : Option Char
  use : Use
  deriving DecidableEq, Repr

/-- The switch as it is called in messages. -/
def Switch.shown (switch : Switch) : String :=
  "--" ++ switch.long ++
    match switch.use with
    | .value _ => " <" ++ switch.long ++ ">"
    | .count => "..."
    | _ => ""

/-- What a command takes. -/
structure Form where
  switches : List Switch
  /-- How many arguments it takes that are not switches. -/
  places : Nat
  /-- The commands of which one may follow. -/
  commands : List String

/-- What is wrong with a command line. -/
inductive UsageError where
  | unknownCommand (name : String)
  | unexpectedArgument (argument : String)
  | missingArguments
  | missingValue (switch : Switch)
  | repeated (switch : Switch)
  | unexpectedValue (switch : Switch) (value : String)
  deriving DecidableEq, Repr

/-- The first line of what is told about a usage error. -/
def UsageError.message : UsageError → String
  | unknownCommand name => "error: unrecognized subcommand '" ++ name ++ "'"
  | unexpectedArgument argument => "error: unexpected argument '" ++ argument ++ "' found"
  | missingArguments => "error: the following required arguments were not provided:"
  | missingValue switch =>
    "error: a value is required for '" ++ switch.shown ++ "' but none was supplied"
  | repeated switch =>
    "error: the argument '" ++ switch.shown ++ "' cannot be used multiple times"
  | unexpectedValue switch value =>
    "error: unexpected value '" ++ value ++ "' for '" ++ switch.shown ++
      "' found; no more were expected"

/-- Why the reading of a command line ended before its end. -/
inductive Stop where
  | failed (error : UsageError)
  | version
  | help
  deriving DecidableEq, Repr

/-- What has been given to a command, and what is still waiting. -/
structure Given where
  /-- The switches without a value, the last one first. -/
  flags : List Switch := []
  /-- The switches with their values, the last one first. -/
  values : List (Switch × String) := []
  /-- The other arguments, the last one first. -/
  others : List String := []
  /-- A switch that waits, with its value or for its value. -/
  waiting : Option (Switch × Option String) := none
  deriving DecidableEq, Repr

namespace Given

/-- The value of the switch with the given long name. -/
def value? (given : Given) (long : String) : Option String :=
  (given.values.find? fun entry => entry.1.long = long).map Prod.snd

/-- How often the switch with the given long name came. -/
def count (given : Given) (long : String) : Nat :=
  given.flags.countP fun switch => switch.long = long

/-- Note the switch that waits. -/
def settle (given : Given) : Except Stop Given :=
  match given.waiting with
  | none => .ok given
  | some (switch, none) => .error (.failed (.missingValue switch))
  | some (switch, some value) =>
    if given.values.any fun entry => entry.1 = switch then
      .error (.failed (.repeated switch))
    else if value.isEmpty ∧ switch.use = .value false then
      .error (.failed (.missingValue switch))
    else .ok { given with values := (switch, value) :: given.values, waiting := none }

/-- Note a switch without a value. -/
def addFlag (given : Given) (switch : Switch) : Except Stop Given := do
  let given ← given.settle
  match switch.use with
  | .version => throw .version
  | .help => throw .help
  | .flag =>
    if given.flags.contains switch then throw (.failed (.repeated switch))
    else return { given with flags := switch :: given.flags }
  | _ => return { given with flags := switch :: given.flags }

/-- Note a switch with the value that is attached to it. -/
def addValue (given : Given) (switch : Switch) (value : String) : Except Stop Given := do
  let given ← given.settle
  { given with waiting := some (switch, some value) }.settle

/-- Let a switch wait for its value. -/
def await (given : Given) (switch : Switch) : Except Stop Given := do
  let given ← given.settle
  return { given with waiting := some (switch, none) }

end Given

namespace Form

/-- Read a switch by its long name, which may have a value attached. -/
def readLong (form : Form) (given : Given) (text : List Char) : Except Stop Given :=
  let name := String.ofList (text.takeWhile (· ≠ '='))
  let attached := match text.dropWhile (· ≠ '=') with
    | [] => none
    | _ :: value => some (String.ofList value)
  match form.switches.find? fun switch => switch.long = name with
  | none => .error (.failed (.unexpectedArgument ("--" ++ name)))
  | some switch =>
    match switch.use, attached with
    | .value _, some value => given.addValue switch value
    | .value _, none => given.await switch
    | _, some value => .error (.failed (.unexpectedValue switch value))
    | _, none => given.addFlag switch

/-- Read switches by their letters. -/
def readShort (form : Form) (given : Given) : List Char → Except Stop Given
  | [] => .ok given
  | letter :: rest =>
    match form.switches.find? fun switch => switch.short = some letter with
    | none => .error (.failed (.unexpectedArgument (String.ofList ['-', letter])))
    | some switch =>
      match switch.use, rest with
      | .value _, [] => given.await switch
      | .value _, '=' :: value | .value _, value => given.addValue switch (String.ofList value)
      | _, _ => do form.readShort (← given.addFlag switch) rest

/-- Read an argument that is not a switch. `ended` tells that the switches have ended. -/
def readOther (form : Form) (ended : Bool) (given : Given) (argument : String) :
    Except Stop Given :=
  if given.others.length < form.places then do
    let given ← given.settle
    return { given with others := argument :: given.others }
  else if form.commands.isEmpty ∨ (ended ∧ argument ∈ form.commands) then
    .error (.failed (.unexpectedArgument argument))
  else .error (.failed (.unknownCommand argument))

/-- Read arguments up to a command, which is returned with the arguments behind it. -/
def read (form : Form) (given : Given) :
    List String → Except Stop (Given × Option (String × List String))
  | [] => return (← given.settle, none)
  | argument :: rest =>
    match argument.toList with
    | ['-', '-'] => readOthers given rest
    | '-' :: '-' :: name => do form.read (← form.readLong given name) rest
    | '-' :: letter :: group => do form.read (← form.readShort given (letter :: group)) rest
    | _ =>
      match given.waiting with
      | some (switch, none) => form.read { given with waiting := some (switch, some argument) } rest
      | _ =>
        if argument ∈ form.commands then do return (← given.settle, some (argument, rest))
        else do form.read (← form.readOther false given argument) rest
where
  /-- Read arguments behind the end of the switches. -/
  readOthers (given : Given) : List String → Except Stop (Given × Option (String × List String))
    | [] => return (← given.settle, none)
    | argument :: rest => do readOthers (← form.readOther true given argument) rest

end Form

end Highlighter.Command
