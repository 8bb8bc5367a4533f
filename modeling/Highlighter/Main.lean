import Highlighter.Command.Run

/-!
# The program

Reads what a command line names, runs the command, and puts out what it leaves behind.
-/

namespace Highlighter.Main

/-- The read failure that an error of the file system stands for. -/
def failureOf : IO.Error → ReadFailure
  | .noFileOrDirectory .. => .notFound
  | .inappropriateType _ code _ => if code = 21 then .isDirectory else .notDirectory
  | .invalidArgument .. => .invalidName
  | _ => .notFound

/-- The text of bytes. -/
def textOf (bytes : ByteArray) : Except ReadFailure String :=
  match String.fromUTF8? bytes with
  | some text => .ok text
  | none => .error .invalidText

/-- Read a file. -/
def readFile (filename : String) : IO (Except ReadFailure String) := do
  try
    return textOf (← IO.FS.readBinFile filename)
  catch error => return .error (failureOf error)

/-- The names that a command line may read from. -/
def named (arguments : List String) : List String :=
  match Command.Invocation.read arguments with
  | .ok ⟨_, .highlight options⟩ => options.filename :: options.grammarFile.toList
  | _ => []

/-- Read what a command line names. -/
def inputsFor (arguments : List String) : IO Inputs := do
  let names := named arguments
  let mut files := []
  for name in names do
    if name ≠ Inputs.standardName then files := (name, ← readFile name) :: files
  let standard ←
    if names.contains Inputs.standardName then
      do pure (textOf (← (← IO.getStdin).readBinToEnd))
    else pure (.ok "")
  return ⟨fun name => (files.lookup name).getD (.error .notFound), standard⟩

end Highlighter.Main

def main (arguments : List String) : IO UInt32 := do
  let outcome := Highlighter.Command.run (← Highlighter.Main.inputsFor arguments) arguments
  (← IO.getStdout).putStr outcome.output
  (← IO.getStderr).putStr outcome.errors
  return outcome.code.toUInt32
