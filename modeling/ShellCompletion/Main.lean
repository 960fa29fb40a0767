import ShellCompletion.Cli.Run
import ShellCompletion.Interface.Help

/-!
# The compiler as a program

The requests of the command line on the files of the machine.
-/

namespace ShellCompletion.Cli

/-- What a failed operation on a file amounts to. -/
def faultOf : IO.Error → FileFault
  | .noFileOrDirectory .. => .missing
  | .alreadyExists .. => .exists
  | .inappropriateType _ 20 _ => .notDirectory
  | .inappropriateType .. => .isDirectory
  | .invalidArgument _ 36 _ => .nameTooLong
  | .resourceExhausted _ 36 _ => .nameTooLong
  | .otherError 21 _ => .isDirectory
  | .otherError 20 _ => .notDirectory
  | .otherError 17 _ => .exists
  | _ => .missing

/-- The path of the directory that a path is in, if it names one. -/
def parentPath? (path : String) : Option String :=
  match (path.toList.reverse.dropWhile (· == '/')).dropWhile (· != '/') with
  | [] => none
  | rest => some (String.ofList rest.reverse)

/-- The operations on the files of the machine. -/
def machineFiles : Files IO where
  read path := do
    try
      let bytes ← IO.FS.readBinFile path
      match String.fromUTF8? bytes with
      | some text => return .ok text
      | none => return .error .notText
    catch error => return .error (faultOf error)
  write path text := do
    try
      (parentPath? path).forM fun parent => IO.FS.createDirAll parent
      IO.FS.writeFile path text
      return .ok ()
    catch error => return .error (faultOf error)
  print := IO.print

/-- Tells why the words of the command line are not accepted, or shows what was asked
for. -/
def answerUsage : UsageFault → IO UInt32
  | .helpAsked => do
    IO.print interface.complete.helpText
    return 0
  | .versionAsked => do
    IO.println (programName ++ " " ++ interface.face.version.getD "")
    return 0
  | _ => do
    IO.eprint interface.complete.helpText
    return 2

/-- Does what the words of the command line ask for. -/
def answerWords (words : List String) : IO UInt32 := do
  match Request.ofWords words with
  | .error fault => answerUsage fault
  | .ok request =>
    let (result, warnings) ← (request.run machineFiles).outcome
    for warning in warnings do
      IO.eprintln s!"WARN {warning.message}"
    match result with
    | .ok () => return 0
    | .error error =>
      IO.eprintln s!"Error: {error.message}"
      return 1

end ShellCompletion.Cli

/-- Runs the compiler. -/
def main (words : List String) : IO UInt32 :=
  ShellCompletion.Cli.answerWords words
