/-
# Entry point

Reads the files that the arguments name, runs the program, and writes what it has to say.
Events are stamped with the time since the machine started.
-/

import RadixRouter.CommandLine.Program

namespace RadixRouter.CommandLine

/-- Whether a text is an HTTP token, which the program takes for a method. -/
def isToken (method : String) : Bool :=
  !method.isEmpty && method.toList.all fun c =>
    c.isAlphanum || "!#$%&'*+-.^_|~".toList.contains c || c = Char.ofNat 96

/-- Reads a file. -/
def readSource (file : String) : IO (String × Except FileTrouble String) := do
  try
    let bytes ← IO.FS.readBinFile file
    match String.fromUTF8? bytes with
    | some source => return (file, .ok source)
    | none => return (file, .error .notText)
  catch error =>
    match error with
    | .permissionDenied .. => return (file, .error .denied)
    | .inappropriateType _ 21 _ => return (file, .error .isDirectory)
    | .inappropriateType .. => return (file, .error .notDirectory)
    | .invalidArgument .. => return (file, .error .nameTooLong)
    | _ => return (file, .error .missing)

end RadixRouter.CommandLine

open RadixRouter.CommandLine in
def main (arguments : List String) : IO UInt32 := do
  let request := parse arguments
  let sources ← (filesOf request).mapM readSource
  let files : Files := fun file => (sources.lookup file).getD (.error .missing)
  let transcript := run isToken files request
  let time := toString (← IO.monoMsNow) ++ "ms"
  (← IO.getStderr).putStr (transcript.errorText (formatOf request) time)
  (← IO.getStdout).putStr transcript.output
  return UInt32.ofNat transcript.exit
