import ClojureLayout.CommandLine.Run

/-!
# The program

Reads files from the file system, prints what a run reports and ends with its code. A breakdown is
told on the error stream and ends with code 1.
-/

namespace ClojureLayout.CommandLine

/-- A failure of the file system as the program knows it. -/
def FileFault.ofError (path : Path) : IO.Error → FileFault
  | .noFileOrDirectory .. => .notFound path
  | .inappropriateType .. => .isDirectory path
  | .invalidArgument .. => .nulInPath
  | .resourceExhausted .. => .nameTooLong path
  | .permissionDenied _ code details => .other code.toNat details path
  | _ => .notDirectory path

/-- Reads files from the file system. -/
def FileReader.system : FileReader IO where
  read path := do
    match ← (IO.FS.readBinFile path.text).toBaseIO with
    | .ok bytes => return .ok bytes.toList
    | .error e => return .error (.ofError path e)

/-- Prints a report and gives the code that the program ends with. -/
def Report.print (r : Report) : IO UInt32 := do
  (← IO.getStdout).putStr r.output
  (← IO.getStderr).putStr r.errors
  match r.ending with
  | .returned code | .quit code => return code.toUInt32
  | .crashed c =>
    (← IO.getStderr).putStrLn c.message
    return 1

end ClojureLayout.CommandLine

open ClojureLayout.CommandLine in
def main (arguments : List String) : IO UInt32 := do
  (← run FileReader.system arguments).print
