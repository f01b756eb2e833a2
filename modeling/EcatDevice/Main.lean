import EcatDevice.CommandLine
import Std.Time

/-! # The program

Connects the command line with the file system and the streams of the machine.
-/

namespace EcatDevice

def faultOf (e : IO.Error) : FileFault :=
  match e with
  | .noFileOrDirectory _ _ _ => .notFound
  | .inappropriateType _ 20 _ => .notDirectory
  | .inappropriateType _ 21 _ => .isDirectory
  | other => .other (toString other)

def guarded {α : Type} (action : IO α) : IO (Except FileFault α) := do
  try
    return .ok (← action)
  catch e =>
    return .error (faultOf e)

def disk : Storage IO where
  read path := guarded (IO.FS.readFile path)
  write path content := guarded <|
    match content with
    | .text text => IO.FS.writeFile path text
    | .bytes bytes => IO.FS.writeBinFile path ⟨bytes.toArray⟩

end EcatDevice

/-- Compiles the file that the arguments name and runs its make directives. -/
def main (args : List String) : IO UInt32 := do
  let today ← Std.Time.PlainDate.now
  let date := today.format "EEEE, dd MMMM uuuu"
  let report ← EcatDevice.CommandLine.execute .plain EcatDevice.disk date args
  IO.print report.stdout
  IO.eprint report.stderr
  return UInt32.ofNat report.exitCode
