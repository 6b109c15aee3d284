import TimedAutomata.CommandLine.Run

/-!
# The command

The command line on the files of the system.
-/

namespace TimedAutomata
namespace CommandLine

/-- The cause of a failed operation of the system. -/
def FileError.ofSystem : IO.Error → FileError
  | .noFileOrDirectory .. => .notFound
  | .permissionDenied .. => .denied
  | .inappropriateType _ code _ => if code = 21 then .isDirectory else .notDirectory
  | .invalidArgument _ 36 _ => .nameTooLong
  | .userError _ => .notText
  | e => .other (toString e)

/-- The files of the system. -/
def systemFiles : Files IO where
  read path := do
    try
      return .ok (← IO.FS.readFile path)
    catch e =>
      return .error (.ofSystem e)
  write path content := do
    try
      IO.FS.writeFile path content
      return .ok ()
    catch e =>
      return .error (.ofSystem e)

end CommandLine
end TimedAutomata

def main (args : List String) : IO UInt32 := do
  let outcome ← TimedAutomata.CommandLine.run TimedAutomata.CommandLine.systemFiles args
  (← IO.getStderr).putStr outcome.stderr
  (← IO.getStdout).putStr outcome.stdout
  return outcome.code.toUInt32
