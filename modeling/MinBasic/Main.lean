import MinBasic.Command.Execute

/-!
# The command line

The outer layer of the program: it gathers the call, the standard input and the
source from the system, lets `Command.execute` decide, and writes what that
leaves.
-/

namespace MinBasic.Main

open Channel Command Text

/-- The refusal behind an error of the system. -/
def refusalOf : IO.Error → Refusal
  | .alreadyExists _ code _ => .system code.toNat
  | .otherError code _ => .system code.toNat
  | .resourceBusy code _ => .system code.toNat
  | .resourceVanished code _ => .system code.toNat
  | .unsupportedOperation code _ => .system code.toNat
  | .hardwareFault code _ => .system code.toNat
  | .unsatisfiedConstraints code _ => .system code.toNat
  | .illegalOperation code _ => .system code.toNat
  | .protocolError code _ => .system code.toNat
  | .timeExpired code _ => .system code.toNat
  | .interrupted _ code _ => .system code.toNat
  | .noFileOrDirectory _ code _ => .system code.toNat
  | .invalidArgument _ code _ => .system code.toNat
  | .permissionDenied _ code _ => .system code.toNat
  | .resourceExhausted _ code _ => .system code.toNat
  | .inappropriateType _ code _ => .system code.toNat
  | .noSuchThing _ code _ => .system code.toNat
  | .unexpectedEof => .custom .other "unexpected end of file"
  | .userError wording => .custom .other wording

/-- Read an input until it ends or is refused. -/
partial def readInput (read : USize → IO ByteArray) (soFar : ByteArray) : IO Input := do
  match ← (read 65536).toBaseIO with
  | .error error => return { content := soFar.data.toList, refusal? := some (refusalOf error) }
  | .ok chunk =>
      if chunk.isEmpty then
        return { content := soFar.data.toList }
      else
        readInput read (soFar ++ chunk)

/-- Open and read the source under a path. -/
def readSource (path : String) : IO (Except Refusal Input) := do
  match ← (IO.FS.Handle.mk path .read).toBaseIO with
  | .error error => return .error (refusalOf error)
  | .ok handle => return .ok (← readInput handle.read .empty)

/-- The arguments as the system holds them, the name of the program first; where
it does not show them, the arguments as text under the default name. -/
def argumentBytes (arguments : List String) : BaseIO (List Bytes) := do
  match ← (IO.FS.readBinFile "/proc/self/cmdline").toBaseIO with
  | .ok held => return (held.data.toList.splitOn Ascii.nul).dropLast
  | .error _ => return (defaultProgram :: arguments).map Utf8.encode

/-- The call of the program. -/
def readCall (arguments : List String) : BaseIO Call := do
  return {
    arguments := ← argumentBytes arguments
    target? := (← IO.getEnv Settings.targetVariable).map Utf8.encode
    fileClause? := (← IO.getEnv Settings.fileClauseVariable).map Utf8.encode }

/-- The streams and the source that a call needs; the standard input is read
only when there is no source. -/
def readHost (call : Call) : IO Host := do
  match Invocation.ofArguments call.texts with
  | .error _ => return { stdin := { content := [] }, openSource := fun _ => .error .missing }
  | .ok { source? := none, .. } =>
      let stdin ← readInput (← IO.getStdin).read .empty
      return { stdin, openSource := fun _ => .error .missing }
  | .ok { source? := some path, .. } =>
      let source ← readSource path
      return { stdin := { content := [] }, openSource := fun _ => source }

/-- Write bytes to a stream at once. -/
def emit (stream : IO.FS.Stream) (bytes : Bytes) : IO Unit := do
  stream.write (ByteArray.mk bytes.toArray)
  stream.flush

end MinBasic.Main

open MinBasic MinBasic.Main in
/-- Run the program.  When standard output is refused the run ends like one whose
first report is. -/
def main (arguments : List String) : IO UInt32 := do
  let call ← readCall arguments
  let host ← readHost call
  let done := Command.execute host call
  let left ←
    match ← (emit (← IO.getStdout) done.stdout).toBaseIO with
    | .ok _ => pure done
    | .error error =>
        pure (Command.execute { host with stdout := .limited 0 (refusalOf error) } call)
  emit (← IO.getStderr) left.stderr
  return left.status.toNat.toUInt32
