import MinBasic.Channel.SystemError

/-!
# Refusals

Why an input cannot be opened or read, or an output cannot be written.  Most
refusals come from the operating system as a number, which has a wording.  The
others carry their own kind and wording.
-/

namespace MinBasic.Channel

/-- The kinds of refusals that do not come from the operating system. -/
inductive RefusalKind where
  | brokenPipe
  | invalidInput
  | other
  deriving DecidableEq, Repr

/-- Why an operation on a stream or a file was refused. -/
inductive Refusal where
  | system (code : Int)
  | custom (kind : RefusalKind) (wording : String)
  deriving DecidableEq, Repr

namespace Refusal

/-- The reason alone, as a failure quotes it. -/
def reason : Refusal → String
  | system code => SystemError.wording code
  | custom _ wording => wording

/-- The full text, which names the number of a refusal by the operating
system. -/
def text : Refusal → String
  | system code => SystemError.wording code ++ " (os error " ++ toString code ++ ")"
  | custom _ wording => wording

/-- Nothing exists under a name. -/
def missing : Refusal :=
  system 2

/-- A name leads through something that is no folder. -/
def notFolder : Refusal :=
  system 20

/-- A folder was read as a file. -/
def isFolder : Refusal :=
  system 21

/-- The device behind a stream is full. -/
def deviceFull : Refusal :=
  system 28

/-- A name, or a part of it, is longer than the system allows. -/
def nameTooLong : Refusal :=
  system 36

/-- A name holds a NUL, which no file name can. -/
def nulInName : Refusal :=
  custom .invalidInput "file name contained an unexpected NUL byte"

/-- The reader of a stream takes no more. -/
def streamClosed : Refusal :=
  custom .brokenPipe "stream closed"

/-- An input broke off. -/
def readFailed : Refusal :=
  custom .other "read failed"

end Refusal

end MinBasic.Channel
