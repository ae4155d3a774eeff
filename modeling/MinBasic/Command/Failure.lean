import MinBasic.Channel.Refusal

/-!
# Failures of a run

A run fails when it is called wrongly, when its input cannot be opened, or when
its parser is stopped.  The message of a failure names the program or the path
and gives the reason of the refusal.
-/

namespace MinBasic.Command

open Channel

/-- Why a run ended without the status of its parser. -/
inductive Failure where
  | usage (program : String)
  | notOpened (path : String) (refusal : Refusal)
  | stopped (program : String) (refusal : Refusal)
  deriving DecidableEq, Repr

/-- The message of a failure. -/
def Failure.message : Failure → String
  | usage program => "usage: " ++ program ++ " [source]"
  | notOpened path refusal => path ++ ": " ++ refusal.reason
  | stopped program refusal => program ++ ": " ++ refusal.reason

end MinBasic.Command
