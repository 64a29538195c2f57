import YamlStyle.FileTree

/-!
# Failures

When a command cannot do its work, it says what it was about to do, and below that why it could not,
from the nearest cause to the farthest. One cause stands alone, several are numbered.
-/

set_option autoImplicit false

namespace YamlStyle

namespace Cli

/-- What could not be done, and why. -/
structure Failure where
  context : String
  /-- The nearest cause comes first. -/
  causes : List String := []
  deriving DecidableEq, Repr

namespace Failure

/-- A failure of the file system. -/
def ofIoError (context : String) (e : IoError) : Failure := ⟨context, [e.message]⟩

/-- A text with some spaces at the head of every line but the first. -/
def indent (margin : String) (text : String) : String :=
  String.ofList (text.toList.flatMap fun c => if c == '\n' then '\n' :: margin.toList else [c])

/-- Causes with their numbers, of which the first is given. -/
def numbered (first : Nat) : List String → List String
  | [] => []
  | cause :: rest =>
    (s!"\n    {first}: " ++ indent "       " cause) :: numbered (first + 1) rest

/-- The causes, below what could not be done. -/
def causeLines : List String → List String
  | [cause] => ["\n    " ++ indent "    " cause]
  | causes => numbered 0 causes

/-- The report of a failure. -/
def report (failure : Failure) : String :=
  "Error: " ++ failure.context
    ++ (if failure.causes.isEmpty then ""
      else "\n\nCaused by:" ++ String.join (causeLines failure.causes))

end Failure

end Cli

end YamlStyle
