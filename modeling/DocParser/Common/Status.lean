/-!
# Statuses and diagnostics

A stage succeeds with a value, or fails with a status. A diagnostic is a warning of a stage.
-/

namespace DocParser

structure Status where
  code : String
  message : String
  stage : String
  retryable : Bool
  deriving DecidableEq, Repr

/-- `Status::error` without the arguments that have defaults. -/
def Status.error (code message : String) : Status := ⟨code, message, "", false⟩

structure Diagnostic where
  code : String
  message : String
  stage : String
  pageNumber : Int
  details : List (String × String)
  deriving DecidableEq, Repr

end DocParser
