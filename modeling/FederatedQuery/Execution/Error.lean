import FederatedQuery.Compile.Error
import FederatedQuery.Expression.Error
import FederatedQuery.External.Error
import FederatedQuery.Json.Printer

/-!
# Why a computation fails

All reasons but one are told to whom asked for the computation. When a number leaves its word,
nobody is told anything: the program breaks off, whatever else is going on in it.

## Main definitions

* `AnswerFault`: the ways in which a native answer breaks its format.
* `ExecutionError`: those, and every other reason.
* `ExecutionError.message?`: the sentence that tells of an error.
-/

namespace FederatedQuery

/-- A native answer of the wrong format, with the part in question. -/
inductive AnswerFault where
  | seriesWithoutResult (entry : Json)
  | seriesWithoutTimestamp (entry : Json)
  | topWithoutResult (entry : Json)
  | topRecord (record : Json)
  | groupWithoutEvent (entry : Json)
  | selectionWithoutResult (entry : Json)
  | selectionEvent (event : Json)

/-- Why a computation fails. -/
inductive ExecutionError where
  | expression (error : ExpressionError)
  | external (error : ExternalError)
  | compile (error : CompileError)
  /-- The backend's own message. -/
  | requester (message : String)
  /-- More rows than may be fetched. -/
  | resultTooLarge (maxRows : Nat)
  | cancelled
  /-- The computation did not end within so many milliseconds. -/
  | timeout (milliseconds : Nat)
  | invalidAnswer (fault : AnswerFault)
  /-- The program has broken off, as the offset after the last one is no word. -/
  | overflow

/-- The sentence about a faulty answer. -/
def AnswerFault.message : AnswerFault → String
  | .seriesWithoutResult entry => "timeseries entry without result: " ++ entry.compress
  | .seriesWithoutTimestamp entry => "timeseries entry without timestamp: " ++ entry.compress
  | .topWithoutResult entry => "topN entry without result list: " ++ entry.compress
  | .topRecord record => "topN record: " ++ record.compress
  | .groupWithoutEvent entry => "groupBy entry without event: " ++ entry.compress
  | .selectionWithoutResult entry => "select entry without result: " ++ entry.compress
  | .selectionEvent event => "select event: " ++ event.compress

/-- The digits of a fraction in thousandths, after a point and without zeros at the end;
nothing for no fraction. -/
def thousandthsText (n : Nat) : String :=
  if n = 0 then ""
  else if n % 100 = 0 then "." ++ toString (n / 100)
  else if n % 10 = 0 then "." ++ (if n < 100 then "0" else "") ++ toString (n / 10)
  else "." ++ (if n < 10 then "00" else if n < 100 then "0" else "") ++ toString n

/-- A length of time in the largest unit of seconds and milliseconds that it fills; no time
at all is written in nanoseconds. -/
def durationText (milliseconds : Nat) : String :=
  if milliseconds = 0 then "0ns"
  else if milliseconds < 1000 then toString milliseconds ++ "ms"
  else toString (milliseconds / 1000) ++ thousandthsText (milliseconds % 1000) ++ "s"

/-- The sentence about an error; `none` for a document of the wrong shape, and when the program has
broken off. -/
def ExecutionError.message? : ExecutionError → Option String
  | .expression error => error.message?
  | .external error => error.message?
  | .compile error => some error.message
  | .requester message => some message
  | .resultTooLarge maxRows =>
    some ("Result exceeds the safety cap of " ++ toString maxRows ++ " rows")
  | .cancelled => some "Query cancelled"
  | .timeout milliseconds => some ("Query timed out after " ++ durationText milliseconds)
  | .invalidAnswer fault => some ("Invalid native response: " ++ fault.message)
  | .overflow => none

end FederatedQuery
