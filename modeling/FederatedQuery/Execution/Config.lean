import FederatedQuery.Compile.Basic
import FederatedQuery.Json.Record

/-!
# Settings of a computation

## Main definitions

* `Config`: the settings.
* `Config.ofJson?`: the form in documents.
-/

namespace FederatedQuery

/-- The settings of a computation; each number is below `2^64`. -/
structure Config where
  /-- How many groups are worked on at once; at least one always is. -/
  maxConcurrentTasks : Nat
  /-- How many rows may be fetched by one query. -/
  maxRows : Nat
  /-- How many milliseconds the computation may take. -/
  timeout : Nat
  /-- How many rows a page holds. -/
  selectThreshold : Nat
  deriving DecidableEq

namespace Config

/-- The usual settings. -/
def standard : Config := ⟨4, 100000, 30000, 50⟩

/-- The sizes that matter to compilation. -/
def limits (c : Config) : Limits := ⟨c.selectThreshold, c.maxRows⟩

/-- How many groups are worked on at once. -/
def width (c : Config) : Nat := max c.maxConcurrentTasks 1

/-- Reads settings; one that is missing is as usual. -/
def ofJson? (j : Json) : Option Config := do
  let r ← j.record? ["maxConcurrentTasks", "maxRows", "timeout", "selectThreshold"]
  let number (key : String) (fallback : Nat) : Option Nat :=
    r.withDefault key fallback fun part => part.val.word?.map UInt64.toNat
  let maxConcurrentTasks ← number "maxConcurrentTasks" standard.maxConcurrentTasks
  let maxRows ← number "maxRows" standard.maxRows
  let timeout ← number "timeout" standard.timeout
  let selectThreshold ← number "selectThreshold" standard.selectThreshold
  some ⟨maxConcurrentTasks, maxRows, timeout, selectThreshold⟩

end Config

end FederatedQuery
