import FederatedQuery.External.Basic

/-!
# A small datasource

The examples of the theory speak of a datasource of edits, of which the time, the page, the
language and a number of added characters are known.

## Main definitions

* `Sample.edits`: the datasource.
* `Sample.second`: instants shortly after the start of 1970.
-/

namespace FederatedQuery.Sample

/-- All instants shortly after the start of 1970 have a year. -/
theorem second_mem (n : Fin 1000) : -8334601228800 ≤ (n : Int) ∧ (n : Int) ≤ 8210266876799 := by
  omega

/-- The instant so many seconds after the start of 1970. -/
def second (n : Fin 1000) : Instant :=
  ⟨n, 0, Nat.succ_pos _, (second_mem n).1, (second_mem n).2⟩

/-- The range between two seconds. -/
def seconds (a b : Fin 1000) : TimeRange := ⟨second a, second b⟩

/-- The datasource of edits; all of its rows may be asked for. -/
def edits : External :=
  { backend := "wiki"
    engine := .druid
    source := "edits"
    attributes := some
      [.plain "time" .time "__time", .plain "page" .string "STRING",
        .plain "language" .string "STRING", .plain "added" .number "LONG"]
    strategy := .segmentMetadataFallback
    timeAttribute := "time"
    context := none
    overrides := []
    allowEternity := true
    allowSelect := true
    version := none }

end FederatedQuery.Sample
