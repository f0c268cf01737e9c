import FederatedQuery.Exchange
import FederatedQuery.Execution.Answer

/-!
# Reading selected rows page by page

Selected rows come in pages. The next page is asked for with the identifiers of the last
one: as they are if they name the next row, and otherwise each advanced by one, since then
they name the last row read. The last offset that fits into a word cannot be advanced, and
the program breaks off. Reading ends with a page that is not full, with the limit,
with identifiers that do not change, and with too many rows. It always ends, since every
page but the last brings at least one more row.

## Main definitions

* `Paging.advance?`: the identifiers of the row after the given one.
* `Compiled.readPages`: the exchange that reads all pages.
-/

namespace FederatedQuery

namespace Paging

/-- The offset after the given one; offsets are words with a sign, and the last one has none after
it. Anything else is no offset, and stays as it is. -/
def nextOffset? : Json → Option Json
  | .int n =>
    if !Word.isSigned n then some (.int n)
    else if Word.isSigned (n + 1) then some (.int (n + 1))
    else none
  | other => some other

/-- The identifiers of the row after the one that the given identifiers name. -/
def advance? (identifiers : Json.Fields) : Option Json.Fields :=
  identifiers.mapM fun (segment, offset) => (nextOffset? offset).map fun next => (segment, next)

/-- The identifiers with which the next page is asked for. -/
def nextIdentifiers? (p : Paging) (returned : Json.Fields) : Option Json.Fields :=
  if p.fromNext then some returned else advance? returned

end Paging

namespace Compiled

/-- Reads pages, from the one that the given identifiers name on, after the given rows. -/
def readPages (c : Compiled) (x : External) (maxRows : Nat) (p : Paging)
    (identifiers : Json.Fields) (rows : List Row) : Exchange ExecutionError (List Row) :=
  .look fun cancelled =>
    if cancelled then .fail .cancelled
    else .ask (x.request (c.query.atPage identifiers).toJson) fun reply =>
      match reply.items with
      | .error message => .fail (.requester message)
      | .ok items =>
        match Page.ofItems p.timeAttribute items with
        | .error error => .fail error
        | .ok page =>
          let all := rows ++ page.rows
          if _fits : maxRows < all.length then .fail (.resultTooLarge maxRows)
          else if p.limit.any (· ≤ all.length) then .done (all.take (p.limit.getD 0))
          else if _full : page.rows.length < p.threshold then .done all
          else
            match p.nextIdentifiers? page.identifiers with
            | none => .fail .overflow
            | some next =>
              if Json.object next == Json.object identifiers then .done all
              else c.readPages x maxRows p next all
termination_by maxRows + 1 - rows.length
decreasing_by
  have := p.threshold_pos
  simp only [all, List.length_append] at _fits ⊢
  omega

end Compiled

end FederatedQuery
