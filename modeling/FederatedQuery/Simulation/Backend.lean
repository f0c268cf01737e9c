import FederatedQuery.Exchange

/-!
# Scripted backends

A scripted backend answers requests from a script, so that computations can be carried out
without a network. Rules come first: each answers the queries that fit its pattern, some
of them only so many times. Then there are replies to be used up one after the other, and
last a table of rows that is read page by page. What the script does not cover is an
error.

## Main definitions

* `Response`: a reply, when it comes, and what else it does.
* `Backend`: the scripts.
* `Backend.answer`: the response to a query.
-/

namespace FederatedQuery.Simulation

/-- When a reply comes. -/
inductive Delay where
  | after (milliseconds : Nat)
  | never
  deriving DecidableEq

/-- What a backend does with a request. -/
structure Response where
  reply : Reply
  delay : Delay
  /-- The token that is cancelled as soon as the request arrives. -/
  cancels : Option String

/-- A response that comes at once. -/
def Response.now (reply : Reply) : Response := ⟨reply, .after 0, none⟩

/-- A response to all queries that fit a pattern. -/
structure Rule where
  pattern : Json
  response : Response
  /-- How many times more the rule is used; `none` for any number of times. -/
  uses : Option Nat

/-- A table of rows that is read page by page. -/
structure Table where
  total : Nat
  /-- Whether the identifiers of a page name the row after it, and not its last row. -/
  fromNext : Bool
  segment : String

/-- A scripted backend. -/
structure Backend where
  rules : List Rule
  responses : List Response
  table : Option Table

/-- A backend without a script. -/
def Backend.silent : Backend := ⟨[], [], none⟩

/-! ### Rules -/

mutual

/-- Whether a document fits a pattern: an object fits if each field of the pattern fits,
where `null` stands for a missing field too; anything else has to be equal. -/
def fits : Json → Json → Bool
  | .object pattern, .object fields => fieldsFit pattern fields
  | pattern, document => pattern == document

/-- Whether each field of a pattern fits. -/
def fieldsFit : List (String × Json) → Json.Fields → Bool
  | [], _ => true
  | (key, pattern) :: rest, fields =>
    (match fields.lookup key with
      | some value => fits pattern value
      | none => pattern.isNull) && fieldsFit rest fields

end

/-- Whether a rule answers a query. -/
def Rule.applies (r : Rule) (query : Json) : Bool := r.uses != some 0 && fits r.pattern query

/-- The response of the first rule that applies, and the rules after its use. -/
def useRule? (query : Json) : List Rule → Option (Response × List Rule)
  | [] => none
  | rule :: rest =>
    if rule.applies query then
      some (rule.response, { rule with uses := rule.uses.map (· - 1) } :: rest)
    else
      (useRule? query rest).map fun (response, rest) => (response, rule :: rest)

/-! ### Tables -/

namespace Table

/-- The row of a table at the given place. -/
def event (t : Table) (i : Nat) : Json :=
  .object [("segmentId", .string t.segment), ("offset", .int i),
    ("event", .object [("timestamp", .string "2015-08-26T00:00:00.000Z"),
      ("page", .string ("p" ++ toString i)), ("added", .int i)])]

/-- The number that is the value of a field, or zero. -/
def number (j : Json) (key : String) : Nat :=
  match j.get? key with
  | some (.int n) => n.toNat
  | _ => 0

/-- The page of a table that a query asks for. -/
def page (t : Table) (query : Json) : Json :=
  let paging := (query.get? "pagingSpec").getD .null
  let start := number ((paging.get? "pagingIdentifiers").getD .null) t.segment
  let stop := min (start + number paging "threshold") t.total
  let last := if t.fromNext then stop else stop - 1
  .array [.object [("timestamp", .string "2015-08-26T00:00:00.000Z"),
    ("result", .object [("pagingIdentifiers", .object [(t.segment, .int last)]),
      ("events", .array ((List.range' start (stop - start)).map t.event))])]]

end Table

/-! ### Responses -/

/-- The response to a query, and the backend after it. -/
def Backend.answer (b : Backend) (query : Json) : Response × Backend :=
  match useRule? query b.rules with
  | some (response, rules) => (response, { b with rules := rules })
  | none =>
    match b.responses with
    | response :: rest => (response, { b with responses := rest })
    | [] =>
      match b.table with
      | some table => (.now [.ok (table.page query)], b)
      | none => (.now [.error "unexpected query"], b)

end FederatedQuery.Simulation
