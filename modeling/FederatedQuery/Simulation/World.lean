import FederatedQuery.Simulation.Backend

/-!
# The world of a simulation

All that a computation can have an effect on: the backends with what is left of their
scripts, the requests that they have received, and the tokens that have been cancelled.

## Main definitions

* `World`: the state.
* `Arrival`: a reply and the time at which it comes.
* `World.ask`: a request and its effects.
-/

namespace FederatedQuery.Simulation

/-- What computations work on. -/
structure World where
  backends : List (String × Backend)
  /-- The requests received so far, in order. -/
  requests : List Request
  /-- The tokens that have been cancelled. -/
  cancelled : List String

/-- A reply on its way. -/
structure Arrival where
  reply : Reply
  /-- The time at which the reply comes, if ever. -/
  due : Option Nat
  /-- The number of requests made before this one. -/
  serial : Nat

/-- Whether a reply has come by the given time. -/
def Arrival.isDue (a : Arrival) (now : Nat) : Bool := a.due.any (· ≤ now)

namespace World

/-- Cancels a token, for good. -/
def cancel (w : World) (token : String) : World := { w with cancelled := token :: w.cancelled }

/-- Whether the token of a computation, if it has one, has been cancelled. -/
def isCancelled (w : World) (token : Option String) : Bool :=
  token.any fun token => w.cancelled.contains token

/-- The backends with one that takes the place of the one of its name, or comes last. -/
def putBackend : List (String × Backend) → String → Backend → List (String × Backend)
  | [], name, backend => [(name, backend)]
  | (n, b) :: rest, name, backend =>
    if n = name then (n, backend) :: rest else (n, b) :: putBackend rest name backend

/-- Hands a request to its backend. -/
def ask (w : World) (now : Nat) (request : Request) : Arrival × World :=
  let backend := (w.backends.lookup request.backend).getD .silent
  let (response, backend) := backend.answer request.query
  let due :=
    match response.delay with
    | .after milliseconds => some (now + milliseconds)
    | .never => none
  (⟨response.reply, due, w.requests.length⟩,
    { backends := putBackend w.backends request.backend backend
      requests := w.requests ++ [request]
      cancelled := response.cancels.toList ++ w.cancelled })

end World

end FederatedQuery.Simulation
