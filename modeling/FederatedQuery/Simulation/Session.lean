import FederatedQuery.Simulation.Computation

/-!
# Sessions

A session has a number of datasources with scripted backends and does one thing after the
other with them. What a datasource has learned in one step counts in later steps only if
it is kept.

## Main definitions

* `Session`: the state between steps.
* `Session.introspect`, `Session.share`, `Session.compute`: the steps.
-/

namespace FederatedQuery.Simulation

/-- The state of a session. -/
structure Session where
  context : Context
  world : World

namespace Session

/-- A session in which nothing has been done yet. -/
def start (externals : List (External × Backend)) : Session :=
  { context := externals.foldl (fun context (x, _) => Context.put context x.backend x) []
    world :=
      { backends := externals.foldl (fun backends (x, backend) =>
          World.putBackend backends x.backend backend) []
        requests := []
        cancelled := [] } }

/-- The session with no requests on record. -/
def forget (s : Session) : Session := { s with world := { s.world with requests := [] } }

/-- Hands a request of a single exchange to its backend and takes the reply, whenever it
comes. -/
def reply (w : World) (request : Request) : Reply × World :=
  let (arrival, w) := w.ask 0 request
  (arrival.reply, w)

/-- Introspects a datasource, and keeps what has been learned if that is asked for. -/
def introspect (s : Session) (name : String) (x : External) (keep : Bool) :
    Except ExternalError External × Session :=
  match x.introspect.run reply s.world with
  | (.ok known, w) =>
    (.ok known, ⟨if keep then Context.put s.context name known else s.context, w⟩)
  | (.error error, w) => (.error error, { s with world := w })

/-- Makes a datasource available under another name as well. -/
def share (s : Session) (x : External) (name : String) : Session :=
  { s with context := Context.put s.context name x }

/-- Computes an expression. -/
def compute (s : Session) (e : Expression) (config : Config) (token : Option String)
    (cancelAt : Option Nat) : Except ExecutionError Value × Session :=
  let (outcome, w) := s.world.compute ⟨e, s.context, config, token, cancelAt⟩
  (outcome, { s with world := w })

/-- Cancels a token. -/
def cancel (s : Session) (token : String) : Session := { s with world := s.world.cancel token }

/-- Whether a token has been cancelled. -/
def isCancelled (s : Session) (token : String) : Bool := s.world.isCancelled (some token)

end Session

end FederatedQuery.Simulation
