import FederatedQuery.Execution.Plan
import FederatedQuery.Expression.Validate
import FederatedQuery.External.Introspection

/-!
# Computations

An expression is computed in two stages. First the datasources that it names are
introspected, side by side, as far as their columns are not known yet. Then the expression
is planned over the datasources as they are known now, and the plan is carried out.

## Main definitions

* `Context.introspect`: the task of the first stage.
* `Context.update`: the datasources after it.
* `Expression.start`: the check before both stages.
-/

namespace FederatedQuery

/-- The names that occur in an expression. -/
def Expression.names (e : Expression) : List String :=
  e.nodes.filterMap fun node =>
    match node with
    | .ref name => some name
    | _ => none

namespace Context

/-- The datasources whose names occur in an expression and whose columns are not known. -/
def unknown (context : Context) (e : Expression) : Context :=
  context.filter fun (name, x) => e.names.contains name && !x.isIntrospected

/-- The task that introspects the datasources of an expression. -/
def introspect (context : Context) (e : Expression) : Task Context :=
  .together ((context.unknown e).map fun (name, x) =>
      x.introspect.andThen .external fun x => .done [(name, x)])
    fun parts => .done parts.flatten

/-- The datasources with those that are known better now. -/
def update (context known : Context) : Context :=
  context.map fun (name, x) => (name, (known.lookup name).getD x)

end Context

/-- An expression can be computed if it is valid and its computation has not been cancelled
beforehand. -/
def Expression.admit (e : Expression) (cancelled : Bool) : Except ExecutionError Unit :=
  match e.validate with
  | .error fault => .error (.expression (.malformed fault))
  | .ok () => if cancelled then .error .cancelled else .ok ()

/-- The plan of an expression over datasources of which some are known better now. -/
def Expression.planWith (e : Expression) (context known : Context) :
    Except ExecutionError Plan :=
  (Plan.ofExpression (context.update known) e).mapError .compile

end FederatedQuery
