import FederatedQuery.Exchange
import FederatedQuery.Execution.Error

/-!
# Tasks

A task asks backends as an exchange does, but parts of it may go on side by side. It says
what is asked and how the results come together; when the replies come is left open.

Parts are joined in one of two ways. Either all of them go on at once, and the first one
that fails makes the task fail. Or a window moves over them: a limited number go on at
once, the next one starts when the oldest is done, and results as well as failures count
in the order of the parts. Parts that need no limit are joined in the first way if they
are few, and otherwise in the second with a window over all of them.

## Main definitions

* `Join`: the ways in which parts are joined, with `Join.ofCount`.
* `Task`: the tasks.
* `Task.bind`: a task, and then another one that depends on its result.
* `Task.together`: parts that all go on at once.
* `Exchange.andThen`: an exchange, and then a task.
-/

namespace FederatedQuery

/-- How parts of a task go on side by side. -/
inductive Join where
  | all
  /-- No more than `width` of them, in order. -/
  | window (width : Nat)
  deriving DecidableEq

/-- How so many parts are joined that all go on at once: the failures of more than thirty
parts count in order. -/
def Join.ofCount (count : Nat) : Join := if count ≤ 30 then .all else .window count

/-- A computation with concurrent parts that ends with a result of type `ρ`. -/
inductive Task (ρ : Type) where
  | done (result : ρ)
  | fail (error : ExecutionError)
  /-- Asks a request and goes on with the reply. -/
  | ask (request : Request) (next : Reply → Task ρ)
  /-- Looks whether the computation has been cancelled. -/
  | look (next : Bool → Task ρ)
  /-- Carries out parts side by side and goes on with their results, in order. -/
  | join (how : Join) (parts : List (Task ρ)) (next : List ρ → Task ρ)

namespace Task

variable {ρ : Type}

/-- A task, and then another one that depends on its result. -/
def bind : Task ρ → (ρ → Task ρ) → Task ρ
  | .done result, next => next result
  | .fail error, _ => .fail error
  | .ask request rest, next => .ask request fun reply => (rest reply).bind next
  | .look rest, next => .look fun cancelled => (rest cancelled).bind next
  | .join how parts rest, next => .join how parts fun results => (rest results).bind next

/-- Carries out parts that all go on at once, and goes on with their results, in order. -/
def together (parts : List (Task ρ)) (next : List ρ → Task ρ) : Task ρ :=
  .join (.ofCount parts.length) parts next

/-- The task that has a known outcome. -/
def ofExcept : Except ExecutionError ρ → Task ρ
  | .ok result => .done result
  | .error error => .fail error

end Task

/-- An exchange, and then a task that depends on its result. -/
def Exchange.andThen {ε α ρ : Type} (x : Exchange ε α) (failure : ε → ExecutionError)
    (next : α → Task ρ) : Task ρ :=
  match x with
  | .done result => next result
  | .fail error => .fail (failure error)
  | .ask request rest => .ask request fun reply => (rest reply).andThen failure next
  | .look rest => .look fun cancelled => (rest cancelled).andThen failure next

end FederatedQuery
