import FederatedQuery.External.Basic

/-!
# Exchanges with backends

An exchange is a conversation of which only one side is fixed: it asks a request, goes on
in a way that depends on the reply, and in the end has a result or fails. From time to
time it may look whether it has been cancelled. What the backend replies is left open; an
exchange becomes a computation once it is run against a backend.

A reply is a sequence of chunks that may be broken off by an error. How the items of a
reply are spread over chunks means nothing.

## Main definitions

* `Reply`, `Reply.items`: the reply to a request, and what it says.
* `Exchange`: the conversations, which form a monad.
* `Exchange.run`: an exchange with a backend that replies at once.
-/

namespace FederatedQuery

/-- The chunks of a reply. An error ends it: what comes later is not read. -/
abbrev Reply := List (Except String Json)

/-- The items of a reply. A chunk that is an array holds several of them. -/
def Reply.items : Reply → Except String (List Json)
  | [] => .ok []
  | .error message :: _ => .error message
  | .ok (.array items) :: rest => (Reply.items rest).map (items ++ ·)
  | .ok item :: rest => (Reply.items rest).map (item :: ·)

/-- A conversation with backends that ends with a result of type `α` or an error of type
`ε`. -/
inductive Exchange (ε α : Type) where
  | done (result : α)
  | fail (error : ε)
  /-- Asks a request and goes on with the reply. -/
  | ask (request : Request) (next : Reply → Exchange ε α)
  /-- Looks whether the conversation has been cancelled. -/
  | look (next : Bool → Exchange ε α)

namespace Exchange

variable {ε α β : Type}

/-- An exchange, and then another one that depends on its result. -/
def bind : Exchange ε α → (α → Exchange ε β) → Exchange ε β
  | .done result, next => next result
  | .fail error, _ => .fail error
  | .ask request rest, next => .ask request fun reply => (rest reply).bind next
  | .look rest, next => .look fun cancelled => (rest cancelled).bind next

instance : Monad (Exchange ε) where
  pure := .done
  bind := bind

/-- Going on with nothing more changes nothing. -/
theorem bind_done (x : Exchange ε α) : x.bind .done = x := by
  induction x with
  | done => rfl
  | fail => rfl
  | ask request next ih => exact congrArg (Exchange.ask request) (funext ih)
  | look next ih => exact congrArg Exchange.look (funext ih)

/-- It does not matter how exchanges in a row are grouped. -/
theorem bind_assoc {γ : Type} (x : Exchange ε α) (f : α → Exchange ε β)
    (g : β → Exchange ε γ) : (x.bind f).bind g = x.bind fun result => (f result).bind g := by
  induction x with
  | done => rfl
  | fail => rfl
  | ask request next ih => exact congrArg (Exchange.ask request) (funext ih)
  | look next ih => exact congrArg Exchange.look (funext ih)

instance : LawfulMonad (Exchange ε) :=
  LawfulMonad.mk' (Exchange ε) bind_done (fun _ _ => rfl) bind_assoc

/-- The exchange that has a known outcome. -/
def ofExcept : Except ε α → Exchange ε α
  | .ok result => .done result
  | .error error => .fail error

/-- The items of the reply to a request, or its error. -/
def items (request : Request) : Exchange ε (Except String (List Json)) :=
  .ask request fun reply => .done reply.items

/-- The outcome of an exchange, not cancelled, with a backend that replies at once and has
states of type `σ`. -/
def run {σ : Type} (answer : σ → Request → Reply × σ) : Exchange ε α → σ → Except ε α × σ
  | .done result, s => (.ok result, s)
  | .fail error, s => (.error error, s)
  | .ask request next, s =>
    let (reply, s) := answer s request
    run answer (next reply) s
  | .look next, s => run answer (next false) s

/-- Running two exchanges in a row is running them one after the other. -/
theorem run_bind {σ : Type} (answer : σ → Request → Reply × σ) (x : Exchange ε α)
    (f : α → Exchange ε β) (s : σ) :
    (x.bind f).run answer s =
      match x.run answer s with
      | (.ok result, s) => (f result).run answer s
      | (.error error, s) => (.error error, s) := by
  induction x generalizing s with
  | done => rfl
  | fail => rfl
  | ask request next ih => exact ih (answer s request).1 (answer s request).2
  | look next ih => exact ih false s

end Exchange

end FederatedQuery
