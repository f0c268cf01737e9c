import FederatedQuery.Simulation.World

/-!
# Worlds with given replies

In a world that answers in a given way, the reply to a request depends on nothing but the
request; when it comes is left open. Worlds with steady backends, which requests leave as they
are, answer in such a way.

## Main definitions

* `Backend.IsSteady`: steady backends.
* `World.AnswersWith`: the worlds that answer in a given way.
* `World.IsSteady`: the worlds with steady backends.
* `Backend.Replies`: backends whose scripts have such replies only.

## Main results

* `Backend.isSteady_of_rules`: backends that answer by rules.
* `World.IsSteady.answersWith`: the replies of steady backends.
* `World.replies_of_backends`: the replies of scripts.
-/

namespace FederatedQuery.Simulation

variable {answer : Request → Reply}

/-! ### Steady backends -/

/-- Requests leave a backend as it is. -/
def Backend.IsSteady (b : Backend) : Prop := ∀ query, (b.answer query).2 = b

/-- The use of rules for any number of times changes none of them. -/
theorem eq_of_useRule?_eq_some {query : Json} {rules left : List Rule} {response : Response}
    (h : useRule? query rules = some (response, left)) (huses : ∀ rule ∈ rules, rule.uses = none) :
    left = rules := by
  induction rules generalizing response left with
  | nil => exact nomatch h
  | cons rule rest ih =>
    obtain ⟨hrule, hrest⟩ := List.forall_mem_cons.1 huses
    rw [useRule?] at h
    split at h
    · obtain ⟨-, rfl⟩ := Prod.mk.inj (Option.some.inj h)
      rw [hrule, Option.map_none, ← hrule]
    · obtain ⟨⟨found, left'⟩, hfound, heq⟩ := Option.map_eq_some_iff.1 h
      obtain ⟨-, rfl⟩ := Prod.mk.inj heq
      rw [ih hfound hrest]

/-- A backend with rules for any number of times, and no replies to be used up, is steady. -/
theorem Backend.isSteady_of_rules {b : Backend} (huses : ∀ rule ∈ b.rules, rule.uses = none)
    (hresponses : b.responses = []) : b.IsSteady := by
  intro query
  rw [answer]
  split
  · next heq => rw [eq_of_useRule?_eq_some heq huses]
  · rw [hresponses]
    cases b.table <;> rfl

/-! ### Scripts -/

/-- The replies in the script of a backend without a table are allowed. -/
structure Backend.Replies (ok : Reply → Prop) (b : Backend) : Prop where
  rules : ∀ rule ∈ b.rules, ok rule.response.reply
  responses : ∀ response ∈ b.responses, ok response.reply
  table : b.table = none

theorem replies_of_useRule? {ok : Reply → Prop} {query : Json} {rules left : List Rule}
    {response : Response} (h : useRule? query rules = some (response, left))
    (hrules : ∀ rule ∈ rules, ok rule.response.reply) :
    ok response.reply ∧ ∀ rule ∈ left, ok rule.response.reply := by
  induction rules generalizing response left with
  | nil => exact nomatch h
  | cons rule rest ih =>
    obtain ⟨hrule, hrest⟩ := List.forall_mem_cons.1 hrules
    rw [useRule?] at h
    split at h
    · obtain ⟨rfl, rfl⟩ := Prod.mk.inj (Option.some.inj h)
      exact ⟨hrule, List.forall_mem_cons.2 ⟨hrule, hrest⟩⟩
    · obtain ⟨⟨found, left'⟩, hfound, heq⟩ := Option.map_eq_some_iff.1 h
      obtain ⟨rfl, rfl⟩ := Prod.mk.inj heq
      obtain ⟨hreply, hleft⟩ := ih hfound hrest
      exact ⟨hreply, List.forall_mem_cons.2 ⟨hrule, hleft⟩⟩

/-- An answer is a reply of the script, of which the rest is left. -/
theorem Backend.Replies.of_answer {ok : Reply → Prop} {b : Backend} (h : b.Replies ok)
    (hunexpected : ok [.error "unexpected query"]) (query : Json) :
    ok (b.answer query).1.reply ∧ (b.answer query).2.Replies ok := by
  obtain ⟨rules, responses, table⟩ := b
  obtain ⟨hrules, hresponses, rfl⟩ := h
  rw [Backend.answer]
  split
  · next heq =>
    obtain ⟨hreply, hleft⟩ := replies_of_useRule? heq hrules
    exact ⟨hreply, hleft, hresponses, rfl⟩
  · cases responses with
    | nil => exact ⟨hunexpected, hrules, hresponses, rfl⟩
    | cons response rest =>
      obtain ⟨hreply, hrest⟩ := List.forall_mem_cons.1 hresponses
      exact ⟨hreply, hrules, hrest, rfl⟩

namespace World

/-- The world after some requests. -/
def after (w : World) (requests : List Request) : World :=
  requests.foldl (fun w request => (w.ask 0 request).2) w

/-- All requests, whenever they are made, are answered in the given way. The replies may
come at any time. -/
def AnswersWith (w : World) (answer : Request → Reply) : Prop :=
  ∀ requests request, ((w.after requests).ask 0 request).1.reply = answer request

theorem AnswersWith.reply_ask {w : World} (h : w.AnswersWith answer) (now : Nat)
    (request : Request) : (w.ask now request).1.reply = answer request :=
  h [] request

theorem AnswersWith.ask {w : World} (h : w.AnswersWith answer) (now : Nat) (request : Request) :
    (w.ask now request).2.AnswersWith answer :=
  fun requests => h (request :: requests)

/-- The backend of the given name; where there is none, no request is answered. -/
def backend (w : World) (name : String) : Backend := (w.backends.lookup name).getD .silent

theorem lookup_putBackend (backends : List (String × Backend)) (name : String)
    (backend : Backend) (other : String) :
    (putBackend backends name backend).lookup other =
      if other = name then some backend else backends.lookup other := by
  induction backends with
  | nil =>
    by_cases hother : other = name
    · simp [putBackend, hother]
    · simp [putBackend, List.lookup_cons, beq_false_of_ne hother, hother]
  | cons entry backends ih =>
    obtain ⟨n, b⟩ := entry
    rw [putBackend]
    split
    · next heq =>
      by_cases hother : other = name
      · simp [heq, hother]
      · simp [heq, List.lookup_cons, beq_false_of_ne hother, hother]
    · next hne =>
      rw [List.lookup_cons, List.lookup_cons, ih]
      by_cases hother : other = n
      · simp [hother, hne]
      · simp [beq_false_of_ne hother]

theorem of_mem_putBackend {backends : List (String × Backend)} {name : String}
    {backend : Backend} {entry : String × Backend} (h : entry ∈ putBackend backends name backend) :
    entry ∈ backends ∨ entry.2 = backend := by
  induction backends with
  | nil => exact .inr (congrArg Prod.snd (List.mem_singleton.1 h))
  | cons first backends ih =>
    rw [putBackend] at h
    split at h
    · obtain rfl | h := List.mem_cons.1 h
      · exact .inr rfl
      · exact .inl (List.mem_cons_of_mem _ h)
    · obtain rfl | h := List.mem_cons.1 h
      · exact .inl List.mem_cons_self
      · exact (ih h).imp_left (List.mem_cons_of_mem _)

/-- All replies in a world, whatever has been asked before, are those of the scripts. -/
theorem replies_of_backends {ok : Reply → Prop} (hunexpected : ok [.error "unexpected query"])
    {w : World} (h : ∀ entry ∈ w.backends, entry.2.Replies ok) (requests : List Request)
    (request : Request) : ok ((w.after requests).ask 0 request).1.reply := by
  have hbackend {w : World} (h : ∀ entry ∈ w.backends, entry.2.Replies ok) (name : String) :
      (w.backend name).Replies ok := by
    rw [backend]
    cases hlookup : w.backends.lookup name with
    | none => exact ⟨nofun, nofun, rfl⟩
    | some b =>
      obtain ⟨front, back, hbackends, -⟩ := List.lookup_eq_some_iff.1 hlookup
      refine h (name, b) ?_
      rw [hbackends]
      exact List.mem_append_right _ List.mem_cons_self
  induction requests generalizing w with
  | nil => exact ((hbackend h request.backend).of_answer hunexpected request.query).1
  | cons first requests ih =>
    refine ih fun entry hentry => ?_
    obtain hold | hnew := of_mem_putBackend hentry
    · exact h entry hold
    · rw [hnew]
      exact ((hbackend h first.backend).of_answer hunexpected first.query).2

/-- Requests leave all backends as they are. -/
def IsSteady (w : World) : Prop := ∀ name, (w.backend name).IsSteady

theorem isSteady_of_backends {w : World} (h : ∀ entry ∈ w.backends, entry.2.IsSteady) :
    w.IsSteady := by
  intro name
  rw [backend]
  cases hlookup : w.backends.lookup name with
  | none => exact Backend.isSteady_of_rules nofun rfl
  | some b =>
    obtain ⟨front, back, hbackends, -⟩ := List.lookup_eq_some_iff.1 hlookup
    refine h (name, b) ?_
    rw [hbackends]
    exact List.mem_append_right _ List.mem_cons_self

theorem IsSteady.backend_ask {w : World} (h : w.IsSteady) (now : Nat) (request : Request)
    (name : String) : (w.ask now request).2.backend name = w.backend name := by
  change ((putBackend w.backends request.backend
    ((w.backend request.backend).answer request.query).2).lookup name).getD .silent = _
  rw [h, lookup_putBackend]
  split
  · next heq =>
    rw [heq]
    rfl
  · rfl

/-- In a steady world the reply to a request depends on nothing but the request. -/
theorem IsSteady.answersWith {w : World} (h : w.IsSteady) :
    w.AnswersWith fun request => ((w.backend request.backend).answer request.query).1.reply := by
  intro requests
  induction requests generalizing w with
  | nil => exact fun request => rfl
  | cons first requests ih =>
    have hbackend := h.backend_ask 0 first
    have hsteady : (w.ask 0 first).2.IsSteady := by
      intro name
      rw [hbackend]
      exact h name
    have hanswers := ih hsteady
    simp only [hbackend] at hanswers
    exact hanswers

end World

end FederatedQuery.Simulation
