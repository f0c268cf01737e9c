import FederatedQuery.External.Introspection
import FederatedQuery.Proofs.Sample
import FederatedQuery.Proofs.Success
import Mathlib.Data.List.Chain
import Mathlib.Data.List.Perm.Subperm

/-!
# The descent of introspection

The conversation of an introspection with a backend, whatever the backend replies, is one
request for the version, unless that is known, and then a descent: attempts of falling
capability, each of which but the last has been refused in the words that stand for the step
from it to the next one. No reply that breaks its format takes an attempt further down, and an
introspection that fails has the error that comes of its last request.

## Main definitions

* `Exchange.log`: the requests of an exchange and the replies to them.
* `Attempt.learn`: what an attempt makes of a reply.
* `Attempt.Refuses`: the replies that take one attempt down to another.
* `Strategy.Descends`: the descents that a strategy allows.

## Main results

* `Attempt.refuses_of_stepDown?`: steps down are taken after refusals only.
* `External.learnColumns_log`: the attempts from a given one on.
* `External.introspect_descends`: whole introspections.
-/

namespace FederatedQuery

/-! ### The log of an exchange -/

namespace Exchange

variable {σ ε α β : Type} (answer : σ → Request → Reply × σ)

/-- The requests of an exchange, not cancelled, with a backend that replies at once, and the
replies to them. -/
def log : Exchange ε α → σ → List (Request × Reply)
  | .done _, _ => []
  | .fail _, _ => []
  | .ask request next, s =>
    let (reply, s) := answer s request
    (request, reply) :: log (next reply) s
  | .look next, s => log (next false) s

/-- The log of two exchanges in a row. -/
theorem log_bind (x : Exchange ε α) (f : α → Exchange ε β) (s : σ) :
    (x >>= f).log answer s = x.log answer s ++
      match x.run answer s with
      | (.ok result, s) => (f result).log answer s
      | (.error _, _) => [] := by
  induction x generalizing s with
  | done => rfl
  | fail => rfl
  | ask request next ih => exact congrArg (_ :: ·) (ih (answer s request).1 (answer s request).2)
  | look next ih => exact ih false s

end Exchange

/-! ### Steps down -/

/-- A backend tells of no error in a listing itself. -/
theorem Metadata.error_of_listedNames {timeName key : String} {listing : Json}
    {error : ExternalError} (h : listedNames timeName listing key = .error error) :
    ∃ fault, error = .invalidResponse fault := by
  unfold listedNames at h
  split at h
  · exact ⟨_, (Except.error.inj h).symm⟩
  · exact nomatch h

namespace Attempt

/-- What an attempt makes of the reply to it. -/
def learn (timeName : String) (attempt : Attempt) (reply : Reply) :
    Except ExternalError (List Attribute) :=
  (reply.items.mapError .requester).bind (attempt.columns timeName)

/-- Items that do not tell of columns break their format. -/
theorem error_of_columns {timeName : String} {items : List Json} {attempt : Attempt}
    {error : ExternalError} (h : attempt.columns timeName items = .error error) :
    ∃ fault, error = .invalidResponse fault := by
  cases items with
  | nil => cases attempt <;> exact ⟨_, (Except.error.inj h).symm⟩
  | cons first items =>
    cases attempt with
    | segmentMetadata aggregators =>
      change Metadata.ofSegments timeName first = .error error at h
      unfold Metadata.ofSegments at h
      split at h
      · obtain h | ⟨attributes, -, h⟩ := Except.bind_eq_error.1 h
        · obtain ⟨⟨name, column⟩, -, h⟩ := Except.exists_of_mapM_eq_error h
          simp only [Metadata.ofColumn] at h
          split at h
          · exact ⟨_, (Except.error.inj h).symm⟩
          · split at h <;> cases h
        · cases h
      · exact ⟨_, (Except.error.inj h).symm⟩
    | listing =>
      change Metadata.ofListing timeName first = .error error at h
      unfold Metadata.ofListing at h
      obtain h | ⟨dimensions, -, h⟩ := Except.bind_eq_error.1 h
      · exact Metadata.error_of_listedNames h
      · obtain h | ⟨metrics, -, h⟩ := Except.bind_eq_error.1 h
        · exact Metadata.error_of_listedNames h
        · cases h

/-- The backend's own errors come from replies that are errors. -/
theorem items_of_learn {timeName : String} {attempt : Attempt} {reply : Reply} {message : String}
    (h : attempt.learn timeName reply = .error (.requester message)) :
    reply.items = .error message := by
  unfold learn at h
  cases hitems : reply.items with
  | error other =>
    rw [hitems] at h
    exact congrArg _ (ExternalError.requester.inj (Except.error.inj h))
  | ok items =>
    rw [hitems] at h
    obtain ⟨fault, hfault⟩ := error_of_columns h
    exact nomatch hfault

/-- The replies that take one attempt down to another: errors in which the backend shows that it
does not know the analysis of aggregators, or the metadata of segments. -/
inductive Refuses : Reply → Attempt → Attempt → Prop
  | aggregators {reply : Reply} {message : String} (hreply : reply.items = .error message)
      (hmessage : Refusal.ofAggregators message = true) :
      Refuses reply (.segmentMetadata true) (.segmentMetadata false)
  | segments {reply : Reply} {message : String} (aggregators : Bool)
      (hreply : reply.items = .error message)
      (hmessage : Refusal.ofSegmentMetadata message = true) :
      Refuses reply (.segmentMetadata aggregators) .listing

/-- **Steps down.** After an error the next attempt is made only if the reply refuses the one
before; the listing is the next attempt only for the strategy that falls back to it. -/
theorem refuses_of_stepDown? {strategy : Strategy} {timeName : String} {attempt next : Attempt}
    {reply : Reply} {error : ExternalError} (herror : attempt.learn timeName reply = .error error)
    (h : attempt.stepDown? strategy error = some next) :
    Refuses reply attempt next ∧ (next = .listing → strategy = .segmentMetadataFallback) := by
  unfold stepDown? at h
  split at h
  · next aggregators message =>
    have hreply := items_of_learn herror
    split at h
    · next hrefusal =>
      obtain ⟨rfl, hmessage⟩ := Bool.and_eq_true_iff.1 hrefusal
      obtain rfl := Option.some.inj h
      exact ⟨.aggregators hreply hmessage, nofun⟩
    · split at h
      · next hrefusal =>
        obtain ⟨hmessage, hstrategy⟩ := Bool.and_eq_true_iff.1 hrefusal
        obtain rfl := Option.some.inj h
        exact ⟨.segments aggregators hreply hmessage, fun _ => of_decide_eq_true hstrategy⟩
      · exact nomatch h
  · exact nomatch h

/-- A refusal leads to an attempt of less capability. -/
theorem Refuses.capability_lt {reply : Reply} {attempt next : Attempt}
    (h : Refuses reply attempt next) : next.capability < attempt.capability := by
  cases h with
  | aggregators => decide
  | segments aggregators => cases aggregators <;> decide

end Attempt

/-! ### Descents -/

/-- The descents from an attempt that a strategy allows: attempts, each with the reply to it, of
which the given one is the first. -/
structure Strategy.DescendsFrom (strategy : Strategy) (attempt : Attempt)
    (turns : List (Attempt × Reply)) : Prop where
  head : turns.head?.map Prod.fst = some attempt
  refused : turns.IsChain fun a b => Attempt.Refuses a.2 a.1 b.1
  listed : ∀ turn ∈ turns.tail, turn.1 = .listing → strategy = .segmentMetadataFallback

namespace Strategy.DescendsFrom

variable {strategy : Strategy} {attempt next : Attempt} {reply : Reply}
  {turns : List (Attempt × Reply)}

/-- A single attempt is a descent. -/
theorem single (strategy : Strategy) (attempt : Attempt) (reply : Reply) :
    strategy.DescendsFrom attempt [(attempt, reply)] :=
  ⟨rfl, .singleton _, fun _ hturn => absurd hturn List.not_mem_nil⟩

/-- An attempt that is refused goes before a descent. -/
theorem cons (hrefuses : Attempt.Refuses reply attempt next)
    (hlisted : next = .listing → strategy = .segmentMetadataFallback)
    (h : strategy.DescendsFrom next turns) :
    strategy.DescendsFrom attempt ((attempt, reply) :: turns) := by
  cases turns with
  | nil => cases h.head
  | cons turn turns =>
    obtain rfl := Option.some.inj h.head
    exact ⟨rfl, .cons_cons hrefuses h.refused, List.forall_mem_cons.2 ⟨hlisted, h.listed⟩⟩

end Strategy.DescendsFrom

namespace External

variable {σ : Type} (answer : σ → Request → Reply × σ)

/-- An attempt and the reply to it as they stand in a log. -/
def entry (x : External) (turn : Attempt × Reply) : Request × Reply :=
  (x.request (turn.1.query x.source), turn.2)

/-- An attempt, and what is done with the reply to it. -/
theorem learnColumns_eq (x : External) (attempt : Attempt) :
    x.learnColumns attempt = .ask (x.request (attempt.query x.source)) fun reply =>
      match attempt.learn x.timeAttribute reply with
      | .ok columns => .done columns
      | .error error =>
        match attempt.stepDown? x.strategy error with
        | some next => x.learnColumns next
        | none => .fail error := by
  rw [learnColumns]
  refine congrArg (Exchange.ask _) (funext fun reply => ?_)
  change (match attempt.learn x.timeAttribute reply with
    | .ok columns => _
    | .error error => _) = _
  cases attempt.learn x.timeAttribute reply with
  | ok columns => rfl
  | error error =>
    simp only
    split
    · next next hnext => simp only [hnext]
    · next hnext => simp only [hnext]

variable {answer} in
/-- After a refusal the attempts go on with the next one. -/
theorem run_learnColumns_of_stepDown? {x : External} {attempt next : Attempt} {s s' : σ}
    {reply : Reply} {error : ExternalError}
    (hanswer : answer s (x.request (attempt.query x.source)) = (reply, s'))
    (hlearn : attempt.learn x.timeAttribute reply = .error error)
    (hnext : attempt.stepDown? x.strategy error = some next) :
    (x.learnColumns attempt).run answer s = (x.learnColumns next).run answer s' := by
  rw [learnColumns_eq]
  simp only [Exchange.run, hanswer, hlearn, hnext]

/-- **The attempts from a given one on.** They are a descent, and what comes of them is what the
last one makes of the reply to it. -/
theorem learnColumns_log (x : External) (attempt : Attempt) (s : σ) :
    ∃ turns, (x.learnColumns attempt).log answer s = turns.map x.entry ∧
      x.strategy.DescendsFrom attempt turns ∧
      ∃ last, turns.getLast? = some last ∧
        ((x.learnColumns attempt).run answer s).1 = last.1.learn x.timeAttribute last.2 := by
  rw [learnColumns_eq]
  simp only [Exchange.log, Exchange.run]
  rcases answer s (x.request (attempt.query x.source)) with ⟨reply, s'⟩
  simp only
  cases hlearn : attempt.learn x.timeAttribute reply with
  | ok columns => exact ⟨[(attempt, reply)], rfl, .single _ _ _, _, rfl, hlearn.symm⟩
  | error error =>
    simp only
    cases hnext : attempt.stepDown? x.strategy error with
    | none => exact ⟨[(attempt, reply)], rfl, .single _ _ _, _, rfl, hlearn.symm⟩
    | some next =>
      obtain ⟨hrefuses, hlisted⟩ := Attempt.refuses_of_stepDown? hlearn hnext
      have := hrefuses.capability_lt
      obtain ⟨turns, hlog, hdescends, last, hlast, hrun⟩ := learnColumns_log x next s'
      refine ⟨(attempt, reply) :: turns, congrArg (_ :: ·) hlog, .cons hrefuses hlisted hdescends,
        last, ?_, hrun⟩
      rw [List.getLast?_cons, hlast]
      rfl
termination_by attempt.capability

/-- A version that is not known takes one request, whose failure is that of the introspection
unless the backend does not know the request. -/
theorem learnVersion_log (x : External) (h : x.version = none) (s : σ) :
    ∃ reply, x.learnVersion.log answer s = [(x.request statusQuery, reply)] ∧
      ∀ error, (x.learnVersion.run answer s).1 = .error error →
        ∃ message, reply.items = .error message ∧ Refusal.ofStatus message = false ∧
          error = .requester message := by
  rw [learnVersion, h]
  refine ⟨(answer s (x.request statusQuery)).1, ?_⟩
  simp only [bind, Exchange.bind, Exchange.items, Exchange.log, Exchange.run]
  rcases answer s (x.request statusQuery) with ⟨reply, s'⟩
  simp only
  cases reply.items with
  | ok items => exact ⟨rfl, nofun⟩
  | error message =>
    simp only
    split
    · exact ⟨rfl, nofun⟩
    · next hrefusal =>
      refine ⟨rfl, fun error herror => ⟨message, rfl, ?_, (Except.error.inj herror).symm⟩⟩
      exact Bool.eq_false_iff.2 hrefusal

end External

/-! ### Whole introspections -/

/-- The descents that a strategy allows. They begin with its first attempt, each attempt but the
last has been refused in favour of the next one, and none is as capable as one before it. -/
structure Strategy.Descends (strategy : Strategy) (turns : List (Attempt × Reply)) : Prop where
  initial : ∀ first ∈ turns.head?, first.1 = Attempt.initial strategy
  falling : (turns.map fun turn => turn.1.capability).Pairwise (· > ·)
  length_le : turns.length ≤ 3
  refused : turns.IsChain fun a b => Attempt.Refuses a.2 a.1 b.1
  not_listing : strategy = .segmentMetadataOnly → ∀ turn ∈ turns, turn.1 ≠ .listing
  listing : strategy = .datasourceGet → ∀ turn ∈ turns, turn.1 = .listing

/-- No attempts are a descent. -/
theorem Strategy.Descends.nil (strategy : Strategy) : strategy.Descends [] :=
  ⟨nofun, .nil, Nat.zero_le 3, .nil, fun _ => nofun, fun _ => nofun⟩

theorem Attempt.capability_lt_three (attempt : Attempt) : attempt.capability < 3 := by
  rcases attempt with (_ | _) | _ <;> decide

/-- A descent from the first attempt of a strategy. -/
theorem Strategy.DescendsFrom.descends {strategy : Strategy} {turns : List (Attempt × Reply)}
    (h : strategy.DescendsFrom (Attempt.initial strategy) turns) : strategy.Descends turns := by
  have hfalling : (turns.map fun turn => turn.1.capability).Pairwise (· > ·) := by
    rw [← List.isChain_iff_pairwise, List.isChain_map]
    exact h.refused.imp fun _ _ hrefuses => hrefuses.capability_lt
  cases turns with
  | nil => exact nomatch h.head
  | cons first rest =>
    have hfirst : first.1 = Attempt.initial strategy := Option.some.inj h.head
    refine ⟨?_, hfalling, ?_, h.refused, ?_, ?_⟩
    · rintro _ ⟨⟩
      exact hfirst
    · have hnodup := hfalling.imp fun {a b} (hlt : a > b) => Nat.ne_of_gt hlt
      have hsubset : ((first :: rest).map fun turn => turn.1.capability) ⊆ List.range 3 := by
        intro n hn
        obtain ⟨turn, -, rfl⟩ := List.mem_map.1 hn
        exact List.mem_range.2 turn.1.capability_lt_three
      simpa using (List.Nodup.subperm hnodup hsubset).length_le
    · rintro rfl turn hturn hlisting
      obtain rfl | hturn := List.mem_cons.1 hturn
      · exact nomatch hfirst.symm.trans hlisting
      · exact nomatch h.listed turn hturn hlisting
    · -- nothing is less capable than the listing
      rintro rfl turn hturn
      obtain rfl | hturn := List.mem_cons.1 hturn
      · exact hfirst
      · have hlt : turn.1.capability < first.1.capability :=
          (List.pairwise_cons.1 hfalling).1 _ (List.mem_map_of_mem hturn)
        rw [hfirst] at hlt
        exact absurd hlt (Nat.not_lt_zero _)

namespace External

variable {σ : Type} (answer : σ → Request → Reply × σ)

/-- The stage of an introspection in which the columns are learned. -/
theorem learnColumns_descends (x : External) (version : Option String) (s : σ) :
    ∃ turns, (x.learnColumns (.initial x.strategy) >>= fun columns =>
          Exchange.done (x.introspected columns version)).log answer s = turns.map x.entry ∧
      x.strategy.Descends turns ∧
      ∀ error, ((x.learnColumns (.initial x.strategy) >>= fun columns =>
          Exchange.done (x.introspected columns version)).run answer s).1 = .error error →
        ∃ last, turns.getLast? = some last ∧
          last.1.learn x.timeAttribute last.2 = .error error := by
  obtain ⟨turns, hlog, hdescends, last, hlast, hrun⟩ :=
    x.learnColumns_log answer (.initial x.strategy) s
  refine ⟨turns, ?_, hdescends.descends, fun error herror => ⟨last, hlast, ?_⟩⟩
  · rw [Exchange.log_bind, hlog]
    split <;> exact List.append_nil _
  · rw [← hrun]
    change (Exchange.run answer (Exchange.bind _ _) s).1 = _ at herror
    rw [Exchange.run_bind] at herror
    split at herror
    · exact nomatch herror
    · next hfailed =>
      rw [hfailed]
      exact congrArg Except.error (Except.error.inj herror)

/-- **Introspection is a descent.** Whatever a backend replies, an introspection asks for the
version at most once, and not if it is known, and then makes the attempts of a descent that the
strategy allows. If it fails, the error is what the last attempt has made of the reply to it, or,
if there has been none, the message with which the backend has replied to the request for the
version. -/
theorem introspect_descends (answer : σ → Request → Reply × σ) (x : External)
    (hunknown : x.isIntrospected = false) (s : σ) :
    ∃ (status : Option Reply) (turns : List (Attempt × Reply)),
      x.introspect.log answer s =
        (status.map fun reply => (x.request statusQuery, reply)).toList ++ turns.map x.entry ∧
      (x.version.isSome → status = none) ∧ x.strategy.Descends turns ∧
      ∀ error, (x.introspect.run answer s).1 = .error error →
        (∃ last, turns.getLast? = some last ∧
            last.1.learn x.timeAttribute last.2 = .error error) ∨
          turns = [] ∧ ∃ reply message, status = some reply ∧ reply.items = .error message ∧
            Refusal.ofStatus message = false ∧ error = .requester message := by
  have hintrospect : x.introspect = x.learnVersion.bind fun version =>
      x.learnColumns (.initial x.strategy) >>= fun columns =>
        .done (x.introspected columns version) := by
    rw [introspect, hunknown]
    rfl
  have hlog := Exchange.log_bind answer x.learnVersion (fun version =>
    x.learnColumns (.initial x.strategy) >>= fun columns =>
      Exchange.done (x.introspected columns version)) s
  rw [hintrospect, Exchange.run_bind]
  refine hlog ▸ ?_
  cases hversion : x.version with
  | some version =>
    have hlearn : x.learnVersion = .done (some version) := by rw [learnVersion, hversion]
    obtain ⟨turns, hlog, hdescends, herror⟩ := x.learnColumns_descends answer (some version) s
    rw [hlearn]
    exact ⟨none, turns, hlog, fun _ => rfl, hdescends, fun error h => .inl (herror error h)⟩
  | none =>
    obtain ⟨reply, hlog, hstatus⟩ := x.learnVersion_log answer hversion s
    rw [hlog]
    rcases hrun : x.learnVersion.run answer s with ⟨error | version, s'⟩
    · rw [hrun] at hstatus
      obtain ⟨message, hreply, hrefusal, rfl⟩ := hstatus error rfl
      refine ⟨some reply, [], rfl, nofun, .nil _, fun e he => .inr ⟨rfl, reply, message, rfl, ?_⟩⟩
      exact ⟨hreply, hrefusal, (Except.error.inj he).symm⟩
    · obtain ⟨turns, hlog, hdescends, herror⟩ := x.learnColumns_descends answer version s'
      exact ⟨some reply, turns, congrArg (_ :: ·) hlog, nofun, hdescends,
        fun error h => .inl (herror error h)⟩

end External

/-! ### An old backend -/

namespace Sample

/-- The datasource of edits before its columns are known. -/
def unknownEdits : External := { edits with attributes := none }

/-- The replies of a backend that knows neither the analysis of aggregators nor metadata without
intervals, and lists no dimensions. -/
def oldReplies : List Reply :=
  [[.ok (.object [("version", .string "0.8.1")])],
    [.error "Can not construct instance of SegmentMetadataQuery$AnalysisType"],
    [.error "Instantiation of SegmentMetadataQuery failed: querySegmentSpec can't be null"],
    [.ok (.object [])]]

/-- A backend that gives replies one after the other. -/
def giveReply : List Reply → Request → Reply × List Reply
  | [], _ => ([], [])
  | reply :: rest, _ => (reply, rest)

/-- In the words of old backends, the analysis of aggregators is refused. -/
theorem refuses_aggregators : (Attempt.segmentMetadata true).stepDown? .segmentMetadataFallback
    (.requester "Can not construct instance of SegmentMetadataQuery$AnalysisType") =
      some (.segmentMetadata false) := by
  decide +kernel

/-- In the words of old backends, the metadata of segments are refused. -/
theorem refuses_segments : (Attempt.segmentMetadata false).stepDown? .segmentMetadataFallback
    (.requester "Instantiation of SegmentMetadataQuery failed: querySegmentSpec can't be null") =
      some .listing := by
  decide +kernel

/-- The introspection of the datasource at the old backend fails in its last attempt. -/
theorem run_oldReplies : (unknownEdits.introspect.run giveReply oldReplies).1 =
    .error (.invalidResponse (.listingWithout "dimensions")) := by
  have hversion : unknownEdits.introspect = unknownEdits.learnVersion.bind fun version =>
      (unknownEdits.learnColumns (.segmentMetadata true)).bind fun columns =>
        .done (unknownEdits.introspected columns version) := rfl
  have hcolumns : ((unknownEdits.learnColumns (.segmentMetadata true)).run giveReply
      oldReplies.tail).1 = .error (.invalidResponse (.listingWithout "dimensions")) := by
    rw [External.run_learnColumns_of_stepDown? rfl rfl refuses_aggregators,
      External.run_learnColumns_of_stepDown? rfl rfl refuses_segments, External.learnColumns_eq]
    rfl
  rw [hversion, Exchange.run_bind]
  change (Exchange.run giveReply (Exchange.bind _ _) oldReplies.tail).1 = _
  rw [Exchange.run_bind]
  split
  · next hrun =>
    rw [hrun] at hcolumns
    exact nomatch hcolumns
  · next hrun =>
    rw [hrun] at hcolumns
    exact congrArg Except.error (Except.error.inj hcolumns)

end Sample

open Sample in
/-- An old backend takes the introspection of edits all the way down. -/
theorem External.introspect_descends_oldEdits :
    unknownEdits.isIntrospected = false ∧
      ∃ (status : Option Reply) (turns : List (Attempt × Reply)),
        unknownEdits.introspect.log giveReply oldReplies =
          (status.map fun reply => (unknownEdits.request External.statusQuery, reply)).toList ++
            turns.map unknownEdits.entry ∧
        Strategy.segmentMetadataFallback.Descends turns ∧
        ∃ last, turns.getLast? = some last ∧
          last.1.learn "time" last.2 =
            .error (.invalidResponse (.listingWithout "dimensions")) := by
  obtain ⟨status, turns, hlog, -, hdescends, herror⟩ :=
    introspect_descends giveReply unknownEdits rfl oldReplies
  refine ⟨rfl, status, turns, hlog, hdescends, ?_⟩
  obtain h | ⟨-, reply, message, -, -, -, h⟩ := herror _ run_oldReplies
  · exact h
  · exact nomatch h

end FederatedQuery
