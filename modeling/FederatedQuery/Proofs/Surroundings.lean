import FederatedQuery.Proofs.Evaluation
import FederatedQuery.Proofs.Outputs
import FederatedQuery.Proofs.Rows

/-!
# What surrounds a result

The results of a pipeline have an order. When they are computed one after the other, a result is
surrounded by the row that holds the seed and all results before it. When they are computed in
some other order, it is surrounded by a scope that holds the seed and some of the results. A
result that has a value in the former surroundings has the same one in the latter, as long as it
can be computed there at all. Whether it can be computed does not depend on how many of the
results before it, out of a set, there are in that scope already.

## Main definitions

* `before`: the names before a given one.
* `Row.Takes`: rows into which results of given names can be written.
* `Scope.Holds`: scopes in which some of the results are there.

## Main results

* `not_mem_before`: what comes after a name does not come before it.
* `Scope.Holds.evaluate_iff`: a value in different surroundings.
-/

namespace FederatedQuery

/-! ### Names in order -/

/-- The names before the given one. -/
def before (names : List String) (name : String) : List String := names.takeWhile (· != name)

theorem before_subset (names : List String) (name : String) : before names name ⊆ names :=
  (List.takeWhile_sublist _).subset

theorem before_cons_self (name : String) (names : List String) :
    before (name :: names) name = [] :=
  List.takeWhile_cons_of_neg (by simp)

theorem before_cons_of_ne {name other : String} (h : other ≠ name) (names : List String) :
    before (other :: names) name = other :: before names name :=
  List.takeWhile_cons_of_pos (by simpa using h)

theorem not_mem_before_self (names : List String) (name : String) : name ∉ before names name := by
  induction names with
  | nil => exact List.not_mem_nil
  | cons n names ih =>
    by_cases h : n = name
    · rw [h, before_cons_self]
      exact List.not_mem_nil
    · rw [before_cons_of_ne h]
      exact List.not_mem_cons_of_ne_of_not_mem (Ne.symm h) ih

/-- The names before a new one are those that there are. -/
theorem before_append_singleton {names : List String} {name : String} (h : name ∉ names) :
    before (names ++ [name]) name = names := by
  induction names with
  | nil => exact before_cons_self name []
  | cons n names ih =>
    rw [List.mem_cons, not_or] at h
    obtain ⟨hne, hname⟩ := h
    rw [List.cons_append, before_cons_of_ne (Ne.symm hne), ih hname]

/-- More names at the end do not come before a name that there is. -/
theorem before_append {names : List String} {name : String} (h : name ∈ names)
    (others : List String) : before (names ++ others) name = before names name := by
  induction names with
  | nil => exact absurd h List.not_mem_nil
  | cons n names ih =>
    rw [List.cons_append]
    by_cases hn : n = name
    · rw [hn, before_cons_self, before_cons_self]
    · rw [before_cons_of_ne hn, before_cons_of_ne hn,
        ih ((List.mem_cons.1 h).resolve_left (Ne.symm hn))]

/-- What comes after a name, among different names, does not come before it. -/
theorem not_mem_before {names : List String} (hnodup : names.Nodup) {name : String}
    {others : List String} (hsublist : (name :: others).Sublist names) {other : String}
    (h : other ∈ others) : other ∉ before names name := by
  induction names with
  | nil => exact nomatch hsublist
  | cons n names ih =>
    obtain ⟨hn, hnames⟩ := List.nodup_cons.1 hnodup
    cases hsublist with
    | cons _ hsublist =>
      have hne : n ≠ name := fun heq => hn (heq ▸ hsublist.subset List.mem_cons_self)
      have hother : other ≠ n := fun heq =>
        hn (heq ▸ hsublist.subset (List.mem_cons_of_mem _ h))
      rw [before_cons_of_ne hne]
      exact List.not_mem_cons_of_ne_of_not_mem hother (ih hnames hsublist)
    | cons_cons _ hsublist =>
      rw [before_cons_self]
      exact List.not_mem_nil

/-- A name of a part, taken in order, that comes before another one of it, comes before that one
in the part. -/
theorem mem_of_mem_before {names done rest : List String} (hnodup : names.Nodup) {name : String}
    (hsublist : (done ++ name :: rest).Sublist names) {n : String}
    (hn : n ∈ done ++ name :: rest) (h : n ∈ before names name) : n ∈ done := by
  obtain hn | hn := List.mem_append.1 hn
  · exact hn
  · obtain rfl | hn := List.mem_cons.1 hn
    · exact absurd h (not_mem_before_self names n)
    · exact absurd h (not_mem_before hnodup ((List.sublist_append_right done _).trans hsublist) hn)

/-! ### Surroundings -/

/-- Results of the given names can be written into a row: the names are different, none of them
is a name of the row, and no name begins like those of hidden columns. -/
structure Row.Takes (seed : Row) (names : List String) : Prop where
  nodup : names.Nodup
  new : ∀ name ∈ names, seed.get? name = none
  visible : ∀ name ∈ names, ¬IsHiddenName name
  seed_visible : ∀ name, IsHiddenName name → seed.get? name = none

theorem Row.Takes.sublist {seed : Row} {names others : List String} (h : seed.Takes names)
    (hsublist : others.Sublist names) : seed.Takes others where
  nodup := h.nodup.sublist hsublist
  new name hname := h.new name (hsublist.subset hname)
  visible name hname := h.visible name (hsublist.subset hname)
  seed_visible := h.seed_visible

/-- Of the results called `all`, those that are done are there, as well as the seed, and no other
results of the pipeline. -/
structure Scope.Holds (scope : Scope) (seed : Row) (value : String → Value)
    (names all done : List String) : Prop where
  done : ∀ n ∈ done, scope.lookup? n = some (value n)
  missing : ∀ n ∈ names, n ∉ all → scope.lookup? n = none
  seed : ∀ n v, seed.get? n = some v → scope.lookup? n = some v

namespace Scope.Holds

variable {scope around : Scope} {seed : Row} {value : String → Value}
  {names all done : List String}

/-- What the row before a result and such a scope have in common is there, once all results of the
set are, and the other way round. -/
theorem covers (hholds : scope.Holds seed value names all done) (htakes : seed.Takes names)
    (hall : all ⊆ names)
    (haround : ∀ n, around.lookup? n = if n ∈ all then some (value n) else seed.get? n)
    {name : String} (hbefore : ∀ n ∈ all, n ∈ before names name → n ∈ done) :
    around.Covers scope [Row.write value seed (before names name)] ∧
      scope.Covers around [Row.write value seed (before names name)] := by
  -- a name of the seed is that of no result
  have hseed {n : String} {v : Value} (h : seed.get? n = some v) : n ∉ all := fun hn =>
    nomatch (htakes.new n (hall hn)).symm.trans h
  constructor
  · intro n v u hv hu
    rw [lookup?_singleton, Row.get?_write] at hu
    rw [haround]
    split at hu
    · next hmem =>
      obtain rfl := Option.some.inj hu
      by_cases hn : n ∈ all
      · rw [hholds.done n (hbefore n hn hmem)] at hv
        rw [if_pos hn]
        exact ⟨(Option.some.inj hv).symm, hv⟩
      · exact nomatch (hholds.missing n (before_subset names name hmem) hn).symm.trans hv
    · rw [hholds.seed n u hu] at hv
      rw [if_neg (hseed hu), hu]
      exact ⟨(Option.some.inj hv).symm, hv⟩
  · intro n v u hv hu
    rw [lookup?_singleton, Row.get?_write] at hu
    rw [haround] at hv
    split at hu
    · next hmem =>
      obtain rfl := Option.some.inj hu
      split at hv
      · next hn =>
        obtain rfl := Option.some.inj hv
        exact ⟨rfl, hholds.done n (hbefore n hn hmem)⟩
      · exact nomatch (htakes.new n (before_subset names name hmem)).symm.trans hv
    · rw [if_neg (hseed hu), hu] at hv
      rw [hholds.seed n u hu]
      exact ⟨(Option.some.inj hv).symm, hv⟩

/-- **A value in different surroundings.** A result that can be computed in the row before it has
the same value in a scope that holds some of the results, if it has one there. It has one if it
could be computed with all results of the set around it. -/
theorem evaluate_iff (hholds : scope.Holds seed value names all done) (htakes : seed.Takes names)
    (hall : all ⊆ names)
    (haround : ∀ n, around.lookup? n = if n ∈ all then some (value n) else seed.get? n)
    {name : String} (hbefore : ∀ n ∈ all, n ∈ before names name → n ∈ done) {e : Expression}
    (hvalue : e.evaluate [Row.write value seed (before names name)] = .ok (value name))
    (v : Value) :
    e.evaluate scope = .ok v ↔ v = value name ∧ ∃ u, e.evaluate around = .ok u := by
  obtain ⟨haround, hscope⟩ := hholds.covers htakes hall haround hbefore
  constructor
  · intro h
    obtain ⟨rfl, hsome⟩ := (Expression.evaluate_meets haround e).ok h hvalue
    exact ⟨rfl, _, hsome⟩
  · rintro ⟨rfl, u, hu⟩
    obtain ⟨rfl, hsome⟩ := (Expression.evaluate_meets hscope e).ok hu hvalue
    exact hsome

end Scope.Holds

end FederatedQuery
