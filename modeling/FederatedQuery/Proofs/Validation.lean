import FederatedQuery.Expression.Validate

/-!
# Validation and construction

The rules of the algebra are written twice: once in the functions that build its operations and
once in the validation of a whole tree. A node of a valid tree is what its own constructor makes
of its parts, unless it breaks one of three rules that validation leaves out: a dataset is no key
of a split, a range of time does not end before it starts, and a limit has 63 bits. Conversely,
the constructors build the valid trees without such keys and limits, and no others.

## Main definitions

* `Expression.IsConstructed`: a node that its own constructor makes of its parts.
* `Expression.IsOverlooked`: a node that breaks a rule which validation leaves out.
* `Expression.IsBuilt`: a tree made by constructors only.

## Main results

* `Expression.fault?_eq_none_iff`: the nodes without a fault.
* `Expression.isBuilt_iff_forall_nodes`: the nodes of a tree made by constructors.
* `Expression.validate_iff_constructed`: what validation and construction have in common.
-/

namespace FederatedQuery

open Expression

/-! ### What the constructors accept -/

theorem TimeRange.of_eq_ok_iff {start stop : Instant} {r : TimeRange} :
    TimeRange.of start stop = .ok r ↔ ¬stop < start ∧ r = ⟨start, stop⟩ := by
  by_cases h : stop < start <;> simp [TimeRange.of, of?, h, eq_comm]

theorem Value.ofDouble_eq_number_iff {x : Float} :
    Value.ofDouble x = .number x ↔ x.isFinite = true := by
  cases h : x.isFinite <;> simp [Value.ofDouble, h]

namespace Expression

variable {e operand key : Expression} {name : String}

theorem splitBy_eq_ok_iff :
    operand.splitBy key name = .ok e ↔
      name.isEmpty = false ∧ key.isAggregate = false ∧ key.isDatasetLiteral = false ∧
        e = .split operand key name := by
  cases hname : name.isEmpty <;> cases ha : key.isAggregate <;>
    cases hd : key.isDatasetLiteral <;> simp [splitBy, hname, ha, hd, eq_comm]

theorem applyAs_eq_ok_iff {body : Expression} :
    operand.applyAs name body = .ok e ↔ name.isEmpty = false ∧ e = .apply operand body name := by
  cases hname : name.isEmpty <;> simp [applyAs, hname, eq_comm]

theorem sortBy_eq_ok_iff {direction : Direction} :
    operand.sortBy key direction = .ok e ↔
      key.isRef = true ∧ e = .sort operand key direction := by
  cases hkey : key.isRef <;> simp [sortBy, hkey, eq_comm]

theorem limitTo_eq_ok_iff {rows : Int} :
    operand.limitTo rows = .ok e ↔
      0 ≤ rows ∧ e = .limit operand (UInt64.ofNat rows.toNat) := by
  by_cases h : rows < 0
  · simp [limitTo, h, Int.not_le.2 h]
  · simp [limitTo, h, Int.not_lt.1 h, eq_comm]

theorem matching_eq_ok_iff {regexp : String} :
    operand.matching regexp = .ok e ↔
      regexp.isEmpty = false ∧ e = .regex operand regexp := by
  cases hregexp : regexp.isEmpty <;> simp [matching, hregexp, eq_comm]

theorem bucketedBy_eq_ok_iff {duration : String} :
    operand.bucketedBy duration = .ok e ↔
      (Period.parse? duration).isSome = true ∧ e = .timeBucket operand duration := by
  cases hperiod : Period.parse? duration <;>
    simp [bucketedBy, Period.parse, hperiod, Except.map, eq_comm]

/-! ### The nodes of a valid tree -/

/-- Whether a node is what its own constructor makes of its parts. The constructor of a
reference takes any name and the range of a literal may be given as it is: the rules for them
are that of a name and that of `TimeRange.of`. A limit is given as a word with a sign. -/
def IsConstructed (e : Expression) : Prop :=
  match e with
  | .literal (.timeRange r) => TimeRange.of r.start r.stop = .ok r
  | .literal value => ofValue value = .literal value
  | .ref name => name.isEmpty = false
  | .split operand key name => operand.splitBy key name = .ok e
  | .apply operand body name => operand.applyAs name body = .ok e
  | .sort operand key direction => operand.sortBy key direction = .ok e
  | .limit operand _ => ∃ n : Int, Word.isSigned n = true ∧ operand.limitTo n = .ok e
  | .regex operand regexp => operand.matching regexp = .ok e
  | .timeBucket operand duration => operand.bucketedBy duration = .ok e
  | .filter .. | .count _ | .not _ | .binary .. => True

/-- Whether a node breaks a rule which validation leaves out, and no other. -/
def IsOverlooked : Expression → Prop
  | .split _ key name => name.isEmpty = false ∧ key.isDatasetLiteral = true
  | .literal (.timeRange r) => r.stop < r.start
  | .limit _ rows => Word.half ≤ rows.toNat
  | _ => False

theorem isAggregate_of_isDatasetLiteral (h : key.isDatasetLiteral = true) :
    key.isAggregate = false := by
  cases key <;> simp_all [isDatasetLiteral, isAggregate]

/-- A limit is given as a word with a sign if and only if it has 63 bits. -/
theorem isConstructed_limit_iff {rows : UInt64} :
    (limit operand rows).IsConstructed ↔ rows.toNat < Word.half := by
  simp only [IsConstructed, limitTo_eq_ok_iff, limit.injEq, true_and, Word.isSigned,
    Bool.and_eq_true, decide_eq_true_eq]
  constructor
  · rintro ⟨n, ⟨-, hn⟩, hpos, rfl⟩
    have hword : n.toNat < Word.half := by omega
    rwa [UInt64.toNat_ofNat_of_lt' (Nat.lt_trans hword (by decide))]
  · intro h
    refine ⟨rows.toNat, ⟨by omega, by omega⟩, by omega, ?_⟩
    simp

/-- No constructor makes an overlooked node. -/
theorem IsOverlooked.not_isConstructed (h : e.IsOverlooked) : ¬e.IsConstructed := by
  cases e with
  | literal value =>
    cases value with
    | timeRange r => simpa [IsConstructed, TimeRange.of_eq_ok_iff, IsOverlooked] using h
    | _ => exact h.elim
  | split operand key name => simp [IsConstructed, splitBy_eq_ok_iff, h.2]
  | limit operand rows => rwa [isConstructed_limit_iff, Nat.not_lt]
  | _ => exact h.elim

/-- A node without a fault is what its constructor makes of its parts, or overlooked. -/
theorem fault?_eq_none_iff : e.fault? = none ↔ e.IsConstructed ∨ e.IsOverlooked := by
  cases e with
  | literal value =>
    cases value with
    | number x => simp [fault?, IsConstructed, IsOverlooked, ofValue, Value.ofDouble_eq_number_iff]
    | timeRange r =>
      simp only [fault?, IsConstructed, IsOverlooked, TimeRange.of_eq_ok_iff, and_true, true_iff]
      exact (Decidable.em (r.stop < r.start)).symm
    | _ => simp [fault?, IsConstructed, ofValue]
  | split operand key name =>
    -- a dataset is no aggregate, so the key of an accepted split is one or neither
    have hkey := @isAggregate_of_isDatasetLiteral key
    cases hname : name.isEmpty <;> cases ha : key.isAggregate <;>
      cases hd : key.isDatasetLiteral <;>
      simp_all [fault?, IsConstructed, IsOverlooked, splitBy_eq_ok_iff]
  | limit operand rows =>
    simp only [fault?, isConstructed_limit_iff, IsOverlooked, true_iff]
    exact Nat.lt_or_ge _ _
  | timeBucket operand duration =>
    cases hperiod : Period.parse? duration <;>
      simp [fault?, IsConstructed, IsOverlooked, bucketedBy_eq_ok_iff, hperiod]
  | ref | apply | sort | regex =>
    simp [fault?, IsConstructed, IsOverlooked, applyAs_eq_ok_iff, sortBy_eq_ok_iff,
      matching_eq_ok_iff]
  | filter | count | not | binary => simp [fault?, IsConstructed]

/-! ### Trees made by constructors -/

/-- The trees that the constructors make from references with a name and literals. -/
inductive IsBuilt : Expression → Prop
  | literal (value : Value) : IsBuilt (ofValue value)
  | ref {name : String} (hname : name.isEmpty = false) : IsBuilt (.ref name)
  | filter {operand predicate : Expression} (ho : IsBuilt operand) (hp : IsBuilt predicate) :
      IsBuilt (.filter operand predicate)
  | split {operand key e : Expression} {name : String} (ho : IsBuilt operand)
      (hk : IsBuilt key) (h : operand.splitBy key name = .ok e) : IsBuilt e
  | apply {operand body e : Expression} {name : String} (ho : IsBuilt operand)
      (hb : IsBuilt body) (h : operand.applyAs name body = .ok e) : IsBuilt e
  | sort {operand key e : Expression} {direction : Direction} (ho : IsBuilt operand)
      (hk : IsBuilt key) (h : operand.sortBy key direction = .ok e) : IsBuilt e
  | limit {operand e : Expression} {n : Int} (ho : IsBuilt operand)
      (hn : Word.isSigned n = true) (h : operand.limitTo n = .ok e) : IsBuilt e
  | count {operand : Expression} (ho : IsBuilt operand) : IsBuilt (.count operand)
  | not {operand : Expression} (ho : IsBuilt operand) : IsBuilt (.not operand)
  | regex {operand e : Expression} {regexp : String} (ho : IsBuilt operand)
      (h : operand.matching regexp = .ok e) : IsBuilt e
  | timeBucket {operand e : Expression} {duration : String} (ho : IsBuilt operand)
      (h : operand.bucketedBy duration = .ok e) : IsBuilt e
  | binary {op : Operator} {operand argument : Expression} (ho : IsBuilt operand)
      (ha : IsBuilt argument) : IsBuilt (.binary op operand argument)

/-- The nodes that the constructors can make: the range of a literal is taken as it is. -/
def IsBuildable (e : Expression) : Prop :=
  e.IsConstructed ∨ ∃ r, e = .literal (.timeRange r)

/-- Such a node has no fault, and is overlooked at most as a range. -/
theorem isBuildable_iff :
    e.IsBuildable ↔ (e.IsConstructed ∨ e.IsOverlooked) ∧
      (e.IsOverlooked → ∃ r, e = .literal (.timeRange r)) := by
  constructor
  · rintro (hconstructed | ⟨r, rfl⟩)
    · exact ⟨.inl hconstructed, fun ho => absurd hconstructed ho.not_isConstructed⟩
    · exact ⟨fault?_eq_none_iff.1 rfl, fun _ => ⟨r, rfl⟩⟩
  · rintro ⟨hconstructed | ho, hrange⟩
    · exact .inl hconstructed
    · exact .inr (hrange ho)

theorem isBuildable_ofValue (value : Value) : (ofValue value).IsBuildable := by
  cases value with
  | number x =>
    refine .inl ?_
    cases hx : x.isFinite <;> simp [ofValue, Value.ofDouble, hx, IsConstructed]
  | timeRange r => exact .inr ⟨r, rfl⟩
  | _ => exact .inl rfl

/-- What is built is a node that the constructors can make, of parts that are built. -/
theorem IsBuilt.root (h : e.IsBuilt) : e.IsBuildable ∧ ∀ part ∈ e.children, part.IsBuilt := by
  cases h with
  | literal value =>
    refine ⟨isBuildable_ofValue value, ?_⟩
    cases value <;> simp [ofValue, children]
  | ref hname => exact ⟨.inl hname, by simp [children]⟩
  | split ho hk h =>
    obtain ⟨-, -, -, rfl⟩ := splitBy_eq_ok_iff.1 h
    exact ⟨.inl h, by simp [children, ho, hk]⟩
  | apply ho hb h =>
    obtain ⟨-, rfl⟩ := applyAs_eq_ok_iff.1 h
    exact ⟨.inl h, by simp [children, ho, hb]⟩
  | sort ho hk h =>
    obtain ⟨-, rfl⟩ := sortBy_eq_ok_iff.1 h
    exact ⟨.inl h, by simp [children, ho, hk]⟩
  | limit ho hn h =>
    obtain ⟨-, rfl⟩ := limitTo_eq_ok_iff.1 h
    exact ⟨.inl ⟨_, hn, h⟩, by simp [children, ho]⟩
  | regex ho h =>
    obtain ⟨-, rfl⟩ := matching_eq_ok_iff.1 h
    exact ⟨.inl h, by simp [children, ho]⟩
  | timeBucket ho h =>
    obtain ⟨-, rfl⟩ := bucketedBy_eq_ok_iff.1 h
    exact ⟨.inl h, by simp [children, ho]⟩
  | filter ho hb | binary ho hb => exact ⟨.inl trivial, by simp [children, ho, hb]⟩
  | count ho | not ho => exact ⟨.inl trivial, by simp [children, ho]⟩

/-- A node that the constructors can make is built if its parts are. -/
theorem IsBuildable.isBuilt (h : e.IsBuildable) (hparts : ∀ part ∈ e.children, part.IsBuilt) :
    e.IsBuilt := by
  have hone {operand : Expression} (he : e.children = [operand]) : operand.IsBuilt :=
    hparts operand (he ▸ List.mem_cons_self)
  have htwo {operand argument : Expression} (he : e.children = [operand, argument]) :
      operand.IsBuilt ∧ argument.IsBuilt :=
    ⟨hparts operand (he ▸ List.mem_cons_self),
      hparts argument (he ▸ List.mem_cons_of_mem _ List.mem_cons_self)⟩
  obtain h | ⟨r, rfl⟩ := h
  · cases e with
    | literal value =>
      cases value with
      | timeRange r => exact .literal (.timeRange r)
      | _ => exact h ▸ IsBuilt.literal _
    | ref name => exact .ref h
    | filter => exact .filter (htwo rfl).1 (htwo rfl).2
    | split => exact .split (htwo rfl).1 (htwo rfl).2 h
    | apply => exact .apply (htwo rfl).1 (htwo rfl).2 h
    | sort => exact .sort (htwo rfl).1 (htwo rfl).2 h
    | limit =>
      obtain ⟨n, hn, h⟩ := h
      exact .limit (hone rfl) hn h
    | count => exact .count (hone rfl)
    | not => exact .not (hone rfl)
    | regex => exact .regex (hone rfl) h
    | timeBucket => exact .timeBucket (hone rfl) h
    | binary => exact .binary (htwo rfl).1 (htwo rfl).2
  · exact .literal (.timeRange r)

/-- A tree is made by constructors if and only if its nodes are what they can make. -/
theorem isBuilt_iff_forall_nodes : e.IsBuilt ↔ ∀ node ∈ e.nodes, node.IsBuildable := by
  have hstep {e : Expression}
      (ih : ∀ part ∈ e.children, (part.IsBuilt ↔ ∀ node ∈ part.nodes, node.IsBuildable)) :
      e.IsBuilt ↔ ∀ node ∈ e.nodes, node.IsBuildable := by
    rw [nodes_eq, List.forall_mem_cons, List.forall_mem_flatMap, ← forall₂_congr ih]
    exact ⟨IsBuilt.root, fun ⟨hroot, hparts⟩ => hroot.isBuilt hparts⟩
  induction e with
  | literal | ref => exact hstep (by simp [children])
  | limit _ _ ih | count _ ih | not _ ih | regex _ _ ih | timeBucket _ _ ih =>
    exact hstep (by simp [children, ih])
  | filter _ _ iho iha | split _ _ _ iho iha | apply _ _ _ iho iha | sort _ _ _ iho iha
  | binary _ _ _ iho iha =>
    exact hstep (by simp [children, iho, iha])

/-- A tree is valid if and only if each of its nodes is what its own constructor makes of its
parts, or breaks one of the rules that validation leaves out. The trees that the constructors
make from references with a name and literals are the valid ones in which no node breaks such
a rule, apart from ranges that are given as they are. -/
theorem validate_iff_constructed (e : Expression) :
    (e.validate = .ok () ↔ ∀ node ∈ e.nodes, node.IsConstructed ∨ node.IsOverlooked) ∧
      (e.IsBuilt ↔ e.validate = .ok () ∧
        ∀ node ∈ e.nodes, node.IsOverlooked → ∃ r, node = .literal (.timeRange r)) := by
  have hvalid : e.validate = .ok () ↔
      ∀ node ∈ e.nodes, node.IsConstructed ∨ node.IsOverlooked := by
    simp only [validate_eq_ok_iff, fault?_eq_none_iff]
  refine ⟨hvalid, ?_⟩
  rw [hvalid, isBuilt_iff_forall_nodes]
  simp only [isBuildable_iff, imp_and, forall_and]

/-- A split by a dataset and a range that ends before it starts are valid, although their
constructors refuse them. -/
theorem validate_overlooked :
    (split (.ref "wiki") (.literal (.dataset [])) "Page").validate = .ok () ∧
      splitBy (.ref "wiki") (.literal (.dataset [])) "Page" =
        .error (.splitKey (.literal (.dataset []))) ∧
      (literal (.timeRange ⟨.latest, .epoch⟩)).validate = .ok () ∧
      TimeRange.of .latest .epoch = .error (.reversedRange .latest .epoch) := by
  have hsplit : (split (.ref "wiki") (.literal (.dataset [])) "Page").validate = .ok () :=
    validate_eq_ok_iff.2 (by simp [nodes, fault?, isAggregate])
  have hrange : (literal (.timeRange ⟨.latest, .epoch⟩)).validate = .ok () :=
    validate_eq_ok_iff.2 (by simp [nodes, fault?])
  exact ⟨hsplit, rfl, hrange, rfl⟩

end Expression

end FederatedQuery
