import FederatedQuery.Value.Basic

/-!
# Expressions

An expression is a tree of operations. The leaves are literal values and references to
names; every other operation is chained onto its *operand*, and most of them take a
second expression. The operations that only differ in what they compute from two
expressions share one constructor and are told apart by an `Operator`.

## Main definitions

* `Direction`, `SortKey`: how rows are sorted.
* `Operator`: the operations on two expressions.
* `Expression`: the trees.
* `Op`: the kind of a node, with its name in documents.
* `Expression.children`, `Expression.nodes`: the parts of a tree, in order.
* `Expression.same`: equality of trees.
-/

namespace FederatedQuery

/-- The direction of a sort. -/
inductive Direction where
  | ascending
  | descending
  deriving DecidableEq

/-- The name of a direction. -/
def Direction.name : Direction → String
  | .ascending => "ascending"
  | .descending => "descending"

/-- The direction with the given name. -/
def Direction.ofName? (name : String) : Option Direction :=
  if name = "ascending" then some .ascending
  else if name = "descending" then some .descending
  else none

@[simp] theorem Direction.ofName?_name (d : Direction) : ofName? d.name = some d := by
  cases d <;> decide

/-- The column that rows are sorted by. -/
structure SortKey where
  name : String
  direction : Direction

/-- What is computed from the values of one attribute over many rows. -/
inductive Measure where
  | sum
  | min
  | max
  | average
  | countDistinct
  deriving DecidableEq

/-- How two values may be related. -/
inductive Relation where
  | is
  | overlap
  | contains
  deriving DecidableEq

/-- How two conditions are connected. -/
inductive Connective where
  | and
  | or
  deriving DecidableEq

/-- The comparisons by order. -/
inductive Comparison where
  | greaterThan
  | greaterThanOrEqual
  | lessThan
  | lessThanOrEqual
  deriving DecidableEq

/-- The operations on numbers. -/
inductive Arithmetic where
  | add
  | subtract
  | multiply
  | divide
  deriving DecidableEq

/-- An operation on two expressions. -/
inductive Operator where
  | measure (m : Measure)
  | relation (r : Relation)
  | connective (c : Connective)
  | comparison (c : Comparison)
  | arithmetic (a : Arithmetic)
  deriving DecidableEq

/-- The name of an operation on two expressions. -/
def Operator.name : Operator → String
  | .measure .sum => "sum"
  | .measure .min => "min"
  | .measure .max => "max"
  | .measure .average => "average"
  | .measure .countDistinct => "countDistinct"
  | .relation .is => "is"
  | .relation .overlap => "overlap"
  | .relation .contains => "contains"
  | .connective .and => "and"
  | .connective .or => "or"
  | .comparison .greaterThan => "greaterThan"
  | .comparison .greaterThanOrEqual => "greaterThanOrEqual"
  | .comparison .lessThan => "lessThan"
  | .comparison .lessThanOrEqual => "lessThanOrEqual"
  | .arithmetic .add => "add"
  | .arithmetic .subtract => "subtract"
  | .arithmetic .multiply => "multiply"
  | .arithmetic .divide => "divide"

/-- A tree of operations. -/
inductive Expression where
  /-- A value. -/
  | literal (value : Value)
  /-- A datasource, an attribute, or an earlier result, by name. -/
  | ref (name : String)
  /-- The rows of the operand on which `predicate` holds. -/
  | filter (operand predicate : Expression)
  /-- The rows of the operand, grouped by `key`, which is called `name`. -/
  | split (operand key : Expression) (name : String)
  /-- The operand with one more result, called `name`. -/
  | apply (operand body : Expression) (name : String)
  /-- The operand in the order of `key`. -/
  | sort (operand key : Expression) (direction : Direction)
  /-- The first rows of the operand. -/
  | limit (operand : Expression) (rows : UInt64)
  /-- The number of rows of the operand. -/
  | count (operand : Expression)
  /-- Whether the operand does not hold. -/
  | not (operand : Expression)
  /-- Whether the operand matches a regular expression. -/
  | regex (operand : Expression) (regexp : String)
  /-- The bucket of time in which the operand lies. -/
  | timeBucket (operand : Expression) (duration : String)
  /-- An operation on two expressions. -/
  | binary (op : Operator) (operand argument : Expression)

/-- The kind of a node. -/
inductive Op where
  | literal
  | ref
  | filter
  | split
  | apply
  | sort
  | limit
  | count
  | not
  | regex
  | timeBucket
  | binary (op : Operator)
  deriving DecidableEq

namespace Op

/-- The name of a kind of node. -/
def name : Op → String
  | .literal => "literal"
  | .ref => "ref"
  | .filter => "filter"
  | .split => "split"
  | .apply => "apply"
  | .sort => "sort"
  | .limit => "limit"
  | .count => "count"
  | .not => "not"
  | .regex => "match"
  | .timeBucket => "timeBucket"
  | .binary op => op.name

/-- Every kind of node, in the order in which the algebra lists them. -/
def all : List Op :=
  [.literal, .ref, .filter, .split, .apply, .sort, .limit, .count,
    .binary (.measure .sum), .binary (.measure .min), .binary (.measure .max),
    .binary (.measure .average), .binary (.measure .countDistinct),
    .binary (.relation .is), .binary (.relation .overlap), .binary (.relation .contains),
    .regex, .binary (.connective .and), .binary (.connective .or), .not,
    .binary (.comparison .greaterThan), .binary (.comparison .greaterThanOrEqual),
    .binary (.comparison .lessThan), .binary (.comparison .lessThanOrEqual),
    .binary (.arithmetic .add), .binary (.arithmetic .subtract),
    .binary (.arithmetic .multiply), .binary (.arithmetic .divide), .timeBucket]

/-- The kind of node with the given name. -/
def ofName? (name : String) : Option Op := all.find? fun op => op.name == name

@[simp] theorem ofName?_name (op : Op) : ofName? op.name = some op := by
  cases op with
  | binary op => rcases op with k | k | k | k | k <;> cases k <;> decide
  | _ => decide

end Op

namespace Expression

instance : Inhabited Expression := ⟨.literal .null⟩

/-- The kind of the root. -/
def op : Expression → Op
  | .literal _ => .literal
  | .ref _ => .ref
  | .filter .. => .filter
  | .split .. => .split
  | .apply .. => .apply
  | .sort .. => .sort
  | .limit .. => .limit
  | .count _ => .count
  | .not _ => .not
  | .regex .. => .regex
  | .timeBucket .. => .timeBucket
  | .binary op _ _ => .binary op

/-- The direct parts of an expression, the operand first. -/
def children : Expression → List Expression
  | .literal _ | .ref _ => []
  | .limit operand _ | .count operand | .not operand | .regex operand _
  | .timeBucket operand _ => [operand]
  | .filter operand other | .split operand other _ | .apply operand other _
  | .sort operand other _ | .binary _ operand other => [operand, other]

/-- The expression that the root is chained onto. -/
def operand? (e : Expression) : Option Expression := e.children.head?

/-- All nodes, each before its children. -/
def nodes : Expression → List Expression
  | e@(.literal _) => [e]
  | e@(.ref _) => [e]
  | e@(.filter a b) => e :: (nodes a ++ nodes b)
  | e@(.split a b _) => e :: (nodes a ++ nodes b)
  | e@(.apply a b _) => e :: (nodes a ++ nodes b)
  | e@(.sort a b _) => e :: (nodes a ++ nodes b)
  | e@(.binary _ a b) => e :: (nodes a ++ nodes b)
  | e@(.limit a _) => e :: nodes a
  | e@(.count a) => e :: nodes a
  | e@(.not a) => e :: nodes a
  | e@(.regex a _) => e :: nodes a
  | e@(.timeBucket a _) => e :: nodes a

/-- The nodes are the root and the nodes of its children. -/
theorem nodes_eq (e : Expression) : e.nodes = e :: e.children.flatMap nodes := by
  cases e <;> simp [nodes, children]

/-- Whether the root combines many rows into one value. -/
def isAggregate : Expression → Bool
  | .count _ => true
  | .binary (.measure _) _ _ => true
  | _ => false

/-- Whether some node combines many rows into one value. -/
def hasAggregate (e : Expression) : Bool := e.nodes.any isAggregate

/-- Whether the root is a reference. -/
def isRef : Expression → Bool
  | .ref _ => true
  | _ => false

/-- Whether the root is a dataset given as a literal. -/
def isDatasetLiteral : Expression → Bool
  | .literal (.dataset _) => true
  | _ => false

/-- Equality of expressions, with literals equal as values. -/
def same : Expression → Expression → Bool
  | .literal v, .literal w => v == w
  | .ref n, .ref m => n == m
  | .filter a b, .filter c d => same a c && same b d
  | .split a b n, .split c d m => same a c && same b d && n == m
  | .apply a b n, .apply c d m => same a c && same b d && n == m
  | .sort a b x, .sort c d y => same a c && same b d && x == y
  | .limit a n, .limit c m => same a c && n == m
  | .count a, .count c => same a c
  | .not a, .not c => same a c
  | .regex a n, .regex c m => same a c && n == m
  | .timeBucket a n, .timeBucket c m => same a c && n == m
  | .binary o a b, .binary p c d => o == p && same a c && same b d
  | _, _ => false

instance : BEq Expression := ⟨same⟩

/-- The conjunction of two conditions. -/
def conj (a b : Expression) : Expression := .binary (.connective .and) a b

/-- The condition that two values are equal. -/
def eqTo (a b : Expression) : Expression := .binary (.relation .is) a b

/-- The condition that two values overlap. -/
def overlapWith (a b : Expression) : Expression := .binary (.relation .overlap) a b

end Expression

end FederatedQuery
