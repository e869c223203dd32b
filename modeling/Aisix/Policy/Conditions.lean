import Mathlib.Data.List.Basic

/-!
# Aisix.Policy.Conditions

The conditional vocabulary of a rate-limit policy (`policy_conditions.rs`): the dimensions of a
request, the tree of conditions a policy matches requests with, its validation at load time and its
evaluation.

The `regex` crate, the `f64` comparison and the `{:?}` rendering of a string are kept abstract in
`Externals`.
-/

namespace Aisix
namespace Policy

/-- Maximum group-nesting depth of a condition tree (top-level nodes are depth 1). -/
def MAX_CONDITION_DEPTH : Nat := 3
/-- Maximum total leaf count of a condition tree. -/
def MAX_CONDITION_LEAVES : Nat := 16
/-- Maximum values in one `in` list. -/
def MAX_CONDITION_VALUES : Nat := 64
/-- Maximum length of one regex pattern, in bytes. -/
def MAX_CONDITION_REGEX_LEN : Nat := 256

/-- The wire prefix of the tag dimension, shared by both dimension enums. -/
def TAG_PREFIX : String := "tag:"

inductive PolicyDimension where
  | team
  | member
  | apiKey
  | model
  | modelName
  | provider
  | tag (key : String)
  deriving DecidableEq, Repr

namespace PolicyDimension

/-- The wire name: a fixed name, or `tag:<key>`. -/
def name : PolicyDimension → String
  | team => "team"
  | member => "member"
  | apiKey => "api_key"
  | model => "model"
  | modelName => "model_name"
  | provider => "provider"
  | tag key => TAG_PREFIX ++ key

/-- Identity dimensions carry opaque ids: only equality and set operators are meaningful. -/
def isIdentity : PolicyDimension → Bool
  | team | member | apiKey | model => true
  | _ => false

/-- Whether the dimension names a property of the dispatched model. -/
def isModelProperty : PolicyDimension → Bool
  | model | modelName | provider => true
  | _ => false

end PolicyDimension

/-- Dimension a policy's counters split on: `PolicyDimension` without the model's display name. -/
inductive GroupByDimension where
  | team
  | member
  | apiKey
  | model
  | provider
  | tag (key : String)
  deriving DecidableEq, Repr

namespace GroupByDimension

def name : GroupByDimension → String
  | team => "team"
  | member => "member"
  | apiKey => "api_key"
  | model => "model"
  | provider => "provider"
  | tag key => TAG_PREFIX ++ key

/-- Canonical bucket-segment order: the fixed dimensions, then the tags by key. -/
def canonicalRank : GroupByDimension → Nat × String
  | team => (0, "")
  | member => (1, "")
  | apiKey => (2, "")
  | model => (3, "")
  | provider => (4, "")
  | tag key => (5, key)

end GroupByDimension

/-- Condition leaf operator: lua-resty-expr tokens, verbatim. -/
inductive ConditionOperator where
  | eq | ne | regex | regexCi | in | has | gt | ge | lt | le | ipMatch
  deriving DecidableEq, Repr

namespace ConditionOperator

def asStr : ConditionOperator → String
  | eq => "=="
  | ne => "~="
  | regex => "~~"
  | regexCi => "~*"
  | .in => "in"
  | has => "has"
  | gt => ">"
  | ge => ">="
  | lt => "<"
  | le => "<="
  | ipMatch => "ipmatch"

/-- Whether the value must be a list under this operator. -/
def takesList : ConditionOperator → Bool
  | .in | has | ipMatch => true
  | _ => false

def admittedBy (op : ConditionOperator) (dimension : PolicyDimension) : Bool :=
  match op with
  | eq | ne | .in => true
  | regex | regexCi => !dimension.isIdentity
  | has | gt | ge | lt | le | ipMatch => false

end ConditionOperator

inductive ConditionLogic where
  | and | or
  deriving DecidableEq, Repr

/-- A leaf's comparison value: the list operators carry a list, every other a single string. -/
inductive ConditionValue where
  | one (value : String)
  | many (values : List String)
  deriving DecidableEq, Repr

/-- One condition leaf: `dimension operator value`, with `negate` as the `!` before it. -/
structure PolicyCondition where
  dimension : PolicyDimension
  operator : ConditionOperator
  negate : Bool := false
  value : ConditionValue
  deriving DecidableEq, Repr

/-- A slot in a condition list: a leaf, or a group of nodes under an explicit AND/OR. -/
inductive ConditionNode where
  | leaf (leaf : PolicyCondition)
  | group (logic : ConditionLogic) (negate : Bool) (children : List ConditionNode)

/-- What the conditions take from outside the repository. -/
structure Externals where
  /-- The compiled pattern, case-sensitive or not, if it compiles. -/
  compiledRegex : String → Bool → Option (String → Bool)
  /-- The comparison of both sides as `f64`, false when a side is no number. -/
  compareNumbers : ConditionOperator → String → String → Bool
  /-- `{:?}` of a string. -/
  debug : String → String

variable (host : Externals)

def validateLeaf (leaf : PolicyCondition) : Except String Unit :=
  let ctx (msg : String) : Except String Unit :=
    .error s!"condition on `{leaf.dimension.name}`: {msg}"
  if !leaf.operator.admittedBy leaf.dimension then
    ctx s!"operator `{leaf.operator.asStr}` is not supported on this dimension"
  else
    match leaf.value, leaf.operator.takesList with
    | .one _, true => ctx s!"operator `{leaf.operator.asStr}` takes a list value"
    | .many _, false => ctx s!"operator `{leaf.operator.asStr}` takes a single string value"
    | .many items, true =>
      if items.isEmpty || items.length > MAX_CONDITION_VALUES then
        ctx s!"`in` list must carry 1..={MAX_CONDITION_VALUES} values"
      else if items.any (· == "") then ctx "`in` list values must be non-empty"
      else .ok ()
    | .one v, false =>
      if v == "" then ctx "value must be non-empty"
      else if leaf.operator = .regex ∨ leaf.operator = .regexCi then
        if v.utf8ByteSize > MAX_CONDITION_REGEX_LEN then
          ctx s!"regex pattern exceeds {MAX_CONDITION_REGEX_LEN} bytes"
        else if (host.compiledRegex v (leaf.operator == .regexCi)).isNone then
          ctx s!"regex pattern {host.debug v} does not compile"
        else .ok ()
      else .ok ()

mutual

/-- Validate a node at `depth`; `leaves` counts the leaves met so far. -/
def validateNode (node : ConditionNode) (depth leaves : Nat) : Except String Nat :=
  if depth > MAX_CONDITION_DEPTH then
    .error s!"conditions nest deeper than {MAX_CONDITION_DEPTH} levels"
  else
    match node with
    | .leaf leaf =>
      match validateLeaf host leaf with
      | .ok () => .ok (leaves + 1)
      | .error e => .error e
    | .group _ _ children =>
      if children.isEmpty then .error "condition group has no children"
      else validateNodes children (depth + 1) leaves

def validateNodes : List ConditionNode → Nat → Nat → Except String Nat
  | [], _, leaves => .ok leaves
  | node :: nodes, depth, leaves =>
    match validateNode node depth leaves with
    | .ok leaves => validateNodes nodes depth leaves
    | .error e => .error e

end

/-- Validate a condition tree's structural caps and per-leaf shape. -/
def validateConditionNodes (nodes : List ConditionNode) : Except String Unit :=
  match validateNodes host nodes 1 0 with
  | .ok leaves =>
    if leaves > MAX_CONDITION_LEAVES then
      .error s!"conditions carry {leaves} leaves; the maximum is {MAX_CONDITION_LEAVES}"
    else .ok ()
  | .error e => .error e

/-- The effective cost-attribution tags of a request, which are read by key only. -/
abbrev Tags := String → Option String

/-- The request's value for each dimension at the quota gate; `none` where it does not carry it. -/
structure ConditionInput where
  team : Option String := none
  member : Option String := none
  apiKey : Option String := none
  model : Option String := none
  modelName : Option String := none
  provider : Option String := none
  /-- Entry id of the caller-addressed virtual parent when `model` is a dispatch target it selected.
  -/
  routingParentModel : Option String := none
  /-- Display name of that parent. -/
  routingParentModelName : Option String := none
  tags : Option Tags := none

namespace ConditionInput

def tag (input : ConditionInput) (key : String) : Option String := input.tags.bind (· key)

def get (input : ConditionInput) : PolicyDimension → Option String
  | .team => input.team
  | .member => input.member
  | .apiKey => input.apiKey
  | .model => input.model
  | .modelName => input.modelName
  | .provider => input.provider
  | .tag key => input.tag key

/-- The caller-addressed parent's value for a model dimension; the others have no parent variant. -/
def routingParent (input : ConditionInput) : PolicyDimension → Option String
  | .model => input.routingParentModel
  | .modelName => input.routingParentModelName
  | _ => none

def getGroupBy (input : ConditionInput) : GroupByDimension → Option String
  | .team => input.team
  | .member => input.member
  | .apiKey => input.apiKey
  | .model => input.model
  | .provider => input.provider
  | .tag key => input.tag key

end ConditionInput

def evalOperator (leaf : PolicyCondition) (var : String) : Bool :=
  match leaf.operator, leaf.value with
  | .eq, .one v => var == v
  | .ne, .one v => var != v
  | .in, .many items => items.any (· == var)
  | .regex, .one pattern => (host.compiledRegex pattern false).any (· var)
  | .regexCi, .one pattern => (host.compiledRegex pattern true).any (· var)
  | .gt, .one v => host.compareNumbers .gt var v
  | .ge, .one v => host.compareNumbers .ge var v
  | .lt, .one v => host.compareNumbers .lt var v
  | .le, .one v => host.compareNumbers .le var v
  -- `has` and `ipmatch`, or a value whose shape mismatches the operator
  | _, _ => false

/-- A request without the dimension matches neither the condition nor its negation. The positive
operators ask whether the dispatched model or its parent satisfies them, `~=` whether both do. -/
def evalLeaf (leaf : PolicyCondition) (input : ConditionInput) : Bool :=
  match input.get leaf.dimension with
  | none => false
  | some var =>
    let parent := input.routingParent leaf.dimension
    let raw :=
      if leaf.operator = .ne then evalOperator host leaf var && parent.all (evalOperator host leaf)
      else evalOperator host leaf var || parent.any (evalOperator host leaf)
    raw != leaf.negate

mutual

def evalNode (node : ConditionNode) (input : ConditionInput) : Bool :=
  match node with
  | .leaf leaf => evalLeaf host leaf input
  | .group logic negate children =>
    let raw :=
      match logic with
      | .and => allNodes children input
      | .or => anyNodes children input
    raw != negate

def allNodes : List ConditionNode → ConditionInput → Bool
  | [], _ => true
  | node :: nodes, input => evalNode node input && allNodes nodes input

def anyNodes : List ConditionNode → ConditionInput → Bool
  | [], _ => false
  | node :: nodes, input => evalNode node input || anyNodes nodes input

end

/-- Evaluate a condition list against the request: an implicit AND, true of the empty list. -/
def evalConditionNodes (nodes : List ConditionNode) (input : ConditionInput) : Bool :=
  allNodes host nodes input

end Policy
end Aisix
