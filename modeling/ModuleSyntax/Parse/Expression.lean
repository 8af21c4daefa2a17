import ModuleSyntax.Parser
import ModuleSyntax.Tree.Expression

namespace ModuleSyntax.Parse

variable {α : Type}

/-- A token that stands for itself. One that does not has been taken when it is refused. -/
def atom : Parse (Expression Span) := do
  let t ← advance
  match t.kind with
  | .intLiteral => return .int t.value t.span
  | .stringLiteral => return .string t.value t.span
  | .keyword .trueWord => return .bool true t.span
  | .keyword .falseWord => return .bool false t.span
  | .identifier => return .symbol t.value t.span
  | _ => throw ⟨.unexpected t.kind t.value [], t.span.start⟩

def negation (operand : Parse (Expression Span)) : Parse (Expression Span) := do
  let sign ← advance
  let e ← operand
  return .negation e ⟨sign.span.start, e.note.stop⟩

/-- Parentheses widen the note of what stands between them. -/
def grouping (inner : Parse (Expression Span)) : Parse (Expression Span) := do
  let opening ← advance
  let e ← inner
  let _ ← expect (.mark .closeParen)
  return e.withNote ⟨opening.span.start, ← previousEnd⟩

def closedList (items : Parse (List α)) (close : Mark) : Parse (List α) := do
  if (← kind) = .mark close then
    let _ ← advance
    return []
  else
    let list ← items
    if (← kind) = .mark close then
      let _ ← advance
      return list
    else unexpected [.mark .comma, .mark close]

def arrayLiteral (items : Parse (List (Expression Span))) : Parse (Expression Span) := do
  let opening ← advance
  let elements ← closedList items .closeBracket
  return .array elements ⟨opening.span.start, ← previousEnd⟩

/-- The operand on the right is read at the power of the operator, so that operators of equal
power group to the left. -/
def binary (operand : Power → Parse (Expression Span)) (left : Expression Span) (power : Power) :
    Parse (Expression Span) := do
  let t ← advance
  match BinaryOp.ofKind? t.kind with
  | some op =>
    let right ← operand power
    return .binary op left right ⟨left.note.start, right.note.stop⟩
  | none => throw ⟨.unexpected t.kind t.value [], t.span.start⟩

/-- The value is read at the loosest power, so that assignments group to the right. -/
def assignment (value : Parse (Expression Span)) (left : Expression Span) :
    Parse (Expression Span) := do
  if left.isTarget then
    let _ ← advance
    let e ← value
    return .assignment left e ⟨left.note.start, e.note.stop⟩
  else
    let p ← get
    throw ⟨.badTarget p.current.value, p.position⟩

def call (items : Parse (List (Expression Span))) (left : Expression Span) :
    Parse (Expression Span) := do
  let _ ← advance
  let arguments ← closedList items .closeParen
  return .call left arguments ⟨left.note.start, ← previousEnd⟩

def index (inner : Parse (Expression Span)) (left : Expression Span) :
    Parse (Expression Span) := do
  let _ ← advance
  if (← kind) = .mark .closeBracket then
    let _ ← advance
    return .emptyIndex left ⟨left.note.start, ← previousEnd⟩
  else
    let position ← inner
    let _ ← expect (.mark .closeBracket)
    return .index left position ⟨left.note.start, ← previousEnd⟩

def leading (expression : Power → Parse (Expression Span))
    (items : Parse (List (Expression Span))) : Leading → Parse (Expression Span)
  | .atom => atom
  | .negation => negation (expression .unary)
  | .grouping => grouping (expression .loosest)
  | .arrayLiteral => arrayLiteral items

def trailing (expression : Power → Parse (Expression Span))
    (items : Parse (List (Expression Span))) :
    Trailing → Expression Span → Power → Parse (Expression Span)
  | .assignment, left, _ => assignment (expression .loosest) left
  | .binary, left, power => binary expression left power
  | .call, left, _ => call items left
  | .index, left, _ => index (expression .loosest) left

mutual

/-- Reads an expression whose operators hold tighter than `power`, with at most the given depth
of calls. -/
def expression : Nat → Power → Parse (Expression Span)
  | 0, _ => outOfCalls
  | n + 1, power => do
    match (← get).tables.leading (← kind) with
    | some rule => chain n (← leading (expression n) (items n) rule) power
    | none => unexpected (entries (← get).tables.leading)

/-- Goes on with an expression for as long as the current token holds it tighter than `power`. -/
def chain : Nat → Expression Span → Power → Parse (Expression Span)
  | 0, _, _ => outOfCalls
  | n + 1, left, power => do
    match (← get).tables.trailing (← kind) with
    | some (held, rule) =>
      if held ≤ power then return left
      else chain n (← trailing (expression n) (items n) rule left held) power
    | none => return left

def items : Nat → Parse (List (Expression Span))
  | 0 => outOfCalls
  | n + 1 => do
    let e ← expression n .loosest
    if (← kind) = .mark .comma then
      let _ ← advance
      return e :: (← items n)
    else return [e]

end

end ModuleSyntax.Parse
