import ModuleSyntax.Proofs.Levels

namespace ModuleSyntax.Proofs.Layered

open Parse Grammar

def operator? (l : Power) (k : Kind) : Option BinaryOp :=
  (BinaryOp.ofKind? k).filter fun op => power op = l

def expressionStarts : List Kind :=
  [.intLiteral, .stringLiteral, .keyword .trueWord, .keyword .falseWord, .identifier, .mark .dash,
    .mark .openParen, .mark .openBracket]

def upTo (close : Mark) (items : Parse (List (Expression Span))) :
    Parse (List (Expression Span)) := do
  let es ← if (← kind) = .mark close then pure [] else items
  if (← kind) = .mark close then
    let _ ← advance
    return es
  else unexpected [.mark .comma, .mark close]

/-- Takes a sign and a value behind an operand that is a name or an element of an array. Behind any
other the sign is refused and stays. -/
def assignTo (left : Expression Span) (value : Parse (Expression Span)) :
    Parse (Expression Span) := do
  match left with
  | .symbol .. | .index .. | .emptyIndex .. =>
    let _ ← advance
    let e ← value
    return .assignment left e ⟨left.note.start, e.note.stop⟩
  | _ =>
    let sign := (← get).current
    throw ⟨.badTarget sign.value, sign.span.start⟩

mutual

/-- Recursive descent with one parse for each level, each of which reads its operands on the next
tighter one. The depth of calls is at most the given one. -/
def layer : Nat → Power → Parse (Expression Span)
  | 0, _ => outOfCalls
  | n + 1, .loosest => layer n .assignment
  | n + 1, .assignment => do further n .assignment (← layer n .equality)
  | n + 1, .equality => do further n .equality (← layer n .relational)
  | n + 1, .relational => do further n .relational (← layer n .additive)
  | n + 1, .additive => do further n .additive (← layer n .multiplicative)
  | n + 1, .multiplicative => do further n .multiplicative (← layer n .unary)
  | n + 1, .unary => do
    if (← kind) = .mark .dash then
      let sign ← advance
      let e ← layer n .unary
      return .negation e ⟨sign.span.start, e.note.stop⟩
    else layer n .call
  | n + 1, .call => do further n .call (← layer n .primary)
  | n + 1, .primary => do
    match ← kind with
    | .intLiteral =>
      let t ← advance
      return .int t.value t.span
    | .stringLiteral =>
      let t ← advance
      return .string t.value t.span
    | .keyword .trueWord =>
      let t ← advance
      return .bool true t.span
    | .keyword .falseWord =>
      let t ← advance
      return .bool false t.span
    | .identifier =>
      let t ← advance
      return .symbol t.value t.span
    | .mark .openParen =>
      let opening ← advance
      let e ← layer n .assignment
      let _ ← expect (.mark .closeParen)
      return e.withNote ⟨opening.span.start, ← previousEnd⟩
    | .mark .openBracket =>
      let opening ← advance
      let es ← upTo .closeBracket (list n)
      return .array es ⟨opening.span.start, ← previousEnd⟩
    | _ => unexpected expressionStarts

/-- Goes on with an operand of a level for as long as one of the tokens of that level follows. -/
def further : Nat → Power → Expression Span → Parse (Expression Span)
  | 0, _, _ => outOfCalls
  | n + 1, .assignment, left => do
    if (← kind) = .mark .assignment then assignTo left (layer n .assignment) else return left
  | n + 1, .call, left => do
    match ← kind with
    | .mark .openParen =>
      let _ ← advance
      let es ← upTo .closeParen (list n)
      further n .call (.call left es ⟨left.note.start, ← previousEnd⟩)
    | .mark .openBracket =>
      let _ ← advance
      if (← kind) = .mark .closeBracket then
        let _ ← advance
        further n .call (.emptyIndex left ⟨left.note.start, ← previousEnd⟩)
      else
        let e ← layer n .assignment
        let _ ← expect (.mark .closeBracket)
        further n .call (.index left e ⟨left.note.start, ← previousEnd⟩)
    | _ => return left
  | n + 1, l, left => do
    match operator? l (← kind) with
    | some op =>
      let _ ← advance
      let right ← layer n (tighter l)
      further n l (.binary op left right ⟨left.note.start, right.note.stop⟩)
    | none => return left

def list : Nat → Parse (List (Expression Span))
  | 0 => outOfCalls
  | n + 1 => do
    let e ← layer n .assignment
    if (← kind) = .mark .comma then
      let _ ← advance
      return e :: (← list n)
    else return [e]

end

end ModuleSyntax.Proofs.Layered
