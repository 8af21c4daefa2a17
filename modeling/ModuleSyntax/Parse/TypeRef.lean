import ModuleSyntax.Parser
import ModuleSyntax.Tree.TypeRef

namespace ModuleSyntax.Parse

def primitiveType : Parse (TypeRef Span) := do
  let t ← expectOneOf
    [.keyword .voidWord, .keyword .intWord, .keyword .booleanWord, .keyword .stringWord]
  return ⟨.primitive ((Primitive.ofKind? t.kind).getD .string), 0, t.span⟩

def namedType : Parse (TypeRef Span) := do
  let t ← expect .identifier
  return ⟨.named t.value, 0, t.span⟩

/-- An array type goes on with an empty pair of brackets; an index never stands in a type. -/
def arrayType (left : TypeRef Span) : Parse (TypeRef Span) := do
  let _ ← expect (.mark .openBracket)
  let close ← expect (.mark .closeBracket)
  return ⟨left.base, left.depth + 1, left.note.start, close.span.stop⟩

def typeLeading : TypeLeading → Parse (TypeRef Span)
  | .primitive => primitiveType
  | .named => namedType

def typeTrailing : TypeTrailing → TypeRef Span → Parse (TypeRef Span)
  | .array => arrayType

def typeChain : Nat → TypeRef Span → Power → Parse (TypeRef Span)
  | 0, _, _ => outOfCalls
  | n + 1, left, power => do
    match (← get).tables.typeTrailing (← kind) with
    | some (held, rule) =>
      if held ≤ power then return left else typeChain n (← typeTrailing rule left) power
    | none => return left

def typeRef (n : Nat) (power : Power) : Parse (TypeRef Span) := do
  match (← get).tables.typeLeading (← kind) with
  | some rule => typeChain n (← typeLeading rule) power
  | none => unexpected (entries (← get).tables.typeLeading)

end ModuleSyntax.Parse
