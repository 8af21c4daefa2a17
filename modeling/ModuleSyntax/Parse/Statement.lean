import ModuleSyntax.Parse.Expression
import ModuleSyntax.Parse.TypeRef
import ModuleSyntax.Tree.Statement

namespace ModuleSyntax.Parse

def endEvaluation (e : Expression Span) : Parse (Statement Span) := do
  let _ ← expect (.mark .semicolon)
  return .evaluation e ⟨e.note.start, ← previousEnd⟩

def endDeclaration (type : TypeRef Span) : Parse (Statement Span) := do
  let name ← expect .identifier
  let _ ← expect (.mark .semicolon)
  return .variableDecl type name.value ⟨type.note.start, ← previousEnd⟩

/-- Reads a statement that begins with a name, after the name and `depth` empty pairs of brackets.
Until something else follows, these may be a type before the name of a variable as well as `left`,
the value that is indexed with nothing. -/
def afterName : Nat → String → Nat → Expression Span → Parse (Statement Span)
  | 0, _, _, _ => outOfCalls
  | n + 1, name, depth, left => do
    if (← kind) = .mark .openBracket then
      let _ ← advance
      if (← kind) = .mark .closeBracket then
        let close ← advance
        afterName n name (depth + 1) (.emptyIndex left ⟨left.note.start, close.span.stop⟩)
      else
        let position ← expression n .loosest
        let _ ← expect (.mark .closeBracket)
        let element := .index left position ⟨left.note.start, ← previousEnd⟩
        endEvaluation (← chain n element .loosest)
    else if (← kind) = .identifier then
      endDeclaration ⟨.named name, depth, left.note⟩
    else endEvaluation (← chain n left .loosest)

def nameFirst (n : Nat) : Parse (Statement Span) := do
  let t ← expect .identifier
  afterName n t.value 0 (.symbol t.value t.span)

def declarationFirst (n : Nat) : Parse (Statement Span) := do
  endDeclaration (← typeRef n .loosest)

def condition (n : Nat) : Parse (Expression Span) := do
  let _ ← expect (.mark .openParen)
  let e ← expression n .loosest
  let _ ← expect (.mark .closeParen)
  return e

def block (body : Parse (List (Statement Span))) : Parse (Block Span) := do
  let opening ← expect (.mark .openCurly)
  let statements ← body
  let _ ← expect (.mark .closeCurly)
  return ⟨statements, opening.span.start, ← previousEnd⟩

def whileLoop (n : Nat) (body : Parse (List (Statement Span))) : Parse (Statement Span) := do
  let word ← advance
  let test ← condition n
  let b ← block body
  return .whileLoop test b.body b.note ⟨word.span.start, ← previousEnd⟩

/-- An `else` belongs to the nearest `if` that has none yet. -/
def conditional (n : Nat) (branch : Parse (Statement Span)) : Parse (Statement Span) := do
  let word ← advance
  let test ← condition n
  let yes ← branch
  if (← kind) = .keyword .elseWord then
    let _ ← advance
    let no ← branch
    return .ifElse test yes no ⟨word.span.start, ← previousEnd⟩
  else return .ifThen test yes ⟨word.span.start, ← previousEnd⟩

def breakLoop : Parse (Statement Span) := do
  let word ← advance
  let _ ← expect (.mark .semicolon)
  return .breakLoop ⟨word.span.start, ← previousEnd⟩

def returnValue (n : Nat) : Parse (Statement Span) := do
  let word ← advance
  if (← kind) = .mark .semicolon then
    let _ ← advance
    return .returnValue none ⟨word.span.start, ← previousEnd⟩
  else
    let e ← expression n .loosest
    let _ ← expect (.mark .semicolon)
    return .returnValue e ⟨word.span.start, ← previousEnd⟩

def opening (n : Nat) (branch : Parse (Statement Span)) (body : Parse (List (Statement Span))) :
    Opening → Parse (Statement Span)
  | .block => do
    let b ← block body
    return .block b.body b.note
  | .whileLoop => whileLoop n body
  | .conditional => conditional n branch
  | .breakLoop => breakLoop
  | .returnValue => returnValue n
  | .declaration => declarationFirst n
  | .name => nameFirst n

mutual

def statement : Nat → Parse (Statement Span)
  | 0 => outOfCalls
  | n + 1 => do
    match (← get).tables.opening (← kind) with
    | some rule => opening n (statement n) (statements n) rule
    | none => endEvaluation (← expression n .loosest)

def statements : Nat → Parse (List (Statement Span))
  | 0 => outOfCalls
  | n + 1 => do
    if (← kind) = .mark .closeCurly then return []
    else if (← kind) = .eof then unexpected [.mark .closeCurly]
    else
      let s ← statement n
      return s :: (← statements n)

end

end ModuleSyntax.Parse
