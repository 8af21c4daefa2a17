import ModuleSyntax.Parse.Statement
import ModuleSyntax.Tree.Module

namespace ModuleSyntax

namespace Parse

def importLine : Parse (Import Span) := do
  let word ← expect (.keyword .importWord)
  let name ← expect .identifier
  let _ ← expect (.mark .semicolon)
  return ⟨name.value, word.span.start, ← previousEnd⟩

def imports : Nat → Parse (List (Import Span))
  | 0 => outOfCalls
  | n + 1 => do
    if (← kind) = .keyword .importWord then
      let line ← importLine
      return line :: (← imports n)
    else return []

def parameter (n : Nat) : Parse (Parameter Span) := do
  let type ← typeRef n .loosest
  let name ← expect .identifier
  return ⟨type, name.value, type.note.start, ← previousEnd⟩

def parameters : Nat → Parse (List (Parameter Span))
  | 0 => outOfCalls
  | n + 1 => do
    let p ← parameter n
    if (← kind) = .mark .comma then
      let _ ← advance
      return p :: (← parameters n)
    else return [p]

def typeAlias (isPublic : Bool) (start : Position) : Parse (Declaration Span) := do
  let _ ← expect (.keyword .typeWord)
  let name ← expect .identifier
  let _ ← expect (.mark .assignment)
  let literal ← expect .stringLiteral
  let _ ← expect (.mark .semicolon)
  return .typeAlias isPublic name.value literal.value ⟨start, ← previousEnd⟩

/-- What stands after the name tells a field from a function. -/
def member (n : Nat) (isPublic : Bool) (start : Position) : Parse (Declaration Span) := do
  let type ← typeRef n .loosest
  let name ← expect .identifier
  match ← kind with
  | .mark .semicolon =>
    let _ ← advance
    return .field isPublic type name.value ⟨start, ← previousEnd⟩
  | .mark .openParen =>
    let _ ← advance
    let list ← closedList (parameters n) .closeParen
    let body ← block (statements n)
    return .function isPublic type name.value list body ⟨start, ← previousEnd⟩
  | _ => unexpected [.mark .semicolon, .mark .openParen]

def visibility : Parse Bool := do
  if (← kind) = .keyword .publicWord then
    let _ ← advance
    return true
  else return false

def declaration (n : Nat) : Parse (Declaration Span) := do
  let start ← position
  let isPublic ← visibility
  if (← kind) = .keyword .typeWord then typeAlias isPublic start
  else member n isPublic start

def declarations : Nat → Parse (List (Declaration Span))
  | 0 => outOfCalls
  | n + 1 => do
    if (← kind) = .mark .closeCurly then return []
    else
      let d ← declaration n
      return d :: (← declarations n)

/-- A module fills its source to the end, but its note ends at the bracket that closes it. -/
def wholeModule (n : Nat) : Parse (Module Span) := do
  let word ← expect (.keyword .moduleWord)
  let name ← expect .identifier
  let _ ← expect (.mark .openCurly)
  let importList ← imports n
  let declarationList ← declarations n
  let _ ← expect (.mark .closeCurly)
  let stop ← previousEnd
  let _ ← expect .eof
  return ⟨name.value, importList, declarationList, word.span.start, stop⟩

def budgeted {α : Type} (f : Nat → Parse α) : Parse α := do f (← get).budget

end Parse

def parse (l : Lexer) : Option (Except Diagnostic (Module Span)) :=
  match Parser.start l.stream with
  | .ok p => (Parse.budgeted Parse.wholeModule p).map (·.1)
  | .error d => some (.error d)

def parseSource (source : String) (file : Option String) :
    Option (Except Diagnostic (Module Span)) :=
  parse (Lexer.ofString source file)

end ModuleSyntax
