import ModuleSyntax.Token

namespace ModuleSyntax

/-- Why a source is refused. -/
inductive Cause where
  | unrecognised (text : String)
  | malformedNumber (text : String)
  | unterminatedString (literal : String)
  | unterminatedComment
  | unreadable (reason : String)
  | unexpected (kind : Kind) (text : String) (expected : List Kind)
  | badTarget (text : String)
deriving DecidableEq

inductive Phase where
  | lexical
  | syntactic
deriving DecidableEq

structure Diagnostic where
  cause : Cause
  position : Position
deriving DecidableEq

/-- A phrase for the kinds that were expected; empty when there are none. -/
def describe : List Kind → String
  | [] => ""
  | [k] => k.name
  | ks => "one of " ++ String.intercalate ", " (ks.map Kind.name)

namespace Cause

def phase : Cause → Phase
  | unexpected .. | badTarget _ => .syntactic
  | _ => .lexical

def name : Cause → String
  | unrecognised _ => "UnrecognisedToken"
  | malformedNumber _ => "MalformedNumber"
  | unterminatedString _ => "UnterminatedString"
  | unterminatedComment => "UnterminatedComment"
  | unreadable _ => "SourceRead"
  | unexpected .. => "UnexpectedToken"
  | badTarget _ => "InvalidAssignmentTarget"

def expectation (expected : List Kind) : String :=
  if expected.isEmpty then "" else ", expected " ++ describe expected

def message : Cause → String
  | unrecognised text => "unrecognised token: " ++ Text.quoted text
  | malformedNumber text => "malformed number: " ++ Text.quoted text
  | unterminatedString literal => "unterminated string literal: " ++ Text.quoted literal
  | unterminatedComment => "unterminated block comment"
  | unreadable reason => "error reading source: " ++ reason
  | unexpected kind text expected =>
    "unexpected token " ++ kind.name ++ " " ++ Text.quoted text ++ expectation expected
  | badTarget text => "invalid assignment target before " ++ Text.quoted text

/-- Advice to the writer of the source. Text of the source stands in it as it is, unescaped. -/
def tip? : Cause → Option String
  | unrecognised _ => none
  | malformedNumber text =>
    some ("Invalid number: `" ++ text ++ "`, identifiers cannot start with a digit")
  | unterminatedString _ => some "String literal is missing its closing `\"`"
  | unterminatedComment => some "Block comment is missing its closing `*/`"
  | unreadable reason => some ("Could not read source: " ++ reason)
  | unexpected _ text expected =>
    some ("Unexpected token: `" ++ text ++ "`" ++ expectation expected)
  | badTarget _ => some "Only identifiers and array elements can be assigned to"

end Cause

namespace Diagnostic

def message (d : Diagnostic) : String :=
  d.cause.message ++ " at " ++ d.position.shown

end Diagnostic

end ModuleSyntax
