import ModuleSyntax.Position
import ModuleSyntax.Kind
import ModuleSyntax.Text.Quoted

namespace ModuleSyntax

/-- A piece of the source. The value of a string literal is what stands between its quotes, with
every backslash as written. -/
structure Token where
  kind : Kind
  value : String
  span : Span
deriving DecidableEq

namespace Token

def written (kind : Kind) (value : String) : List Char :=
  match kind with
  | .stringLiteral => '"' :: value.toList ++ ['"']
  | _ => value.toList

def lexeme (t : Token) : List Char := written t.kind t.value

def onLine (kind : Kind) (start : Position) (value : String) : Token where
  kind := kind
  value := value
  span := ⟨start, start.line, start.column + (written kind value).length.toUInt32⟩

def eof (place : Position) : Token := ⟨.eof, "", place, place⟩

/-- Two tokens are the same when kind, start and value agree: the end of a token follows from
these. -/
def same (s t : Token) : Bool :=
  s.kind = t.kind && s.span.start = t.span.start && s.value = t.value

def isEof (t : Token) : Bool := t.kind = .eof

def shown (t : Token) : String :=
  t.kind.name ++ "(" ++ Text.quoted t.value ++ ") at " ++ t.span.start.shown

end Token

end ModuleSyntax
