import ModuleSyntax.Parse.Module

namespace ModuleSyntax

inductive Operation where
  | advance
  | expect (kind : Kind)
  | expectOneOf (kinds : List Kind)
  | unexpected (expected : List Kind)
  | setLeading (kind : Kind) (rule : Leading)
  | setTrailing (kind : Kind) (power : Power) (rule : Trailing)
  | setOpening (kind : Kind) (rule : Opening)
  | setTypeLeading (kind : Kind) (rule : TypeLeading)
  | setTypeTrailing (kind : Kind) (power : Power) (rule : TypeTrailing)
  | module
  | importLine
  | declaration
  | statement
  | block
  | typeRef (power : Power)
  | expression (power : Power)
  | chain (left : Expression Span) (power : Power)
  | leading (rule : Leading)
  | trailing (rule : Trailing) (left : Expression Span) (power : Power)
  | opening (rule : Opening)
  | typeLeading (rule : TypeLeading)
  | typeTrailing (rule : TypeTrailing) (left : TypeRef Span)

inductive Reply where
  | done
  | token (token : Token)
  | module (module : Module Span)
  | importLine (line : Import Span)
  | declaration (declaration : Declaration Span)
  | statement (statement : Statement Span)
  | block (block : Block Span)
  | typeRef (type : TypeRef Span)
  | expression (expression : Expression Span)

namespace Parse

def register (change : Tables → Tables) : Parse Reply := do
  modify fun p => { p with tables := change p.tables }
  return .done

/-- Performs an operation with at most the given depth of calls. -/
def perform (n : Nat) : Operation → Parse Reply
  | .advance => .token <$> advance
  | .expect k => .token <$> expect k
  | .expectOneOf ks => .token <$> expectOneOf ks
  | .unexpected ks => unexpected ks
  | .setLeading k r => register fun t => { t with leading := setEntry t.leading k r }
  | .setTrailing k p r => register fun t => { t with trailing := setEntry t.trailing k (p, r) }
  | .setOpening k r => register fun t => { t with opening := setEntry t.opening k r }
  | .setTypeLeading k r => register fun t => { t with typeLeading := setEntry t.typeLeading k r }
  | .setTypeTrailing k p r =>
    register fun t => { t with typeTrailing := setEntry t.typeTrailing k (p, r) }
  | .module => .module <$> wholeModule n
  | .importLine => .importLine <$> importLine
  | .declaration => .declaration <$> declaration n
  | .statement => .statement <$> statement n
  | .block => .block <$> block (statements n)
  | .typeRef power => .typeRef <$> typeRef n power
  | .expression power => .expression <$> expression n power
  | .chain left power => .expression <$> chain n left power
  | .leading rule => .expression <$> leading (expression n) (items n) rule
  | .trailing rule left power =>
    .expression <$> trailing (expression n) (items n) rule left power
  | .opening rule => .statement <$> opening n (statement n) (statements n) rule
  | .typeLeading rule => .typeRef <$> typeLeading rule
  | .typeTrailing rule left => .typeRef <$> typeTrailing rule left

end Parse

namespace Operation

/-- Performs an operation on a parser. A refusal leaves the parser where the operation got to. -/
def run (o : Operation) : Parser → Option (Except Diagnostic Reply × Parser) :=
  Parse.budgeted fun n => Parse.perform n o

end Operation

end ModuleSyntax
