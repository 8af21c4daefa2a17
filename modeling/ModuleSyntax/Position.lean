namespace ModuleSyntax

/-- A place in a text, counted from zero. Both counters are 32-bit words and wrap. -/
structure Position where
  line : UInt32
  column : UInt32
deriving DecidableEq, Ord

namespace Position

def start : Position := ⟨0, 0⟩

/-- The place after a character. Only a line feed begins a new line. -/
def after (p : Position) (c : Char) : Position :=
  if c = '\n' then ⟨p.line + 1, 0⟩ else ⟨p.line, p.column + 1⟩

def afterText (p : Position) (text : List Char) : Position :=
  text.foldl after p

@[simp] theorem afterText_nil (p : Position) : p.afterText [] = p := rfl

@[simp] theorem afterText_cons (p : Position) (c : Char) (text : List Char) :
    p.afterText (c :: text) = (p.after c).afterText text := rfl

@[simp] theorem afterText_append (p : Position) (s t : List Char) :
    p.afterText (s ++ t) = (p.afterText s).afterText t := List.foldl_append

def shown (p : Position) : String :=
  toString (p.line + 1) ++ ":" ++ toString (p.column + 1)

end Position

structure Span where
  start : Position
  stop : Position
deriving DecidableEq

end ModuleSyntax
