import ModuleSyntax.Tables
import ModuleSyntax.TokenStream

namespace ModuleSyntax

/-- A place between two tokens of a source: the one ahead, what follows it, and the end of the
one before. -/
structure Parser where
  current : Token
  upcoming : TokenStream
  previousEnd : Position
  tables : Tables

namespace Parser

def start (s : TokenStream) : Except Diagnostic Parser :=
  match s.pull with
  | (.ok t, rest) => .ok ⟨t, rest, .start, .standard⟩
  | (.error d, _) => .error d

def position (p : Parser) : Position := p.current.span.start

def unexpected (p : Parser) (expected : List Kind) : Diagnostic :=
  ⟨.unexpected p.current.kind p.current.value (Kind.listing expected), p.position⟩

/-- Enough calls for every token ahead. -/
def budget (p : Parser) : Nat := 4 * (p.upcoming.tokens.length + 4)

end Parser

/-- A parse that may be refused at any token and keeps the place where it was. It has no answer
if it was allowed too few calls. -/
abbrev Parse (α : Type) := ExceptT Diagnostic (StateT Parser Option) α

namespace Parse

variable {α β : Type}

theorem get_apply (p : Parser) : (get : Parse Parser) p = some (.ok p, p) := rfl

/-- A refusal ends the parse; what has been read before it is not given back. -/
theorem bind_apply (x : Parse α) (f : α → Parse β) (p : Parser) :
    (x >>= f) p =
      match x p with
      | none => none
      | some (.error d, q) => some (.error d, q)
      | some (.ok a, q) => f a q := by
  change (ExceptT.bind x f) p = _
  simp only [ExceptT.bind, ExceptT.mk, ExceptT.bindCont, bind, StateT.bind]
  cases x p with
  | none => rfl
  | some r =>
    obtain ⟨r, q⟩ := r
    cases r <;> rfl

def outOfCalls : Parse α := fun _ => none

def kind : Parse Kind := return (← get).current.kind

def position : Parse Position := return (← get).position

def previousEnd : Parse Position := return (← get).previousEnd

/-- Moves on to the next token and gives the one that it leaves. It stays if there is an error in
the way. -/
def advance : Parse Token := do
  let p ← get
  match p.upcoming.pull with
  | (.ok next, rest) =>
    set { p with current := next, upcoming := rest, previousEnd := p.current.span.stop }
    return p.current
  | (.error d, _) => throw d

theorem advance_apply (p : Parser) :
    advance p =
      match p.upcoming.pull with
      | (.ok next, rest) => some (.ok p.current, ⟨next, rest, p.current.span.stop, p.tables⟩)
      | (.error d, _) => some (.error d, p) := by
  rw [advance, bind_apply, get_apply]
  dsimp only
  split <;> rename_i h <;> rw [h] <;> rfl

def unexpected (expected : List Kind) : Parse α := do
  throw ((← get).unexpected expected)

def expectOneOf (kinds : List Kind) : Parse Token := do
  if kinds.contains (← kind) then advance else unexpected kinds

def expect (k : Kind) : Parse Token := expectOneOf [k]

theorem kind_apply (p : Parser) : kind p = some (.ok p.current.kind, p) := rfl

theorem unexpected_apply (expected : List Kind) (p : Parser) :
    (unexpected expected : Parse α) p = some (.error (p.unexpected expected), p) := rfl

theorem expectOneOf_of_mem {kinds : List Kind} {p : Parser} (h : p.current.kind ∈ kinds) :
    expectOneOf kinds p = advance p := by
  rw [expectOneOf, bind_apply, kind_apply]
  simp [h]

theorem expectOneOf_of_not_mem {kinds : List Kind} {p : Parser} (h : p.current.kind ∉ kinds) :
    expectOneOf kinds p = some (.error (p.unexpected kinds), p) := by
  rw [expectOneOf, bind_apply, kind_apply]
  simp [h, unexpected_apply]

end Parse

end ModuleSyntax
