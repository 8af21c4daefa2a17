import ModuleSyntax.Kind

namespace ModuleSyntax

/-- How tightly an operator holds its operands, from the loosest to the tightest. -/
inductive Power where
  | loosest | assignment | equality | relational | additive | multiplicative | unary | call
  | primary
deriving DecidableEq

namespace Power

def rank : Power → Nat
  | loosest => 0
  | assignment => 1
  | equality => 2
  | relational => 3
  | additive => 4
  | multiplicative => 5
  | unary => 6
  | call => 7
  | primary => 8

instance : LE Power := ⟨fun p q => p.rank ≤ q.rank⟩

instance : LT Power := ⟨fun p q => p.rank < q.rank⟩

instance (p q : Power) : Decidable (p ≤ q) := inferInstanceAs (Decidable (p.rank ≤ q.rank))

instance (p q : Power) : Decidable (p < q) := inferInstanceAs (Decidable (p.rank < q.rank))

protected theorem le_refl (p : Power) : p ≤ p := Nat.le_refl p.rank

protected theorem le_trans {p q r : Power} (h : p ≤ q) (k : q ≤ r) : p ≤ r := Nat.le_trans h k

protected theorem not_le {p q : Power} : ¬ p ≤ q ↔ q < p := Nat.not_le

end Power

/-- How an expression is read that begins with the current token. -/
inductive Leading where
  | atom | negation | grouping | arrayLiteral
deriving DecidableEq

/-- How an expression that has been read goes on with the current token. -/
inductive Trailing where
  | assignment | binary | call | index
deriving DecidableEq

inductive Opening where
  | block | whileLoop | conditional | breakLoop | returnValue | declaration | name
deriving DecidableEq

inductive TypeLeading where
  | primitive | named
deriving DecidableEq

inductive TypeTrailing where
  | array
deriving DecidableEq

/-- What the parser does at a token of each kind. How tightly an operator holds its operands is one
entry with how it is read, as the two are only ever set together: no kind has one without the other,
so that nothing is refused for want of a way to read an operator. -/
structure Tables where
  leading : Kind → Option Leading
  trailing : Kind → Option (Power × Trailing)
  opening : Kind → Option Opening
  typeLeading : Kind → Option TypeLeading
  typeTrailing : Kind → Option (Power × TypeTrailing)

def setEntry {ρ : Type} (table : Kind → Option ρ) (kind : Kind) (entry : ρ) : Kind → Option ρ :=
  fun k => if k = kind then some entry else table k

def entries {ρ : Type} (table : Kind → Option ρ) : List Kind :=
  Kind.all.filter fun k => (table k).isSome

section

variable {ρ : Type} {table : Kind → Option ρ} {kind k : Kind} {entry : ρ}

theorem setEntry_self : setEntry table kind entry kind = some entry := if_pos rfl

theorem setEntry_of_ne (h : k ≠ kind) : setEntry table kind entry k = table k := if_neg h

theorem mem_entries : k ∈ entries table ↔ (table k).isSome := by
  simp [entries, Kind.mem_all]

end

namespace Tables

def standard : Tables where
  leading
    | .intLiteral | .stringLiteral | .identifier | .keyword .trueWord | .keyword .falseWord =>
      some .atom
    | .mark .dash => some .negation
    | .mark .openParen => some .grouping
    | .mark .openBracket => some .arrayLiteral
    | _ => none
  trailing
    | .mark .assignment => some (.assignment, .assignment)
    | .mark .equals | .mark .notEquals => some (.equality, .binary)
    | .mark .less | .mark .lessEquals | .mark .greater | .mark .greaterEquals =>
      some (.relational, .binary)
    | .mark .plus | .mark .dash => some (.additive, .binary)
    | .mark .star | .mark .slash | .mark .percent => some (.multiplicative, .binary)
    | .mark .openParen => some (.call, .call)
    | .mark .openBracket => some (.call, .index)
    | _ => none
  opening
    | .mark .openCurly => some .block
    | .keyword .whileWord => some .whileLoop
    | .keyword .ifWord => some .conditional
    | .keyword .breakWord => some .breakLoop
    | .keyword .returnWord => some .returnValue
    | .keyword .voidWord | .keyword .intWord | .keyword .booleanWord | .keyword .stringWord =>
      some .declaration
    | .identifier => some .name
    | _ => none
  typeLeading
    | .keyword .voidWord | .keyword .intWord | .keyword .booleanWord | .keyword .stringWord =>
      some .primitive
    | .identifier => some .named
    | _ => none
  typeTrailing
    | .mark .openBracket => some (.call, .array)
    | _ => none

end Tables

end ModuleSyntax
