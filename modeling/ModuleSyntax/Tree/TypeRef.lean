import ModuleSyntax.Kind

namespace ModuleSyntax

inductive Primitive where
  | void | int | boolean | string
deriving DecidableEq

namespace Primitive

def keyword : Primitive → Keyword
  | void => .voidWord
  | int => .intWord
  | boolean => .booleanWord
  | string => .stringWord

def ofKind? : Kind → Option Primitive
  | .keyword .voidWord => some void
  | .keyword .intWord => some int
  | .keyword .booleanWord => some boolean
  | .keyword .stringWord => some string
  | _ => none

theorem ofKind?_eq_some_iff {k : Kind} {p : Primitive} :
    ofKind? k = some p ↔ k = .keyword p.keyword := by
  constructor
  · intro h
    unfold ofKind? at h
    split at h <;> cases h <;> rfl
  · rintro rfl
    cases p <;> rfl

end Primitive

inductive TypeBase where
  | primitive (type : Primitive)
  | named (name : String)
deriving DecidableEq

/-- A base type and the number of array brackets after it. Every part of a tree carries a note:
the piece of source it was read from, or nothing. -/
structure TypeRef (α : Type) where
  base : TypeBase
  depth : Nat
  note : α
deriving DecidableEq

namespace TypeBase

def shown : TypeBase → String
  | primitive p => p.keyword.spelling
  | named name => name

end TypeBase

namespace TypeRef

variable {α β : Type}

def isArray (t : TypeRef α) : Bool := 0 < t.depth

def shown (t : TypeRef α) : String :=
  t.base.shown ++ String.join (List.replicate t.depth "[]")

def mapNote (f : α → β) (t : TypeRef α) : TypeRef β := ⟨t.base, t.depth, f t.note⟩

end TypeRef

end ModuleSyntax
