import ModuleSyntax.Tree.Expression
import ModuleSyntax.Tree.TypeRef

namespace ModuleSyntax

/-- The body of a loop has a note of its own beside that of the loop. -/
inductive Statement (α : Type) where
  | variableDecl (type : TypeRef α) (name : String) (note : α)
  | whileLoop (condition : Expression α) (body : List (Statement α)) (bodyNote : α) (note : α)
  | ifThen (condition : Expression α) (yes : Statement α) (note : α)
  | ifElse (condition : Expression α) (yes no : Statement α) (note : α)
  | breakLoop (note : α)
  | returnValue (value : Option (Expression α)) (note : α)
  | evaluation (expression : Expression α) (note : α)
  | block (body : List (Statement α)) (note : α)

structure Block (α : Type) where
  body : List (Statement α)
  note : α

namespace Statement

variable {α β : Type}

def note : Statement α → α
  | variableDecl _ _ a | whileLoop _ _ _ a | ifThen _ _ a | ifElse _ _ _ a | breakLoop a
  | returnValue _ a | evaluation _ a | block _ a => a

mutual

def mapNote (f : α → β) : Statement α → Statement β
  | variableDecl type name a => variableDecl (type.mapNote f) name (f a)
  | whileLoop condition body b a =>
    whileLoop (condition.mapNote f) (mapNotes f body) (f b) (f a)
  | ifThen condition yes a => ifThen (condition.mapNote f) (mapNote f yes) (f a)
  | ifElse condition yes no a =>
    ifElse (condition.mapNote f) (mapNote f yes) (mapNote f no) (f a)
  | breakLoop a => breakLoop (f a)
  | returnValue value a => returnValue (value.map (Expression.mapNote f)) (f a)
  | evaluation expression a => evaluation (expression.mapNote f) (f a)
  | block body a => block (mapNotes f body) (f a)

def mapNotes (f : α → β) : List (Statement α) → List (Statement β)
  | [] => []
  | s :: ss => mapNote f s :: mapNotes f ss

end

@[simp] theorem mapNotes_eq_map (f : α → β) (ss : List (Statement α)) :
    mapNotes f ss = ss.map (mapNote f) := by
  induction ss with
  | nil => rfl
  | cons s ss ih => rw [mapNotes, ih, List.map_cons]

@[simp] theorem note_mapNote (f : α → β) (s : Statement α) : (s.mapNote f).note = f s.note := by
  cases s <;> simp [mapNote, note]

end Statement

namespace Block

variable {α β : Type}

def mapNote (f : α → β) (b : Block α) : Block β := ⟨b.body.map (Statement.mapNote f), f b.note⟩

end Block

end ModuleSyntax
