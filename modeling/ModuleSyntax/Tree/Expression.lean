import ModuleSyntax.Kind

namespace ModuleSyntax

inductive BinaryOp where
  | add | subtract | multiply | divide | modulo
  | equals | notEquals | less | lessEquals | greater | greaterEquals
deriving DecidableEq

namespace BinaryOp

def mark : BinaryOp → Mark
  | add => .plus
  | subtract => .dash
  | multiply => .star
  | divide => .slash
  | modulo => .percent
  | equals => .equals
  | notEquals => .notEquals
  | less => .less
  | lessEquals => .lessEquals
  | greater => .greater
  | greaterEquals => .greaterEquals

def ofKind? : Kind → Option BinaryOp
  | .mark .plus => some add
  | .mark .dash => some subtract
  | .mark .star => some multiply
  | .mark .slash => some divide
  | .mark .percent => some modulo
  | .mark .equals => some equals
  | .mark .notEquals => some notEquals
  | .mark .less => some less
  | .mark .lessEquals => some lessEquals
  | .mark .greater => some greater
  | .mark .greaterEquals => some greaterEquals
  | _ => none

theorem ofKind?_eq_some_iff {k : Kind} {o : BinaryOp} :
    ofKind? k = some o ↔ k = .mark o.mark := by
  constructor
  · intro h
    unfold ofKind? at h
    split at h <;> cases h <;> rfl
  · rintro rfl
    cases o <;> rfl

end BinaryOp

/-- Parentheses leave no node of their own. An integer keeps its digits as written. -/
inductive Expression (α : Type) where
  | int (digits : String) (note : α)
  | string (text : String) (note : α)
  | bool (value : Bool) (note : α)
  | symbol (name : String) (note : α)
  | array (elements : List (Expression α)) (note : α)
  | call (callee : Expression α) (arguments : List (Expression α)) (note : α)
  | index (base position : Expression α) (note : α)
  | emptyIndex (base : Expression α) (note : α)
  | assignment (target value : Expression α) (note : α)
  | negation (operand : Expression α) (note : α)
  | binary (op : BinaryOp) (left right : Expression α) (note : α)

namespace Expression

variable {α β : Type}

def note : Expression α → α
  | int _ a | string _ a | bool _ a | symbol _ a | array _ a | call _ _ a | index _ _ a
  | emptyIndex _ a | assignment _ _ a | negation _ a | binary _ _ _ a => a

def withNote (a : α) : Expression α → Expression α
  | int digits _ => int digits a
  | string text _ => string text a
  | bool value _ => bool value a
  | symbol name _ => symbol name a
  | array elements _ => array elements a
  | call callee arguments _ => call callee arguments a
  | index base position _ => index base position a
  | emptyIndex base _ => emptyIndex base a
  | assignment target value _ => assignment target value a
  | negation operand _ => negation operand a
  | binary op left right _ => binary op left right a

/-- Only names and elements of arrays can be assigned to. -/
def isTarget : Expression α → Bool
  | symbol .. | index .. | emptyIndex .. => true
  | _ => false

mutual

def mapNote (f : α → β) : Expression α → Expression β
  | int digits a => int digits (f a)
  | string text a => string text (f a)
  | bool value a => bool value (f a)
  | symbol name a => symbol name (f a)
  | array elements a => array (mapNotes f elements) (f a)
  | call callee arguments a => call (mapNote f callee) (mapNotes f arguments) (f a)
  | index base position a => index (mapNote f base) (mapNote f position) (f a)
  | emptyIndex base a => emptyIndex (mapNote f base) (f a)
  | assignment target value a => assignment (mapNote f target) (mapNote f value) (f a)
  | negation operand a => negation (mapNote f operand) (f a)
  | binary op left right a => binary op (mapNote f left) (mapNote f right) (f a)

def mapNotes (f : α → β) : List (Expression α) → List (Expression β)
  | [] => []
  | e :: es => mapNote f e :: mapNotes f es

end

@[simp] theorem mapNotes_eq_map (f : α → β) (es : List (Expression α)) :
    mapNotes f es = es.map (mapNote f) := by
  induction es with
  | nil => rfl
  | cons e es ih => rw [mapNotes, ih, List.map_cons]

@[simp] theorem note_mapNote (f : α → β) (e : Expression α) : (e.mapNote f).note = f e.note := by
  cases e <;> simp [mapNote, note]

@[simp] theorem note_withNote (a : α) (e : Expression α) : (e.withNote a).note = a := by
  cases e <;> rfl

@[simp] theorem isTarget_mapNote (f : α → β) (e : Expression α) :
    (e.mapNote f).isTarget = e.isTarget := by
  cases e <;> simp [mapNote, isTarget]

end Expression

def int64? (digits : String) : Option Nat :=
  let value := digits.toList.foldl (fun n c => 10 * n + (c.toNat - '0'.toNat)) 0
  if value < Nat.pow 2 63 then some value else none

end ModuleSyntax
