import ModuleSyntax.Tree.Statement

namespace ModuleSyntax

structure Import (α : Type) where
  name : String
  note : α

structure Parameter (α : Type) where
  type : TypeRef α
  name : String
  note : α

inductive Declaration (α : Type) where
  | field (isPublic : Bool) (type : TypeRef α) (name : String) (note : α)
  | typeAlias (isPublic : Bool) (name literal : String) (note : α)
  | function (isPublic : Bool) (returns : TypeRef α) (name : String)
      (parameters : List (Parameter α)) (body : Block α) (note : α)

structure Module (α : Type) where
  name : String
  imports : List (Import α)
  declarations : List (Declaration α)
  note : α

variable {α β : Type}

namespace Import

def mapNote (f : α → β) (i : Import α) : Import β := ⟨i.name, f i.note⟩

end Import

namespace Parameter

def mapNote (f : α → β) (p : Parameter α) : Parameter β := ⟨p.type.mapNote f, p.name, f p.note⟩

end Parameter

namespace Declaration

def name : Declaration α → String
  | field _ _ name _ | typeAlias _ name _ _ | function _ _ name _ _ _ => name

def isPublic : Declaration α → Bool
  | field p .. | typeAlias p .. | function p .. => p

def note : Declaration α → α
  | field _ _ _ a | typeAlias _ _ _ a | function _ _ _ _ _ a => a

def mapNote (f : α → β) : Declaration α → Declaration β
  | field isPublic type name a => field isPublic (type.mapNote f) name (f a)
  | typeAlias isPublic name literal a => typeAlias isPublic name literal (f a)
  | function isPublic returns name parameters body a =>
    function isPublic (returns.mapNote f) name (parameters.map (Parameter.mapNote f))
      (body.mapNote f) (f a)

end Declaration

namespace Module

def mapNote (f : α → β) (m : Module α) : Module β :=
  ⟨m.name, m.imports.map (Import.mapNote f), m.declarations.map (Declaration.mapNote f), f m.note⟩

/-- A module without its notes: what it says, wherever and however it was written. -/
def erase (m : Module α) : Module Unit := m.mapNote fun _ => ()

end Module

end ModuleSyntax
