import ModuleSyntax.Tree.Module

namespace ModuleSyntax.Proofs.Nodes

variable {α β : Type}

inductive Node (α : Type) where
  | module (m : Module α)
  | importLine (i : Import α)
  | declaration (d : Declaration α)
  | parameter (p : Parameter α)
  | type (t : TypeRef α)
  | block (b : Block α)
  | statement (s : Statement α)
  | expression (e : Expression α)

namespace Node

def note : Node α → α
  | module m => m.note
  | importLine i => i.note
  | declaration d => d.note
  | parameter p => p.note
  | type t => t.note
  | block b => b.note
  | statement s => s.note
  | expression e => e.note

def mapNote (f : α → β) : Node α → Node β
  | module m => module (m.mapNote f)
  | importLine i => importLine (i.mapNote f)
  | declaration d => declaration (d.mapNote f)
  | parameter p => parameter (p.mapNote f)
  | type t => type (t.mapNote f)
  | block b => block (b.mapNote f)
  | statement s => statement (s.mapNote f)
  | expression e => expression (e.mapNote f)

end Node

def operands : Expression α → List (Expression α)
  | .int .. | .string .. | .bool .. | .symbol .. => []
  | .array es _ => es
  | .call e es _ => e :: es
  | .index a b _ | .assignment a b _ | .binary _ a b _ => [a, b]
  | .emptyIndex a _ | .negation a _ => [a]

/-- The nodes right inside a statement. The body of a loop is a block, and so is a statement that
is nothing but one. -/
def clauses : Statement α → List (Node α)
  | .variableDecl t _ _ => [.type t]
  | .whileLoop c ss b _ => [.expression c, .block ⟨ss, b⟩]
  | .ifThen c s _ => [.expression c, .statement s]
  | .ifElse c s t _ => [.expression c, .statement s, .statement t]
  | .breakLoop _ => []
  | .returnValue e _ => e.toList.map .expression
  | .evaluation e _ => [.expression e]
  | .block ss a => [.block ⟨ss, a⟩]

def components : Declaration α → List (Node α)
  | .field _ t _ _ => [.type t]
  | .typeAlias .. => []
  | .function _ t _ ps b _ => [.type t] ++ ps.map .parameter ++ [.block b]

namespace Node

def children : Node α → List (Node α)
  | module m => m.imports.map importLine ++ m.declarations.map declaration
  | importLine _ | type _ => []
  | declaration d => components d
  | parameter p => [type p.type]
  | block b => b.body.map statement
  | statement s => clauses s
  | expression e => (operands e).map expression

end Node

inductive Inside (root : Node α) : Node α → Prop
  | root : Inside root root
  | child {n c : Node α} (h : Inside root n) (hc : c ∈ n.children) : Inside root c

@[simp] theorem operands_withNote (a : α) (e : Expression α) :
    operands (e.withNote a) = operands e := by
  cases e <;> rfl

@[simp] theorem note_mapNote (f : α → β) (n : Node α) : (n.mapNote f).note = f n.note := by
  cases n with
  | declaration d => cases d <;> rfl
  | statement s => exact Statement.note_mapNote f s
  | expression e => exact Expression.note_mapNote f e
  | _ => rfl

theorem operands_mapNote (f : α → β) (e : Expression α) :
    operands (e.mapNote f) = (operands e).map (Expression.mapNote f) := by
  cases e <;> simp [operands, Expression.mapNote]

theorem clauses_mapNote (f : α → β) (s : Statement α) :
    clauses (s.mapNote f) = (clauses s).map (Node.mapNote f) := by
  cases s with
  | returnValue e a => cases e <;> simp [clauses, Statement.mapNote, Node.mapNote]
  | _ => simp [clauses, Statement.mapNote, Node.mapNote, Block.mapNote]

theorem components_mapNote (f : α → β) (d : Declaration α) :
    components (d.mapNote f) = (components d).map (Node.mapNote f) := by
  cases d <;> simp [components, Declaration.mapNote, Node.mapNote, Function.comp_def]

theorem children_mapNote (f : α → β) (n : Node α) :
    (n.mapNote f).children = n.children.map (Node.mapNote f) := by
  cases n with
  | declaration d => exact components_mapNote f d
  | statement s => exact clauses_mapNote f s
  | expression e =>
    rw [Node.mapNote, Node.children, Node.children, operands_mapNote, List.map_map, List.map_map]
    rfl
  | _ => simp [Node.children, Node.mapNote, Module.mapNote, Parameter.mapNote, Block.mapNote,
      Function.comp_def]

theorem inside_mapNote {f : α → β} {root : Node α} {y : Node β}
    (h : Inside (root.mapNote f) y) : ∃ x, Inside root x ∧ y = x.mapNote f := by
  induction h with
  | root => exact ⟨root, .root, rfl⟩
  | child h hc ih =>
    obtain ⟨x, hx, rfl⟩ := ih
    rw [children_mapNote] at hc
    obtain ⟨c, hcx, rfl⟩ := List.mem_map.1 hc
    exact ⟨c, .child hx hcx, rfl⟩

end ModuleSyntax.Proofs.Nodes
