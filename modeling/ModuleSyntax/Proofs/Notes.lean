import ModuleSyntax.Tree.Module

namespace ModuleSyntax.Proofs.Notes

variable {α β γ : Type}

section

variable (f : α → β) (g : β → γ)

mutual

theorem expression_mapNote_mapNote :
    ∀ e : Expression α, (e.mapNote f).mapNote g = e.mapNote fun a => g (f a)
  | .int _ _ | .string _ _ | .bool _ _ | .symbol _ _ => rfl
  | .array es _ => by
    rw [Expression.mapNote, Expression.mapNote, Expression.mapNote, expressions_mapNotes es]
  | .call e es _ => by
    rw [Expression.mapNote, Expression.mapNote, Expression.mapNote,
      expression_mapNote_mapNote e, expressions_mapNotes es]
  | .index a b _ | .assignment a b _ | .binary _ a b _ => by
    rw [Expression.mapNote, Expression.mapNote, Expression.mapNote,
      expression_mapNote_mapNote a, expression_mapNote_mapNote b]
  | .emptyIndex a _ | .negation a _ => by
    rw [Expression.mapNote, Expression.mapNote, Expression.mapNote, expression_mapNote_mapNote a]

theorem expressions_mapNotes : ∀ es : List (Expression α),
    Expression.mapNotes g (Expression.mapNotes f es) = Expression.mapNotes (fun a => g (f a)) es
  | [] => rfl
  | e :: es => by
    rw [Expression.mapNotes, Expression.mapNotes, Expression.mapNotes,
      expression_mapNote_mapNote e, expressions_mapNotes es]

end

theorem mapNote_withNote (a : α) (e : Expression α) :
    (e.withNote a).mapNote f = (e.mapNote f).withNote (f a) := by
  cases e <;> simp only [Expression.withNote, Expression.mapNote]

theorem typeRef_mapNote_mapNote (t : TypeRef α) :
    (t.mapNote f).mapNote g = t.mapNote fun a => g (f a) := rfl

mutual

theorem statement_mapNote_mapNote :
    ∀ s : Statement α, (s.mapNote f).mapNote g = s.mapNote fun a => g (f a)
  | .variableDecl _ _ _ | .breakLoop _ => rfl
  | .whileLoop c ss _ _ => by
    rw [Statement.mapNote, Statement.mapNote, Statement.mapNote, expression_mapNote_mapNote,
      statements_mapNotes ss]
  | .ifThen c s _ => by
    rw [Statement.mapNote, Statement.mapNote, Statement.mapNote, expression_mapNote_mapNote,
      statement_mapNote_mapNote s]
  | .ifElse c s t _ => by
    rw [Statement.mapNote, Statement.mapNote, Statement.mapNote, expression_mapNote_mapNote,
      statement_mapNote_mapNote s, statement_mapNote_mapNote t]
  | .returnValue none _ => rfl
  | .returnValue (some e) _ | .evaluation e _ => by
    simp only [Statement.mapNote, Option.map_some, expression_mapNote_mapNote]
  | .block ss _ => by
    rw [Statement.mapNote, Statement.mapNote, Statement.mapNote, statements_mapNotes ss]

theorem statements_mapNotes : ∀ ss : List (Statement α),
    Statement.mapNotes g (Statement.mapNotes f ss) = Statement.mapNotes (fun a => g (f a)) ss
  | [] => rfl
  | s :: ss => by
    rw [Statement.mapNotes, Statement.mapNotes, Statement.mapNotes,
      statement_mapNote_mapNote s, statements_mapNotes ss]

end

theorem block_mapNote_mapNote (b : Block α) :
    (b.mapNote f).mapNote g = b.mapNote fun a => g (f a) := by
  simp only [Block.mapNote, List.map_map, Block.mk.injEq, and_true]
  exact List.map_congr_left fun s _ => statement_mapNote_mapNote f g s

theorem declaration_mapNote_mapNote (d : Declaration α) :
    (d.mapNote f).mapNote g = d.mapNote fun a => g (f a) := by
  cases d with
  | function p t name ps b a =>
    simp only [Declaration.mapNote, List.map_map, typeRef_mapNote_mapNote, block_mapNote_mapNote]
    rfl
  | _ => rfl

theorem module_mapNote_mapNote (m : Module α) :
    (m.mapNote f).mapNote g = m.mapNote fun a => g (f a) := by
  simp only [Module.mapNote, List.map_map, Module.mk.injEq, and_true, true_and]
  refine ⟨List.map_congr_left fun i _ => rfl, List.map_congr_left fun d _ => ?_⟩
  exact declaration_mapNote_mapNote f g d

end

mutual

theorem expression_mapNote_id : ∀ e : Expression α, (e.mapNote fun a => a) = e
  | .int _ _ | .string _ _ | .bool _ _ | .symbol _ _ => rfl
  | .array es _ => by rw [Expression.mapNote, expressions_mapNotes_id es]
  | .call e es _ => by
    rw [Expression.mapNote, expression_mapNote_id e, expressions_mapNotes_id es]
  | .index a b _ | .assignment a b _ | .binary _ a b _ => by
    rw [Expression.mapNote, expression_mapNote_id a, expression_mapNote_id b]
  | .emptyIndex a _ | .negation a _ => by rw [Expression.mapNote, expression_mapNote_id a]

theorem expressions_mapNotes_id :
    ∀ es : List (Expression α), (Expression.mapNotes (fun a => a) es) = es
  | [] => rfl
  | e :: es => by
    rw [Expression.mapNotes, expression_mapNote_id e, expressions_mapNotes_id es]

end

mutual

theorem statement_mapNote_id : ∀ s : Statement α, (s.mapNote fun a => a) = s
  | .variableDecl _ _ _ | .breakLoop _ | .returnValue none _ => rfl
  | .whileLoop c ss _ _ => by
    rw [Statement.mapNote, expression_mapNote_id, statements_mapNotes_id ss]
  | .ifThen c s _ => by rw [Statement.mapNote, expression_mapNote_id, statement_mapNote_id s]
  | .ifElse c s t _ => by
    rw [Statement.mapNote, expression_mapNote_id, statement_mapNote_id s, statement_mapNote_id t]
  | .returnValue (some e) _ | .evaluation e _ => by
    simp only [Statement.mapNote, Option.map_some, expression_mapNote_id]
  | .block ss _ => by rw [Statement.mapNote, statements_mapNotes_id ss]

theorem statements_mapNotes_id :
    ∀ ss : List (Statement α), (Statement.mapNotes (fun a => a) ss) = ss
  | [] => rfl
  | s :: ss => by rw [Statement.mapNotes, statement_mapNote_id s, statements_mapNotes_id ss]

end

theorem block_mapNote_id (b : Block α) : (b.mapNote fun a => a) = b := by
  obtain ⟨ss, a⟩ := b
  rw [Block.mapNote, ← Statement.mapNotes_eq_map, statements_mapNotes_id]

theorem declaration_mapNote_id (d : Declaration α) : (d.mapNote fun a => a) = d := by
  cases d with
  | function p t name ps b a =>
    rw [Declaration.mapNote, block_mapNote_id]
    congr 1
    exact List.map_id' ps
  | _ => rfl

theorem module_mapNote_id (m : Module α) : (m.mapNote fun a => a) = m := by
  obtain ⟨name, is, ds, a⟩ := m
  simp only [Module.mapNote, Module.mk.injEq, and_true, true_and]
  refine ⟨List.map_id' is, ?_⟩
  rw [List.map_congr_left fun d _ => declaration_mapNote_id d, List.map_id']

section

variable {f : α → β} {g : β → α} (h : ∀ a, g (f a) = a)

include h

theorem expression_inj {a b : Expression α} (hab : a.mapNote f = b.mapNote f) : a = b := by
  have hg := congrArg (Expression.mapNote g) hab
  rwa [expression_mapNote_mapNote, expression_mapNote_mapNote, funext h, expression_mapNote_id,
    expression_mapNote_id] at hg

theorem statement_inj {a b : Statement α} (hab : a.mapNote f = b.mapNote f) : a = b := by
  have hg := congrArg (Statement.mapNote g) hab
  rwa [statement_mapNote_mapNote, statement_mapNote_mapNote, funext h, statement_mapNote_id,
    statement_mapNote_id] at hg

theorem typeRef_inj {s t : TypeRef α} (hst : s.mapNote f = t.mapNote f) : s = t := by
  have hg := congrArg (TypeRef.mapNote g) hst
  rwa [typeRef_mapNote_mapNote, typeRef_mapNote_mapNote, funext h] at hg

theorem block_inj {a b : Block α} (hab : a.mapNote f = b.mapNote f) : a = b := by
  have hg := congrArg (Block.mapNote g) hab
  rwa [block_mapNote_mapNote, block_mapNote_mapNote, funext h, block_mapNote_id,
    block_mapNote_id] at hg

theorem import_inj {i j : Import α} (hij : i.mapNote f = j.mapNote f) : i = j := by
  have hg := congrArg (Import.mapNote g) hij
  simpa only [Import.mapNote, h] using hg

theorem declaration_inj {a b : Declaration α} (hab : a.mapNote f = b.mapNote f) : a = b := by
  have hg := congrArg (Declaration.mapNote g) hab
  rwa [declaration_mapNote_mapNote, declaration_mapNote_mapNote, funext h, declaration_mapNote_id,
    declaration_mapNote_id] at hg

theorem module_inj {a b : Module α} (hab : a.mapNote f = b.mapNote f) : a = b := by
  have hg := congrArg (Module.mapNote g) hab
  rwa [module_mapNote_mapNote, module_mapNote_mapNote, funext h, module_mapNote_id,
    module_mapNote_id] at hg

end

theorem withNote_unit (e : Expression Unit) : e.withNote () = e := by
  cases e <;> rfl

end ModuleSyntax.Proofs.Notes
