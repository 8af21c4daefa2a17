import ModuleSyntax.Proofs.Grammar
import ModuleSyntax.Proofs.Motion
import ModuleSyntax.Proofs.Notes

namespace ModuleSyntax.Proofs.Symbols

open Grammar Motion Notes

abbrev Symbol := Kind × String

def symbol (t : Token) : Symbol := (t.kind, t.value)

def isName (text : String) : Bool :=
  match text.toList with
  | [] => false
  | c :: cs => isWordStart c && cs.all isWordPart

/-- The texts that tokens of each kind can have. -/
def Spelled : Symbol → Prop
  | (.eof, text) => text = ""
  | (.intLiteral, text) => text ≠ "" ∧ text.toList.all Char.isDigit
  | (.stringLiteral, text) => '"' ∉ text.toList
  | (.identifier, text) => isName text ∧ Keyword.ofWord? text = none
  | (.mark m, text) => text = m.spelling
  | (.keyword k, text) => text = k.spelling

instance (s : Symbol) : Decidable (Spelled s) := by
  obtain ⟨k, text⟩ := s
  cases k <;> unfold Spelled <;> infer_instance

def sample : Kind → String
  | .eof => ""
  | .intLiteral => "0"
  | .stringLiteral => ""
  | .identifier => "x"
  | .mark m => m.spelling
  | .keyword k => k.spelling

theorem spelled_sample (k : Kind) : Spelled (k, sample k) := by
  cases k with
  | mark m => rfl
  | keyword k => rfl
  | identifier => exact ⟨by decide, by decide⟩
  | intLiteral => exact ⟨by decide, by decide⟩
  | eof => rfl
  | stringLiteral => exact List.not_mem_nil

def typical (k : Kind) : Symbol := (k, sample k)

theorem spelled_typical (k : Kind) : Spelled (typical k) := spelled_sample k

/-- The grammar of tokens, whose nodes are noted with their spans. -/
def tokens : Terminals Token Span := ⟨Token.kind, Token.value, around⟩

/-- The grammar of symbols, whose nodes have no notes. -/
def symbols : Terminals Symbol Unit := ⟨Prod.fst, Prod.snd, fun _ => ()⟩

theorem type_symbols {ts : List Token} {t : TypeRef Span} (h : IsType tokens ts t) :
    IsType symbols (ts.map symbol) (t.mapNote fun _ => ()) := by
  induction h with
  | @primitive t p h => exact IsType.primitive (g := symbols) h
  | @named t h => exact IsType.named (g := symbols) h
  | @array o c ts t ht ho hc ih =>
    rw [List.map_append]
    exact IsType.array ih ho hc

mutual

theorem expression_symbols {l : Power} {ts : List Token} {e : Expression Span} :
    IsExpression tokens l ts e → IsExpression symbols l (ts.map symbol) (e.mapNote fun _ => ())
  | .int h => IsExpression.int (g := symbols) h
  | .string h => IsExpression.string (g := symbols) h
  | .yes h => IsExpression.yes (g := symbols) h
  | .no h => IsExpression.no (g := symbols) h
  | .symbol h => IsExpression.symbol (g := symbols) h
  | .group (o := o) (c := c) ho he hc => by
    rw [mapNote_withNote, List.map_append]
    exact IsExpression.group (g := symbols) (o := symbol o) ho (expression_symbols he) hc
  | .array (o := o) ho hs => by
    rw [Expression.mapNote]
    exact IsExpression.array (g := symbols) (o := symbol o) ho (closed_symbols hs)
  | .call (o := o) hf ho hs => by
    rw [Expression.mapNote, List.map_append]
    exact IsExpression.call (g := symbols) (o := symbol o) (expression_symbols hf) ho
      (closed_symbols hs)
  | .index (o := o) (c := c) hb ho he hc => by
    rw [Expression.mapNote, List.map_append, List.map_append]
    exact IsExpression.index (g := symbols) (o := symbol o) (expression_symbols hb) ho
      (expression_symbols he) hc
  | .emptyIndex (o := o) (c := c) hb ho hc => by
    rw [Expression.mapNote, List.map_append]
    exact IsExpression.emptyIndex (g := symbols) (o := symbol o) (expression_symbols hb) ho hc
  | .negation (o := o) ho he => by
    rw [Expression.mapNote]
    exact IsExpression.negation (g := symbols) (o := symbol o) ho (expression_symbols he)
  | .binary (o := o) ha ho hb => by
    rw [Expression.mapNote, List.map_append]
    exact IsExpression.binary (g := symbols) (o := symbol o) (expression_symbols ha) ho
      (expression_symbols hb)
  | .assignment (o := o) ha ht ho hb => by
    rw [Expression.mapNote, List.map_append]
    exact IsExpression.assignment (g := symbols) (o := symbol o) (expression_symbols ha)
      (assignable_mapNote.2 ht) ho (expression_symbols hb)
  | .looser h he => .looser h (expression_symbols he)

theorem items_symbols {ts : List Token} {es : List (Expression Span)} :
    IsItems tokens ts es →
      IsItems symbols (ts.map symbol) (Expression.mapNotes (fun _ => ()) es)
  | .one he => .one (expression_symbols he)
  | .more he hc hs => by
    rw [List.map_append, Expression.mapNotes]
    exact .more (expression_symbols he) hc (items_symbols hs)

theorem closed_symbols {close : Mark} {ts : List Token} {es : List (Expression Span)} :
    IsClosed tokens close ts es →
      IsClosed symbols close (ts.map symbol) (Expression.mapNotes (fun _ => ()) es)
  | .none hc => IsClosed.none (g := symbols) hc
  | .some hs hc => by
    rw [List.map_append]
    exact .some (items_symbols hs) hc

end

theorem condition_symbols {ts : List Token} {e : Expression Span} (h : IsCondition tokens ts e) :
    IsCondition symbols (ts.map symbol) (e.mapNote fun _ => ()) := by
  cases h with
  | @mk o c ts e ho he hc =>
    rw [List.map_append]
    exact IsCondition.mk (g := symbols) (o := symbol o) ho (expression_symbols he) hc

@[simp] theorem endsOpen_mapNote {α β : Type} (f : α → β) :
    ∀ s : Statement α, endsOpen (s.mapNote f) = endsOpen s
  | .ifElse _ _ no _ => by rw [Statement.mapNote, endsOpen, endsOpen, endsOpen_mapNote f no]
  | .ifThen .. | .variableDecl .. | .whileLoop .. | .breakLoop _ | .returnValue .. | .evaluation ..
  | .block .. => by rw [Statement.mapNote]; rfl

mutual

theorem statement_symbols {ts : List Token} {s : Statement Span} :
    IsStatement tokens ts s → IsStatement symbols (ts.map symbol) (s.mapNote fun _ => ())
  | .block hs => by
    rw [Statement.mapNote]
    exact .block (block_symbols hs)
  | .whileLoop (w := w) hw hc hs => by
    rw [Statement.mapNote, List.map_append]
    exact IsStatement.whileLoop (g := symbols) (w := symbol w) hw (condition_symbols hc)
      (block_symbols hs)
  | .ifThen (w := w) hw hc hs => by
    rw [Statement.mapNote, List.map_append]
    exact IsStatement.ifThen (g := symbols) (w := symbol w) hw (condition_symbols hc)
      (statement_symbols hs)
  | .ifElse (w := w) (e := e) hw hc hs ho he ht => by
    rw [Statement.mapNote, List.map_append, List.map_append]
    exact IsStatement.ifElse (g := symbols) (w := symbol w) (e := symbol e) hw
      (condition_symbols hc) (statement_symbols hs) (by rw [endsOpen_mapNote, ho]) he
      (statement_symbols ht)
  | .breakLoop (w := w) (c := c) hw hc =>
    IsStatement.breakLoop (g := symbols) (w := symbol w) (c := symbol c) hw hc
  | .returnNothing (w := w) (c := c) hw hc =>
    IsStatement.returnNothing (g := symbols) (w := symbol w) (c := symbol c) hw hc
  | .returnValue (w := w) (c := c) hw he hc => by
    rw [Statement.mapNote, List.map_append]
    exact IsStatement.returnValue (g := symbols) (w := symbol w) hw (expression_symbols he) hc
  | .variableDecl (n := n) (c := c) ht hn hc => by
    rw [Statement.mapNote, List.map_append]
    exact IsStatement.variableDecl (g := symbols) (n := symbol n) (type_symbols ht) hn hc
  | .evaluation (c := c) he hc => by
    rw [Statement.mapNote, List.map_append]
    exact IsStatement.evaluation (g := symbols) (expression_symbols he) hc

theorem statements_symbols {ts : List Token} {ss : List (Statement Span)} :
    IsStatements tokens ts ss →
      IsStatements symbols (ts.map symbol) (Statement.mapNotes (fun _ => ()) ss)
  | .nil => .nil
  | .cons hs hr => by
    rw [List.map_append, Statement.mapNotes]
    exact .cons (statement_symbols hs) (statements_symbols hr)

theorem block_symbols {ts : List Token} {ss : List (Statement Span)} :
    IsBlock tokens ts ss →
      IsBlock symbols (ts.map symbol) (Statement.mapNotes (fun _ => ()) ss)
  | .mk (o := o) ho hs hc => by
    rw [List.map_append]
    exact IsBlock.mk (g := symbols) (o := symbol o) ho (statements_symbols hs) hc

end

theorem parameter_symbols {ts : List Token} {p : Parameter Span} (h : IsParameter tokens ts p) :
    IsParameter symbols (ts.map symbol) (p.mapNote fun _ => ()) := by
  cases h with
  | @mk n ts t ht hn =>
    rw [List.map_append]
    exact IsParameter.mk (g := symbols) (n := symbol n) (type_symbols ht) hn

theorem parameters_symbols {ts : List Token} {ps : List (Parameter Span)}
    (h : IsParameters tokens ts ps) :
    IsParameters symbols (ts.map symbol) (ps.map (Parameter.mapNote fun _ => ())) := by
  induction h with
  | one hp => exact .one (parameter_symbols hp)
  | more hp hc hs ih =>
    rw [List.map_append]
    exact .more (parameter_symbols hp) hc ih

theorem signature_symbols {ts : List Token} {ps : List (Parameter Span)}
    (h : IsSignature tokens ts ps) :
    IsSignature symbols (ts.map symbol) (ps.map (Parameter.mapNote fun _ => ())) := by
  cases h with
  | @none c hc => exact IsSignature.none (g := symbols) (c := symbol c) hc
  | some hs hc =>
    rw [List.map_append]
    exact .some (parameters_symbols hs) hc

theorem visibility_symbols {ts : List Token} {v : Bool} (h : IsVisibility tokens ts v) :
    IsVisibility symbols (ts.map symbol) v := by
  cases h with
  | inside => exact .inside
  | @outside t h => exact IsVisibility.outside (g := symbols) (t := symbol t) h

theorem declaration_symbols {ts : List Token} {d : Declaration Span}
    (h : IsDeclaration tokens ts d) :
    IsDeclaration symbols (ts.map symbol) (d.mapNote fun _ => ()) := by
  cases h with
  | @typeAlias w n o s c vs v hv hw hn ho hs hc =>
    rw [List.map_append]
    exact IsDeclaration.typeAlias (g := symbols) (w := symbol w) (n := symbol n) (o := symbol o)
      (s := symbol s) (c := symbol c) (visibility_symbols hv) hw hn ho hs hc
  | @field n c vs ts v t hv ht hn hc =>
    rw [List.map_append, List.map_append]
    exact IsDeclaration.field (g := symbols) (n := symbol n) (c := symbol c)
      (visibility_symbols hv) (type_symbols ht) hn hc
  | @function n o vs ts us bs v t ps ss hv ht hn ho hp hb =>
    rw [List.map_append, List.map_append, List.map_append, Declaration.mapNote, Block.mapNote,
      ← Statement.mapNotes_eq_map]
    exact IsDeclaration.function (g := symbols) (n := symbol n) (o := symbol o)
      (visibility_symbols hv) (type_symbols ht) hn ho (signature_symbols hp) (block_symbols hb)

theorem declarations_symbols {ts : List Token} {ds : List (Declaration Span)}
    (h : IsDeclarations tokens ts ds) :
    IsDeclarations symbols (ts.map symbol) (ds.map (Declaration.mapNote fun _ => ())) := by
  induction h with
  | nil => exact .nil
  | cons hd hr ih =>
    rw [List.map_append]
    exact .cons (declaration_symbols hd) ih

theorem imports_symbols {ts : List Token} {is : List (Import Span)} (h : IsImports tokens ts is) :
    IsImports symbols (ts.map symbol) (is.map (Import.mapNote fun _ => ())) := by
  induction h with
  | nil => exact .nil
  | @cons w n c us is hw hn hc hr ih =>
    exact IsImports.cons (g := symbols) (w := symbol w) (n := symbol n) (c := symbol c) hw hn hc ih

theorem module_symbols {ts : List Token} {m : Module Span} (h : IsModule tokens ts m) :
    IsModule symbols (ts.map symbol) m.erase := by
  cases h with
  | @mk w n o c e is ds imports declarations hw hn ho hi hd hc he =>
    rw [List.map_append, List.map_append]
    exact IsModule.mk (g := symbols) (w := symbol w) (n := symbol n) (o := symbol o)
      (c := symbol c) (e := symbol e) hw hn ho (imports_symbols hi) (declarations_symbols hd) hc he

end ModuleSyntax.Proofs.Symbols
