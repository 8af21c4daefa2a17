import ModuleSyntax.Tables
import ModuleSyntax.Token
import ModuleSyntax.Tree.Module

namespace ModuleSyntax.Proofs.Grammar

variable {τ α : Type}

/-- What a grammar reads from its terminals: a kind and a text, and the note of a node from the
terminals that it stands for. -/
structure Terminals (τ α : Type) where
  kind : τ → Kind
  text : τ → String
  note : List τ → α

/-- The next tighter level of operands. The operand of a sign is again one with a sign. -/
def tighter : Power → Power
  | .loosest => .assignment
  | .assignment => .equality
  | .equality => .relational
  | .relational => .additive
  | .additive => .multiplicative
  | _ => .unary

def power : BinaryOp → Power
  | .equals | .notEquals => .equality
  | .less | .lessEquals | .greater | .greaterEquals => .relational
  | .add | .subtract => .additive
  | .multiply | .divide | .modulo => .multiplicative

/-- Names and elements of arrays, which can be assigned to. -/
inductive Assignable : Expression α → Prop
  | symbol (name : String) (note : α) : Assignable (.symbol name note)
  | index (base position : Expression α) (note : α) : Assignable (.index base position note)
  | emptyIndex (base : Expression α) (note : α) : Assignable (.emptyIndex base note)

theorem isTarget_iff {e : Expression α} : e.isTarget ↔ Assignable e := by
  constructor
  · intro h
    cases e with
    | symbol name note => exact .symbol name note
    | index base position note => exact .index base position note
    | emptyIndex base note => exact .emptyIndex base note
    | _ => cases h
  · rintro (_ | _ | _) <;> rfl

instance (e : Expression α) : Decidable (Assignable e) := decidable_of_iff _ isTarget_iff

theorem assignable_mapNote {β : Type} {φ : α → β} {e : Expression α} :
    Assignable (e.mapNote φ) ↔ Assignable e := by
  rw [← isTarget_iff, Expression.isTarget_mapNote, isTarget_iff]

variable (g : Terminals τ α)

inductive IsType : List τ → TypeRef α → Prop
  | primitive {t : τ} {p : Primitive} (h : g.kind t = .keyword p.keyword) :
      IsType [t] ⟨.primitive p, 0, g.note [t]⟩
  | named {t : τ} (h : g.kind t = .identifier) : IsType [t] ⟨.named (g.text t), 0, g.note [t]⟩
  | array {o c : τ} {ts : List τ} {t : TypeRef α} (ht : IsType ts t)
      (ho : g.kind o = .mark .openBracket) (hc : g.kind c = .mark .closeBracket) :
      IsType (ts ++ [o, c]) ⟨t.base, t.depth + 1, g.note (ts ++ [o, c])⟩

mutual

/-- Expressions by level. A tighter one may stand where a looser one is asked for, and parentheses
make any expression primary. -/
inductive IsExpression : Power → List τ → Expression α → Prop
  | int {t : τ} (h : g.kind t = .intLiteral) :
      IsExpression .primary [t] (.int (g.text t) (g.note [t]))
  | string {t : τ} (h : g.kind t = .stringLiteral) :
      IsExpression .primary [t] (.string (g.text t) (g.note [t]))
  | yes {t : τ} (h : g.kind t = .keyword .trueWord) :
      IsExpression .primary [t] (.bool true (g.note [t]))
  | no {t : τ} (h : g.kind t = .keyword .falseWord) :
      IsExpression .primary [t] (.bool false (g.note [t]))
  | symbol {t : τ} (h : g.kind t = .identifier) :
      IsExpression .primary [t] (.symbol (g.text t) (g.note [t]))
  | group {o c : τ} {ts : List τ} {e : Expression α} (ho : g.kind o = .mark .openParen)
      (he : IsExpression .assignment ts e) (hc : g.kind c = .mark .closeParen) :
      IsExpression .primary (o :: ts ++ [c]) (e.withNote (g.note (o :: ts ++ [c])))
  | array {o : τ} {ts : List τ} {es : List (Expression α)} (ho : g.kind o = .mark .openBracket)
      (hs : IsClosed .closeBracket ts es) :
      IsExpression .primary (o :: ts) (.array es (g.note (o :: ts)))
  | call {o : τ} {fs ts : List τ} {f : Expression α} {es : List (Expression α)}
      (hf : IsExpression .call fs f) (ho : g.kind o = .mark .openParen)
      (hs : IsClosed .closeParen ts es) :
      IsExpression .call (fs ++ o :: ts) (.call f es (g.note (fs ++ o :: ts)))
  | index {o c : τ} {bs ts : List τ} {b e : Expression α} (hb : IsExpression .call bs b)
      (ho : g.kind o = .mark .openBracket) (he : IsExpression .assignment ts e)
      (hc : g.kind c = .mark .closeBracket) :
      IsExpression .call (bs ++ o :: ts ++ [c]) (.index b e (g.note (bs ++ o :: ts ++ [c])))
  | emptyIndex {o c : τ} {bs : List τ} {b : Expression α} (hb : IsExpression .call bs b)
      (ho : g.kind o = .mark .openBracket) (hc : g.kind c = .mark .closeBracket) :
      IsExpression .call (bs ++ [o, c]) (.emptyIndex b (g.note (bs ++ [o, c])))
  | negation {o : τ} {ts : List τ} {e : Expression α} (ho : g.kind o = .mark .dash)
      (he : IsExpression .unary ts e) :
      IsExpression .unary (o :: ts) (.negation e (g.note (o :: ts)))
  | binary {o : τ} {op : BinaryOp} {ls rs : List τ} {a b : Expression α}
      (ha : IsExpression (power op) ls a) (ho : g.kind o = .mark op.mark)
      (hb : IsExpression (tighter (power op)) rs b) :
      IsExpression (power op) (ls ++ o :: rs) (.binary op a b (g.note (ls ++ o :: rs)))
  | assignment {o : τ} {ls rs : List τ} {a b : Expression α} (ha : IsExpression .equality ls a)
      (ht : Assignable a) (ho : g.kind o = .mark .assignment) (hb : IsExpression .assignment rs b) :
      IsExpression .assignment (ls ++ o :: rs) (.assignment a b (g.note (ls ++ o :: rs)))
  | looser {l m : Power} {ts : List τ} {e : Expression α} (h : l ≤ m) (he : IsExpression m ts e) :
      IsExpression l ts e

inductive IsItems : List τ → List (Expression α) → Prop
  | one {ts : List τ} {e : Expression α} (he : IsExpression .assignment ts e) : IsItems ts [e]
  | more {c : τ} {ts us : List τ} {e : Expression α} {es : List (Expression α)}
      (he : IsExpression .assignment ts e) (hc : g.kind c = .mark .comma) (hs : IsItems us es) :
      IsItems (ts ++ c :: us) (e :: es)

inductive IsClosed : Mark → List τ → List (Expression α) → Prop
  | none {c : τ} {close : Mark} (hc : g.kind c = .mark close) : IsClosed close [c] []
  | some {c : τ} {close : Mark} {ts : List τ} {es : List (Expression α)} (hs : IsItems ts es)
      (hc : g.kind c = .mark close) : IsClosed close (ts ++ [c]) es

end

/-- An `else` after the statement would belong to an `if` inside it. -/
def endsOpen : Statement α → Bool
  | .ifThen .. => true
  | .ifElse _ _ no _ => endsOpen no
  | _ => false

inductive IsCondition : List τ → Expression α → Prop
  | mk {o c : τ} {ts : List τ} {e : Expression α} (ho : g.kind o = .mark .openParen)
      (he : IsExpression g .assignment ts e) (hc : g.kind c = .mark .closeParen) :
      IsCondition (o :: ts ++ [c]) e

mutual

inductive IsStatement : List τ → Statement α → Prop
  | block {ts : List τ} {ss : List (Statement α)} (hs : IsBlock ts ss) :
      IsStatement ts (.block ss (g.note ts))
  | whileLoop {w : τ} {cs ts : List τ} {c : Expression α} {ss : List (Statement α)}
      (hw : g.kind w = .keyword .whileWord) (hc : IsCondition g cs c) (hs : IsBlock ts ss) :
      IsStatement (w :: cs ++ ts) (.whileLoop c ss (g.note ts) (g.note (w :: cs ++ ts)))
  | ifThen {w : τ} {cs ts : List τ} {c : Expression α} {s : Statement α}
      (hw : g.kind w = .keyword .ifWord) (hc : IsCondition g cs c) (hs : IsStatement ts s) :
      IsStatement (w :: cs ++ ts) (.ifThen c s (g.note (w :: cs ++ ts)))
  | ifElse {w e : τ} {cs ts us : List τ} {c : Expression α} {s t : Statement α}
      (hw : g.kind w = .keyword .ifWord) (hc : IsCondition g cs c) (hs : IsStatement ts s)
      (ho : endsOpen s = false) (he : g.kind e = .keyword .elseWord) (ht : IsStatement us t) :
      IsStatement (w :: cs ++ ts ++ e :: us) (.ifElse c s t (g.note (w :: cs ++ ts ++ e :: us)))
  | breakLoop {w c : τ} (hw : g.kind w = .keyword .breakWord)
      (hc : g.kind c = .mark .semicolon) : IsStatement [w, c] (.breakLoop (g.note [w, c]))
  | returnNothing {w c : τ} (hw : g.kind w = .keyword .returnWord)
      (hc : g.kind c = .mark .semicolon) :
      IsStatement [w, c] (.returnValue none (g.note [w, c]))
  | returnValue {w c : τ} {ts : List τ} {e : Expression α} (hw : g.kind w = .keyword .returnWord)
      (he : IsExpression g .assignment ts e) (hc : g.kind c = .mark .semicolon) :
      IsStatement (w :: ts ++ [c]) (.returnValue (some e) (g.note (w :: ts ++ [c])))
  | variableDecl {n c : τ} {ts : List τ} {t : TypeRef α} (ht : IsType g ts t)
      (hn : g.kind n = .identifier) (hc : g.kind c = .mark .semicolon) :
      IsStatement (ts ++ [n, c]) (.variableDecl t (g.text n) (g.note (ts ++ [n, c])))
  | evaluation {c : τ} {ts : List τ} {e : Expression α} (he : IsExpression g .assignment ts e)
      (hc : g.kind c = .mark .semicolon) :
      IsStatement (ts ++ [c]) (.evaluation e (g.note (ts ++ [c])))

inductive IsStatements : List τ → List (Statement α) → Prop
  | nil : IsStatements [] []
  | cons {ts us : List τ} {s : Statement α} {ss : List (Statement α)} (hs : IsStatement ts s)
      (hr : IsStatements us ss) : IsStatements (ts ++ us) (s :: ss)

inductive IsBlock : List τ → List (Statement α) → Prop
  | mk {o c : τ} {ts : List τ} {ss : List (Statement α)} (ho : g.kind o = .mark .openCurly)
      (hs : IsStatements ts ss) (hc : g.kind c = .mark .closeCurly) : IsBlock (o :: ts ++ [c]) ss

end

inductive IsParameter : List τ → Parameter α → Prop
  | mk {n : τ} {ts : List τ} {t : TypeRef α} (ht : IsType g ts t) (hn : g.kind n = .identifier) :
      IsParameter (ts ++ [n]) ⟨t, g.text n, g.note (ts ++ [n])⟩

inductive IsParameters : List τ → List (Parameter α) → Prop
  | one {ts : List τ} {p : Parameter α} (hp : IsParameter g ts p) : IsParameters ts [p]
  | more {c : τ} {ts us : List τ} {p : Parameter α} {ps : List (Parameter α)}
      (hp : IsParameter g ts p) (hc : g.kind c = .mark .comma) (hs : IsParameters us ps) :
      IsParameters (ts ++ c :: us) (p :: ps)

inductive IsSignature : List τ → List (Parameter α) → Prop
  | none {c : τ} (hc : g.kind c = .mark .closeParen) : IsSignature [c] []
  | some {c : τ} {ts : List τ} {ps : List (Parameter α)} (hs : IsParameters g ts ps)
      (hc : g.kind c = .mark .closeParen) : IsSignature (ts ++ [c]) ps

inductive IsVisibility : List τ → Bool → Prop
  | inside : IsVisibility [] false
  | outside {t : τ} (h : g.kind t = .keyword .publicWord) : IsVisibility [t] true

inductive IsDeclaration : List τ → Declaration α → Prop
  | typeAlias {w n o s c : τ} {vs : List τ} {v : Bool} (hv : IsVisibility g vs v)
      (hw : g.kind w = .keyword .typeWord) (hn : g.kind n = .identifier)
      (ho : g.kind o = .mark .assignment) (hs : g.kind s = .stringLiteral)
      (hc : g.kind c = .mark .semicolon) :
      IsDeclaration (vs ++ [w, n, o, s, c])
        (.typeAlias v (g.text n) (g.text s) (g.note (vs ++ [w, n, o, s, c])))
  | field {n c : τ} {vs ts : List τ} {v : Bool} {t : TypeRef α} (hv : IsVisibility g vs v)
      (ht : IsType g ts t) (hn : g.kind n = .identifier) (hc : g.kind c = .mark .semicolon) :
      IsDeclaration (vs ++ ts ++ [n, c]) (.field v t (g.text n) (g.note (vs ++ ts ++ [n, c])))
  | function {n o : τ} {vs ts us bs : List τ} {v : Bool} {t : TypeRef α}
      {ps : List (Parameter α)} {ss : List (Statement α)} (hv : IsVisibility g vs v)
      (ht : IsType g ts t) (hn : g.kind n = .identifier) (ho : g.kind o = .mark .openParen)
      (hp : IsSignature g us ps) (hb : IsBlock g bs ss) :
      IsDeclaration (vs ++ ts ++ n :: o :: us ++ bs)
        (.function v t (g.text n) ps ⟨ss, g.note bs⟩ (g.note (vs ++ ts ++ n :: o :: us ++ bs)))

inductive IsDeclarations : List τ → List (Declaration α) → Prop
  | nil : IsDeclarations [] []
  | cons {ts us : List τ} {d : Declaration α} {ds : List (Declaration α)}
      (hd : IsDeclaration g ts d) (hr : IsDeclarations us ds) : IsDeclarations (ts ++ us) (d :: ds)

inductive IsImports : List τ → List (Import α) → Prop
  | nil : IsImports [] []
  | cons {w n c : τ} {us : List τ} {is : List (Import α)} (hw : g.kind w = .keyword .importWord)
      (hn : g.kind n = .identifier) (hc : g.kind c = .mark .semicolon) (hr : IsImports us is) :
      IsImports (w :: n :: c :: us) (⟨g.text n, g.note [w, n, c]⟩ :: is)

/-- A module and the end of its source, which is no part of it. -/
inductive IsModule : List τ → Module α → Prop
  | mk {w n o c e : τ} {is ds : List τ} {imports : List (Import α)}
      {declarations : List (Declaration α)} (hw : g.kind w = .keyword .moduleWord)
      (hn : g.kind n = .identifier) (ho : g.kind o = .mark .openCurly)
      (hi : IsImports g is imports) (hd : IsDeclarations g ds declarations)
      (hc : g.kind c = .mark .closeCurly) (he : g.kind e = .eof) :
      IsModule (w :: n :: o :: is ++ ds ++ [c, e])
        ⟨g.text n, imports, declarations, g.note (w :: n :: o :: is ++ ds ++ [c])⟩

end ModuleSyntax.Proofs.Grammar
