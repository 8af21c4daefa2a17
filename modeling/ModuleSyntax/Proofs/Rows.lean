import ModuleSyntax.Proofs.Levels
import ModuleSyntax.Proofs.Nodes

namespace ModuleSyntax.Proofs.Rows

open Grammar Nodes Levels

variable {τ ν α : Type}

/-- The items stand for pieces of the list, one behind another, with anything between. -/
inductive Row (P : List τ → ν → Prop) : List τ → List ν → Prop
  | nil (us : List τ) : Row P us []
  | cons {piece us : List τ} {x : ν} {xs : List ν} (before : List τ) (h : P piece x)
      (hr : Row P us xs) : Row P (before ++ (piece ++ us)) (x :: xs)

section

variable {P : List τ → ν → Prop} {us vs : List τ} {x : ν}
  {xs ys : List ν}

theorem Row.behind (ws : List τ) (h : Row P us xs) : Row P (ws ++ us) xs := by
  cases h with
  | nil => exact .nil _
  | cons before h hr =>
    rw [← List.append_assoc]
    exact .cons (ws ++ before) h hr

theorem Row.append (h : Row P us xs) (hr : Row P vs ys) : Row P (us ++ vs) (xs ++ ys) := by
  induction h with
  | nil us => exact hr.behind us
  | cons before h _ ih =>
    rw [List.append_assoc, List.append_assoc]
    exact .cons before h ih

theorem Row.before (ws : List τ) (h : Row P us xs) : Row P (us ++ ws) xs := by
  simpa using h.append (.nil ws)

theorem row_one (h : P us x) : Row P us [x] := by
  simpa using Row.cons [] h (.nil [])

end

/-- A node that derives from the terminals; the end of a source derives from no node. -/
inductive Derived (g : Terminals τ α) : List τ → Node α → Prop
  | module {us : List τ} {e : τ} {m : Module α} (h : IsModule g (us ++ [e]) m) :
      Derived g us (.module m)
  | importLine {us : List τ} {i : Import α} (h : IsImports g us [i]) :
      Derived g us (.importLine i)
  | declaration {us : List τ} {d : Declaration α} (h : IsDeclaration g us d) :
      Derived g us (.declaration d)
  | parameter {us : List τ} {p : Parameter α} (h : IsParameter g us p) :
      Derived g us (.parameter p)
  | type {us : List τ} {t : TypeRef α} (h : IsType g us t) : Derived g us (.type t)
  | block {us : List τ} {ss : List (Statement α)} (h : IsBlock g us ss) :
      Derived g us (.block ⟨ss, g.note us⟩)
  | statement {us : List τ} {s : Statement α} (h : IsStatement g us s) :
      Derived g us (.statement s)
  | expression {l : Power} {us : List τ} {e : Expression α} (h : IsExpression g l us e) :
      Derived g us (.expression e)

variable {g : Terminals τ α} {us : List τ}

theorem module_split {e : τ} {m : Module α} (h : IsModule g (us ++ [e]) m) :
    ∃ w n o is ds c, us = w :: n :: o :: is ++ ds ++ [c] ∧ IsImports g is m.imports ∧
      IsDeclarations g ds m.declarations ∧ m.note = g.note us := by
  generalize hv : us ++ [e] = vs at h
  cases h with
  | @mk w n o c e is ds imports declarations hw hn ho hi hd hc he =>
    rw [List.append_cons _ c [e]] at hv
    obtain ⟨rfl, -⟩ := List.append_inj' hv rfl
    exact ⟨w, n, o, is, ds, c, rfl, hi, hd, rfl⟩

theorem derived_note {n : Node α} (h : Derived g us n) : n.note = g.note us := by
  cases h with
  | module h =>
    obtain ⟨w, n, o, is, ds, c, rfl, -, -, hn⟩ := module_split h
    exact hn
  | importLine h => cases h with | cons _ _ _ hr => cases hr; rfl
  | declaration h => cases h <;> rfl
  | parameter h => cases h; rfl
  | type h => cases h <;> rfl
  | block h => rfl
  | statement h => cases h <;> rfl
  | expression h => exact expression_note h

theorem block_ne_nil {ss : List (Statement α)} (h : IsBlock g us ss) : us ≠ [] := by
  cases h
  simp

theorem derived_ne_nil {n : Node α} (h : Derived g us n) : us ≠ [] := by
  cases h with
  | module h =>
    obtain ⟨w, n, o, is, ds, c, rfl, -⟩ := module_split h
    simp
  | importLine h => cases h; simp
  | declaration h => cases h <;> simp
  | parameter h => cases h; simp
  | type h => cases h <;> simp
  | block h => exact block_ne_nil h
  | statement h =>
    cases h with
    | block h => exact block_ne_nil h
    | _ => simp
  | expression h => exact expression_ne_nil h

mutual

theorem operands_row {l : Power} {us : List τ} {e : Expression α} :
    IsExpression g l us e → Row (Derived g) us ((operands e).map .expression)
  | .int _ | .string _ | .yes _ | .no _ | .symbol _ => .nil _
  | .group (o := o) (c := c) _ he _ => by
    rw [operands_withNote]
    exact ((operands_row he).behind [o]).before [c]
  | .array (o := o) _ hs => (closed_row hs).behind [o]
  | .call (o := o) hf _ hs => (row_one (.expression hf)).append ((closed_row hs).behind [o])
  | .index (o := o) (c := c) hb _ he _ =>
    ((row_one (.expression hb)).append ((row_one (.expression he)).behind [o])).before [c]
  | .emptyIndex (o := o) (c := c) hb _ _ => (row_one (.expression hb)).before [o, c]
  | .negation (o := o) _ he => (row_one (.expression he)).behind [o]
  | .binary (o := o) ha _ hb | .assignment (o := o) ha _ _ hb =>
    (row_one (.expression ha)).append ((row_one (.expression hb)).behind [o])
  | .looser _ he => operands_row he

theorem items_row {us : List τ} {es : List (Expression α)} :
    IsItems g us es → Row (Derived g) us (es.map .expression)
  | .one he => row_one (.expression he)
  | .more (c := c) he _ hs => (row_one (.expression he)).append ((items_row hs).behind [c])

theorem closed_row {close : Mark} {us : List τ} {es : List (Expression α)} :
    IsClosed g close us es → Row (Derived g) us (es.map .expression)
  | .none _ => .nil _
  | .some (c := c) hs _ => (items_row hs).before [c]

end

theorem condition_row {e : Expression α} (h : IsCondition g us e) :
    Row (Derived g) us [.expression e] := by
  cases h with
  | mk _ he _ => exact ((row_one (.expression he)).behind [_]).before [_]

theorem statements_row {us : List τ} {ss : List (Statement α)} (h : IsStatements g us ss) :
    Row (Derived g) us (ss.map .statement) := by
  cases h with
  | nil => exact .nil []
  | cons hs hr => exact (row_one (.statement hs)).append (statements_row hr)

theorem block_row {ss : List (Statement α)} (h : IsBlock g us ss) :
    Row (Derived g) us (ss.map .statement) := by
  cases h with
  | mk _ hs _ => exact ((statements_row hs).behind [_]).before [_]

theorem clauses_row {s : Statement α} (h : IsStatement g us s) :
    Row (Derived g) us (clauses s) := by
  cases h with
  | block hs => exact row_one (.block hs)
  | whileLoop _ hc hs => exact ((condition_row hc).behind [_]).append (row_one (.block hs))
  | ifThen _ hc hs => exact ((condition_row hc).behind [_]).append (row_one (.statement hs))
  | ifElse _ hc hs _ _ ht =>
    exact (((condition_row hc).behind [_]).append (row_one (.statement hs))).append
      ((row_one (.statement ht)).behind [_])
  | breakLoop | returnNothing => exact .nil _
  | returnValue _ he _ => exact ((row_one (.expression he)).behind [_]).before [_]
  | variableDecl ht _ _ => exact (row_one (.type ht)).before _
  | evaluation he _ => exact (row_one (.expression he)).before _

theorem parameters_row {us : List τ} {ps : List (Parameter α)} (h : IsParameters g us ps) :
    Row (Derived g) us (ps.map .parameter) := by
  induction h with
  | one hp => exact row_one (.parameter hp)
  | more hp _ _ ih => exact (row_one (.parameter hp)).append (ih.behind [_])

theorem signature_row {ps : List (Parameter α)} (h : IsSignature g us ps) :
    Row (Derived g) us (ps.map .parameter) := by
  cases h with
  | none => exact .nil _
  | some hs => exact (parameters_row hs).before _

theorem components_row {d : Declaration α} (h : IsDeclaration g us d) :
    Row (Derived g) us (components d) := by
  cases h with
  | typeAlias => exact .nil _
  | field _ ht => exact ((row_one (.type ht)).behind _).before _
  | function _ ht _ _ hp hb =>
    exact (((row_one (.type ht)).behind _).append ((signature_row hp).behind [_, _])).append
      (row_one (.block hb))

theorem declarations_row {us : List τ} {ds : List (Declaration α)} (h : IsDeclarations g us ds) :
    Row (Derived g) us (ds.map .declaration) := by
  induction h with
  | nil => exact .nil []
  | cons hd _ ih => exact (row_one (.declaration hd)).append ih

theorem imports_row {us : List τ} {is : List (Import α)} (h : IsImports g us is) :
    Row (Derived g) us (is.map .importLine) := by
  induction h with
  | nil => exact .nil []
  | cons hw hn hc _ ih => exact (row_one (.importLine (.cons hw hn hc .nil))).append ih

/-- The nodes right inside a node derive from pieces of what it derives from. -/
theorem children_row {n : Node α} (h : Derived g us n) : Row (Derived g) us n.children := by
  cases h with
  | module h =>
    obtain ⟨w, n, o, is, ds, c, rfl, hi, hd, -⟩ := module_split h
    exact (((imports_row hi).behind [w, n, o]).append (declarations_row hd)).before [c]
  | importLine | type => exact .nil _
  | declaration h => exact components_row h
  | parameter h => cases h with | mk ht _ => exact (row_one (.type ht)).before _
  | block h => exact block_row h
  | statement h => exact clauses_row h
  | expression h => exact operands_row h

end ModuleSyntax.Proofs.Rows
