import ModuleSyntax.Proofs.Symbols

namespace ModuleSyntax.Proofs.WellFormed

open Notes Grammar Symbols

variable {α : Type}

def isFree (name : String) : Bool := Spelled (.identifier, name)

mutual

def wellFormedExpression : Expression α → Bool
  | .int digits _ => Spelled (.intLiteral, digits)
  | .string text _ => Spelled (.stringLiteral, text)
  | .bool .. => true
  | .symbol name _ => isFree name
  | .array es _ => wellFormedExpressions es
  | .call f es _ => wellFormedExpression f && wellFormedExpressions es
  | .index b e _ => wellFormedExpression b && wellFormedExpression e
  | .emptyIndex b _ => wellFormedExpression b
  | .assignment a e _ => Assignable a && wellFormedExpression a && wellFormedExpression e
  | .negation e _ => wellFormedExpression e
  | .binary _ a b _ => wellFormedExpression a && wellFormedExpression b

def wellFormedExpressions : List (Expression α) → Bool
  | [] => true
  | e :: es => wellFormedExpression e && wellFormedExpressions es

end

def wellFormedType (t : TypeRef α) : Bool :=
  match t.base with
  | .primitive _ => true
  | .named name => isFree name

mutual

/-- A branch before an `else` does not end in an `if` that the `else` would belong to. -/
def wellFormedStatement : Statement α → Bool
  | .variableDecl t name _ => wellFormedType t && isFree name
  | .whileLoop c body _ _ => wellFormedExpression c && wellFormedStatements body
  | .ifThen c yes _ => wellFormedExpression c && wellFormedStatement yes
  | .ifElse c yes no _ =>
    wellFormedExpression c && wellFormedStatement yes && !endsOpen yes && wellFormedStatement no
  | .breakLoop _ => true
  | .returnValue e _ => e.all wellFormedExpression
  | .evaluation e _ => wellFormedExpression e
  | .block body _ => wellFormedStatements body

def wellFormedStatements : List (Statement α) → Bool
  | [] => true
  | s :: ss => wellFormedStatement s && wellFormedStatements ss

end

def wellFormedParameter (p : Parameter α) : Bool := wellFormedType p.type && isFree p.name

def wellFormedDeclaration : Declaration α → Bool
  | .field _ t name _ => wellFormedType t && isFree name
  | .typeAlias _ name literal _ => isFree name && Spelled (.stringLiteral, literal)
  | .function _ t name ps body _ =>
    wellFormedType t && isFree name && ps.all wellFormedParameter && wellFormedStatements body.body

/-- All that can be asked of a module for it to have a text. -/
def wellFormedModule (m : Module α) : Bool :=
  isFree m.name && m.imports.all (fun i => isFree i.name) &&
    m.declarations.all wellFormedDeclaration

def AllSpelled (ts : List Symbol) : Prop := ∀ s ∈ ts, Spelled s

section

variable {s : Symbol} {ts us : List Symbol}

theorem allSpelled_cons : AllSpelled (s :: ts) ↔ Spelled s ∧ AllSpelled ts := List.forall_mem_cons

theorem allSpelled_append : AllSpelled (ts ++ us) ↔ AllSpelled ts ∧ AllSpelled us :=
  List.forall_mem_append

theorem free_of_spelled (hs : Spelled s) (h : s.1 = .identifier) : isFree s.2 := by
  obtain ⟨k, name⟩ := s
  obtain rfl : k = .identifier := h
  exact decide_eq_true hs

end

theorem type_wellFormed {ts : List Symbol} {t : TypeRef Unit} (h : IsType symbols ts t)
    (hs : AllSpelled ts) : wellFormedType t := by
  induction h with
  | primitive h => rfl
  | named h => exact free_of_spelled (hs _ List.mem_cons_self) h
  | array ht ho hc ih => exact ih (allSpelled_append.1 hs).1

mutual

theorem expression_wellFormed {l : Power} {ts : List Symbol} {e : Expression Unit} :
    IsExpression symbols l ts e → AllSpelled ts → wellFormedExpression e
  | .int (t := (_, _)) h, hs => by
    obtain rfl := h
    exact decide_eq_true (hs _ List.mem_cons_self)
  | .string (t := (_, _)) h, hs => by
    obtain rfl := h
    exact decide_eq_true (hs _ List.mem_cons_self)
  | .yes h, _ | .no h, _ => by rw [wellFormedExpression]
  | .symbol h, hs => by
    rw [wellFormedExpression]
    exact free_of_spelled (hs _ List.mem_cons_self) h
  | .group (e := e) ho he hc, hs => by
    rw [show symbols.note _ = () from rfl, withNote_unit]
    exact expression_wellFormed he (allSpelled_append.1 (allSpelled_cons.1 hs).2).1
  | .array ho hx, hs => by
    rw [wellFormedExpression]
    exact closed_wellFormed hx (allSpelled_cons.1 hs).2
  | .call hf ho hx, hs => by
    simp only [allSpelled_append, allSpelled_cons] at hs
    rw [wellFormedExpression, Bool.and_eq_true]
    exact ⟨expression_wellFormed hf hs.1, closed_wellFormed hx hs.2.2⟩
  | .index hb ho he hc, hs => by
    simp only [allSpelled_append, allSpelled_cons] at hs
    rw [wellFormedExpression, Bool.and_eq_true]
    exact ⟨expression_wellFormed hb hs.1.1, expression_wellFormed he hs.1.2.2⟩
  | .emptyIndex hb ho hc, hs => by
    rw [wellFormedExpression]
    exact expression_wellFormed hb (allSpelled_append.1 hs).1
  | .negation ho he, hs => by
    rw [wellFormedExpression]
    exact expression_wellFormed he (allSpelled_cons.1 hs).2
  | .binary ha ho hb, hs => by
    simp only [allSpelled_append, allSpelled_cons] at hs
    rw [wellFormedExpression, Bool.and_eq_true]
    exact ⟨expression_wellFormed ha hs.1, expression_wellFormed hb hs.2.2⟩
  | .assignment ha ht ho hb, hs => by
    simp only [allSpelled_append, allSpelled_cons] at hs
    rw [wellFormedExpression, Bool.and_eq_true, Bool.and_eq_true]
    exact ⟨⟨decide_eq_true ht, expression_wellFormed ha hs.1⟩, expression_wellFormed hb hs.2.2⟩
  | .looser _ he, hs => expression_wellFormed he hs

theorem items_wellFormed {ts : List Symbol} {es : List (Expression Unit)} :
    IsItems symbols ts es → AllSpelled ts → wellFormedExpressions es
  | .one he, hs => by
    rw [wellFormedExpressions, wellFormedExpressions, Bool.and_true]
    exact expression_wellFormed he hs
  | .more he hc hx, hs => by
    simp only [allSpelled_append, allSpelled_cons] at hs
    rw [wellFormedExpressions, Bool.and_eq_true]
    exact ⟨expression_wellFormed he hs.1, items_wellFormed hx hs.2.2⟩

theorem closed_wellFormed {close : Mark} {ts : List Symbol} {es : List (Expression Unit)} :
    IsClosed symbols close ts es → AllSpelled ts → wellFormedExpressions es
  | .none hc, _ => by rw [wellFormedExpressions]
  | .some hx hc, hs => items_wellFormed hx (allSpelled_append.1 hs).1

end

theorem condition_wellFormed {ts : List Symbol} {e : Expression Unit}
    (h : IsCondition symbols ts e) (hs : AllSpelled ts) : wellFormedExpression e := by
  cases h with
  | mk ho he hc => exact expression_wellFormed he (allSpelled_append.1 (allSpelled_cons.1 hs).2).1

mutual

theorem statement_wellFormed {ts : List Symbol} {s : Statement Unit} :
    IsStatement symbols ts s → AllSpelled ts → wellFormedStatement s
  | .block hb, hs => by
    rw [wellFormedStatement]
    exact block_wellFormed hb hs
  | .whileLoop hw hc hb, hs => by
    simp only [allSpelled_append, allSpelled_cons, List.cons_append] at hs
    rw [wellFormedStatement, Bool.and_eq_true]
    exact ⟨condition_wellFormed hc hs.2.1, block_wellFormed hb hs.2.2⟩
  | .ifThen hw hc hy, hs => by
    simp only [allSpelled_append, allSpelled_cons, List.cons_append] at hs
    rw [wellFormedStatement, Bool.and_eq_true]
    exact ⟨condition_wellFormed hc hs.2.1, statement_wellFormed hy hs.2.2⟩
  | .ifElse hw hc hy ho he hn, hs => by
    simp only [allSpelled_append, allSpelled_cons, List.cons_append] at hs
    rw [wellFormedStatement, ho]
    simp only [Bool.and_eq_true, Bool.not_false, and_true]
    exact ⟨⟨condition_wellFormed hc hs.2.1.1, statement_wellFormed hy hs.2.1.2⟩,
      statement_wellFormed hn hs.2.2.2⟩
  | .breakLoop hw hc, _ => by rw [wellFormedStatement]
  | .returnNothing hw hc, _ => by
    rw [wellFormedStatement]
    rfl
  | .returnValue hw he hc, hs => by
    rw [wellFormedStatement]
    exact expression_wellFormed he (allSpelled_append.1 (allSpelled_cons.1 hs).2).1
  | .variableDecl ht hn hc, hs => by
    simp only [allSpelled_append, allSpelled_cons] at hs
    rw [wellFormedStatement, Bool.and_eq_true]
    exact ⟨type_wellFormed ht hs.1, free_of_spelled hs.2.1 hn⟩
  | .evaluation he hc, hs => by
    rw [wellFormedStatement]
    exact expression_wellFormed he (allSpelled_append.1 hs).1

theorem statements_wellFormed {ts : List Symbol} {ss : List (Statement Unit)} :
    IsStatements symbols ts ss → AllSpelled ts → wellFormedStatements ss
  | .nil, _ => by rw [wellFormedStatements]
  | .cons hx hr, hs => by
    rw [wellFormedStatements, Bool.and_eq_true]
    exact ⟨statement_wellFormed hx (allSpelled_append.1 hs).1,
      statements_wellFormed hr (allSpelled_append.1 hs).2⟩

theorem block_wellFormed {ts : List Symbol} {ss : List (Statement Unit)} :
    IsBlock symbols ts ss → AllSpelled ts → wellFormedStatements ss
  | .mk _ hx _, hs => statements_wellFormed hx (allSpelled_append.1 (allSpelled_cons.1 hs).2).1

end

theorem parameters_wellFormed {ts : List Symbol} {ps : List (Parameter Unit)}
    (h : IsParameters symbols ts ps) (hs : AllSpelled ts) : ps.all wellFormedParameter := by
  have hone : ∀ {ts : List Symbol} {p : Parameter Unit}, IsParameter symbols ts p →
      AllSpelled ts → wellFormedParameter p := fun h hs => by
    cases h with
    | mk ht hn =>
      simp only [allSpelled_append, allSpelled_cons] at hs
      rw [wellFormedParameter, Bool.and_eq_true]
      exact ⟨type_wellFormed ht hs.1, free_of_spelled hs.2.1 hn⟩
  induction h with
  | one hp =>
    rw [List.all_cons, hone hp hs]
    rfl
  | more hp hc hr ih =>
    simp only [allSpelled_append, allSpelled_cons] at hs
    rw [List.all_cons, hone hp hs.1, ih hs.2.2]
    rfl

theorem signature_wellFormed {ts : List Symbol} {ps : List (Parameter Unit)}
    (h : IsSignature symbols ts ps) (hs : AllSpelled ts) : ps.all wellFormedParameter := by
  cases h with
  | none hc => rfl
  | some hp hc => exact parameters_wellFormed hp (allSpelled_append.1 hs).1

theorem declaration_wellFormed {ts : List Symbol} {d : Declaration Unit}
    (h : IsDeclaration symbols ts d) (hs : AllSpelled ts) : wellFormedDeclaration d := by
  cases h with
  | @typeAlias w n o l c vs v hv hw hn ho hl hc =>
    obtain ⟨k, literal⟩ := l
    obtain rfl : k = .stringLiteral := hl
    simp only [allSpelled_append, allSpelled_cons] at hs
    rw [wellFormedDeclaration, Bool.and_eq_true]
    exact ⟨free_of_spelled hs.2.2.1 hn, decide_eq_true hs.2.2.2.2.1⟩
  | field hv ht hn hc =>
    simp only [allSpelled_append, allSpelled_cons] at hs
    rw [wellFormedDeclaration, Bool.and_eq_true]
    exact ⟨type_wellFormed ht hs.1.2, free_of_spelled hs.2.1 hn⟩
  | function hv ht hn ho hp hb =>
    simp only [allSpelled_append, allSpelled_cons] at hs
    simp only [wellFormedDeclaration, Bool.and_eq_true]
    exact ⟨⟨⟨type_wellFormed ht hs.1.1.2, free_of_spelled hs.1.2.1 hn⟩,
      signature_wellFormed hp hs.1.2.2.2⟩, block_wellFormed hb hs.2⟩

theorem module_wellFormed {ts : List Symbol} {m : Module Unit} (h : IsModule symbols ts m)
    (hs : AllSpelled ts) : wellFormedModule m := by
  cases h with
  | @mk w n o c e is ds imports declarations hw hn ho hi hd hc he =>
    simp only [allSpelled_append, allSpelled_cons, List.cons_append] at hs
    obtain ⟨-, hname, -, ⟨his, hds⟩, -⟩ := hs
    have himports : imports.all fun i => isFree i.name := by
      clear hd
      induction hi with
      | nil => rfl
      | cons hw hn hc hr ih =>
        simp only [allSpelled_cons] at his
        rw [List.all_cons, ih his.2.2.2, Bool.and_true]
        exact free_of_spelled his.2.1 hn
    have hdeclarations : declarations.all wellFormedDeclaration := by
      clear hi himports
      induction hd with
      | nil => rfl
      | cons hd hr ih =>
        rw [List.all_cons, declaration_wellFormed hd (allSpelled_append.1 hds).1,
          ih (allSpelled_append.1 hds).2]
        rfl
    simp only [wellFormedModule, Bool.and_eq_true]
    exact ⟨⟨free_of_spelled hname hn, himports⟩, hdeclarations⟩

end ModuleSyntax.Proofs.WellFormed
