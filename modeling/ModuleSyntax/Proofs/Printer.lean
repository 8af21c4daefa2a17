import ModuleSyntax.Proofs.Levels
import ModuleSyntax.Proofs.WellFormed

namespace ModuleSyntax.Proofs.Printer

open Notes Grammar Symbols Levels WellFormed

def mark (m : Mark) : Symbol := (.mark m, m.spelling)

def word (k : Keyword) : Symbol := (.keyword k, k.spelling)

def name (text : String) : Symbol := (.identifier, text)

/-- The level of what is written without parentheses around it. -/
def level {α : Type} : Expression α → Power
  | .int .. | .string .. | .bool .. | .symbol .. | .array .. => .primary
  | .call .. | .index .. | .emptyIndex .. => .call
  | .negation .. => .unary
  | .binary op .. => power op
  | .assignment .. => .assignment

/-- Parentheses around an operand that is looser than its place asks for. -/
def enclosed (place given : Power) (ts : List Symbol) : List Symbol :=
  if place ≤ given then ts else mark .openParen :: ts ++ [mark .closeParen]

mutual

def writeExpression : Expression Unit → List Symbol
  | .int digits _ => [(.intLiteral, digits)]
  | .string text _ => [(.stringLiteral, text)]
  | .bool true _ => [word .trueWord]
  | .bool false _ => [word .falseWord]
  | .symbol text _ => [name text]
  | .array es _ => mark .openBracket :: writeItems es ++ [mark .closeBracket]
  | .call f es _ => enclosed .call (level f) (writeExpression f) ++
      mark .openParen :: (writeItems es ++ [mark .closeParen])
  | .index b e _ => enclosed .call (level b) (writeExpression b) ++
      mark .openBracket :: enclosed .assignment (level e) (writeExpression e) ++
        [mark .closeBracket]
  | .emptyIndex b _ => enclosed .call (level b) (writeExpression b) ++
      [mark .openBracket, mark .closeBracket]
  | .assignment a e _ => enclosed .equality (level a) (writeExpression a) ++
      mark .assignment :: enclosed .assignment (level e) (writeExpression e)
  | .negation e _ => mark .dash :: enclosed .unary (level e) (writeExpression e)
  | .binary op a b _ => enclosed (power op) (level a) (writeExpression a) ++
      mark op.mark :: enclosed (tighter (power op)) (level b) (writeExpression b)

def writeItems : List (Expression Unit) → List Symbol
  | [] => []
  | [e] => enclosed .assignment (level e) (writeExpression e)
  | e :: es => enclosed .assignment (level e) (writeExpression e) ++ mark .comma :: writeItems es

end

def writeFull (e : Expression Unit) : List Symbol :=
  enclosed .assignment (level e) (writeExpression e)

def writeBase : TypeBase → Symbol
  | .primitive p => word p.keyword
  | .named text => name text

def writeType (t : TypeRef Unit) : List Symbol :=
  writeBase t.base ::
    (List.replicate t.depth [mark .openBracket, mark .closeBracket]).flatten

def writeCondition (e : Expression Unit) : List Symbol :=
  mark .openParen :: writeFull e ++ [mark .closeParen]

mutual

def writeStatement : Statement Unit → List Symbol
  | .variableDecl t text _ => writeType t ++ [name text, mark .semicolon]
  | .whileLoop c body _ _ => word .whileWord :: writeCondition c ++
      (mark .openCurly :: writeStatements body ++ [mark .closeCurly])
  | .ifThen c yes _ => word .ifWord :: writeCondition c ++ writeStatement yes
  | .ifElse c yes no _ => word .ifWord :: writeCondition c ++ writeStatement yes ++
      word .elseWord :: writeStatement no
  | .breakLoop _ => [word .breakWord, mark .semicolon]
  | .returnValue none _ => [word .returnWord, mark .semicolon]
  | .returnValue (some e) _ => word .returnWord :: writeFull e ++ [mark .semicolon]
  | .evaluation e _ => writeFull e ++ [mark .semicolon]
  | .block body _ => mark .openCurly :: writeStatements body ++ [mark .closeCurly]

def writeStatements : List (Statement Unit) → List Symbol
  | [] => []
  | s :: ss => writeStatement s ++ writeStatements ss

end

def writeParameter (p : Parameter Unit) : List Symbol := writeType p.type ++ [name p.name]

def writeParameters : List (Parameter Unit) → List Symbol
  | [] => []
  | [p] => writeParameter p
  | p :: ps => writeParameter p ++ mark .comma :: writeParameters ps

def writeVisibility (isPublic : Bool) : List Symbol :=
  if isPublic then [word .publicWord] else []

def writeDeclaration : Declaration Unit → List Symbol
  | .field isPublic t text _ =>
    writeVisibility isPublic ++ writeType t ++ [name text, mark .semicolon]
  | .typeAlias isPublic text literal _ =>
    writeVisibility isPublic ++
      [word .typeWord, name text, mark .assignment, (.stringLiteral, literal), mark .semicolon]
  | .function isPublic t text ps body _ =>
    writeVisibility isPublic ++ writeType t ++
      name text :: mark .openParen :: (writeParameters ps ++ [mark .closeParen]) ++
      (mark .openCurly :: writeStatements body.body ++ [mark .closeCurly])

def writeImport (i : Import Unit) : List Symbol :=
  [word .importWord, name i.name, mark .semicolon]

def writeModule (m : Module Unit) : List Symbol :=
  word .moduleWord :: name m.name :: mark .openCurly :: m.imports.flatMap writeImport ++
    m.declarations.flatMap writeDeclaration ++ [mark .closeCurly]

theorem enclosed_derives {place given : Power} {ts : List Symbol} {e : Expression Unit}
    (h : IsExpression symbols given ts e) (hg : .assignment ≤ given) :
    IsExpression symbols place (enclosed place given ts) e := by
  unfold enclosed
  split
  · exact .looser ‹_› h
  · have hp := IsExpression.group (g := symbols) (o := mark .openParen) (c := mark .closeParen) rfl
      (.looser hg h) rfl
    rw [show symbols.note _ = () from rfl, withNote_unit] at hp
    exact .looser (le_primary place) hp

theorem assignment_le_level (e : Expression Unit) : .assignment ≤ level e := by
  cases e with
  | binary op =>
    rw [level]
    cases op <;> decide
  | _ =>
    rw [level]
    decide

theorem closed_derives {ts : List Symbol} {es : List (Expression Unit)} (close : Mark)
    (hn : es = [] → ts = []) (hs : es ≠ [] → IsItems symbols ts es) :
    IsClosed symbols close (ts ++ [mark close]) es := by
  cases es with
  | nil =>
    rw [hn rfl]
    exact .none rfl
  | cons e es => exact .some (hs (List.cons_ne_nil e es)) rfl

theorem writeItems_nil {es : List (Expression Unit)} (h : es = []) : writeItems es = [] := by
  rw [h, writeItems]

mutual

theorem writeExpression_derives : ∀ e : Expression Unit, wellFormedExpression e →
    IsExpression symbols (level e) (writeExpression e) e
  | .int digits _, _ => IsExpression.int (g := symbols) (t := (.intLiteral, digits)) rfl
  | .string text _, _ => IsExpression.string (g := symbols) (t := (.stringLiteral, text)) rfl
  | .bool true _, _ => IsExpression.yes (g := symbols) (t := word .trueWord) rfl
  | .bool false _, _ => IsExpression.no (g := symbols) (t := word .falseWord) rfl
  | .symbol text _, _ => IsExpression.symbol (g := symbols) (t := name text) rfl
  | .array es _, h => by
    rw [wellFormedExpression] at h
    rw [writeExpression, List.cons_append]
    exact .array (o := mark .openBracket) rfl 
      (closed_derives .closeBracket writeItems_nil (writeItems_derives es h))
  | .call f es _, h => by
    rw [wellFormedExpression, Bool.and_eq_true] at h
    rw [writeExpression]
    exact .call (o := mark .openParen)
      (enclosed_derives (writeExpression_derives f h.1) (assignment_le_level f)) rfl
      (closed_derives .closeParen writeItems_nil (writeItems_derives es h.2))
  | .index b e _, h => by
    rw [wellFormedExpression, Bool.and_eq_true] at h
    rw [writeExpression]
    exact .index (o := mark .openBracket)
      (enclosed_derives (writeExpression_derives b h.1) (assignment_le_level b)) rfl
      (enclosed_derives (writeExpression_derives e h.2) (assignment_le_level e)) rfl
  | .emptyIndex b _, h => by
    rw [wellFormedExpression] at h
    rw [writeExpression]
    exact .emptyIndex
      (enclosed_derives (writeExpression_derives b h) (assignment_le_level b)) rfl rfl
  | .assignment a e _, h => by
    rw [wellFormedExpression, Bool.and_eq_true, Bool.and_eq_true] at h
    rw [writeExpression]
    exact .assignment (o := mark .assignment)
      (enclosed_derives (writeExpression_derives a h.1.2) (assignment_le_level a))
      (of_decide_eq_true h.1.1) rfl
      (enclosed_derives (writeExpression_derives e h.2) (assignment_le_level e))
  | .negation e _, h => by
    rw [wellFormedExpression] at h
    rw [writeExpression]
    exact .negation (o := mark .dash) rfl
      (enclosed_derives (writeExpression_derives e h) (assignment_le_level e))
  | .binary op a b _, h => by
    rw [wellFormedExpression, Bool.and_eq_true] at h
    rw [writeExpression]
    exact .binary (o := mark op.mark)
      (enclosed_derives (writeExpression_derives a h.1) (assignment_le_level a)) rfl
      (enclosed_derives (writeExpression_derives b h.2) (assignment_le_level b))

theorem writeItems_derives : ∀ es : List (Expression Unit), wellFormedExpressions es → es ≠ [] →
    IsItems symbols (writeItems es) es
  | [], _, hn => absurd rfl hn
  | [e], h, _ => by
    rw [wellFormedExpressions, Bool.and_eq_true] at h
    rw [writeItems]
    exact .one (enclosed_derives (writeExpression_derives e h.1) (assignment_le_level e))
  | e :: e' :: es, h, _ => by
    rw [wellFormedExpressions, Bool.and_eq_true] at h
    rw [writeItems]
    · exact .more (enclosed_derives (writeExpression_derives e h.1) (assignment_le_level e)) rfl
        (writeItems_derives (e' :: es) h.2 (List.cons_ne_nil e' es))
    · exact fun hn => List.cons_ne_nil e' es hn

end

theorem writeFull_derives {e : Expression Unit} (h : wellFormedExpression e) :
    IsExpression symbols .assignment (writeFull e) e :=
  enclosed_derives (writeExpression_derives e h) (assignment_le_level e)

theorem writeCondition_derives {e : Expression Unit} (h : wellFormedExpression e) :
    IsCondition symbols (writeCondition e) e :=
  IsCondition.mk (g := symbols) (o := mark .openParen) rfl (writeFull_derives h) rfl

theorem writeType_derives (t : TypeRef Unit) : IsType symbols (writeType t) t := by
  obtain ⟨base, depth, note⟩ := t
  rw [writeType]
  induction depth with
  | zero =>
    cases base with
    | primitive p => exact IsType.primitive (g := symbols) (t := word p.keyword) rfl
    | named text => exact IsType.named (g := symbols) (t := name text) rfl
  | succ n ih =>
    rw [List.replicate_succ', List.flatten_append, ← List.cons_append]
    exact IsType.array (g := symbols) ih (o := mark .openBracket) (c := mark .closeBracket) rfl rfl

theorem writeBlock_derives {ss : List (Statement Unit)} {ts : List Symbol}
    (h : IsStatements symbols ts ss) :
    IsBlock symbols (mark .openCurly :: ts ++ [mark .closeCurly]) ss :=
  IsBlock.mk (g := symbols) (o := mark .openCurly) rfl h rfl

mutual

theorem writeStatement_derives : ∀ s : Statement Unit, wellFormedStatement s →
    IsStatement symbols (writeStatement s) s
  | .variableDecl t text _, _ => by
    rw [writeStatement]
    exact IsStatement.variableDecl (g := symbols) (n := name text) (writeType_derives t) rfl rfl
  | .whileLoop c body _ _, h => by
    rw [wellFormedStatement, Bool.and_eq_true] at h
    rw [writeStatement]
    exact .whileLoop (w := word .whileWord) rfl (writeCondition_derives h.1)
      (writeBlock_derives (writeStatements_derives body h.2))
  | .ifThen c yes _, h => by
    rw [wellFormedStatement, Bool.and_eq_true] at h
    rw [writeStatement]
    exact .ifThen (w := word .ifWord) rfl (writeCondition_derives h.1)
      (writeStatement_derives yes h.2)
  | .ifElse c yes no _, h => by
    simp only [wellFormedStatement, Bool.and_eq_true, Bool.not_eq_true'] at h
    rw [writeStatement]
    exact .ifElse (w := word .ifWord) (e := word .elseWord) rfl (writeCondition_derives h.1.1.1)
      (writeStatement_derives yes h.1.1.2) h.1.2 rfl (writeStatement_derives no h.2)
  | .breakLoop _, _ => by
    rw [writeStatement]
    exact .breakLoop rfl rfl
  | .returnValue none _, _ => by
    rw [writeStatement]
    exact .returnNothing rfl rfl
  | .returnValue (some e) _, h => by
    rw [wellFormedStatement] at h
    rw [writeStatement]
    exact .returnValue (w := word .returnWord) rfl (writeFull_derives h) rfl
  | .evaluation e _, h => by
    rw [wellFormedStatement] at h
    rw [writeStatement]
    exact .evaluation (writeFull_derives h) rfl
  | .block body _, h => by
    rw [wellFormedStatement] at h
    rw [writeStatement]
    exact .block (writeBlock_derives (writeStatements_derives body h))

theorem writeStatements_derives : ∀ ss : List (Statement Unit), wellFormedStatements ss →
    IsStatements symbols (writeStatements ss) ss
  | [], _ => by
    rw [writeStatements]
    exact .nil
  | s :: ss, h => by
    rw [wellFormedStatements, Bool.and_eq_true] at h
    rw [writeStatements]
    exact .cons (writeStatement_derives s h.1) (writeStatements_derives ss h.2)

end

theorem writeParameter_derives (p : Parameter Unit) : IsParameter symbols (writeParameter p) p :=
  IsParameter.mk (g := symbols) (n := name p.name) (writeType_derives p.type) rfl

theorem writeParameters_derives {ps : List (Parameter Unit)} (hn : ps ≠ []) :
    IsParameters symbols (writeParameters ps) ps := by
  induction ps with
  | nil => exact absurd rfl hn
  | cons p ps ih =>
    cases ps with
    | nil => exact .one (writeParameter_derives p)
    | cons p' ps => exact .more (writeParameter_derives p) rfl (ih (List.cons_ne_nil p' ps))

theorem writeSignature_derives (ps : List (Parameter Unit)) :
    IsSignature symbols (writeParameters ps ++ [mark .closeParen]) ps := by
  cases ps with
  | nil => exact .none rfl
  | cons p ps => exact .some (writeParameters_derives (List.cons_ne_nil p ps)) rfl

theorem writeVisibility_derives (v : Bool) : IsVisibility symbols (writeVisibility v) v := by
  cases v with
  | false => exact .inside
  | true => exact IsVisibility.outside (g := symbols) (t := word .publicWord) rfl

theorem writeDeclaration_derives {d : Declaration Unit} (h : wellFormedDeclaration d) :
    IsDeclaration symbols (writeDeclaration d) d := by
  cases d with
  | field v t text note =>
    exact IsDeclaration.field (g := symbols) (n := name text) (writeVisibility_derives v)
      (writeType_derives t) rfl rfl
  | typeAlias v text literal note =>
    exact IsDeclaration.typeAlias (g := symbols) (n := name text) (s := (.stringLiteral, literal))
      (writeVisibility_derives v) rfl rfl rfl rfl rfl
  | function v t text ps body note =>
    simp only [wellFormedDeclaration, Bool.and_eq_true] at h
    exact IsDeclaration.function (g := symbols) (n := name text) (o := mark .openParen)
      (writeVisibility_derives v) (writeType_derives t) rfl rfl (writeSignature_derives ps)
      (writeBlock_derives (writeStatements_derives body.body h.2))

theorem writeImports_derives (is : List (Import Unit)) :
    IsImports symbols (is.flatMap writeImport) is := by
  induction is with
  | nil => exact .nil
  | cons i is ih =>
    exact IsImports.cons (g := symbols) (w := word .importWord) (n := name i.name) rfl rfl rfl ih

theorem writeDeclarations_derives {ds : List (Declaration Unit)}
    (h : ds.all wellFormedDeclaration) :
    IsDeclarations symbols (ds.flatMap writeDeclaration) ds := by
  induction ds with
  | nil => exact .nil
  | cons d ds ih =>
    rw [List.all_cons, Bool.and_eq_true] at h
    exact .cons (writeDeclaration_derives h.1) (ih h.2)

theorem writeModule_derives {m : Module Unit} (h : wellFormedModule m) :
    IsModule symbols (writeModule m ++ [(.eof, "")]) m := by
  simp only [wellFormedModule, Bool.and_eq_true] at h
  have hm := IsModule.mk (g := symbols) (w := word .moduleWord) (n := name m.name)
    (o := mark .openCurly) (c := mark .closeCurly) (e := (.eof, "")) rfl rfl rfl
    (writeImports_derives m.imports) (writeDeclarations_derives h.2) rfl rfl
  rw [writeModule, List.append_assoc]
  exact hm

end ModuleSyntax.Proofs.Printer
