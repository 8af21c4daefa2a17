import ModuleSyntax.Parse.Statement
import ModuleSyntax.Proofs.Calls
import ModuleSyntax.Proofs.OutcomeStatement
import ModuleSyntax.Proofs.Readings
import ModuleSyntax.Proofs.RunningExpression

namespace ModuleSyntax.Proofs.RunningStatement

open Parse Motion Notes Grammar Symbols Levels Calls OutcomeStatement Readings Running
open RunningExpression

variable {p q r : Parser}

abbrev typeSaid : TypeRef Span → TypeRef Unit := TypeRef.mapNote fun _ => ()

abbrev statementSaid : Statement Span → Statement Unit := Statement.mapNote fun _ => ()

abbrev statementsSaid : List (Statement Span) → List (Statement Unit) :=
  Statement.mapNotes fun _ => ()

theorem runs_typeChain_stop (hq : q.tables = .standard)
    (hk : q.current.kind ≠ .mark .openBracket) (t : TypeRef Span) :
    Runs typeSaid (fun n => typeChain n t .loosest) q (typeSaid t) q := by
  apply Runs.call
  simp only [typeChain_succ]
  have ht : q.tables.typeTrailing q.current.kind = none := by
    cases h : q.tables.typeTrailing q.current.kind with
    | none => rfl
    | some entry =>
      rw [hq] at h
      exact absurd (typeTrailing_standard h) hk
  apply runs_lookup ht
  exact runs_pure rfl

theorem runs_typeRef (hp : p.tables = .standard) {R : TypeLeading} {t u : TypeRef Unit}
    (ht : Tables.standard.typeLeading p.current.kind = some R)
    (hx : Runs typeSaid (fun _ => typeLeading R) p t q)
    (hc : ∀ t', typeSaid t' = t → Runs typeSaid (fun n => typeChain n t' .loosest) q u r) :
    Runs typeSaid (fun n => typeRef n .loosest) p u r := by
  simp only [typeRef_eq]
  rw [← hp] at ht
  apply runs_lookup ht
  exact hx.bind hc

theorem runs_arrayType {o c : Symbol} (hs : Spells p [o, c] q) (ho : o.1 = .mark .openBracket)
    (hc : c.1 = .mark .closeBracket) (t : TypeRef Span) :
    Runs typeSaid (fun _ => arrayType t) p ⟨t.base, t.depth + 1, ()⟩ q := by
  obtain ⟨p₁, ho', hs⟩ := hs.expect ho
  obtain ⟨p₂, hc', hn⟩ := hs.expect hc
  obtain rfl := hn.nil
  exact ho'.bind fun _ _ => hc'.bind fun _ _ => runs_pure rfl

theorem runs_type {ts : List Symbol} {t : TypeRef Unit} (h : IsType symbols ts t)
    (hp : p.tables = .standard) (hs : Spells p ts q) {u : TypeRef Unit}
    (hc : ∀ t', typeSaid t' = t → Runs typeSaid (fun n => typeChain n t' .loosest) q u r) :
    Runs typeSaid (fun n => typeRef n .loosest) p u r := by
  induction h generalizing q u with
  | @primitive s b h =>
    have hk := hs.kind.trans h
    have hm : s.1 ∈ [Kind.keyword .voidWord, .keyword .intWord, .keyword .booleanWord,
        .keyword .stringWord] := by
      rw [show s.1 = .keyword b.keyword from h]
      cases b <;> decide
    obtain ⟨p₁, hr, hn⟩ := hs.expectOneOf hm
    obtain rfl := hn.nil
    refine runs_typeRef (R := .primitive) hp (by rw [hk]; cases b <;> rfl)
      (hr.bind fun t ht => ?_) hc
    rw [Primitive.ofKind?_eq_some_iff.2 (show t.kind = _ from (congrArg Prod.fst ht).trans h)]
    exact runs_pure rfl
  | @named s h =>
    have hk := hs.kind.trans h
    obtain ⟨p₁, hr, hn⟩ := hs.expect h
    obtain rfl := hn.nil
    refine runs_typeRef (R := .named) hp (by rw [hk]; rfl) (hr.bind fun t ht => ?_) hc
    subst ht
    exact runs_pure rfl
  | @array o c ts t ht ho hc' ih =>
    have hq := hs.tables.trans hp
    obtain ⟨p₁, hs₁, hs⟩ := hs.split
    have hk := hs.kind.trans ho
    refine ih hs₁ fun t' ht' => Runs.call ?_
    simp only [typeChain_succ]
    have hl : p₁.tables.typeTrailing p₁.current.kind = some (.call, .array) := by
      rw [hs.tables.symm.trans hq, hk]
      rfl
    apply runs_lookup hl
    refine runs_else (by decide) ((runs_arrayType hs ho hc' t').bind fun t'' ht'' => hc t'' ?_)
    rw [ht'', ← ht']
    rfl

theorem runs_typeAll {ts : List Symbol} {t : TypeRef Unit} (h : IsType symbols ts t)
    (hp : p.tables = .standard) (hs : Spells p ts q) (hk : q.current.kind ≠ .mark .openBracket) :
    Runs typeSaid (fun n => typeRef n .loosest) p t q :=
  runs_type h hp hs fun t' ht' => ht' ▸ runs_typeChain_stop (hs.tables.trans hp) hk t'

theorem runs_endEvaluation {c : Symbol} (hs : Spells p [c] q) (hc : c.1 = .mark .semicolon)
    (e : Expression Span) :
    Runs statementSaid (fun _ => endEvaluation e) p (.evaluation (said e) ()) q := by
  obtain ⟨p₁, hc', hn⟩ := hs.expect hc
  obtain rfl := hn.nil
  refine hc'.bind fun _ _ => runs_previousEnd (runs_pure ?_)
  rw [statementSaid, Statement.mapNote]

theorem runs_endDeclaration {n c : Symbol} (hs : Spells p [n, c] q) (hn : n.1 = .identifier)
    (hc : c.1 = .mark .semicolon) (t : TypeRef Span) :
    Runs statementSaid (fun _ => endDeclaration t) p (.variableDecl (typeSaid t) n.2 ()) q := by
  obtain ⟨p₁, hn', hs⟩ := hs.expect hn
  obtain ⟨p₂, hc', hs⟩ := hs.expect hc
  obtain rfl := hs.nil
  refine hn'.bind fun t' ht => hc'.bind fun _ _ => runs_previousEnd (runs_pure ?_)
  rw [statementSaid, Statement.mapNote, ← ht]
  rfl

/-- A type that begins with a name, read before it is known whether it is one. -/
theorem runs_nameFirst {ts : List Symbol} {t : TypeRef Unit} (h : IsType symbols ts t)
    {name : String} (hb : t.base = .named name) (hs : Spells p ts q) {s : Statement Unit}
    (hc : ∀ e, Runs statementSaid (fun n => afterName n name t.depth e) q s r) :
    Runs statementSaid nameFirst p s r := by
  induction h generalizing q with
  | @primitive s b h => cases hb
  | @named s h =>
    obtain ⟨p₁, hr, hn⟩ := hs.expect h
    obtain rfl := hn.nil
    refine hr.bind fun t ht => ?_
    cases hb
    subst ht
    exact hc _
  | @array o c ts t ht ho hc' ih =>
    obtain ⟨p₁, hs₁, hs⟩ := hs.split
    have hk := hs.kind.trans ho
    obtain ⟨p₂, ho', hs⟩ := hs.advance
    have hk₂ := hs.kind.trans hc'
    obtain ⟨p₃, hc'', hn⟩ := hs.advance
    obtain rfl := hn.nil
    refine ih hb hs₁ fun e => Runs.call (runs_kind (runs_if hk ?_))
    exact ho'.bind fun _ _ => runs_kind (runs_if hk₂ (hc''.bind fun _ _ => hc _))

theorem runs_nameEvaluation {o c : Symbol} {ts : List Symbol} {e : Expression Unit}
    (he : IsExpression symbols .assignment (o :: ts) e) (ho : o.1 = .identifier)
    (hp : p.tables = .standard) (hs : Spells p (o :: ts ++ [c]) q) (hc : c.1 = .mark .semicolon) :
    Runs statementSaid nameFirst p (.evaluation e ()) q := by
  have hk := hs.kind.trans ho
  obtain ⟨p₁, hs₁, hs₂⟩ := hs.split
  have hk₁ := hs₂.kind.trans hc
  obtain ⟨f, hf, n, hn⟩ := (expression_readable he).runs hp hs₁ (by rw [hk₁]; rfl)
  obtain ⟨s, hs', m, hm⟩ := runs_endEvaluation hs₂ hc f
  refine ⟨s, hs'.trans (by rw [hf]), max n m, fun k hk' => ?_⟩
  have hx : expression k .loosest p = _ := hn k (by omega)
  have heval : evaluationFirst k p = _ := (bind_of_ok hx).trans (hm k (by omega))
  have hnot : ¬ Declares p := by
    apply not_declares_of_expression hp hk hx
    rw [hk₁]
    exact Kind.noConfusion
  exact (nameFirst_evaluates hp hk hnot).2 heval

theorem type_begins {τ α : Type} {g : Terminals τ α} {ts : List τ} {t : TypeRef α}
    (h : IsType g ts t) : ∃ s us, ts = s :: us ∧
      match t.base with
      | .primitive b => g.kind s = .keyword b.keyword
      | .named _ => g.kind s = .identifier := by
  induction h with
  | primitive h => exact ⟨_, _, rfl, h⟩
  | named h => exact ⟨_, _, rfl, h⟩
  | array ht ho hc ih =>
    obtain ⟨s, us, rfl, h⟩ := ih
    exact ⟨s, _, rfl, h⟩

/-- What begins a statement neither closes a block nor begins a second branch. -/
theorem statement_begins {τ α : Type} {g : Terminals τ α} {ts : List τ} {s : Statement α}
    (h : IsStatement g ts s) : ∃ t us, ts = t :: us ∧ g.kind t ≠ .mark .closeCurly ∧
      g.kind t ≠ .eof ∧ g.kind t ≠ .keyword .elseWord := by
  cases h with
  | block hs =>
    cases hs with
    | mk ho hs hc => exact ⟨_, _, rfl, by rw [ho]; decide⟩
  | whileLoop hw => exact ⟨_, _, rfl, by rw [hw]; decide⟩
  | ifThen hw => exact ⟨_, _, rfl, by rw [hw]; decide⟩
  | ifElse hw => exact ⟨_, _, rfl, by rw [hw]; decide⟩
  | breakLoop hw => exact ⟨_, _, rfl, by rw [hw]; decide⟩
  | returnNothing hw => exact ⟨_, _, rfl, by rw [hw]; decide⟩
  | returnValue hw => exact ⟨_, _, rfl, by rw [hw]; decide⟩
  | variableDecl ht hn hc =>
    obtain ⟨t, us, rfl, h⟩ := type_begins ht
    refine ⟨t, _, rfl, ?_⟩
    split at h
    · rename_i b _
      rw [h]
      cases b <;> decide
    · rw [h]
      decide
  | evaluation he hc =>
    obtain ⟨t, us, rule, rfl, h⟩ := expression_begins he
    refine ⟨t, _, rfl, ?_, ?_, ?_⟩ <;> intro hk <;> rw [hk] at h <;> cases h

theorem opening_of_leading {k : Kind} {rule : Leading} (h : Tables.standard.leading k = some rule)
    (hk : k ≠ .identifier) : Tables.standard.opening k = none := by
  have hl := leading_standard h
  cases rule with
  | atom =>
    obtain h | h | h | h | h := hl
    · rw [h]
      rfl
    · rw [h]
      rfl
    · exact absurd h hk
    · rw [h]
      rfl
    · rw [h]
      rfl
  | negation =>
    rw [show k = _ from hl]
    rfl
  | grouping =>
    rw [show k = _ from hl]
    rfl
  | arrayLiteral =>
    rw [show k = _ from hl]
    rfl

theorem runs_opening (hp : p.tables = .standard) {R : Opening} {s : Statement Unit}
    (ht : Tables.standard.opening p.current.kind = some R)
    (hx : Runs statementSaid (fun n => opening n (statement n) (statements n) R) p s q) :
    Runs statementSaid statement p s q := by
  apply Runs.call
  simp only [statement_succ]
  rw [← hp] at ht
  apply runs_lookup ht
  exact hx

def ReadableStatement (ts : List Symbol) (s : Statement Unit) : Prop :=
  ∀ p q, p.tables = .standard → Spells p ts q →
    (endsOpen s → q.current.kind ≠ .keyword .elseWord) → Runs statementSaid statement p s q

def ReadableStatements (ts : List Symbol) (ss : List (Statement Unit)) : Prop :=
  ∀ p q, p.tables = .standard → Spells p ts q → q.current.kind = .mark .closeCurly →
    Runs statementsSaid statements p ss q

def ReadableBlock (ts : List Symbol) (ss : List (Statement Unit)) : Prop :=
  ∀ p q, p.tables = .standard → Spells p ts q →
    Runs (fun b => statementsSaid b.body) (fun n => block (statements n)) p ss q

section

variable {w n o c : Symbol} {cs ts us : List Symbol} {e : Expression Unit} {s s' : Statement Unit}
  {ss : List (Statement Unit)}

theorem runs_condition (h : IsCondition symbols cs e) (hp : p.tables = .standard)
    (hs : Spells p cs q) : Runs said condition p e q := by
  cases h with
  | @mk o c ts e ho he hc =>
    have hq := hs.tables.trans hp
    obtain ⟨p₁, ho', hs⟩ := hs.expect ho
    obtain ⟨p₂, hs₁, hs₂⟩ := hs.split
    have hk : p₂.current.kind = .mark .closeParen := hs₂.kind.trans hc
    have hin := (expression_readable he).runs (hs.tables.symm.trans hq) hs₁ (by rw [hk]; rfl)
    obtain ⟨p₃, hc', hn⟩ := hs₂.expect hc
    obtain rfl := hn.nil
    exact ho'.bind fun _ _ => hin.bind fun e he => hc'.bind fun _ _ => runs_pure he

theorem readable_block (ho : o.1 = .mark .openCurly) (hx : ReadableStatements ts ss)
    (hc : c.1 = .mark .closeCurly) : ReadableBlock (o :: ts ++ [c]) ss := by
  intro p q hp hs
  have hq := hs.tables.trans hp
  obtain ⟨p₁, ho', hs⟩ := hs.expect ho
  obtain ⟨p₂, hs₁, hs₂⟩ := hs.split
  have hin := hx p₁ p₂ (hs.tables.symm.trans hq) hs₁ (hs₂.kind.trans hc)
  obtain ⟨p₃, hc', hn⟩ := hs₂.expect hc
  obtain rfl := hn.nil
  exact ho'.bind fun _ _ => hin.bind fun ss hss => hc'.bind fun _ _ =>
    runs_previousEnd (runs_pure hss)

theorem readable_blockStatement (hb : IsBlock symbols ts ss) (hx : ReadableBlock ts ss) :
    ReadableStatement ts (.block ss ()) := by
  intro p q hp hs _
  have hk : p.current.kind = .mark .openCurly := by
    cases hb with
    | mk ho hs' hc => exact hs.kind.trans ho
  apply runs_opening (R := .block) hp (by rw [hk]; rfl)
  refine (hx p q hp hs).bind fun b hb => runs_pure ?_
  rw [statementSaid, Statement.mapNote, ← hb]

theorem readable_whileLoop (hw : w.1 = .keyword .whileWord) (hc : IsCondition symbols cs e)
    (hx : ReadableBlock ts ss) :
    ReadableStatement (w :: cs ++ ts) (.whileLoop e ss () ()) := by
  intro p q hp hs _
  have hq := hs.tables.trans hp
  have hk := hs.kind.trans hw
  obtain ⟨p₁, hw', hs⟩ := hs.advance
  obtain ⟨p₂, hs₁, hs₂⟩ := hs.split
  have hcond := runs_condition hc (hs.tables.symm.trans hq) hs₁
  have hin := hx p₂ q (hs₂.tables.symm.trans hq) hs₂
  apply runs_opening (R := .whileLoop) hp (by rw [hk]; rfl)
  refine hw'.bind fun _ _ => hcond.bind fun e he => hin.bind fun b hb =>
    runs_previousEnd (runs_pure ?_)
  rw [statementSaid, Statement.mapNote, ← he, ← hb]

theorem readable_ifThen (hw : w.1 = .keyword .ifWord) (hc : IsCondition symbols cs e)
    (hx : ReadableStatement ts s) : ReadableStatement (w :: cs ++ ts) (.ifThen e s ()) := by
  intro p q hp hs hend
  have hq := hs.tables.trans hp
  have hk := hs.kind.trans hw
  have helse : q.current.kind ≠ .keyword .elseWord := hend rfl
  obtain ⟨p₁, hw', hs⟩ := hs.advance
  obtain ⟨p₂, hs₁, hs₂⟩ := hs.split
  have hcond := runs_condition hc (hs.tables.symm.trans hq) hs₁
  have hin := hx p₂ q (hs₂.tables.symm.trans hq) hs₂ fun _ => helse
  apply runs_opening (R := .conditional) hp (by rw [hk]; rfl)
  refine hw'.bind fun _ _ => hcond.bind fun e he => hin.bind fun s hs =>
    runs_kind (runs_else helse (runs_previousEnd (runs_pure ?_)))
  rw [statementSaid, Statement.mapNote, ← he, ← hs]

theorem readable_ifElse (hw : w.1 = .keyword .ifWord) (hc : IsCondition symbols cs e)
    (hx : ReadableStatement ts s) (ho : endsOpen s = false) (hn : n.1 = .keyword .elseWord)
    (hy : ReadableStatement us s') :
    ReadableStatement (w :: cs ++ ts ++ n :: us) (.ifElse e s s' ()) := by
  intro p q hp hs hend
  have hq := hs.tables.trans hp
  rw [List.append_assoc] at hs
  have hk := hs.kind.trans hw
  obtain ⟨p₁, hw', hs⟩ := hs.advance
  obtain ⟨p₂, hs₁, hs₂⟩ := hs.split
  have hcond := runs_condition hc (hs.tables.symm.trans hq) hs₁
  obtain ⟨p₃, hs₃, hs₄⟩ := hs₂.split
  have helse := hs₄.kind.trans hn
  have hyes := hx p₂ p₃ (hs₂.tables.symm.trans hq) hs₃ fun h => by
    rw [ho] at h
    cases h
  obtain ⟨p₄, hn', hs₅⟩ := hs₄.advance
  have hno := hy p₄ q (hs₅.tables.symm.trans hq) hs₅ hend
  apply runs_opening (R := .conditional) hp (by rw [hk]; rfl)
  refine hw'.bind fun _ _ => hcond.bind fun e he => hyes.bind fun s hs =>
    runs_kind (runs_if helse (hn'.bind fun _ _ => hno.bind fun t ht =>
      runs_previousEnd (runs_pure ?_)))
  rw [statementSaid, Statement.mapNote, ← he, ← hs, ← ht]

theorem readable_breakLoop (hw : w.1 = .keyword .breakWord) (hc : c.1 = .mark .semicolon) :
    ReadableStatement [w, c] (.breakLoop ()) := by
  intro p q hp hs _
  have hk := hs.kind.trans hw
  obtain ⟨p₁, hw', hs⟩ := hs.advance
  obtain ⟨p₂, hc', hn⟩ := hs.expect hc
  obtain rfl := hn.nil
  apply runs_opening (R := .breakLoop) hp (by rw [hk]; rfl)
  refine hw'.bind fun _ _ => hc'.bind fun _ _ => runs_previousEnd (runs_pure ?_)
  rw [statementSaid, Statement.mapNote]

theorem readable_returnNothing (hw : w.1 = .keyword .returnWord) (hc : c.1 = .mark .semicolon) :
    ReadableStatement [w, c] (.returnValue none ()) := by
  intro p q hp hs _
  have hk := hs.kind.trans hw
  obtain ⟨p₁, hw', hs⟩ := hs.advance
  have hk₁ := hs.kind.trans hc
  obtain ⟨p₂, hc', hn⟩ := hs.advance
  obtain rfl := hn.nil
  apply runs_opening (R := .returnValue) hp (by rw [hk]; rfl)
  refine hw'.bind fun _ _ => runs_kind (runs_if hk₁ (hc'.bind fun _ _ =>
    runs_previousEnd (runs_pure ?_)))
  rw [statementSaid, Statement.mapNote]
  rfl

theorem readable_returnValue (hw : w.1 = .keyword .returnWord)
    (he : IsExpression symbols .assignment ts e) (hc : c.1 = .mark .semicolon) :
    ReadableStatement (w :: ts ++ [c]) (.returnValue (some e) ()) := by
  intro p q hp hs _
  have hq := hs.tables.trans hp
  have hk := hs.kind.trans hw
  obtain ⟨p₁, hw', hs⟩ := hs.advance
  obtain ⟨p₂, hs₁, hs₂⟩ := hs.split
  have hk₂ := hs₂.kind.trans hc
  have hfirst : p₁.current.kind ≠ .mark .semicolon := by
    obtain ⟨t, vs, rule, rfl, ht⟩ := expression_begins he
    intro hk
    rw [show symbols.kind t = .mark .semicolon from hs₁.kind.symm.trans hk] at ht
    cases ht
  have hin := (expression_readable he).runs (hs.tables.symm.trans hq) hs₁ (by rw [hk₂]; rfl)
  obtain ⟨p₃, hc', hn⟩ := hs₂.expect hc
  obtain rfl := hn.nil
  apply runs_opening (R := .returnValue) hp (by rw [hk]; rfl)
  refine hw'.bind fun _ _ => runs_kind (runs_else hfirst (hin.bind fun e he =>
    hc'.bind fun _ _ => runs_previousEnd (runs_pure ?_)))
  rw [statementSaid, Statement.mapNote, ← he]
  rfl

theorem readable_variableDecl {t : TypeRef Unit} (ht : IsType symbols ts t)
    (hn : n.1 = .identifier) (hc : c.1 = .mark .semicolon) :
    ReadableStatement (ts ++ [n, c]) (.variableDecl t n.2 ()) := by
  intro p q hp hs _
  have hq := hs.tables.trans hp
  obtain ⟨p₁, hs₁, hs₂⟩ := hs.split
  have hk₁ := hs₂.kind.trans hn
  obtain ⟨s, us, rfl, hk⟩ := type_begins ht
  split at hk
  · rename_i b hb
    have hin := runs_typeAll ht hp hs₁ (by rw [hk₁]; exact Kind.noConfusion)
    refine runs_opening (R := .declaration) hp ?_ (hin.bind fun t ht => ?_)
    · rw [hs₁.kind, show s.1 = .keyword b.keyword from hk]
      cases b <;> rfl
    · rw [← ht]
      exact runs_endDeclaration hs₂ hn hc t
  · rename_i name hb
    refine runs_opening (R := .name) hp ?_ (runs_nameFirst ht hb hs₁ fun e => Runs.call ?_)
    · rw [hs₁.kind, show s.1 = .identifier from hk]
      rfl
    · refine runs_kind (runs_else (by rw [hk₁]; exact Kind.noConfusion)
        (runs_kind (runs_if hk₁ ?_)))
      have heq : typeSaid ⟨.named name, t.depth, e.note⟩ = t := by
        rw [← hb]
        rfl
      have hend := runs_endDeclaration hs₂ hn hc ⟨.named name, t.depth, e.note⟩
      rw [heq] at hend
      exact hend

theorem readable_evaluation (he : IsExpression symbols .assignment ts e)
    (hc : c.1 = .mark .semicolon) : ReadableStatement (ts ++ [c]) (.evaluation e ()) := by
  intro p q hp hs _
  have hq := hs.tables.trans hp
  obtain ⟨o, us, rule, rfl, ht⟩ := expression_begins he
  by_cases ho : o.1 = .identifier
  · exact runs_opening (R := .name) hp (by rw [hs.kind, ho]; rfl)
      (runs_nameEvaluation he ho hp hs hc)
  · have hk : p.tables.opening p.current.kind = none := by
      rw [hp, hs.kind]
      exact opening_of_leading ht ho
    obtain ⟨p₁, hs₁, hs₂⟩ := hs.split
    have hin := (expression_readable he).runs hp hs₁ (by rw [hs₂.kind, hc]; rfl)
    apply Runs.call
    simp only [statement_succ]
    apply runs_lookup hk
    refine hin.bind fun e he => ?_
    rw [← he]
    exact runs_endEvaluation hs₂ hc e

theorem readableStatements_nil : ReadableStatements [] [] := by
  intro p q hp hs hq
  obtain rfl := hs.nil
  exact Runs.call (runs_kind (runs_if hq (runs_pure rfl)))

theorem readableStatements_cons (h : IsStatement symbols ts s) (hx : ReadableStatement ts s)
    (hr : IsStatements symbols us ss) (hy : ReadableStatements us ss) :
    ReadableStatements (ts ++ us) (s :: ss) := by
  intro p q hp hs hq
  obtain ⟨p₁, hs₁, hs₂⟩ := hs.split
  obtain ⟨t, vs, rfl, hclose, heof, -⟩ := statement_begins h
  have hnext : p₁.current.kind ≠ .keyword .elseWord := by
    cases hr with
    | nil =>
      rw [hs₂.nil, hq]
      decide
    | cons hs' hr' =>
      obtain ⟨t', vs', rfl, -, -, helse⟩ := statement_begins hs'
      rw [hs₂.kind]
      exact helse
  have hone := hx p p₁ hp hs₁ fun _ => hnext
  have hmany := hy p₁ q (hs₁.tables.trans hp) hs₂ hq
  refine Runs.call (runs_kind (runs_else (by rw [hs₁.kind]; exact hclose) ?_))
  refine runs_kind (runs_else (by rw [hs₁.kind]; exact heof) ?_)
  refine hone.bind fun s hs => hmany.bind fun ss hss => runs_pure ?_
  rw [statementsSaid, Statement.mapNotes, ← hs, ← hss]

end

mutual

theorem statement_readable {ts : List Symbol} {s : Statement Unit} :
    IsStatement symbols ts s → ReadableStatement ts s
  | .block hs => readable_blockStatement hs (block_readable hs)
  | .whileLoop hw hc hs => readable_whileLoop hw hc (block_readable hs)
  | .ifThen hw hc hs => readable_ifThen hw hc (statement_readable hs)
  | .ifElse hw hc hs ho he ht =>
    readable_ifElse hw hc (statement_readable hs) ho he (statement_readable ht)
  | .breakLoop hw hc => readable_breakLoop hw hc
  | .returnNothing hw hc => readable_returnNothing hw hc
  | .returnValue hw he hc => readable_returnValue hw he hc
  | .variableDecl ht hn hc => readable_variableDecl ht hn hc
  | .evaluation he hc => readable_evaluation he hc

theorem statements_readable {ts : List Symbol} {ss : List (Statement Unit)} :
    IsStatements symbols ts ss → ReadableStatements ts ss
  | .nil => readableStatements_nil
  | .cons hs hr =>
    readableStatements_cons hs (statement_readable hs) hr (statements_readable hr)

theorem block_readable {ts : List Symbol} {ss : List (Statement Unit)} :
    IsBlock symbols ts ss → ReadableBlock ts ss
  | .mk ho hs hc => readable_block ho (statements_readable hs) hc

end

end ModuleSyntax.Proofs.RunningStatement
