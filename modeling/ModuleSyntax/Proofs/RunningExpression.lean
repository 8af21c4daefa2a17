import ModuleSyntax.Proofs.Levels
import ModuleSyntax.Proofs.Running

namespace ModuleSyntax.Proofs.RunningExpression

open Parse Motion Notes Grammar Symbols Levels Running

variable {τ α : Type} {g : Terminals τ α}

theorem expression_begins {l : Power} {ts : List τ} {e : Expression α} :
    IsExpression g l ts e → ∃ t us rule, ts = t :: us ∧
      Tables.standard.leading (g.kind t) = some rule
  | .int h => ⟨_, _, .atom, rfl, by rw [h]; rfl⟩
  | .string h => ⟨_, _, .atom, rfl, by rw [h]; rfl⟩
  | .yes h => ⟨_, _, .atom, rfl, by rw [h]; rfl⟩
  | .no h => ⟨_, _, .atom, rfl, by rw [h]; rfl⟩
  | .symbol h => ⟨_, _, .atom, rfl, by rw [h]; rfl⟩
  | .group ho _ _ => ⟨_, _, .grouping, rfl, by rw [ho]; rfl⟩
  | .array ho _ => ⟨_, _, .arrayLiteral, rfl, by rw [ho]; rfl⟩
  | .negation ho _ => ⟨_, _, .negation, rfl, by rw [ho]; rfl⟩
  | .call hf _ _ => by
    obtain ⟨t, us, rule, rfl, h⟩ := expression_begins hf
    exact ⟨t, _, rule, rfl, h⟩
  | .index hb _ _ _ => by
    obtain ⟨t, us, rule, rfl, h⟩ := expression_begins hb
    exact ⟨t, _, rule, rfl, h⟩
  | .emptyIndex hb _ _ => by
    obtain ⟨t, us, rule, rfl, h⟩ := expression_begins hb
    exact ⟨t, _, rule, rfl, h⟩
  | .binary ha _ _ => by
    obtain ⟨t, us, rule, rfl, h⟩ := expression_begins ha
    exact ⟨t, _, rule, rfl, h⟩
  | .assignment ha _ _ _ => by
    obtain ⟨t, us, rule, rfl, h⟩ := expression_begins ha
    exact ⟨t, _, rule, rfl, h⟩
  | .looser _ he => expression_begins he

theorem items_begin {ts : List τ} {es : List (Expression α)} (h : IsItems g ts es) :
    ∃ t us rule, ts = t :: us ∧ Tables.standard.leading (g.kind t) = some rule := by
  cases h with
  | one he => exact expression_begins he
  | more he hc hs =>
    obtain ⟨t, us, rule, rfl, h⟩ := expression_begins he
    exact ⟨t, _, rule, rfl, h⟩

/-- No operand of the level goes on with the current token. Assignments group to the right, so that
one goes on with another. -/
def Ends (l : Power) (p : Parser) : Prop := Held p (if l = .assignment then .loosest else l)

theorem Ends.looser {p : Parser} {l m : Power} (h : Ends l p) (hl : l ≤ m) : Ends m p := by
  apply Held.mono h
  revert hl
  cases l <;> cases m <;> decide

theorem ends_of_none {p : Parser} (h : Tables.standard.trailing p.current.kind = none) (l : Power) :
    Ends l p := by
  intro held rule ht
  rw [h] at ht
  cases ht

theorem not_le_of_tighter {l m : Power} (h : tighter m ≤ l) (hm : m ≤ .unary) (hl : l ≠ .unary) :
    ¬ l ≤ m := by
  revert h hm hl
  cases l <;> cases m <;> decide

abbrev said : Expression Span → Expression Unit := Expression.mapNote fun _ => ()

/-- A chain stops where the token holds no tighter than it may. -/
theorem runs_chain_stop {q : Parser} (hq : q.tables = .standard) {power : Power}
    (hh : Held q power) (e : Expression Span) :
    Runs said (fun n => chain n e power) q (said e) q := by
  apply Runs.call
  simp only [chain_succ]
  cases ht : Tables.standard.trailing q.current.kind with
  | none =>
    rw [← hq] at ht
    apply runs_lookup ht
    exact runs_pure rfl
  | some entry =>
    obtain ⟨held, rule⟩ := entry
    have hle := hh held rule ht
    rw [← hq] at ht
    apply runs_lookup ht
    exact runs_if hle (runs_pure rfl)

variable {p q r : Parser} {power held : Power} {left : Expression Span} {e f : Expression Unit}

theorem runs_chain (hp : p.tables = .standard) {rule : Trailing}
    (ht : Tables.standard.trailing p.current.kind = some (held, rule)) (hh : ¬ held ≤ power)
    (hx : Runs said (fun n => trailing (expression n) (items n) rule left held) p e q)
    (hc : ∀ e', said e' = e → Runs said (fun n => chain n e' power) q f r) :
    Runs said (fun n => chain n left power) p f r := by
  apply Runs.call
  simp only [chain_succ]
  rw [← hp] at ht
  apply runs_lookup ht
  apply runs_else hh
  exact hx.bind hc

theorem runs_expression (hp : p.tables = .standard) {rule : Leading}
    (ht : Tables.standard.leading p.current.kind = some rule)
    (hx : Runs said (fun n => leading (expression n) (items n) rule) p e q)
    (hc : ∀ e', said e' = e → Runs said (fun n => chain n e' power) q f r) :
    Runs said (fun n => expression n power) p f r := by
  apply Runs.call
  simp only [expression_succ]
  rw [← hp] at ht
  apply runs_lookup ht
  exact hx.bind hc

/-- The tokens are read as an expression that a chain can go on with, whatever has been asked for
that is no tighter than the level. -/
def Derives (l : Power) (p : Parser) (e : Expression Unit) (q : Parser) : Prop :=
  ∀ power, tighter power ≤ l → power ≤ .unary → ∀ f r,
    (∀ e', said e' = e → Runs said (fun n => chain n e' power) q f r) →
      Runs said (fun n => expression n power) p f r

theorem Derives.runs {l : Power} (h : Derives l p e q) (hq : q.tables = .standard)
    (hl : tighter power ≤ l) (hu : power ≤ .unary) (hh : Held q power) :
    Runs said (fun n => expression n power) p e q :=
  h power hl hu e q fun e' he => he ▸ runs_chain_stop hq hh e'

theorem derives_leading {l : Power} {R : Leading} (hp : p.tables = .standard)
    (ht : Tables.standard.leading p.current.kind = some R)
    (hx : Runs said (fun n => leading (expression n) (items n) R) p e q) : Derives l p e q :=
  fun _ _ _ _ _ hc => runs_expression hp ht hx hc

theorem Derives.trailing {l m : Power} {R : Trailing} (h : Derives m p e q)
    (hq : q.tables = .standard)
    (ht : Tables.standard.trailing q.current.kind = some (l, R)) (hl : l ≠ .unary) (hm : l ≤ m)
    (hx : ∀ e', said e' = e →
      Runs said (fun n => Parse.trailing (expression n) (items n) R e' l) q f r) :
    Derives l p f r := by
  refine fun power hle hu f' r' hc => h power (Power.le_trans hle hm) hu f' r' fun e' he => ?_
  exact runs_chain hq ht (not_le_of_tighter hle hu hl) (hx e' he) hc

/-- Symbols that are read as the expression, where nothing goes on with it. -/
def Readable (l : Power) (ts : List Symbol) (e : Expression Unit) : Prop :=
  ∀ p q, p.tables = .standard → Spells p ts q → Ends l q → Derives l p e q

abbrev allSaid : List (Expression Span) → List (Expression Unit) :=
  Expression.mapNotes fun _ => ()

def ReadableItems (ts : List Symbol) (es : List (Expression Unit)) : Prop :=
  ∀ p q, p.tables = .standard → Spells p ts q →
    Tables.standard.trailing q.current.kind = none → q.current.kind ≠ .mark .comma →
    Runs allSaid items p es q

def ReadableClosed (close : Mark) (ts : List Symbol) (es : List (Expression Unit)) : Prop :=
  ∀ p q, p.tables = .standard → Spells p ts q →
    Runs allSaid (fun n => closedList (items n) close) p es q

section

variable {s o c : Symbol} {ts us : List Symbol} {a b : Expression Unit} {l m : Power}
  {es : List (Expression Unit)}

theorem Readable.looser (h : Readable m ts a) (hl : l ≤ m) : Readable l ts a :=
  fun p q hp hs hq power hle hu => h p q hp hs (hq.looser hl) power (Power.le_trans hle hl) hu

/-- An expression in full, before a token that goes on with none. -/
theorem Readable.runs (h : Readable .assignment ts a) (hp : p.tables = .standard)
    (hs : Spells p ts q) (hq : Tables.standard.trailing q.current.kind = none) :
    Runs said (fun n => expression n .loosest) p a q :=
  (h p q hp hs (ends_of_none hq _)).runs (hs.tables.trans hp) (by decide) (by decide)
    fun _ _ ht => by
    rw [hq] at ht
    cases ht

theorem readable_atom (ht : Tables.standard.leading s.1 = some .atom)
    (hx : ∀ p q, Runs symbol (fun _ => advance) p s q → Runs said (fun _ => atom) p a q) :
    Readable .primary [s] a := by
  intro p q hp hs _
  obtain ⟨r, hr, hn⟩ := hs.advance
  obtain rfl := hn.nil
  exact derives_leading (R := .atom) hp (by rw [hs.kind, ht]) (hx p r hr)

theorem readable_int (h : s.1 = .intLiteral) : Readable .primary [s] (.int s.2 ()) := by
  refine readable_atom (by rw [h]; rfl) fun p q hr => hr.bind fun t ht => ?_
  subst ht
  rw [show t.kind = .intLiteral from h]
  exact runs_pure rfl

theorem readable_string (h : s.1 = .stringLiteral) : Readable .primary [s] (.string s.2 ()) := by
  refine readable_atom (by rw [h]; rfl) fun p q hr => hr.bind fun t ht => ?_
  subst ht
  rw [show t.kind = .stringLiteral from h]
  exact runs_pure rfl

theorem readable_yes (h : s.1 = .keyword .trueWord) : Readable .primary [s] (.bool true ()) := by
  refine readable_atom (by rw [h]; rfl) fun p q hr => hr.bind fun t ht => ?_
  subst ht
  rw [show t.kind = .keyword .trueWord from h]
  exact runs_pure rfl

theorem readable_no (h : s.1 = .keyword .falseWord) : Readable .primary [s] (.bool false ()) := by
  refine readable_atom (by rw [h]; rfl) fun p q hr => hr.bind fun t ht => ?_
  subst ht
  rw [show t.kind = .keyword .falseWord from h]
  exact runs_pure rfl

theorem readable_symbol (h : s.1 = .identifier) : Readable .primary [s] (.symbol s.2 ()) := by
  refine readable_atom (by rw [h]; rfl) fun p q hr => hr.bind fun t ht => ?_
  subst ht
  rw [show t.kind = .identifier from h]
  exact runs_pure rfl

theorem readable_group (ho : o.1 = .mark .openParen) (ha : Readable .assignment ts a)
    (hc : c.1 = .mark .closeParen) : Readable .primary (o :: ts ++ [c]) a := by
  intro p q hp hs _
  have hq := hs.tables.trans hp
  have hk := hs.kind.trans ho
  obtain ⟨p₁, ho', hs⟩ := hs.advance
  obtain ⟨p₂, hs₁, hs₂⟩ := hs.split
  have hin := ha.runs (hs.tables.symm.trans hq) hs₁ (by rw [hs₂.kind, hc]; rfl)
  obtain ⟨p₃, hc', hn⟩ := hs₂.expect hc
  obtain rfl := hn.nil
  refine derives_leading (R := .grouping) hp (by rw [hk]; rfl) (ho'.bind fun t _ => ?_)
  refine hin.bind fun e he => hc'.bind fun _ _ => runs_previousEnd (runs_pure ?_)
  rw [said, mapNote_withNote, withNote_unit]
  exact he

theorem readable_array (ho : o.1 = .mark .openBracket) (hx : ReadableClosed .closeBracket ts es) :
    Readable .primary (o :: ts) (.array es ()) := by
  intro p q hp hs _
  have hq := hs.tables.trans hp
  have hk := hs.kind.trans ho
  obtain ⟨p₁, ho', hs⟩ := hs.advance
  have hin := hx p₁ q (hs.tables.symm.trans hq) hs
  refine derives_leading (R := .arrayLiteral) hp (by rw [hk]; rfl) (ho'.bind fun t _ => ?_)
  refine hin.bind fun es he => runs_previousEnd (runs_pure ?_)
  rw [← he, said, Expression.mapNote]

theorem readable_negation (ho : o.1 = .mark .dash) (ha : Readable .unary ts a) :
    Readable .unary (o :: ts) (.negation a ()) := by
  intro p q hp hs hend
  have hq := hs.tables.trans hp
  have hk := hs.kind.trans ho
  obtain ⟨p₁, ho', hs⟩ := hs.advance
  have hin := (ha p₁ q (hs.tables.symm.trans hq) hs hend).runs hq (Power.le_refl _)
    (Power.le_refl _) hend
  refine derives_leading (R := .negation) hp (by rw [hk]; rfl) (ho'.bind fun t _ => ?_)
  refine hin.bind fun e he => runs_pure ?_
  rw [← he, said, Expression.mapNote]

theorem readable_call (ha : Readable .call ts a) (ho : o.1 = .mark .openParen)
    (hx : ReadableClosed .closeParen us es) : Readable .call (ts ++ o :: us) (.call a es ()) := by
  intro p q hp hs _
  have hq := hs.tables.trans hp
  obtain ⟨p₁, hs₁, hs⟩ := hs.split
  have hk := hs.kind.trans ho
  have hp₁ := hs.tables.symm.trans hq
  refine (ha p p₁ hp hs₁ (held_call p₁)).trailing (R := .call) hp₁ (by rw [hk]; rfl) (by decide)
    (Power.le_refl _) fun e he => ?_
  obtain ⟨p₂, ho', hs⟩ := hs.advance
  have hin := hx p₂ q (hs.tables.symm.trans hq) hs
  refine ho'.bind fun t _ => hin.bind fun es hes => runs_previousEnd (runs_pure ?_)
  rw [← he, ← hes, said, Expression.mapNote]

theorem readable_index (ha : Readable .call ts a) (ho : o.1 = .mark .openBracket)
    (hi : IsExpression symbols .assignment us b) (hb : Readable .assignment us b)
    (hc : c.1 = .mark .closeBracket) :
    Readable .call (ts ++ o :: us ++ [c]) (.index a b ()) := by
  intro p q hp hs _
  have hq := hs.tables.trans hp
  rw [List.append_assoc] at hs
  obtain ⟨p₁, hs₁, hs⟩ := hs.split
  have hk := hs.kind.trans ho
  have hp₁ := hs.tables.symm.trans hq
  refine (ha p p₁ hp hs₁ (held_call p₁)).trailing (R := .index) hp₁ (by rw [hk]; rfl) (by decide)
    (Power.le_refl _) fun e he => ?_
  obtain ⟨p₂, ho', hs⟩ := hs.advance
  obtain ⟨p₃, hs₂, hs₃⟩ := hs.split
  have hfirst : p₂.current.kind ≠ .mark .closeBracket := by
    obtain ⟨t, vs, rule, rfl, ht⟩ := expression_begins hi
    intro hk
    rw [show symbols.kind t = .mark .closeBracket from hs₂.kind.symm.trans hk] at ht
    cases ht
  have hin := hb.runs (hs.tables.symm.trans hq) hs₂ (by rw [hs₃.kind, hc]; rfl)
  obtain ⟨p₄, hc', hn⟩ := hs₃.expect hc
  obtain rfl := hn.nil
  refine ho'.bind fun t _ => runs_kind (runs_else hfirst ?_)
  refine hin.bind fun f hf => hc'.bind fun _ _ => runs_previousEnd (runs_pure ?_)
  rw [← he, ← hf, said, Expression.mapNote]

theorem readable_emptyIndex (ha : Readable .call ts a) (ho : o.1 = .mark .openBracket)
    (hc : c.1 = .mark .closeBracket) : Readable .call (ts ++ [o, c]) (.emptyIndex a ()) := by
  intro p q hp hs _
  have hq := hs.tables.trans hp
  obtain ⟨p₁, hs₁, hs⟩ := hs.split
  have hk := hs.kind.trans ho
  have hp₁ := hs.tables.symm.trans hq
  refine (ha p p₁ hp hs₁ (held_call p₁)).trailing (R := .index) hp₁ (by rw [hk]; rfl) (by decide)
    (Power.le_refl _) fun e he => ?_
  obtain ⟨p₂, ho', hs⟩ := hs.advance
  have hk₂ := hs.kind.trans hc
  obtain ⟨p₃, hc', hn⟩ := hs.advance
  obtain rfl := hn.nil
  refine ho'.bind fun t _ => runs_kind (runs_if hk₂ ?_)
  refine hc'.bind fun _ _ => runs_previousEnd (runs_pure ?_)
  rw [← he, said, Expression.mapNote]

theorem readable_binary {op : BinaryOp} (ha : Readable (Grammar.power op) ts a)
    (ho : o.1 = .mark op.mark) (hb : Readable (tighter (Grammar.power op)) us b) :
    Readable (Grammar.power op) (ts ++ o :: us) (.binary op a b ()) := by
  intro p q hp hs hend
  have hq := hs.tables.trans hp
  obtain ⟨p₁, hs₁, hs⟩ := hs.split
  have hk := hs.kind.trans ho
  have hp₁ := hs.tables.symm.trans hq
  have ht : Tables.standard.trailing p₁.current.kind = some (Grammar.power op, .binary) := by
    rw [hk, trailing_operator]
  have hne : Grammar.power op ≠ .unary ∧ Grammar.power op ≠ .assignment := by
    cases op <;> decide
  have hend₁ : Ends (Grammar.power op) p₁ := by
    rw [Ends, if_neg hne.2]
    intro held rule h
    rw [ht] at h
    cases h
    exact Power.le_refl _
  refine (ha p p₁ hp hs₁ hend₁).trailing hp₁ ht hne.1 (Power.le_refl _) fun e he => ?_
  obtain ⟨p₂, ho', hs⟩ := hs.advance
  rw [Ends, if_neg hne.2] at hend
  have hlevel : Grammar.power op ≤ .unary ∧ Grammar.power op ≤ tighter (Grammar.power op) := by
    cases op <;> decide
  have hin := (hb p₂ q (hs.tables.symm.trans hq) hs
    (Ends.looser (l := Grammar.power op) (by rwa [Ends, if_neg hne.2]) hlevel.2)).runs hq
      (Power.le_refl _) hlevel.1 hend
  refine ho'.bind fun t ht => ?_
  rw [show t.kind = .mark op.mark from (congrArg Prod.fst ht).trans ho]
  rw [BinaryOp.ofKind?_eq_some_iff.2 rfl]
  refine hin.bind fun f hf => runs_pure ?_
  rw [← he, ← hf, said, Expression.mapNote]

theorem readable_assignment (ha : Readable .equality ts a) (ht : Assignable a)
    (ho : o.1 = .mark .assignment) (hb : Readable .assignment us b) :
    Readable .assignment (ts ++ o :: us) (.assignment a b ()) := by
  intro p q hp hs hend
  have hq := hs.tables.trans hp
  obtain ⟨p₁, hs₁, hs⟩ := hs.split
  have hk := hs.kind.trans ho
  have hp₁ := hs.tables.symm.trans hq
  have ht' : Tables.standard.trailing p₁.current.kind = some (.assignment, .assignment) := by
    rw [hk]
    rfl
  have hend₁ : Ends .equality p₁ := by
    intro held rule h
    rw [ht'] at h
    cases h
    decide
  refine (ha p p₁ hp hs₁ hend₁).trailing hp₁ ht' (by decide) (by decide) fun e he => ?_
  obtain ⟨p₂, ho', hs⟩ := hs.advance
  have hin := (hb p₂ q (hs.tables.symm.trans hq) hs hend).runs hq (by decide) (by decide) hend
  have hte : e.isTarget := by
    rw [← he, assignable_mapNote] at ht
    exact isTarget_iff.2 ht
  apply runs_if hte
  refine ho'.bind fun t _ => hin.bind fun f hf => runs_pure ?_
  rw [← he, ← hf, said, Expression.mapNote]

theorem readableItems_one (ha : Readable .assignment ts a) : ReadableItems ts [a] := by
  intro p q hp hs hq hc
  refine Runs.call ((ha.runs hp hs hq).bind fun e he => runs_kind (runs_else hc (runs_pure ?_)))
  rw [← he]
  rfl

theorem readableItems_more (ha : Readable .assignment ts a) (hc : c.1 = .mark .comma)
    (hx : ReadableItems us es) : ReadableItems (ts ++ c :: us) (a :: es) := by
  intro p q hp hs hq hend
  have ht := hs.tables.trans hp
  obtain ⟨p₁, hs₁, hs⟩ := hs.split
  have hk := hs.kind.trans hc
  have hin := ha.runs hp hs₁ (by rw [hk]; rfl)
  obtain ⟨p₂, hc', hs⟩ := hs.advance
  have hrest := hx p₂ q (hs.tables.symm.trans ht) hs hq hend
  refine Runs.call (hin.bind fun e he => runs_kind (runs_if hk ?_))
  refine hc'.bind fun _ _ => hrest.bind fun es hes => runs_pure ?_
  rw [← he, ← hes]
  rfl

theorem readableClosed_none {close : Mark} (hc : c.1 = .mark close) :
    ReadableClosed close [c] [] := by
  intro p q hp hs
  have hk := hs.kind.trans hc
  obtain ⟨p₁, hc', hn⟩ := hs.advance
  obtain rfl := hn.nil
  exact runs_kind (runs_if hk (hc'.bind fun _ _ => runs_pure rfl))

theorem readableClosed_some {close : Mark} (hs : IsItems symbols ts es) (hx : ReadableItems ts es)
    (hc : c.1 = .mark close) (hl : close = .closeParen ∨ close = .closeBracket) :
    ReadableClosed close (ts ++ [c]) es := by
  intro p q hp h
  obtain ⟨p₁, hs₁, h⟩ := h.split
  have hk := h.kind.trans hc
  have hin := hx p p₁ hp hs₁ (by rw [hk]; obtain rfl | rfl := hl <;> rfl)
    (by rw [hk]; obtain rfl | rfl := hl <;> decide)
  have hfirst : p.current.kind ≠ .mark close := by
    obtain ⟨t, us, rule, rfl, ht⟩ := items_begin hs
    intro hk
    rw [hs₁.kind] at hk
    rw [show symbols.kind t = .mark close from hk] at ht
    obtain rfl | rfl := hl <;> cases ht
  obtain ⟨p₂, hc', hn⟩ := h.advance
  obtain rfl := hn.nil
  refine runs_kind (runs_else hfirst (hin.bind fun es hes => runs_kind (runs_if hk ?_)))
  exact hc'.bind fun _ _ => runs_pure hes

end

mutual

theorem expression_readable {l : Power} {ts : List Symbol} {e : Expression Unit} :
    IsExpression symbols l ts e → Readable l ts e
  | .int h => readable_int h
  | .string h => readable_string h
  | .yes h => readable_yes h
  | .no h => readable_no h
  | .symbol h => readable_symbol h
  | .group ho he hc => by
    rw [show symbols.note _ = () from rfl, withNote_unit]
    exact readable_group ho (expression_readable he) hc
  | .array ho hs => readable_array ho (closed_readable (.inr rfl) hs)
  | .call hf ho hs => readable_call (expression_readable hf) ho (closed_readable (.inl rfl) hs)
  | .index hb ho he hc =>
    readable_index (expression_readable hb) ho he (expression_readable he) hc
  | .emptyIndex hb ho hc => readable_emptyIndex (expression_readable hb) ho hc
  | .negation ho he => readable_negation ho (expression_readable he)
  | .binary ha ho hb => readable_binary (expression_readable ha) ho (expression_readable hb)
  | .assignment ha ht ho hb =>
    readable_assignment (expression_readable ha) ht ho (expression_readable hb)
  | .looser h he => (expression_readable he).looser h

theorem items_readable {ts : List Symbol} {es : List (Expression Unit)} :
    IsItems symbols ts es → ReadableItems ts es
  | .one he => readableItems_one (expression_readable he)
  | .more he hc hs => readableItems_more (expression_readable he) hc (items_readable hs)

theorem closed_readable {close : Mark} {ts : List Symbol} {es : List (Expression Unit)}
    (hl : close = .closeParen ∨ close = .closeBracket) :
    IsClosed symbols close ts es → ReadableClosed close ts es
  | .none hc => readableClosed_none hc
  | .some hs hc => readableClosed_some hs (items_readable hs) hc hl

end

end ModuleSyntax.Proofs.RunningExpression
