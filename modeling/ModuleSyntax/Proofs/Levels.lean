import ModuleSyntax.Proofs.Symbols

namespace ModuleSyntax.Proofs.Levels

open Motion Grammar Symbols

variable {τ α : Type} {g : Terminals τ α}

theorem expression_note {l : Power} {ts : List τ} {e : Expression α} :
    IsExpression g l ts e → e.note = g.note ts
  | .int _ | .string _ | .yes _ | .no _ | .symbol _ | .array .. | .call .. | .index ..
  | .emptyIndex .. | .negation .. | .binary .. | .assignment .. => rfl
  | .group .. => Expression.note_withNote _ _
  | .looser _ he => expression_note he

theorem expression_ne_nil {l : Power} {ts : List τ} {e : Expression α} :
    IsExpression g l ts e → ts ≠ []
  | .int _ | .string _ | .yes _ | .no _ | .symbol _ | .array .. | .negation .. | .group ..
  | .call .. | .index .. | .emptyIndex .. | .binary .. | .assignment .. => by simp
  | .looser _ he => expression_ne_nil he

theorem span_from {l : Power} {ts : List Token} {e : Expression Span}
    (h : IsExpression tokens l ts e) (t : Token) :
    around (t :: ts) = ⟨t.span.start, e.note.stop⟩ := by
  have hn : e.note = around ts := expression_note h
  rw [hn, ← stop_around_append [t] (expression_ne_nil h)]
  rfl

theorem span_between {l m : Power} {us vs : List Token} {a b : Expression Span}
    (ha : IsExpression tokens l us a) (hb : IsExpression tokens m vs b) (t : Token) :
    around (us ++ t :: vs) = ⟨a.note.start, b.note.stop⟩ := by
  have hn : a.note = around us := expression_note ha
  rw [hn, ← start_around_append (expression_ne_nil ha) (t :: vs)]
  have hs := stop_around_append us (List.cons_ne_nil t vs)
  rw [span_from hb] at hs
  rw [← hs]

theorem tighter_le {l m : Power} (h : ¬ m ≤ l) : tighter l ≤ m := by
  revert h
  cases l <;> cases m <;> decide

theorem tighter_le_unary (l : Power) : tighter l ≤ .unary := by
  cases l <;> decide

theorem trailing_standard {k : Kind} {held : Power} {rule : Trailing}
    (h : Tables.standard.trailing k = some (held, rule)) :
    match rule with
    | .assignment => k = .mark .assignment ∧ held = .assignment
    | .binary => ∃ op : BinaryOp, k = .mark op.mark ∧ held = power op
    | .call => k = .mark .openParen ∧ held = .call
    | .index => k = .mark .openBracket ∧ held = .call := by
  unfold Tables.standard at h
  dsimp only at h
  split at h <;> cases h
  · exact ⟨rfl, rfl⟩
  · exact ⟨.equals, rfl, rfl⟩
  · exact ⟨.notEquals, rfl, rfl⟩
  · exact ⟨.less, rfl, rfl⟩
  · exact ⟨.lessEquals, rfl, rfl⟩
  · exact ⟨.greater, rfl, rfl⟩
  · exact ⟨.greaterEquals, rfl, rfl⟩
  · exact ⟨.add, rfl, rfl⟩
  · exact ⟨.subtract, rfl, rfl⟩
  · exact ⟨.multiply, rfl, rfl⟩
  · exact ⟨.divide, rfl, rfl⟩
  · exact ⟨.modulo, rfl, rfl⟩
  · exact ⟨rfl, rfl⟩
  · exact ⟨rfl, rfl⟩

theorem trailing_operator (op : BinaryOp) :
    Tables.standard.trailing (.mark op.mark) = some (power op, .binary) := by
  cases op <;> rfl

/-- The current token holds no operand tighter than `l`. -/
def Held (p : Parser) (l : Power) : Prop :=
  ∀ held rule, Tables.standard.trailing p.current.kind = some (held, rule) → held ≤ l

theorem held_call (p : Parser) : Held p .call := by
  intro held rule h
  have ht := trailing_standard h
  cases rule with
  | assignment =>
    rw [ht.2]
    decide
  | binary =>
    obtain ⟨op, -, rfl⟩ := ht
    cases op <;> decide
  | call =>
    rw [ht.2]
    decide
  | index =>
    rw [ht.2]
    decide

theorem Held.mono {p : Parser} {l m : Power} (h : Held p l) (hl : l ≤ m) : Held p m :=
  fun held rule ht => Power.le_trans (h held rule ht) hl

theorem leading_standard {k : Kind} {rule : Leading} (h : Tables.standard.leading k = some rule) :
    match rule with
    | .atom => k = .intLiteral ∨ k = .stringLiteral ∨ k = .identifier ∨ k = .keyword .trueWord ∨
        k = .keyword .falseWord
    | .negation => k = .mark .dash
    | .grouping => k = .mark .openParen
    | .arrayLiteral => k = .mark .openBracket := by
  unfold Tables.standard at h
  dsimp only at h
  split at h <;> cases h <;> simp

theorem le_primary (l : Power) : l ≤ .primary := by
  cases l <;> decide

def plain : Expression Unit := .symbol (sample .identifier) ()

theorem plain_symbols (l : Power) : IsExpression symbols l [typical .identifier] plain :=
  .looser (le_primary l) (IsExpression.symbol (g := symbols) (t := typical .identifier) rfl)

/-- Whatever begins an expression can be completed to one. -/
theorem leading_begins {k : Kind} {rule : Leading} (h : Tables.standard.leading k = some rule) :
    ∃ (ks : List Kind) (e : Expression Unit),
      IsExpression symbols .unary ([typical k] ++ ks.map typical) e := by
  have hk := leading_standard h
  cases rule with
  | atom =>
    refine ⟨[], ?_⟩
    obtain h | h | h | h | h := hk
    · exact ⟨_, .looser (by decide) (IsExpression.int (g := symbols) (t := typical k) h)⟩
    · exact ⟨_, .looser (by decide) (IsExpression.string (g := symbols) (t := typical k) h)⟩
    · exact ⟨_, .looser (by decide) (IsExpression.symbol (g := symbols) (t := typical k) h)⟩
    · exact ⟨_, .looser (by decide) (IsExpression.yes (g := symbols) (t := typical k) h)⟩
    · exact ⟨_, .looser (by decide) (IsExpression.no (g := symbols) (t := typical k) h)⟩
  | negation =>
    exact ⟨[.identifier], _,
      IsExpression.negation (g := symbols) (o := typical k) hk (plain_symbols .unary)⟩
  | grouping =>
    exact ⟨[.identifier, .mark .closeParen], _, .looser (by decide) (IsExpression.group
      (g := symbols) (o := typical k) (c := typical (.mark .closeParen)) hk (plain_symbols _) rfl)⟩
  | arrayLiteral =>
    exact ⟨[.mark .closeBracket], _, .looser (by decide) (IsExpression.array (g := symbols)
      (o := typical k) hk (.none (c := typical (.mark .closeBracket)) rfl))⟩

theorem plain_items : IsItems symbols [typical .identifier] [plain] := .one (plain_symbols _)

theorem items_append {c : τ} {ts us : List τ} {es fs : List (Expression α)} :
    IsItems g ts es → g.kind c = .mark .comma → IsItems g us fs →
      IsItems g (ts ++ c :: us) (es ++ fs)
  | .one he, hc, hf => .more he hc hf
  | .more he hd hs, hc, hf => by
    rw [List.append_assoc]
    exact .more he hd (items_append hs hc hf)

end ModuleSyntax.Proofs.Levels
