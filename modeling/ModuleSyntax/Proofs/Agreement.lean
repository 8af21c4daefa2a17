import ModuleSyntax.Proofs.AnswersExpression
import ModuleSyntax.Proofs.Ascent
import ModuleSyntax.Proofs.Descent

namespace ModuleSyntax.Proofs.Agreement

open Parse Answers AnswersExpression Grammar Layered Refinement

variable {p : Parser} {l : Power}

theorem expression_answers (hp : Ready p) (l : Power) : ∃ o, expression p.budget l p = some o := by
  have hl : left p ≤ p.upcoming.tokens.length + 1 := by
    unfold left
    split <;> omega
  have hn : 3 * left p + 1 ≤ p.budget := by
    rw [Parser.budget]
    omega
  obtain ⟨r, q, hr, -⟩ := (returns_expressions p.budget (left p)).1 hn l p hp (Nat.le_refl _)
  exact ⟨_, hr⟩

theorem settles_layer (hp : p.tables = .standard) (hl : l ≤ .unary) {n : Nat}
    {o : Except Diagnostic (Expression Span) × Parser} (h : expression n l p = some o) :
    Settles (fun k => layer k (tighter l)) p o :=
  ((Descent.expression_layer n).1 l hl p hp _ _ h).2

theorem settles_expression (hp : p.tables = .standard) (hl : l ≤ .unary) {n : Nat}
    {o : Except Diagnostic (Expression Span) × Parser} (h : layer n (tighter l) p = some o) :
    Settles (fun k => expression k l) p o :=
  ((Ascent.layer_expression n).1 l hl p hp _ _ h).2

def sum : Parser where
  current := .onLine .identifier ⟨0, 0⟩ "a"
  upcoming := ⟨[.onLine (.mark .plus) ⟨0, 2⟩ "+", .onLine (.mark .dash) ⟨0, 4⟩ "-",
    .onLine .intLiteral ⟨0, 5⟩ "1"], .ok (.onLine .eof ⟨0, 6⟩ "")⟩
  previousEnd := .start
  tables := .standard

end ModuleSyntax.Proofs.Agreement
