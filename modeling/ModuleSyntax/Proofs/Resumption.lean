import ModuleSyntax.Proofs.Chains
import ModuleSyntax.Proofs.Termination

namespace ModuleSyntax.Proofs.Resumption

open Parse Motion Answers AnswersExpression Calls Sessions Termination Chains

variable {n : Nat} {l m : Power} {e e' : Expression Span} {p q : Parser}
  {o : Except Diagnostic (Expression Span) × Parser}

/-- The current token holds nothing tighter than `l`, or nothing at all. -/
def Rests (p : Parser) (l : Power) : Prop :=
  ∀ held rule, p.tables.trailing p.current.kind = some (held, rule) → held ≤ l

def resume (l : Power) :
    Except Diagnostic Reply × Parser → Option (Except Diagnostic Reply × Parser)
  | (.ok (.expression e), q) => Operation.run (.chain e l) q
  | out => some out

theorem chain_rests (h : chain n e l p = some (.ok e', q)) : Rests q l := by
  induction n generalizing e p with
  | zero => cases h
  | succ n ih =>
    by_cases hg : ∃ held rule, GoesOn p l held rule
    · obtain ⟨held, rule, hg⟩ := hg
      rw [chain_goes hg] at h
      obtain ⟨a, s, -, hs⟩ := ok_of_bind h
      exact ih hs
    · rw [chain_stops hg] at h
      cases h
      intro held rule ht
      exact Decidable.not_not.1 fun hle => hg ⟨held, rule, ht, hle⟩

theorem expression_rests (h : expression n l p = some (.ok e, q)) : Rests q l := by
  cases n with
  | zero => cases h
  | succ n =>
    rw [expression_first] at h
    obtain ⟨a, s, -, hs⟩ := ok_of_bind h
    exact chain_rests hs

/-- Whatever the tables, a chain that is interrupted at a tighter power and then resumed answers
just what it answers in one go. -/
theorem chain_resumed (hl : l ≤ m) : (∃ n, chain n e l p = some o) ↔
    ∃ n, (chain n e m >>= fun e' => chain n e' l) p = some o := by
  constructor
  · rintro ⟨n, hn⟩
    exact ⟨n, chain_split hl hn⟩
  · rintro ⟨n, hn⟩
    rw [bind_apply] at hn
    split at hn
    · cases hn
    · rename_i hx
      cases hn
      exact ⟨n, chain_refused hl hx⟩
    · rename_i hx
      exact ⟨n + n, chain_join hl hx hn⟩

theorem expression_resumed (hl : l ≤ m) : (∃ n, expression n l p = some o) ↔
    ∃ n, (expression n m >>= fun e => chain n e l) p = some o := by
  constructor
  · rintro ⟨n, hn⟩
    cases n with
    | zero => cases hn
    | succ n =>
      have hsplit := expression_split hl hn
      refine ⟨n + 1, ?_⟩
      rw [bind_apply] at hsplit ⊢
      split at hsplit
      · cases hsplit
      · exact hsplit
      · exact chain_more (Nat.le_succ n) hsplit
  · rintro ⟨n, hn⟩
    rw [bind_apply] at hn
    split at hn
    · cases hn
    · rename_i hx
      cases hn
      exact ⟨n, expression_refused hl hx⟩
    · rename_i hx
      exact ⟨n + n, expression_join hl hx hn⟩

def replied (o : Except Diagnostic (Expression Span) × Parser) :
    Except Diagnostic Reply × Parser :=
  (o.1.map .expression, o.2)

theorem run_chain (hp : Ready p) (h : chain n e l p = some o) :
    Operation.run (.chain e l) p = some (replied o) := by
  apply run_of_performs hp
  refine ⟨n, ?_⟩
  rw [perform, map_apply, h]
  rfl

theorem run_expression (hp : Ready p) (h : expression n l p = some o) :
    Operation.run (.expression l) p = some (replied o) := by
  apply run_of_performs hp
  refine ⟨n, ?_⟩
  rw [perform, map_apply, h]
  rfl

theorem resume_replied {x : Parse (Expression Span)} {T : Expression Span → Parser → Prop}
    (hx : Returns p x T) (h : (x >>= fun e => chain n e l) p = some o) :
    ∃ o', x p = some o' ∧ resume l (replied o') = some (replied o) := by
  obtain ⟨r, q, hr, hq⟩ := hx
  refine ⟨(r, q), hr, ?_⟩
  rw [bind_apply, hr] at h
  cases r with
  | error d =>
    cases h
    rfl
  | ok e => exact run_chain (hq e rfl).1 h

theorem chain_returns (hp : Ready p) (e : Expression Span) (l : Power) :
    Returns p (chain p.budget e l) fun _ q => left q ≤ left p := by
  have hn := enough_budget p
  exact (returns_expressions p.budget (left p)).2.1 (by omega) e l p hp (Nat.le_refl _)

theorem expression_returns (hp : Ready p) (l : Power) :
    Returns p (expression p.budget l) fun _ q => left q + 1 ≤ left p := by
  have hn := enough_budget p
  exact (returns_expressions p.budget (left p)).1 (by omega) l p hp (Nat.le_refl _)

theorem run_chain_resumed (hp : Ready p) (hl : l ≤ m) (e : Expression Span) :
    ∃ out, Operation.run (.chain e l) p = some out ∧
      (Operation.run (.chain e m) p).bind (resume l) = some out := by
  obtain ⟨r, q, hr, -⟩ := chain_returns hp e l
  obtain ⟨o, ho, hresume⟩ := resume_replied (chain_returns hp e m) (chain_split hl hr)
  refine ⟨_, run_chain hp hr, ?_⟩
  rw [run_chain hp ho]
  exact hresume

theorem run_expression_resumed (hp : Ready p) (hl : l ≤ m) :
    ∃ out, Operation.run (.expression l) p = some out ∧
      (Operation.run (.expression m) p).bind (resume l) = some out := by
  obtain ⟨r, q, hr, -⟩ := expression_returns hp l
  obtain ⟨k, hk⟩ : ∃ k, p.budget = k + 1 := ⟨_, rfl⟩
  have hm := expression_returns hp m
  rw [hk] at hr hm
  obtain ⟨o, ho, hresume⟩ := resume_replied hm (expression_split hl hr)
  refine ⟨_, run_expression hp hr, ?_⟩
  rw [run_expression hp ho]
  exact hresume

/-- The loop over operators can be interrupted at a tighter power and resumed at a looser one,
behind an operand as well as from the first token of an expression on: both ways give the same
expression or refusal and lead to the same place, whatever the tables say of operators. It stops
only where the next operator is too loose for it. Where no expression begins at the end, all these
runs return. -/
theorem chain_resumes (hl : l ≤ m) (p : Parser) (e : Expression Span) :
    (∀ o, (∃ n, chain n e l p = some o) ↔
      ∃ n, (chain n e m >>= fun e' => chain n e' l) p = some o) ∧
    (∀ o, (∃ n, expression n l p = some o) ↔
      ∃ n, (expression n m >>= fun e' => chain n e' l) p = some o) ∧
    (∀ n e' q, chain n e l p = some (.ok e', q) ∨ expression n l p = some (.ok e', q) →
      Rests q l) ∧
    (Ready p →
      (∃ out, Operation.run (.chain e l) p = some out ∧
        (Operation.run (.chain e m) p).bind (resume l) = some out) ∧
      ∃ out, Operation.run (.expression l) p = some out ∧
        (Operation.run (.expression m) p).bind (resume l) = some out) := by
  refine ⟨fun o => chain_resumed hl, fun o => expression_resumed hl, fun n e' q h => ?_,
    fun hp => ⟨run_chain_resumed hp hl e, run_expression_resumed hp hl⟩⟩
  obtain h | h := h
  · exact chain_rests h
  · exact expression_rests h

def sumsFirst : Tables :=
  { Tables.standard with
    trailing :=
      setEntry (setEntry Tables.standard.trailing (.mark .plus) (.multiplicative, .binary))
        (.mark .star) (.additive, .binary) }

def beforeProduct : Parser where
  current := .onLine .identifier ⟨0, 0⟩ "a"
  upcoming := ⟨[.onLine (.mark .star) ⟨0, 2⟩ "*", .onLine .identifier ⟨0, 4⟩ "b",
    .onLine (.mark .plus) ⟨0, 6⟩ "+", .onLine .identifier ⟨0, 8⟩ "c"], .ok (.eof ⟨0, 9⟩)⟩
  previousEnd := .start
  tables := sumsFirst

theorem chain_resumes_product :
    Power.loosest ≤ .additive ∧ Ready beforeProduct ∧ ∃ product q first r,
      Operation.run (.expression .loosest) beforeProduct = some (.ok (.expression product), q) ∧
      Operation.run (.expression .additive) beforeProduct = some (.ok (.expression first), r) ∧
      Operation.run (.chain first .loosest) r = some (.ok (.expression product), q) ∧
      first.mapNote (fun _ => ()) = .symbol "a" () ∧
      product.mapNote (fun _ => ()) =
        .binary .multiply (.symbol "a" ()) (.binary .add (.symbol "b" ()) (.symbol "c" ()) ()) () ∧
      Rests q .loosest := by
  have hl : Power.loosest ≤ .additive := by decide
  have hp : Ready beforeProduct := by
    refine ⟨⟨?_, ?_, fun h => nomatch h⟩, rfl⟩
    · simp [beforeProduct, Token.onLine]
    · intro t ht
      cases ht
      rfl
  obtain ⟨-, -, hrests, hreturns⟩ := chain_resumes hl beforeProduct (.symbol "a" ⟨⟨0, 0⟩, ⟨0, 1⟩⟩)
  obtain ⟨-, out, hrun, hresume⟩ := hreturns hp
  have hloose : Operation.run (.expression .loosest) beforeProduct =
    some (.ok (.expression _), _) := rfl
  have htight : Operation.run (.expression .additive) beforeProduct =
    some (.ok (.expression _), _) := rfl
  rw [hloose] at hrun
  cases hrun
  rw [htight] at hresume
  refine ⟨hl, hp, _, _, _, _, hloose, htight, hresume, rfl, rfl, ?_⟩
  exact hrests 8 _ _ (.inr rfl)

end ModuleSyntax.Proofs.Resumption
