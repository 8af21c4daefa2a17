import ModuleSyntax.Proofs.Chains
import ModuleSyntax.Proofs.Layered
import ModuleSyntax.Proofs.Refinement

namespace ModuleSyntax.Proofs.Precedence

open Parse Motion Calls PairedExpression Grammar Levels Layered Refinement Chains

variable {β : Type} {n : Nat} {l held : Power} {op : BinaryOp} {e : Expression Span} {p : Parser}

theorem operator?_eq_some_iff {k : Kind} :
    operator? l k = some op ↔ k = .mark op.mark ∧ power op = l := by
  rw [operator?, Option.filter_eq_some_iff, BinaryOp.ofKind?_eq_some_iff, decide_eq_true_iff]

theorem not_tighter_le (hl : l ≤ .additive) : ¬ tighter l ≤ l := by
  revert hl
  cases l <;> decide

theorem le_tighter (hl : l ≤ .additive) : l ≤ tighter l := by
  revert hl
  cases l <;> decide

theorem eq_tighter (h : held ≤ tighter l) (hl : ¬ held ≤ l) : held = tighter l := by
  revert h hl
  cases l <;> cases held <;> decide

/-- No token of the language holds like a sign. -/
theorem le_multiplicative (hp : p.tables = .standard) (hh : Held p .unary) {rule : Trailing}
    (ht : p.tables.trailing p.current.kind = some (held, rule)) : held ≤ .multiplicative := by
  rw [hp] at ht
  have hu := hh held rule ht
  have hs := trailing_standard ht
  cases rule with
  | assignment =>
    rw [hs.2]
    decide
  | binary =>
    obtain ⟨op, -, rfl⟩ := hs
    cases op <;> decide
  | call | index =>
    rw [hs.2] at hu
    exact absurd hu (by decide)

/-- What is done with the token that is taken matters for the current one only. -/
theorem advance_bind_congr {f g : Token → Parse β} (h : f p.current = g p.current) :
    (advance >>= f) p = (advance >>= g) p := by
  refine bind_congr_of_ok fun t q ha => ?_
  obtain ⟨rfl, -⟩ := moved_of_advance ha
  rw [h]

theorem upTo_eq (close : Mark) (items : Parse (List (Expression Span))) :
    upTo close items = closedList items close := by
  funext p
  rw [upTo, closedList, kind_bind, kind_bind]
  split
  · rename_i hk
    rw [pure_bind]
    dsimp only
    rw [kind_bind, if_pos hk]
  · rfl

theorem layer_succ (hl : l ≤ .additive) : layer (n + 1) (tighter l) =
    (do further n (tighter l) (← layer n (tighter (tighter l)))) := by
  revert hl
  cases l <;> first | exact fun _ => rfl | exact fun h => absurd h (by decide)

theorem layer_unary_succ (p : Parser) : layer (n + 1) .unary p =
    if p.current.kind = .mark .dash then negation (layer n .unary) p else layer n .call p := by
  rw [layer, kind_bind]
  split <;> rfl

theorem further_stops (hp : p.tables = .standard) (hl : l ≤ .additive)
    (h : ¬ ∃ held rule, GoesOn p l held rule) :
    further (n + 1) (tighter l) e p = some (.ok e, p) := by
  have hop : operator? (tighter l) p.current.kind = none := by
    refine Option.eq_none_iff_forall_ne_some.2 fun op ho => h ?_
    obtain ⟨hk, hop⟩ := operator?_eq_some_iff.1 ho
    refine ⟨power op, .binary, ?_, ?_⟩
    · rw [hp, hk, trailing_operator]
    · rw [hop]
      exact not_tighter_le hl
  have hassign : l = .loosest → p.current.kind ≠ .mark .assignment := by
    rintro rfl hk
    exact h ⟨.assignment, .assignment, by rw [hp, hk]; rfl, by decide⟩
  cases l with
  | loosest =>
    rw [tighter, further, kind_bind, if_neg (hassign rfl)]
    rfl
  | assignment | equality | relational | additive =>
    rw [tighter] at hop ⊢
    rw [further, kind_bind, hop]
    · rfl
    all_goals decide
  | multiplicative | unary | call | primary => exact absurd hl (by decide)

def operation (op : BinaryOp) (left : Expression Span) (operand : Parse (Expression Span))
    (rest : Expression Span → Parse β) : Parse β := do
  let _ ← advance
  let right ← operand
  rest (.binary op left right ⟨left.note.start, right.note.stop⟩)

theorem refines_operation (op : BinaryOp) (e : Expression Span) {x : Parse (Expression Span)}
    {y : Nat → Parse (Expression Span)} {f : Expression Span → Parse β}
    {g : Nat → Expression Span → Parse β} (h : Simulates x y) (hp : p.tables = .standard)
    (hf : ∀ e' q a r, q.tables = .standard → r.tables = .standard → x q = some (.ok a, r) →
      Settles y q (.ok a, r) → Refines (f e') (fun k => g k e') r) :
    Refines (operation op e x f) (fun k => operation op e (y k) (g k)) p := by
  refine refines_advance.bind fun _ q hq _ _ => ?_
  refine (h q (hq.trans hp)).bind fun a r hr ha hy => ?_
  exact hf _ q a r (hq.trans hp) (hr.trans (hq.trans hp)) ha hy

theorem further_operator (hl : .assignment ≤ l) (hl' : l ≤ .additive)
    (hk : p.current.kind = .mark op.mark) (ho : power op = tighter l) :
    further (n + 1) (tighter l) e p =
      operation op e (layer n (tighter (tighter l))) (further n (tighter l)) p := by
  have hop := operator?_eq_some_iff.2 ⟨hk, ho⟩
  cases l with
  | assignment | equality | relational | additive =>
    rw [tighter] at hop ⊢
    rw [further, kind_bind, hop]
    · rfl
    all_goals decide
  | loosest => exact absurd hl (by decide)
  | multiplicative | unary | call | primary => exact absurd hl' (by decide)

theorem binary_bind (hk : p.current.kind = .mark op.mark) (f : Power → Parse (Expression Span))
    (g : Expression Span → Parse β) :
    (binary f e held >>= g) p = operation op e (f held) g p := by
  rw [binary, operation, bind_assoc]
  apply advance_bind_congr
  rw [BinaryOp.ofKind?_eq_some_iff.2 hk]
  dsimp only
  rw [bind_assoc]
  rfl

/-- At the tightest powers of operands only calls and elements go on. -/
theorem suffix_of_goesOn (hp : p.tables = .standard) (hl : .multiplicative ≤ l) {rule : Trailing}
    (h : GoesOn p l held rule) : held = .call ∧ (p.current.kind = .mark .openParen ∧ rule = .call ∨
      p.current.kind = .mark .openBracket ∧ rule = .index) := by
  obtain ⟨ht, hn⟩ := h
  rw [hp] at ht
  have hs := trailing_standard ht
  cases rule with
  | assignment => exact absurd (Power.le_trans (by rw [hs.2]; decide) hl) hn
  | binary =>
    obtain ⟨op, -, rfl⟩ := hs
    exact absurd (Power.le_trans (by cases op <;> decide) hl) hn
  | call => exact ⟨hs.2, .inl ⟨hs.1, rfl⟩⟩
  | index => exact ⟨hs.2, .inr ⟨hs.1, rfl⟩⟩

theorem assignTo_eq (left : Expression Span) (value : Parse (Expression Span)) :
    assignTo left value = assignment value left := by
  by_cases h : left.isTarget
  · rw [assignment, if_pos h]
    obtain _ | _ | _ := isTarget_iff.1 h <;> rfl
  · rw [assignment, if_neg h]
    cases left with
    | symbol | index | emptyIndex => exact absurd rfl h
    | _ => rfl

theorem further_call (hk : p.current.kind = .mark .openParen) :
    further (n + 1) .call e p = (Parse.call (list n) e >>= further n .call) p := by
  rw [further, kind_bind, hk, Parse.call]
  simp only [upTo_eq, bind_assoc, pure_bind]

theorem further_index (hk : p.current.kind = .mark .openBracket) :
    further (n + 1) .call e p = (index (layer n .assignment) e >>= further n .call) p := by
  rw [further, kind_bind, hk, index, bind_assoc]
  refine advance_bind_congr ?_
  funext q
  rw [bind_assoc, kind_bind, kind_bind]
  split
  · simp only [bind_assoc, pure_bind]
  · simp only [bind_assoc, pure_bind]

theorem further_call_stops (hp : p.tables = .standard) (hl : l ≤ .unary)
    (h : ¬ ∃ held rule, GoesOn p l held rule) :
    further (n + 1) .call e p = some (.ok e, p) := by
  have hcall : ¬ .call ≤ l := fun hle => absurd (Power.le_trans hle hl) (by decide)
  rw [further, kind_bind]
  refine congrFun (g := (pure e : Parse (Expression Span))) ?_ p
  split
  · rename_i hk
    exact absurd ⟨.call, .call, by rw [hp, hk]; rfl, hcall⟩ h
  · rename_i hk
    exact absurd ⟨.call, .index, by rw [hp, hk]; rfl, hcall⟩ h
  · rfl

theorem not_goesOn (hp : p.tables = .standard) (hh : Held p l) :
    ¬ ∃ held rule, GoesOn p l held rule := by
  rintro ⟨held, rule, ht, hn⟩
  rw [hp] at ht
  exact hn (hh held rule ht)

theorem not_goesOn_suffix (hp : p.tables = .standard) (hh : Held p .unary)
    (hl : .multiplicative ≤ l) : ¬ ∃ held rule, GoesOn p l held rule := by
  rintro ⟨held, rule, ht, hn⟩
  exact hn (Power.le_trans (le_multiplicative hp hh ht) hl)

theorem primary_of_some {rule : Leading} (h : Tables.standard.leading p.current.kind = some rule)
    (hk : p.current.kind ≠ .mark .dash) : layer (n + 1) .primary p =
      leading (fun _ => layer n .assignment) (list n) rule p := by
  have hs := leading_standard h
  rw [layer, kind_bind]
  cases rule with
  | atom =>
    obtain h | h | h | h | h := hs
    all_goals
      rw [h]
      apply advance_bind_congr
      rw [h]
  | negation => exact absurd hs hk
  | grouping =>
    rw [hs]
    rfl
  | arrayLiteral =>
    rw [hs]
    simp only [upTo_eq]
    rfl

theorem primary_of_none (hp : p.tables = .standard)
    (h : Tables.standard.leading p.current.kind = none) : layer (n + 1) .primary p =
      (refuseEntry Tables.leading : Parse (Expression Span)) p := by
  have hs : Kind.listing expressionStarts = Kind.listing (entries Tables.standard.leading) := by
    decide
  rw [layer, kind_bind, refuseEntry_apply, hp, Parser.unexpected, ← hs]
  refine congrFun (g := unexpected expressionStarts) ?_ p
  split
  case h_8 => rfl
  all_goals
    rename_i hk
    rw [hk] at h
    cases h

theorem refines_idle (h : ¬ ∃ held rule, GoesOn p l held rule) :
    Refines (chain n e l) (fun _ => pure e) p := by
  cases n with
  | zero => exact refines_outOfCalls
  | succ n => exact (refines_pure e).congr (chain_stops h) fun _ => rfl

theorem held_of_negation (hp : p.tables = .standard) {q : Parser}
    (h : negation (expression n .unary) p = some (.ok e, q)) : Held q .unary := by
  rw [negation] at h
  obtain ⟨t, s, ha, h⟩ := ok_of_bind h
  obtain ⟨-, next, rest, -, rfl⟩ := moved_of_advance ha
  obtain ⟨e', r, he, h⟩ := ok_of_bind h
  cases h
  exact held_of_expression (p := moved p next rest) hp he

theorem held_of_assignment (hp : p.tables = .standard) {left : Expression Span} {q : Parser}
    (h : assignment (expression n .loosest) left p = some (.ok e, q)) : Held q .loosest := by
  rw [assignment] at h
  split at h
  · obtain ⟨t, s, ha, h⟩ := ok_of_bind h
    obtain ⟨-, next, rest, -, rfl⟩ := moved_of_advance ha
    obtain ⟨e', r, he, h⟩ := ok_of_bind h
    cases h
    exact held_of_expression (p := moved p next rest) hp he
  · cases h

end ModuleSyntax.Proofs.Precedence
