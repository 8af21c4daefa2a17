import ModuleSyntax.Proofs.Calls
import ModuleSyntax.Proofs.OutcomeExpression

namespace ModuleSyntax.Proofs.Chains

open Parse Motion Calls Levels Outcome OutcomeExpression

variable {n k : Nat} {l m held : Power} {rule : Trailing} {e e' : Expression Span} {p q : Parser}
  {o : Except Diagnostic (Expression Span) × Parser}

/-- The chain with power `l` goes on with the current token. -/
def GoesOn (p : Parser) (l held : Power) (rule : Trailing) : Prop :=
  p.tables.trailing p.current.kind = some (held, rule) ∧ ¬ held ≤ l

theorem chain_goes (h : GoesOn p l held rule) :
    chain (n + 1) e l p =
      (trailing (expression n) (items n) rule e held >>= fun e' => chain n e' l) p := by
  rw [chain_succ, lookup_bind, h.1]
  dsimp only
  rw [if_neg h.2]

theorem chain_stops (h : ¬ ∃ held rule, GoesOn p l held rule) :
    chain (n + 1) e l p = some (.ok e, p) := by
  rw [chain_succ, lookup_bind]
  cases ht : p.tables.trailing p.current.kind with
  | none => rfl
  | some entry =>
    obtain ⟨held, rule⟩ := entry
    have hl : held ≤ l := Decidable.not_not.1 fun hl => h ⟨held, rule, ht, hl⟩
    dsimp only
    rw [if_pos hl]
    rfl

theorem GoesOn.looser (h : GoesOn p m held rule) (hl : l ≤ m) : GoesOn p l held rule :=
  ⟨h.1, fun hle => h.2 (Power.le_trans hle hl)⟩

/-- A chain with a looser power is one with a tighter power and the rest. -/
theorem chain_split (hl : l ≤ m) (hx : chain n e l p = some o) :
    (chain n e m >>= fun e' => chain n e' l) p = some o := by
  induction n generalizing e p with
  | zero => cases hx
  | succ n ih =>
    by_cases hg : ∃ held rule, GoesOn p m held rule
    · obtain ⟨held, rule, hg⟩ := hg
      rw [chain_goes (hg.looser hl), bind_apply] at hx
      rw [bind_apply, chain_goes hg, bind_apply]
      cases ht : trailing (expression n) (items n) rule e held p with
      | none =>
        rw [ht] at hx
        cases hx
      | some s =>
        obtain ⟨r, q⟩ := s
        rw [ht] at hx
        cases r with
        | error d => exact hx
        | ok e' =>
          have hrest := ih hx
          rw [bind_apply] at hrest
          dsimp only
          -- the rest has `n` calls by induction, and one more here
          cases hc : chain n e' m q with
          | none =>
            rw [hc] at hrest
            cases hrest
          | some s =>
            obtain ⟨r, q'⟩ := s
            rw [hc] at hrest
            cases r with
            | error d => exact hrest
            | ok e'' => exact chain_more (Nat.le_succ n) hrest
    · rw [bind_of_ok (chain_stops hg)]
      exact hx

/-- What a chain with a tighter power leaves is taken up by one with a looser power. -/
theorem chain_join (hl : l ≤ m) (hx : chain n e m p = some (.ok e', q))
    (hy : chain k e' l q = some o) : chain (n + k) e l p = some o := by
  induction n generalizing e p with
  | zero => cases hx
  | succ n ih =>
    by_cases hg : ∃ held rule, GoesOn p m held rule
    · obtain ⟨held, rule, hg⟩ := hg
      rw [chain_goes hg] at hx
      obtain ⟨a, s, ha, hs⟩ := ok_of_bind hx
      rw [Nat.succ_add, chain_goes (hg.looser hl),
        bind_of_ok (trailing_more (Nat.le_add_right n k) ha)]
      exact ih hs
    · rw [chain_stops hg] at hx
      cases hx
      exact chain_more (Nat.le_add_left k _) hy

theorem chain_refused (hl : l ≤ m) {d : Diagnostic} (hx : chain n e m p = some (.error d, q)) :
    chain n e l p = some (.error d, q) := by
  induction n generalizing e p with
  | zero => cases hx
  | succ n ih =>
    by_cases hg : ∃ held rule, GoesOn p m held rule
    · obtain ⟨held, rule, hg⟩ := hg
      rw [chain_goes hg, bind_apply] at hx
      rw [chain_goes (hg.looser hl), bind_apply]
      split at hx
      · cases hx
      · exact hx
      · exact ih hx
    · rw [chain_stops hg] at hx
      cases hx

def first (n : Nat) : Parse (Expression Span) := do
  match ← lookup Tables.leading with
  | some rule => leading (expression n) (items n) rule
  | none => refuseEntry Tables.leading

theorem first_of_some {rule : Leading} (h : p.tables.leading p.current.kind = some rule) :
    first n p = leading (expression n) (items n) rule p := by
  rw [first, lookup_bind, h]

theorem first_of_none (h : p.tables.leading p.current.kind = none) :
    first n p = (refuseEntry Tables.leading : Parse (Expression Span)) p := by
  rw [first, lookup_bind, h]

theorem expression_first (n : Nat) (l : Power) (p : Parser) :
    expression (n + 1) l p = (first n >>= fun e => chain n e l) p := by
  rw [expression_succ, lookup_bind, bind_apply]
  cases h : p.tables.leading p.current.kind with
  | none =>
    rw [first_of_none h]
    rfl
  | some rule =>
    rw [first_of_some h]
    exact bind_apply _ _ _

theorem expression_split (hl : l ≤ m) (hx : expression (n + 1) l p = some o) :
    (expression (n + 1) m >>= fun e => chain n e l) p = some o := by
  rw [expression_first, bind_apply] at hx
  rw [bind_apply, expression_first, bind_apply]
  cases hf : first n p with
  | none =>
    rw [hf] at hx
    cases hx
  | some s =>
    obtain ⟨r, q⟩ := s
    rw [hf] at hx
    cases r with
    | error d => exact hx
    | ok e =>
      have hc := chain_split hl hx
      rw [bind_apply] at hc
      exact hc

theorem first_more (h : n ≤ k) (hx : first n p = some o) : first k p = some o := by
  cases ht : p.tables.leading p.current.kind with
  | none =>
    rw [first_of_none ht] at hx ⊢
    exact hx
  | some rule =>
    rw [first_of_some ht] at hx ⊢
    exact leading_more h hx

theorem expression_join (hl : l ≤ m) (hx : expression n m p = some (.ok e, q))
    (hy : chain k e l q = some o) : expression (n + k) l p = some o := by
  cases n with
  | zero => cases hx
  | succ n =>
    rw [expression_first] at hx
    obtain ⟨a, s, ha, hs⟩ := ok_of_bind hx
    rw [Nat.succ_add, expression_first, bind_of_ok (first_more (Nat.le_add_right n k) ha)]
    exact chain_join hl hs hy

theorem expression_refused (hl : l ≤ m) {d : Diagnostic}
    (hx : expression n m p = some (.error d, q)) : expression n l p = some (.error d, q) := by
  cases n with
  | zero => cases hx
  | succ n =>
    rw [expression_first, bind_apply] at hx
    rw [expression_first, bind_apply]
    split at hx
    · cases hx
    · exact hx
    · exact chain_refused hl hx

theorem held_of_expression (hp : p.tables = .standard)
    (h : expression n l p = some (.ok e, q)) : Held q l := by
  obtain ⟨w, -, hw⟩ := (meets_expressions n).1 l _ completable_true p hp
    (fun _ _ _ => trivial) (.refl p) _ _ h
  exact hw.2

end ModuleSyntax.Proofs.Chains
