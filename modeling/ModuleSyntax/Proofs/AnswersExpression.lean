import ModuleSyntax.Proofs.Answers

namespace ModuleSyntax.Proofs.AnswersExpression

open Parse Motion Answers

variable {α : Type} {p : Parser}

/-- A parse that answers whenever at most `w` tokens are left, and takes some of them. -/
def Within (w : Nat) (x : Parse α) : Prop :=
  ∀ p, Ready p → left p ≤ w → Returns p x fun _ q => left q + 1 ≤ left p

theorem returns_closedList (hp : Ready p) {w : Nat} {xs : Parse (List α)} (hx : Within w xs)
    (hw : left p ≤ w) (close : Mark) :
    Returns p (closedList xs close) fun _ q => left q + 1 ≤ left p := by
  apply returns_kind
  split
  · rename_i hk
    refine (returns_advance_of_ne hp (by rw [hk]; exact Kind.noConfusion)).bind
      fun _ q hq hl => returns_pure hq hl
  · refine (hx p hp hw).bind fun _ q hq hl => returns_kind ?_
    split
    · refine (returns_advance hq).bind fun _ r hr hm => returns_pure hr ?_
      omega
    · exact returns_unexpected _

variable {w : Nat} {f : Power → Parse (Expression Span)} {xs : Parse (List (Expression Span))}

theorem returns_atom (hp : Ready p) : Returns p atom fun _ q => left q ≤ left p - 1 := by
  refine (returns_advance hp).bind fun t q hq hl => ?_
  split
  case h_6 => exact returns_throw _
  all_goals exact returns_pure hq hl.2

/-- Asked for at the end, an expression is refused behind the end token. -/
theorem returns_leading (hp : Ready p) (hf : ∀ power, Within w (f power)) (hx : Within w xs)
    (hw : left p - 1 ≤ w) (rule : Leading) :
    Returns p (leading f xs rule) fun _ q => left q ≤ left p - 1 := by
  cases rule with
  | atom => exact returns_atom hp
  | negation =>
    refine (returns_advance hp).bind fun t q hq hl => ?_
    refine (hf _ q hq (by omega)).bind fun _ r hr hm => returns_pure hr ?_
    omega
  | grouping =>
    refine (returns_advance hp).bind fun t q hq hl => ?_
    refine (hf _ q hq (by omega)).bind fun _ r hr hm => ?_
    refine (returns_expect hr Kind.noConfusion).bind fun _ s hs hn => returns_previousEnd ?_
    apply returns_pure hs
    omega
  | arrayLiteral =>
    refine (returns_advance hp).bind fun t q hq hl => ?_
    refine (returns_closedList hq hx (by omega) _).bind fun _ r hr hm => returns_previousEnd ?_
    apply returns_pure hr
    omega

theorem returns_trailing (hp : Ready p) (hf : ∀ power, Within w (f power)) (hx : Within w xs)
    (hw : left p - 1 ≤ w) (rule : Trailing) (e : Expression Span) (power : Power) :
    Returns p (trailing f xs rule e power) fun _ q => left q + 1 ≤ left p := by
  cases rule with
  | assignment =>
    dsimp only [trailing]
    unfold assignment
    split
    · refine (returns_advance hp).bind fun t q hq hl => ?_
      refine (hf _ q hq (by omega)).bind fun _ r hr hm => returns_pure hr ?_
      omega
    · exact ⟨_, p, rfl, fun _ h => nomatch h⟩
  | binary =>
    refine (returns_advance hp).bind fun t q hq hl => ?_
    split
    · refine (hf _ q hq (by omega)).bind fun _ r hr hm => returns_pure hr ?_
      omega
    · exact returns_throw _
  | call =>
    refine (returns_advance hp).bind fun t q hq hl => ?_
    refine (returns_closedList hq hx (by omega) _).bind fun _ r hr hm => returns_previousEnd ?_
    apply returns_pure hr
    omega
  | index =>
    refine (returns_advance hp).bind fun t q hq hl => returns_kind ?_
    split
    · rename_i hk
      refine (returns_advance_of_ne hq (by rw [hk]; exact Kind.noConfusion)).bind
        fun _ r hr hm => returns_previousEnd (returns_pure hr ?_)
      omega
    · refine (hf _ q hq (by omega)).bind fun _ r hr hm => ?_
      refine (returns_expect hr Kind.noConfusion).bind fun _ s hs hn => returns_previousEnd ?_
      apply returns_pure hs
      omega

/-- Three calls for each token are enough: one for the expression that begins with it, one for the
list that the expression is in, and one for the chain that goes on with it. -/
theorem returns_expressions (n w : Nat) :
    (3 * w + 1 ≤ n → ∀ power, Within w (expression n power)) ∧
    (3 * w + 3 ≤ n → ∀ e power p, Ready p → left p ≤ w →
      Returns p (chain n e power) fun _ q => left q ≤ left p) ∧
    (3 * w + 2 ≤ n → Within w (items n)) := by
  induction n generalizing w with
  | zero => exact ⟨fun h => by omega, fun h => by omega, fun h => by omega⟩
  | succ n ih =>
    refine ⟨fun hn power p hp hw => ?_, fun hn e power p hp hw => ?_, fun hn p hp hw => ?_⟩
    · rw [expression_succ]
      apply returns_lookup
      split
      · rename_i rule hrule
        have hk : p.current.kind ≠ .eof := fun hk => by
          rw [hk, hp.leading] at hrule
          cases hrule
        have hpos := left_pos hk
        obtain ⟨hexpr, -, hitems⟩ := ih (w - 1)
        refine (returns_leading hp (hexpr (by omega)) (hitems (by omega)) (by omega)
          rule).bind fun e q hq hl => ?_
        refine ((ih (w - 1)).2.1 (by omega) e power q hq (by omega)).imp fun _ r hr => ?_
        omega
      · exact returns_refuseEntry _
    · rw [chain_succ]
      apply returns_lookup
      split
      · rename_i held rule hrule
        split
        · exact returns_pure hp (Nat.le_refl _)
        · obtain ⟨hexpr, -, hitems⟩ := ih (w - 1)
          refine (returns_trailing hp (hexpr (by omega)) (hitems (by omega)) (by omega) rule e
            held).bind fun e' q hq hl => ?_
          refine ((ih (w - 1)).2.1 (by omega) e' power q hq (by omega)).imp fun _ r hr => ?_
          omega
      · exact returns_pure hp (Nat.le_refl _)
    · refine ((ih w).1 (by omega) _ p hp hw).bind fun e q hq hl => returns_kind ?_
      split
      · refine (returns_advance hq).bind fun _ r hr hm => ?_
        refine ((ih (w - 1)).2.2 (by omega) r hr (by omega)).bind fun _ s hs hn => ?_
        apply returns_pure hs
        omega
      · exact returns_pure hq hl

end ModuleSyntax.Proofs.AnswersExpression
