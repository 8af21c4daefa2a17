import ModuleSyntax.Proofs.AnswersExpression

namespace ModuleSyntax.Proofs.AnswersModule

open Parse Motion Answers AnswersExpression

variable {α : Type} {p : Parser} {n w : Nat}

theorem returns_typeLeading (hp : Ready p) (rule : TypeLeading) :
    Returns p (typeLeading rule) fun _ q => left q + 1 ≤ left p := by
  cases rule with
  | primitive =>
    exact (returns_expectOneOf hp (by decide)).bind fun t q hq hl => returns_pure hq hl
  | named =>
    exact (returns_expect hp Kind.noConfusion).bind fun t q hq hl => returns_pure hq hl

theorem returns_arrayType (hp : Ready p) (t : TypeRef Span) :
    Returns p (arrayType t) fun _ q => left q + 1 ≤ left p := by
  refine (returns_expect hp Kind.noConfusion).bind fun _ q hq hl => ?_
  refine (returns_expect hq Kind.noConfusion).bind fun _ r hr hm => returns_pure hr ?_
  omega

theorem returns_typeChain (hp : Ready p) (hn : left p + 1 ≤ n) (t : TypeRef Span)
    (power : Power) : Returns p (typeChain n t power) fun _ q => left q ≤ left p := by
  induction n generalizing p t with
  | zero => omega
  | succ n ih =>
    rw [typeChain_succ]
    apply returns_lookup
    split
    · rename_i held rule hrule
      split
      · exact returns_pure hp (Nat.le_refl _)
      · cases rule with
        | array =>
          refine (returns_arrayType hp t).bind fun t' q hq hl => ?_
          refine (ih hq (by omega) t').imp fun _ r hr => ?_
          omega
    · exact returns_pure hp (Nat.le_refl _)

theorem within_typeRef (hn : w + 1 ≤ n) (power : Power) : Within w (typeRef n power) := by
  intro p hp hw
  rw [typeRef_eq]
  apply returns_lookup
  split
  · rename_i rule hrule
    refine (returns_typeLeading hp rule).bind fun t q hq hl => ?_
    refine (returns_typeChain hq (by omega) t power).imp fun _ r hr => ?_
    omega
  · exact returns_refuseEntry _

theorem returns_endEvaluation (hp : Ready p) (e : Expression Span) :
    Returns p (endEvaluation e) fun _ q => left q + 1 ≤ left p := by
  refine (returns_expect hp Kind.noConfusion).bind fun _ q hq hl => returns_previousEnd ?_
  exact returns_pure hq hl

theorem returns_endDeclaration (hp : Ready p) (t : TypeRef Span) :
    Returns p (endDeclaration t) fun _ q => left q + 1 ≤ left p := by
  refine (returns_expect hp Kind.noConfusion).bind fun _ q hq hl => ?_
  refine (returns_expect hq Kind.noConfusion).bind fun _ r hr hm => returns_previousEnd ?_
  apply returns_pure hr
  omega

theorem returns_afterName (hp : Ready p) (hn : 3 * left p + 4 ≤ n) (name : String) (depth : Nat)
    (e : Expression Span) :
    Returns p (afterName n name depth e) fun _ q => left q + 1 ≤ left p := by
  induction n generalizing p depth e with
  | zero => omega
  | succ n ih =>
    apply returns_kind
    split
    · rename_i hk
      have hne : p.current.kind ≠ .eof := by rw [hk]; exact Kind.noConfusion
      refine (returns_advance_of_ne hp hne).bind fun _ q hq hl => returns_kind ?_
      split
      · refine (returns_advance hq).bind fun close r hr hm => ?_
        refine (ih hr (by omega) _ _).imp fun _ s hs => ?_
        omega
      · refine ((returns_expressions n (left q)).1 (by omega) _ q hq (Nat.le_refl _)).bind
          fun i r hr hm => ?_
        refine (returns_expect hr Kind.noConfusion).bind fun _ s hs hx => returns_previousEnd ?_
        refine ((returns_expressions n (left s)).2.1 (by omega) _ _ s hs (Nat.le_refl _)).bind
          fun e' t ht hy => ?_
        refine (returns_endEvaluation ht e').imp fun _ u hu => ?_
        omega
    · apply returns_kind
      split
      · exact returns_endDeclaration hp _
      · refine ((returns_expressions n (left p)).2.1 (by omega) _ _ p hp (Nat.le_refl _)).bind
          fun e' q hq hl => ?_
        refine (returns_endEvaluation hq e').imp fun _ r hr => ?_
        omega

theorem returns_condition (hp : Ready p) (hn : 3 * left p + 1 ≤ n) :
    Returns p (condition n) fun _ q => left q + 1 ≤ left p := by
  refine (returns_expect hp Kind.noConfusion).bind fun _ q hq hl => ?_
  refine ((returns_expressions n (left q)).1 (by omega) _ q hq (Nat.le_refl _)).bind
    fun e r hr hm => ?_
  refine (returns_expect hr Kind.noConfusion).bind fun _ s hs hx => returns_pure hs ?_
  omega

variable {x : Parse (Statement Span)} {xs : Parse (List (Statement Span))}

theorem returns_block (hp : Ready p)
    (hx : ∀ q, Ready q → left q < left p → Returns q xs fun _ r => left r ≤ left q) :
    Returns p (block xs) fun _ q => left q + 1 ≤ left p := by
  refine (returns_expect hp Kind.noConfusion).bind fun _ q hq hl => ?_
  refine (hx q hq hl).bind fun ss r hr hm => ?_
  refine (returns_expect hr Kind.noConfusion).bind fun _ s hs hx => returns_previousEnd ?_
  apply returns_pure hs
  omega

theorem returns_opening (hp : Ready p) (hn : 3 * left p + 1 ≤ n)
    (hx : ∀ q, Ready q → left q < left p → Returns q x fun _ r => left r + 1 ≤ left q)
    (hxs : ∀ q, Ready q → left q < left p → Returns q xs fun _ r => left r ≤ left q)
    (rule : Opening) :
    Returns p (opening n x xs rule) fun _ q => left q + 1 ≤ left p := by
  cases rule with
  | block =>
    exact (returns_block hp hxs).bind fun b q hq hl => returns_pure hq hl
  | whileLoop =>
    refine (returns_advance hp).bind fun _ q hq hl => ?_
    refine (returns_condition hq (by omega)).bind fun c r hr hm => ?_
    refine (returns_block hr fun q hq hl => hxs q hq (by omega)).bind
      fun b s hs hy => returns_previousEnd ?_
    apply returns_pure hs
    omega
  | conditional =>
    refine (returns_advance hp).bind fun _ q hq hl => ?_
    refine (returns_condition hq (by omega)).bind fun c r hr hm => ?_
    refine (hx r hr (by omega)).bind fun yes s hs hy => returns_kind ?_
    split
    · refine (returns_advance hs).bind fun _ t ht hz => ?_
      refine (hx t ht (by omega)).bind fun no u hu hv => returns_previousEnd ?_
      apply returns_pure hu
      omega
    · refine returns_previousEnd (returns_pure hs ?_)
      omega
  | breakLoop =>
    refine (returns_advance hp).bind fun _ q hq hl => ?_
    refine (returns_expect hq Kind.noConfusion).bind fun _ r hr hm => returns_previousEnd ?_
    apply returns_pure hr
    omega
  | returnValue =>
    refine (returns_advance hp).bind fun _ q hq hl => returns_kind ?_
    split
    · rename_i hk
      refine (returns_advance_of_ne hq (by rw [hk]; exact Kind.noConfusion)).bind
        fun _ r hr hm => returns_previousEnd (returns_pure hr ?_)
      omega
    · refine ((returns_expressions n (left q)).1 (by omega) _ q hq (Nat.le_refl _)).bind
        fun e r hr hm => ?_
      refine (returns_expect hr Kind.noConfusion).bind fun _ s hs hy => returns_previousEnd ?_
      apply returns_pure hs
      omega
  | declaration =>
    refine (within_typeRef (w := left p) (by omega) _ p hp (Nat.le_refl _)).bind
      fun t q hq hl => ?_
    refine (returns_endDeclaration hq t).imp fun _ r hr => ?_
    omega
  | name =>
    refine (returns_expect hp Kind.noConfusion).bind fun t q hq hl => ?_
    refine (returns_afterName hq (by omega) _ _ _).imp fun _ r hr => ?_
    omega

theorem returns_statements (n w : Nat) :
    (3 * w + 3 ≤ n → Within w (statement n)) ∧
    (3 * w + 4 ≤ n → ∀ p, Ready p → left p ≤ w →
      Returns p (statements n) fun _ q => left q ≤ left p) := by
  induction n generalizing w with
  | zero => exact ⟨fun h => by omega, fun h => by omega⟩
  | succ n ih =>
    refine ⟨fun hn p hp hw => ?_, fun hn p hp hw => ?_⟩
    · rw [statement_succ]
      apply returns_lookup
      split
      · rename_i rule hrule
        refine returns_opening hp (by omega) (fun q hq hl => ?_) (fun q hq hl => ?_) rule
        · exact (ih (w - 1)).1 (by omega) q hq (by omega)
        · exact (ih (w - 1)).2 (by omega) q hq (by omega)
      · refine ((returns_expressions n (left p)).1 (by omega) _ p hp (Nat.le_refl _)).bind
          fun e q hq hl => ?_
        refine (returns_endEvaluation hq e).imp fun _ r hr => ?_
        omega
    · apply returns_kind
      split
      · exact returns_pure hp (Nat.le_refl _)
      · apply returns_kind
        split
        · exact returns_unexpected _
        · refine ((ih w).1 (by omega) p hp hw).bind fun s q hq hl => ?_
          refine ((ih (w - 1)).2 (by omega) q hq (by omega)).bind fun ss r hr hm =>
            returns_pure hr ?_
          omega

theorem returns_importLine (hp : Ready p) :
    Returns p importLine fun _ q => left q + 1 ≤ left p := by
  refine (returns_expect hp Kind.noConfusion).bind fun _ q hq hl => ?_
  refine (returns_expect hq Kind.noConfusion).bind fun _ r hr hm => ?_
  refine (returns_expect hr Kind.noConfusion).bind fun _ s hs hx => returns_previousEnd ?_
  apply returns_pure hs
  omega

theorem returns_imports (hp : Ready p) (hn : left p + 1 ≤ n) :
    Returns p (imports n) fun _ q => left q ≤ left p := by
  induction n generalizing p with
  | zero => omega
  | succ n ih =>
    apply returns_kind
    split
    · refine (returns_importLine hp).bind fun i q hq hl => ?_
      refine (ih hq (by omega)).bind fun is r hr hm => returns_pure hr ?_
      omega
    · exact returns_pure hp (Nat.le_refl _)

theorem within_parameter (hn : w + 1 ≤ n) : Within w (parameter n) := by
  intro p hp hw
  refine (within_typeRef hn _ p hp hw).bind fun t q hq hl => ?_
  refine (returns_expect hq Kind.noConfusion).bind fun _ r hr hm => returns_previousEnd ?_
  apply returns_pure hr
  omega

theorem within_parameters (hn : w + 2 ≤ n) : Within w (parameters n) := by
  induction n generalizing w with
  | zero => omega
  | succ n ih =>
    intro p hp hw
    refine (within_parameter (w := w) (by omega) p hp hw).bind fun t q hq hl => returns_kind ?_
    split
    · refine (returns_advance hq).bind fun _ r hr hm => ?_
      refine (ih (w := w - 1) (by omega) r hr (by omega)).bind fun ps s hs hx => returns_pure hs ?_
      omega
    · exact returns_pure hq hl

theorem returns_typeAlias (hp : Ready p) (isPublic : Bool) (start : Position) :
    Returns p (typeAlias isPublic start) fun _ q => left q + 1 ≤ left p := by
  refine (returns_expect hp Kind.noConfusion).bind fun _ q hq hl => ?_
  refine (returns_expect hq Kind.noConfusion).bind fun _ r hr hm => ?_
  refine (returns_expect hr Kind.noConfusion).bind fun _ s hs hx => ?_
  refine (returns_expect hs Kind.noConfusion).bind fun _ t ht hy => ?_
  refine (returns_expect ht Kind.noConfusion).bind fun _ u hu hz => returns_previousEnd ?_
  apply returns_pure hu
  omega

theorem returns_member (hp : Ready p) (hn : 3 * left p + 4 ≤ n) (isPublic : Bool)
    (start : Position) : Returns p (member n isPublic start) fun _ q => left q + 1 ≤ left p := by
  refine (within_typeRef (w := left p) (by omega) _ p hp (Nat.le_refl _)).bind fun t q hq hl => ?_
  refine (returns_expect hq Kind.noConfusion).bind fun _ r hr hm => returns_kind ?_
  split
  · refine (returns_advance hr).bind fun _ s hs hx => returns_previousEnd (returns_pure hs ?_)
    omega
  · refine (returns_advance hr).bind fun _ s hs hx => ?_
    refine (returns_closedList hs (within_parameters (w := left s) (by omega)) (Nat.le_refl _)
      _).bind fun ps t ht hy => ?_
    refine (returns_block ht fun u hu hz => ?_).bind fun b u hu hz =>
      returns_previousEnd (returns_pure hu ?_)
    · exact (returns_statements n (left u)).2 (by omega) u hu (Nat.le_refl _)
    · omega
  · exact returns_unexpected _

theorem returns_declaration (hp : Ready p) (hn : 3 * left p + 4 ≤ n) :
    Returns p (declaration n) fun _ q => left q + 1 ≤ left p := by
  apply returns_position
  have hv : Returns p visibility fun _ q => left q ≤ left p := by
    apply returns_kind
    split
    · refine (returns_advance hp).bind fun _ q hq hl => returns_pure hq ?_
      omega
    · exact returns_pure hp (Nat.le_refl _)
  refine hv.bind fun isPublic q hq hl => returns_kind ?_
  split
  · refine (returns_typeAlias hq _ _).imp fun _ r hr => ?_
    omega
  · refine (returns_member hq (by omega) _ _).imp fun _ r hr => ?_
    omega

theorem returns_declarations (hp : Ready p) (hn : 3 * left p + 5 ≤ n) :
    Returns p (declarations n) fun _ q => left q ≤ left p := by
  induction n generalizing p with
  | zero => omega
  | succ n ih =>
    apply returns_kind
    split
    · exact returns_pure hp (Nat.le_refl _)
    · refine (returns_declaration hp (by omega)).bind fun d q hq hl => ?_
      refine (ih hq (by omega)).bind fun ds r hr hm => returns_pure hr ?_
      omega

theorem returns_wholeModule (hp : Ready p) (hn : 3 * left p + 5 ≤ n) :
    Returns p (wholeModule n) fun _ _ => True := by
  refine (returns_expect hp Kind.noConfusion).bind fun _ q hq hl => ?_
  refine (returns_expect hq Kind.noConfusion).bind fun _ r hr hm => ?_
  refine (returns_expect hr Kind.noConfusion).bind fun _ s hs hx => ?_
  refine (returns_imports hs (by omega)).bind fun _ t ht hy => ?_
  refine (returns_declarations ht (by omega)).bind fun _ u hu hz => ?_
  refine (returns_expect hu Kind.noConfusion).bind fun _ v hv hw => returns_previousEnd ?_
  exact (returns_expectAny hv [.eof]).bind fun _ w hw _ => returns_pure hw trivial

end ModuleSyntax.Proofs.AnswersModule
