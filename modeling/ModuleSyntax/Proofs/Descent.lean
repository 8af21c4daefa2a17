import ModuleSyntax.Proofs.Precedence

namespace ModuleSyntax.Proofs.Descent

open Parse Motion Calls PairedExpression Grammar Levels Layered Refinement Chains Precedence

variable {n : Nat} {l : Power} {e : Expression Span} {p : Parser}

section

variable (hx : ∀ l, l ≤ .unary → Simulates (expression n l) fun k => layer k (tighter l))
  (hf : ∀ l e p, l ≤ .additive → p.tables = .standard → Held p (tighter l) →
    Refines (chain n e l) (fun k => further k (tighter l) e) p)
  (hc : ∀ l e p, .multiplicative ≤ l → l ≤ .unary → p.tables = .standard →
    Refines (chain n e l) (fun k => further k .call e) p)
  (hs : Simulates (items n) list)

include hx hs in
theorem primary_layer (hp : p.tables = .standard) (hk : p.current.kind ≠ .mark .dash) :
    Refines (first n) (fun k => layer k .primary) p := by
  apply Refines.call
  cases ht : Tables.standard.leading p.current.kind with
  | none =>
    have hr := first_of_none (n := n) (p := p) (by rw [hp, ht])
    exact (refines_refuseEntry Tables.leading).congr hr fun k => primary_of_none hp ht
  | some rule =>
    have hn : rule ≠ .negation := by
      rintro rfl
      exact hk (leading_standard ht)
    have hr := refines_leading (g := fun k _ => layer k .assignment)
      (hx .loosest (by decide)) hs hp hn
    exact hr.congr (first_of_some (by rw [hp, ht])) fun k => primary_of_some ht hk

include hx hc hs in
theorem operand_layer (hl : .multiplicative ≤ l) (hu : l ≤ .unary) :
    Simulates (expression (n + 1) l) fun k => layer k .unary := by
  intro p hp
  by_cases hk : p.current.kind = .mark .dash
  · have hfirst : first n p = negation (expression n .unary) p :=
      first_of_some (by rw [hp, hk]; rfl)
    have hn : Refines (first n) (fun k => negation (layer k .unary)) p :=
      (refines_negation (hx .unary (by decide)) hp).congr hfirst fun _ => rfl
    have hb := hn.bind (f := fun e => chain n e l) (g := fun _ e => pure e) fun e q hq he _ =>
      refines_idle (not_goesOn_suffix (hq.trans hp) (held_of_negation hp (hfirst ▸ he)) hl)
    refine Refines.call (hb.congr (expression_first n l p) fun k => ?_)
    rw [layer_unary_succ, if_pos hk, bind_pure]
  · have hb := (primary_layer hx hs hp hk).bind fun e q hq _ _ => hc l e q hl hu (hq.trans hp)
    refine Refines.call (Refines.call (hb.congr (expression_first n l p) fun k => ?_))
    rw [layer_unary_succ, if_neg hk, layer]

include hf in
theorem looser_layer (hl : l ≤ .additive)
    (hm : Simulates (expression (n + 1) (tighter l)) fun k => layer k (tighter (tighter l))) :
    Simulates (expression (n + 1) l) fun k => layer k (tighter l) := by
  intro p hp
  have hb := (hm p hp).bind fun e q hq he _ => hf l e q hl (hq.trans hp) (held_of_expression hp he)
  have hy : Refines (expression (n + 1) l)
      (fun k => layer k (tighter (tighter l)) >>= fun e => further k (tighter l) e) p :=
    fun r q h => hb r q (expression_split (le_tighter hl) h)
  refine Refines.call (hy.congr rfl fun k => ?_)
  rw [layer_succ hl]

include hx hf hc hs in
theorem expression_layer_succ : ∀ l, l ≤ .unary →
    Simulates (expression (n + 1) l) fun k => layer k (tighter l) := by
  have hmul : Simulates (expression (n + 1) .multiplicative) fun k => layer k .unary :=
    operand_layer hx hc hs (by decide) (by decide)
  have hadd := looser_layer (l := .additive) hf (by decide) hmul
  have hrel := looser_layer (l := .relational) hf (by decide) hadd
  have heq := looser_layer (l := .equality) hf (by decide) hrel
  have hassign := looser_layer (l := .assignment) hf (by decide) heq
  have hloose := looser_layer (l := .loosest) hf (by decide) hassign
  intro l hl
  cases l with
  | loosest => exact hloose
  | assignment => exact hassign
  | equality => exact heq
  | relational => exact hrel
  | additive => exact hadd
  | multiplicative => exact hmul
  | unary => exact operand_layer hx hc hs (by decide) (by decide)
  | call | primary => exact absurd hl (by decide)

include hx hf in
theorem chain_layer_succ (hl : l ≤ .additive) (hp : p.tables = .standard)
    (hh : Held p (tighter l)) :
    Refines (chain (n + 1) e l) (fun k => further k (tighter l) e) p := by
  by_cases hg : ∃ held rule, GoesOn p l held rule
  · obtain ⟨held, rule, hg⟩ := hg
    have ht := hg.1
    rw [hp] at ht
    obtain rfl : held = tighter l := eq_tighter (hh held rule ht) hg.2
    have hs := trailing_standard ht
    apply Refines.call
    cases rule with
    | assignment =>
      obtain ⟨hk, ht⟩ := hs
      obtain rfl : l = .loosest := by
        revert ht
        cases l <;> decide
      have hb := (refines_assignment (hx .loosest (by decide)) hp e).bind
        (f := fun e' => chain n e' .loosest) (g := fun _ e' => pure e') fun e' q hq he _ =>
          refines_idle (not_goesOn (hq.trans hp) (held_of_assignment hp he))
      refine hb.congr (chain_goes hg) fun k => ?_
      rw [tighter, further, kind_bind, if_pos hk, assignTo_eq, bind_pure]
    | binary =>
      obtain ⟨op, hk, ho⟩ := hs
      have hl' : .assignment ≤ l := by
        revert ho
        cases l <;> cases op <;> decide
      have hb := refines_operation op e (hx (tighter l) (tighter_le_unary l)) hp
        fun e' q a r hq hr ha _ => hf l e' r hl hr (held_of_expression hq ha)
      refine hb.congr ?_ fun k => further_operator hl' hl hk ho.symm
      rw [chain_goes hg]
      exact binary_bind hk _ _
    | call | index =>
      exfalso
      have hcall := hs.2
      revert hcall
      cases l <;> decide
  · exact Refines.call ((refines_pure e).congr (chain_stops hg) fun k => further_stops hp hl hg)

include hx hc hs in
theorem chain_call_succ (hl : .multiplicative ≤ l) (hu : l ≤ .unary) (hp : p.tables = .standard) :
    Refines (chain (n + 1) e l) (fun k => further k .call e) p := by
  apply Refines.call
  by_cases hg : ∃ held rule, GoesOn p l held rule
  · obtain ⟨held, rule, hg⟩ := hg
    obtain ⟨-, ⟨hk, rfl⟩ | ⟨hk, rfl⟩⟩ := suffix_of_goesOn hp hl hg
    · have hb := (refines_call hs hp e).bind fun e' q hq _ _ => hc l e' q hl hu (hq.trans hp)
      exact hb.congr (chain_goes hg) fun k => further_call hk
    · have hb := (refines_index (hx .loosest (by decide)) hp e).bind
        fun e' q hq _ _ => hc l e' q hl hu (hq.trans hp)
      exact hb.congr (chain_goes hg) fun k => further_index hk
  · exact (refines_pure e).congr (chain_stops hg) fun k => further_call_stops hp hu hg

include hx hs in
theorem items_list_succ : Simulates (items (n + 1)) list := by
  intro p hp
  apply Refines.call
  refine (hx .loosest (by decide) p hp).bind fun e q hq _ _ => ?_
  refine refines_kind (refines_if (fun _ => ?_) fun _ => refines_pure _)
  refine refines_advance.bind fun _ r hr _ _ => ?_
  exact (hs r (hr.trans (hq.trans hp))).bind fun es _ _ _ _ => refines_pure _

end

/-- What the loop over powers answers, the parses of the levels answer. -/
theorem expression_layer (n : Nat) :
    (∀ l, l ≤ .unary → Simulates (expression n l) fun k => layer k (tighter l)) ∧
    (∀ l e p, l ≤ .additive → p.tables = .standard → Held p (tighter l) →
      Refines (chain n e l) (fun k => further k (tighter l) e) p) ∧
    (∀ l e p, .multiplicative ≤ l → l ≤ .unary → p.tables = .standard →
      Refines (chain n e l) (fun k => further k .call e) p) ∧
    Simulates (items n) list := by
  -- operands of products and signs go on with calls and elements only: one level, many powers
  induction n with
  | zero =>
    exact ⟨fun _ _ _ _ => refines_outOfCalls, fun _ _ _ _ _ _ => refines_outOfCalls,
      fun _ _ _ _ _ _ => refines_outOfCalls, fun _ _ => refines_outOfCalls⟩
  | succ n ih =>
    obtain ⟨hx, hf, hc, hs⟩ := ih
    exact ⟨expression_layer_succ hx hf hc hs, fun _ _ _ => chain_layer_succ hx hf,
      fun _ _ _ => chain_call_succ hx hc hs, items_list_succ hx hs⟩

end ModuleSyntax.Proofs.Descent
