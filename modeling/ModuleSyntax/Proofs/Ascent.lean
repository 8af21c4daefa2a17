import ModuleSyntax.Proofs.Precedence

namespace ModuleSyntax.Proofs.Ascent

open Parse Motion Calls PairedExpression Grammar Levels Layered Refinement Chains Precedence

variable {n : Nat} {l m : Power} {e : Expression Span} {p : Parser}

theorem settles_looser {o : Except Diagnostic (Expression Span) × Parser} (hl : l ≤ m)
    (h : Settles (fun k => expression k m >>= fun e => chain k e l) p o) :
    Settles (fun k => expression k l) p o := by
  obtain ⟨k, hk⟩ := h
  have hs : (expression k m >>= fun e => chain k e l) p = some o := hk k (Nat.le_refl k)
  rw [bind_apply] at hs
  split at hs
  · cases hs
  · rename_i hx
    cases hs
    exact ⟨k, fun i hi => expression_more hi (expression_refused hl hx)⟩
  · rename_i hx
    exact ⟨k + k, fun i hi => expression_more hi (expression_join hl hx hs)⟩

theorem held_of_settles (hp : p.tables = .standard) {q : Parser}
    (h : Settles (fun k => expression k l) p (.ok e, q)) : Held q l := by
  obtain ⟨k, hk⟩ := h
  exact held_of_expression hp (hk k (Nat.le_refl k))

theorem refines_chain (h : ¬ ∃ held rule, GoesOn p l held rule) :
    Refines (pure e) (fun k => chain k e l) p :=
  Refines.call ((refines_pure e).congr rfl fun _ => chain_stops h)

section

variable (hx : ∀ l, l ≤ .unary → Simulates (layer n (tighter l)) fun k => expression k l)
  (hf : ∀ l e p, l ≤ .additive → p.tables = .standard → Held p (tighter l) →
    Refines (further n (tighter l) e) (fun k => chain k e l) p)
  (hc : ∀ l e p, .multiplicative ≤ l → l ≤ .unary → p.tables = .standard →
    Refines (further n .call e) (fun k => chain k e l) p)
  (hb : ∀ p, p.tables = .standard → p.current.kind ≠ .mark .dash →
    Refines (layer n .primary) first p)
  (ho : ∀ l p, .multiplicative ≤ l → l ≤ .unary → p.tables = .standard →
    p.current.kind ≠ .mark .dash → Refines (layer n .call) (fun k => expression k l) p)
  (hs : Simulates (list n) items)

include hx hs in
theorem primary_first_succ (hp : p.tables = .standard) (hk : p.current.kind ≠ .mark .dash) :
    Refines (layer (n + 1) .primary) first p := by
  cases ht : Tables.standard.leading p.current.kind with
  | none =>
    have hr := primary_of_none (n := n) hp ht
    exact (refines_refuseEntry Tables.leading).congr hr fun k => first_of_none (by rw [hp, ht])
  | some rule =>
    have hn : rule ≠ .negation := by
      rintro rfl
      exact hk (leading_standard ht)
    have hr := refines_leading (f := fun _ => layer n .assignment) (g := expression)
      (hx .loosest (by decide)) hs hp hn
    exact hr.congr (primary_of_some ht hk) fun k => first_of_some (by rw [hp, ht])

include hb hc in
theorem call_expression_succ (hl : .multiplicative ≤ l) (hu : l ≤ .unary)
    (hp : p.tables = .standard) (hk : p.current.kind ≠ .mark .dash) :
    Refines (layer (n + 1) .call) (fun k => expression k l) p := by
  have hr := (hb p hp hk).bind fun e q hq _ _ => hc l e q hl hu (hq.trans hp)
  refine Refines.call (hr.congr ?_ fun k => expression_first k l p)
  rw [layer]

include hx ho in
theorem unary_expression_succ (hl : .multiplicative ≤ l) (hu : l ≤ .unary) :
    Simulates (layer (n + 1) .unary) fun k => expression k l := by
  intro p hp
  by_cases hk : p.current.kind = .mark .dash
  · have hfirst : ∀ k, first k p = negation (expression k .unary) p := fun k =>
      first_of_some (by rw [hp, hk]; rfl)
    have hn : Refines (negation (layer n .unary)) first p :=
      (refines_negation (hx .unary (by decide)) hp).congr rfl hfirst
    have hr := hn.bind (f := pure) (g := fun k e => chain k e l) fun e q hq _ he => by
      obtain ⟨k, he⟩ := he
      have hh := held_of_negation hp ((hfirst k).symm.trans (he k (Nat.le_refl k)))
      exact refines_chain (not_goesOn_suffix (hq.trans hp) hh hl)
    refine Refines.call (hr.congr ?_ fun k => expression_first k l p)
    rw [layer_unary_succ, if_pos hk, bind_pure]
  · refine (ho l p hl hu hp hk).congr ?_ fun _ => rfl
    rw [layer_unary_succ, if_neg hk]

include hx hf in
theorem level_expression_succ (hl : l ≤ .additive) :
    Simulates (layer (n + 1) (tighter l)) fun k => expression k l := by
  intro p hp r q h
  rw [layer_succ hl] at h
  have hr := (hx (tighter l) (tighter_le_unary l) p hp).bind fun e q hq _ he =>
    hf l e q hl (hq.trans hp) (held_of_settles hp he)
  obtain ⟨ht, hy⟩ := hr r q h
  exact ⟨ht, settles_looser (le_tighter hl) hy⟩

include hx hf in
theorem further_chain_succ (hl : l ≤ .additive) (hp : p.tables = .standard)
    (hh : Held p (tighter l)) :
    Refines (further (n + 1) (tighter l) e) (fun k => chain k e l) p := by
  by_cases hg : ∃ held rule, GoesOn p l held rule
  · obtain ⟨held, rule, hg⟩ := hg
    have ht := hg.1
    rw [hp] at ht
    obtain rfl : held = tighter l := eq_tighter (hh held rule ht) hg.2
    have hs := trailing_standard ht
    apply Refines.call
    cases rule with
    | assignment =>
      obtain ⟨hk, ht⟩ := hs
      obtain rfl : l = .loosest := by
        revert ht
        cases l <;> decide
      have hr := (refines_assignment (hx .loosest (by decide)) hp e).bind
        (f := pure) (g := fun k e' => chain k e' .loosest) fun e' q hq _ he => by
          obtain ⟨k, he⟩ := he
          have hh := held_of_assignment hp (he k (Nat.le_refl k))
          exact refines_chain (not_goesOn (hq.trans hp) hh)
      refine hr.congr ?_ fun k => chain_goes hg
      rw [tighter, further, kind_bind, if_pos hk, assignTo_eq, bind_pure]
    | binary =>
      obtain ⟨op, hk, ho⟩ := hs
      have hl' : .assignment ≤ l := by
        revert ho
        cases l <;> cases op <;> decide
      have hr := refines_operation op e (hx (tighter l) (tighter_le_unary l)) hp
        fun e' q a r hq hr _ ha => hf l e' r hl hr (held_of_settles hq ha)
      refine hr.congr (further_operator hl' hl hk ho.symm) fun k => ?_
      rw [chain_goes hg]
      exact binary_bind hk _ _
    | call | index =>
      exfalso
      have hcall := hs.2
      revert hcall
      cases l <;> decide
  · exact (refines_chain hg).congr (further_stops hp hl hg) fun _ => rfl

include hx hc hs in
theorem further_call_succ (hl : .multiplicative ≤ l) (hu : l ≤ .unary) (hp : p.tables = .standard) :
    Refines (further (n + 1) .call e) (fun k => chain k e l) p := by
  by_cases hg : ∃ held rule, GoesOn p l held rule
  · obtain ⟨held, rule, hg⟩ := hg
    apply Refines.call
    obtain ⟨-, ⟨hk, rfl⟩ | ⟨hk, rfl⟩⟩ := suffix_of_goesOn hp hl hg
    · have hr := (refines_call hs hp e).bind fun e' q hq _ _ => hc l e' q hl hu (hq.trans hp)
      exact hr.congr (further_call hk) fun k => chain_goes hg
    · have hr := (refines_index (hx .loosest (by decide)) hp e).bind
        fun e' q hq _ _ => hc l e' q hl hu (hq.trans hp)
      exact hr.congr (further_index hk) fun k => chain_goes hg
  · exact (refines_chain hg).congr (further_call_stops hp hu hg) fun _ => rfl

include hx hs in
theorem list_items_succ : Simulates (list (n + 1)) items := by
  intro p hp
  apply Refines.call
  refine (hx .loosest (by decide) p hp).bind fun e q hq _ _ => ?_
  refine refines_kind (refines_if (fun _ => ?_) fun _ => refines_pure _)
  refine refines_advance.bind fun _ r hr _ _ => ?_
  exact (hs r (hr.trans (hq.trans hp))).bind fun es _ _ _ _ => refines_pure _

include hx hf ho in
theorem layer_expression_succ (hl : l ≤ .unary) :
    Simulates (layer (n + 1) (tighter l)) fun k => expression k l := by
  by_cases ha : l ≤ .additive
  · exact level_expression_succ hx hf ha
  · have hm : .multiplicative ≤ l := tighter_le ha
    have ht : tighter l = .unary := by
      revert hm hl
      cases l <;> decide
    rw [ht]
    exact unary_expression_succ hx ho hm hl

end

/-- What the parses of the levels answer, the loop over powers answers. -/
theorem layer_expression (n : Nat) :
    (∀ l, l ≤ .unary → Simulates (layer n (tighter l)) fun k => expression k l) ∧
    (∀ l e p, l ≤ .additive → p.tables = .standard → Held p (tighter l) →
      Refines (further n (tighter l) e) (fun k => chain k e l) p) ∧
    (∀ l e p, .multiplicative ≤ l → l ≤ .unary → p.tables = .standard →
      Refines (further n .call e) (fun k => chain k e l) p) ∧
    (∀ p, p.tables = .standard → p.current.kind ≠ .mark .dash →
      Refines (layer n .primary) first p) ∧
    (∀ l p, .multiplicative ≤ l → l ≤ .unary → p.tables = .standard →
      p.current.kind ≠ .mark .dash → Refines (layer n .call) (fun k => expression k l) p) ∧
    Simulates (list n) items := by
  induction n with
  | zero =>
    exact ⟨fun _ _ _ _ => refines_outOfCalls, fun _ _ _ _ _ _ => refines_outOfCalls,
      fun _ _ _ _ _ _ => refines_outOfCalls, fun _ _ _ => refines_outOfCalls,
      fun _ _ _ _ _ _ => refines_outOfCalls, fun _ _ => refines_outOfCalls⟩
  | succ n ih =>
    obtain ⟨hx, hf, hc, hb, ho, hs⟩ := ih
    exact ⟨fun _ => layer_expression_succ hx hf ho, fun _ _ _ => further_chain_succ hx hf,
      fun _ _ _ => further_call_succ hx hc hs, fun _ => primary_first_succ hx hs,
      fun _ _ => call_expression_succ hc hb, list_items_succ hx hs⟩

end ModuleSyntax.Proofs.Ascent
