import ModuleSyntax.Proofs.Notes
import ModuleSyntax.Proofs.PairedRuns

namespace ModuleSyntax.Proofs.PairedExpression

open Parse Motion PairedRuns Notes

variable {γ α δ : Type} {σ : Pairing γ} (hσ : Sound σ)

theorem see_note {view : Position → γ} {a b : Expression Span}
    (h : a.mapNote (see view) = b.mapNote (see view)) : see view a.note = see view b.note := by
  rw [← Expression.note_mapNote (see view) a, h, Expression.note_mapNote]

include hσ

theorem paired_atom : Paired σ (Expression.mapNote (see σ.view)) atom atom := by
  refine (paired_advance hσ).bind hσ fun s t h => ?_
  simp only [seeToken, Prod.mk.injEq] at h
  obtain ⟨hk, hv, hs⟩ := h
  rw [hk, hv]
  split
  case h_6 => exact paired_throw hσ rfl (congrArg Prod.fst hs)
  all_goals exact paired_pure (by simp only [Expression.mapNote, hs])

variable {x y : Parse (Expression Span)} {xs ys : Parse (List (Expression Span))}
  {a b : Expression Span}

theorem paired_negation (hx : Paired σ (Expression.mapNote (see σ.view)) x y) :
    Paired σ (Expression.mapNote (see σ.view)) (negation x) (negation y) := by
  refine (paired_advance hσ).bind hσ fun s t h => hx.bind hσ fun a b he => paired_pure ?_
  have hn := see_note he
  simp only [seeToken, see, Prod.mk.injEq] at h hn
  simp only [Expression.mapNote, see, he, h.2.2.1, hn.2]

theorem paired_grouping (hx : Paired σ (Expression.mapNote (see σ.view)) x y) :
    Paired σ (Expression.mapNote (see σ.view)) (grouping x) (grouping y) := by
  refine (paired_advance hσ).bind hσ fun s t h => hx.bind hσ fun a b he =>
    (paired_expect hσ _).bind hσ fun _ _ _ => paired_previousEnd hσ fun i j hij => paired_pure ?_
  simp only [seeToken, see, Prod.mk.injEq] at h
  simp only [mapNote_withNote, see, he, h.2.2.1, hij]

theorem paired_closedList {φ : α → δ} {us vs : Parse (List α)} (h : Paired σ (List.map φ) us vs)
    (close : Mark) : Paired σ (List.map φ) (closedList us close) (closedList vs close) := by
  refine paired_kind hσ fun k => ?_
  split
  · exact (paired_advance hσ).bind hσ fun _ _ _ => paired_pure rfl
  · refine h.bind hσ fun as bs hl => paired_kind hσ fun k => ?_
    split
    · exact (paired_advance hσ).bind hσ fun _ _ _ => paired_pure hl
    · exact paired_unexpected hσ _

theorem paired_arrayLiteral (h : Paired σ (List.map (Expression.mapNote (see σ.view))) xs ys) :
    Paired σ (Expression.mapNote (see σ.view)) (arrayLiteral xs) (arrayLiteral ys) := by
  refine (paired_advance hσ).bind hσ fun s t ht => (paired_closedList hσ h _).bind hσ
    fun as bs hl => paired_previousEnd hσ fun i j hij => paired_pure ?_
  simp only [seeToken, see, Prod.mk.injEq] at ht
  simp only [Expression.mapNote, Expression.mapNotes_eq_map, see, hl, ht.2.2.1, hij]

theorem paired_binary {f g : Power → Parse (Expression Span)}
    (hf : ∀ power, Paired σ (Expression.mapNote (see σ.view)) (f power) (g power))
    (he : a.mapNote (see σ.view) = b.mapNote (see σ.view)) (power : Power) :
    Paired σ (Expression.mapNote (see σ.view)) (binary f a power) (binary g b power) := by
  refine (paired_advance hσ).bind hσ fun s t h => ?_
  simp only [seeToken, see, Prod.mk.injEq] at h
  obtain ⟨hk, hv, hp, -⟩ := h
  rw [hk, hv]
  cases BinaryOp.ofKind? t.kind with
  | none => exact paired_throw hσ rfl hp
  | some op =>
    refine (hf power).bind hσ fun c d hr => paired_pure ?_
    have ha := see_note he
    have hc := see_note hr
    simp only [see, Prod.mk.injEq] at ha hc
    simp only [Expression.mapNote, see, he, hr, ha.1, hc.2]

theorem paired_assignment (hx : Paired σ (Expression.mapNote (see σ.view)) x y)
    (he : a.mapNote (see σ.view) = b.mapNote (see σ.view)) :
    Paired σ (Expression.mapNote (see σ.view)) (assignment x a) (assignment y b) := by
  have ht : a.isTarget = b.isTarget := by
    rw [← Expression.isTarget_mapNote (see σ.view), he, Expression.isTarget_mapNote]
  unfold assignment
  rw [ht]
  split
  · refine (paired_advance hσ).bind hσ fun _ _ _ => hx.bind hσ fun c d hr => paired_pure ?_
    have ha := see_note he
    have hc := see_note hr
    simp only [see, Prod.mk.injEq] at ha hc
    simp only [Expression.mapNote, see, he, hr, ha.1, hc.2]
  · refine ⟨fun p r q h => (moves_throw _) _ _ _ h, fun p q hs => ?_⟩
    have hc := hσ.current hs
    simp only [seeToken, see, Prod.mk.injEq] at hc
    exact .refusal (hσ.fails (congrArg Cause.badTarget hc.2.1) hc.2.2.1) hs

theorem paired_call (h : Paired σ (List.map (Expression.mapNote (see σ.view))) xs ys)
    (he : a.mapNote (see σ.view) = b.mapNote (see σ.view)) :
    Paired σ (Expression.mapNote (see σ.view)) (call xs a) (call ys b) := by
  refine (paired_advance hσ).bind hσ fun s t ht => (paired_closedList hσ h _).bind hσ
    fun as bs hl => paired_previousEnd hσ fun i j hij => paired_pure ?_
  have ha := see_note he
  simp only [see, Prod.mk.injEq] at ha
  simp only [Expression.mapNote, Expression.mapNotes_eq_map, see, he, hl, ha.1, hij]

theorem paired_index (hx : Paired σ (Expression.mapNote (see σ.view)) x y)
    (he : a.mapNote (see σ.view) = b.mapNote (see σ.view)) :
    Paired σ (Expression.mapNote (see σ.view)) (index x a) (index y b) := by
  have ha := see_note he
  simp only [see, Prod.mk.injEq] at ha
  refine (paired_advance hσ).bind hσ fun _ _ _ => paired_kind hσ fun k => ?_
  split
  · refine (paired_advance hσ).bind hσ fun _ _ _ => paired_previousEnd hσ fun i j hij =>
      paired_pure ?_
    simp only [Expression.mapNote, see, he, ha.1, hij]
  · refine hx.bind hσ fun c d hr => (paired_expect hσ _).bind hσ fun _ _ _ =>
      paired_previousEnd hσ fun i j hij => paired_pure ?_
    simp only [Expression.mapNote, see, he, hr, ha.1, hij]

theorem paired_leading {f g : Power → Parse (Expression Span)}
    (hf : ∀ power, Paired σ (Expression.mapNote (see σ.view)) (f power) (g power))
    (h : Paired σ (List.map (Expression.mapNote (see σ.view))) xs ys) (rule : Leading) :
    Paired σ (Expression.mapNote (see σ.view)) (leading f xs rule) (leading g ys rule) := by
  cases rule with
  | atom => exact paired_atom hσ
  | negation => exact paired_negation hσ (hf _)
  | grouping => exact paired_grouping hσ (hf _)
  | arrayLiteral => exact paired_arrayLiteral hσ h

theorem paired_trailing {f g : Power → Parse (Expression Span)}
    (hf : ∀ power, Paired σ (Expression.mapNote (see σ.view)) (f power) (g power))
    (h : Paired σ (List.map (Expression.mapNote (see σ.view))) xs ys) (rule : Trailing)
    (he : a.mapNote (see σ.view) = b.mapNote (see σ.view)) (power : Power) :
    Paired σ (Expression.mapNote (see σ.view)) (trailing f xs rule a power)
      (trailing g ys rule b power) := by
  cases rule with
  | assignment => exact paired_assignment hσ (hf _) he
  | binary => exact paired_binary hσ hf he power
  | call => exact paired_call hσ h he
  | index => exact paired_index hσ (hf _) he

/-- Expressions, chains and items keep together, also when the second run may go deeper. -/
theorem paired_expressions {n m : Nat} (h : n ≤ m) :
    (∀ power, Paired σ (Expression.mapNote (see σ.view)) (expression n power)
      (expression m power)) ∧
    (∀ a b power, a.mapNote (see σ.view) = b.mapNote (see σ.view) →
      Paired σ (Expression.mapNote (see σ.view)) (chain n a power) (chain m b power)) ∧
    Paired σ (List.map (Expression.mapNote (see σ.view))) (items n) (items m) := by
  -- on the calls of the first run; all three at once, since each calls the others
  induction n generalizing m with
  | zero => exact ⟨fun _ => paired_outOfCalls _, fun _ _ _ _ => paired_outOfCalls _,
      paired_outOfCalls _⟩
  | succ n ih =>
    obtain ⟨m, rfl⟩ : ∃ k, m = k + 1 := ⟨m - 1, by omega⟩
    obtain ⟨hexpr, hchain, hitems⟩ := ih (Nat.le_of_succ_le_succ h)
    refine ⟨fun power => ?_, fun a b power he => ?_, ?_⟩
    · rw [expression_succ, expression_succ]
      refine (paired_lookup hσ.leading hσ).bind hσ fun r s hr => ?_
      obtain rfl : r = s := hr
      cases r with
      | none => exact paired_refuseEntry hσ.starts
      | some rule => exact (paired_leading hσ hexpr hitems rule).bind hσ fun a b => hchain a b power
    · rw [chain_succ, chain_succ]
      refine (paired_lookup hσ.trailing hσ).bind hσ fun r s hr => ?_
      obtain rfl : r = s := hr
      cases r with
      | none => exact paired_pure he
      | some rule =>
        obtain ⟨held, rule⟩ := rule
        dsimp only
        split
        · exact paired_pure he
        · exact (paired_trailing hσ hexpr hitems rule he held).bind hσ fun a b => hchain a b power
    · refine (hexpr _).bind hσ fun c d hr => paired_kind hσ fun k => ?_
      split
      · refine (paired_advance hσ).bind hσ fun _ _ _ => hitems.bind hσ fun as bs hl =>
          paired_pure ?_
        simp only [List.map_cons, hr, hl]
      · exact paired_pure (by simp only [List.map_cons, List.map_nil, hr])

end ModuleSyntax.Proofs.PairedExpression
