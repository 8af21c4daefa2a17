import ModuleSyntax.Proofs.PairedStatement

namespace ModuleSyntax.Proofs.PairedModule

open Parse Motion PairedRuns PairedExpression PairedStatement

variable {γ : Type} {σ : Pairing γ} (hσ : Sound σ)

include hσ

theorem paired_importLine :
    Paired σ (Import.mapNote (see σ.view)) importLine importLine := by
  refine (paired_expect hσ _).bind hσ fun s t ht => (paired_expect hσ _).bind hσ fun u v hv =>
    (paired_expect hσ _).bind hσ fun _ _ _ => paired_previousEnd hσ fun i j hij => paired_pure ?_
  simp only [seeToken, see, Prod.mk.injEq] at ht hv
  simp only [Import.mapNote, see, ht.2.2.1, hv.2.1, hij]

theorem paired_imports {n m : Nat} (hn : n ≤ m) :
    Paired σ (List.map (Import.mapNote (see σ.view))) (imports n) (imports m) := by
  induction n generalizing m with
  | zero => exact paired_outOfCalls _
  | succ n ih =>
    obtain ⟨m, rfl⟩ : ∃ k, m = k + 1 := ⟨m - 1, by omega⟩
    refine paired_kind hσ fun k => ?_
    split
    · refine (paired_importLine hσ).bind hσ fun a b h => (ih (by omega)).bind hσ fun as bs hl =>
        paired_pure ?_
      simp only [List.map_cons, h, hl]
    · exact paired_pure rfl

theorem paired_parameter {n m : Nat} (hn : n ≤ m) :
    Paired σ (Parameter.mapNote (see σ.view)) (parameter n) (parameter m) := by
  refine (paired_typeRef hσ hn _).bind hσ fun s t h => (paired_expect hσ _).bind hσ fun u v hv =>
    paired_previousEnd hσ fun i j hij => paired_pure ?_
  have hs := (mapNote_eq_iff.1 h).2.2
  simp only [seeToken, see, Prod.mk.injEq] at hs hv
  simp only [Parameter.mapNote, see, h, hs.1, hv.2.1, hij]

theorem paired_parameters {n m : Nat} (hn : n ≤ m) :
    Paired σ (List.map (Parameter.mapNote (see σ.view))) (parameters n) (parameters m) := by
  induction n generalizing m with
  | zero => exact paired_outOfCalls _
  | succ n ih =>
    obtain ⟨m, rfl⟩ : ∃ k, m = k + 1 := ⟨m - 1, by omega⟩
    refine (paired_parameter hσ (by omega)).bind hσ fun a b h => paired_kind hσ fun k => ?_
    split
    · refine (paired_advance hσ).bind hσ fun _ _ _ => (ih (by omega)).bind hσ fun as bs hl =>
        paired_pure ?_
      simp only [List.map_cons, h, hl]
    · exact paired_pure (by simp only [List.map_cons, List.map_nil, h])

theorem paired_typeAlias (isPublic : Bool) {i j : Position} (hij : σ.view i = σ.view j) :
    Paired σ (Declaration.mapNote (see σ.view)) (typeAlias isPublic i) (typeAlias isPublic j) := by
  refine (paired_expect hσ _).bind hσ fun _ _ _ => (paired_expect hσ _).bind hσ fun s t ht =>
    (paired_expect hσ _).bind hσ fun _ _ _ => (paired_expect hσ _).bind hσ fun u v hv =>
    (paired_expect hσ _).bind hσ fun _ _ _ => paired_previousEnd hσ fun _ _ he => paired_pure ?_
  simp only [seeToken, Prod.mk.injEq] at ht hv
  simp only [Declaration.mapNote, see, ht.2.1, hv.2.1, hij, he]

theorem paired_member {n m : Nat} (hn : n ≤ m) (isPublic : Bool) {i j : Position}
    (hij : σ.view i = σ.view j) :
    Paired σ (Declaration.mapNote (see σ.view)) (member n isPublic i) (member m isPublic j) := by
  refine (paired_typeRef hσ hn _).bind hσ fun s t h => (paired_expect hσ _).bind hσ fun u v hv =>
    paired_kind hσ fun k => ?_
  simp only [seeToken, Prod.mk.injEq] at hv
  split
  · refine (paired_advance hσ).bind hσ fun _ _ _ => paired_previousEnd hσ fun _ _ he =>
      paired_pure ?_
    simp only [Declaration.mapNote, see, h, hv.2.1, hij, he]
  · refine (paired_advance hσ).bind hσ fun _ _ _ => (paired_closedList hσ
      (paired_parameters hσ hn) _).bind hσ fun as bs hl => (paired_block hσ
      (paired_statements hσ hn).2).bind hσ fun c d hb => paired_previousEnd hσ fun _ _ he =>
      paired_pure ?_
    simp only [Declaration.mapNote, see, h, hl, hb, hv.2.1, hij, he]
  · exact paired_unexpected hσ _

theorem paired_visibility : Paired σ id visibility visibility := by
  refine paired_kind hσ fun k => ?_
  split
  · exact (paired_advance hσ).bind hσ fun _ _ _ => paired_pure rfl
  · exact paired_pure rfl

theorem paired_declaration {n m : Nat} (hn : n ≤ m) :
    Paired σ (Declaration.mapNote (see σ.view)) (declaration n) (declaration m) := by
  refine paired_position hσ fun i j hij => (paired_visibility hσ).bind hσ fun a b h => ?_
  obtain rfl : a = b := h
  refine paired_kind hσ fun k => ?_
  split
  · exact paired_typeAlias hσ a hij
  · exact paired_member hσ hn a hij

theorem paired_declarations {n m : Nat} (hn : n ≤ m) :
    Paired σ (List.map (Declaration.mapNote (see σ.view))) (declarations n) (declarations m) := by
  induction n generalizing m with
  | zero => exact paired_outOfCalls _
  | succ n ih =>
    obtain ⟨m, rfl⟩ : ∃ k, m = k + 1 := ⟨m - 1, by omega⟩
    refine paired_kind hσ fun k => ?_
    split
    · exact paired_pure rfl
    · refine (paired_declaration hσ (by omega)).bind hσ fun a b h => (ih (by omega)).bind hσ
        fun as bs hl => paired_pure ?_
      simp only [List.map_cons, h, hl]

theorem paired_wholeModule {n m : Nat} (hn : n ≤ m) :
    Paired σ (Module.mapNote (see σ.view)) (wholeModule n) (wholeModule m) := by
  refine (paired_expect hσ _).bind hσ fun s t ht => (paired_expect hσ _).bind hσ fun u v hv =>
    (paired_expect hσ _).bind hσ fun _ _ _ => (paired_imports hσ hn).bind hσ fun as bs ha =>
    (paired_declarations hσ hn).bind hσ fun cs ds hd => (paired_expect hσ _).bind hσ
    fun _ _ _ => paired_previousEnd hσ fun _ _ he => (paired_expect hσ _).bind hσ fun _ _ _ =>
    paired_pure ?_
  simp only [seeToken, see, Prod.mk.injEq] at ht hv
  simp only [Module.mapNote, see, ha, hd, ht.2.2.1, hv.2.1, he]

end ModuleSyntax.Proofs.PairedModule
