import ModuleSyntax.Proofs.PairedExpression

namespace ModuleSyntax.Proofs.PairedStatement

open Parse Motion PairedRuns PairedExpression

variable {γ α δ : Type} {σ : Pairing γ} (hσ : Sound σ)

theorem mapNote_eq_iff {f : Span → δ} {s t : TypeRef Span} :
    s.mapNote f = t.mapNote f ↔ s.base = t.base ∧ s.depth = t.depth ∧ f s.note = f t.note := by
  simp only [TypeRef.mapNote, TypeRef.mk.injEq]

include hσ

theorem paired_typeLeading (rule : TypeLeading) :
    Paired σ (TypeRef.mapNote (see σ.view)) (typeLeading rule) (typeLeading rule) := by
  cases rule with
  | primitive =>
    refine (paired_expectOneOf hσ _).bind hσ fun s t h => paired_pure ?_
    simp only [seeToken, Prod.mk.injEq] at h
    simp only [TypeRef.mapNote, h]
  | named =>
    refine (paired_expect hσ _).bind hσ fun s t h => paired_pure ?_
    simp only [seeToken, Prod.mk.injEq] at h
    simp only [TypeRef.mapNote, h]

theorem paired_arrayType {s t : TypeRef Span}
    (h : s.mapNote (see σ.view) = t.mapNote (see σ.view)) :
    Paired σ (TypeRef.mapNote (see σ.view)) (arrayType s) (arrayType t) := by
  refine (paired_expect hσ _).bind hσ fun _ _ _ => (paired_expect hσ _).bind hσ
    fun u v hv => paired_pure ?_
  simp only [seeToken, see, Prod.mk.injEq] at hv
  simp only [TypeRef.mapNote, TypeRef.mk.injEq, see, Prod.mk.injEq] at h
  simp only [TypeRef.mapNote, see, h, hv.2.2.2]

theorem paired_typeTrailing (rule : TypeTrailing) {s t : TypeRef Span}
    (h : s.mapNote (see σ.view) = t.mapNote (see σ.view)) :
    Paired σ (TypeRef.mapNote (see σ.view)) (typeTrailing rule s) (typeTrailing rule t) := by
  cases rule with
  | array => exact paired_arrayType hσ h

theorem paired_typeChain {n m : Nat} (hn : n ≤ m) (s t : TypeRef Span) (power : Power)
    (h : s.mapNote (see σ.view) = t.mapNote (see σ.view)) :
    Paired σ (TypeRef.mapNote (see σ.view)) (typeChain n s power) (typeChain m t power) := by
  induction n generalizing m s t with
  | zero => exact paired_outOfCalls _
  | succ n ih =>
    obtain ⟨m, rfl⟩ : ∃ k, m = k + 1 := ⟨m - 1, by omega⟩
    rw [typeChain_succ, typeChain_succ]
    refine (paired_lookup hσ.typeTrailing hσ).bind hσ fun r r' hr => ?_
    obtain rfl : r = r' := hr
    cases r with
    | none => exact paired_pure h
    | some rule =>
      obtain ⟨held, rule⟩ := rule
      dsimp only
      split
      · exact paired_pure h
      · exact (paired_typeTrailing hσ rule h).bind hσ fun a b => ih (by omega) a b

theorem paired_typeRef {n m : Nat} (hn : n ≤ m) (power : Power) :
    Paired σ (TypeRef.mapNote (see σ.view)) (typeRef n power) (typeRef m power) := by
  rw [typeRef_eq, typeRef_eq]
  refine (paired_lookup hσ.typeLeading hσ).bind hσ fun r r' hr => ?_
  obtain rfl : r = r' := hr
  cases r with
  | none => exact paired_refuseEntry hσ.typeStarts
  | some rule => exact (paired_typeLeading hσ rule).bind hσ fun a b =>
      paired_typeChain hσ hn a b power

theorem paired_endEvaluation {a b : Expression Span}
    (h : a.mapNote (see σ.view) = b.mapNote (see σ.view)) :
    Paired σ (Statement.mapNote (see σ.view)) (endEvaluation a) (endEvaluation b) := by
  refine (paired_expect hσ _).bind hσ fun _ _ _ => paired_previousEnd hσ fun i j hij =>
    paired_pure ?_
  have ha := see_note h
  simp only [see, Prod.mk.injEq] at ha
  simp only [Statement.mapNote, see, h, ha.1, hij]

theorem paired_endDeclaration {s t : TypeRef Span}
    (h : s.mapNote (see σ.view) = t.mapNote (see σ.view)) :
    Paired σ (Statement.mapNote (see σ.view)) (endDeclaration s) (endDeclaration t) := by
  refine (paired_expect hσ _).bind hσ fun u v hv => (paired_expect hσ _).bind hσ fun _ _ _ =>
    paired_previousEnd hσ fun i j hij => paired_pure ?_
  simp only [seeToken, Prod.mk.injEq] at hv
  have hn := (mapNote_eq_iff.1 h).2.2
  simp only [see, Prod.mk.injEq] at hn
  simp only [Statement.mapNote, see, h, hv.2.1, hn.1, hij]

theorem paired_afterName {n m : Nat} (hn : n ≤ m) (name : String) (depth : Nat)
    (a b : Expression Span) (h : a.mapNote (see σ.view) = b.mapNote (see σ.view)) :
    Paired σ (Statement.mapNote (see σ.view)) (afterName n name depth a)
      (afterName m name depth b) := by
  induction n generalizing m depth a b with
  | zero => exact paired_outOfCalls _
  | succ n ih =>
    obtain ⟨m, rfl⟩ : ∃ k, m = k + 1 := ⟨m - 1, by omega⟩
    have hnm : n ≤ m := by omega
    have ha := see_note h
    simp only [see, Prod.mk.injEq] at ha
    obtain ⟨hexpr, hchain, -⟩ := paired_expressions hσ hnm
    refine paired_kind hσ fun k => ?_
    split
    · refine (paired_advance hσ).bind hσ fun _ _ _ => paired_kind hσ fun k => ?_
      split
      · refine (paired_advance hσ).bind hσ fun u v hv => ih hnm _ _ _ ?_
        simp only [seeToken, see, Prod.mk.injEq] at hv
        simp only [Expression.mapNote, see, h, ha.1, hv.2.2.2]
      · refine (hexpr _).bind hσ fun c d hr => (paired_expect hσ _).bind hσ fun _ _ _ =>
          paired_previousEnd hσ fun i j hij => (hchain _ _ _ ?_).bind hσ
            fun _ _ he => paired_endEvaluation hσ he
        simp only [Expression.mapNote, see, h, hr, ha.1, hij]
    · refine paired_kind hσ fun k => ?_
      split
      · refine paired_endDeclaration hσ (mapNote_eq_iff.2 ⟨rfl, rfl, see_note h⟩)
      · exact (hchain _ _ _ h).bind hσ fun _ _ he => paired_endEvaluation hσ he

theorem paired_nameFirst {n m : Nat} (hn : n ≤ m) :
    Paired σ (Statement.mapNote (see σ.view)) (nameFirst n) (nameFirst m) := by
  refine (paired_expect hσ _).bind hσ fun s t h => ?_
  simp only [seeToken, Prod.mk.injEq] at h
  rw [h.2.1]
  exact paired_afterName hσ hn _ _ _ _ (by simp only [Expression.mapNote, h.2.2])

theorem paired_declarationFirst {n m : Nat} (hn : n ≤ m) :
    Paired σ (Statement.mapNote (see σ.view)) (declarationFirst n) (declarationFirst m) :=
  (paired_typeRef hσ hn _).bind hσ fun _ _ h => paired_endDeclaration hσ h

theorem paired_condition {n m : Nat} (hn : n ≤ m) :
    Paired σ (Expression.mapNote (see σ.view)) (condition n) (condition m) :=
  (paired_expect hσ _).bind hσ fun _ _ _ => ((paired_expressions hσ hn).1 _).bind hσ
    fun _ _ he => (paired_expect hσ _).bind hσ fun _ _ _ => paired_pure he

variable {x y : Parse (Statement Span)} {xs ys : Parse (List (Statement Span))}

theorem paired_block (h : Paired σ (List.map (Statement.mapNote (see σ.view))) xs ys) :
    Paired σ (Block.mapNote (see σ.view)) (block xs) (block ys) := by
  refine (paired_expect hσ _).bind hσ fun s t ht => h.bind hσ fun as bs hl =>
    (paired_expect hσ _).bind hσ fun _ _ _ => paired_previousEnd hσ fun i j hij => paired_pure ?_
  simp only [seeToken, see, Prod.mk.injEq] at ht
  simp only [Block.mapNote, see, hl, ht.2.2.1, hij]

theorem paired_whileLoop {n m : Nat} (hn : n ≤ m)
    (h : Paired σ (List.map (Statement.mapNote (see σ.view))) xs ys) :
    Paired σ (Statement.mapNote (see σ.view)) (whileLoop n xs) (whileLoop m ys) := by
  refine (paired_advance hσ).bind hσ fun s t ht => (paired_condition hσ hn).bind hσ
    fun c d hc => (paired_block hσ h).bind hσ fun a b hb => paired_previousEnd hσ fun i j hij =>
      paired_pure ?_
  simp only [seeToken, see, Prod.mk.injEq] at ht
  simp only [Block.mapNote, Block.mk.injEq] at hb
  simp only [Statement.mapNote, Statement.mapNotes_eq_map, hb, hc]
  simp only [see, ht.2.2.1, hij]

theorem paired_conditional {n m : Nat} (hn : n ≤ m)
    (h : Paired σ (Statement.mapNote (see σ.view)) x y) :
    Paired σ (Statement.mapNote (see σ.view)) (conditional n x) (conditional m y) := by
  refine (paired_advance hσ).bind hσ fun s t ht => (paired_condition hσ hn).bind hσ
    fun c d hc => h.bind hσ fun a b hb => paired_kind hσ fun k => ?_
  simp only [seeToken, see, Prod.mk.injEq] at ht
  split
  · refine (paired_advance hσ).bind hσ fun _ _ _ => h.bind hσ fun a' b' hb' =>
      paired_previousEnd hσ fun i j hij => paired_pure ?_
    simp only [Statement.mapNote, see, hc, hb, hb', ht.2.2.1, hij]
  · refine paired_previousEnd hσ fun i j hij => paired_pure ?_
    simp only [Statement.mapNote, see, hc, hb, ht.2.2.1, hij]

theorem paired_breakLoop : Paired σ (Statement.mapNote (see σ.view)) breakLoop breakLoop := by
  refine (paired_advance hσ).bind hσ fun s t ht => (paired_expect hσ _).bind hσ fun _ _ _ =>
    paired_previousEnd hσ fun i j hij => paired_pure ?_
  simp only [seeToken, see, Prod.mk.injEq] at ht
  simp only [Statement.mapNote, see, ht.2.2.1, hij]

theorem paired_returnValue {n m : Nat} (hn : n ≤ m) :
    Paired σ (Statement.mapNote (see σ.view)) (returnValue n) (returnValue m) := by
  refine (paired_advance hσ).bind hσ fun s t ht => paired_kind hσ fun k => ?_
  simp only [seeToken, see, Prod.mk.injEq] at ht
  split
  · refine (paired_advance hσ).bind hσ fun _ _ _ => paired_previousEnd hσ fun i j hij =>
      paired_pure ?_
    simp only [Statement.mapNote, see, Option.map_none, ht.2.2.1, hij]
  · refine ((paired_expressions hσ hn).1 _).bind hσ fun a b he => (paired_expect hσ _).bind hσ
      fun _ _ _ => paired_previousEnd hσ fun i j hij => paired_pure ?_
    simp only [Statement.mapNote, see, Option.map_some, he, ht.2.2.1, hij]

theorem paired_opening {n m : Nat} (hn : n ≤ m)
    (h : Paired σ (Statement.mapNote (see σ.view)) x y)
    (hs : Paired σ (List.map (Statement.mapNote (see σ.view))) xs ys) (rule : Opening) :
    Paired σ (Statement.mapNote (see σ.view)) (opening n x xs rule) (opening m y ys rule) := by
  cases rule with
  | block =>
    refine (paired_block hσ hs).bind hσ fun a b hb => paired_pure ?_
    simp only [Block.mapNote, Block.mk.injEq] at hb
    simp only [Statement.mapNote, Statement.mapNotes_eq_map, hb]
  | whileLoop => exact paired_whileLoop hσ hn hs
  | conditional => exact paired_conditional hσ hn h
  | breakLoop => exact paired_breakLoop hσ
  | returnValue => exact paired_returnValue hσ hn
  | declaration => exact paired_declarationFirst hσ hn
  | name => exact paired_nameFirst hσ hn

/-- Statements keep together, also when the second run may go deeper. -/
theorem paired_statements {n m : Nat} (hn : n ≤ m) :
    Paired σ (Statement.mapNote (see σ.view)) (statement n) (statement m) ∧
    Paired σ (List.map (Statement.mapNote (see σ.view))) (statements n) (statements m) := by
  induction n generalizing m with
  | zero => exact ⟨paired_outOfCalls _, paired_outOfCalls _⟩
  | succ n ih =>
    obtain ⟨m, rfl⟩ : ∃ k, m = k + 1 := ⟨m - 1, by omega⟩
    have hnm : n ≤ m := by omega
    obtain ⟨hone, hmany⟩ := ih hnm
    constructor
    · rw [statement_succ, statement_succ]
      refine (paired_lookup hσ.opening hσ).bind hσ fun r s hr => ?_
      obtain rfl : r = s := hr
      cases r with
      | none => exact ((paired_expressions hσ hnm).1 _).bind hσ fun _ _ he =>
          paired_endEvaluation hσ he
      | some rule => exact paired_opening hσ hnm hone hmany rule
    · refine paired_kind hσ fun k => ?_
      split
      · exact paired_pure rfl
      · refine paired_kind hσ fun k => ?_
        split
        · exact paired_unexpected hσ _
        · refine hone.bind hσ fun a b hb => hmany.bind hσ fun as bs hl => paired_pure ?_
          simp only [List.map_cons, hb, hl]

end ModuleSyntax.Proofs.PairedStatement
