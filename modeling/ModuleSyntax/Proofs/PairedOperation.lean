import ModuleSyntax.Proofs.Calls

namespace ModuleSyntax.Proofs.PairedOperation

open Parse Motion PairedRuns PairedExpression PairedStatement PairedModule Calls Notes

variable {α δ : Type} {σ : Pairing Position}

theorem shown_of_view (hv : σ.view = fun i => i) (s : Span) : shown (see σ.view s) = s := by
  rw [hv, shown, see]

theorem token_inj (hv : σ.view = fun i => i) {s t : Token}
    (h : seeToken σ.view s = seeToken σ.view t) : s = t := by
  obtain ⟨k, value, span⟩ := s
  obtain ⟨k', value', span'⟩ := t
  simp only [seeToken, Prod.mk.injEq] at h
  obtain ⟨rfl, rfl, hs⟩ := h
  rw [← shown_of_view hv span, hs, shown_of_view hv]

theorem paired_reply (hσ : Sound σ) {x y : Parse α} {φ : α → δ} (hx : Paired σ φ x y)
    (hφ : ∀ a b, φ a = φ b → a = b) (f : α → Reply) : Paired σ id (f <$> x) (f <$> y) := by
  rw [map_eq_pure_bind, map_eq_pure_bind]
  apply hx.bind hσ
  intro a b h
  rw [hφ a b h]
  exact paired_pure rfl

/-- The tables that an operation leaves behind if it returns. -/
def retabled : Operation → Tables → Tables
  | .setLeading k r, t => { t with leading := setEntry t.leading k r }
  | .setTrailing k p r, t => { t with trailing := setEntry t.trailing k (p, r) }
  | .setOpening k r, t => { t with opening := setEntry t.opening k r }
  | .setTypeLeading k r, t => { t with typeLeading := setEntry t.typeLeading k r }
  | .setTypeTrailing k p r, t => { t with typeTrailing := setEntry t.typeTrailing k (p, r) }
  | _, t => t

/-- An operation changes tables, or it runs alike in every pairing that sees all of a place. -/
theorem perform_cases (a : Operation) :
    (∀ n, perform n a = register (retabled a)) ∨
    retabled a = id ∧ ∀ σ : Pairing Position, Sound σ → σ.view = (fun i => i) →
      ∀ {n m : Nat}, n ≤ m → Paired σ id (perform n a) (perform m a) := by
  cases a with
  | setLeading | setTrailing | setOpening | setTypeLeading | setTypeTrailing =>
    exact .inl fun _ => rfl
  | unexpected ks => exact .inr ⟨rfl, fun σ hσ _ _ _ _ => paired_unexpected hσ ks⟩
  | advance =>
    exact .inr ⟨rfl, fun σ hσ hv _ _ _ =>
      paired_reply hσ (paired_advance hσ) (fun _ _ => token_inj hv) _⟩
  | expect k =>
    exact .inr ⟨rfl, fun σ hσ hv _ _ _ =>
      paired_reply hσ (paired_expect hσ k) (fun _ _ => token_inj hv) _⟩
  | expectOneOf ks =>
    exact .inr ⟨rfl, fun σ hσ hv _ _ _ =>
      paired_reply hσ (paired_expectOneOf hσ ks) (fun _ _ => token_inj hv) _⟩
  | module =>
    exact .inr ⟨rfl, fun σ hσ hv _ _ hn =>
      paired_reply hσ (paired_wholeModule hσ hn) (fun _ _ => module_inj (shown_of_view hv)) _⟩
  | importLine =>
    exact .inr ⟨rfl, fun σ hσ hv _ _ _ =>
      paired_reply hσ (paired_importLine hσ) (fun _ _ => import_inj (shown_of_view hv)) _⟩
  | declaration =>
    exact .inr ⟨rfl, fun σ hσ hv _ _ hn =>
      paired_reply hσ (paired_declaration hσ hn) (fun _ _ => declaration_inj (shown_of_view hv)) _⟩
  | statement =>
    exact .inr ⟨rfl, fun σ hσ hv _ _ hn =>
      paired_reply hσ (paired_statements hσ hn).1 (fun _ _ => statement_inj (shown_of_view hv)) _⟩
  | block =>
    exact .inr ⟨rfl, fun σ hσ hv _ _ hn =>
      paired_reply hσ (paired_block hσ (paired_statements hσ hn).2)
        (fun _ _ => block_inj (shown_of_view hv)) _⟩
  | opening rule =>
    exact .inr ⟨rfl, fun σ hσ hv _ _ hn =>
      paired_reply hσ (paired_opening hσ hn (paired_statements hσ hn).1
        (paired_statements hσ hn).2 rule) (fun _ _ => statement_inj (shown_of_view hv)) _⟩
  | typeRef power =>
    exact .inr ⟨rfl, fun σ hσ hv _ _ hn =>
      paired_reply hσ (paired_typeRef hσ hn power) (fun _ _ => typeRef_inj (shown_of_view hv)) _⟩
  | typeLeading rule =>
    exact .inr ⟨rfl, fun σ hσ hv _ _ _ =>
      paired_reply hσ (paired_typeLeading hσ rule) (fun _ _ => typeRef_inj (shown_of_view hv)) _⟩
  | typeTrailing rule left =>
    exact .inr ⟨rfl, fun σ hσ hv _ _ _ =>
      paired_reply hσ (paired_typeTrailing hσ rule (s := left) rfl)
        (fun _ _ => typeRef_inj (shown_of_view hv)) _⟩
  | expression power =>
    exact .inr ⟨rfl, fun σ hσ hv _ _ hn =>
      paired_reply hσ ((paired_expressions hσ hn).1 power)
        (fun _ _ => expression_inj (shown_of_view hv)) _⟩
  | chain left power =>
    exact .inr ⟨rfl, fun σ hσ hv _ _ hn =>
      paired_reply hσ ((paired_expressions hσ hn).2.1 left left power rfl)
        (fun _ _ => expression_inj (shown_of_view hv)) _⟩
  | leading rule =>
    exact .inr ⟨rfl, fun σ hσ hv _ _ hn =>
      paired_reply hσ (paired_leading hσ (paired_expressions hσ hn).1
        (paired_expressions hσ hn).2.2 rule) (fun _ _ => expression_inj (shown_of_view hv)) _⟩
  | trailing rule left power =>
    exact .inr ⟨rfl, fun σ hσ hv _ _ hn =>
      paired_reply hσ (paired_trailing hσ (paired_expressions hσ hn).1
        (paired_expressions hσ hn).2.2 rule (a := left) rfl power)
        (fun _ _ => expression_inj (shown_of_view hv)) _⟩

end ModuleSyntax.Proofs.PairedOperation
