import ModuleSyntax.Proofs.Notes
import ModuleSyntax.Proofs.PairedModule

namespace ModuleSyntax.Proofs.Calls

open Parse Motion PairedRuns PairedExpression PairedStatement PairedModule Notes

variable {α δ : Type}

/-- Two runs from the same place, the second with more calls. -/
def calls : Pairing Position where
  view p := p
  sync p q := p = q
  fails d e := d = e
  gone _ := False
  lost _ := False

theorem calls_sound : Sound calls where
  current h := h ▸ rfl
  previousEnd h := h ▸ rfl
  leading h := h ▸ rfl
  trailing h := h ▸ rfl
  opening h := h ▸ rfl
  typeLeading h := h ▸ rfl
  typeTrailing h := h ▸ rfl
  starts h := h ▸ rfl
  typeStarts h := h ▸ rfl
  fails {d e} hc hp := by
    obtain ⟨c, i⟩ := d
    obtain ⟨c', i'⟩ := e
    obtain rfl : c = c' := hc
    obtain rfl : i = i' := hp
    rfl
  advance {p q} h := by
    cases h
    rw [advance_apply]
    split
    · exact .value rfl rfl
    · exact .refusal rfl rfl
  gone h := h.elim

/-- An answer stays the same when more calls are allowed. -/
theorem more {x y : Parse α} {φ : α → δ} (h : Paired calls φ x y) (hφ : ∀ a b, φ a = φ b → a = b)
    {p : Parser} {o : Except Diagnostic α × Parser} (hx : x p = some o) : y p = some o := by
  have hf := h.2 p p rfl
  rw [hx] at hf
  generalize y p = o' at hf ⊢
  cases hf with
  | gone _ h => exact h.elim
  | lost _ h => exact h.elim
  | value ha hs =>
    cases hs
    rw [hφ _ _ ha]
  | refusal hd hs =>
    cases hs
    cases hd
    rfl

theorem bind_more {β : Type} {x y : Parse α} {f : α → Parse β} {p : Parser}
    {o : Except Diagnostic β × Parser} (h : ∀ r, x p = some r → y p = some r)
    (hx : (x >>= f) p = some o) : (y >>= f) p = some o := by
  rw [bind_apply] at hx ⊢
  cases hr : x p with
  | none =>
    rw [hr] at hx
    cases hx
  | some r =>
    rw [h r hr]
    rwa [hr] at hx

def shown (s : Position × Position) : Span := ⟨s.1, s.2⟩

theorem shown_see (s : Span) : shown (see calls.view s) = s := rfl

variable {n m : Nat} {p : Parser}

theorem expression_more (h : n ≤ m) {power : Power}
    {o : Except Diagnostic (Expression Span) × Parser}
    (hr : expression n power p = some o) : expression m power p = some o :=
  more ((paired_expressions calls_sound h).1 power) (fun _ _ => expression_inj shown_see) hr

theorem chain_more (h : n ≤ m) {left : Expression Span} {power : Power}
    {o : Except Diagnostic (Expression Span) × Parser} (hr : chain n left power p = some o) :
    chain m left power p = some o :=
  more ((paired_expressions calls_sound h).2.1 left left power rfl)
    (fun _ _ => expression_inj shown_see) hr

theorem leading_more (h : n ≤ m) {rule : Leading} {o : Except Diagnostic (Expression Span) × Parser}
    (hr : leading (expression n) (items n) rule p = some o) :
    leading (expression m) (items m) rule p = some o :=
  more (paired_leading calls_sound (paired_expressions calls_sound h).1
    (paired_expressions calls_sound h).2.2 rule) (fun _ _ => expression_inj shown_see) hr

theorem trailing_more (h : n ≤ m) {rule : Trailing} {left : Expression Span} {power : Power}
    {o : Except Diagnostic (Expression Span) × Parser}
    (hr : trailing (expression n) (items n) rule left power p = some o) :
    trailing (expression m) (items m) rule left power p = some o :=
  more (paired_trailing calls_sound (paired_expressions calls_sound h).1
    (paired_expressions calls_sound h).2.2 rule rfl power) (fun _ _ => expression_inj shown_see) hr

theorem wholeModule_more (h : n ≤ m) {o : Except Diagnostic (Module Span) × Parser}
    (hr : wholeModule n p = some o) : wholeModule m p = some o :=
  more (paired_wholeModule calls_sound h) (fun _ _ => module_inj shown_see) hr

end ModuleSyntax.Proofs.Calls
