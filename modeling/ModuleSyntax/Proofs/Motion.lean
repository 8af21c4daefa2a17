import ModuleSyntax.Operation

namespace ModuleSyntax.Proofs.Motion

open Parse

variable {α β ρ : Type}

theorem bind_of_ok {x : Parse α} {f : α → Parse β} {p q : Parser} {a : α}
    (h : x p = some (.ok a, q)) : (x >>= f) p = f a q := by
  rw [bind_apply, h]

theorem ok_of_bind {x : Parse α} {f : α → Parse β} {p r : Parser} {b : β}
    (h : (x >>= f) p = some (.ok b, r)) :
    ∃ a q, x p = some (.ok a, q) ∧ f a q = some (.ok b, r) := by
  rw [bind_apply] at h
  split at h
  · cases h
  · cases h
  · rename_i a q hx
    exact ⟨a, q, hx, h⟩

theorem bind_congr_of_ok {x : Parse α} {f g : α → Parse β} {p : Parser}
    (h : ∀ a q, x p = some (.ok a, q) → f a q = g a q) : (x >>= f) p = (x >>= g) p := by
  rw [bind_apply, bind_apply]
  cases hx : x p with
  | none => rfl
  | some out =>
    obtain ⟨e, q⟩ := out
    cases e with
    | error d => rfl
    | ok a => exact h a q hx

theorem map_apply (f : α → β) (x : Parse α) (p : Parser) :
    (f <$> x) p = (x p).map fun o => (o.1.map f, o.2) := by
  rw [map_eq_pure_bind, bind_apply]
  cases x p with
  | none => rfl
  | some o =>
    obtain ⟨r, q⟩ := o
    cases r <;> rfl

theorem ok_of_map {f : α → β} {x : Parse α} {p q : Parser} {b : β}
    (h : (f <$> x) p = some (.ok b, q)) : ∃ a, x p = some (.ok a, q) ∧ f a = b := by
  rw [map_apply] at h
  obtain ⟨⟨r, q'⟩, hx, ho⟩ := Option.map_eq_some_iff.1 h
  cases r with
  | error d => cases ho
  | ok a =>
    cases ho
    exact ⟨a, hx, rfl⟩

def lookup (table : Tables → Kind → Option ρ) : Parse (Option ρ) :=
  return table (← get).tables (← kind)

def refuseEntry (table : Tables → Kind → Option ρ) : Parse α := do
  unexpected (entries (table (← get).tables))

theorem kind_bind (f : Kind → Parse β) (p : Parser) : (kind >>= f) p = f p.current.kind p := rfl

theorem lookup_bind (table : Tables → Kind → Option ρ) (f : Option ρ → Parse β) (p : Parser) :
    (lookup table >>= f) p = f (table p.tables p.current.kind) p := rfl

theorem refuseEntry_apply (table : Tables → Kind → Option ρ) (p : Parser) :
    (refuseEntry table : Parse α) p = some (.error (p.unexpected (entries (table p.tables))), p) :=
  rfl

theorem expression_succ (n : Nat) (power : Power) :
    expression (n + 1) power = (do
      match ← lookup Tables.leading with
      | some rule => chain n (← leading (expression n) (items n) rule) power
      | none => refuseEntry Tables.leading) := rfl

theorem chain_succ (n : Nat) (left : Expression Span) (power : Power) :
    chain (n + 1) left power = (do
      match ← lookup Tables.trailing with
      | some (held, rule) =>
        if held ≤ power then return left
        else chain n (← trailing (expression n) (items n) rule left held) power
      | none => return left) := rfl

theorem typeChain_succ (n : Nat) (left : TypeRef Span) (power : Power) :
    typeChain (n + 1) left power = (do
      match ← lookup Tables.typeTrailing with
      | some (held, rule) =>
        if held ≤ power then return left else typeChain n (← typeTrailing rule left) power
      | none => return left) := rfl

theorem typeRef_eq (n : Nat) (power : Power) :
    typeRef n power = (do
      match ← lookup Tables.typeLeading with
      | some rule => typeChain n (← typeLeading rule) power
      | none => refuseEntry Tables.typeLeading) := rfl

theorem statement_succ (n : Nat) :
    statement (n + 1) = (do
      match ← lookup Tables.opening with
      | some rule => opening n (statement n) (statements n) rule
      | none => endEvaluation (← expression n .loosest)) := rfl

theorem budgeted_apply (f : Nat → Parse α) (p : Parser) : budgeted f p = f p.budget p := rfl

def moved (p : Parser) (next : Token) (rest : TokenStream) : Parser :=
  ⟨next, rest, p.current.span.stop, p.tables⟩

theorem advance_of_ok {p : Parser} {next : Token} {rest : TokenStream}
    (h : p.upcoming.pull = (.ok next, rest)) :
    advance p = some (.ok p.current, moved p next rest) := by
  rw [advance_apply, h]
  rfl

theorem advance_of_error {p : Parser} {d : Diagnostic} {rest : TokenStream}
    (h : p.upcoming.pull = (.error d, rest)) : advance p = some (.error d, p) := by
  rw [advance_apply, h]

theorem pull_cases (s : TokenStream) :
    (∃ d rest, s.pull = (.error d, rest)) ∨ ∃ next rest, s.pull = (.ok next, rest) := by
  cases s.pull with
  | mk r rest =>
    cases r with
    | error d => exact .inl ⟨d, rest, rfl⟩
    | ok next => exact .inr ⟨next, rest, rfl⟩

theorem expect_of_kind {p : Parser} {k : Kind} (h : p.current.kind = k) : expect k p = advance p :=
  expectOneOf_of_mem (List.mem_singleton.2 h)

theorem moved_of_advance {p q : Parser} {t : Token} (h : advance p = some (.ok t, q)) :
    t = p.current ∧ ∃ next rest, p.upcoming.pull = (.ok next, rest) ∧ q = moved p next rest := by
  rw [advance_apply] at h
  split at h
  · rename_i next rest hp
    cases h
    exact ⟨rfl, next, rest, hp, rfl⟩
  · cases h

/-- Taking the tokens of the list one after another leads from the first parser to the second. -/
inductive Reads : Parser → List Token → Parser → Prop
  | refl (p : Parser) : Reads p [] p
  | step {p q : Parser} {next : Token} {rest : TokenStream} {ts : List Token}
      (h : p.upcoming.pull = (.ok next, rest)) (hr : Reads (moved p next rest) ts q) :
      Reads p (p.current :: ts) q

theorem reads_one {p : Parser} {next : Token} {rest : TokenStream}
    (h : p.upcoming.pull = (.ok next, rest)) : Reads p [p.current] (moved p next rest) :=
  .step h (.refl _)

theorem Reads.trans {p q r : Parser} {us vs : List Token} (hp : Reads p us q) (hq : Reads q vs r) :
    Reads p (us ++ vs) r := by
  induction hp with
  | refl p => exact hq
  | step h hr ih => exact .step h (ih hq)

theorem Reads.split {p r : Parser} {us vs : List Token} (h : Reads p (us ++ vs) r) :
    ∃ q, Reads p us q ∧ Reads q vs r := by
  induction us generalizing p with
  | nil => exact ⟨p, .refl p, h⟩
  | cons t us ih =>
    cases h with
    | step hpull hr =>
      obtain ⟨q, hu, hv⟩ := ih hr
      exact ⟨q, .step hpull hu, hv⟩

theorem Reads.tables {p q : Parser} {ts : List Token} (h : Reads p ts q) : q.tables = p.tables := by
  induction h with
  | refl p => rfl
  | step h hr ih => exact ih

theorem Reads.retable {p q : Parser} {ts : List Token} (h : Reads p ts q) (T : Tables) :
    Reads { p with tables := T } ts { q with tables := T } := by
  induction h with
  | refl p => exact .refl _
  | step h hr ih => exact .step h ih

theorem pull_ending {s rest : TokenStream} {t : Token} (h : s.pull = (.ok t, rest)) :
    rest.ending = s.ending := by
  obtain ⟨tokens, ending⟩ := s
  cases tokens with
  | nil =>
    rw [TokenStream.pull_nil] at h
    rw [← (Prod.mk.inj h).2]
  | cons u us =>
    rw [TokenStream.pull_cons] at h
    rw [← (Prod.mk.inj h).2]

theorem pull_error {s rest : TokenStream} {d : Diagnostic} (h : s.pull = (.error d, rest)) :
    s.tokens = [] ∧ s.ending = .error d := by
  obtain ⟨tokens, ending⟩ := s
  cases tokens with
  | nil =>
    cases h
    exact ⟨rfl, rfl⟩
  | cons t ts => cases h

theorem Reads.ending {p q : Parser} {ts : List Token} (h : Reads p ts q) :
    q.upcoming.ending = p.upcoming.ending := by
  induction h with
  | refl p => rfl
  | step h hr ih => exact ih.trans (pull_ending h)

/-- What lies between the start of the first token and the end of the last. -/
def around (ts : List Token) : Span where
  start := (ts.head?.map fun t => t.span.start).getD .start
  stop := (ts.getLast?.map fun t => t.span.stop).getD .start

theorem Reads.previousEnd {p q : Parser} {ts : List Token} (h : Reads p ts q) :
    q.previousEnd = (ts.getLast?.map fun t => t.span.stop).getD p.previousEnd := by
  induction h with
  | refl p => rfl
  | @step p q next rest ts h hr ih =>
    rw [ih, List.getLast?_cons]
    cases ts.getLast? <;> rfl

/-- The span of tokens that were taken, as the parser knows it. -/
theorem Reads.around_eq {p q : Parser} {ts : List Token} (h : Reads p ts q) (hne : ts ≠ []) :
    around ts = ⟨p.position, q.previousEnd⟩ := by
  rw [h.previousEnd]
  cases h with
  | refl => exact absurd rfl hne
  | step h hr =>
    rw [around, List.getLast?_cons]
    rfl

theorem Reads.around_first {p q : Parser} {ts : List Token} (h : Reads p ts q) (hne : ts ≠ []) :
    around ts = ⟨p.current.span.start, q.previousEnd⟩ := h.around_eq hne

theorem start_around_append {us : List Token} (hu : us ≠ []) (vs : List Token) :
    (around (us ++ vs)).start = (around us).start := by
  obtain ⟨t, us, rfl⟩ := List.exists_cons_of_ne_nil hu
  rfl

theorem stop_around_append (us : List Token) {vs : List Token} (hv : vs ≠ []) :
    (around (us ++ vs)).stop = (around vs).stop := by
  rw [around, around, List.getLast?_append, List.getLast?_eq_some_getLast hv]
  rfl

theorem Reads.around_append {p q : Parser} {us vs : List Token} (h : Reads p (us ++ vs) q)
    (hu : us ≠ []) : around (us ++ vs) = ⟨(around us).start, q.previousEnd⟩ := by
  have hs := start_around_append hu vs
  rw [h.around_eq (List.append_ne_nil_of_left_ne_nil hu vs)] at hs ⊢
  rw [← hs]

theorem Reads.around_cons {p q : Parser} {us vs : List Token} {t : Token}
    (h : Reads p (us ++ t :: vs) q) : around (t :: vs) = ⟨t.span.start, q.previousEnd⟩ := by
  have hs := stop_around_append us (List.cons_ne_nil t vs)
  rw [h.around_eq (List.append_ne_nil_of_right_ne_nil us (List.cons_ne_nil t vs))] at hs
  rw [show q.previousEnd = (around (t :: vs)).stop from hs]
  rfl

/-- How far a parser has moved decides where it stands. -/
theorem Reads.unique {p q r : Parser} {us vs : List Token} (hu : Reads p us q) (hv : Reads p vs r)
    (hl : us.length = vs.length) : us = vs ∧ q = r := by
  induction hu generalizing vs with
  | refl p =>
    cases hv with
    | refl => exact ⟨rfl, rfl⟩
    | step => cases hl
  | step h hr ih =>
    cases hv with
    | refl => cases hl
    | step h' hr' =>
      rw [h] at h'
      cases h'
      obtain ⟨rfl, rfl⟩ := ih hr' (by simpa using hl)
      exact ⟨rfl, rfl⟩

theorem Reads.ahead {p q : Parser} {ts : List Token} (h : Reads p ts q)
    (hl : ts.length ≤ p.upcoming.tokens.length) :
    p.current :: p.upcoming.tokens = ts ++ q.current :: q.upcoming.tokens := by
  induction h with
  | refl p => rfl
  | @step p q next rest ts h hr ih =>
    obtain ⟨current, ⟨tokens, ending⟩, stop, tables⟩ := p
    cases tokens with
    | nil => simp at hl
    | cons t tokens =>
      cases h
      have hrest := ih (by simpa [moved] using hl)
      simpa [moved] using hrest

/-- A run that only moves forward, whatever it answers. -/
def Moves (x : Parse α) : Prop :=
  ∀ p r q, x p = some (r, q) → ∃ ts, Reads p ts q

theorem moves_pure (a : α) : Moves (pure a : Parse α) := by
  intro p r q h
  cases h
  exact ⟨[], .refl _⟩

theorem moves_throw (d : Diagnostic) : Moves (throw d : Parse α) := by
  intro p r q h
  cases h
  exact ⟨[], .refl _⟩

theorem Moves.bind {x : Parse α} {f : α → Parse β} (hx : Moves x) (hf : ∀ a, Moves (f a)) :
    Moves (x >>= f) := by
  intro p r q h
  rw [bind_apply] at h
  split at h
  · cases h
  · rename_i hp
    cases h
    exact hx _ _ _ hp
  · rename_i a m hp
    obtain ⟨us, hu⟩ := hx _ _ _ hp
    obtain ⟨vs, hv⟩ := hf a _ _ _ h
    exact ⟨us ++ vs, hu.trans hv⟩

theorem moves_advance : Moves advance := by
  intro p r q h
  rw [advance_apply] at h
  split at h
  · rename_i hpull
    cases h
    exact ⟨[p.current], reads_one hpull⟩
  · cases h
    exact ⟨[], .refl _⟩

end ModuleSyntax.Proofs.Motion
