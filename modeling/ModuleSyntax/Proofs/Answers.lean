import ModuleSyntax.Proofs.Motion

namespace ModuleSyntax.Proofs.Answers

open Parse Motion

variable {α β : Type}

/-- The tokens come from a source: only the ending is an end token, and it repeats for ever. -/
structure Proper (p : Parser) : Prop where
  tokens : ∀ t ∈ p.upcoming.tokens, t.kind ≠ .eof
  ending : ∀ t, p.upcoming.ending = .ok t → t.kind = .eof
  current : p.current.kind = .eof → p.upcoming.tokens = []

theorem Proper.moved {p : Parser} (hp : Proper p) {next : Token} {rest : TokenStream}
    (h : p.upcoming.pull = (.ok next, rest)) : Proper (moved p next rest) := by
  obtain ⟨current, ⟨tokens, ending⟩, stop, tables⟩ := p
  obtain ⟨ht, he, hc⟩ := hp
  cases tokens with
  | nil =>
    cases h
    exact ⟨ht, he, fun _ => rfl⟩
  | cons t ts =>
    cases h
    refine ⟨fun u hu => ht u (List.mem_cons_of_mem _ hu), he, fun hk => ?_⟩
    exact absurd hk (ht _ List.mem_cons_self)

theorem Proper.reads {p q : Parser} {ts : List Token} (hp : Proper p) (h : Reads p ts q) :
    Proper q := by
  induction h with
  | refl p => exact hp
  | step h hr ih => exact ih (hp.moved h)

def left (p : Parser) : Nat :=
  p.upcoming.tokens.length + if p.current.kind = .eof then 0 else 1

theorem length_lt_left {p : Parser} (h : p.current.kind ≠ .eof) :
    p.upcoming.tokens.length < left p := by
  rw [left, if_neg h]
  exact Nat.lt_succ_self _

theorem left_pos {p : Parser} (h : p.current.kind ≠ .eof) : 0 < left p :=
  Nat.zero_lt_of_lt (length_lt_left h)

theorem enough_budget (p : Parser) : 3 * left p + 5 ≤ p.budget := by
  have hl : left p ≤ p.upcoming.tokens.length + 1 := by
    unfold left
    split <;> omega
  rw [Parser.budget]
  omega

/-- No expression begins at the end. -/
structure Ready (p : Parser) : Prop extends Proper p where
  leading : p.tables.leading .eof = none

/-- A run that answers, and leads to a ready parser with the given property if it is not refused. -/
def Returns (p : Parser) (x : Parse α) (T : α → Parser → Prop) : Prop :=
  ∃ r q, x p = some (r, q) ∧ ∀ a, r = .ok a → Ready q ∧ T a q

variable {p : Parser} {S T : α → Parser → Prop} {U : β → Parser → Prop}

theorem returns_pure (hp : Ready p) {a : α} (h : T a p) : Returns p (pure a) T :=
  ⟨.ok a, p, rfl, fun _ hb => by cases hb; exact ⟨hp, h⟩⟩

theorem returns_throw (d : Diagnostic) : Returns p (throw d) T :=
  ⟨.error d, p, rfl, fun _ h => nomatch h⟩

theorem returns_unexpected (expected : List Kind) : Returns p (unexpected expected) T :=
  ⟨_, p, rfl, fun _ h => nomatch h⟩

theorem Returns.bind {x : Parse α} {f : α → Parse β} (hx : Returns p x S)
    (hf : ∀ a q, Ready q → S a q → Returns q (f a) U) : Returns p (x >>= f) U := by
  obtain ⟨r, q, hr, hs⟩ := hx
  cases r with
  | error d =>
    refine ⟨.error d, q, ?_, fun _ h => nomatch h⟩
    rw [bind_apply, hr]
  | ok a =>
    obtain ⟨hq, ha⟩ := hs a rfl
    obtain ⟨r', q', hr', hs'⟩ := hf a q hq ha
    refine ⟨r', q', ?_, hs'⟩
    rw [bind_apply, hr]
    exact hr'

theorem Returns.imp {x : Parse α} (hx : Returns p x S) (h : ∀ a q, S a q → T a q) :
    Returns p x T := by
  obtain ⟨r, q, hr, hs⟩ := hx
  exact ⟨r, q, hr, fun a ha => ⟨(hs a ha).1, h a q (hs a ha).2⟩⟩

theorem Returns.map {x : Parse α} (hx : Returns p x T) (f : α → β) :
    ∃ r q, (f <$> x) p = some (r, q) := by
  obtain ⟨r, q, hr, -⟩ := hx
  rw [map_eq_pure_bind, bind_apply, hr]
  cases r with
  | error d => exact ⟨_, _, rfl⟩
  | ok a => exact ⟨_, _, rfl⟩

theorem returns_kind {f : Kind → Parse α} (h : Returns p (f p.current.kind) T) :
    Returns p (kind >>= f) T := h

theorem returns_position {f : Position → Parse α} (h : Returns p (f p.position) T) :
    Returns p (position >>= f) T := h

theorem returns_previousEnd {f : Position → Parse α} (h : Returns p (f p.previousEnd) T) :
    Returns p (previousEnd >>= f) T := h

theorem returns_lookup {ρ : Type} {table : Tables → Kind → Option ρ} {f : Option ρ → Parse α}
    (h : Returns p (f (table p.tables p.current.kind)) T) : Returns p (lookup table >>= f) T := h

theorem returns_refuseEntry {ρ : Type} (table : Tables → Kind → Option ρ) :
    Returns p (refuseEntry table : Parse α) T :=
  ⟨_, p, rfl, fun _ h => nomatch h⟩

theorem returns_advance (hp : Ready p) :
    Returns p advance fun t q => t = p.current ∧ left q ≤ left p - 1 := by
  obtain ⟨d, rest, h⟩ | ⟨next, rest, h⟩ := pull_cases p.upcoming
  · exact ⟨_, p, advance_of_error h, fun _ h => nomatch h⟩
  · refine ⟨_, _, advance_of_ok h, fun a ha => ?_⟩
    cases ha
    have hm := hp.toProper.moved h
    refine ⟨⟨hm, hp.leading⟩, rfl, ?_⟩
    obtain ⟨current, ⟨tokens, ending⟩, stop, tables⟩ := p
    cases tokens with
    | nil =>
      cases h
      have hk := hp.ending next rfl
      simp [left, moved, hk]
    | cons t ts =>
      cases h
      have ht : next.kind ≠ .eof := hp.tokens next List.mem_cons_self
      have hc : current.kind ≠ .eof := fun hc => by simpa using hp.current hc
      simp [left, moved, ht, hc]

theorem returns_expectOneOf (hp : Ready p) {kinds : List Kind} (hk : .eof ∉ kinds) :
    Returns p (expectOneOf kinds) fun _ q => left q + 1 ≤ left p := by
  by_cases h : p.current.kind ∈ kinds
  · have hpos := left_pos (p := p) fun he => hk (he ▸ h)
    obtain ⟨r, q, hr, hs⟩ := returns_advance hp
    refine ⟨r, q, by rw [expectOneOf_of_mem h, hr], fun a ha => ⟨(hs a ha).1, ?_⟩⟩
    have hq := (hs a ha).2.2
    omega
  · exact ⟨_, p, expectOneOf_of_not_mem h, fun _ h => nomatch h⟩

theorem returns_expect (hp : Ready p) {k : Kind} (hk : k ≠ .eof) :
    Returns p (expect k) fun _ q => left q + 1 ≤ left p :=
  returns_expectOneOf hp fun h => hk (List.mem_singleton.1 h).symm

/-- Taking the end token leaves as many tokens as before: none. -/
theorem returns_expectAny (hp : Ready p) (kinds : List Kind) :
    Returns p (expectOneOf kinds) fun _ q => left q ≤ left p := by
  by_cases h : p.current.kind ∈ kinds
  · rw [Returns, expectOneOf_of_mem h]
    refine (returns_advance hp).imp fun t q hq => ?_
    omega
  · exact ⟨_, p, expectOneOf_of_not_mem h, fun _ h => nomatch h⟩

theorem returns_advance_of_ne (hp : Ready p) (hk : p.current.kind ≠ .eof) :
    Returns p advance fun _ q => left q + 1 ≤ left p := by
  refine (returns_advance hp).imp fun t q h => ?_
  have hpos := left_pos hk
  omega

end ModuleSyntax.Proofs.Answers
