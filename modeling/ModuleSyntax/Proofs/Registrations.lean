import ModuleSyntax.Proofs.Termination

namespace ModuleSyntax.Proofs.Registrations

open Parse Motion PairedRuns Answers Calls PairedOperation Acceptance Lexemes Termination

def subject : Operation → Option Kind
  | .setLeading k _ | .setTrailing k _ _ | .setOpening k _ | .setTypeLeading k _
  | .setTypeTrailing k _ _ => some k
  | _ => none

/-- The operation lets nothing begin with a kind of token that nothing began with before. Only such
beginnings are listed in complaints. -/
def KeepsBeginnings (t : Tables) : Operation → Prop
  | .setLeading k _ => (t.leading k).isSome
  | .setTypeLeading k _ => (t.typeLeading k).isSome
  | _ => True

structure Without (k : Kind) (p : Parser) : Prop where
  current : p.current.kind ≠ k
  upcoming : ∀ t ∈ p.upcoming.tokens, t.kind ≠ k

/-- The second complaint is the first, but for one kind more that was expected. -/
structure Widened (k : Kind) (d e : Diagnostic) : Prop where
  position : e.position = d.position
  cause : ∃ found text expected, d.cause = .unexpected found text (Kind.listing expected) ∧
    e.cause = .unexpected found text (Kind.listing (k :: expected))

variable {k kind : Kind} {a : Operation} {p : Parser} {t : Tables}

theorem Without.moved (h : Without k p) (hp : Proper p) (hk : k ≠ .eof) {next : Token}
    {rest : TokenStream} (hpull : p.upcoming.pull = (.ok next, rest)) :
    Without k (moved p next rest) := by
  obtain ⟨current, ⟨tokens, ending⟩, stop, tables⟩ := p
  cases tokens with
  | nil =>
    cases hpull
    refine ⟨fun hn => hk ?_, h.upcoming⟩
    rw [← hn]
    exact hp.ending next rfl
  | cons u us =>
    cases hpull
    obtain ⟨hnext, hrest⟩ := List.forall_mem_cons.1 h.upcoming
    exact ⟨hnext, hrest⟩

structure Agree (kind : Kind) (t u : Tables) : Prop where
  leading : t.leading kind = u.leading kind
  trailing : t.trailing kind = u.trailing kind
  opening : t.opening kind = u.opening kind
  typeLeading : t.typeLeading kind = u.typeLeading kind
  typeTrailing : t.typeTrailing kind = u.typeTrailing kind

/-- A registration is seen at tokens of its own kind only. -/
theorem agree_retabled (ha : subject a = some k) (hk : kind ≠ k) (t : Tables) :
    Agree kind t (retabled a t) := by
  cases a with
  | setLeading j rule =>
    cases ha
    exact ⟨(setEntry_of_ne hk).symm, rfl, rfl, rfl, rfl⟩
  | setTrailing j power rule =>
    cases ha
    exact ⟨rfl, (setEntry_of_ne hk).symm, rfl, rfl, rfl⟩
  | setOpening j rule =>
    cases ha
    exact ⟨rfl, rfl, (setEntry_of_ne hk).symm, rfl, rfl⟩
  | setTypeLeading j rule =>
    cases ha
    exact ⟨rfl, rfl, rfl, (setEntry_of_ne hk).symm, rfl⟩
  | setTypeTrailing j power rule =>
    cases ha
    exact ⟨rfl, rfl, rfl, rfl, (setEntry_of_ne hk).symm⟩
  | _ => exact ⟨rfl, rfl, rfl, rfl, rfl⟩

section

variable {ρ : Type} {table : Kind → Option ρ}

theorem entries_setEntry (h : (table k).isSome) (entry : ρ) :
    entries (setEntry table k entry) = entries table := by
  apply List.filter_congr
  intro j _
  by_cases hj : j = k
  · subst hj
    simp [setEntry_self, h]
  · rw [setEntry_of_ne hj]

theorem listing_setEntry (entry : ρ) :
    Kind.listing (entries (setEntry table k entry)) = Kind.listing (k :: entries table) := by
  apply List.filter_congr
  intro j _
  by_cases hj : j = k
  · subst hj
    simp [setEntry_self, mem_entries]
  · simp [mem_entries, setEntry_of_ne hj, hj]

theorem unexpected_setEntry (p : Parser) (entry : ρ) (t : Tables) :
    p.unexpected (entries table) =
        { p with tables := t }.unexpected (entries (setEntry table k entry)) ∨
      ¬ (table k).isSome ∧ Widened k (p.unexpected (entries table))
        ({ p with tables := t }.unexpected (entries (setEntry table k entry))) := by
  by_cases h : (table k).isSome
  · left
    rw [entries_setEntry h]
    rfl
  · right
    refine ⟨h, rfl, p.current.kind, p.current.value, entries table, rfl, ?_⟩
    rw [← listing_setEntry entry]
    rfl

end

/-- Two runs from the same place without the kind, the second after a registration for it. -/
def registered (k : Kind) (a : Operation) (t : Tables) : Pairing Position where
  view i := i
  sync p q := p.tables = t ∧ Proper p ∧ Without k p ∧ q = { p with tables := retabled a t }
  fails d e := d = e ∨ ¬ KeepsBeginnings t a ∧ Widened k d e
  gone _ := False
  lost _ := False

theorem registered_sound (ha : subject a = some k) (hk : k ≠ .eof) (t : Tables) :
    Sound (registered k a t) where
  current := by
    rintro p q ⟨-, -, -, rfl⟩
    rfl
  previousEnd := by
    rintro p q ⟨-, -, -, rfl⟩
    rfl
  leading := by
    rintro p q ⟨rfl, -, hw, rfl⟩
    exact (agree_retabled ha hw.current p.tables).leading
  trailing := by
    rintro p q ⟨rfl, -, hw, rfl⟩
    exact (agree_retabled ha hw.current p.tables).trailing
  opening := by
    rintro p q ⟨rfl, -, hw, rfl⟩
    exact (agree_retabled ha hw.current p.tables).opening
  typeLeading := by
    rintro p q ⟨rfl, -, hw, rfl⟩
    exact (agree_retabled ha hw.current p.tables).typeLeading
  typeTrailing := by
    rintro p q ⟨rfl, -, hw, rfl⟩
    exact (agree_retabled ha hw.current p.tables).typeTrailing
  starts := by
    rintro p q ⟨rfl, -, -, rfl⟩
    cases a with
    | setLeading j rule =>
      cases ha
      exact unexpected_setEntry p rule _
    | _ => exact .inl rfl
  typeStarts := by
    rintro p q ⟨rfl, -, -, rfl⟩
    cases a with
    | setTypeLeading j rule =>
      cases ha
      exact unexpected_setEntry p rule _
    | _ => exact .inl rfl
  fails hc hp := .inl (calls_sound.fails hc hp)
  advance := by
    rintro p q ⟨rfl, hp, hw, rfl⟩
    -- both take the same token, and the one that comes next is not of the kind either
    obtain ⟨d, rest, hpull⟩ | ⟨next, rest, hpull⟩ := pull_cases p.upcoming
    · rw [advance_of_error hpull,
        advance_of_error (p := { p with tables := retabled a p.tables }) hpull]
      exact .refusal (.inl rfl) ⟨rfl, hp, hw, rfl⟩
    · rw [advance_of_ok hpull, advance_of_ok (p := { p with tables := retabled a p.tables }) hpull]
      exact .value rfl ⟨rfl, hp.moved hpull, hw.moved hp hk hpull, rfl⟩
  gone h := h.elim

theorem run_registration (ha : subject a = some k) (p : Parser) :
    a.run p = some (.ok .done, { p with tables := retabled a p.tables }) := by
  cases a with
  | setLeading | setTrailing | setOpening | setTypeLeading | setTypeTrailing => rfl
  | _ => cases ha

theorem outcome_of_follows {r : Except Diagnostic Reply} {q : Parser}
    {o : Option (Except Diagnostic Reply × Parser)}
    (h : Follows (registered k a t) id (some (r, q)) o) : ∃ r' q', o = some (r', q') ∧
      q' = { q with tables := q'.tables } ∧
      (r = r' ∨ ∃ d e, r = .error d ∧ r' = .error e ∧ Widened k d e) ∧
      (KeepsBeginnings t a → r = r') := by
  cases h with
  | gone _ h => exact h.elim
  | lost _ h => exact h.elim
  | value hab hs =>
    obtain ⟨-, -, -, rfl⟩ := hs
    cases hab
    exact ⟨_, _, rfl, rfl, .inl rfl, fun _ => rfl⟩
  | refusal hd hs =>
    obtain ⟨-, -, -, rfl⟩ := hs
    refine ⟨_, _, rfl, rfl, ?_, fun hkeeps => ?_⟩
    · obtain rfl | ⟨-, hwide⟩ := hd
      · exact .inl rfl
      · exact .inr ⟨_, _, rfl, rfl, hwide⟩
    · obtain rfl | ⟨hnot, -⟩ := hd
      · rfl
      · exact absurd hkeeps hnot

/-- A registration changes nothing for a source that goes on without tokens of its kind: every
operation gives the same result as before, or the same refusal, and leads to the same place. Only
where a kind is registered to begin expressions or types, and is the first time, a list of what was
expected may have that kind more. -/
theorem run_registered (ha : subject a = some k) (hk : k ≠ .eof) (hp : Ready p)
    (hw : Without k p) :
    ∃ p', a.run p = some (.ok .done, p') ∧ ∀ b : Operation, ∃ r q r' q',
      b.run p = some (r, q) ∧ b.run p' = some (r', q') ∧ q' = { q with tables := q'.tables } ∧
      (r = r' ∨ ∃ d e, r = .error d ∧ r' = .error e ∧ Widened k d e) ∧
      (KeepsBeginnings p.tables a → r = r') := by
  refine ⟨_, run_registration ha p, fun b => ?_⟩
  obtain ⟨r, q, hr⟩ := perform_returns hp b (enough_budget p)
  have hrun : b.run p = some (r, q) := hr
  obtain hchange | ⟨-, hpaired⟩ := perform_cases b
  · rw [hchange] at hr
    cases hr
    have hrun' : b.run { p with tables := retabled a p.tables } =
        some (.ok .done, { p with tables := retabled b (retabled a p.tables) }) := by
      rw [Operation.run, budgeted_apply, hchange]
      rfl
    exact ⟨_, _, _, _, hrun, hrun', rfl, .inl rfl, fun _ => rfl⟩
  · have hf := (hpaired _ (registered_sound ha hk p.tables) rfl (Nat.le_refl p.budget)).2 p
      { p with tables := retabled a p.tables } ⟨rfl, hp.toProper, hw, rfl⟩
    rw [hr] at hf
    obtain ⟨r', q', hr', hout⟩ := outcome_of_follows hf
    exact ⟨r, q, r', q', hrun, hr', hout⟩

/-- Before `x = y + 1;`. -/
def beforeSum : Parser where
  current := .onLine .identifier ⟨0, 0⟩ "x"
  upcoming := ⟨[.onLine (.mark .assignment) ⟨0, 2⟩ "=", .onLine .identifier ⟨0, 4⟩ "y",
    .onLine (.mark .plus) ⟨0, 6⟩ "+", .onLine .intLiteral ⟨0, 8⟩ "1",
    .onLine (.mark .semicolon) ⟨0, 9⟩ ";"], .ok (.eof ⟨0, 10⟩)⟩
  previousEnd := .start
  tables := .standard

/-- Before `x = y + ;`. -/
def beforeGap : Parser where
  current := .onLine .identifier ⟨0, 0⟩ "x"
  upcoming := ⟨[.onLine (.mark .assignment) ⟨0, 2⟩ "=", .onLine .identifier ⟨0, 4⟩ "y",
    .onLine (.mark .plus) ⟨0, 6⟩ "+", .onLine (.mark .semicolon) ⟨0, 8⟩ ";"], .ok (.eof ⟨0, 9⟩)⟩
  previousEnd := .start
  tables := .standard

def gapWithComma : Parser :=
  { beforeGap with tables := retabled (.setLeading (.mark .comma) .atom) .standard }

def gapError (t : Tables) : Diagnostic :=
  ⟨.unexpected (.mark .semicolon) ";" (Kind.listing (entries t.leading)), ⟨0, 8⟩⟩

theorem run_registered_comma :
    (Ready beforeSum ∧ Without (.mark .comma) beforeSum ∧ ∃ p s q q',
      Operation.run (.setTrailing (.mark .comma) .call .index) beforeSum = some (.ok .done, p) ∧
      Operation.run .statement beforeSum = some (.ok (.statement s), q) ∧
      Operation.run .statement p = some (.ok (.statement s), q') ∧ q.current = .eof ⟨0, 10⟩) ∧
    Ready beforeGap ∧ Without (.mark .comma) beforeGap ∧ ∃ q q',
      Operation.run (.setLeading (.mark .comma) .atom) beforeGap = some (.ok .done, gapWithComma) ∧
      Operation.run .statement beforeGap = some (.error (gapError .standard), q) ∧
      Operation.run .statement gapWithComma = some (.error (gapError gapWithComma.tables), q') ∧
      Widened (.mark .comma) (gapError .standard) (gapError gapWithComma.tables) ∧
      gapError .standard ≠ gapError gapWithComma.tables := by
  have hsum : Ready beforeSum :=
    start_ready (sourced_stream (Lexer.ofString "x = y + 1;" none)) rfl
  have hgap : Ready beforeGap :=
    start_ready (sourced_stream (Lexer.ofString "x = y + ;" none)) rfl
  have hsum' : Without (.mark .comma) beforeSum := by
    constructor <;> simp [beforeSum, Token.onLine]
  have hgap' : Without (.mark .comma) beforeGap := by
    constructor <;> simp [beforeGap, Token.onLine]
  constructor
  · obtain ⟨p, hp, hsame⟩ := run_registered (a := .setTrailing (.mark .comma) .call .index) rfl
      Kind.noConfusion hsum hsum'
    obtain ⟨r, q, r', q', hr, hr', -, -, hkeeps⟩ := hsame .statement
    obtain rfl := hkeeps trivial
    have hread : Operation.run .statement beforeSum = some (.ok (.statement _), _) := rfl
    rw [hread] at hr
    cases hr
    exact ⟨hsum, hsum', p, _, _, q', hp, hread, hr', rfl⟩
  · obtain ⟨p, hp, hwide⟩ := run_registered (a := .setLeading (.mark .comma) .atom) rfl
      Kind.noConfusion hgap hgap'
    have hdone : Operation.run (.setLeading (.mark .comma) .atom) beforeGap =
      some (.ok .done, gapWithComma) := rfl
    rw [hdone] at hp
    cases hp
    obtain ⟨r, q, r', q', hr, hr', -, hsame, -⟩ := hwide .statement
    have hrefused : Operation.run .statement beforeGap =
      some (.error (gapError .standard), _) := rfl
    have hwidened : Operation.run .statement gapWithComma =
      some (.error (gapError gapWithComma.tables), _) := rfl
    have hdiffer : gapError .standard ≠ gapError gapWithComma.tables := by decide
    rw [hrefused] at hr
    rw [hwidened] at hr'
    cases hr
    cases hr'
    obtain hsame | ⟨d, e, hd, he, hw⟩ := hsame
    · exact absurd (Except.error.inj hsame) hdiffer
    · obtain rfl := Except.error.inj hd
      obtain rfl := Except.error.inj he
      exact ⟨hgap, hgap', _, _, hdone, hrefused, hwidened, hw, hdiffer⟩

end ModuleSyntax.Proofs.Registrations
