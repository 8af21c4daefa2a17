import ModuleSyntax.Proofs.Motion

namespace ModuleSyntax.Proofs.PairedRuns

open Parse Motion

variable {γ α β δ ε : Type}

/-- What two runs have in common. They keep together in states that are in `sync`, where they see
places only through `view`, and are refused alike. The first run may go where the second cannot
follow: to a `gone` state, or into a `lost` refusal. -/
structure Pairing (γ : Type) where
  view : Position → γ
  sync : Parser → Parser → Prop
  fails : Diagnostic → Diagnostic → Prop
  gone : Parser → Prop
  lost : Diagnostic → Prop

def see (view : Position → γ) (s : Span) : γ × γ := (view s.start, view s.stop)

def seeToken (view : Position → γ) (t : Token) : Kind × String × γ × γ :=
  (t.kind, t.value, see view t.span)

/-- How the outcome of the second run follows from that of the first: results show the same under
`φ`. -/
inductive Follows (σ : Pairing γ) (φ : α → δ) :
    Option (Except Diagnostic α × Parser) → Option (Except Diagnostic α × Parser) → Prop
  | unanswered (o : Option (Except Diagnostic α × Parser)) : Follows σ φ none o
  | gone {r : Except Diagnostic α} {p : Parser} (o : Option (Except Diagnostic α × Parser))
      (h : σ.gone p) : Follows σ φ (some (r, p)) o
  | lost {d : Diagnostic} {p : Parser} (o : Option (Except Diagnostic α × Parser))
      (h : σ.lost d) : Follows σ φ (some (.error d, p)) o
  | value {a b : α} {p q : Parser} (ha : φ a = φ b) (hs : σ.sync p q) :
      Follows σ φ (some (.ok a, p)) (some (.ok b, q))
  | refusal {d e : Diagnostic} {p q : Parser} (hd : σ.fails d e) (hs : σ.sync p q) :
      Follows σ φ (some (.error d, p)) (some (.error e, q))

/-- What a pairing owes to the parses that run in it. -/
structure Sound (σ : Pairing γ) : Prop where
  current {p q : Parser} : σ.sync p q → seeToken σ.view p.current = seeToken σ.view q.current
  previousEnd {p q : Parser} : σ.sync p q → σ.view p.previousEnd = σ.view q.previousEnd
  leading {p q : Parser} : σ.sync p q →
    p.tables.leading p.current.kind = q.tables.leading p.current.kind
  trailing {p q : Parser} : σ.sync p q →
    p.tables.trailing p.current.kind = q.tables.trailing p.current.kind
  opening {p q : Parser} : σ.sync p q →
    p.tables.opening p.current.kind = q.tables.opening p.current.kind
  typeLeading {p q : Parser} : σ.sync p q →
    p.tables.typeLeading p.current.kind = q.tables.typeLeading p.current.kind
  typeTrailing {p q : Parser} : σ.sync p q →
    p.tables.typeTrailing p.current.kind = q.tables.typeTrailing p.current.kind
  starts {p q : Parser} : σ.sync p q →
    σ.fails (p.unexpected (entries p.tables.leading)) (q.unexpected (entries q.tables.leading))
  typeStarts {p q : Parser} : σ.sync p q →
    σ.fails (p.unexpected (entries p.tables.typeLeading))
      (q.unexpected (entries q.tables.typeLeading))
  fails {d e : Diagnostic} : d.cause = e.cause → σ.view d.position = σ.view e.position →
    σ.fails d e
  advance {p q : Parser} : σ.sync p q →
    Follows σ (seeToken σ.view) (Parse.advance p) (Parse.advance q)
  gone {p : Parser} {next : Token} {rest : TokenStream} : σ.gone p →
    p.upcoming.pull = (.ok next, rest) → σ.gone (moved p next rest)

/-- Two parses that keep together as long as the second can follow the first. -/
def Paired (σ : Pairing γ) (φ : α → δ) (x y : Parse α) : Prop :=
  Moves x ∧ ∀ p q, σ.sync p q → Follows σ φ (x p) (y q)

variable {σ : Pairing γ} {φ : α → δ} {ψ : β → ε}

theorem gone_of_reads (hσ : Sound σ) {p q : Parser} {ts : List Token} (h : Reads p ts q)
    (hp : σ.gone p) : σ.gone q := by
  induction h with
  | refl p => exact hp
  | step h hr ih => exact ih (hσ.gone hp h)

theorem paired_pure {a b : α} (h : φ a = φ b) : Paired σ φ (pure a) (pure b) :=
  ⟨moves_pure a, fun _ _ hs => .value h hs⟩

theorem Paired.bind (hσ : Sound σ) {x y : Parse α} {f g : α → Parse β} (hx : Paired σ φ x y)
    (hf : ∀ a b, φ a = φ b → Paired σ ψ (f a) (g b)) : Paired σ ψ (x >>= f) (y >>= g) := by
  have hm : ∀ a, Moves (f a) := fun a => (hf a a rfl).1
  refine ⟨hx.1.bind hm, fun p q hs => ?_⟩
  have h := hx.2 p q hs
  rw [bind_apply, bind_apply]
  generalize x p = o at h ⊢
  generalize y q = o' at h ⊢
  cases h with
  | unanswered => exact .unanswered _
  | @gone r m o h =>
    cases r with
    | error d => exact .gone _ h
    | ok a =>
      dsimp only
      cases hr : f a m with
      | none => exact .unanswered _
      | some out =>
        obtain ⟨ts, ht⟩ := hm a _ _ _ hr
        exact .gone _ (gone_of_reads hσ ht h)
  | lost o h => exact .lost _ h
  | value ha hs => exact (hf _ _ ha).2 _ _ hs
  | refusal hd hs => exact .refusal hd hs

theorem paired_outOfCalls (y : Parse α) : Paired σ φ outOfCalls y :=
  ⟨fun _ _ _ h => (nomatch h), fun _ _ _ => .unanswered _⟩

theorem paired_advance (hσ : Sound σ) : Paired σ (seeToken σ.view) advance advance :=
  ⟨moves_advance, fun _ _ hs => hσ.advance hs⟩

theorem paired_throw (hσ : Sound σ) {d e : Diagnostic} (hc : d.cause = e.cause)
    (hp : σ.view d.position = σ.view e.position) :
    Paired σ φ (throw d : Parse α) (throw e) :=
  ⟨moves_throw d, fun _ _ hs => .refusal (hσ.fails hc hp) hs⟩

theorem paired_unexpected (hσ : Sound σ) (expected : List Kind) :
    Paired σ φ (unexpected expected : Parse α) (unexpected expected) := by
  refine ⟨?_, fun p q hs => ?_⟩
  · intro p r q h
    cases h
    exact ⟨[], .refl _⟩
  · have hc := hσ.current hs
    simp only [seeToken, see, Prod.mk.injEq] at hc
    obtain ⟨hk, hv, hp, -⟩ := hc
    refine .refusal (hσ.fails ?_ hp) hs
    rw [Parser.unexpected, Parser.unexpected, hk, hv]

theorem paired_kind (hσ : Sound σ) {f g : Kind → Parse α} (h : ∀ k, Paired σ φ (f k) (g k)) :
    Paired σ φ (kind >>= f) (kind >>= g) := by
  refine ⟨fun p r q hr => (h p.current.kind).1 _ _ _ hr, fun p q hs => ?_⟩
  have hk := congrArg Prod.fst (hσ.current hs)
  rw [kind_bind, kind_bind, ← show p.current.kind = q.current.kind from hk]
  exact (h _).2 _ _ hs

theorem paired_position (hσ : Sound σ) {f g : Position → Parse α}
    (h : ∀ a b, σ.view a = σ.view b → Paired σ φ (f a) (g b)) :
    Paired σ φ (position >>= f) (position >>= g) := by
  refine ⟨fun p r q hr => (h _ _ rfl).1 _ _ _ hr, fun p q hs => ?_⟩
  have hc := hσ.current hs
  simp only [seeToken, see, Prod.mk.injEq] at hc
  exact (h _ _ hc.2.2.1).2 _ _ hs

theorem paired_previousEnd (hσ : Sound σ) {f g : Position → Parse α}
    (h : ∀ a b, σ.view a = σ.view b → Paired σ φ (f a) (g b)) :
    Paired σ φ (previousEnd >>= f) (previousEnd >>= g) :=
  ⟨fun _ _ _ hr => (h _ _ rfl).1 _ _ _ hr, fun _ _ hs => (h _ _ (hσ.previousEnd hs)).2 _ _ hs⟩

theorem paired_lookup {ρ : Type} {table : Tables → Kind → Option ρ}
    (h : ∀ {p q}, σ.sync p q → table p.tables p.current.kind = table q.tables p.current.kind)
    (hσ : Sound σ) : Paired σ id (lookup table) (lookup table) := by
  refine ⟨fun p r q hr => (moves_pure _) _ _ _ hr, fun p q hs => .value ?_ hs⟩
  have hk := congrArg Prod.fst (hσ.current hs)
  change table p.tables p.current.kind = table q.tables q.current.kind
  rw [h hs, show p.current.kind = q.current.kind from hk]

theorem paired_refuseEntry {ρ : Type} {table : Tables → Kind → Option ρ}
    (h : ∀ {p q}, σ.sync p q →
      σ.fails (p.unexpected (entries (table p.tables))) (q.unexpected (entries (table q.tables)))) :
    Paired σ φ (refuseEntry table : Parse α) (refuseEntry table) :=
  ⟨fun _ _ _ hr => (moves_throw _) _ _ _ hr, fun _ _ hs => .refusal (h hs) hs⟩

theorem paired_expectOneOf (hσ : Sound σ) (kinds : List Kind) :
    Paired σ (seeToken σ.view) (expectOneOf kinds) (expectOneOf kinds) := by
  refine paired_kind hσ fun k => ?_
  by_cases hk : kinds.contains k
  · rw [if_pos hk]
    exact paired_advance hσ
  · rw [if_neg hk]
    exact paired_unexpected hσ kinds

theorem paired_expect (hσ : Sound σ) (k : Kind) :
    Paired σ (seeToken σ.view) (expect k) (expect k) := paired_expectOneOf hσ [k]

end ModuleSyntax.Proofs.PairedRuns
