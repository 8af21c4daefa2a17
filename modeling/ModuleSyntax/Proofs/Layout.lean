import ModuleSyntax.Proofs.Refusals

namespace ModuleSyntax.Proofs.Layout

open Parse Grammar Motion PairedRuns PairedModule Notes Symbols Lexemes Entry Outcome Acceptance
open Refusals

inductive Alike : Except Diagnostic Token → Except Diagnostic Token → Prop
  | token {a b : Token} (h : symbol a = symbol b) : Alike (.ok a) (.ok b)
  | error {d e : Diagnostic} (h : d.cause = e.cause) : Alike (.error d) (.error e)

/-- Two streams that differ only in the places of what they give. -/
structure SameSymbols (s t : TokenStream) : Prop where
  tokens : s.tokens.map symbol = t.tokens.map symbol
  ending : Alike s.ending t.ending

structure InStep (p q : Parser) : Prop where
  tables : p.tables = q.tables
  current : symbol p.current = symbol q.current
  upcoming : SameSymbols p.upcoming q.upcoming

variable {s t : TokenStream} {p q r : Parser} {w v : List Token} {d e : Diagnostic}
  {source source' : String} {file file' : Option String} {k : Nat}

theorem Alike.length_toList {x y : Except Diagnostic Token} (h : Alike x y) :
    x.toOption.toList.length = y.toOption.toList.length := by
  cases h <;> rfl

theorem SameSymbols.length (h : SameSymbols s t) : s.tokens.length = t.tokens.length := by
  simpa using congrArg List.length h.tokens

theorem SameSymbols.sequence_length (h : SameSymbols s t) :
    (Refusals.sequence s).length = (Refusals.sequence t).length := by
  rw [Refusals.sequence, Refusals.sequence, List.length_append, List.length_append, h.length,
    h.ending.length_toList]

theorem SameSymbols.pull (h : SameSymbols s t) :
    Alike s.pull.1 t.pull.1 ∧ SameSymbols s.pull.2 t.pull.2 := by
  obtain ⟨tokens, ending⟩ := s
  obtain ⟨tokens', ending'⟩ := t
  cases tokens with
  | nil =>
    obtain rfl : tokens' = [] := List.map_eq_nil_iff.1 h.tokens.symm
    exact ⟨h.ending, h⟩
  | cons a as =>
    obtain ⟨b, bs, rfl, hb, hbs⟩ := List.map_eq_cons_iff.1 h.tokens.symm
    exact ⟨.token hb.symm, hbs.symm, h.ending⟩

theorem InStep.kind (h : InStep p q) : p.current.kind = q.current.kind :=
  congrArg Prod.fst h.current

theorem InStep.value (h : InStep p q) : p.current.value = q.current.value :=
  congrArg Prod.snd h.current

theorem InStep.cause (h : InStep p q) (expected : List Kind) :
    (p.unexpected expected).cause = (q.unexpected expected).cause := by
  rw [Parser.unexpected, Parser.unexpected, h.kind, h.value]

theorem InStep.remaining_length (h : InStep p q) :
    (remaining p).length = (remaining q).length := by
  have hl := h.upcoming.length
  have he := h.upcoming.ending.length_toList
  rw [remaining, remaining, h.kind]
  split <;> simp [hl, he]

/-- Two runs that see nothing of places and meet the same symbols. -/
def layout : Pairing Unit where
  view _ := ()
  sync := InStep
  fails d e := d.cause = e.cause
  gone _ := False
  lost _ := False

theorem layout_advance (h : InStep p q) :
    Follows layout (seeToken layout.view) (Parse.advance p) (Parse.advance q) := by
  obtain ⟨hnext, hrest⟩ := h.upcoming.pull
  rw [advance_apply, advance_apply]
  generalize p.upcoming.pull = x at hnext hrest
  generalize q.upcoming.pull = y at hnext hrest
  obtain ⟨a, s⟩ := x
  obtain ⟨b, t⟩ := y
  cases hnext with
  | token hab =>
    apply Follows.value
    · simp [seeToken, h.kind, h.value, layout, see]
    · exact ⟨h.tables, hab, hrest⟩
  | error hde => exact .refusal hde h

theorem layout_sound : Sound layout where
  current h := by simp [seeToken, InStep.kind h, InStep.value h, layout, see]
  previousEnd _ := rfl
  leading h := by rw [InStep.tables h]
  trailing h := by rw [InStep.tables h]
  opening h := by rw [InStep.tables h]
  typeLeading h := by rw [InStep.tables h]
  typeTrailing h := by rw [InStep.tables h]
  starts h := by rw [InStep.tables h]; exact InStep.cause h _
  typeStarts h := by rw [InStep.tables h]; exact InStep.cause h _
  fails hc _ := hc
  advance := layout_advance
  gone h := h.elim

theorem start_layout (h : SameSymbols s t) :
    (∃ d e, Parser.start s = .error d ∧ Parser.start t = .error e ∧ d.cause = e.cause) ∨
      ∃ p q, Parser.start s = .ok p ∧ Parser.start t = .ok q ∧ InStep p q := by
  obtain ⟨hnext, hrest⟩ := h.pull
  unfold Parser.start
  generalize s.pull = x at hnext hrest
  generalize t.pull = y at hnext hrest
  obtain ⟨a, s⟩ := x
  obtain ⟨b, t⟩ := y
  cases hnext with
  | token hab => exact .inr ⟨_, _, rfl, rfl, rfl, hab, hrest⟩
  | error hde => exact .inl ⟨_, _, rfl, rfl, hde⟩

/-- The index of the token for which a source is refused: the one that the parser is at, or the
one after it if that is what the reader cannot give. -/
inductive ArisesAt (source : String) (file : Option String) (d : Diagnostic) : Nat → Prop
  | first (h : Parser.start (Lexer.ofString source file).stream = .error d) :
      ArisesAt source file d 0
  | current {p q : Parser} {w : List Token} (h : Refused source file p w q d)
      (hd : d.cause.phase = .syntactic) : ArisesAt source file d w.length
  | next {p q : Parser} {w : List Token} (h : Refused source file p w q d)
      (hd : d.cause.phase = .lexical) : ArisesAt source file d (w.length + 1)

theorem arisesAt_of_inStep {p' q' : Parser} (h : Refused source file p w q d)
    (h' : Refused source' file' p' v q' e)
    (hs : SameSymbols (Lexer.ofString source file).stream (Lexer.ofString source' file').stream)
    (hq : InStep q q') (hc : d.cause = e.cause) :
    ∃ k, ArisesAt source file d k ∧ ArisesAt source' file' e k := by
  -- both have equally many tokens in all and equally many left
  have hl := hs.sequence_length
  have hr := hq.remaining_length
  rw [h.sequence, h'.sequence, List.length_append, List.length_append] at hl
  have hw : w.length = v.length := by omega
  cases hd : d.cause.phase with
  | lexical => exact ⟨_, .next h hd, hw ▸ .next h' (hc ▸ hd)⟩
  | syntactic => exact ⟨_, .current h hd, hw ▸ .current h' (hc ▸ hd)⟩

/-- The index is that of the token whose place is told, or that behind all tokens if the reader
cannot give another. -/
inductive PlacedAt (source : String) (file : Option String) (d : Diagnostic) (k : Nat) : Prop
  | token {t : Token}
      (ht : (Refusals.sequence (Lexer.ofString source file).stream)[k]? = some t)
      (hd : d.position = t.span.start) : PlacedAt source file d k
  | behind (he : (Lexer.ofString source file).stream.ending = .error d)
      (hk : k = (Lexer.ofString source file).stream.tokens.length) : PlacedAt source file d k

theorem ArisesAt.placed (h : ArisesAt source file d k) : PlacedAt source file d k := by
  cases h with
  | first h =>
    obtain ⟨ht, he⟩ := start_error h
    exact .behind he (by rw [ht]; rfl)
  | @current p q w h hd =>
    have hat : (Refusals.sequence (Lexer.ofString source file).stream)[w.length]? =
        some q.current := by
      simp [h.sequence, remaining]
    cases h.stuck with
    | lexical hpull hv =>
      rw [(sourced_stream _).lexical d (h.pull_error hpull).1] at hd
      cases hd
    | unexpected | badTarget => exact .token hat rfl
  | @next p q w h hd =>
    cases h.stuck with
    | lexical hpull hv =>
      obtain ⟨he, ht⟩ := h.pull_error hpull
      exact .behind he (by simp [ht])
    | unexpected | badTarget => cases hd

theorem ArisesAt.unique {n : Nat} (h : ArisesAt source file d k) (h' : ArisesAt source file d n) :
    k = n := by
  cases h with
  | first h =>
    cases h' with
    | first => rfl
    | current h' | next h' => cases h.symm.trans h'.start
  | current h hd =>
    cases h' with
    | first h' => cases h'.symm.trans h.start
    | current h' => rw [(h.unique h').1]
    | next h' hd' => cases hd.symm.trans hd'
  | next h hd =>
    cases h' with
    | first h' => cases h'.symm.trans h.start
    | current h' hd' => cases hd.symm.trans hd'
    | next h' => rw [(h.unique h').1]

theorem ArisesAt.iff {n : Nat} (h : ArisesAt source file d k) :
    ArisesAt source file d n ↔ n = k := by
  constructor
  · exact fun h' => h'.unique h
  · rintro rfl
    exact h

/-- Sources with the same symbols are accepted with the same tree, or refused with the same cause
for the token of the same index. There is just one such index, and it is where the errors say they
are. -/
theorem parse_layout
    (h : SameSymbols (Lexer.ofString source file).stream (Lexer.ofString source' file').stream) :
    (∃ m n, parseSource source file = some (.ok m) ∧ parseSource source' file' = some (.ok n) ∧
      m.erase = n.erase) ∨
    ∃ d e k, parseSource source file = some (.error d) ∧
      parseSource source' file' = some (.error e) ∧ d.cause = e.cause ∧
      (∀ n, ArisesAt source file d n ↔ n = k) ∧ (∀ n, ArisesAt source' file' e n ↔ n = k) ∧
      PlacedAt source file d k ∧ PlacedAt source' file' e k := by
  obtain ⟨d, e, hd, he, hc⟩ | ⟨p, q, hp, hq, hstep⟩ := start_layout h
  · have hk : ArisesAt source file d 0 := .first hd
    have hk' : ArisesAt source' file' e 0 := .first he
    refine .inr ⟨d, e, 0, ?_, ?_, hc, fun _ => hk.iff, fun _ => hk'.iff, hk.placed, hk'.placed⟩
    · rw [parseSource, parse, hd]
    · rw [parseSource, parse, he]
  · have hb : p.budget ≤ q.budget := by simp [Parser.budget, hstep.upcoming.length]
    obtain ⟨⟨r, p'⟩, hr⟩ := wholeModule_answers (start_ready (sourced_stream _) hp)
    obtain ⟨⟨r', q'⟩, hr'⟩ := wholeModule_answers (start_ready (sourced_stream _) hq)
    have hrun := (paired_wholeModule layout_sound hb).2 p q hstep
    rw [parseSource, parseSource, parse_of_start hp, parse_of_start hq, hr, hr']
    rw [hr, hr'] at hrun
    cases hrun with
    | gone _ h => exact h.elim
    | lost _ h => exact h.elim
    | @value m n _ _ hm hs =>
      refine .inl ⟨m, n, rfl, rfl, ?_⟩
      have he := congrArg (Module.mapNote fun _ => ()) hm
      rwa [module_mapNote_mapNote, module_mapNote_mapNote] at he
    | @refusal d e _ _ hc hs =>
      obtain ⟨w, hw, -⟩ := refused_of_run hp hr
      obtain ⟨v, hv, -⟩ := refused_of_run hq hr'
      obtain ⟨k, hk, hk'⟩ := arisesAt_of_inStep hw hv h hs hc
      exact .inr ⟨d, e, k, rfl, rfl, hc, fun _ => hk.iff, fun _ => hk'.iff, hk.placed, hk'.placed⟩

def narrow : String := "module A\x7bint x;\x7d"

def wide : String := "module A \x7b\n\tint x; // last\n\x7d\n"

theorem narrow_derives :
    IsModule symbols ((Refusals.sequence (Lexer.ofString narrow none).stream).map symbol)
      ⟨"A", [], [.field false ⟨.primitive .int, 0, ()⟩ "x" ()], ()⟩ := by
  have hd : IsDeclaration symbols
      [(.keyword .intWord, "int"), (.identifier, "x"), (.mark .semicolon, ";")]
      (.field false ⟨.primitive .int, 0, ()⟩ "x" ()) :=
    .field (g := symbols) .inside (.primitive rfl) rfl rfl
  exact .mk (g := symbols) rfl rfl rfl .nil (.cons hd .nil) rfl rfl

theorem parse_layout_narrow :
    SameSymbols (Lexer.ofString narrow none).stream (Lexer.ofString wide none).stream ∧
      ∃ m n, parseSource narrow none = some (.ok m) ∧ parseSource wide none = some (.ok n) ∧
        m.erase = n.erase := by
  have hs : SameSymbols (Lexer.ofString narrow none).stream (Lexer.ofString wide none).stream :=
    ⟨by decide +kernel, .token (a := .eof ⟨0, 16⟩) (b := .eof ⟨3, 0⟩) rfl⟩
  obtain ⟨m, hm, -⟩ := parse_of_derivable (complete_eq_ok.2 ⟨.eof ⟨0, 16⟩, rfl, rfl⟩) narrow_derives
  refine ⟨hs, ?_⟩
  obtain h | ⟨d, e, k, hd, -⟩ := parse_layout hs
  · exact h
  · rw [hm] at hd
    cases hd

end ModuleSyntax.Proofs.Layout
