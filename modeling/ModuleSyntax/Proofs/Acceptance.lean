import ModuleSyntax.Proofs.AnswersModule
import ModuleSyntax.Proofs.Entry
import ModuleSyntax.Proofs.ModuleEnd
import ModuleSyntax.Proofs.OutcomeModule
import ModuleSyntax.Proofs.RunningModule

namespace ModuleSyntax.Proofs.Acceptance

open Parse Motion Answers AnswersModule Calls Grammar Symbols Lexemes Entry ModuleEnd
open Outcome OutcomeModule Running RunningModule

variable {s : TokenStream} {p : Parser}

theorem start_ready (hs : Sourced s) (h : Parser.start s = .ok p) : Ready p :=
  ⟨start_proper hs h, by rw [start_tables h]; rfl⟩

theorem wholeModule_answers (hp : Ready p) : ∃ o, wholeModule p.budget p = some o := by
  obtain ⟨r, q, hr, -⟩ := returns_wholeModule hp (enough_budget p)
  exact ⟨_, hr⟩

theorem parse_of_start {l : Lexer} (h : Parser.start l.stream = .ok p) :
    parse l = (wholeModule p.budget p).map (·.1) := by
  rw [parse, h]
  dsimp only
  rw [budgeted_apply]

theorem complete_eq_ok {ts : List Token} :
    s.complete = .ok ts ↔ ∃ e, s.ending = .ok e ∧ s.tokens ++ [e] = ts := by
  unfold TokenStream.complete
  cases s.ending with
  | error d => exact ⟨fun h => (nomatch h), fun ⟨_, h, _⟩ => (nomatch h)⟩
  | ok e =>
    constructor
    · intro h
      cases h
      exact ⟨e, rfl, rfl⟩
    · rintro ⟨_, h, rfl⟩
      cases h
      rfl

theorem complete_eq_error {d : Diagnostic} : s.complete = .error d ↔ s.ending = .error d := by
  unfold TokenStream.complete
  cases s.ending with
  | error d => constructor <;> rintro ⟨⟩ <;> rfl
  | ok e => constructor <;> rintro ⟨⟩

theorem derivable_of_wholeModule (hs : Sourced s) (h : Parser.start s = .ok p) {n : Nat}
    {m : Module Span} {q : Parser} (hx : wholeModule n p = some (.ok m, q)) :
    ∃ ts, s.complete = .ok ts ∧ IsModule tokens ts m := by
  obtain ⟨ts, hr, hm⟩ := meets_wholeModule n completable_true (start_tables h)
    (fun _ _ _ => trivial) (.refl p) _ _ hx
  obtain ⟨us, e, rfl, hus, he⟩ := module_end hm
  obtain ⟨e', he', heq⟩ := all_of_reads hs h hr hus he
  exact ⟨us ++ [e], complete_eq_ok.2 ⟨e', he', heq.symm⟩, hm⟩

theorem wholeModule_of_derivable (hs : Sourced s) {ts : List Token} (ht : s.complete = .ok ts)
    {m : Module Unit} (hm : IsModule symbols (ts.map symbol) m) :
    ∃ p, Parser.start s = .ok p ∧
      ∃ n q, wholeModule p.budget p = some (.ok n, q) ∧ n.erase = m := by
  obtain ⟨e, he, rfl⟩ := complete_eq_ok.1 ht
  cases h : Parser.start s with
  | error d =>
    obtain ⟨tokens, ending⟩ := s
    obtain rfl : ending = .ok e := he
    cases tokens <;> cases h
  | ok p =>
    refine ⟨p, rfl, ?_⟩
    obtain ⟨q, hr⟩ := reads_all h he
    obtain ⟨n, hn, k, hk⟩ := runs_wholeModule hm (start_tables h) ⟨_, hr, rfl⟩
    obtain ⟨o, ho⟩ := wholeModule_answers (start_ready hs h)
    have hmore := wholeModule_more (Nat.le_max_left p.budget k) ho
    rw [hk _ (Nat.le_max_right _ _)] at hmore
    cases hmore
    exact ⟨n, q, ho, hn⟩

section

variable {source : String} {file : Option String}

theorem parseSource_answers (source : String) (file : Option String) :
    ∃ r, parseSource source file = some r := by
  cases hp : Parser.start (Lexer.ofString source file).stream with
  | error d =>
    refine ⟨.error d, ?_⟩
    rw [parseSource, parse, hp]
  | ok p =>
    obtain ⟨o, ho⟩ := wholeModule_answers (start_ready (sourced_stream _) hp)
    refine ⟨o.1, ?_⟩
    rw [parseSource, parse_of_start hp, ho]
    rfl

theorem derivable_of_parse {m : Module Span} (h : parseSource source file = some (.ok m)) :
    ∃ ts, tokenize source file = .ok ts ∧ IsModule tokens ts m := by
  rw [parseSource, parse] at h
  split at h
  · rename_i p hp
    rw [budgeted_apply] at h
    obtain ⟨⟨r, q⟩, hx, rfl⟩ := Option.map_eq_some_iff.1 h
    exact derivable_of_wholeModule (sourced_stream _) hp hx
  · cases h

theorem parse_of_derivable {ts : List Token} (ht : tokenize source file = .ok ts) {m : Module Unit}
    (hm : IsModule symbols (ts.map symbol) m) :
    ∃ n, parseSource source file = some (.ok n) ∧ n.erase = m := by
  obtain ⟨p, hp, n, q, hx, hn⟩ := wholeModule_of_derivable (sourced_stream _) ht hm
  refine ⟨n, ?_, hn⟩
  rw [parseSource, parse_of_start hp, hx]
  rfl

end

/-- A source is accepted exactly if it is a row of tokens that derives from the grammar, and it has
the one tree that it derives. -/
theorem parse_accepts (source : String) (file : Option String) :
    (∃ r, parseSource source file = some r) ∧
    (∀ m, (∃ n, parseSource source file = some (.ok n) ∧ n.erase = m) ↔
      ∃ ts, tokenize source file = .ok ts ∧ IsModule symbols (ts.map symbol) m) ∧
    ∀ ts m m', tokenize source file = .ok ts → IsModule symbols (ts.map symbol) m →
      IsModule symbols (ts.map symbol) m' → m = m' := by
  refine ⟨parseSource_answers source file, fun m => ⟨?_, ?_⟩, ?_⟩
  · rintro ⟨n, hn, rfl⟩
    obtain ⟨ts, ht, hm⟩ := derivable_of_parse hn
    exact ⟨ts, ht, module_symbols hm⟩
  · rintro ⟨ts, ht, hm⟩
    exact parse_of_derivable ht hm
  · intro ts m m' ht hm hm'
    obtain ⟨n, hn, rfl⟩ := parse_of_derivable ht hm
    obtain ⟨n', hn', rfl⟩ := parse_of_derivable ht hm'
    rw [hn] at hn'
    cases hn'
    rfl

end ModuleSyntax.Proofs.Acceptance
