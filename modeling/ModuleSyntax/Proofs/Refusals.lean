import ModuleSyntax.Proofs.Viability
import ModuleSyntax.Proofs.Window

namespace ModuleSyntax.Proofs.Refusals

open Parse Motion Answers Calls Grammar Symbols Lexemes Entry ModuleEnd Outcome OutcomeModule
open WellFormed Acceptance Sources Window Viability

/-- The tokens of a source up to its end, or before the first error of the reader. -/
def sequence (s : TokenStream) : List Token := s.tokens ++ s.ending.toOption.toList

/-- The token is the first that no accepted source goes on with, and some accepted source goes on
with each kind that was expected in its place. -/
structure Earliest (before : List Token) (t : Token) (d : Diagnostic) : Prop where
  position : d.position = t.span.start
  viable : Viable (before.map symbol)
  last : ¬ Viable ((before ++ [t]).map symbol)
  cause : match d.cause with
    | .unexpected kind text expected => kind = t.kind ∧ text = t.value ∧
      ∀ k ∈ expected, ∃ v us, Accepted (before.map symbol ++ (k, v) :: us) ∧ (k = .eof → us = [])
    | .badTarget text => t.kind = .mark .assignment ∧ text = t.value
    | _ => False

def remaining (p : Parser) : List Token :=
  p.current :: p.upcoming.tokens ++
    if p.current.kind = .eof then [] else p.upcoming.ending.toOption.toList

variable {s : TokenStream} {p q : Parser} {w : List Token} {d : Diagnostic} {source : String}
  {file : Option String}

theorem remaining_moved (hp : Proper p) (hk : p.current.kind ≠ .eof) {next : Token}
    {rest : TokenStream} (h : p.upcoming.pull = (.ok next, rest)) :
    remaining p = p.current :: remaining (moved p next rest) := by
  obtain ⟨current, ⟨tokens, ending⟩, stop, tables⟩ := p
  cases tokens with
  | nil =>
    rw [TokenStream.pull_nil] at h
    cases h
    rw [remaining, remaining, if_neg hk, moved, if_pos (hp.ending next rfl)]
    rfl
  | cons t ts =>
    cases h
    rw [remaining, remaining, if_neg hk, moved, if_neg (hp.tokens next List.mem_cons_self)]
    rfl

theorem remaining_reads (hp : Proper p) (h : Reads p w q) (hw : ∀ t ∈ w, t.kind ≠ .eof) :
    remaining p = w ++ remaining q := by
  induction h with
  | refl p => rfl
  | step h hr ih =>
    rw [remaining_moved hp (hw _ List.mem_cons_self) h,
      ih (hp.moved h) fun t ht => hw t (List.mem_cons_of_mem _ ht)]
    rfl

theorem remaining_start (hs : Sourced s) (h : Parser.start s = .ok p) :
    remaining p = sequence s := by
  obtain ⟨he, ha⟩ := start_ahead h
  rw [remaining, sequence, he]
  obtain ha | ⟨ht, hu, ho⟩ := ha
  · have hk : p.current.kind ≠ .eof := hs.tokens _ (ha ▸ List.mem_cons_self)
    rw [if_neg hk, ha]
  · have hk : p.current.kind = .eof := congrArg Prod.fst (hs.ending _ ho)
    rw [if_pos hk, ht, hu, ho]
    rfl

theorem sequence_of_error (he : s.ending = .error d) : sequence s = s.tokens := by
  rw [sequence, he]
  exact List.append_nil s.tokens

theorem remaining_of_error (ht : p.upcoming.tokens = []) (he : p.upcoming.ending = .error d) :
    remaining p = [p.current] := by
  rw [remaining, ht, he]
  split <;> rfl

theorem end_stays (hp : Proper p) (hk : p.current.kind = .eof) (h : Reads p w q) :
    q.current.kind = .eof := by
  induction h with
  | refl p => exact hk
  | @step p q next rest ts h hr ih =>
    apply ih (hp.moved h)
    obtain ⟨current, ⟨tokens, ending⟩, stop, tables⟩ := p
    obtain rfl : tokens = [] := hp.current hk
    cases h
    exact hp.ending next rfl

theorem inside_of_reads (hp : Proper p) (h : Reads p w q) (hq : q.current.kind ≠ .eof) :
    ∀ t ∈ w, t.kind ≠ .eof := by
  intro t ht he
  obtain ⟨us, vs, rfl⟩ := List.append_of_mem ht
  obtain ⟨r, hu, hv⟩ := h.split
  have hr : r.current = t := by
    cases hv
    rfl
  exact hq (end_stays (hp.reads hu) (hr ▸ he) hv)

/-- A parse of the source that is refused at `q`, behind the tokens `w` and short of the end. -/
structure Refused (source : String) (file : Option String) (p : Parser) (w : List Token)
    (q : Parser) (d : Diagnostic) : Prop where
  start : Parser.start (Lexer.ofString source file).stream = .ok p
  reads : Reads p w q
  inside : ∀ t ∈ w, t.kind ≠ .eof
  run : wholeModule p.budget p = some (.error d, q)

theorem Refused.proper (h : Refused source file p w q d) : Proper p :=
  start_proper (sourced_stream _) h.start

theorem Refused.sequence (h : Refused source file p w q d) :
    sequence (Lexer.ofString source file).stream = w ++ remaining q := by
  rw [← remaining_start (sourced_stream _) h.start, remaining_reads h.proper h.reads h.inside]

theorem Refused.tokens (h : Refused source file p w q d) (hq : q.current.kind ≠ .eof) :
    p.current :: p.upcoming.tokens = w ++ q.current :: q.upcoming.tokens := by
  have hp : p.current.kind ≠ .eof := fun hp => hq (end_stays h.proper hp h.reads)
  have hr := remaining_reads h.proper h.reads h.inside
  rw [remaining, remaining, if_neg hp, if_neg hq, h.reads.ending, ← List.append_assoc] at hr
  exact List.append_cancel_right hr

/-- A source is refused in one way. -/
theorem Refused.unique {p' q' : Parser} {w' : List Token} {d' : Diagnostic}
    (h : Refused source file p w q d) (h' : Refused source file p' w' q' d') :
    w = w' ∧ q = q' ∧ d = d' := by
  obtain rfl : p = p' := Except.ok.inj (h.start.symm.trans h'.start)
  cases h.run.symm.trans h'.run
  have hseq := h.sequence
  rw [h'.sequence] at hseq
  exact ⟨(List.append_cancel_right hseq).symm, rfl, rfl⟩

theorem Refused.parse (h : Refused source file p w q d) :
    parseSource source file = some (.error d) := by
  rw [parseSource, parse_of_start h.start, h.run]
  rfl

/-- A source that is refused at its end is not accepted, so nothing with its symbols is. -/
theorem Refused.not_viable_end (h : Refused source file p w q d) (hq : q.current.kind = .eof) :
    ¬ Viable ((w ++ [q.current]).map symbol) := by
  rintro ⟨us, hus⟩
  have hs := sourced_stream (Lexer.ofString source file)
  have hrest : remaining q = [q.current] := by
    rw [remaining, if_pos hq, (h.proper.reads h.reads).current hq]
    rfl
  have hseq := h.sequence
  rw [hrest] at hseq
  rw [List.map_append, List.map_singleton, List.append_assoc, List.singleton_append] at hus
  obtain rfl := hus.eq_nil hq
  -- nothing follows an end, so what is accepted is the source itself
  cases he : (Lexer.ofString source file).stream.ending with
  | error e =>
    rw [Refusals.sequence, he] at hseq
    refine hs.tokens q.current ?_ hq
    rw [← List.append_nil (Lexer.ofString source file).stream.tokens]
    exact hseq ▸ List.mem_append_right w List.mem_cons_self
  | ok e =>
    rw [Refusals.sequence, he] at hseq
    have ht : tokenize source file = .ok (w ++ [q.current]) := complete_eq_ok.2 ⟨e, he, hseq⟩
    obtain ⟨-, m, hm⟩ := accepted_iff.1 hus
    rw [← List.map_singleton, ← List.map_append] at hm
    obtain ⟨n, hn, -⟩ := parse_of_derivable ht hm
    rw [h.parse] at hn
    cases hn

theorem accepted_start {s : Symbol} {ts us : List Symbol} (h : Accepted (s :: ts ++ us))
    (hi : Inner symbols (s :: ts)) : ∃ source file p m vs,
      Parser.start (Lexer.ofString source file).stream = .ok p ∧ ahead p = s :: ts ++ vs ∧
        parseSource source file = some (.ok m) := by
  obtain ⟨source, file, us', m, ht, hmap, hm⟩ := h
  obtain ⟨e, he, rfl⟩ := complete_eq_ok.1 ht
  have hs := sourced_stream (Lexer.ofString source file)
  rw [List.map_append, List.map_singleton, hs.ending e he] at hmap
  obtain rfl | ⟨us, u, rfl⟩ := List.eq_nil_or_concat us
  · rw [List.append_nil] at hmap
    exact absurd rfl (hi (.eof, "") (hmap ▸ List.mem_append_right _ List.mem_cons_self))
  · rw [List.concat_eq_append, ← List.append_assoc] at hmap
    have htokens := (List.append_inj' hmap rfl).1
    cases hp : Parser.start (Lexer.ofString source file).stream with
    | error d =>
      rw [parseSource, parse, hp] at hm
      cases hm
    | ok p =>
      refine ⟨source, file, p, m, us, hp, ?_, hm⟩
      obtain ⟨-, ha | ⟨hnil, -, -⟩⟩ := start_ahead hp
      · rw [ahead, ha, htokens]
      · rw [hnil] at htokens
        cases htokens

theorem Refused.not_viable_inside (h : Refused source file p w q d)
    (hd : d.cause.phase = .syntactic) (hq : q.current.kind ≠ .eof) :
    ¬ Viable ((w ++ [q.current]).map symbol) := by
  rintro ⟨us, hus⟩
  have hs := sourced_stream (Lexer.ofString source file)
  have hp : p.current.kind ≠ .eof := fun hp => hq (end_stays h.proper hp h.reads)
  have hinner : Inner symbols ((w ++ [q.current]).map symbol) := by
    intro s hs
    obtain ⟨t, ht, rfl⟩ := List.mem_map.1 hs
    obtain ht | ht := List.mem_append.1 ht
    · exact h.inside t ht
    · rw [List.mem_singleton.1 ht]
      exact hq
  obtain ⟨s, ts, hts⟩ := List.exists_cons_of_ne_nil
    (show (w ++ [q.current]).map symbol ≠ [] by simp)
  rw [hts] at hus hinner
  -- the accepted source begins like this one, so its parse is refused at the same symbol
  obtain ⟨source', file', p', m, vs, hp', hahead', hm⟩ := accepted_start hus hinner
  have hahead : ahead p = s :: ts ++ q.upcoming.tokens.map symbol := by
    rw [ahead, h.tokens hq, ← hts, List.append_cons, List.map_append]
  have halike : Alike q.upcoming.tokens.length p p' := by
    refine ⟨(start_tables h.start).trans (start_tables hp').symm, h.proper, fun e he => ?_, hp,
      s, ts, q.upcoming.tokens.map symbol, vs, hahead, hahead', List.length_map _⟩
    exact hs.lexical e ((start_ahead h.start).1 ▸ he)
  rw [parseSource, parse_of_start hp'] at hm
  obtain ⟨⟨r, q'⟩, hrun, hr⟩ := Option.map_eq_some_iff.1 hm
  obtain ⟨e, he⟩ := refused_alike halike (Nat.le_max_left p.budget p'.budget) h.run hd
    (length_lt_left hq)
    (wholeModule_more (Nat.le_max_right p.budget p'.budget) hrun)
  rw [show r = .error e from he] at hr
  cases hr

theorem Refused.not_viable (h : Refused source file p w q d) (hd : d.cause.phase = .syntactic) :
    ¬ Viable ((w ++ [q.current]).map symbol) := by
  by_cases hq : q.current.kind = .eof
  · exact h.not_viable_end hq
  · exact h.not_viable_inside hd hq

theorem spelled_sequence {s : TokenStream} (hs : Sourced s) :
    AllSpelled ((sequence s).map symbol) := by
  intro x hx
  obtain ⟨t, ht, rfl⟩ := List.mem_map.1 hx
  obtain ht | ht := List.mem_append.1 ht
  · exact hs.spelled t ht
  · cases he : s.ending with
    | error e =>
      rw [he] at ht
      cases ht
    | ok e =>
      rw [he] at ht
      rw [List.mem_singleton.1 ht, hs.ending e he]
      exact spelled_sample .eof

theorem viable_nil : Viable [] := by
  refine Continues.viable ?_ fun _ h => nomatch h
  have hm := IsModule.mk (g := symbols) (w := typical (.keyword .moduleWord))
    (n := typical .identifier) (o := typical (.mark .openCurly))
    (c := typical (.mark .closeCurly)) (e := typical .eof) rfl rfl rfl .nil .nil rfl rfl
  exact completable_continues.typical
    [.keyword .moduleWord, .identifier, .mark .openCurly, .mark .closeCurly, .eof]
    (allows_continues _ _ hm)

theorem Refused.spelled (h : Refused source file p w q d) :
    AllSpelled (w.map symbol) ∧ Spelled (symbol q.current) := by
  have hs := spelled_sequence (sourced_stream (Lexer.ofString source file))
  rw [h.sequence, List.map_append, allSpelled_append] at hs
  exact ⟨hs.1, hs.2 _ List.mem_cons_self⟩

theorem Refused.pull_error (h : Refused source file p w q d) {rest : TokenStream}
    (hr : q.upcoming.pull = (.error d, rest)) :
    (Lexer.ofString source file).stream.ending = .error d ∧
      (Lexer.ofString source file).stream.tokens = w ++ [q.current] := by
  obtain ⟨hnil, he⟩ := Motion.pull_error hr
  have hend : (Lexer.ofString source file).stream.ending = .error d := by
    rw [← (start_ahead h.start).1, ← h.reads.ending, he]
  have hseq := h.sequence
  rw [sequence_of_error hend, remaining_of_error hnil he] at hseq
  exact ⟨hend, hseq⟩

/-- An error of the reader is in the way of the first token behind symbols that are viable. -/
theorem Refused.lexical (h : Refused source file p w q d) {rest : TokenStream}
    (hr : q.upcoming.pull = (.error d, rest))
    (hv : Continues (w.map symbol ++ [symbol q.current])) :
    (Lexer.ofString source file).stream.ending = .error d ∧
      Viable ((Lexer.ofString source file).stream.tokens.map symbol) := by
  obtain ⟨hend, htokens⟩ := h.pull_error hr
  refine ⟨hend, ?_⟩
  rw [htokens, List.map_append]
  exact hv.viable (allSpelled_append.2 ⟨h.spelled.1, List.forall_mem_singleton.2 h.spelled.2⟩)

theorem Refused.unexpected (h : Refused source file p w q d) {expected : List Kind}
    (hd : d = q.unexpected expected) (hn : expected ≠ [])
    (hv : ∀ k ∈ expected, Continues (w.map symbol ++ [typical k])) : Earliest w q.current d := by
  subst hd
  have hspelled : ∀ k, AllSpelled [typical k] := fun k =>
    List.forall_mem_singleton.2 (spelled_typical k)
  obtain ⟨k, hk⟩ := List.exists_mem_of_ne_nil _ hn
  refine ⟨rfl, ?_, h.not_viable rfl, rfl, rfl, fun k hk => ?_⟩
  · exact (completable_continues.close (hspelled k) (hv k hk)).viable h.spelled.1
  · obtain ⟨us, hus⟩ := (hv k (Kind.mem_listing.1 hk)).viable
      (allSpelled_append.2 ⟨h.spelled.1, hspelled k⟩)
    rw [List.append_assoc, List.singleton_append] at hus
    exact ⟨_, us, hus, fun he => hus.eq_nil he⟩

theorem Refused.badTarget (h : Refused source file p w q d)
    (hd : d = ⟨.badTarget q.current.value, q.position⟩)
    (hk : q.current.kind = .mark .assignment) (hv : Continues (w.map symbol)) :
    Earliest w q.current d := by
  subst hd
  exact ⟨rfl, hv.viable h.spelled.1, h.not_viable rfl, hk, rfl⟩

/-- A parse that is refused is stuck at a token of the source. -/
theorem refused_of_run (hp : Parser.start (Lexer.ofString source file).stream = .ok p)
    (hrun : wholeModule p.budget p = some (.error d, q)) :
    ∃ w, Refused source file p w q d ∧ Stuck Continues w q d := by
  obtain ⟨w, hr, hstuck⟩ := meets_wholeModule p.budget completable_continues (start_tables hp)
    allows_continues (.refl p) _ _ hrun
  refine ⟨w, ⟨hp, hr, ?_, hrun⟩, hstuck⟩
  cases hstuck with
  | lexical hpull hv => exact fun t ht => hv.inner _ (List.mem_map_of_mem ht)
  | unexpected hn hk hv =>
    obtain ⟨k, hk'⟩ := List.exists_mem_of_ne_nil _ hn
    exact fun t ht => (hv k hk').inner _ (List.mem_map_of_mem ht)
  | badTarget hk hv =>
    have hproper := start_proper (sourced_stream _) hp
    exact inside_of_reads hproper hr (by rw [hk]; exact Kind.noConfusion)

theorem Refused.stuck (h : Refused source file p w q d) : Stuck Continues w q d := by
  obtain ⟨v, hv, hstuck⟩ := refused_of_run h.start h.run
  rwa [(h.unique hv).1]

/-- What a source is refused for is the first token that no accepted source goes on with. -/
theorem Refused.earliest (h : Refused source file p w q d) (hd : d.cause.phase = .syntactic) :
    Earliest w q.current d := by
  cases h.stuck with
  | lexical hpull hv =>
    rw [(sourced_stream _).lexical d (h.pull_error hpull).1] at hd
    cases hd
  | unexpected hn hk hv => exact h.unexpected rfl hn hv
  | badTarget hk hv => exact h.badTarget rfl hk hv

theorem start_error (h : Parser.start s = .error d) : s.tokens = [] ∧ s.ending = .error d := by
  unfold Parser.start at h
  split at h
  · cases h
  · rename_i hpull
    cases h
    exact Motion.pull_error hpull

/-- A source is refused for the error of the reader, behind tokens that are viable, or at the first
token that is not. -/
theorem refusal_cases (h : parseSource source file = some (.error d)) :
    ((Lexer.ofString source file).stream.ending = .error d ∧
      Viable ((Lexer.ofString source file).stream.tokens.map symbol)) ∨
    d.cause.phase = .syntactic ∧ ∃ before t after,
      sequence (Lexer.ofString source file).stream = before ++ t :: after ∧
        Earliest before t d := by
  cases hp : Parser.start (Lexer.ofString source file).stream with
  | error e =>
    rw [parseSource, parse, hp] at h
    cases h
    obtain ⟨ht, he⟩ := start_error hp
    rw [ht]
    exact .inl ⟨he, viable_nil⟩
  | ok p =>
    rw [parseSource, parse_of_start hp] at h
    obtain ⟨⟨r, q⟩, hrun, rfl⟩ := Option.map_eq_some_iff.1 h
    obtain ⟨w, hr, hstuck⟩ := refused_of_run hp hrun
    cases hstuck with
    | lexical hpull hv => exact .inl (hr.lexical hpull hv)
    | unexpected | badTarget => exact .inr ⟨rfl, w, _, _, hr.sequence, hr.earliest rfl⟩

/-- A source is refused at the first token that no accepted source goes on with, and told only of
kinds that one goes on with. An error of the reader is told exactly if all tokens before it begin
an accepted source. -/
theorem parse_refuses (source : String) (file : Option String) :
    (∀ d, parseSource source file = some (.error d) → d.cause.phase = .syntactic →
      ∃ before t after, sequence (Lexer.ofString source file).stream = before ++ t :: after ∧
        Earliest before t d) ∧
    ∀ d, (Lexer.ofString source file).stream.ending = .error d →
      (parseSource source file = some (.error d) ↔ ∃ us,
        Accepted ((Lexer.ofString source file).stream.tokens.map symbol ++ us ++ [(.eof, "")])) ∧
      ((¬ ∃ us,
          Accepted ((Lexer.ofString source file).stream.tokens.map symbol ++ us ++ [(.eof, "")])) →
        ∃ e before t after, parseSource source file = some (.error e) ∧
          e.cause.phase = .syntactic ∧
          (Lexer.ofString source file).stream.tokens = before ++ t :: after ∧
          Earliest before t e) := by
  have hs := sourced_stream (Lexer.ofString source file)
  refine ⟨fun d h hd => ?_, fun d he => ?_⟩
  · obtain ⟨he, -⟩ | ⟨-, hcase⟩ := refusal_cases h
    · rw [hs.lexical d he] at hd
      cases hd
    · exact hcase
  have htokens := sequence_of_error he
  have hviable : (∃ us, Accepted ((Lexer.ofString source file).stream.tokens.map symbol ++ us ++
      [(.eof, "")])) ↔ Viable ((Lexer.ofString source file).stream.tokens.map symbol) := by
    refine ⟨fun ⟨us, hus⟩ => ⟨us ++ [(.eof, "")], by rwa [← List.append_assoc]⟩, fun hv => ?_⟩
    refine hv.before_end fun x hx => ?_
    obtain ⟨t, ht, rfl⟩ := List.mem_map.1 hx
    exact hs.tokens t ht
  rw [hviable]
  obtain ⟨r, hr⟩ := parseSource_answers source file
  cases r with
  | ok m =>
    obtain ⟨ts, ht, -⟩ := derivable_of_parse hr
    obtain ⟨e, he', -⟩ := complete_eq_ok.1 ht
    rw [he] at he'
    cases he'
  | error e =>
    rw [hr]
    obtain ⟨he', hv⟩ | ⟨hsyntactic, before, t, after, hseq, hearliest⟩ := refusal_cases hr
    · rw [he] at he'
      cases he'
      exact ⟨⟨fun _ => hv, fun _ => rfl⟩, fun hn => absurd hv hn⟩
    · rw [htokens] at hseq
      refine ⟨⟨fun h => ?_, fun hv => ?_⟩, fun _ =>
        ⟨e, before, t, after, rfl, hsyntactic, hseq, hearliest⟩⟩
      · cases h
        rw [hs.lexical d he] at hsyntactic
        cases hsyntactic
      · rw [hseq, List.append_cons, List.map_append] at hv
        exact absurd (viable_of_append hv) hearliest.last

/-- The second word is refused, before the reader comes to what it does not know. -/
def repeated : String := "module module é"

theorem parse_refuses_repeated :
    (∃ d before t after, parseSource repeated none = some (.error d) ∧
      sequence (Lexer.ofString repeated none).stream = before ++ t :: after ∧
      Earliest before t d) ∧
    ∃ d, (Lexer.ofString repeated none).stream.ending = .error d ∧
      parseSource repeated none ≠ some (.error d) ∧ ¬ ∃ us, Accepted
        ((Lexer.ofString repeated none).stream.tokens.map symbol ++ us ++ [(.eof, "")]) := by
  obtain ⟨hsyntactic, hlexical⟩ := parse_refuses repeated none
  have hd : parseSource repeated none = some (.error _) := rfl
  obtain ⟨before, t, after, hseq, he⟩ := hsyntactic _ hd rfl
  have hl : (Lexer.ofString repeated none).stream.ending = .error _ := rfl
  have hne : parseSource repeated none ≠ some (.error ⟨.unrecognised "é", ⟨0, 14⟩⟩) := by
    rw [hd]
    exact fun h => by cases h
  exact ⟨⟨_, before, t, after, hd, hseq, he⟩, _, hl, hne, fun h => hne ((hlexical _ hl).1.2 h)⟩

end ModuleSyntax.Proofs.Refusals
