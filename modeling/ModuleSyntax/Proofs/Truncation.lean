import ModuleSyntax.Proofs.Refusals
import ModuleSyntax.Proofs.Showing
import ModuleSyntax.Proofs.Supply

namespace ModuleSyntax.Proofs.Truncation

open Parse Motion PairedRuns PairedModule Calls Answers Acceptance Lexemes Separation Skipping
open Showing Supply Entry Window Refusals

/-- The reader gives the tokens of the list one after another, none of them the end token. -/
inductive Gives : Lexer → List Token → Lexer → Prop
  | nil (l : Lexer) : Gives l [] l
  | cons {l m last : Lexer} {t : Token} {ts : List Token} (h : l.next = (.ok t, m))
      (ht : t.kind ≠ .eof) (hs : Gives m ts last) : Gives l (t :: ts) last

variable {l last : Lexer} {p q r : Parser} {t : Token} {ts w : List Token} {n : Nat}
  {d : Diagnostic} {source : String} {file : Option String}

theorem Gives.append {us : List Token} {mid : Lexer} (h : Gives l ts mid) (hu : Gives mid us last) :
    Gives l (ts ++ us) last := by
  induction h with
  | nil l => exact hu
  | cons hnext ht hs ih => exact .cons hnext ht (ih hu)

theorem Gives.stream (h : Gives l ts last) :
    l.stream = ⟨ts ++ last.stream.tokens, last.stream.ending⟩ := by
  induction h with
  | nil l => rfl
  | cons hnext ht hs ih =>
    rw [stream_of_token hnext ht, ih]
    rfl

theorem gives_of_reads (h : Ahead l p) (hr : Reads p ts q) (ht : ∀ t ∈ ts, t.kind ≠ .eof) :
    Gives l ts (after ts.length l) := by
  induction hr generalizing l with
  | refl p => exact .nil l
  | step hpull hr ih =>
    obtain ⟨hfirst, hrest⟩ := List.forall_mem_cons.1 ht
    have hnext : l.next = (.ok _, l.next.2) := Prod.ext h.current rfl
    exact .cons hnext hfirst (ih (h.moved hpull) hrest)

/-- A reader gives the same tokens again if the text behind them is changed to one that every token
is parted from that was parted from the other. -/
theorem Gives.again (h : Gives l ts last) : ∃ front, l.rest = front ++ last.rest ∧
    last.position = l.position.afterText front ∧
    ∀ (m : Lexer) (text : List Char), m.rest = front ++ text → m.position = l.position →
      (∀ k, Parted k last.rest → Parted k text) →
      ∃ last', Gives m ts last' ∧ last'.rest = text ∧ last'.position = last.position := by
  induction h with
  | nil l => exact ⟨[], rfl, rfl, fun m text hm hplace _ => ⟨m, .nil m, hm, hplace⟩⟩
  | @cons l mid last t ts hnext ht hs ih =>
    obtain ⟨w, hw⟩ := next_passes hnext
    obtain ⟨front, hrest, hposition, ih⟩ := ih
    have hl : l.rest = w ++ (t.lexeme ++ mid.rest) := hw.text
    refine ⟨w ++ (t.lexeme ++ front), ?_, ?_, fun m text hm hplace hparted => ?_⟩
    · rw [hl, hrest]
      simp only [List.append_assoc]
    · rw [hposition, hw.position, ← Position.afterText_append, List.append_assoc]
      rfl
    · have hmid : Parted t.kind (front ++ text) := by
        have hmid := parted_of_next hnext ht
        rw [hrest] at hmid
        cases front with
        | nil => exact hparted _ hmid
        | cons c front => exact hmid
      have hm' : m.rest = w ++ (t.lexeme ++ (front ++ text)) := by
        rw [hm]
        simp only [List.append_assoc]
      obtain ⟨m', hnext', hrest', hplace'⟩ := next_again hnext ht hw hmid hm' hplace
      obtain ⟨last', hs', hlast'⟩ := ih m' text hrest' hplace' hparted
      exact ⟨last', .cons hnext' ht hs', hlast'⟩

/-- Behind a token that the reader gives, the text can be cut and anything put in its place that
begins with a blank. -/
theorem Gives.cut {mid : Lexer} (h : Gives l ts mid) (hnext : mid.next = (.ok t, last))
    (ht : t.kind ≠ .eof) : ∃ front, l.rest = front ++ t.lexeme ++ last.rest ∧
      t.span = ⟨l.position.afterText front, l.position.afterText (front ++ t.lexeme)⟩ ∧
      ∀ (m : Lexer) (text : List Char), m.rest = front ++ t.lexeme ++ text →
        m.position = l.position → (∀ c ∈ text.head?, c ∈ [' ', '\t', '\r', '\n']) →
        ∃ last', Gives m (ts ++ [t]) last' := by
  obtain ⟨w, hw⟩ := next_passes hnext
  have hmid : mid.rest = w ++ (t.lexeme ++ last.rest) := hw.text
  obtain ⟨c, cs, hcs⟩ := List.exists_cons_of_ne_nil
    (show t.lexeme ≠ [] from written_ne_nil (next_spelled hnext) ht)
  obtain ⟨front, hrest, hposition, hagain⟩ := h.again
  refine ⟨front ++ w, ?_, ?_, fun m text hm hplace hblank => ?_⟩
  · rw [hrest, hmid]
    simp only [List.append_assoc]
  · rw [hw.span t rfl, hw.position, hposition]
    simp only [Position.afterText_append, List.append_assoc]
    rfl
  · have hparted : Parted t.kind text := by
      intro c hc
      exact not_absorbs_blank (isBlank_iff.2 (hblank c hc)) _
    have hm' : m.rest = front ++ (w ++ (t.lexeme ++ text)) := by
      rw [hm]
      simp only [List.append_assoc]
    -- what is behind the first tokens still begins with the same character
    have hsame (k : Kind) (hk : Parted k mid.rest) : Parted k (w ++ (t.lexeme ++ text)) := by
      rw [hmid, hcs] at hk
      rw [hcs]
      cases w with
      | nil => exact hk
      | cons c w => exact hk
    obtain ⟨mid', hgives, hmidrest, hmidplace⟩ := hagain m _ hm' hplace hsame
    obtain ⟨last', hlast, -⟩ := next_again hnext ht hw hparted hmidrest hmidplace
    exact ⟨last', hgives.append (.cons hlast ht (.nil last'))⟩

/-- Two parsers with the same tokens ahead, as long as the first has more than `n` of them. -/
structure Shared (n : Nat) (p q : Parser) : Prop where
  current : p.current = q.current
  previousEnd : p.previousEnd = q.previousEnd
  tables : p.tables = q.tables
  proper : Proper p
  lexical : ∀ d, p.upcoming.ending = .error d → d.cause.phase = .lexical
  tokens : ∃ a b c, p.upcoming.tokens = a ++ b ∧ q.upcoming.tokens = a ++ c ∧ b.length = n

def shared (n : Nat) : Pairing Position where
  view i := i
  sync := Shared n
  fails d e := d = e
  gone := (window n).gone
  lost := (window n).lost

theorem shared_advance (h : Shared n p q) :
    Follows (shared n) (seeToken (shared n).view) (advance p) (advance q) := by
  obtain ⟨hcurrent, hprevious, htables, hproper, hlexical, a, b, c, hp, hq, hb⟩ := h
  cases a with
  | nil =>
    have hl : p.upcoming.tokens.length ≤ n := Nat.le_of_eq (by rw [hp, List.nil_append, hb])
    obtain ⟨d, rest, hpull⟩ | ⟨next, rest, hpull⟩ := pull_cases p.upcoming
    · rw [advance_of_error hpull]
      obtain ⟨current, ⟨tokens, ending⟩, stop, tables⟩ := p
      cases tokens with
      | nil =>
        cases hpull
        exact .lost _ (hlexical _ rfl)
      | cons t ts => cases hpull
    · rw [advance_of_ok hpull]
      exact .gone _ (window_gone hproper hpull hl)
  | cons t a =>
    obtain ⟨current, ⟨tokens, ending⟩, stop, tables⟩ := p
    obtain ⟨current', ⟨tokens', ending'⟩, stop', tables'⟩ := q
    obtain rfl : current = current' := hcurrent
    obtain rfl : tokens = t :: (a ++ b) := hp
    obtain rfl : tokens' = t :: (a ++ c) := hq
    exact .value rfl ⟨rfl, rfl, htables, hproper.moved rfl, hlexical, a, b, c, rfl, rfl, hb⟩

theorem shared_sound (n : Nat) : Sound (shared n) where
  current h := by rw [h.current]
  previousEnd h := by rw [h.previousEnd]
  leading h := by rw [h.tables]
  trailing h := by rw [h.tables]
  opening h := by rw [h.tables]
  typeLeading h := by rw [h.tables]
  typeTrailing h := by rw [h.tables]
  starts h := by
    rw [h.tables]
    exact congrArg (fun t : Token => (⟨.unexpected t.kind t.value _, t.span.start⟩ : Diagnostic))
      h.current
  typeStarts h := by
    rw [h.tables]
    exact congrArg (fun t : Token => (⟨.unexpected t.kind t.value _, t.span.start⟩ : Diagnostic))
      h.current
  fails := calls_sound.fails
  advance := shared_advance
  gone := (window_sound n).gone

/-- What is refused at a token is refused there with the same words in every source with the same
tokens up to that one. -/
theorem refused_shared (h : Shared n p q) {i j : Nat} (hij : i ≤ j)
    (hx : wholeModule i p = some (.error d, r)) (hd : d.cause.phase = .syntactic) (hr : n < left r)
    {o : Except Diagnostic (Module Span) × Parser} (ho : wholeModule j q = some o) :
    o.1 = .error d := by
  have hf := (paired_wholeModule (shared_sound n) hij).2 p q h
  rw [hx, ho] at hf
  cases hf with
  | gone _ hg => exact absurd hg.2 (by omega)
  | lost _ hl =>
    rw [show _ = _ from hl] at hd
    cases hd
  | refusal he hs =>
    obtain rfl : d = _ := he
    rfl

theorem start_of_tokens {s : TokenStream} {us : List Token} (h : s.tokens = t :: us) :
    ∃ p, Parser.start s = .ok p ∧ p.current = t ∧ p.upcoming.tokens = us := by
  obtain ⟨tokens, ending⟩ := s
  obtain rfl : tokens = t :: us := h
  exact ⟨_, rfl, rfl, rfl⟩

theorem refused_of_parse (h : parseSource source file = some (.error d))
    (hd : d.cause.phase = .syntactic) : ∃ p w q, Refused source file p w q d := by
  cases hp : Parser.start (Lexer.ofString source file).stream with
  | error e =>
    rw [parseSource, parse, hp] at h
    cases h
    rw [(sourced_stream _).lexical d (start_error hp).2] at hd
    cases hd
  | ok p =>
    rw [parseSource, parse_of_start hp] at h
    obtain ⟨⟨r, q⟩, hrun, rfl⟩ := Option.map_eq_some_iff.1 h
    obtain ⟨w, hr, -⟩ := refused_of_run hp hrun
    exact ⟨p, w, q, hr⟩

theorem refused_again (h : Refused source file p w q d) (hd : d.cause.phase = .syntactic)
    (hq : q.current.kind ≠ .eof) {source' : String} {file' : Option String}
    (hg : Gives (Lexer.ofString source' file') (w ++ [q.current]) last) :
    parseSource source' file' = some (.error d) := by
  obtain ⟨t, a, ha⟩ := List.exists_cons_of_ne_nil (show w ++ [q.current] ≠ [] by simp)
  have htokens := h.tokens hq
  have hstream := hg.stream
  rw [List.append_cons, ha] at htokens
  rw [ha] at hstream
  obtain ⟨hcurrent, hupcoming⟩ := List.cons.inj htokens
  obtain ⟨p', hp', hcurrent', hupcoming'⟩ := start_of_tokens (congrArg TokenStream.tokens hstream)
  have hshared : Shared q.upcoming.tokens.length p p' :=
    ⟨hcurrent.trans hcurrent'.symm,
      (start_previousEnd h.start).trans (start_previousEnd hp').symm,
      (start_tables h.start).trans (start_tables hp').symm, h.proper,
      fun e he => (sourced_stream _).lexical e ((start_ahead h.start).1 ▸ he),
      a, q.upcoming.tokens, last.stream.tokens, hupcoming, hupcoming', rfl⟩
  obtain ⟨⟨o, q'⟩, hrun⟩ := wholeModule_answers (start_ready (sourced_stream _) hp')
  have ho := refused_shared hshared (Nat.le_max_left _ _) h.run hd (length_lt_left hq)
    (wholeModule_more (Nat.le_max_right _ _) hrun)
  rw [parseSource, parse_of_start hp', hrun]
  exact congrArg some ho

theorem refused_cut (h : Refused source file p w q d) (hd : d.cause.phase = .syntactic)
    (hq : q.current.kind ≠ .eof) : ∃ front,
      source.toList = front ++ q.current.lexeme ++
        (after (w.length + 1) (Lexer.ofString source file)).rest ∧
      q.current.span = ⟨Position.start.afterText front,
        Position.start.afterText (front ++ q.current.lexeme)⟩ ∧
      ∀ (r : String) (file' : Option String), (∀ c ∈ r.toList.head?, c ∈ [' ', '\t', '\r', '\n']) →
        parseSource (String.ofList (front ++ q.current.lexeme) ++ r) file' = some (.error d) := by
  have hstart := ahead_of_start h.start
  have hahead := (hstart.reads h.reads).1
  have hnext : (after w.length (Lexer.ofString source file)).next =
      (.ok q.current, after (w.length + 1) (Lexer.ofString source file)) :=
    Prod.ext hahead.current (after_succ _ _).symm
  obtain ⟨front, hrest, hspan, hcut⟩ := (gives_of_reads hstart h.reads h.inside).cut hnext hq
  refine ⟨front, hrest, hspan, fun r file' hr => ?_⟩
  have htext : (Lexer.ofString (String.ofList (front ++ q.current.lexeme) ++ r) file').rest =
      front ++ q.current.lexeme ++ r.toList := by simp [Lexer.ofString]
  obtain ⟨last, hgives⟩ := hcut _ _ htext rfl hr
  exact refused_again h hd hq hgives

/-- What a source is refused for depends on the text up to the end of one token, the first that no
accepted source goes on with. Whatever is put in the place of what follows that token, if it begins
with a blank or is nothing, the refusal is the same. -/
theorem parse_cut (h : parseSource source file = some (.error d))
    (hd : d.cause.phase = .syntactic) :
    ∃ before t behind, sequence (Lexer.ofString source file).stream = before ++ t :: behind ∧
      Earliest before t d ∧
      (t.kind ≠ .eof → ∃ front,
        source.toList = front ++ t.lexeme ++
          (after (before.length + 1) (Lexer.ofString source file)).rest ∧
        t.span = ⟨Position.start.afterText front,
          Position.start.afterText (front ++ t.lexeme)⟩ ∧
        ∀ (r : String) (file' : Option String),
          (∀ c ∈ r.toList.head?, c ∈ [' ', '\t', '\r', '\n']) →
          parseSource (String.ofList (front ++ t.lexeme) ++ r) file' = some (.error d)) := by
  obtain ⟨p, w, q, hr⟩ := refused_of_parse h hd
  exact ⟨w, q.current, _, hr.sequence, hr.earliest hd, refused_cut hr hd⟩

def beforeModule : Parser where
  current := .onLine (.keyword .moduleWord) ⟨0, 0⟩ "module"
  upcoming := ⟨[.onLine (.mark .assignment) ⟨0, 7⟩ "=", .onLine .identifier ⟨0, 9⟩ "x"],
    .ok (.eof ⟨0, 10⟩)⟩
  previousEnd := .start
  tables := .standard

def nameless : Diagnostic := ⟨.unexpected (.mark .assignment) "=" [.identifier], ⟨0, 7⟩⟩

theorem parse_cut_nameless :
    parseSource "module = x" none = some (.error nameless) ∧ nameless.cause.phase = .syntactic ∧
      ∃ (front : List Char) (t : Token), t.kind = .mark .assignment ∧ t.span.start = ⟨0, 7⟩ ∧
        parseSource (String.ofList (front ++ t.lexeme) ++ " \"") none = some (.error nameless) := by
  have hstart : Parser.start (Lexer.ofString "module = x" none).stream = .ok beforeModule := rfl
  have h : parseSource "module = x" none = some (.error nameless) := by
    rw [parseSource, parse_of_start hstart]
    rfl
  have hd : nameless.cause.phase = .syntactic := rfl
  obtain ⟨before, t, behind, -, ht, hcut⟩ := parse_cut h hd
  have hk : Kind.mark .assignment = t.kind := ht.cause.1
  obtain ⟨front, -, -, hsame⟩ := hcut (by rw [← hk]; exact Kind.noConfusion)
  exact ⟨h, hd, front, t, hk.symm, ht.position.symm, hsame " \"" none (by simp)⟩

end ModuleSyntax.Proofs.Truncation
