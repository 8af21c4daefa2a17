import Mathlib.Data.List.Forall2
import ModuleSyntax.Proofs.Lossless
import ModuleSyntax.Proofs.Showing
import ModuleSyntax.Proofs.Supply

namespace ModuleSyntax.Proofs.LineBreaks

open Symbols Acceptance Lexemes Separation Places Skipping Steps Showing Supply Lossless

def down (d : UInt32) (p : Position) : Position := ⟨p.line + d, p.column⟩

def downToken (d : UInt32) (t : Token) : Token :=
  ⟨t.kind, t.value, down d t.span.start, down d t.span.stop⟩

def downAnswer (d : UInt32) : Except Diagnostic Token → Except Diagnostic Token
  | .ok t => .ok (downToken d t)
  | .error e => .error ⟨e.cause, down d e.position⟩

/-- The second reader has the text of the first before it, that many lines further down. -/
structure Lower (d : UInt32) (l m : Lexer) : Prop where
  rest : m.rest = l.rest
  position : m.position = down d l.position

/-- The second reader has more before it than the first, behind a line feed. -/
structure Longer (more : List Char) (l m : Lexer) : Prop where
  rest : m.rest = l.rest ++ '\n' :: more
  position : m.position = l.position

variable {d : UInt32} {l m after last : Lexer} {e : Except Diagnostic Token} {t : Token}
  {ts us : List Token} {w ahead more : List Char}

theorem down_after (d : UInt32) (p : Position) (c : Char) :
    (down d p).after c = down d (p.after c) := by
  unfold Position.after
  split
  · rw [down, down, UInt32.add_assoc, UInt32.add_comm d, ← UInt32.add_assoc]
  · rfl

theorem down_afterText (d : UInt32) (p : Position) (text : List Char) :
    (down d p).afterText text = down d (p.afterText text) := by
  induction text generalizing p with
  | nil => rfl
  | cons c text ih => rw [Position.afterText_cons, Position.afterText_cons, down_after, ih]

theorem Lower.skip (h : Lower d l m) (n : Nat) : Lower d (l.skip n) (m.skip n) where
  rest := congrArg (List.drop n) h.rest
  position := by
    rw [Lexer.skip, Lexer.skip, h.rest, h.position, down_afterText]

theorem Lower.step (h : Lower d l m) (hs : Step l e after) :
    ∃ after', Step m (downAnswer d e) after' ∧ Lower d after after' := by
  induction hs generalizing m with
  | @ending l hl =>
    have hm : m.rest = [] := h.rest.trans hl
    have hstep := Step.ending hm
    rw [h.position] at hstep
    exact ⟨m, hstep, h⟩
  | @unrecognised l hn hf =>
    rw [← h.rest] at hn hf
    have hstep := Step.unrecognised hn hf
    rw [h.rest, h.position] at hstep
    exact ⟨m, hstep, h⟩
  | @skipped l after p piece e hf hr hs ih =>
    obtain ⟨after', hstep, hlower⟩ := ih (h.skip piece.length)
    rw [← h.rest] at hf
    rw [← (h.skip _).rest] at hr
    exact ⟨after', .skipped hf hr hstep, hlower⟩
  | @token l p piece k v hf hr =>
    rw [← h.rest] at hf
    rw [← (h.skip _).rest] at hr
    have hstep := Step.token hf hr
    rw [h.position, (h.skip _).position] at hstep
    exact ⟨_, hstep, h.skip _⟩
  | @refused l p piece cause hf hr =>
    rw [← h.rest] at hf
    rw [← (h.skip _).rest] at hr
    have hstep := Step.refused hf hr
    rw [h.position] at hstep
    exact ⟨m, hstep, h⟩

theorem Lower.run (h : Lower d l m) (hr : Run l ts e last) :
    ∃ last', Run m (ts.map (downToken d)) (downAnswer d e) last' := by
  induction hr generalizing m with
  | @stop l after e hnext he =>
    obtain ⟨after', hs, -⟩ := h.step (step_of_next hnext)
    refine ⟨after', .stop hs.next ?_⟩
    cases e with
    | error => exact final_error _
    | ok t =>
      rintro u ⟨⟩
      exact he t rfl
  | step hnext ht hr ih =>
    obtain ⟨after', hs, hlower⟩ := h.step (step_of_next hnext)
    obtain ⟨last', hrun⟩ := ih hlower
    exact ⟨last', .step hs.next ht hrun⟩

theorem stream_of_run (h : Run l ts e last) : l.stream = ⟨ts, e⟩ := by
  induction h with
  | stop hnext he =>
    rw [stream_of_final (by rwa [hnext]), hnext]
  | step hnext ht hr ih =>
    rw [stream_of_token hnext ht, ih]
    rfl

theorem trivia_more (h : Trivia ahead w) : Trivia (ahead ++ '\n' :: more) w := by
  induction h with
  | nil => exact .nil
  | blank hc hw ih => exact .blank hc ih
  | @lineComment body w hb he hw ih =>
    refine .lineComment hb ?_ ih
    rw [← List.append_assoc]
    cases hrest : w ++ ahead with
    | nil =>
      rintro c ⟨⟩
      rfl
    | cons d rest =>
      rw [hrest] at he
      exact he
  | blockComment hb hw ih => exact .blockComment hb ih

theorem Longer.next (h : Longer more l m) (hnext : l.next = (.ok t, after)) (ht : t.kind ≠ .eof) :
    ∃ after', m.next = (.ok t, after') ∧ Longer more after after' := by
  obtain ⟨w, hw⟩ := next_passes hnext
  -- a token that ends the shorter text does not go on with a line feed
  have hparted : Parted t.kind (after.rest ++ '\n' :: more) :=
    (parted_of_next hnext ht).append (not_absorbs_blank rfl _)
  have hm : m.rest = w ++ (t.lexeme ++ (after.rest ++ '\n' :: more)) := by
    rw [h.rest, hw.text, List.append_assoc, List.append_assoc]
    rfl
  obtain ⟨after', hnext', hrest, hplace⟩ := next_again hnext ht hw hparted hm h.position
  exact ⟨after', hnext', hrest, hplace⟩

/-- What is found first is found first by another reader that finds it too. -/
theorem run_congr (h : m.next = l.next) (hr : Run l ts e last) : Run m ts e last := by
  cases hr with
  | stop hnext he => exact .stop (h.trans hnext) he
  | step hnext ht hr => exact .step (h.trans hnext) ht hr

/-- A reader that has more before it than another gives the tokens of that one, and then those of
a reader behind the line feed. -/
theorem Longer.run (h : Longer more l m) (hr : Run l ts (.ok t) last) :
    ∃ n : Lexer, n.rest = more ∧ n.position = (l.position.afterText l.rest).after '\n' ∧
      ∀ us e last, Run n us e last → Run m (ts ++ us) e last := by
  generalize he : Except.ok t = e at hr
  induction hr generalizing m with
  | @stop l after e hnext hfinal =>
    subst he
    obtain ⟨w, hw⟩ := next_passes hnext
    obtain ⟨hl, htrivia, -, -⟩ := hw.last (hfinal t rfl)
    -- all that is left before the line feed is trivia, and the line feed is a blank
    have hm : m.rest = w ++ '\n' :: more := by rw [h.rest, hl]
    have hfeed : (m.skip w.length).rest = ['\n'] ++ more := skip_rest hm
    refine ⟨(m.skip w.length).skip 1, skip_rest hfeed, ?_, fun us e last hr => ?_⟩
    · refine (skip_position hfeed).trans ?_
      rw [skip_position hm, h.position, hl]
      rfl
    · apply run_congr _ hr
      rw [next_trivia (trivia_more htrivia) hm, next_blank rfl hfeed]
  | @step l after last u ts e hnext ht hr ih =>
    obtain ⟨after', hm, hlonger⟩ := h.next hnext ht
    obtain ⟨n, hrest, hplace, hrun⟩ := ih hlonger he
    obtain ⟨w, hw⟩ := next_passes hnext
    refine ⟨n, hrest, ?_, fun us e last hr => .step hm ht (hrun us e last hr)⟩
    rw [hplace, hw.position, hw.text, ← Position.afterText_append, List.append_assoc]

def Within (l : Lexer) (p : Position) : Prop :=
  ∃ front, front <+: l.rest ∧ p = l.position.afterText front

def places : Except Diagnostic Token → List Position
  | .ok t => [t.span.start, t.span.stop]
  | .error e => [e.position]

theorem place_of_error {x : Diagnostic} (h : l.next = (.error x, after)) :
    x.position = after.position := by
  generalize he : Except.error x = e at h
  induction step_of_next h with
  | unrecognised | refused =>
    cases he
    rfl
  | skipped hf hr hs ih => exact ih he hs.next
  | ending | token => cases he

theorem next_within (h : l.next = (e, after)) : ∀ p ∈ places e, Within l p := by
  obtain ⟨w, hw⟩ := next_passes h
  have hafter : Within l after.position := by
    refine ⟨w ++ found e, ?_, hw.position⟩
    rw [hw.text, ← List.append_assoc]
    exact List.prefix_append _ _
  cases e with
  | error x =>
    intro p hp
    rwa [List.mem_singleton.1 hp, place_of_error h]
  | ok t =>
    have hstart : Within l t.span.start := ⟨w, hw.text ▸ List.prefix_append _ _, hw.start⟩
    have hstop : Within l t.span.stop := by rwa [hw.stop]
    exact List.forall_mem_cons.2 ⟨hstart, List.forall_mem_singleton.2 hstop⟩

theorem Within.next (hnext : l.next = (e, after)) {p : Position} (h : Within after p) :
    Within l p := by
  obtain ⟨front, hfront, rfl⟩ := h
  obtain ⟨w, hw⟩ := next_passes hnext
  refine ⟨w ++ found e ++ front, ?_, ?_⟩
  · rw [hw.text, ← List.append_assoc]
    exact List.prefix_append_right_inj _ |>.2 hfront
  · rw [hw.position, ← Position.afterText_append]

theorem run_within (h : Run l ts e last) :
    (∀ t ∈ ts, ∀ p ∈ places (.ok t), Within l p) ∧ ∀ p ∈ places e, Within l p := by
  induction h with
  | stop hnext he => exact ⟨fun _ ht => absurd ht List.not_mem_nil, next_within hnext⟩
  | step hnext ht hr ih =>
    refine ⟨List.forall_mem_cons.2 ⟨next_within hnext, fun t ht p hp => ?_⟩, fun p hp => ?_⟩
    · exact .next hnext (ih.1 t ht p hp)
    · exact .next hnext (ih.2 p hp)

structure Below (n : Nat) (p q : Position) : Prop where
  line : q.line.toNat = p.line.toNat + n
  column : q.column = p.column

structure TokenBelow (n : Nat) (t u : Token) : Prop where
  kind : u.kind = t.kind
  value : u.value = t.value
  start : Below n t.span.start u.span.start
  stop : Below n t.span.stop u.span.stop

theorem below_down {source front : List Char} (h : source.length + d.toNat < UInt32.size)
    (hf : front <+: source) : Below d.toNat (Position.start.afterText front)
      (down d (Position.start.afterText front)) where
  line := by
    have hlength := hf.length_le
    have hcount := List.count_le_length (a := '\n') (l := front)
    rw [down, UInt32.toNat_add]
    apply Nat.mod_eq_of_lt
    rw [(counts_afterText (by omega)).line]
    exact Nat.lt_of_le_of_lt (by omega) h
  column := rfl

/-- Behind a line feed a text stands one line below what is before the line feed. -/
theorem lower_behind {text : List Char} {b : String} {file : Option String}
    (hrest : m.rest = b.toList) (hplace : m.position = (Position.start.afterText text).after '\n') :
    Lower ((Position.start.afterText text).line + 1) (Lexer.ofString b file) m where
  rest := hrest
  position := by
    rw [hplace, down, Lexer.ofString, Position.start, UInt32.zero_add]
    rfl

theorem forall₂_below {n : Nat}
    (h : ∀ t ∈ ts, ∀ p ∈ places (.ok t), Below n p (down d p)) :
    List.Forall₂ (TokenBelow n) ts (ts.map (downToken d)) := by
  refine List.forall₂_map_right_iff.2 (List.forall₂_same.2 fun t ht => ?_)
  obtain ⟨hstart, hstop⟩ := List.forall_mem_cons.1 (h t ht)
  exact ⟨rfl, rfl, hstart, hstop _ List.mem_cons_self⟩

variable {a : String} {fileA : Option String} {ta : List Token}

/-- What is found in a text with a line feed in it is what is found before the line feed and what is
found behind it, as many lines further down as there are line feeds before it and with it. -/
theorem stream_lines (he : (Lexer.ofString a fileA).stream.ending = .ok t)
    (h : a.toList.length + 1 < UInt32.size) (b : String) (fileB file : Option String) :
    ∃ d : UInt32, d.toNat = a.toList.count '\n' + 1 ∧
      (Lexer.ofString (a ++ "\n" ++ b) file).stream =
        ⟨(Lexer.ofString a fileA).stream.tokens ++
            (Lexer.ofString b fileB).stream.tokens.map (downToken d),
          downAnswer d (Lexer.ofString b fileB).stream.ending⟩ := by
  obtain ⟨lastA, hA⟩ := run_stream (Lexer.ofString a fileA)
  obtain ⟨lastB, hB⟩ := run_stream (Lexer.ofString b fileB)
  rw [he] at hA
  have hlonger : Longer b.toList (Lexer.ofString a fileA)
      (Lexer.ofString (a ++ "\n" ++ b) file) := ⟨by simp [Lexer.ofString], rfl⟩
  obtain ⟨m, hrest, hplace, hrun⟩ := hlonger.run hA
  have hlower : Lower _ (Lexer.ofString b fileB) m := lower_behind hrest hplace
  obtain ⟨last, hM⟩ := hlower.run hB
  have hline : (Position.start.afterText a.toList).line.toNat = a.toList.count '\n' :=
    (counts_afterText (by omega)).line
  have hcount := List.count_le_length (a := '\n') (l := a.toList)
  refine ⟨(Position.start.afterText a.toList).line + 1, ?_, stream_of_run (hrun _ _ _ hM)⟩
  rw [toNat_succ (by omega), hline]

/-- The tokens of a source are those of the text before a line feed in it, if that text can be read,
and those of the text behind the line feed, further down by the line feeds before them. If the text
behind cannot be read, the source cannot be read for the same cause, further down as well. -/
theorem tokenize_lines {b : String} {fileB file : Option String} (ha : tokenize a fileA = .ok ta)
    (h : (a ++ "\n" ++ b).length < UInt32.size) :
    ∃ ts e, ta = ts ++ [e] ∧ e.kind = .eof ∧
      (∀ tb, tokenize b fileB = .ok tb →
        ∃ us, tokenize (a ++ "\n" ++ b) file = .ok (ts ++ us) ∧
          List.Forall₂ (TokenBelow (a.toList.count '\n' + 1)) tb us) ∧
      ∀ x, tokenize b fileB = .error x →
        ∃ y, tokenize (a ++ "\n" ++ b) file = .error y ∧ y.cause = x.cause ∧
          Below (a.toList.count '\n' + 1) x.position y.position := by
  have hlength : b.toList.length + (a.toList.length + 1) < UInt32.size := by
    have hfeed : "\n".toList.length = 1 := rfl
    rw [← String.length_toList, String.toList_append, String.toList_append, List.length_append,
      List.length_append] at h
    omega
  obtain ⟨e, he, rfl⟩ := complete_eq_ok.1 ha
  obtain ⟨lastA, hA⟩ := run_stream (Lexer.ofString a fileA)
  refine ⟨_, e, rfl, congrArg Prod.fst (hA.ending he).1, ?_⟩
  obtain ⟨d, hd, hstream⟩ := stream_lines he (by omega) b fileB file
  have hcount := List.count_le_length (a := '\n') (l := a.toList)
  rw [← hd]
  obtain ⟨lastB, hB⟩ := run_stream (Lexer.ofString b fileB)
  obtain ⟨htokens, hending⟩ := run_within hB
  -- no line wraps, since there are at least as many characters as lines
  have hbelow : ∀ p, Within (Lexer.ofString b fileB) p → Below d.toNat p (down d p) := by
    rintro p ⟨front, hfront, rfl⟩
    have hb : front <+: b.toList := hfront
    exact below_down (by omega) hb
  refine ⟨fun tb hb => ?_, fun x hx => ?_⟩
  · obtain ⟨z, hz, rfl⟩ := complete_eq_ok.1 hb
    rw [hz] at hstream hending
    refine ⟨_, complete_eq_ok.2 ⟨downToken d z, ?_, ?_⟩, forall₂_below (d := d) ?_⟩
    · rw [hstream]
      rfl
    · rw [hstream, List.map_append, List.append_assoc]
      rfl
    · intro t ht p hp
      apply hbelow
      obtain ht | ht := List.mem_append.1 ht
      · exact htokens t ht p hp
      · rw [List.mem_singleton.1 ht] at hp
        exact hending p hp
  · have hx := complete_eq_error.1 hx
    rw [hx] at hstream hending
    refine ⟨⟨x.cause, down d x.position⟩, complete_eq_error.2 ?_, rfl, ?_⟩
    · rw [hstream]
      rfl
    · exact hbelow _ (hending _ List.mem_cons_self)

def commentedName : Token := .onLine .identifier .start "x"

theorem tokenize_lines_commented :
    tokenize "x //" none = .ok ([commentedName] ++ [.eof ⟨0, 4⟩]) ∧
      (("x //" ++ "\n" ++ "y\n/*").length < UInt32.size ∧ ∃ y,
        tokenize ("x //" ++ "\n" ++ "y\n/*") none = .error y ∧ y.cause = .unterminatedComment ∧
          Below 1 ⟨1, 0⟩ y.position) ∧
      ("x //" ++ "\n" ++ "y\n").length < UInt32.size ∧ ∃ us,
        tokenize ("x //" ++ "\n" ++ "y\n") none = .ok ([commentedName] ++ us) ∧
          List.Forall₂ (TokenBelow 1) [.onLine .identifier .start "y", .eof ⟨1, 0⟩] us := by
  have ha : tokenize "x //" none = .ok ([commentedName] ++ [.eof ⟨0, 4⟩]) := rfl
  have hcomment : ("x //" ++ "\n" ++ "y\n/*").length < UInt32.size := by decide
  have hname : ("x //" ++ "\n" ++ "y\n").length < UInt32.size := by decide
  refine ⟨ha, ⟨hcomment, ?_⟩, hname, ?_⟩
  · have hb : tokenize "y\n/*" none = .error ⟨.unterminatedComment, ⟨1, 0⟩⟩ := rfl
    obtain ⟨_, _, -, -, -, herror⟩ := tokenize_lines ha hcomment
    exact herror _ hb
  · have hb : tokenize "y\n" none = .ok [.onLine .identifier .start "y", .eof ⟨1, 0⟩] := rfl
    obtain ⟨ts, e, hts, -, hok, -⟩ := tokenize_lines ha hname
    rw [(List.append_inj' hts rfl).1]
    exact hok _ hb

end ModuleSyntax.Proofs.LineBreaks
