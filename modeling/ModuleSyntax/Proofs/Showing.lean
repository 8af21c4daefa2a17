import ModuleSyntax.Proofs.Lexemes
import ModuleSyntax.Proofs.Skipping

namespace ModuleSyntax.Proofs.Showing

open Symbols Lexemes Separation Steps Skipping

variable {ahead w text piece body : List Char} {k : Kind} {v : String} {l after : Lexer} {t : Token}

theorem next_skipped {p : Pattern} (hf : Pattern.first? l.rest = some (p, piece))
    (hr : p.reading piece (l.skip piece.length).rest = .skipped) :
    l.next = (l.skip piece.length).next :=
  (Step.skipped hf hr (step_of_next rfl)).next

theorem first_blank {c : Char} (hc : isBlank c) (text : List Char) :
    Pattern.first? (c :: text) = some (.blank, c :: text.takeWhile isBlank) := by
  have hm : Pattern.blank.matched? (c :: text) = some (c :: text.takeWhile isBlank) := by
    rw [Pattern.matched?, run?, List.takeWhile_cons_of_pos hc]
    rfl
  rw [Pattern.first?, Pattern.table, List.findSome?_cons, hm]
  rfl

/-- Blanks are skipped all at once, which is as if they were skipped one by one. -/
theorem next_blank {c : Char} (hc : isBlank c) (hl : l.rest = c :: text) :
    l.next = (l.skip 1).next := by
  have hfirst := first_blank hc text
  rw [← hl] at hfirst
  rw [next_skipped hfirst rfl, List.length_cons, Nat.add_comm, ← skip_skip]
  have hrest : (l.skip 1).rest = text := skip_one hl
  cases text with
  | nil => rfl
  | cons d text =>
    by_cases hd : isBlank d
    · have hfirst := first_blank hd text
      rw [← hrest] at hfirst
      rw [next_skipped hfirst rfl, List.takeWhile_cons_of_pos hd]
    · rw [List.takeWhile_cons_of_neg hd]
      rfl

theorem first_lineComment (hb : '\n' ∉ body) (he : ∀ c ∈ text.head?, c = '\n') :
    Pattern.first? ('/' :: '/' :: body ++ text) = some (.lineComment, '/' :: '/' :: body) := by
  have hrun : (body ++ text).takeWhile (· ≠ '\n') = body := by
    apply takeWhile_append
    · exact List.all_eq_true.2 fun c hc => decide_eq_true fun h => hb (h ▸ hc)
    · exact fun c hc => decide_eq_false fun h => h (he c hc)
  have hm : Pattern.lineComment.matched? ('/' :: '/' :: body ++ text) =
      some ('/' :: '/' :: body) :=
    congrArg (fun run => some ('/' :: '/' :: run)) hrun
  rw [Pattern.first?, Pattern.table, List.findSome?_cons, List.findSome?_cons, hm]
  rfl

theorem commentEnd_append (hb : ¬ ['*', '/'] <:+: body ++ ['*']) :
    throughCommentEnd? (body ++ ['*', '/'] ++ text) = some (body ++ ['*', '/']) := by
  induction body with
  | nil => rfl
  | cons c body ih =>
    have htail : throughCommentEnd? (body ++ ['*', '/'] ++ text) = some (body ++ ['*', '/']) :=
      ih fun h => hb (List.infix_cons h)
    rw [List.cons_append, List.cons_append, throughCommentEnd?, htail]
    · rfl
    · rintro rest rfl hrest
      -- the comment would have ended here already
      apply hb
      cases body with
      | nil => cases hrest
      | cons d body =>
        cases hrest
        exact ⟨[], body ++ ['*'], rfl⟩

theorem first_blockComment (hb : ¬ ['*', '/'] <:+: body ++ ['*']) (text : List Char) :
    Pattern.first? ('/' :: '*' :: body ++ ['*', '/'] ++ text) =
      some (.blockComment, '/' :: '*' :: body ++ ['*', '/']) := by
  have hm : Pattern.blockComment.matched? ('/' :: '*' :: body ++ ['*', '/'] ++ text) =
      some ('/' :: '*' :: body ++ ['*', '/']) :=
    congrArg (Option.map ('/' :: '*' :: ·)) (commentEnd_append hb)
  rw [Pattern.first?, Pattern.table, List.findSome?_cons, List.findSome?_cons,
    List.findSome?_cons, hm]
  rfl

/-- The reader finds the same before and behind blanks and comments. -/
theorem next_trivia (hw : Trivia ahead w) (hl : l.rest = w ++ ahead) :
    l.next = (l.skip w.length).next := by
  induction hw generalizing l with
  | nil => rfl
  | @blank c w hc hw ih =>
    have hblank : isBlank c := isBlank_iff.2 hc
    have hrest : (l.skip 1).rest = w ++ ahead := skip_one hl
    rw [next_blank hblank hl, ih hrest, skip_skip, Nat.add_comm]
    rfl
  | @lineComment body w hb he hw ih =>
    rw [List.append_assoc] at hl
    have hfirst := first_lineComment hb he
    rw [← hl] at hfirst
    rw [next_skipped hfirst rfl, ih (skip_rest hl), skip_skip, ← List.length_append]
  | @blockComment body w hb hw ih =>
    rw [List.append_assoc] at hl
    have hfirst := first_blockComment hb (w ++ ahead)
    rw [← hl] at hfirst
    rw [next_skipped hfirst rfl, ih (skip_rest hl), skip_skip, ← List.length_append]

/-- Behind trivia, what is written for a symbol is found as a token, if it is parted from what
follows. -/
theorem next_written (hw : Trivia (Token.written k v ++ text) w) (hs : Spelled (k, v))
    (hk : k ≠ .eof) (hp : Parted k text) (hl : l.rest = w ++ (Token.written k v ++ text)) :
    l.next = (.ok ⟨k, v, l.position.afterText w, l.position.afterText (w ++ Token.written k v)⟩,
      l.skip (w ++ Token.written k v).length) := by
  obtain ⟨p, hf, hr⟩ := reading_written hs hk hp
  have hrest : (l.skip w.length).rest = Token.written k v ++ text := skip_rest hl
  rw [← hrest] at hf
  rw [← skip_rest hrest] at hr
  rw [next_trivia hw hl, (Step.token hf hr).next, skip_position hrest, skip_position hl, skip_skip,
    ← List.length_append, Position.afterText_append]

theorem next_end (hw : Trivia [] w) (hl : l.rest = w) :
    l.next = (.ok (Token.eof (l.position.afterText w)), l.skip w.length) := by
  rw [← List.append_nil w] at hl
  rw [next_trivia hw hl, (Step.ending (skip_rest hl)).next, skip_position hl]

theorem parted_of_next (h : l.next = (.ok t, after)) (ht : t.kind ≠ .eof) :
    Parted t.kind after.rest := by
  generalize he : Except.ok t = e at h
  induction step_of_next h with
  | ending =>
    cases he
    exact absurd rfl ht
  | skipped hf hr hs ih => exact ih he hs.next
  | token hf hr =>
    cases he
    rw [(rest_of_first hf).1] at hf
    exact parted_of_reading hf hr
  | unrecognised | refused => cases he

/-- A token is found again at the same place whatever follows it, if it is parted from that. -/
theorem next_again (hnext : l.next = (.ok t, after)) (ht : t.kind ≠ .eof)
    (hw : Passes l w (.ok t) after) (hp : Parted t.kind text) {m : Lexer}
    (hm : m.rest = w ++ (t.lexeme ++ text)) (hplace : m.position = l.position) :
    ∃ after', m.next = (.ok t, after') ∧ after'.rest = text ∧
      after'.position = after.position := by
  have hne : t.lexeme ≠ [] := written_ne_nil (next_spelled hnext) ht
  have htrivia : Trivia (t.lexeme ++ text) w := by
    apply hw.trivia.congr
    obtain ⟨c, cs, hcs⟩ := List.exists_cons_of_ne_nil hne
    rw [found, hcs]
    rfl
  have hspan := hw.span t rfl
  have hposition := hw.position
  rw [hposition, ← hplace] at hspan
  have htoken : (⟨t.kind, t.value, m.position.afterText w,
      m.position.afterText (w ++ t.lexeme)⟩ : Token) = t :=
    congrArg (Token.mk t.kind t.value) hspan.symm
  have hskip : m.rest = (w ++ t.lexeme) ++ text := by rw [hm, List.append_assoc]
  refine ⟨m.skip (w ++ t.lexeme).length, ?_, skip_rest hskip, ?_⟩
  · rw [next_written htrivia (next_spelled hnext) ht hp hm]
    exact congrArg (fun u => (Except.ok u, _)) htoken
  · rw [skip_position hskip, hplace, hposition]
    rfl

/-- A text shows symbols: what is written for them one after another, each parted from the rest,
with blanks and comments before, between and after them. -/
inductive Shows : List Symbol → List Char → Prop
  | last {w : List Char} (hw : Trivia [] w) : Shows [] w
  | next {s : Symbol} {ts : List Symbol} {w text : List Char}
      (hw : Trivia (Token.written s.1 s.2 ++ text) w) (hs : Spelled s) (hk : s.1 ≠ .eof)
      (hp : Parted s.1 text) (ht : Shows ts text) :
      Shows (s :: ts) (w ++ (Token.written s.1 s.2 ++ text))

theorem stream_shows {ts : List Symbol} (h : Shows ts text) (hl : l.rest = text) :
    l.stream.tokens.map symbol = ts ∧ ∃ e, l.stream.ending = .ok e := by
  induction h generalizing l with
  | last hw =>
    rw [Lexer.stream_eq, Lexer.streamThen, next_end hw hl]
    exact ⟨rfl, _, rfl⟩
  | @next s ts w text hw hs hk hp ht ih =>
    obtain ⟨k, v⟩ := s
    have hrest : (l.skip (w ++ Token.written k v).length).rest = text :=
      skip_rest (hl.trans (List.append_assoc ..).symm)
    obtain ⟨hmap, hend⟩ := ih hrest
    have he : Token.isEof ⟨k, v, l.position.afterText w,
        l.position.afterText (w ++ Token.written k v)⟩ = false := decide_eq_false hk
    rw [Lexer.stream_eq, Lexer.streamThen, next_written hw hs hk hp hl]
    dsimp only
    rw [he, if_neg Bool.false_ne_true]
    exact ⟨congrArg ((k, v) :: ·) hmap, hend⟩

end ModuleSyntax.Proofs.Showing
