import ModuleSyntax.Proofs.Verdicts

namespace ModuleSyntax.Proofs.LongestMatch

open Symbols Lexemes Separation Steps Skipping Showing Verdicts

/-- A text that is one word, one run of digits, one text between quotes, one comment or one mark,
and nothing else. -/
inductive Whole : List Char → Prop
  | word {c : Char} {cs : List Char} (hc : isWordStart c) (hcs : cs.all isWordPart) :
      Whole (c :: cs)
  | digits {run : List Char} (hn : run ≠ []) (hd : run.all Char.isDigit) : Whole run
  | quoted {text : List Char} (h : '"' ∉ text) : Whole ('"' :: text ++ ['"'])
  | lineComment {body : List Char} (h : '\n' ∉ body) : Whole ('/' :: '/' :: body)
  | blockComment {body : List Char} (h : ¬ ['*', '/'] <:+: body ++ ['*']) :
      Whole ('/' :: '*' :: body ++ ['*', '/'])
  | mark (m : Mark) : Whole m.spelling.toList

/-- The pattern that is selected takes the piece that `q` takes, because it is `q`, or a longer
one. -/
def Leads (text : List Char) (q : Pattern) (other : List Char) : Prop :=
  ∃ p piece, Pattern.first? text = some (p, piece) ∧
    (p = q ∧ piece = other ∨ other.length < piece.length)

variable {text other rest x : List Char} {q : Pattern} {k : Kind} {v : String} {l after : Lexer}
  {t : Token} {m : Mark} {c : Char} {cs : List Char}

theorem leads_of_first (h : Pattern.first? text = some (q, other)) : Leads text q other :=
  ⟨q, other, h, .inl ⟨rfl, rfl⟩⟩

theorem leads_blank (h : Pattern.blank.matched? text = some other) : Leads text .blank other := by
  apply leads_of_first
  rw [Pattern.first?, Pattern.table, List.findSome?_cons, h]
  rfl

theorem leads_lineComment (h : Pattern.lineComment.matched? text = some other) :
    Leads text .lineComment other := by
  obtain ⟨body, rest, rfl, rfl, hb, he⟩ := lineComment_of_matched h
  exact leads_of_first (first_lineComment hb he)

theorem leads_blockComment (h : Pattern.blockComment.matched? text = some other) :
    Leads text .blockComment other := by
  obtain ⟨⟨rest, rfl⟩, -⟩ := Pattern.matched?_isPrefix h
  obtain ⟨body, rfl, hb⟩ := blockComment_of_matched h
  exact leads_of_first (first_blockComment hb rest)

theorem Leads.longer (h : Leads text q other) {p : Pattern} (hx : x.length < other.length) :
    Leads text p x := by
  obtain ⟨p', piece, hf, ⟨rfl, rfl⟩ | hlength⟩ := h
  · exact ⟨p', piece, hf, .inr hx⟩
  · exact ⟨p', piece, hf, .inr (Nat.lt_trans hx hlength)⟩

theorem leads_openComment (h : Pattern.openComment.matched? text = some other) :
    Leads text .openComment other := by
  obtain ⟨body, rfl, rfl⟩ := openComment_of_matched h
  cases hp : throughCommentEnd? body with
  | none => exact leads_of_first (first_openComment (commentEnd_eq_none.1 hp))
  | some piece =>
    have hm : Pattern.blockComment.matched? ('/' :: '*' :: body) = some ('/' :: '*' :: piece) :=
      congrArg (Option.map ('/' :: '*' :: ·)) hp
    apply (leads_blockComment hm).longer
    obtain ⟨inner, rfl, -⟩ := commentEnd_first hp
    simp

theorem leads_word (h : Pattern.word.matched? text = some other) : Leads text .word other := by
  cases text with
  | nil => cases h
  | cons c text =>
    rw [Pattern.matched?] at h
    split at h
    · rename_i hc
      cases h
      apply leads_of_first
      have hsplit := List.takeWhile_append_dropWhile (p := isWordPart) (l := text)
      have hrest := head_of_takeWhile hsplit.symm
      have hall : (text.takeWhile isWordPart).all isWordPart := List.all_takeWhile
      have hf := first_word hc hall hrest
      rwa [List.cons_append, hsplit] at hf
    · cases h

theorem leads_digits (h : Pattern.digits.matched? text = some other) :
    Leads text .digits other := by
  obtain ⟨⟨rest, rfl⟩, -⟩ := Pattern.matched?_isPrefix h
  obtain ⟨hne, hall, hrest⟩ := digits_of_matched h
  obtain ⟨c, cs, rfl⟩ := List.exists_cons_of_ne_nil hne
  rw [List.all_cons, Bool.and_eq_true] at hall
  exact leads_of_first (first_digits hall.1 hall.2 hrest)

theorem first_of_quotes {literal : List Char} (h : '"' ∈ literal) :
    ∃ body, Pattern.first? ('"' :: literal) = some (.quoted, '"' :: body ++ ['"']) := by
  obtain ⟨body, rest, rfl, hb⟩ := List.eq_append_cons_of_mem h
  exact ⟨body, first_quoted hb⟩

theorem leads_quoted (h : Pattern.quoted.matched? text = some other) :
    Leads text .quoted other := by
  have hm := h
  unfold Pattern.matched? at hm
  split at hm
  case h_7 literal _ =>
    split at hm
    · rename_i hq
      obtain ⟨body, hf⟩ := first_of_quotes (List.contains_iff_mem.1 hq)
      obtain rfl : other = '"' :: body ++ ['"'] :=
        Option.some.inj (h.symm.trans (Pattern.matched?_of_first? hf))
      exact leads_of_first hf
    · cases hm
  all_goals simp_all

theorem leads_openQuote (h : Pattern.openQuote.matched? text = some other) :
    Leads text .openQuote other := by
  obtain ⟨literal, rfl, rfl⟩ := openQuote_of_matched h
  by_cases hq : '"' ∈ literal
  · obtain ⟨body, hf⟩ := first_of_quotes hq
    apply (leads_of_first hf).longer
    simp
  · exact leads_of_first (first_openQuote hq)

/-- A mark that goes on to a longer one is read as that. -/
theorem leads_longer {m n : Mark} {c : Char} (h : n.spelling.toList = m.spelling.toList ++ [c])
    (hn : Parted (.mark n) rest) :
    Leads (m.spelling.toList ++ c :: rest) (.mark m) m.spelling.toList := by
  have hf := first_mark n hn
  rw [h, List.append_assoc] at hf
  apply (leads_of_first hf).longer
  simp

theorem leads_mark (h : (Pattern.mark m).matched? text = some other) :
    Leads text (.mark m) other := by
  rw [Pattern.matched?] at h
  split at h
  · rename_i hm
    cases h
    obtain ⟨rest, rfl⟩ := List.isPrefixOf_iff_prefix.1 hm
    cases rest with
    | nil =>
      apply leads_of_first
      apply first_mark
      intro c hc
      cases hc
    | cons c rest =>
      cases hc : absorbs (.mark m) c with
      | false =>
        apply leads_of_first
        apply first_mark
        rintro d ⟨⟩
        exact hc
      | true =>
        -- the mark begins a longer one or a comment
        cases m with
        | assignment =>
          obtain rfl : c = '=' := eq_of_beq hc
          exact leads_longer (n := .equals) rfl fun _ _ => rfl
        | less =>
          obtain rfl : c = '=' := eq_of_beq hc
          exact leads_longer (n := .lessEquals) rfl fun _ _ => rfl
        | greater =>
          obtain rfl : c = '=' := eq_of_beq hc
          exact leads_longer (n := .greaterEquals) rfl fun _ _ => rfl
        | slash =>
          obtain rfl | rfl : c = '/' ∨ c = '*' := by simpa [absorbs] using hc
          · have hline : Pattern.lineComment.matched? ('/' :: '/' :: rest) = _ := rfl
            apply (leads_lineComment hline).longer
            simp [Mark.spelling]
          · have hopen : Pattern.openComment.matched? ('/' :: '*' :: rest) = _ := rfl
            apply (leads_openComment hopen).longer
            simp [Mark.spelling]
        | _ => cases hc
  · cases h

/-- No pattern takes more than the one that is selected, and none but that one takes as much. -/
theorem leads_of_matched (h : q.matched? text = some other) : Leads text q other := by
  cases q with
  | blank => exact leads_blank h
  | lineComment => exact leads_lineComment h
  | blockComment => exact leads_blockComment h
  | openComment => exact leads_openComment h
  | word => exact leads_word h
  | digits => exact leads_digits h
  | quoted => exact leads_quoted h
  | openQuote => exact leads_openQuote h
  | mark m => exact leads_mark h

/-- Where a text begins with a piece of its own, some pattern takes at least that. -/
theorem Whole.matched (h : Whole x) (hx : x <+: text) :
    ∃ q other, Pattern.matched? q text = some other ∧ x.length ≤ other.length := by
  obtain ⟨rest, rfl⟩ := hx
  cases h with
  | @word c cs hc hcs =>
    refine ⟨.word, c :: (cs ++ rest).takeWhile isWordPart, if_pos hc, ?_⟩
    rw [List.takeWhile_append_of_pos (List.all_eq_true.1 hcs)]
    simp
  | digits hn hd =>
    obtain ⟨c, cs, rfl⟩ := List.exists_cons_of_ne_nil hn
    have hrun : ((c :: cs) ++ rest).takeWhile Char.isDigit =
        c :: cs ++ rest.takeWhile Char.isDigit :=
      List.takeWhile_append_of_pos (List.all_eq_true.1 hd)
    refine ⟨.digits, c :: cs ++ rest.takeWhile Char.isDigit, ?_, ?_⟩
    · rw [Pattern.matched?, run?, hrun]
      rfl
    · simp
  | @quoted body hb =>
    refine ⟨.quoted, '"' :: body ++ ['"'], ?_, Nat.le_refl _⟩
    rw [List.append_assoc]
    exact Pattern.matched?_of_first? (first_quoted hb)
  | @lineComment body hb =>
    refine ⟨.lineComment, '/' :: '/' :: (body ++ rest).takeWhile (· ≠ '\n'), rfl, ?_⟩
    have hrun : (body ++ rest).takeWhile (· ≠ '\n') = body ++ rest.takeWhile (· ≠ '\n') :=
      List.takeWhile_append_of_pos fun c hc => by
        have hne : c ≠ '\n' := fun he => hb (he ▸ hc)
        simpa using hne
    rw [hrun]
    simp
  | @blockComment body hb =>
    exact ⟨.blockComment, _, Pattern.matched?_of_first? (first_blockComment hb rest), Nat.le_refl _⟩
  | mark m =>
    refine ⟨.mark m, m.spelling.toList, if_pos ?_, Nat.le_refl _⟩
    exact List.isPrefixOf_iff_prefix.2 (List.prefix_append _ _)

theorem first_of_next (h : l.next = (.ok t, after)) (ht : t.kind ≠ .eof) :
    ∃ p, Pattern.first? (t.lexeme ++ after.rest) = some (p, t.lexeme) := by
  obtain ⟨p, hf, -⟩ := reading_written (next_spelled h) ht (parted_of_next h ht)
  exact ⟨p, hf⟩

theorem length_le_of_whole (h : l.next = (.ok t, after)) (hx : Whole x)
    (hp : x <+: t.lexeme ++ after.rest) : x.length ≤ t.lexeme.length := by
  by_cases ht : t.kind = .eof
  · obtain ⟨w, hw⟩ := next_passes h
    obtain ⟨-, -, hempty, hrest⟩ := hw.last ht
    have hlength := hp.length_le
    rwa [hrest, List.append_nil] at hlength
  · obtain ⟨p, hf⟩ := first_of_next h ht
    obtain ⟨q, other, hm, hle⟩ := hx.matched hp
    obtain ⟨p', piece, hf', hlead⟩ := leads_of_matched hm
    rw [hf] at hf'
    cases hf'
    obtain ⟨-, rfl⟩ | hlt := hlead
    · exact hle
    · exact Nat.le_trans hle (Nat.le_of_lt hlt)

theorem ofWord_of_start (hs : Spelled (k, v)) (hw : Token.written k v = c :: cs)
    (hc : isWordStart c) : k = Kind.ofWord v ∧ Token.written k v = v.toList := by
  cases k with
  | eof =>
    obtain rfl : v = "" := hs
    cases hw
  | intLiteral =>
    obtain ⟨-, hd⟩ := hs
    rw [show v.toList = c :: cs from hw, List.all_cons, Bool.and_eq_true] at hd
    rw [notStart_of_digit hd.1] at hc
    cases hc
  | stringLiteral =>
    obtain rfl : '"' = c := (List.cons.inj hw).1
    cases hc
  | mark m =>
    obtain rfl : v = m.spelling := hs
    cases m <;> cases hw <;> cases hc
  | identifier =>
    obtain ⟨-, hn⟩ := hs
    rw [Kind.ofWord, hn]
    exact ⟨rfl, rfl⟩
  | keyword w =>
    obtain rfl : v = w.spelling := hs
    rw [Kind.ofWord, Keyword.ofWord?_eq_some_iff.2 rfl]
    exact ⟨rfl, rfl⟩

/-- A word is reserved if all of it is the spelling of a reserved word. -/
theorem keyword_iff (hs : Spelled (symbol t)) (w : Keyword) :
    t.kind = .keyword w ↔ t.lexeme = w.spelling.toList := by
  constructor
  · intro ht
    rw [symbol, ht] at hs
    rw [Token.lexeme, ht, show t.value = w.spelling from hs]
    rfl
  · intro hw
    obtain ⟨c, cs, hl, hc, -⟩ := word_of_isName (isName_spelling w)
    obtain ⟨hk, hv⟩ := ofWord_of_start hs (hw.trans hl) hc
    have hvalue : t.value = w.spelling := String.toList_inj.1 (hv.symm.trans hw)
    rw [hk, hvalue, Kind.ofWord, Keyword.ofWord?_eq_some_iff.2 rfl]
    rfl

theorem identifier_of_start (hs : Spelled (symbol t)) (hl : t.lexeme = c :: cs)
    (hc : isWordStart c) (hw : ∀ w : Keyword, t.lexeme ≠ w.spelling.toList) :
    t.kind = .identifier := by
  obtain ⟨hk, hv⟩ := ofWord_of_start hs hl hc
  rw [hk, Kind.ofWord]
  cases hr : Keyword.ofWord? t.value with
  | none => rfl
  | some w =>
    apply absurd _ (hw w)
    rw [Keyword.ofWord?_eq_some_iff.1 hr]
    exact hv

theorem spelling_prefix {w u : Keyword} (h : w.spelling.toList <+: u.spelling.toList) : w = u := by
  revert h
  cases w <;> cases u <;> decide

theorem spelling_toLower (w : Keyword) :
    w.spelling.toList.map Char.toLower = w.spelling.toList := by
  cases w <;> rfl

theorem start_of_toLower (h : isWordStart c.toLower) : isWordStart c := by
  by_cases hu : c.val ≥ 'A'.val ∧ c.val ≤ 'Z'.val
  · have hupper : c.isUpper = true := decide_eq_true hu
    have hstart : isWordStart c = (c.isUpper || c.isLower || c == '_') := rfl
    rw [hstart, hupper]
    rfl
  · have hsame : c.toLower = c := dif_neg hu
    rwa [hsame] at h

theorem identifier_of_prefix (hs : Spelled (symbol t)) {w : Keyword} (hr : rest ≠ [])
    (hl : t.lexeme = w.spelling.toList ++ rest) : t.kind = .identifier := by
  obtain ⟨c, cs, hcs, hc, -⟩ := word_of_isName (isName_spelling w)
  have hfirst : t.lexeme = c :: (cs ++ rest) := by rw [hl, hcs, List.cons_append]
  apply identifier_of_start hs hfirst hc
  intro u hu
  have hwu : w.spelling.toList <+: u.spelling.toList := ⟨rest, hl.symm.trans hu⟩
  obtain rfl := spelling_prefix hwu
  apply hr
  simpa [hl] using hu

theorem identifier_of_toLower (hs : Spelled (symbol t)) {w : Keyword}
    (hw : t.lexeme ≠ w.spelling.toList) (hl : t.lexeme.map Char.toLower = w.spelling.toList) :
    t.kind = .identifier := by
  obtain ⟨c, cs, hcs, hc, -⟩ := word_of_isName (isName_spelling w)
  rw [hcs] at hl
  obtain ⟨d, ds, hds, rfl, -⟩ := List.map_eq_cons_iff.1 hl
  apply identifier_of_start hs hds (start_of_toLower hc)
  intro u hu
  apply hw
  rw [← hcs, hu, spelling_toLower] at hl
  rw [hu, hl]

/-- Of all patterns that take something, the one that is selected takes most, and no other takes as
much. So no token could have been longer where it stands: neither as a word, as digits, as a text
between quotes or as a mark, nor as a comment. And a word is reserved if all of it is a reserved
word as that is written, not if it begins with one or differs from one in the case of letters. -/
theorem first_longest :
    (∀ text, ∀ q ∈ Pattern.table, ∀ other, q.matched? text = some other →
      ∃ p piece, Pattern.first? text = some (p, piece) ∧ p.matched? text = some piece ∧
        other.length ≤ piece.length ∧ (other.length = piece.length → q = p)) ∧
    ∀ (l after : Lexer) t, l.next = (.ok t, after) →
      (∃ w, Trivia (t.lexeme ++ after.rest) w ∧ l.rest = w ++ (t.lexeme ++ after.rest)) ∧
      (∀ x, x <+: t.lexeme ++ after.rest → t.lexeme.length < x.length → ¬ Whole x) ∧
      (∀ w : Keyword, t.kind = .keyword w ↔ t.lexeme = w.spelling.toList) ∧
      (isName (String.ofList t.lexeme) → (∀ w : Keyword, t.lexeme ≠ w.spelling.toList) →
        t.kind = .identifier) ∧
      (∀ (w : Keyword) rest, rest ≠ [] → t.lexeme = w.spelling.toList ++ rest →
        t.kind = .identifier) ∧
      ∀ w : Keyword, t.lexeme ≠ w.spelling.toList →
        t.lexeme.map Char.toLower = w.spelling.toList → t.kind = .identifier := by
  refine ⟨fun text q _ other h => ?_, fun l after t h => ?_⟩
  · obtain ⟨p, piece, hf, hlead⟩ := leads_of_matched h
    refine ⟨p, piece, hf, Pattern.matched?_of_first? hf, ?_⟩
    obtain ⟨rfl, rfl⟩ | hlt := hlead
    · exact ⟨Nat.le_refl _, fun _ => rfl⟩
    · exact ⟨Nat.le_of_lt hlt, fun he => absurd he (Nat.ne_of_lt hlt)⟩
  · obtain ⟨w, hw⟩ := next_passes h
    have hs := next_spelled h
    refine ⟨⟨w, hw.trivia, hw.text⟩, fun x hx hlt hwhole => ?_, keyword_iff hs, fun hn hk => ?_,
      fun _ _ => identifier_of_prefix hs, fun _ => identifier_of_toLower hs⟩
    · exact Nat.not_le_of_lt hlt (length_le_of_whole h hwhole hx)
    · obtain ⟨c, cs, hl, hc, -⟩ := word_of_isName hn
      rw [String.toList_ofList] at hl
      exact identifier_of_start hs hl hc hk

/-- `==` is taken although `=` is a mark too, and `whiles` although `while` is reserved. -/
theorem first_longest_whiles :
    (∃ p piece, Pattern.first? "==x".toList = some (p, piece) ∧
      1 < piece.length ∧ p.matched? "==x".toList = some piece) ∧
    ∃ t after, (Lexer.ofString "whiles == x" none).next = (.ok t, after) ∧
      t.lexeme = "whiles".toList ∧ after.rest = " == x".toList ∧ t.kind = .identifier ∧
      ∀ x, x <+: "whiles == x".toList → 6 < x.length → ¬ Whole x := by
  have hmark : (Pattern.mark .assignment).matched? "==x".toList = some ['='] := by decide
  obtain ⟨hlongest, hnext⟩ := first_longest
  obtain ⟨p, piece, hf, hp, hle, hone⟩ := hlongest _ _ (mem_table _) _ hmark
  have htaken : Pattern.first? "==x".toList = some (.mark .equals, ['=', '=']) := rfl
  have hl : (Lexer.ofString "whiles == x" none).next = (.ok _, _) := rfl
  obtain ⟨-, hwhole, -, -, hprefix, -⟩ := hnext _ _ _ hl
  refine ⟨⟨p, piece, hf, ?_, hp⟩, _, _, hl, rfl, rfl, ?_, hwhole⟩
  · obtain hlt | heq := Nat.lt_or_eq_of_le hle
    · exact hlt
    · cases hone heq
      exact absurd (hf.symm.trans htaken) (by simp)
  · exact hprefix .whileWord ['s'] (by decide) rfl

end ModuleSyntax.Proofs.LongestMatch
