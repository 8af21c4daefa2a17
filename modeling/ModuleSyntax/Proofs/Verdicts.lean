import ModuleSyntax.Proofs.Showing
import ModuleSyntax.Proofs.Supply

namespace ModuleSyntax.Proofs.Verdicts

open Separation Steps Skipping Showing Supply

/-- A text that begins with no blank and with no comment that is complete. -/
structure Bare (text : List Char) : Prop where
  blank : ∀ c ∈ text.head?, c ∉ [' ', '\t', '\r', '\n']
  line : ¬ ['/', '/'] <+: text
  block : ∀ body, text = '/' :: '*' :: body → ¬ ['*', '/'] <:+: body

/-- What is left of a text without the blanks and comments before it. -/
structure Stripped (text w r : List Char) : Prop where
  text : text = w ++ r
  trivia : Trivia r w
  bare : Bare r

/-- The texts that the reader refuses, for each cause. -/
inductive Refused : List Char → Cause → Prop
  | openComment {body : List Char} (h : ¬ ['*', '/'] <:+: body) :
      Refused ('/' :: '*' :: body) .unterminatedComment
  | number {digits text : List Char} {c : Char} (hn : digits ≠ []) (hd : digits.all Char.isDigit)
      (hc : isWordStart c) : Refused (digits ++ c :: text)
        (.malformedNumber (String.ofList ((digits ++ c :: text).takeWhile isWordPart)))
  | openQuote {literal : List Char} (h : '"' ∉ literal) :
      Refused ('"' :: literal) (.unterminatedString (String.ofList literal))
  | stray {c : Char} {text : List Char} (hw : isWordStart c = false) (hd : c.isDigit = false)
      (hq : c ≠ '"') (hm : ∀ m : Mark, ¬ m.spelling.toList <+: c :: text) :
      Refused (c :: text) (.unrecognised (String.ofList [c]))

variable {l after : Lexer} {e : Except Diagnostic Token} {text body piece rest w r : List Char}
  {p : Pattern} {cause : Cause} {c : Char}

theorem commentEnd_eq_none : throughCommentEnd? text = none ↔ ¬ ['*', '/'] <:+: text := by
  constructor
  · intro h
    fun_induction throughCommentEnd? text with
    | case1 => exact fun hi => absurd hi.length_le (by decide)
    | case2 => cases h
    | case3 c text hne ih =>
      intro hi
      obtain hi | hi := List.infix_cons_iff.1 hi
      · obtain ⟨hc, hi⟩ := List.cons_prefix_cons.1 hi
        obtain ⟨rest, rfl⟩ := hi
        exact hne rest hc.symm rfl
      · exact ih (Option.map_eq_none_iff.1 h) hi
  · intro h
    cases hp : throughCommentEnd? text with
    | none => rfl
    | some piece =>
      obtain ⟨body, rfl, -⟩ := commentEnd_first hp
      obtain ⟨rest, rfl⟩ := throughCommentEnd?_isPrefix hp
      exact absurd ⟨body, rest, rfl⟩ h

theorem reading_eq_skipped_iff : p.reading piece rest = .skipped ↔
    p ∈ [Pattern.blank, .lineComment, .blockComment] := by
  cases p with
  | digits =>
    simp only [Pattern.reading, Pattern.ofDigits]
    split <;> simp
  | _ => simp [Pattern.reading]

/-- Where the reader skips nothing, the text is bare. -/
theorem bare_of_first (h : ∀ p piece, Pattern.first? text = some (p, piece) →
    p ∉ [Pattern.blank, .lineComment, .blockComment]) : Bare text where
  blank c hc hb := by
    obtain ⟨text, rfl⟩ := List.head?_eq_some_iff.1 hc
    exact h _ _ (first_blank (isBlank_iff.2 hb) text) (by decide)
  line hl := by
    obtain ⟨text, rfl⟩ := hl
    exact h .lineComment _ rfl (by decide)
  block body hb hi := by
    subst hb
    cases hp : throughCommentEnd? body with
    | none => exact commentEnd_eq_none.1 hp hi
    | some piece =>
      have hm : Pattern.blockComment.matched? ('/' :: '*' :: body) = some ('/' :: '*' :: piece) :=
        congrArg (Option.map ('/' :: '*' :: ·)) hp
      refine h .blockComment ('/' :: '*' :: piece) ?_ (by decide)
      rw [Pattern.first?, Pattern.table, List.findSome?_cons, List.findSome?_cons,
        List.findSome?_cons, hm]
      rfl

theorem Bare.not_skipped (hb : Bare text) (h : Pattern.first? text = some (p, piece)) :
    p ∉ [Pattern.blank, .lineComment, .blockComment] := by
  have hm := Pattern.matched?_of_first? h
  obtain ⟨⟨behind, rfl⟩, hne⟩ := Pattern.matched?_isPrefix hm
  intro hp
  obtain rfl | rfl | rfl : p = .blank ∨ p = .lineComment ∨ p = .blockComment := by simpa using hp
  · obtain ⟨c, piece, rfl⟩ := List.exists_cons_of_ne_nil hne
    have hall := blanks_of_matched hm
    rw [List.all_cons, Bool.and_eq_true] at hall
    exact hb.blank c rfl (isBlank_iff.1 hall.1)
  · obtain ⟨body, _, -, rfl, -, -⟩ := lineComment_of_matched hm
    exact hb.line ⟨body ++ behind, rfl⟩
  · obtain ⟨body, rfl, -⟩ := blockComment_of_matched hm
    exact hb.block (body ++ ['*', '/'] ++ behind) rfl ⟨body, behind, rfl⟩

theorem stripped_of_step (h : Step l e after) : ∃ w r, Stripped l.rest w r := by
  induction h with
  | ending h =>
    rw [h]
    exact ⟨[], [], rfl, .nil, bare_of_first fun p piece hf => nomatch hf⟩
  | @unrecognised l hn hf =>
    refine ⟨[], l.rest, rfl, .nil, bare_of_first fun p piece hf' => ?_⟩
    rw [hf] at hf'
    cases hf'
  | @skipped l after p piece e hf hr hs ih =>
    obtain ⟨w, r, htext, htrivia, hbare⟩ := ih
    obtain ⟨hl, -⟩ := rest_of_first hf
    rw [htext] at hl
    refine ⟨piece ++ w, r, ?_, ?_, hbare⟩
    · rw [hl, List.append_assoc]
    · exact htrivia.skipped (Pattern.matched?_of_first? hf) hl hr
  | @token l p piece k value hf hr | @refused l p piece cause hf hr =>
    refine ⟨[], l.rest, rfl, .nil, bare_of_first fun q piece' hf' hq => ?_⟩
    rw [hf] at hf'
    cases hf'
    rw [reading_eq_skipped_iff.2 hq] at hr
    cases hr

theorem mem_table (p : Pattern) : p ∈ Pattern.table := by
  cases p with
  | mark m => cases m <;> decide
  | _ => decide

theorem matched_of_none (h : Pattern.first? text = none) (p : Pattern) :
    p.matched? text = none := by
  have hp := List.findSome?_eq_none_iff.1 h p (mem_table p)
  exact Option.map_eq_none_iff.1 hp

theorem openComment_of_matched (h : Pattern.openComment.matched? text = some piece) :
    ∃ body, text = '/' :: '*' :: body ∧ piece = ['/', '*'] := by
  unfold Pattern.matched? at h
  split at h
  case h_4 body _ =>
    cases h
    exact ⟨body, rfl, rfl⟩
  all_goals simp_all

theorem openQuote_of_matched (h : Pattern.openQuote.matched? text = some piece) :
    ∃ literal, text = '"' :: literal ∧ piece = ['"'] := by
  unfold Pattern.matched? at h
  split at h
  case h_8 literal _ =>
    cases h
    exact ⟨literal, rfl, rfl⟩
  all_goals simp_all

theorem first_stray (hb : Bare (c :: text)) (hw : isWordStart c = false) (hd : c.isDigit = false)
    (hq : c ≠ '"') (hm : ∀ m : Mark, ¬ m.spelling.toList <+: c :: text) :
    Pattern.first? (c :: text) = none := by
  cases hf : Pattern.first? (c :: text) with
  | none => rfl
  | some found =>
    obtain ⟨p, piece⟩ := found
    have hp := Pattern.matched?_of_first? hf
    cases p with
    | blank | lineComment | blockComment => exact absurd (by decide) (hb.not_skipped hf)
    | openComment =>
      obtain ⟨body, htext, -⟩ := openComment_of_matched hp
      rw [htext] at hm
      exact absurd ⟨'*' :: body, rfl⟩ (hm .slash)
    | word =>
      rw [Pattern.matched?, hw] at hp
      cases hp
    | digits =>
      rw [Pattern.matched?, run?, List.takeWhile_cons, hd] at hp
      cases hp
    | quoted => simp [Pattern.matched?, hq] at hp
    | openQuote =>
      obtain ⟨literal, htext, -⟩ := openQuote_of_matched hp
      exact absurd (List.cons.inj htext).1 hq
    | mark m =>
      rw [Pattern.matched?] at hp
      split at hp
      · rename_i h
        exact absurd (List.isPrefixOf_iff_prefix.1 h) (hm m)
      · cases hp

theorem first_openComment (h : ¬ ['*', '/'] <:+: body) :
    Pattern.first? ('/' :: '*' :: body) = some (.openComment, ['/', '*']) := by
  have hm : Pattern.blockComment.matched? ('/' :: '*' :: body) = none :=
    congrArg (Option.map ('/' :: '*' :: ·)) (commentEnd_eq_none.2 h)
  rw [Pattern.first?, Pattern.table, List.findSome?_cons, List.findSome?_cons,
    List.findSome?_cons, hm]
  rfl

theorem first_openQuote (h : '"' ∉ text) :
    Pattern.first? ('"' :: text) = some (.openQuote, ['"']) := by
  have hm : Pattern.quoted.matched? ('"' :: text) = none := by simp [Pattern.matched?, h]
  simp only [Pattern.first?, Pattern.table, List.findSome?_cons, hm]
  rfl

theorem notDigit_of_start (h : isWordStart c) : c.isDigit = false := by
  cases hd : c.isDigit with
  | false => rfl
  | true =>
    rw [notStart_of_digit hd] at h
    cases h

theorem reading_glued {digits : List Char} (hd : digits.all Char.isDigit) (hc : isWordStart c) :
    Pattern.digits.reading digits (c :: text) = .refused
      (.malformedNumber (String.ofList ((digits ++ c :: text).takeWhile isWordPart))) := by
  have hrun : (digits ++ c :: text).takeWhile isWordPart =
      digits ++ (c :: text).takeWhile isWordPart :=
    List.takeWhile_append_of_pos fun d hm => wordPart_of_digit (List.all_eq_true.1 hd d hm)
  have hglued : ((c :: text).takeWhile isWordPart).any isWordStart := by
    rw [List.takeWhile_cons_of_pos (wordPart_of_start hc), List.any_cons, hc]
    rfl
  rw [Pattern.reading, Pattern.ofDigits, if_pos hglued, hrun]

theorem start_of_glued (hrest : ∀ c ∈ rest.head?, c.isDigit = false)
    (hr : Pattern.digits.reading piece rest = .refused cause) :
    ∃ c text, rest = c :: text ∧ isWordStart c := by
  rw [Pattern.reading, Pattern.ofDigits] at hr
  split at hr
  case isFalse => cases hr
  case isTrue hglued =>
    cases rest with
    | nil => cases hglued
    | cons c text =>
      refine ⟨c, text, rfl, Decidable.byContradiction fun hs => ?_⟩
      by_cases hp : isWordPart c
      · have hd := digit_of_wordPart hp (Bool.eq_false_iff.2 hs)
        rw [hrest c rfl] at hd
        cases hd
      · rw [List.takeWhile_cons_of_neg hp] at hglued
        cases hglued

/-- A text that is to be refused is refused where it stands. -/
theorem Refused.step (h : Refused l.rest cause) (hb : Bare l.rest) :
    Step l (.error ⟨cause, l.position⟩) l := by
  generalize ht : l.rest = text at h
  cases h with
  | openComment h =>
    have hf := first_openComment h
    rw [← ht] at hf
    exact .refused hf rfl
  | @openQuote literal h =>
    have hf := first_openQuote h
    rw [← ht] at hf
    have hrest : (l.skip ['"'].length).rest = literal := skip_rest ht
    refine .refused hf ?_
    rw [Pattern.reading, hrest]
  | @number digits text c hn hd hc =>
    obtain ⟨d, ds, rfl⟩ := List.exists_cons_of_ne_nil hn
    have hall := hd
    rw [List.all_cons, Bool.and_eq_true] at hall
    have hf : Pattern.first? l.rest = some (.digits, d :: ds) := by
      rw [ht]
      apply first_digits hall.1 hall.2
      rintro a ⟨⟩
      exact notDigit_of_start hc
    refine .refused hf ?_
    rw [skip_rest ht]
    exact reading_glued hd hc
  | @stray c text hw hd hq hm =>
    rw [ht] at hb
    have hf := first_stray hb hw hd hq hm
    rw [← ht] at hf
    have hstep := Step.unrecognised (l := l) (by rw [ht]; exact List.cons_ne_nil _ _) hf
    rwa [ht] at hstep

theorem refused_of_none (h : Pattern.first? (c :: text) = none) :
    Refused (c :: text) (.unrecognised (String.ofList [c])) := by
  have hnone := matched_of_none h
  have hw : isWordStart c = false := by
    apply Bool.eq_false_iff.2
    intro hc
    have hm := hnone .word
    rw [Pattern.matched?, if_pos hc] at hm
    cases hm
  have hd : c.isDigit = false := by
    apply Bool.eq_false_iff.2
    intro hc
    have hm := hnone .digits
    rw [Pattern.matched?, run?, List.takeWhile_cons_of_pos hc] at hm
    cases hm
  refine .stray hw hd ?_ fun m hp => ?_
  · rintro rfl
    cases hnone .openQuote
  · have hm := hnone (.mark m)
    rw [Pattern.matched?, if_pos (List.isPrefixOf_iff_prefix.2 hp)] at hm
    cases hm

/-- A refusal of the reader is one of those of a bare text. -/
theorem refused_of_reading (hb : Bare (piece ++ rest))
    (hf : Pattern.first? (piece ++ rest) = some (p, piece))
    (hr : p.reading piece rest = .refused cause) : Refused (piece ++ rest) cause := by
  have hm := Pattern.matched?_of_first? hf
  cases p with
  | blank | lineComment | blockComment | word | quoted | mark => cases hr
  | openComment =>
    cases hr
    obtain ⟨body, htext, -⟩ := openComment_of_matched hm
    rw [htext]
    exact .openComment (hb.block body htext)
  | digits =>
    obtain ⟨hne, hall, hrest⟩ := digits_of_matched hm
    obtain ⟨c, text, rfl, hc⟩ := start_of_glued hrest hr
    rw [reading_glued hall hc] at hr
    cases hr
    exact .number hne hall hc
  | openQuote =>
    cases hr
    obtain ⟨literal, htext, rfl⟩ := openQuote_of_matched hm
    obtain rfl : rest = literal := (List.cons.inj htext).2
    refine .openQuote fun hq => ?_
    obtain ⟨before, behind, rfl, hn⟩ := List.eq_append_cons_of_mem hq
    cases hf.symm.trans (first_quoted hn)

/-- What the reader answers where a bare text begins. -/
theorem verdict_of_step (h : Step l e after) (hb : Bare l.rest) :
    (l.rest = [] ∧ e = .ok (.eof l.position) ∧ after = l) ∨
    (∃ cause, Refused l.rest cause ∧ e = .error ⟨cause, l.position⟩ ∧ after = l) ∨
    ∃ t, e = .ok t ∧ t.kind ≠ .eof := by
  cases h with
  | ending h => exact .inl ⟨h, rfl, rfl⟩
  | unrecognised hn hf =>
    obtain ⟨c, text, ht⟩ := List.exists_cons_of_ne_nil hn
    rw [ht] at hf ⊢
    exact .inr (.inl ⟨_, refused_of_none hf, rfl, rfl⟩)
  | skipped hf hr hs => exact absurd (reading_eq_skipped_iff.1 hr) (hb.not_skipped hf)
  | token hf hr => exact .inr (.inr ⟨_, rfl, Pattern.reading_ne_eof hr⟩)
  | @refused _ p piece cause hf hr =>
    refine .inr (.inl ⟨cause, ?_, rfl, rfl⟩)
    obtain ⟨ht, -⟩ := rest_of_first hf
    rw [ht] at hf hb ⊢
    exact refused_of_reading hb hf hr

theorem Bare.refusal (hb : Bare l.rest) (d : Diagnostic) :
    l.next.1 = .error d ↔ Refused l.rest d.cause ∧ d.position = l.position := by
  constructor
  · intro hd
    obtain ⟨-, he, -⟩ | ⟨cause, hc, he, -⟩ | ⟨t, he, -⟩ := verdict_of_step (step_of_next rfl) hb
    · cases he.symm.trans hd
    · cases he.symm.trans hd
      exact ⟨hc, rfl⟩
    · cases he.symm.trans hd
  · rintro ⟨hc, hp⟩
    obtain ⟨cause, place⟩ := d
    obtain rfl : place = l.position := hp
    rw [(hc.step hb).next]

theorem Bare.ending (hb : Bare l.rest) :
    l.next.1 = .ok (.eof l.position) ↔ l.rest = [] := by
  constructor
  · intro ht
    obtain ⟨hl, -, -⟩ | ⟨cause, -, he, -⟩ | ⟨t, he, hk⟩ := verdict_of_step (step_of_next rfl) hb
    · exact hl
    · cases he.symm.trans ht
    · cases he.symm.trans ht
      exact absurd rfl hk
  · intro hl
    rw [(Step.ending hl).next]

theorem Bare.token (hb : Bare l.rest) : (∃ t, l.next.1 = .ok t ∧ t.kind ≠ .eof) ↔
    l.rest ≠ [] ∧ ∀ cause, ¬ Refused l.rest cause := by
  constructor
  · rintro ⟨t, ht, hk⟩
    refine ⟨fun hl => ?_, fun cause hc => ?_⟩
    · cases (hb.ending.2 hl).symm.trans ht
      exact hk rfl
    · cases ((hb.refusal ⟨cause, l.position⟩).2 ⟨hc, rfl⟩).symm.trans ht
  · rintro ⟨hl, hc⟩
    obtain ⟨hn, -, -⟩ | ⟨cause, h, -, -⟩ | ht := verdict_of_step (step_of_next rfl) hb
    · exact absurd hn hl
    · exact absurd h (hc cause)
    · exact ht

theorem Bare.stays (hb : Bare l.rest) (h : Final l.next.1) : l.next.2 = l := by
  obtain ⟨-, -, hl⟩ | ⟨cause, -, -, hl⟩ | ⟨t, ht, hk⟩ := verdict_of_step (step_of_next rfl) hb
  · exact hl
  · exact hl
  · exact absurd (h t ht) hk

theorem Stripped.next (h : Stripped l.rest w r) : ∃ m : Lexer, l.next = m.next ∧ m.rest = r ∧
    m.position = l.position.afterText w :=
  ⟨l.skip w.length, next_trivia h.trivia h.text, skip_rest h.text, skip_position h.text⟩

theorem toNat_of_wordPart (h : isWordPart c) : c.toNat ≤ 127 := by
  simp only [isWordPart, Char.isAlphanum, Bool.or_eq_true, beq_iff_eq] at h
  obtain (halpha | hdigit) | rfl := h
  · obtain hupper | hlower := Bool.or_eq_true_iff.1 halpha
    · have hle := (of_decide_eq_true hupper).2
      exact Nat.le_trans (UInt32.le_iff_toNat_le.1 hle) (by decide)
    · have hle := of_decide_eq_true (Bool.and_eq_true_iff.1 hlower).2
      exact Nat.le_trans (UInt32.le_iff_toNat_le.1 hle) (by decide)
  · have hle := of_decide_eq_true (Bool.and_eq_true_iff.1 hdigit).2
    exact Nat.le_trans (UInt32.le_iff_toNat_le.1 hle) (by decide)
  · decide

theorem toNat_of_spelling (m : Mark) : ∀ c ∈ m.spelling.toList, c.toNat ≤ 127 := by
  have hall : m.spelling.toList.all (fun c => c.toNat ≤ 127) := by cases m <;> rfl
  intro c hc
  exact of_decide_eq_true (List.all_eq_true.1 hall c hc)

/-- A character outside the ASCII range is stray, and so is a lone exclamation mark. -/
theorem refused_of_foreign (h : 127 < c.toNat ∨ c = '!' ∧ text.head? ≠ some '=') :
    Refused (c :: text) (.unrecognised (String.ofList [c])) := by
  obtain h | ⟨rfl, h⟩ := h
  · have hpart : isWordPart c = false := by
      apply Bool.eq_false_iff.2
      intro hp
      have hle := toNat_of_wordPart hp
      omega
    have hstart : isWordStart c = false := by
      apply Bool.eq_false_iff.2
      intro hs
      rw [wordPart_of_start hs] at hpart
      cases hpart
    refine .stray hstart (notDigit_of_notWordPart hpart) ?_ fun m hm => ?_
    · rintro rfl
      exact absurd h (by decide)
    · obtain ⟨d, ds, hd⟩ := List.exists_cons_of_ne_nil m.spelling_ne_nil
      rw [hd] at hm
      obtain rfl := (List.cons_prefix_cons.1 hm).1
      have hle := toNat_of_spelling m d (by rw [hd]; exact List.mem_cons_self)
      omega
  · refine .stray rfl rfl (by decide) fun m hm => ?_
    cases m with
    | notEquals =>
      obtain ⟨rest, hrest⟩ := (List.cons_prefix_cons.1 hm).2
      rw [← hrest] at h
      exact h rfl
    | _ => exact absurd (List.cons_prefix_cons.1 hm).1 (by decide)

theorem item_of_unfinished (hl : l.finished = false) :
    ∃ b, l.item = (some l.next.1, { l.next.2 with finished := b }) ∧ (b ↔ Final l.next.1) := by
  rw [Lexer.item, hl, if_neg Bool.false_ne_true]
  generalize l.next = answer
  obtain ⟨e, after⟩ := answer
  refine ⟨_, rfl, ?_⟩
  cases e with
  | ok t => simp [Final, Token.isEof]
  | error d => simp [final_error]

theorem after_final (h : Final l.next.1) (n : Nat) :
    answer l n = l.next.1 ∧ Supply.after (n + 1) l = l.next.2 := by
  have hstays : l.next.2.next = (l.next.1, l.next.2) := next_stays rfl h
  refine ⟨answer_final (n := 0) h (Nat.zero_le n), ?_⟩
  induction n with
  | zero => rfl
  | succ n ih => rw [after_succ, ih, hstays]

/-- Blanks and complete comments can be taken off a text in front of the reader, and what is left
settles the answer: the end token if nothing is left, an error if it is to be refused, and a token
otherwise. An end and an error leave the reader where the text that is left begins, so that they are
the answer for ever. A sequence hands them on as its last item. -/
theorem next_verdict (l : Lexer) :
    (∃ w r, Stripped l.rest w r) ∧
    (∀ w r, Stripped l.rest w r →
      (l.next.1 = .ok (.eof (l.position.afterText w)) ↔ r = []) ∧
      (∀ d, l.next.1 = .error d ↔ Refused r d.cause ∧ d.position = l.position.afterText w) ∧
      ((∃ t, l.next.1 = .ok t ∧ t.kind ≠ .eof) ↔ r ≠ [] ∧ ∀ cause, ¬ Refused r cause) ∧
      (Final l.next.1 → l.next.2.rest = r ∧ l.next.2.position = l.position.afterText w)) ∧
    (∀ c text, 127 < c.toNat ∨ c = '!' ∧ text.head? ≠ some '=' →
      Refused (c :: text) (.unrecognised (String.ofList [c]))) ∧
    (Final l.next.1 → ∀ n, answer l n = l.next.1 ∧ Supply.after (n + 1) l = l.next.2) ∧
    (l.finished = false → ∃ b, l.item = (some l.next.1, { l.next.2 with finished := b }) ∧
      (b ↔ Final l.next.1)) ∧
    (l.finished = true → l.item = (none, l)) := by
  refine ⟨stripped_of_step (step_of_next rfl), fun w r h => ?_, fun _ _ => refused_of_foreign,
    after_final, item_of_unfinished, fun hl => ?_⟩
  · obtain ⟨m, hnext, rfl, hp⟩ := h.next
    rw [hnext, ← hp]
    refine ⟨h.bare.ending, h.bare.refusal, h.bare.token, fun hf => ?_⟩
    rw [h.bare.stays hf]
    exact ⟨rfl, rfl⟩
  · rw [Lexer.item, if_pos hl]

/-- Behind a comment and a blank, a number that goes on with a letter. -/
def beforeGlued : Lexer := Lexer.ofString "/**/ 1x" none

theorem next_verdict_glued :
    Stripped beforeGlued.rest "/**/ ".toList "1x".toList ∧
    beforeGlued.next.1 = .error ⟨.malformedNumber "1x", ⟨0, 5⟩⟩ ∧
    (∀ n, answer beforeGlued n = .error ⟨.malformedNumber "1x", ⟨0, 5⟩⟩) ∧
    beforeGlued.next.2.rest = "1x".toList ∧
    ∃ last, beforeGlued.item = (some (.error ⟨.malformedNumber "1x", ⟨0, 5⟩⟩), last) ∧
      last.item = (none, last) := by
  have hw : Trivia "1x".toList "/**/ ".toList :=
    .blockComment (show ¬ ['*', '/'] <:+: [] ++ ['*'] by decide)
      (.blank (c := ' ') (by decide) .nil)
  have hblank : ∀ c ∈ "1x".toList.head?, c ∉ [' ', '\t', '\r', '\n'] := by
    rintro c ⟨⟩
    decide
  have hb : Bare "1x".toList := ⟨hblank, by decide, fun _ h => nomatch h⟩
  have hs : Stripped beforeGlued.rest "/**/ ".toList "1x".toList := ⟨rfl, hw, hb⟩
  have hr : Refused "1x".toList (.malformedNumber "1x") :=
    .number (List.cons_ne_nil '1' []) rfl rfl
  obtain ⟨-, hstripped, -, hfinal, hitem, -⟩ := next_verdict beforeGlued
  obtain ⟨-, herror, -, hstays⟩ := hstripped _ _ hs
  have hd : beforeGlued.next.1 = .error ⟨.malformedNumber "1x", ⟨0, 5⟩⟩ := (herror _).2 ⟨hr, rfl⟩
  have hf : Final beforeGlued.next.1 := hd ▸ final_error _
  obtain ⟨b, hi, hlast⟩ := hitem rfl
  obtain ⟨-, -, -, -, -, hnone⟩ := next_verdict { beforeGlued.next.2 with finished := b }
  rw [hd] at hi
  exact ⟨hs, hd, fun n => (hfinal hf n).1.trans hd, (hstays hf).1, _, hi, hnone (hlast.2 hf)⟩

end ModuleSyntax.Proofs.Verdicts
