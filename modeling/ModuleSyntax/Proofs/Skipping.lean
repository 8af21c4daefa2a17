import ModuleSyntax.Proofs.Separation
import ModuleSyntax.Proofs.Steps

namespace ModuleSyntax.Proofs.Skipping

open Separation Steps

/-- Blanks and comments one after another, before the text `ahead`. A line comment runs up to a
line feed or to the end of all text, any other comment to the first place that ends it. -/
inductive Trivia (ahead : List Char) : List Char → Prop
  | nil : Trivia ahead []
  | blank {c : Char} {w : List Char} (hc : c ∈ [' ', '\t', '\r', '\n']) (hw : Trivia ahead w) :
      Trivia ahead (c :: w)
  | lineComment {body w : List Char} (hb : '\n' ∉ body) (he : ∀ c ∈ (w ++ ahead).head?, c = '\n')
      (hw : Trivia ahead w) : Trivia ahead ('/' :: '/' :: body ++ w)
  | blockComment {body w : List Char} (hb : ¬ ['*', '/'] <:+: body ++ ['*'])
      (hw : Trivia ahead w) : Trivia ahead ('/' :: '*' :: body ++ ['*', '/'] ++ w)

variable {ahead w text piece : List Char}

theorem isBlank_iff {c : Char} : isBlank c ↔ c ∈ [' ', '\t', '\r', '\n'] := by
  simp only [isBlank, Bool.or_eq_true, beq_iff_eq, List.mem_cons, List.not_mem_nil, or_false,
    or_assoc]

theorem Trivia.blanks (hp : piece.all isBlank) (hw : Trivia ahead w) :
    Trivia ahead (piece ++ w) := by
  induction piece with
  | nil => exact hw
  | cons c piece ih =>
    rw [List.all_cons, Bool.and_eq_true] at hp
    exact .blank (isBlank_iff.1 hp.1) (ih hp.2)

/-- Of what follows trivia only the first character matters. -/
theorem Trivia.congr (hw : Trivia ahead w) (h : text.head? = ahead.head?) : Trivia text w := by
  induction hw with
  | nil => exact .nil
  | blank hc hw ih => exact .blank hc ih
  | @lineComment body w hb he hw ih =>
    refine .lineComment hb ?_ ih
    cases w with
    | nil =>
      rw [List.nil_append, h]
      exact he
    | cons c w => exact he
  | blockComment hb hw ih => exact .blockComment hb ih

theorem blanks_of_matched (h : Pattern.blank.matched? text = some piece) : piece.all isBlank := by
  simp only [Pattern.matched?, run?] at h
  split at h <;> cases h
  exact List.all_takeWhile

theorem lineComment_of_matched (h : Pattern.lineComment.matched? text = some piece) :
    ∃ body rest, text = piece ++ rest ∧ piece = '/' :: '/' :: body ∧ '\n' ∉ body ∧
      ∀ c ∈ rest.head?, c = '\n' := by
  unfold Pattern.matched? at h
  split at h
  case h_2 rest _ =>
    cases h
    have hs := List.takeWhile_append_dropWhile (p := (· ≠ '\n')) (l := rest)
    refine ⟨rest.takeWhile (· ≠ '\n'), rest.dropWhile (· ≠ '\n'), ?_, rfl, ?_, ?_⟩
    · rw [List.cons_append, List.cons_append, hs]
    · intro hm
      simpa using List.all_eq_true.1 List.all_takeWhile _ hm
    · intro c hc
      have hn := List.head?_dropWhile_not (· ≠ '\n') rest
      rw [hc] at hn
      simpa using hn
  all_goals simp_all

theorem commentEnd_first (h : throughCommentEnd? text = some piece) :
    ∃ body, piece = body ++ ['*', '/'] ∧ ¬ ['*', '/'] <:+: body ++ ['*'] := by
  fun_induction throughCommentEnd? text generalizing piece with
  | case1 => cases h
  | case2 text =>
    cases h
    refine ⟨[], rfl, fun hi => ?_⟩
    have hl := hi.length_le
    simp at hl
  | case3 c text hne ih =>
    obtain ⟨piece, hp, rfl⟩ := Option.map_eq_some_iff.1 h
    obtain ⟨body, rfl, hb⟩ := ih hp
    refine ⟨c :: body, rfl, fun hi => ?_⟩
    obtain hi | hi := List.infix_cons_iff.1 hi
    · -- an end that begins here would have been taken here
      obtain ⟨rest, hr⟩ := throughCommentEnd?_isPrefix hp
      cases body with
      | nil => simp [List.cons_prefix_cons] at hi
      | cons d body =>
        obtain ⟨hc, hi⟩ := List.cons_prefix_cons.1 hi
        obtain ⟨rfl, -⟩ := List.cons_prefix_cons.1 hi
        exact hne _ hc.symm hr.symm
    · exact hb hi

theorem blockComment_of_matched (h : Pattern.blockComment.matched? text = some piece) :
    ∃ body, piece = '/' :: '*' :: body ++ ['*', '/'] ∧ ¬ ['*', '/'] <:+: body ++ ['*'] := by
  unfold Pattern.matched? at h
  split at h
  case h_3 rest _ =>
    obtain ⟨piece, hp, rfl⟩ := Option.map_eq_some_iff.1 h
    obtain ⟨body, rfl, hb⟩ := commentEnd_first hp
    exact ⟨body, rfl, hb⟩
  all_goals simp_all

theorem Trivia.skipped {p : Pattern} {rest : List Char} (hm : p.matched? text = some piece)
    (ht : text = piece ++ (w ++ ahead)) (hr : p.reading piece rest = .skipped)
    (hw : Trivia ahead w) : Trivia ahead (piece ++ w) := by
  cases p with
  | blank => exact hw.blanks (blanks_of_matched hm)
  | lineComment =>
    obtain ⟨body, rest, rfl, rfl, hb, he⟩ := lineComment_of_matched hm
    rw [List.append_cancel_left ht] at he
    exact .lineComment hb he hw
  | blockComment =>
    obtain ⟨body, rfl, hb⟩ := blockComment_of_matched hm
    exact .blockComment hb hw
  | digits =>
    simp only [Pattern.reading, Pattern.ofDigits] at hr
    split at hr <;> cases hr
  | openComment | word | quoted | openQuote | mark => cases hr

theorem written_of_reading {p : Pattern} {rest : List Char} {k : Kind} {value : String}
    (hm : p.matched? text = some piece) (hr : p.reading piece rest = .token k value) :
    Token.written k value = piece := by
  cases p with
  | blank | lineComment | blockComment | openComment | openQuote => cases hr
  | word =>
    cases hr
    unfold Kind.ofWord
    cases Keyword.ofWord? (String.ofList piece) <;> exact String.toList_ofList
  | digits =>
    simp only [Pattern.reading, Pattern.ofDigits] at hr
    split at hr <;> cases hr
    exact String.toList_ofList
  | quoted =>
    cases hr
    unfold Pattern.matched? at hm
    split at hm
    case h_7 rest _ =>
      split at hm <;> cases hm
      simp [Token.written]
    all_goals simp_all
  | mark m =>
    cases hr
    simp only [Pattern.matched?] at hm
    split at hm <;> cases hm
    rfl

def found : Except Diagnostic Token → List Char
  | .ok t => t.lexeme
  | .error _ => []

/-- The reader passes over the trivia `w` and over what it finds. -/
structure Passes (l : Lexer) (w : List Char) (e : Except Diagnostic Token) (after : Lexer) :
    Prop where
  text : l.rest = w ++ (found e ++ after.rest)
  trivia : Trivia (found e ++ after.rest) w
  position : after.position = l.position.afterText (w ++ found e)
  span : ∀ t, e = .ok t → t.span = ⟨l.position.afterText w, after.position⟩
  ending : ∀ t, e = .ok t → t.kind = .eof → t.value = "" ∧ after.rest = []

theorem passes_error (l : Lexer) (d : Diagnostic) : Passes l [] (.error d) l where
  text := rfl
  trivia := .nil
  position := rfl
  span _ ht := by cases ht
  ending _ ht := by cases ht

theorem rest_of_first {l : Lexer} {p : Pattern}
    (h : Pattern.first? l.rest = some (p, piece)) :
    l.rest = piece ++ (l.skip piece.length).rest ∧
      (l.skip piece.length).position = l.position.afterText piece := by
  obtain ⟨rest, hrest⟩ := (Pattern.matched?_isPrefix (Pattern.matched?_of_first? h)).1
  rw [skip_rest hrest.symm, skip_position hrest.symm]
  exact ⟨hrest.symm, rfl⟩

theorem next_passes {l after : Lexer} {e : Except Diagnostic Token} (h : l.next = (e, after)) :
    ∃ w, Passes l w e after := by
  induction step_of_next h with
  | @ending l hl =>
    have hf : found (.ok (Token.eof l.position)) = [] := String.toList_empty
    refine ⟨[], ?_, .nil, ?_, ?_, ?_⟩
    · rw [hf, List.nil_append, List.nil_append]
    · rw [hf]
      rfl
    · rintro t ⟨⟩
      rfl
    · rintro t ⟨⟩ -
      exact ⟨rfl, hl⟩
  | unrecognised | refused => exact ⟨[], passes_error _ _⟩
  | @skipped l after p piece e hf hr hs ih =>
    obtain ⟨htext, hplace⟩ := rest_of_first hf
    obtain ⟨w, hw⟩ := ih hs.next
    rw [hw.text] at htext
    refine ⟨piece ++ w, ?_, ?_, ?_, fun t ht => ?_, hw.ending⟩
    · rw [htext, List.append_assoc]
    · exact hw.trivia.skipped (Pattern.matched?_of_first? hf) htext hr
    · rw [hw.position, hplace, List.append_assoc, ← Position.afterText_append]
    · rw [hw.span t ht, hplace, Position.afterText_append]
  | @token l p piece k value hf hr =>
    obtain ⟨htext, hplace⟩ := rest_of_first hf
    have hw : found (.ok ⟨k, value, l.position, (l.skip piece.length).position⟩) = piece :=
      written_of_reading (Pattern.matched?_of_first? hf) hr
    refine ⟨[], ?_, .nil, ?_, ?_, ?_⟩
    · rw [hw, List.nil_append]
      exact htext
    · rw [hw, hplace, List.nil_append]
    · rintro t ⟨⟩
      rfl
    · rintro t ⟨⟩ hk
      exact absurd hk (Pattern.reading_ne_eof hr)

variable {l after : Lexer} {t : Token}

theorem Passes.start (h : Passes l w (.ok t) after) :
    t.span.start = l.position.afterText w := by rw [h.span t rfl]

theorem Passes.stop (h : Passes l w (.ok t) after) : t.span.stop = after.position := by
  rw [h.span t rfl]

theorem Passes.scanned (h : Passes l w (.ok t) after) :
    t.span.stop = t.span.start.afterText t.lexeme := by
  have hposition := h.position
  rwa [Position.afterText_append, ← h.start, ← h.stop] at hposition

theorem Passes.last (h : Passes l w (.ok t) after) (ht : t.kind = .eof) :
    l.rest = w ∧ Trivia [] w ∧ t.lexeme = [] ∧ after.rest = [] := by
  obtain ⟨hv, hrest⟩ := h.ending t rfl ht
  have hl : t.lexeme = [] := by simp [Token.lexeme, Token.written, ht, hv]
  have htext := h.text
  have htrivia := h.trivia
  rw [found, hl, hrest, List.append_nil] at htext htrivia
  rw [List.append_nil] at htext
  exact ⟨htext, htrivia, hl, hrest⟩

end ModuleSyntax.Proofs.Skipping
