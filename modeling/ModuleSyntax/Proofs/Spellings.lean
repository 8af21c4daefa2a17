import ModuleSyntax.Proofs.Lossless
import ModuleSyntax.Proofs.Sources

namespace ModuleSyntax.Proofs.Spellings

open Symbols Lexemes Separation Steps Skipping Showing Acceptance Lossless Sources

/-- What tokens are written as: words, runs of digits, texts between quotes, and marks. -/
inductive Spelling where
  | word (text : String) (h : isName text)
  | digits (text : String) (hn : text ≠ "") (hd : text.toList.all Char.isDigit)
  | quoted (text : String) (h : '"' ∉ text.toList)
  | mark (m : Mark)

namespace Spelling

def chars : Spelling → List Char
  | word text _ | digits text _ _ => text.toList
  | quoted text _ => '"' :: text.toList ++ ['"']
  | mark m => m.spelling.toList

/-- A word is a keyword if it is reserved. The quotes of a text are no part of its value. -/
def symbol : Spelling → Symbol
  | word text _ => (Kind.ofWord text, text)
  | digits text _ _ => (.intLiteral, text)
  | quoted text _ => (.stringLiteral, text)
  | mark m => (.mark m, m.spelling)

def isWordy : Spelling → Bool
  | word .. | digits .. => true
  | quoted .. | mark _ => false

/-- The pairs of spellings that have to be kept apart. -/
def clashes : Spelling → Spelling → Bool
  | mark a, mark b =>
    (a ∈ [Mark.assignment, .less, .greater] && b ∈ [Mark.assignment, .equals]) ||
      (a = .slash && b ∈ [Mark.slash, .star])
  | s, s' => s.isWordy && s'.isWordy

end Spelling

/-- Blanks and comments, every comment to its end. -/
inductive Filling : List Char → Prop
  | nil : Filling []
  | blank {c : Char} {w : List Char} (hc : c ∈ [' ', '\t', '\r', '\n']) (hw : Filling w) :
      Filling (c :: w)
  | lineComment {body w : List Char} (hb : '\n' ∉ body) (hw : Filling w) :
      Filling ('/' :: '/' :: body ++ '\n' :: w)
  | blockComment {body w : List Char} (hb : ¬ ['*', '/'] <:+: body ++ ['*']) (hw : Filling w) :
      Filling ('/' :: '*' :: body ++ ['*', '/'] ++ w)

/-- Spellings one after another. Between two of them there is a blank and perhaps more blanks and
comments, or nothing if they may stand side by side. -/
inductive Joined : List Spelling → List Char → Prop
  | nil : Joined [] []
  | last (s : Spelling) : Joined [s] s.chars
  | apart {s s' : Spelling} {ss : List Spelling} {c : Char} {w text : List Char}
      (hc : c ∈ [' ', '\t', '\r', '\n']) (hw : Filling w) (h : Joined (s' :: ss) text) :
      Joined (s :: s' :: ss) (s.chars ++ (c :: w ++ text))
  | adjacent {s s' : Spelling} {ss : List Spelling} {text : List Char}
      (hs : s.clashes s' = false) (h : Joined (s' :: ss) text) :
      Joined (s :: s' :: ss) (s.chars ++ text)

variable {s s' : Spelling} {ss : List Spelling} {ts : List Symbol} {w text ahead : List Char}
  {source : String} {file : Option String}

theorem written_symbol (s : Spelling) : Token.written s.symbol.1 s.symbol.2 = s.chars := by
  cases s with
  | word text h =>
    rw [Spelling.symbol, Kind.ofWord]
    cases Keyword.ofWord? text <;> rfl
  | digits | quoted | mark => rfl

theorem spelled_symbol (s : Spelling) : Spelled s.symbol := by
  cases s with
  | word text h => exact spelled_word h
  | digits text hn hd => exact ⟨hn, hd⟩
  | quoted text h => exact h
  | mark m => rfl

theorem symbol_ne_eof (s : Spelling) : s.symbol.1 ≠ .eof := by
  cases s with
  | word text h =>
    rw [Spelling.symbol, Kind.ofWord]
    cases Keyword.ofWord? text <;> exact Kind.noConfusion
  | digits | quoted | mark => exact Kind.noConfusion

theorem absorbs_wordPart {c : Char} (hc : isWordPart c) (s : Spelling) :
    absorbs s.symbol.1 c = s.isWordy := by
  cases s with
  | word text h =>
    rw [Spelling.symbol, Kind.ofWord]
    cases Keyword.ofWord? text <;> exact hc
  | digits text hn hd => exact hc
  | quoted text h => rfl
  | mark m =>
    have hne : ∀ d, isWordPart d = false → c ≠ d := by
      rintro d hd rfl
      rw [hc] at hd
      cases hd
    cases m with
    | assignment | less | greater => exact beq_false_of_ne (hne '=' rfl)
    | slash =>
      exact Bool.or_eq_false_iff.2 ⟨beq_false_of_ne (hne '/' rfl), beq_false_of_ne (hne '*' rfl)⟩
    | _ => rfl

theorem absorbs_of_isWordy (hs : s.isWordy) {c : Char} : absorbs s.symbol.1 c = isWordPart c := by
  cases s with
  | word text h =>
    rw [Spelling.symbol, Kind.ofWord]
    cases Keyword.ofWord? text <;> rfl
  | digits text hn hd => rfl
  | quoted | mark => cases hs

theorem absorbs_mark (a b : Mark) : ∃ c cs, b.spelling.toList = c :: cs ∧
    absorbs (.mark a) c = (Spelling.mark a).clashes (.mark b) := by
  cases b <;> refine ⟨_, _, rfl, ?_⟩ <;> cases a <;> rfl

/-- Spellings have to be kept apart if the first would go on with the second. -/
theorem absorbs_first (s s' : Spelling) : ∃ c cs, s'.chars = c :: cs ∧
    absorbs s.symbol.1 c = s.clashes s' := by
  cases s' with
  | word text h =>
    obtain ⟨c, cs, hl, hc, -⟩ := word_of_isName h
    refine ⟨c, cs, hl, ?_⟩
    rw [absorbs_wordPart (wordPart_of_start hc)]
    cases s <;> rfl
  | digits text hn hd =>
    cases hl : text.toList with
    | nil => exact absurd (String.toList_eq_nil_iff.1 hl) hn
    | cons c cs =>
      rw [hl, List.all_cons, Bool.and_eq_true] at hd
      refine ⟨c, cs, hl, ?_⟩
      rw [absorbs_wordPart (wordPart_of_digit hd.1)]
      cases s <;> rfl
  | quoted text h =>
    refine ⟨'"', _, rfl, ?_⟩
    cases s with
    | word | digits => exact absorbs_of_isWordy rfl
    | quoted => rfl
    | mark m => cases m <;> rfl
  | mark b =>
    cases s with
    | word | digits =>
      obtain ⟨c, cs, hl⟩ := List.exists_cons_of_ne_nil b.spelling_ne_nil
      refine ⟨c, cs, hl, (absorbs_of_isWordy rfl).trans ?_⟩
      revert hl
      cases b <;> rintro ⟨⟩ <;> rfl
    | quoted =>
      obtain ⟨c, cs, hl⟩ := List.exists_cons_of_ne_nil b.spelling_ne_nil
      exact ⟨c, cs, hl, rfl⟩
    | mark a => exact absorbs_mark a b

theorem parted_iff : Parted s.symbol.1 (s'.chars ++ text) ↔ s.clashes s' = false := by
  obtain ⟨c, cs, hl, hc⟩ := absorbs_first s s'
  rw [hl, ← hc]
  constructor
  · exact fun h => h c rfl
  · rintro h d ⟨⟩
    exact h

theorem Filling.append (hw : Filling w) (ht : Trivia ahead text) : Trivia ahead (w ++ text) := by
  induction hw with
  | nil => exact ht
  | blank hc hw ih => exact .blank hc ih
  | @lineComment body w hb hw ih =>
    have hend : Trivia ahead ('\n' :: (w ++ text)) := .blank (by simp) ih
    rw [List.append_assoc]
    exact .lineComment hb (by rintro c ⟨⟩; rfl) hend
  | blockComment hb hw ih =>
    rw [List.append_assoc]
    exact .blockComment hb ih

theorem Filling.shows (hw : Filling w) (ht : Shows ts text) : Shows ts (w ++ text) := by
  cases ht with
  | last ht => exact .last (hw.append ht)
  | next ht hs hk hp hr =>
    rw [← List.append_assoc]
    exact .next (hw.append ht) hs hk hp hr

theorem Joined.first (h : Joined (s :: ss) text) : ∃ rest, text = s.chars ++ rest := by
  cases h with
  | last => exact ⟨[], (List.append_nil _).symm⟩
  | apart => exact ⟨_, rfl⟩
  | adjacent => exact ⟨_, rfl⟩

theorem shows_cons (hp : Parted s.symbol.1 text) (ht : Shows ts text) :
    Shows (s.symbol :: ts) (s.chars ++ text) := by
  rw [← written_symbol s]
  exact .next .nil (spelled_symbol s) (symbol_ne_eof s) hp ht

/-- Spellings that are kept apart where they have to be show what they spell. -/
theorem Joined.shows (h : Joined ss text) : Shows (ss.map Spelling.symbol) text := by
  induction h with
  | nil => exact .last .nil
  | last s =>
    rw [← List.append_nil s.chars]
    exact shows_cons (fun _ hc => nomatch hc) (.last .nil)
  | @apart s s' ss c w text hc hw h ih =>
    have hblank : isBlank c := isBlank_iff.2 hc
    refine shows_cons ?_ ((Filling.blank hc hw).shows ih)
    rintro d ⟨⟩
    exact not_absorbs_blank hblank _
  | adjacent hs h ih =>
    obtain ⟨rest, rfl⟩ := h.first
    exact shows_cons (parted_iff.2 hs) ih

theorem run_shows {l last : Lexer} {us : List Token} {t : Token}
    (h : Run l us (.ok t) last) : Shows (us.map symbol) l.rest := by
  generalize he : Except.ok t = e at h
  induction h with
  | @stop l after e h hfinal =>
    subst he
    obtain ⟨w, hw⟩ := next_passes h
    obtain ⟨hl, htrivia, -, -⟩ := hw.last (hfinal t rfl)
    rw [hl]
    exact .last htrivia
  | step h hk hr ih =>
    obtain ⟨w, hw⟩ := next_passes h
    rw [hw.text]
    exact .next hw.trivia (next_spelled h) hk (parted_of_next h hk) (ih he)

/-- A source shows the symbols that it is read as, and no others. -/
theorem tokenize_iff_shows : (∃ us, tokenize source file = .ok us ∧
    us.map symbol = ts ++ [(.eof, "")]) ↔ Shows ts source.toList := by
  constructor
  · rintro ⟨us, hus, hmap⟩
    obtain ⟨e, he, rfl⟩ := complete_eq_ok.1 hus
    obtain ⟨last, hr⟩ := run_stream (Lexer.ofString source file)
    rw [List.map_append, List.map_singleton] at hmap
    rw [← (List.append_inj' hmap rfl).1]
    rw [he] at hr
    exact run_shows hr
  · exact fun h => tokenize_shows h file

theorem parted_of_shows (h : Shows [s.symbol, s'.symbol] (s.chars ++ s'.chars)) :
    s.clashes s' = false := by
  generalize htext : s.chars ++ s'.chars = text at h
  cases h with
  | @next _ _ w _ hw hs hk hp ht =>
    cases ht with
    | @next _ _ w' _ hw' hs' hk' hp' ht' =>
      cases ht' with
      | @last w'' hw'' =>
        -- what is written fills the text, so there is nothing between
        rw [written_symbol, written_symbol] at htext
        have hlength := congrArg List.length htext
        simp only [List.length_append] at hlength
        obtain rfl : w' = [] := List.length_eq_zero_iff.1 (by omega)
        rw [written_symbol] at hp
        exact parted_iff.1 hp

/-- The spellings of `x=-1/ //half` and, on the next line, `2`. -/
def quotient : List Spelling :=
  [.word "x" rfl, .mark .assignment, .mark .dash, .digits "1" (by decide) rfl, .mark .slash,
    .digits "2" (by decide) rfl]

end ModuleSyntax.Proofs.Spellings
