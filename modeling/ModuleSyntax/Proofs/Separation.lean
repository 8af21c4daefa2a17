import ModuleSyntax.Proofs.Symbols

namespace ModuleSyntax.Proofs.Separation

open Symbols

/-- The characters that a token of a kind does not stop before: they would become part of it, make
another token of it, or have it refused. -/
def absorbs : Kind → Char → Bool
  | .identifier, c | .keyword _, c | .intLiteral, c => isWordPart c
  | .mark .assignment, c | .mark .less, c | .mark .greater, c => c == '='
  | .mark .slash, c => c == '/' || c == '*'
  | _, _ => false

/-- A token of the kind stops before the text. -/
def Parted (k : Kind) (text : List Char) : Prop := ∀ c ∈ text.head?, absorbs k c = false

variable {p : Pattern} {k : Kind} {v : String} {text piece rest : List Char}

/-- Only the first character of what follows a token matters to it. -/
theorem Parted.append (h : Parted k text) {c : Char} (hc : absorbs k c = false) :
    Parted k (text ++ c :: rest) := by
  cases text with
  | nil =>
    rintro d ⟨⟩
    exact hc
  | cons d text =>
    rintro e ⟨⟩
    exact h d rfl

theorem takeWhile_append {q : Char → Bool} {run text : List Char} (hr : run.all q)
    (ht : ∀ c ∈ text.head?, q c = false) : (run ++ text).takeWhile q = run := by
  rw [List.takeWhile_append_of_pos fun c hc => List.all_eq_true.1 hr c hc]
  cases text with
  | nil => simp
  | cons c cs => simp [ht c rfl]

theorem notWordPart_of_blank {c : Char} (h : isBlank c) : isWordPart c = false := by
  simp only [isBlank, Bool.or_eq_true, beq_iff_eq] at h
  obtain ((rfl | rfl) | rfl) | rfl := h <;> rfl

theorem notBlank_of_wordPart {c : Char} (h : isWordPart c) : isBlank c = false := by
  cases hb : isBlank c with
  | false => rfl
  | true =>
    rw [notWordPart_of_blank hb] at h
    cases h

theorem notDigit_of_notWordPart {c : Char} (h : isWordPart c = false) : c.isDigit = false := by
  cases hd : c.isDigit with
  | false => rfl
  | true =>
    rw [isWordPart, Char.isAlphanum, hd] at h
    simp at h

theorem wordPart_of_start {c : Char} (h : isWordStart c) : isWordPart c := by
  simp only [isWordStart, isWordPart, Char.isAlphanum, Bool.or_eq_true] at h ⊢
  obtain h | h := h
  · exact .inl (.inl h)
  · exact .inr h

theorem wordPart_of_digit {c : Char} (h : c.isDigit) : isWordPart c := by
  simp [isWordPart, Char.isAlphanum, h]

theorem digit_of_wordPart {c : Char} (h : isWordPart c) (hs : isWordStart c = false) :
    c.isDigit := by
  simp only [isWordPart, isWordStart, Char.isAlphanum, Bool.or_eq_true, Bool.or_eq_false_iff]
    at h hs
  obtain (h | h) | h := h
  · rw [hs.1] at h
    cases h
  · exact h
  · rw [hs.2] at h
    cases h

theorem notStart_of_digit {c : Char} (h : c.isDigit) : isWordStart c = false := by
  have hu : c ≠ '_' := by
    rintro rfl
    cases h
  simp only [Char.isDigit, Bool.and_eq_true, decide_eq_true_eq, UInt32.le_iff_toNat_le] at h
  have hupper : '9'.val.toNat < 'A'.val.toNat := by decide
  have hlower : '9'.val.toNat < 'a'.val.toNat := by decide
  have hu' : c.isUpper = false := decide_eq_false fun h' => by
    have hle := UInt32.le_iff_toNat_le.1 h'.1
    omega
  have hl' : decide (c.val ≥ 'a'.val) = false := decide_eq_false fun h' => by
    have hle := UInt32.le_iff_toNat_le.1 h'
    omega
  have hletter : c.isAlpha =
      (c.isUpper || decide (c.val ≥ 'a'.val) && decide (c.val ≤ 'z'.val)) := rfl
  rw [isWordStart, hletter, hu', hl', beq_false_of_ne hu]
  rfl

theorem not_absorbs_blank {c : Char} (h : isBlank c) (k : Kind) : absorbs k c = false := by
  have hpart := notWordPart_of_blank h
  simp only [isBlank, Bool.or_eq_true, beq_iff_eq] at h
  cases k with
  | identifier | keyword | intLiteral => exact hpart
  | eof | stringLiteral => rfl
  | mark m => obtain ((rfl | rfl) | rfl) | rfl := h <;> cases m <;> rfl

theorem not_longer {m : Mark} {c d e : Char} (hm : m.spelling.toList = [d, e]) (hc : c ≠ e) :
    (Pattern.mark m).matched? (d :: c :: text) = none := by
  simp [Pattern.matched?, hm, Ne.symm hc]

/-- A mark is read as such, unless it begins a longer mark or a comment. -/
theorem first_mark (m : Mark) (h : Parted (.mark m) text) :
    Pattern.first? (m.spelling.toList ++ text) = some (.mark m, m.spelling.toList) := by
  cases text with
  | nil => cases m <;> rfl
  | cons c text =>
    have hc : absorbs (.mark m) c = false := h c rfl
    cases m with
    | assignment =>
      have hlonger : (Pattern.mark .equals).matched? ('=' :: c :: text) = none :=
        not_longer rfl (ne_of_beq_false hc)
      change Pattern.first? ('=' :: c :: text) = _
      simp only [Pattern.first?, Pattern.table, List.findSome?_cons, hlonger]
      rfl
    | less =>
      have hlonger : (Pattern.mark .lessEquals).matched? ('<' :: c :: text) = none :=
        not_longer rfl (ne_of_beq_false hc)
      change Pattern.first? ('<' :: c :: text) = _
      simp only [Pattern.first?, Pattern.table, List.findSome?_cons, hlonger]
      rfl
    | greater =>
      have hlonger : (Pattern.mark .greaterEquals).matched? ('>' :: c :: text) = none :=
        not_longer rfl (ne_of_beq_false hc)
      change Pattern.first? ('>' :: c :: text) = _
      simp only [Pattern.first?, Pattern.table, List.findSome?_cons, hlonger]
      rfl
    | slash =>
      obtain ⟨hs, ht⟩ : c ≠ '/' ∧ c ≠ '*' := by simpa [absorbs] using hc
      have hline : Pattern.lineComment.matched? ('/' :: c :: text) = none := by
        simp [Pattern.matched?, hs]
      have hblock : Pattern.blockComment.matched? ('/' :: c :: text) = none := by
        simp [Pattern.matched?, ht]
      have hopen : Pattern.openComment.matched? ('/' :: c :: text) = none := by
        simp [Pattern.matched?, ht]
      change Pattern.first? ('/' :: c :: text) = _
      simp only [Pattern.first?, Pattern.table, List.findSome?_cons, hline, hblock, hopen]
      rfl
    | _ => rfl

theorem first_word {c : Char} {cs : List Char} (hc : isWordStart c) (hcs : cs.all isWordPart)
    (h : ∀ d ∈ text.head?, isWordPart d = false) :
    Pattern.first? (c :: cs ++ text) = some (.word, c :: cs) := by
  have hb := notBlank_of_wordPart (wordPart_of_start hc)
  have hs : c ≠ '/' := by
    rintro rfl
    cases hc
  have hrun : (cs ++ text).takeWhile isWordPart = cs := takeWhile_append hcs h
  simp [Pattern.first?, Pattern.table, Pattern.matched?, run?, hb, hs, hc, hrun]

theorem first_digits {c : Char} {cs : List Char} (hc : c.isDigit) (hcs : cs.all Char.isDigit)
    (h : ∀ d ∈ text.head?, d.isDigit = false) :
    Pattern.first? (c :: cs ++ text) = some (.digits, c :: cs) := by
  have hb := notBlank_of_wordPart (wordPart_of_digit hc)
  have hs : c ≠ '/' := by
    rintro rfl
    cases hc
  have hrun : (cs ++ text).takeWhile Char.isDigit = cs := takeWhile_append hcs h
  simp [Pattern.first?, Pattern.table, Pattern.matched?, run?, hb, hs, hc, hrun,
    notStart_of_digit hc]

theorem first_quoted {cs text : List Char} (hcs : '"' ∉ cs) :
    Pattern.first? ('"' :: cs ++ '"' :: text) = some (.quoted, '"' :: cs ++ ['"']) := by
  have hrun : (cs ++ '"' :: text).takeWhile (· ≠ '"') = cs :=
    takeWhile_append (List.all_eq_true.2 fun d hd => decide_eq_true fun he => hcs (he ▸ hd))
      fun d hd => by
        cases hd
        rfl
  have hm : (cs ++ '"' :: text).contains '"' = true := by simp
  simpa [Pattern.first?, Pattern.table, Pattern.matched?, run?, isBlank, isWordStart] using hrun

theorem isName_spelling (k : Keyword) : isName k.spelling := by
  cases k <;> decide

theorem word_of_isName {v : String} (h : isName v) :
    ∃ c cs, v.toList = c :: cs ∧ isWordStart c ∧ cs.all isWordPart := by
  unfold isName at h
  split at h
  · cases h
  · rename_i c cs hv
    rw [Bool.and_eq_true] at h
    exact ⟨c, cs, hv, h⟩

theorem reading_word (hv : isName v) (h : ∀ c ∈ text.head?, isWordPart c = false) :
    Pattern.first? (v.toList ++ text) = some (.word, v.toList) ∧
      Pattern.reading .word v.toList text = .token (Kind.ofWord v) v := by
  obtain ⟨c, cs, hl, hc, hcs⟩ := word_of_isName hv
  constructor
  · rw [hl]
    exact first_word hc hcs h
  · rw [Pattern.reading, String.ofList_toList]

/-- What is written for a symbol is read as that symbol. -/
theorem reading_written (hs : Spelled (k, v)) (hk : k ≠ .eof) (h : Parted k text) :
    ∃ p, Pattern.first? (Token.written k v ++ text) = some (p, Token.written k v) ∧
      p.reading (Token.written k v) text = .token k v := by
  cases k with
  | eof => exact absurd rfl hk
  | intLiteral =>
    obtain ⟨hne, hd⟩ := hs
    refine ⟨.digits, ?_, ?_⟩
    · cases hl : v.toList with
      | nil => exact absurd (String.toList_eq_nil_iff.1 hl) hne
      | cons c cs =>
        rw [hl, List.all_cons, Bool.and_eq_true] at hd
        rw [show Token.written .intLiteral v = c :: cs from hl]
        exact first_digits hd.1 hd.2 fun d hd => notDigit_of_notWordPart (h d hd)
    · have hglued : ([] ++ text).takeWhile isWordPart = [] := takeWhile_append rfl h
      rw [List.nil_append] at hglued
      rw [Pattern.reading, Pattern.ofDigits, hglued, show Token.written .intLiteral v = v.toList
        from rfl, String.ofList_toList]
      rfl
  | stringLiteral =>
    have hw : Token.written .stringLiteral v = '"' :: (v.toList ++ ['"']) := rfl
    refine ⟨.quoted, ?_, ?_⟩
    · rw [hw, List.cons_append, List.append_assoc]
      exact first_quoted hs
    · rw [Pattern.reading, hw, List.tail_cons, List.dropLast_concat, String.ofList_toList]
  | identifier =>
    obtain ⟨hv, hn⟩ := hs
    obtain ⟨hf, hr⟩ := reading_word hv h
    rw [Kind.ofWord, hn] at hr
    exact ⟨.word, hf, hr⟩
  | mark m =>
    obtain rfl : v = m.spelling := hs
    exact ⟨.mark m, first_mark m h, rfl⟩
  | keyword w =>
    obtain rfl : v = w.spelling := hs
    obtain ⟨hf, hr⟩ := reading_word (isName_spelling w) h
    rw [Kind.ofWord, Keyword.ofWord?_eq_some_iff.2 rfl] at hr
    exact ⟨.word, hf, hr⟩

theorem written_ne_nil (hs : Spelled (k, v)) (hk : k ≠ .eof) : Token.written k v ≠ [] := by
  have hp : Parted k [] := fun _ hc => nomatch hc
  obtain ⟨p, hf, -⟩ := reading_written hs hk hp
  exact (Pattern.matched?_isPrefix (Pattern.matched?_of_first? hf)).2

theorem head_of_takeWhile {q : Char → Bool} (h : text = text.takeWhile q ++ rest) :
    ∀ c ∈ rest.head?, q c = false := by
  have hrest : text.dropWhile q = rest :=
    List.append_cancel_left (List.takeWhile_append_dropWhile.trans h)
  intro c hc
  have hn := List.head?_dropWhile_not q text
  rw [hrest, hc] at hn
  simpa using hn

theorem digits_of_matched (h : Pattern.digits.matched? (piece ++ rest) = some piece) :
    piece ≠ [] ∧ piece.all Char.isDigit ∧ ∀ c ∈ rest.head?, c.isDigit = false := by
  have hne := (run?_isPrefix h).2
  simp only [Pattern.matched?, run?] at h
  split at h
  · cases h
  · have hrun := Option.some.inj h
    refine ⟨hne, ?_, head_of_takeWhile (congrArg (· ++ rest) hrun.symm)⟩
    rw [← hrun]
    exact List.all_takeWhile

theorem parted_of_mark {m : Mark}
    (h : Pattern.first? (m.spelling.toList ++ rest) = some (.mark m, piece)) :
    Parted (.mark m) rest := by
  cases rest with
  | nil => exact fun _ hc => nomatch hc
  | cons c rest =>
    rintro d ⟨⟩
    apply Bool.eq_false_iff.2
    intro hc
    cases m with
    | assignment | less | greater =>
      obtain rfl : c = '=' := eq_of_beq hc
      cases h
    | slash =>
      obtain rfl | rfl : c = '/' ∨ c = '*' := by simpa [absorbs] using hc
      · cases h
      · -- a comment, whether it ends or not
        change Pattern.first? ('/' :: '*' :: rest) = _ at h
        cases hend : throughCommentEnd? rest with
        | none =>
          simp only [Pattern.first?, Pattern.table, List.findSome?_cons, Pattern.matched?,
            hend] at h
          cases h
        | some body =>
          simp only [Pattern.first?, Pattern.table, List.findSome?_cons, Pattern.matched?,
            hend] at h
          cases h
    | _ => cases hc

/-- A token that is read is parted from what follows. -/
theorem parted_of_reading (hf : Pattern.first? (piece ++ rest) = some (p, piece))
    (hr : p.reading piece rest = .token k v) : Parted k rest := by
  have hm := Pattern.matched?_of_first? hf
  cases p with
  | blank | lineComment | blockComment | openComment | openQuote => cases hr
  | word =>
    have hrest : ∀ c ∈ rest.head?, isWordPart c = false := by
      cases htext : piece ++ rest with
      | nil =>
        rw [htext] at hm
        cases hm
      | cons c cs =>
        rw [htext, Pattern.matched?] at hm
        split at hm <;> cases hm
        exact head_of_takeWhile (List.cons.inj htext).2.symm
    cases hr
    unfold Kind.ofWord
    cases Keyword.ofWord? (String.ofList piece) <;> exact hrest
  | digits =>
    obtain ⟨-, -, hrest⟩ := digits_of_matched hm
    simp only [Pattern.reading, Pattern.ofDigits] at hr
    split at hr
    · cases hr
    · rename_i hglued
      cases hr
      intro c hc
      apply Bool.eq_false_iff.2
      -- a character of a word that is neither a digit nor a letter there is not
      intro (hpart : isWordPart c)
      obtain ⟨cs, rfl⟩ := List.head?_eq_some_iff.1 hc
      rw [List.takeWhile_cons_of_pos hpart, List.any_cons, Bool.or_eq_true, not_or] at hglued
      have hdigit := digit_of_wordPart hpart (Bool.eq_false_iff.2 hglued.1)
      rw [hrest c hc] at hdigit
      cases hdigit
  | quoted =>
    cases hr
    exact fun _ _ => rfl
  | mark m =>
    cases hr
    have hp : m.spelling.toList = piece := by
      simp only [Pattern.matched?] at hm
      split at hm <;> cases hm
      rfl
    rw [← hp] at hf
    exact parted_of_mark hf

end ModuleSyntax.Proofs.Separation
