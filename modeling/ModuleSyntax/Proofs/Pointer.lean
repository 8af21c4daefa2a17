import ModuleSyntax.Diagnostic.Snippet
import ModuleSyntax.Proofs.Lossless
import ModuleSyntax.Proofs.Refusals
import ModuleSyntax.Proofs.TextLines
import ModuleSyntax.Proofs.Verdicts

namespace ModuleSyntax.Proofs.Pointer

open Symbols Lexemes Acceptance Separation Steps Places Skipping Lossless Verdicts TextLines
open Refusals

/-- What stands at the place of an error: nothing any more, or a character that is no space, or a
space that begins no token. -/
inductive Shown (cause : Cause) : List Char → Prop
  | nothing : Shown cause []
  | visible {c : Char} {text : List Char} (hc : Text.isSpace c = false) : Shown cause (c :: text)
  | stray {c : Char} {text : List Char} (hb : c ∉ [' ', '\t', '\r', '\n'])
      (hc : cause = .unrecognised (String.ofList [c])) : Shown cause (c :: text)

variable {c : Char} {text rest front ahead : List Char} {cause : Cause} {l last after : Lexer}
  {d : Diagnostic} {t : Token} {ts : List Token} {e : Except Diagnostic Token} {source : String}
  {file : Option String}

theorem notSpace_of_wordPart (h : isWordPart c) : Text.isSpace c = false := by
  have hall : ∀ n < 128, isWordPart (Char.ofNat n) → Text.isSpace (Char.ofNat n) = false := by
    decide
  have hle := toNat_of_wordPart h
  rw [← Char.ofNat_toNat c] at h ⊢
  exact hall c.toNat (by omega) h

theorem notSpace_of_spelling (m : Mark) : ∀ c ∈ m.spelling.toList, Text.isSpace c = false := by
  have hall : m.spelling.toList.all fun c => !Text.isSpace c := by cases m <;> rfl
  intro c hc
  simpa using List.all_eq_true.1 hall c hc

theorem space_of_blank (h : c ∈ [' ', '\t', '\r', '\n']) : Text.isSpace c := by
  have hall : [' ', '\t', '\r', '\n'].all Text.isSpace := rfl
  exact List.all_eq_true.1 hall c h

theorem shown_of_refused (hb : Bare text) (h : Verdicts.Refused text cause) : Shown cause text := by
  cases h with
  | openComment | openQuote => exact .visible (by decide)
  | number hn hd hc =>
    obtain ⟨d, ds, rfl⟩ := List.exists_cons_of_ne_nil hn
    rw [List.all_cons, Bool.and_eq_true] at hd
    exact .visible (notSpace_of_wordPart (wordPart_of_digit hd.1))
  | stray => exact .stray (hb.blank _ rfl) rfl

theorem shown_of_spelled {k : Kind} {v : String} (hs : Spelled (k, v)) (hk : k ≠ .eof) :
    Shown cause (Token.written k v ++ rest) := by
  cases k with
  | eof => exact absurd rfl hk
  | intLiteral =>
    obtain ⟨hv, hd⟩ := hs
    obtain ⟨c, cs, hc⟩ := List.exists_cons_of_ne_nil fun hn => hv (String.toList_eq_nil_iff.1 hn)
    rw [hc, List.all_cons, Bool.and_eq_true] at hd
    change Shown cause (v.toList ++ rest)
    rw [hc]
    exact .visible (notSpace_of_wordPart (wordPart_of_digit hd.1))
  | stringLiteral => exact .visible (by decide)
  | identifier =>
    obtain ⟨c, cs, hv, hc, -⟩ := word_of_isName hs.1
    change Shown cause (v.toList ++ rest)
    rw [hv]
    exact .visible (notSpace_of_wordPart (wordPart_of_start hc))
  | keyword w =>
    obtain ⟨c, cs, hv, hc, -⟩ := word_of_isName (isName_spelling w)
    change Shown cause (v.toList ++ rest)
    rw [show v = w.spelling from hs, hv]
    exact .visible (notSpace_of_wordPart (wordPart_of_start hc))
  | mark m =>
    obtain ⟨c, cs, hv⟩ := List.exists_cons_of_ne_nil m.spelling_ne_nil
    change Shown cause (v.toList ++ rest)
    rw [show v = m.spelling from hs, hv]
    exact .visible (notSpace_of_spelling m c (by rw [hv]; exact List.mem_cons_self))

/-- The text `ahead` begins at the place, behind some of what a reader has before it. -/
def Begins (l : Lexer) (p : Position) (ahead : List Char) : Prop :=
  ∃ front, l.rest = front ++ ahead ∧ p = l.position.afterText front

theorem Begins.next {p : Position} (hb : Begins after p ahead) (h : l.next = (e, after)) :
    Begins l p ahead := by
  obtain ⟨w, hw⟩ := next_passes h
  obtain ⟨front, hfront, hplace⟩ := hb
  refine ⟨w ++ found e ++ front, ?_, ?_⟩
  · rw [hw.text, hfront, List.append_assoc, List.append_assoc]
  · rw [hplace, hw.position, ← Position.afterText_append]

theorem begins_last (h : Run l ts e last) : Begins l last.position last.rest := by
  induction h with
  | stop h he => exact Begins.next ⟨[], rfl, rfl⟩ h
  | step h ht hr ih => exact ih.next h

theorem refused_of_run_error (h : Run l ts (.error d) last) :
    Bare last.rest ∧ Verdicts.Refused last.rest d.cause ∧ d.position = last.position := by
  generalize he : Except.error d = e at h
  induction h with
  | @stop l after e h hf =>
    obtain ⟨w, r, hs⟩ := stripped_of_step (step_of_next (l := l) rfl)
    obtain ⟨m, hnext, rfl, -⟩ := hs.next
    rw [hnext] at h
    have hanswer : m.next.1 = .error d := by rw [h, he]
    obtain ⟨hc, hp⟩ := (hs.bare.refusal d).1 hanswer
    have hstays := hs.bare.stays (by rw [hanswer]; exact final_error d)
    rw [h] at hstays
    obtain rfl : after = m := hstays
    exact ⟨hs.bare, hc, hp⟩
  | step h ht hr ih => exact ih he

theorem finish_of_run (h : Run l ts (.ok t) last) :
    t.span.start = last.position ∧ last.rest = [] := by
  generalize he : Except.ok t = e at h
  induction h with
  | stop h hf =>
    subst he
    obtain ⟨w, hw⟩ := next_passes h
    obtain ⟨-, -, hempty, hrest⟩ := hw.last (hf t rfl)
    have hposition := hw.position
    rw [found, hempty, List.append_nil, ← hw.start] at hposition
    exact ⟨hposition.symm, hrest⟩
  | step h ht hr ih => exact ih he

/-- A source is refused where a token begins, where the reader refuses the rest, or at the end. -/
theorem place_of_refusal (h : parseSource source file = some (.error d)) :
    ∃ ahead, Begins (Lexer.ofString source file) d.position ahead ∧ Shown d.cause ahead := by
  obtain ⟨last, hr⟩ := run_stream (Lexer.ofString source file)
  obtain ⟨he, -⟩ | ⟨-, before, t, behind, hseq, hearliest⟩ := refusal_cases h
  · rw [he] at hr
    obtain ⟨hbare, hrefused, hplace⟩ := refused_of_run_error hr
    exact ⟨last.rest, hplace ▸ begins_last hr, shown_of_refused hbare hrefused⟩
  · have ht : t ∈ sequence (Lexer.ofString source file).stream := by
      rw [hseq]
      exact List.mem_append_right before List.mem_cons_self
    rw [hearliest.position]
    obtain ht | ht := List.mem_append.1 ht
    · obtain ⟨front, back, htext, hspan⟩ := hr.laid.piece ht
      have hs := sourced_stream (Lexer.ofString source file)
      refine ⟨t.lexeme ++ back, ⟨front, htext, ?_⟩, ?_⟩
      · rw [hspan]
      · exact shown_of_spelled (hs.spelled t ht) (hs.tokens t ht)
    · cases he : (Lexer.ofString source file).stream.ending with
      | error e =>
        rw [he] at ht
        cases ht
      | ok u =>
        rw [he] at ht hr
        obtain rfl := List.mem_singleton.1 ht
        obtain ⟨hplace, hrest⟩ := finish_of_run hr
        have hbegins := begins_last hr
        rw [← hplace, hrest] at hbegins
        exact ⟨[], hbegins, .nothing⟩

theorem holds_iff (h : Fits .start (front ++ ahead)) :
    (Position.start.afterText front, c) ∈ placed .start (front ++ ahead) ↔
      ahead.head? = some c := by
  obtain ⟨hfront, hahead⟩ := h.append
  rw [placed_append, List.mem_append]
  constructor
  · rintro (hc | hc)
    · exact absurd (hfront.placed _ hc).2 (Precedes.irrefl _)
    · cases ahead with
      | nil => cases hc
      | cons a ahead =>
        obtain hc | hc := List.mem_cons.1 hc
        · cases hc
          rfl
        · exact absurd hahead.precedes_after (hahead.after.placed _ hc).1
  · intro hc
    obtain ⟨ahead, rfl⟩ := List.head?_eq_some_iff.1 hc
    exact .inr List.mem_cons_self

theorem sourceLine_begins (hs : source.toList = front ++ ahead)
    (hp : Counts front d.position) :
    d.sourceLine source = Text.line (front.rtakeWhile (· ≠ '\n') ++ ahead) 0 := by
  rw [Diagnostic.sourceLine, hs, hp.line, line_count]

/-- A character that neither ends a line nor is a blank stands in its line at its column, behind
the indent. -/
theorem sourceLine_shows (hs : source.toList = front ++ c :: text) (hp : Counts front d.position)
    (hc : c ∉ [' ', '\t', '\r', '\n']) :
    (d.sourceLine source)[d.position.column.toNat]? = some c ∧
      ((d.sourceLine source).takeWhile Text.isIndent).length ≤ d.position.column.toNat := by
  have hn : c ≠ '\n' := fun h => hc (by simp [h])
  have hr : c ≠ '\r' := fun h => hc (by simp [h])
  have hi : ¬ Text.isIndent c := by
    intro hi
    obtain h | h : c = ' ' ∨ c = '\t' := by simpa [Text.isIndent] using hi
    · exact hc (by simp [h])
    · exact hc (by simp [h])
  obtain ⟨back, hback⟩ : ∃ back, Text.line (front.rtakeWhile (· ≠ '\n') ++ c :: text) 0 =
      front.rtakeWhile (· ≠ '\n') ++ c :: back := line_start (notMem_rtakeWhile front) hn hr
  have hat : (d.sourceLine source)[d.position.column.toNat]? = some c := by
    rw [sourceLine_begins hs hp, hback, hp.column, List.getElem?_append_right (Nat.le_refl _),
      Nat.sub_self]
    rfl
  exact ⟨hat, length_takeWhile_le hat hi⟩

theorem sourceLine_ends (hs : source.toList = front) (hp : Counts front d.position) :
    (d.sourceLine source).length = d.position.column.toNat := by
  rw [← List.append_nil front] at hs
  rw [sourceLine_begins hs hp, List.append_nil, line_whole (notMem_rtakeWhile front), hp.column]

theorem caret_index (d : Diagnostic) (source : String) : (d.pointer source).idxOf '^' =
    d.lineNumber.length + 3 +
      (d.position.column.toNat - ((d.sourceLine source).takeWhile Text.isIndent).length) := by
  rw [Diagnostic.pointer, List.idxOf_append_of_notMem]
  · simp [Diagnostic.gutter, List.idxOf_cons_self]
    omega
  · simp [Diagnostic.gutter]

theorem numbered_text (d : Diagnostic) (source : String) (n : Nat) :
    (d.numbered source)[d.lineNumber.length + 3 + n]? =
      (Text.trimEnd ((d.sourceLine source).dropWhile Text.isIndent))[n]? := by
  have hlength : (d.lineNumber ++ [' ', '|', ' ']).length = d.lineNumber.length + 3 := by simp
  rw [Diagnostic.numbered, List.getElem?_append_right (by omega), hlength, Nat.add_sub_cancel_left]

theorem length_numbered (d : Diagnostic) (source : String) : (d.numbered source).length =
    d.lineNumber.length + 3 +
      (Text.trimEnd ((d.sourceLine source).dropWhile Text.isIndent)).length := by
  simp [Diagnostic.numbered]
  omega

/-- The caret stands below the character at the column, if that is not trimmed. -/
theorem caret_below (hat : (d.sourceLine source)[d.position.column.toNat]? = some c)
    (hindent : ((d.sourceLine source).takeWhile Text.isIndent).length ≤ d.position.column.toNat) :
    (Text.isSpace c = false →
      (d.numbered source)[(d.pointer source).idxOf '^']? = some c) ∧
    ((d.numbered source)[(d.pointer source).idxOf '^']? = some c ∨
      (d.numbered source).length ≤ (d.pointer source).idxOf '^') := by
  have hshown := (getElem?_dropWhile hindent).trans hat
  rw [caret_index, numbered_text, length_numbered]
  refine ⟨getElem?_trimEnd hshown, ?_⟩
  obtain h | h := getElem?_trimEnd_or hshown
  · exact .inl h
  · exact .inr (Nat.add_le_add_left h _)

/-- At the end of the line the caret stands behind all of it. -/
theorem caret_behind (h : (d.sourceLine source).length = d.position.column.toNat) :
    (d.numbered source).length ≤ (d.pointer source).idxOf '^' := by
  have hsplit := congrArg List.length
    (List.takeWhile_append_dropWhile (p := Text.isIndent) (l := d.sourceLine source))
  have htrim := (trimEnd_isPrefix ((d.sourceLine source).dropWhile Text.isIndent)).length_le
  rw [List.length_append] at hsplit
  rw [caret_index, length_numbered]
  omega

theorem lineNumber_eq (h : d.position.line.toNat + 1 < UInt32.size) :
    d.lineNumber = (toString (d.position.line.toNat + 1)).toList := by
  have hnumber : toString (d.position.line + 1) = toString (d.position.line + 1).toNat := rfl
  rw [Diagnostic.lineNumber, hnumber, toNat_succ h]

theorem notMem_lineNumber (d : Diagnostic) : '\n' ∉ d.lineNumber := by
  intro h
  have hnumber : toString (d.position.line + 1) = (d.position.line + 1).toNat.repr := rfl
  rw [Diagnostic.lineNumber, hnumber, Nat.toList_repr] at h
  have hdigit := Nat.isDigit_of_mem_toDigits (by decide) (by decide) h
  cases hdigit

theorem notMem_numbered (d : Diagnostic) (source : String) : '\n' ∉ d.numbered source := by
  have hline : '\n' ∉ d.sourceLine source := notMem_line source.toList _
  have htrim : '\n' ∉ Text.trimEnd ((d.sourceLine source).dropWhile Text.isIndent) := by
    intro h
    have hshown := (trimEnd_isPrefix _).subset h
    exact hline ((List.dropWhile_suffix Text.isIndent).subset hshown)
  simp [Diagnostic.numbered, notMem_lineNumber, htrim]

theorem notMem_pointer (d : Diagnostic) (source : String) : '\n' ∉ d.pointer source := by
  simp [Diagnostic.pointer, Diagnostic.gutter]

theorem render_lines (d : Diagnostic) (source name : String) :
    ∃ front, (d.render source name).toList =
      front ++ '\n' :: (d.numbered source ++ '\n' :: (d.pointer source ++ ['\n'])) := by
  refine ⟨d.heading.toList ++ '\n' :: ("-> ".toList ++ name.toList ++ '\n' :: d.gutter), ?_⟩
  simp [Diagnostic.render]

theorem pointer_eq (d : Diagnostic) (source : String) :
    d.pointer source = List.replicate (d.lineNumber.length + 1) ' ' ++ ['|', ' '] ++
      List.replicate (d.position.column.toNat -
        ((d.sourceLine source).takeWhile Text.isIndent).length) '-' ++ ['^'] := by
  simp [Diagnostic.pointer, Diagnostic.gutter]

/-- The caret stands below the character at the place of an error. A space there, which only the
reader refuses, may have been trimmed. At the end of the source the caret stands behind the line.
The indent that is not shown comes before the column. -/
structure Points (source : String) (d : Diagnostic) : Prop where
  visible : ∀ c, (d.position, c) ∈ placed .start source.toList → Text.isSpace c = false →
    (d.numbered source)[(d.pointer source).idxOf '^']? = some c
  space : ∀ c, (d.position, c) ∈ placed .start source.toList → Text.isSpace c →
    d.cause = .unrecognised (String.ofList [c]) ∧
      ((d.numbered source)[(d.pointer source).idxOf '^']? = some c ∨
        (d.numbered source).length ≤ (d.pointer source).idxOf '^')
  ending : (∀ c, (d.position, c) ∉ placed .start source.toList) →
    d.position = Position.start.afterText source.toList ∧
      (d.numbered source).length ≤ (d.pointer source).idxOf '^'
  indent : ((d.sourceLine source).takeWhile Text.isIndent).length ≤ d.position.column.toNat

theorem points_at_end (hs : source.toList = front) (h : Fits .start front)
    (hp : d.position = Position.start.afterText front) (hcounts : Counts front d.position) :
    Points source d := by
  have hnone : ∀ c, (d.position, c) ∉ placed .start source.toList := by
    intro c hc
    rw [← List.append_nil front] at h hs
    rw [hp, hs] at hc
    cases (holds_iff h).1 hc
  have hline := sourceLine_ends hs hcounts
  have hindent := (List.takeWhile_prefix (p := Text.isIndent) (l := d.sourceLine source)).length_le
  refine ⟨fun c hc => absurd hc (hnone c), fun c hc => absurd hc (hnone c), fun _ => ?_, ?_⟩
  · rw [hs]
    exact ⟨hp, caret_behind hline⟩
  · rwa [hline] at hindent

theorem points_at_character (hs : source.toList = front ++ c :: text)
    (h : Fits .start (front ++ c :: text)) (hp : d.position = Position.start.afterText front)
    (hcounts : Counts front d.position) (hb : c ∉ [' ', '\t', '\r', '\n'])
    (hc : Text.isSpace c → d.cause = .unrecognised (String.ofList [c])) : Points source d := by
  obtain ⟨hat, hindent⟩ := sourceLine_shows hs hcounts hb
  obtain ⟨hvisible, hspace⟩ := caret_below hat hindent
  have hholds : ∀ a, (d.position, a) ∈ placed .start source.toList ↔ c = a := by
    intro a
    rw [hp, hs, holds_iff h, List.head?_cons, Option.some_inj]
  refine ⟨fun a ha => ?_, fun a ha hsp => ?_, fun hnone => ?_, hindent⟩
  · obtain rfl := (hholds a).1 ha
    exact hvisible
  · obtain rfl := (hholds a).1 ha
    exact ⟨hc hsp, hspace⟩
  · exact absurd ((hholds c).2 rfl) (hnone c)

theorem points_of_shown (hs : source.toList = front ++ ahead)
    (h : (front ++ ahead).length < UInt32.size) (hp : d.position = Position.start.afterText front)
    (hcounts : Counts front d.position) (hshown : Shown d.cause ahead) : Points source d := by
  have hfits := fits_start h
  cases hshown with
  | nothing =>
    rw [List.append_nil] at hs hfits
    exact points_at_end hs hfits hp hcounts
  | @visible c text hc =>
    refine points_at_character hs hfits hp hcounts (fun hb => ?_) fun hsp => ?_
    · rw [space_of_blank hb] at hc
      cases hc
    · rw [hc] at hsp
      cases hsp
  | stray hb hc => exact points_at_character hs hfits hp hcounts hb fun _ => hc

/-- The last lines of a report are the numbered line and the pointer, and the caret of the pointer
stands below what the source is refused for. The column needs no bound, since a pointer can have
any width here. -/
theorem render_points {name : String} (h : source.length < UInt32.size - 1)
    (hd : parseSource source file = some (.error d)) :
    (∃ front, (d.render source name).toList =
        front ++ '\n' :: (d.numbered source ++ '\n' :: (d.pointer source ++ ['\n']))) ∧
      '\n' ∉ d.numbered source ∧ '\n' ∉ d.pointer source ∧
      (∃ text, d.numbered source =
        (toString (d.position.line.toNat + 1)).toList ++ [' ', '|', ' '] ++ text) ∧
      (∃ blanks dashes, d.pointer source =
        List.replicate blanks ' ' ++ ['|', ' '] ++ List.replicate dashes '-' ++ ['^']) ∧
      Points source d := by
  obtain ⟨ahead, ⟨front, hs, hp⟩, hshown⟩ := place_of_refusal hd
  have hsource : source.toList = front ++ ahead := hs
  have hplace : d.position = Position.start.afterText front := hp
  rw [← String.length_toList, hsource] at h
  have hfront := h
  rw [List.length_append] at hfront
  have hcounts : Counts front d.position := by
    rw [hplace]
    exact counts_afterText (by omega)
  have hline : d.position.line.toNat + 1 < UInt32.size := by
    have hle := List.count_le_length (a := '\n') (l := front)
    rw [hcounts.line]
    omega
  refine ⟨render_lines d source name, notMem_numbered d source, notMem_pointer d source, ?_,
    ⟨_, _, pointer_eq d source⟩, points_of_shown hsource (by omega) hplace hcounts hshown⟩
  rw [Diagnostic.numbered, lineNumber_eq hline]
  exact ⟨_, rfl⟩

def indented : String := "\n\tmodule = x"

def beforeIndented : Parser where
  current := .onLine (.keyword .moduleWord) ⟨1, 1⟩ "module"
  upcoming := ⟨[.onLine (.mark .assignment) ⟨1, 8⟩ "=", .onLine .identifier ⟨1, 10⟩ "x"],
    .ok (.eof ⟨1, 11⟩)⟩
  previousEnd := .start
  tables := .standard

def withoutName : Diagnostic := ⟨.unexpected (.mark .assignment) "=" [.identifier], ⟨1, 8⟩⟩

theorem render_points_indented :
    indented.length < UInt32.size - 1 ∧ parseSource indented none = some (.error withoutName) ∧
      withoutName.numbered indented = "2 | module = x".toList ∧
      withoutName.pointer indented = "  | -------^".toList ∧
      (withoutName.numbered indented)[(withoutName.pointer indented).idxOf '^']? = some '=' ∧
      ((withoutName.sourceLine indented).takeWhile Text.isIndent).length ≤ (8 : UInt32).toNat := by
  have h : indented.length < UInt32.size - 1 := by decide
  have hstart : Parser.start (Lexer.ofString indented none).stream = .ok beforeIndented := rfl
  have hd : parseSource indented none = some (.error withoutName) := by
    rw [parseSource, parse_of_start hstart]
    rfl
  obtain ⟨-, -, -, -, -, hpoints⟩ := @render_points _ _ _ "shell" h hd
  refine ⟨h, hd, by decide, by decide, ?_, hpoints.indent⟩
  exact hpoints.visible '=' (by decide) (by decide)

end ModuleSyntax.Proofs.Pointer
