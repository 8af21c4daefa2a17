import ModuleSyntax.Proofs.Acceptance
import ModuleSyntax.Proofs.Places
import ModuleSyntax.Proofs.Skipping

namespace ModuleSyntax.Proofs.Lossless

open Symbols Acceptance Places Skipping Steps

/-- The reader is asked for tokens until it gives the end token or an error, `e`. Before that it
has given the tokens of the list. -/
inductive Run : Lexer → List Token → Except Diagnostic Token → Lexer → Prop
  | stop {l after : Lexer} {e : Except Diagnostic Token} (h : l.next = (e, after))
      (he : Final e) : Run l [] e after
  | step {l after last : Lexer} {t : Token} {ts : List Token} {e : Except Diagnostic Token}
      (h : l.next = (.ok t, after)) (ht : t.kind ≠ .eof) (hr : Run after ts e last) :
      Run l (t :: ts) e last

/-- From a place on, a text is trivia and the lexemes of the tokens between, each where the span
of its token says, and after them the text `rest`. -/
inductive Laid : Position → List Token → List Char → List Char → Prop
  | last {p : Position} {w rest : List Char} (hw : Trivia rest w) : Laid p [] (w ++ rest) rest
  | next {p : Position} {t : Token} {ts : List Token} {w text rest : List Char}
      (hw : Trivia (t.lexeme ++ text) w)
      (hs : t.span = ⟨p.afterText w, p.afterText (w ++ t.lexeme)⟩)
      (ht : Laid t.span.stop ts text rest) : Laid p (t :: ts) (w ++ (t.lexeme ++ text)) rest

variable {l last : Lexer} {ts : List Token} {e : Except Diagnostic Token}

theorem run_stream (l : Lexer) : ∃ last, Run l l.stream.tokens l.stream.ending last := by
  -- every token but the end takes a character
  induction hn : l.rest.length using Nat.strongRecOn generalizing l with
  | _ n ih =>
    subst hn
    rw [Lexer.stream_eq, Lexer.streamThen]
    split
    · rename_i t after hnext
      split
      · rename_i ht
        refine ⟨after, .stop hnext ?_⟩
        rintro t ⟨⟩
        exact of_decide_eq_true ht
      · rename_i ht
        obtain ⟨last, hr⟩ := ih _ (Lexer.next_shorter hnext (Bool.eq_false_iff.2 ht)) after rfl
        exact ⟨last, .step hnext (fun hk => ht (decide_eq_true hk)) hr⟩
    · rename_i d after hnext
      exact ⟨after, .stop hnext (final_error d)⟩

theorem Run.laid (h : Run l ts e last) : Laid l.position ts l.rest last.rest := by
  induction h with
  | @stop l after e h he =>
    obtain ⟨w, hw⟩ := next_passes h
    have hf : found e ++ after.rest = after.rest := by
      cases e with
      | error d => rfl
      | ok t =>
        obtain ⟨-, -, hl, -⟩ := hw.last (he t rfl)
        rw [found, hl, List.nil_append]
    have htrivia := hw.trivia
    rw [hf] at htrivia
    rw [hw.text, hf]
    exact .last htrivia
  | @step l after last t ts e h ht hr ih =>
    obtain ⟨w, hw⟩ := next_passes h
    have hs := hw.span t rfl
    rw [hw.text]
    refine .next hw.trivia ?_ ?_
    · rw [hs, hw.position]
      rfl
    · rwa [hs]

theorem Run.ending (h : Run l ts e last) {t : Token} (ht : e = .ok t) :
    symbol t = (.eof, "") ∧ last.rest = [] := by
  induction h with
  | stop h he =>
    obtain ⟨w, hw⟩ := next_passes h
    obtain ⟨hv, hrest⟩ := hw.ending t ht (he t ht)
    exact ⟨Prod.ext (he t ht) hv, hrest⟩
  | step h hk hr ih => exact ih ht

theorem Laid.piece {p : Position} {text rest : List Char} (h : Laid p ts text rest) {t : Token}
    (ht : t ∈ ts) : ∃ front back, text = front ++ (t.lexeme ++ back) ∧
      t.span = ⟨p.afterText front, p.afterText (front ++ t.lexeme)⟩ := by
  induction h with
  | last hw => cases ht
  | @next p u ts w text rest hw hs _ ih =>
    obtain rfl | ht := List.mem_cons.1 ht
    · exact ⟨w, text, rfl, hs⟩
    · obtain ⟨front, back, rfl, hspan⟩ := ih ht
      refine ⟨w ++ (u.lexeme ++ front), back, by simp, ?_⟩
      simp [hspan, hs]

theorem Laid.spanned {text rest : List Char} (h : Laid .start ts text rest)
    (hl : text.length < UInt32.size) {t : Token} (ht : t ∈ ts) :
    spanned text t.span = t.lexeme := by
  obtain ⟨front, back, rfl, hs⟩ := h.piece ht
  rw [hs]
  exact spanned_piece hl

/-- A source is trivia with the lexemes of its tokens between, and what an error of the reader
leaves of it. In a source that the places can count, each lexeme is all that stands in the span of
its token. The tokens with the end token are what there is to read, unless there is an error. -/
theorem tokens_laid (source : String) (file : Option String) :
    ∃ ts e last, Run (Lexer.ofString source file) ts e last ∧
      Laid .start ts source.toList last.rest ∧
      (∀ t, e = .ok t → last.rest = [] ∧ t.kind = .eof ∧ t.value = "") ∧
      (source.length < UInt32.size → ∀ t ∈ ts, spanned source.toList t.span = t.lexeme) ∧
      (∀ us, tokenize source file = .ok us ↔ ∃ t, e = .ok t ∧ us = ts ++ [t]) ∧
      ∀ d, tokenize source file = .error d ↔ e = .error d := by
  obtain ⟨last, hr⟩ := run_stream (Lexer.ofString source file)
  have hl : Laid .start _ source.toList last.rest := hr.laid
  refine ⟨_, _, last, hr, hl, fun t ht => ?_, fun hn t ht => ?_, fun us => ?_, fun d => ?_⟩
  · obtain ⟨hs, hrest⟩ := hr.ending ht
    exact ⟨hrest, congrArg Prod.fst hs, congrArg Prod.snd hs⟩
  · exact hl.spanned (by rwa [String.length_toList]) ht
  · rw [tokenize, complete_eq_ok]
    constructor
    · rintro ⟨t, ht, rfl⟩
      exact ⟨t, ht, rfl⟩
    · rintro ⟨t, ht, rfl⟩
      exact ⟨t, ht, rfl⟩
  · rw [tokenize, TokenStream.complete]
    cases (Lexer.ofString source file).stream.ending with
    | ok t => constructor <;> rintro ⟨⟩
    | error e => constructor <;> rintro ⟨⟩ <;> rfl

end ModuleSyntax.Proofs.Lossless
