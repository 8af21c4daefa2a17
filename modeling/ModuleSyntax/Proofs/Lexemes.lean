import ModuleSyntax.Proofs.Answers
import ModuleSyntax.Proofs.Steps
import ModuleSyntax.Proofs.Symbols

namespace ModuleSyntax.Proofs.Lexemes

open Motion Answers Symbols Steps

theorem spelled_word {text : String} (h : isName text) : Spelled (Kind.ofWord text, text) := by
  unfold Kind.ofWord
  cases hk : Keyword.ofWord? text with
  | none => exact ⟨h, hk⟩
  | some k => exact (Keyword.ofWord?_eq_some_iff.1 hk).symm

theorem isName_of_matched {text piece : List Char} (h : Pattern.word.matched? text = some piece) :
    isName (String.ofList piece) := by
  cases text with
  | nil => cases h
  | cons c cs =>
    simp only [Pattern.matched?] at h
    split at h
    · rename_i hc
      cases h
      rw [isName, String.toList_ofList]
      simp [hc]
    · cases h

theorem not_mem_of_matched {text piece : List Char}
    (h : Pattern.quoted.matched? text = some piece) :
    '"' ∉ (String.ofList piece.tail.dropLast).toList := by
  cases text with
  | nil => cases h
  | cons c cs =>
    by_cases hc : c = '"'
    · subst hc
      simp only [Pattern.matched?] at h
      split at h
      · cases h
        rw [String.toList_ofList, List.cons_append, List.tail_cons, List.dropLast_concat]
        intro hm
        have hne := List.all_eq_true.1 List.all_takeWhile _ hm
        simp at hne
      · cases h
    · simp [Pattern.matched?, hc] at h

theorem spelled_of_reading {p : Pattern} {text piece ahead : List Char} {k : Kind} {value : String}
    (hm : p.matched? text = some piece) (hr : p.reading piece ahead = .token k value) :
    Spelled (k, value) := by
  cases p with
  | blank | lineComment | blockComment | openComment | openQuote => cases hr
  | word =>
    cases hr
    exact spelled_word (isName_of_matched hm)
  | digits =>
    simp only [Pattern.reading, Pattern.ofDigits] at hr
    split at hr <;> cases hr
    simp only [Pattern.matched?, run?] at hm
    split at hm
    · cases hm
    · rename_i hne
      cases hm
      refine ⟨fun h => hne ?_, ?_⟩
      · have hl := congrArg String.toList h
        rw [String.toList_ofList] at hl
        rw [hl]
        rfl
      · rw [String.toList_ofList]
        exact List.all_takeWhile
  | quoted =>
    cases hr
    exact not_mem_of_matched hm
  | mark m =>
    cases hr
    rfl

theorem phase_of_reading {p : Pattern} {piece ahead : List Char} {c : Cause}
    (hr : p.reading piece ahead = .refused c) : c.phase = .lexical := by
  unfold Pattern.reading at hr
  split at hr
  all_goals try cases hr
  · rfl
  · simp only [Pattern.ofDigits] at hr
    split at hr <;> cases hr
    rfl
  · rfl

theorem next_spelled {l after : Lexer} {t : Token} (h : l.next = (.ok t, after)) :
    Spelled (symbol t) := by
  generalize he : Except.ok t = e at h
  induction step_of_next h with
  | ending =>
    cases he
    exact spelled_sample .eof
  | skipped hf hr hs ih => exact ih he hs.next
  | token hf hr =>
    cases he
    exact spelled_of_reading (Pattern.matched?_of_first? hf) hr
  | unrecognised | refused => cases he

theorem next_lexical {l after : Lexer} {d : Diagnostic} (h : l.next = (.error d, after)) :
    d.cause.phase = .lexical := by
  generalize he : Except.error d = e at h
  induction step_of_next h with
  | unrecognised =>
    cases he
    rfl
  | skipped hf hr hs ih => exact ih he hs.next
  | refused hf hr =>
    cases he
    exact phase_of_reading hr
  | ending | token => cases he

/-- What a stream holds for its reader. -/
structure Sourced (s : TokenStream) : Prop where
  tokens : ∀ t ∈ s.tokens, t.kind ≠ .eof
  spelled : ∀ t ∈ s.tokens, Spelled (symbol t)
  ending : ∀ t, s.ending = .ok t → symbol t = (.eof, "")
  lexical : ∀ d, s.ending = .error d → d.cause.phase = .lexical

theorem sourced_end {t : Token} (h : symbol t = (.eof, "")) : Sourced ⟨[], .ok t⟩ where
  tokens _ hu := absurd hu List.not_mem_nil
  spelled _ hu := absurd hu List.not_mem_nil
  ending u hu := by
    cases hu
    exact h
  lexical _ hd := by cases hd

theorem sourced_error {d : Diagnostic} (h : d.cause.phase = .lexical) : Sourced ⟨[], .error d⟩ where
  tokens _ hu := absurd hu List.not_mem_nil
  spelled _ hu := absurd hu List.not_mem_nil
  ending _ hu := by cases hu
  lexical e he := by
    cases he
    exact h

theorem Sourced.push {s : TokenStream} {t : Token} (h : Sourced s) (hk : t.kind ≠ .eof)
    (ht : Spelled (symbol t)) : Sourced (s.push t) where
  tokens := List.forall_mem_cons.2 ⟨hk, h.tokens⟩
  spelled := List.forall_mem_cons.2 ⟨ht, h.spelled⟩
  ending := h.ending
  lexical := h.lexical

theorem sourced_stream (l : Lexer) : Sourced l.stream := by
  induction hn : l.rest.length using Nat.strongRecOn generalizing l with
  | _ n ih =>
    subst hn
    rw [Lexer.stream_eq, Lexer.streamThen]
    split
    · rename_i t after hnext
      have hspelled := next_spelled hnext
      split
      · rename_i ht
        have hk : t.kind = .eof := of_decide_eq_true ht
        apply sourced_end
        rw [symbol, hk] at hspelled ⊢
        rw [show t.value = "" from hspelled]
      · rename_i ht
        have hk : t.kind ≠ .eof := fun hk => ht (decide_eq_true hk)
        have hshorter := Lexer.next_shorter hnext (Bool.eq_false_iff.2 ht)
        exact (ih _ hshorter after rfl).push hk hspelled
    · rename_i hnext
      exact sourced_error (next_lexical hnext)

end ModuleSyntax.Proofs.Lexemes
