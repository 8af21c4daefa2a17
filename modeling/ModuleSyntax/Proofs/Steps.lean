import ModuleSyntax.TokenStream

namespace ModuleSyntax.Proofs.Steps

/-- What can happen when the reader is asked for a token. -/
inductive Step : Lexer → Except Diagnostic Token → Lexer → Prop
  | ending {l : Lexer} (h : l.rest = []) : Step l (.ok (Token.eof l.position)) l
  | unrecognised {l : Lexer} (hn : l.rest ≠ []) (h : Pattern.first? l.rest = none) :
      Step l (.error ⟨.unrecognised (String.ofList (l.rest.take 1)), l.position⟩) l
  | skipped {l after : Lexer} {p : Pattern} {piece : List Char} {e : Except Diagnostic Token}
      (hf : Pattern.first? l.rest = some (p, piece))
      (hr : p.reading piece (l.skip piece.length).rest = .skipped)
      (hs : Step (l.skip piece.length) e after) : Step l e after
  | token {l : Lexer} {p : Pattern} {piece : List Char} {k : Kind} {value : String}
      (hf : Pattern.first? l.rest = some (p, piece))
      (hr : p.reading piece (l.skip piece.length).rest = .token k value) :
      Step l (.ok ⟨k, value, l.position, (l.skip piece.length).position⟩) (l.skip piece.length)
  | refused {l : Lexer} {p : Pattern} {piece : List Char} {cause : Cause}
      (hf : Pattern.first? l.rest = some (p, piece))
      (hr : p.reading piece (l.skip piece.length).rest = .refused cause) :
      Step l (.error ⟨cause, l.position⟩) l

variable {l after : Lexer} {e : Except Diagnostic Token}

theorem skip_rest {piece text : List Char} (h : l.rest = piece ++ text) :
    (l.skip piece.length).rest = text := by
  rw [Lexer.skip, h, List.drop_left]

theorem skip_one {c : Char} {text : List Char} (h : l.rest = c :: text) :
    (l.skip 1).rest = text := by
  rw [Lexer.skip, h]
  rfl

theorem skip_position {piece text : List Char} (h : l.rest = piece ++ text) :
    (l.skip piece.length).position = l.position.afterText piece := by
  rw [Lexer.skip, h, List.take_left]

theorem skip_skip (l : Lexer) (m n : Nat) : (l.skip m).skip n = l.skip (m + n) := by
  simp only [Lexer.skip, List.drop_drop, List.take_add, Position.afterText_append]

theorem step_of_next (h : l.next = (e, after)) : Step l e after := by
  induction hn : l.rest.length using Nat.strongRecOn generalizing l with
  | _ n ih =>
    subst hn
    rw [Lexer.next_eq, Lexer.readThen] at h
    split at h
    · rename_i hend
      cases h
      exact .ending (List.isEmpty_iff.1 hend)
    · rename_i hn
      split at h
      · rename_i hf
        cases h
        exact .unrecognised (fun hl => hn (List.isEmpty_iff.2 hl)) hf
      · rename_i hf
        split at h
        · rename_i hr
          exact .skipped hf hr (ih _ (Lexer.length_skip_lt hf) h rfl)
        · rename_i hr
          cases h
          exact .token hf hr
        · rename_i hr
          cases h
          exact .refused hf hr

theorem atEnd_of_first {p : Pattern} {piece : List Char}
    (h : Pattern.first? l.rest = some (p, piece)) : l.atEnd = false := by
  have hl := Lexer.length_skip_lt h
  cases ht : l.rest with
  | nil =>
    rw [ht] at hl
    cases hl
  | cons c text => rw [Lexer.atEnd, ht, List.isEmpty_cons]

theorem Step.next (h : Step l e after) : l.next = (e, after) := by
  induction h with
  | ending h =>
    rw [Lexer.next_eq, Lexer.readThen, Lexer.atEnd, h]
    rfl
  | @unrecognised l hn hf =>
    have he : ¬ l.atEnd := fun h => hn (List.isEmpty_iff.1 h)
    rw [Lexer.next_eq, Lexer.readThen, if_neg he, hf]
  | skipped hf hr hs ih =>
    rw [Lexer.next_eq, Lexer.readThen, if_neg (Bool.eq_false_iff.1 (atEnd_of_first hf)), hf]
    dsimp only
    rw [hr]
    exact ih
  | token hf hr | refused hf hr =>
    rw [Lexer.next_eq, Lexer.readThen, if_neg (Bool.eq_false_iff.1 (atEnd_of_first hf)), hf]
    dsimp only
    rw [hr]

def Final (e : Except Diagnostic Token) : Prop := ∀ t, e = .ok t → t.kind = .eof

theorem final_error (d : Diagnostic) : Final (.error d) := fun _ h => nomatch h

/-- A reader that has come to an end or an error stays there. -/
theorem next_stays (h : l.next = (e, after)) (he : Final e) : after.next = (e, after) := by
  induction step_of_next h with
  | ending | unrecognised | refused => exact h
  | skipped hf hr hs ih => exact ih hs.next he
  | token hf hr => exact absurd (he _ rfl) (Pattern.reading_ne_eof hr)

end ModuleSyntax.Proofs.Steps
