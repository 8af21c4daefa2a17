import ModuleSyntax.Proofs.Showing
import ModuleSyntax.Proofs.WellFormed

namespace ModuleSyntax.Proofs.Spacing

open Symbols Separation Skipping Showing WellFormed

variable {ts : List Symbol} {text : List Char}

def Apart (text : List Char) : Prop := ∀ c ∈ text.head?, isBlank c

/-- The symbols, with blanks between them and perhaps around them. -/
inductive Spaced : List Symbol → List Char → Prop
  | last {blanks : List Char} (hb : blanks.all isBlank) : Spaced [] blanks
  | next {s : Symbol} {ts : List Symbol} {blanks text : List Char} (hb : blanks.all isBlank)
      (ha : Apart text) (ht : Spaced ts text) :
      Spaced (s :: ts) (blanks ++ (Token.written s.1 s.2 ++ text))

theorem Apart.parted (h : Apart text) (k : Kind) : Parted k text :=
  fun c hc => not_absorbs_blank (h c hc) k

theorem trivia_of_blanks {blanks : List Char} (hb : blanks.all isBlank) (ahead : List Char) :
    Trivia ahead blanks :=
  blanks.append_nil ▸ Trivia.nil.blanks hb

theorem Spaced.shows (h : Spaced ts text) (hs : AllSpelled ts) (hk : ∀ s ∈ ts, s.1 ≠ .eof) :
    Shows ts text := by
  induction h with
  | last hb => exact .last (trivia_of_blanks hb _)
  | next hb ha ht ih =>
    obtain ⟨hspelled, hs⟩ := allSpelled_cons.1 hs
    obtain ⟨hne, hk⟩ := List.forall_mem_cons.1 hk
    exact .next (trivia_of_blanks hb _) hspelled hne (ha.parted _) (ih hs hk)

end ModuleSyntax.Proofs.Spacing
