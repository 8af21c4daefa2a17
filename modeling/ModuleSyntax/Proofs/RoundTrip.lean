import ModuleSyntax.Proofs.PrinterSpelled
import ModuleSyntax.Proofs.Sources

namespace ModuleSyntax.Proofs.RoundTrip

open Symbols WellFormed Spacing Printer PrinterSpelled Acceptance Sources

variable {source : String} {file : Option String}

theorem wellFormed_of_parse {n : Module Span} (h : parseSource source file = some (.ok n)) :
    wellFormedModule n.erase := by
  obtain ⟨ts, ht, hm⟩ := derivable_of_parse h
  exact module_wellFormed (module_symbols hm) (tokenize_spelled ht)

theorem parse_written {m : Module Unit} (h : wellFormedModule m) {text : List Char}
    (ht : Spaced (writeModule m) text) (file : Option String) :
    ∃ n, parseSource (String.ofList text) file = some (.ok n) ∧ n.erase = m :=
  parse_spaced (writeModule_derives h) (writeModule_spelled h) ht file

/-- Reading gives well-formed modules and undoes writing, whatever blanks are written between the
symbols, so that the modules read are just the well-formed ones. -/
theorem parse_image (file : Option String) :
    (∀ source n, parseSource source file = some (.ok n) → wellFormedModule n.erase) ∧
    (∀ m, wellFormedModule m → ∀ text, Spaced (writeModule m) text →
      ∃ n, parseSource (String.ofList text) file = some (.ok n) ∧ n.erase = m) ∧
    ∀ m, wellFormedModule m ↔ ∃ source n, parseSource source file = some (.ok n) ∧ n.erase = m := by
  refine ⟨fun _ _ => wellFormed_of_parse, fun m hm text ht => parse_written hm ht file,
    fun m => ⟨fun hm => ?_, ?_⟩⟩
  · exact ⟨_, parse_written hm (spaced_spread _) file⟩
  · rintro ⟨source, n, hn, rfl⟩
    exact wellFormed_of_parse hn

/-- An assignment stands to the right of another, and in parentheses to the left of a mark that
binds tighter, and an `if` has its `else`. -/
def assigning : Module Unit where
  name := "m"
  imports := [⟨"n", ()⟩]
  declarations := [.function true ⟨.primitive .int, 1, ()⟩ "f" [⟨⟨.named "t", 0, ()⟩, "a", ()⟩] ⟨[
    .ifElse (.binary .equals (.assignment (.symbol "a" ()) (.bool true ()) ()) (.symbol "b" ()) ())
      (.evaluation (.assignment (.index (.symbol "a" ()) (.int "0" ()) ())
        (.assignment (.symbol "b" ()) (.string "s" ()) ()) ()) ())
      (.returnValue (some (.negation (.symbol "b" ()) ())) ()) ()], ()⟩ ()]
  note := ()

def assigningText : String :=
  " module m \x7b import n ; public int [ ] f ( t a ) \x7b if ( ( a = true ) == b ) " ++
    "a [ 0 ] = b = \"s\" ; else return - b ; \x7d \x7d"

theorem parse_image_assigning : wellFormedModule assigning ∧
    Spaced (writeModule assigning) assigningText.toList ∧
    ∃ n, parseSource assigningText none = some (.ok n) ∧ n.erase = assigning := by
  have hm : wellFormedModule assigning := by decide
  have ht : spread (writeModule assigning) = assigningText.toList := by decide +kernel
  have hs : Spaced (writeModule assigning) assigningText.toList := ht ▸ spaced_spread _
  obtain ⟨n, hn, he⟩ := (parse_image none).2.1 assigning hm _ hs
  rw [String.ofList_toList] at hn
  exact ⟨hm, hs, n, hn, he⟩

end ModuleSyntax.Proofs.RoundTrip
