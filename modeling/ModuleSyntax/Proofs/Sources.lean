import ModuleSyntax.Proofs.Acceptance
import ModuleSyntax.Proofs.Spacing

namespace ModuleSyntax.Proofs.Sources

open Grammar Symbols Lexemes ModuleEnd WellFormed Showing Spacing Acceptance

variable {m : Module Unit} {ts : List Symbol} {text : List Char} {file : Option String}

def spread (ts : List Symbol) : List Char := ts.flatMap fun s => ' ' :: Token.written s.1 s.2

theorem apart_spread (ts : List Symbol) : Apart (spread ts) := by
  cases ts with
  | nil => exact fun _ h => nomatch h
  | cons s ts =>
    intro c h
    cases h
    rfl

theorem spaced_spread (ts : List Symbol) : Spaced ts (spread ts) := by
  induction ts with
  | nil => exact .last rfl
  | cons s ts ih => exact .next (show [' '].all isBlank from rfl) (apart_spread ts) ih

theorem tokenize_shows {source : String} (h : Shows ts source.toList) (file : Option String) :
    ∃ us, tokenize source file = .ok us ∧ us.map symbol = ts ++ [(.eof, "")] := by
  obtain ⟨hmap, e, he⟩ := stream_shows (l := Lexer.ofString source file) h rfl
  refine ⟨_, complete_eq_ok.2 ⟨e, he, rfl⟩, ?_⟩
  rw [List.map_append, hmap, List.map_singleton, (sourced_stream _).ending e he]

theorem tokenize_spaced (h : Spaced ts text) (hs : AllSpelled ts) (hk : Inner symbols ts)
    (file : Option String) :
    ∃ us, tokenize (String.ofList text) file = .ok us ∧ us.map symbol = ts ++ [(.eof, "")] := by
  apply tokenize_shows
  rw [String.toList_ofList]
  exact h.shows hs hk

theorem inner_of_module (h : IsModule symbols (ts ++ [(.eof, "")]) m) : Inner symbols ts := by
  obtain ⟨us, e, heq, hus, -⟩ := module_end h
  rw [(List.append_inj' heq rfl).1]
  exact hus

theorem parse_spaced (hm : IsModule symbols (ts ++ [(.eof, "")]) m) (hs : AllSpelled ts)
    (h : Spaced ts text) (file : Option String) :
    ∃ n, parseSource (String.ofList text) file = some (.ok n) ∧ n.erase = m := by
  obtain ⟨us, hus, hmap⟩ := tokenize_spaced h hs (inner_of_module hm) file
  exact parse_of_derivable hus (hmap ▸ hm)

theorem tokenize_spelled {source : String} {us : List Token} (h : tokenize source file = .ok us) :
    AllSpelled (us.map symbol) := by
  obtain ⟨e, he, rfl⟩ := complete_eq_ok.1 h
  have hs := sourced_stream (Lexer.ofString source file)
  intro s hmem
  obtain ⟨t, ht, rfl⟩ := List.mem_map.1 hmem
  obtain ht | ht := List.mem_append.1 ht
  · exact hs.spelled t ht
  · rw [List.mem_singleton.1 ht, hs.ending e he]
    exact spelled_sample .eof

end ModuleSyntax.Proofs.Sources
