import ModuleSyntax.Proofs.Sources

namespace ModuleSyntax.Proofs.Viability

open Grammar Symbols Lexemes ModuleEnd Outcome WellFormed Spacing Acceptance Sources

variable {ts us : List Symbol} {s : Symbol} {m : Module Unit}

/-- The symbols of a source that is accepted, with its end. -/
def Accepted (ts : List Symbol) : Prop :=
  ∃ source file us m, tokenize source file = .ok us ∧ us.map symbol = ts ∧
    parseSource source file = some (.ok m)

/-- Some accepted source begins with the symbols. -/
def Viable (ts : List Symbol) : Prop := ∃ us, Accepted (ts ++ us)

theorem viable_of_append (h : Viable (ts ++ us)) : Viable ts := by
  obtain ⟨vs, hvs⟩ := h
  exact ⟨us ++ vs, by rwa [← List.append_assoc]⟩

theorem end_of_module (h : IsModule symbols ts m) (hs : AllSpelled ts) :
    ∃ us, ts = us ++ [(.eof, "")] ∧ Inner symbols us := by
  obtain ⟨us, e, rfl, hus, he⟩ := module_end h
  refine ⟨us, ?_, hus⟩
  obtain ⟨k, v⟩ := e
  obtain rfl : k = .eof := he
  rw [show v = "" from hs (.eof, v) (by simp)]

theorem accepted_iff : Accepted ts ↔ AllSpelled ts ∧ ∃ m, IsModule symbols ts m := by
  constructor
  · rintro ⟨source, file, us, m, hus, rfl, hm⟩
    obtain ⟨vs, hvs, hd⟩ := derivable_of_parse hm
    rw [hus] at hvs
    cases hvs
    exact ⟨tokenize_spelled hus, _, module_symbols hd⟩
  · rintro ⟨hs, m, hm⟩
    obtain ⟨us, rfl, hus⟩ := end_of_module hm hs
    have hspelled := (allSpelled_append.1 hs).1
    obtain ⟨vs, hvs, hmap⟩ := tokenize_spaced (spaced_spread us) hspelled hus none
    obtain ⟨n, hn, -⟩ := parse_spaced hm hspelled (spaced_spread us) none
    exact ⟨_, none, vs, n, hvs, hmap, hn⟩

theorem Accepted.eq_nil (h : Accepted (ts ++ s :: us)) (hs : s.1 = .eof) : us = [] := by
  obtain ⟨hspelled, m, hm⟩ := accepted_iff.1 h
  obtain ⟨vs, heq, hvs⟩ := end_of_module hm hspelled
  obtain rfl | ⟨us, u, rfl⟩ := List.eq_nil_or_concat us
  · rfl
  · have hv : ts ++ s :: us = vs := by
      rw [List.concat_eq_append, ← List.cons_append, ← List.append_assoc] at heq
      exact (List.append_inj' heq rfl).1
    exact absurd hs (hvs s (by simp [← hv]))

/-- Symbols short of the end go on to one. -/
theorem Viable.before_end (h : Viable ts) (hi : Inner symbols ts) :
    ∃ us, Accepted (ts ++ us ++ [(.eof, "")]) := by
  obtain ⟨us, hus⟩ := h
  obtain ⟨hspelled, m, hm⟩ := accepted_iff.1 hus
  obtain ⟨vs, heq, -⟩ := end_of_module hm hspelled
  obtain rfl | ⟨us, u, rfl⟩ := List.eq_nil_or_concat us
  · rw [List.append_nil] at heq
    exact absurd rfl (hi (.eof, "") (by simp [heq]))
  · rw [List.concat_eq_append, ← List.append_assoc] at hus heq
    obtain ⟨-, hu⟩ := List.append_inj' heq rfl
    rw [hu] at hus
    exact ⟨us, hus⟩

/-- Symbols that are the beginning of a module, if they can be written. -/
def Continues (ts : List Symbol) : Prop := ∃ us m, AllSpelled us ∧ IsModule symbols (ts ++ us) m

theorem completable_continues : Completable Continues where
  close {w c} hc h := by
    obtain ⟨us, m, hus, hm⟩ := h
    exact ⟨c ++ us, m, allSpelled_append.2 ⟨hc, hus⟩, by rwa [← List.append_assoc]⟩

theorem allows_continues : Allows Continues (IsModule symbols) := fun u m hm =>
  ⟨[], m, fun _ h => (nomatch h), by rwa [List.append_nil]⟩

theorem Continues.viable (h : Continues ts) (hs : AllSpelled ts) : Viable ts := by
  obtain ⟨us, m, hus, hm⟩ := h
  exact ⟨us, accepted_iff.2 ⟨allSpelled_append.2 ⟨hs, hus⟩, m, hm⟩⟩

theorem Continues.inner (h : Continues (ts ++ [s])) : Inner symbols ts := by
  obtain ⟨us, m, -, hm⟩ := h
  obtain ⟨vs, e, heq, hvs, -⟩ := module_end hm
  obtain rfl | ⟨us, u, rfl⟩ := List.eq_nil_or_concat us
  · rw [List.append_nil] at heq
    rw [(List.append_inj' heq rfl).1]
    exact hvs
  · rw [List.concat_eq_append, ← List.append_assoc] at heq
    rw [← (List.append_inj' heq rfl).1] at hvs
    exact fun t ht => hvs t (by simp [ht])

end ModuleSyntax.Proofs.Viability
