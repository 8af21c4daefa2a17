import ModuleSyntax.Proofs.Lexemes

namespace ModuleSyntax.Proofs.Entry

open Motion Answers Symbols Lexemes

theorem Reads.isPrefix {p q r : Parser} {us vs : List Token} (hu : Reads p us q) (hv : Reads p vs r)
    (hl : us.length ≤ vs.length) : us <+: vs := by
  rw [← List.take_append_drop us.length vs] at hv
  obtain ⟨m, ht, -⟩ := hv.split
  obtain ⟨h, -⟩ := hu.unique ht (by rw [List.length_take, Nat.min_eq_left hl])
  rw [h]
  exact List.take_prefix _ _

theorem reads_to_last (p : Parser) : ∃ us q, p.current :: p.upcoming.tokens = us ++ [q.current] ∧
    Reads p us q ∧ q.upcoming = ⟨[], p.upcoming.ending⟩ := by
  obtain ⟨current, ⟨tokens, ending⟩, stop, tables⟩ := p
  induction tokens generalizing current stop with
  | nil => exact ⟨[], _, rfl, .refl _, rfl⟩
  | cons t ts ih =>
    obtain ⟨us, q, he, hr, hq⟩ := ih t current.span.stop
    exact ⟨current :: us, q, congrArg (current :: ·) he, .step rfl hr, hq⟩

theorem length_le_of_error {p q : Parser} {us : List Token} (h : Reads p us q) {d : Diagnostic}
    (hd : p.upcoming.ending = .error d) : us.length ≤ p.upcoming.tokens.length := by
  induction h with
  | refl p => exact Nat.zero_le _
  | @step p q next rest ts h hr ih =>
    have hle := ih ((pull_ending h).trans hd)
    obtain ⟨current, ⟨tokens, ending⟩, stop, tables⟩ := p
    cases tokens with
    | nil =>
      rw [TokenStream.pull_nil] at h
      rw [show ending = _ from hd] at h
      cases h
    | cons t tokens =>
      cases h
      exact Nat.succ_le_succ hle

variable {s : TokenStream} {p : Parser}

theorem start_tables (h : Parser.start s = .ok p) : p.tables = .standard := by
  unfold Parser.start at h
  split at h <;> cases h
  rfl

theorem start_ahead (h : Parser.start s = .ok p) : p.upcoming.ending = s.ending ∧
    (p.current :: p.upcoming.tokens = s.tokens ∨
      s.tokens = [] ∧ p.upcoming.tokens = [] ∧ s.ending = .ok p.current) := by
  obtain ⟨tokens, ending⟩ := s
  cases tokens with
  | nil =>
    cases ending with
    | error d => cases h
    | ok t =>
      cases h
      exact ⟨rfl, .inr ⟨rfl, rfl, rfl⟩⟩
  | cons t ts =>
    cases h
    exact ⟨rfl, .inl rfl⟩

theorem start_proper (hs : Sourced s) (h : Parser.start s = .ok p) : Proper p := by
  obtain ⟨he, ha⟩ := start_ahead h
  have hend : ∀ t, p.upcoming.ending = .ok t → t.kind = .eof := fun t ht =>
    congrArg Prod.fst (hs.ending t (he ▸ ht))
  obtain ha | ⟨-, hn, ho⟩ := ha
  · have hall := hs.tokens
    rw [← ha] at hall
    refine ⟨fun t ht => hall t (List.mem_cons_of_mem _ ht), hend, fun hk => ?_⟩
    exact absurd hk (hall _ List.mem_cons_self)
  · exact ⟨fun t ht => absurd ht (by simp [hn]), hend, fun _ => hn⟩

theorem reads_all (h : Parser.start s = .ok p) {e : Token} (he : s.ending = .ok e) :
    ∃ q, Reads p (s.tokens ++ [e]) q := by
  obtain ⟨tokens, ending⟩ := s
  obtain rfl : ending = .ok e := he
  cases tokens with
  | nil =>
    cases h
    exact ⟨_, reads_one rfl⟩
  | cons t ts =>
    cases h
    obtain ⟨us, q, hu, hr, hq⟩ := reads_to_last ⟨t, ⟨ts, .ok e⟩, .start, .standard⟩
    have hpull : q.upcoming.pull = (.ok e, q.upcoming) := by
      rw [hq]
      rfl
    have hlast := reads_one (p := moved q e q.upcoming) hpull
    rw [show t :: ts = us ++ [q.current] from hu]
    exact ⟨_, (hr.trans (reads_one hpull)).trans hlast⟩

theorem all_of_reads (hs : Sourced s) (h : Parser.start s = .ok p) {us : List Token} {e : Token}
    {q : Parser} (hr : Reads p (us ++ [e]) q) (hu : ∀ t ∈ us, t.kind ≠ .eof) (he : e.kind = .eof) :
    ∃ e', s.ending = .ok e' ∧ us ++ [e] = s.tokens ++ [e'] := by
  cases hend : s.ending with
  | error d =>
    obtain ⟨hpe, ha⟩ := start_ahead h
    obtain ha | ⟨-, -, ho⟩ := ha
    · have hahead := hr.ahead (length_le_of_error hr (hpe.trans hend))
      rw [ha] at hahead
      exact absurd he (hs.tokens e (by simp [hahead]))
    · rw [hend] at ho
      cases ho
  | ok e' =>
    refine ⟨e', rfl, ?_⟩
    have he' : e'.kind = .eof := congrArg Prod.fst (hs.ending e' hend)
    obtain ⟨r, hall⟩ := reads_all h hend
    by_cases hl : (us ++ [e]).length ≤ (s.tokens ++ [e']).length
    · obtain hp | hp := List.prefix_concat_iff.1 (Reads.isPrefix hr hall hl)
      · exact hp
      · exact absurd he (hs.tokens e (hp.subset (by simp)))
    · obtain hp | hp := List.prefix_concat_iff.1 (Reads.isPrefix hall hr (by omega))
      · exact hp.symm
      · exact absurd he' (hu e' (hp.subset (by simp)))

end ModuleSyntax.Proofs.Entry
