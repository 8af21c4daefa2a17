import ModuleSyntax.Proofs.Answers
import ModuleSyntax.Proofs.PairedModule
import ModuleSyntax.Proofs.Symbols

namespace ModuleSyntax.Proofs.Window

open Parse Motion PairedRuns PairedModule Symbols Answers

def ahead (p : Parser) : List Symbol := (p.current :: p.upcoming.tokens).map symbol

/-- Two parsers with the same symbols ahead, as long as the first has more than `n` of them. -/
structure Alike (n : Nat) (p q : Parser) : Prop where
  tables : p.tables = q.tables
  proper : Proper p
  lexical : ∀ d, p.upcoming.ending = .error d → d.cause.phase = .lexical
  inside : p.current.kind ≠ .eof
  symbols : ∃ s a b c, ahead p = s :: (a ++ b) ∧ ahead q = s :: (a ++ c) ∧ b.length = n

variable {n : Nat} {p q : Parser}

theorem Alike.current (h : Alike n p q) : symbol p.current = symbol q.current := by
  obtain ⟨s, a, b, c, hp, hq, -⟩ := h.symbols
  exact (List.cons.inj hp).1.trans (List.cons.inj hq).1.symm

theorem Alike.token (h : Alike n p q) :
    seeToken (fun _ => ()) p.current = seeToken (fun _ => ()) q.current := by
  have hk : p.current.kind = q.current.kind := congrArg Prod.fst h.current
  have hv : p.current.value = q.current.value := congrArg Prod.snd h.current
  rw [seeToken, seeToken, hk, hv]
  rfl

def window (n : Nat) : Pairing Unit where
  view _ := ()
  sync := Alike n
  fails _ _ := True
  gone p := Proper p ∧ left p ≤ n
  lost d := d.cause.phase = .lexical

theorem window_gone {next : Token} {rest : TokenStream} (hp : Proper p)
    (h : p.upcoming.pull = (.ok next, rest)) (hl : p.upcoming.tokens.length ≤ n) :
    (window n).gone (moved p next rest) := by
  refine ⟨hp.moved h, ?_⟩
  obtain ⟨current, ⟨tokens, ending⟩, stop, tables⟩ := p
  cases tokens with
  | nil =>
    cases h
    rw [left, moved, if_pos (hp.ending next rfl)]
    exact Nat.zero_le n
  | cons t ts =>
    cases h
    rw [left, moved, if_neg (hp.tokens next List.mem_cons_self)]
    exact hl

theorem window_advance (h : Alike n p q) :
    Follows (window n) (seeToken (window n).view) (advance p) (advance q) := by
  have htoken := h.token
  obtain ⟨tables, proper, lexical, inside, s, a, b, c, hp, hq, hb⟩ := h
  obtain ⟨current, ⟨tokens, ending⟩, stop, T⟩ := p
  obtain ⟨current', ⟨tokens', ending'⟩, stop', T'⟩ := q
  have htokens : tokens.map symbol = a ++ b := (List.cons.inj hp).2
  have htokens' : tokens'.map symbol = a ++ c := (List.cons.inj hq).2
  cases a with
  | nil =>
    have hl : tokens.length ≤ n := by
      rw [← hb, ← List.length_map symbol, htokens]
      exact Nat.le_refl _
    rw [advance_apply]
    split
    · rename_i hpull
      exact .gone _ (window_gone proper hpull hl)
    · rename_i d rest hpull
      cases tokens with
      | nil =>
        cases hpull
        exact .lost _ (lexical _ rfl)
      | cons t ts => cases hpull
  | cons s' a =>
    obtain ⟨t, ts, rfl, ht, hts⟩ := List.map_eq_cons_iff.1 htokens
    obtain ⟨t', ts', rfl, ht', hts'⟩ := List.map_eq_cons_iff.1 htokens'
    refine .value ?_ ⟨tables, proper.moved rfl, lexical, proper.tokens t List.mem_cons_self,
      s', a, b, c, ?_, ?_, hb⟩
    · exact htoken
    · rw [ahead, List.map_cons, ht, hts]
      rfl
    · rw [ahead, List.map_cons, ht', hts']
      rfl

theorem window_sound (n : Nat) : Sound (window n) where
  current h := h.token
  previousEnd _ := rfl
  leading h := by rw [h.tables]
  trailing h := by rw [h.tables]
  opening h := by rw [h.tables]
  typeLeading h := by rw [h.tables]
  typeTrailing h := by rw [h.tables]
  starts _ := trivial
  typeStarts _ := trivial
  fails _ _ := trivial
  advance := window_advance
  gone {p next rest} h hpull := by
    have hl : left p ≤ n := h.2
    rw [left] at hl
    exact window_gone h.1 hpull (by omega)

/-- What is refused at a symbol is refused there in every source that begins like it. -/
theorem refused_alike (h : Alike n p q) {k m : Nat} (hk : k ≤ m) {d : Diagnostic} {r : Parser}
    (hx : wholeModule k p = some (.error d, r)) (hd : d.cause.phase = .syntactic)
    (hr : n < left r) {o : Except Diagnostic (Module Span) × Parser}
    (ho : wholeModule m q = some o) : ∃ e, o.1 = .error e := by
  have hf := (paired_wholeModule (window_sound n) hk).2 p q h
  rw [hx, ho] at hf
  cases hf with
  | gone _ hg => exact absurd hg.2 (by omega)
  | lost _ hl =>
    rw [show _ = _ from hl] at hd
    cases hd
  | refusal => exact ⟨_, rfl⟩

end ModuleSyntax.Proofs.Window
