import ModuleSyntax.Proofs.Motion
import ModuleSyntax.Proofs.Steps

namespace ModuleSyntax.Proofs.Supply

open Motion Steps

def after : Nat → Lexer → Lexer
  | 0, l => l
  | n + 1, l => after n l.next.2

def answer (l : Lexer) (n : Nat) : Except Diagnostic Token := (after n l).next.1

variable {l : Lexer} {n : Nat} {p q : Parser} {ts : List Token}

theorem stream_of_final (h : Final l.next.1) : l.stream = ⟨[], l.next.1⟩ := by
  rw [Lexer.stream_eq, Lexer.streamThen]
  split
  · rename_i t rest hnext
    rw [hnext] at h ⊢
    rw [if_pos (by simpa [Token.isEof] using h t rfl)]
  · rename_i hnext
    rw [hnext]

theorem stream_of_token {t : Token} {rest : Lexer} (h : l.next = (.ok t, rest))
    (ht : t.kind ≠ .eof) : l.stream = rest.stream.push t := by
  rw [Lexer.stream_eq, Lexer.streamThen, h]
  simp [Token.isEof, ht]

/-- The stream gives what the reader answers, and goes on like the reader. -/
theorem pull_stream (l : Lexer) : l.stream.pull = (l.next.1, l.next.2.stream) := by
  by_cases h : Final l.next.1
  · have hnext : l.next = (l.next.1, l.next.2) := rfl
    have hs := next_stays hnext h
    rw [stream_of_final h, stream_of_final (l := l.next.2) (by rwa [hs]), hs]
    rfl
  · cases hnext : l.next with
    | mk e rest =>
      cases e with
      | error d => exact absurd (final_error d) (by rwa [hnext] at h)
      | ok t =>
        have ht : t.kind ≠ .eof := fun hk => h (by rw [hnext]; rintro u ⟨⟩; exact hk)
        rw [stream_of_token hnext ht]
        rfl

theorem after_succ (l : Lexer) (n : Nat) : after (n + 1) l = (after n l).next.2 := by
  induction n generalizing l with
  | zero => rfl
  | succ n ih => exact ih l.next.2

theorem answer_final (h : Final (answer l n)) {m : Nat} (hm : n ≤ m) :
    answer l m = answer l n := by
  induction hm with
  | refl => rfl
  | @step m hm ih =>
    have hnext : (after m l).next = (answer l m, (after m l).next.2) := rfl
    rw [← ih, answer, after_succ, next_stays hnext (ih ▸ h)]

/-- The parser is at the next token of the reader. -/
structure Ahead (l : Lexer) (p : Parser) : Prop where
  current : l.next.1 = .ok p.current
  upcoming : p.upcoming = l.next.2.stream

theorem ahead_of_start (h : Parser.start l.stream = .ok p) : Ahead l p := by
  rw [Parser.start, pull_stream] at h
  cases hn : l.next.1 with
  | error d =>
    rw [hn] at h
    cases h
  | ok t =>
    rw [hn] at h
    cases h
    exact ⟨hn, rfl⟩

theorem start_previousEnd {s : TokenStream} (h : Parser.start s = .ok p) :
    p.previousEnd = .start := by
  unfold Parser.start at h
  split at h <;> cases h
  rfl

theorem Ahead.moved (h : Ahead l p) {next : Token} {rest : TokenStream}
    (hp : p.upcoming.pull = (.ok next, rest)) : Ahead l.next.2 (moved p next rest) := by
  rw [h.upcoming, pull_stream] at hp
  obtain ⟨hn, rfl⟩ := Prod.mk.inj hp
  exact ⟨hn, rfl⟩

theorem Ahead.reads (h : Ahead l p) (hr : Reads p ts q) :
    Ahead (after ts.length l) q ∧ ts.map .ok = (List.range ts.length).map (answer l) := by
  induction hr generalizing l with
  | refl p => exact ⟨h, rfl⟩
  | step hp hr ih =>
    obtain ⟨hq, ht⟩ := ih (h.moved hp)
    refine ⟨hq, ?_⟩
    rw [List.map_cons, ht, List.length_cons, List.range_succ_eq_map, List.map_cons, List.map_map]
    exact congrArg (· :: _) h.current.symm

end ModuleSyntax.Proofs.Supply
