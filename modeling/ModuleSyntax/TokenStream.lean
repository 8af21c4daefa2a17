import ModuleSyntax.Lexer

namespace ModuleSyntax

/-- The tokens of a source, and what comes after them for ever: the end token or an error. -/
structure TokenStream where
  tokens : List Token
  ending : Except Diagnostic Token

namespace TokenStream

/-- Takes what comes next. An ending is not used up. -/
def pull (s : TokenStream) : Except Diagnostic Token × TokenStream :=
  match s.tokens with
  | t :: ts => (.ok t, { s with tokens := ts })
  | [] => (s.ending, s)

@[simp] theorem pull_nil (ending : Except Diagnostic Token) :
    pull ⟨[], ending⟩ = (ending, ⟨[], ending⟩) := rfl

@[simp] theorem pull_cons (t : Token) (ts : List Token) (ending : Except Diagnostic Token) :
    pull ⟨t :: ts, ending⟩ = (.ok t, ⟨ts, ending⟩) := rfl

def push (t : Token) (s : TokenStream) : TokenStream :=
  { s with tokens := t :: s.tokens }

def complete (s : TokenStream) : Except Diagnostic (List Token) :=
  s.ending.map fun last => s.tokens ++ [last]

end TokenStream

namespace Lexer

def streamThen (goOn : Lexer → TokenStream) (l : Lexer) : TokenStream :=
  match l.next with
  | (.ok t, after) => if t.isEof then ⟨[], .ok t⟩ else (goOn after).push t
  | (.error d, _) => ⟨[], .error d⟩

def streamWithin : Nat → Lexer → TokenStream
  | 0, l => ⟨[], l.next.1⟩
  | n + 1, l => l.streamThen (streamWithin n)

/-- Everything ahead. A token takes a character, so there are no more of them than characters. -/
def stream (l : Lexer) : TokenStream :=
  l.streamWithin l.rest.length

theorem streamThen_congr {f g : Lexer → TokenStream} {l : Lexer}
    (h : ∀ m : Lexer, m.rest.length < l.rest.length → f m = g m) :
    l.streamThen f = l.streamThen g := by
  unfold streamThen
  split
  · rename_i hnext
    split
    · rfl
    · rename_i ht
      rw [h _ (next_shorter hnext (Bool.eq_false_iff.2 ht))]
  · rfl

theorem streamThen_of_atEnd {f : Lexer → TokenStream} {l : Lexer} (h : l.atEnd) :
    l.streamThen f = ⟨[], l.next.1⟩ := by
  simp [streamThen, next_eq, readThen, h, Token.isEof, Token.eof]

theorem streamWithin_eq {n m : Nat} {l : Lexer} (hn : l.rest.length ≤ n)
    (hm : l.rest.length ≤ m) : l.streamWithin n = l.streamWithin m := by
  induction n generalizing m l with
  | zero =>
    have hl : l.rest = [] := List.length_eq_zero_iff.1 (Nat.le_zero.1 hn)
    cases m with
    | zero => rfl
    | succ m => exact (streamThen_of_atEnd (by simp [atEnd, hl])).symm
  | succ n ih =>
    cases m with
    | zero =>
      have hl : l.rest = [] := List.length_eq_zero_iff.1 (Nat.le_zero.1 hm)
      exact streamThen_of_atEnd (by simp [atEnd, hl])
    | succ m => exact streamThen_congr fun a ha => ih (by omega) (by omega)

theorem stream_eq (l : Lexer) : l.stream = l.streamThen stream := by
  rw [stream, streamWithin_eq (Nat.le_refl _) (Nat.le_succ _), streamWithin]
  exact streamThen_congr fun a ha => streamWithin_eq (by omega) (Nat.le_refl _)

end Lexer

def tokenize (source : String) (file : Option String) : Except Diagnostic (List Token) :=
  (Lexer.ofString source file).stream.complete

end ModuleSyntax
