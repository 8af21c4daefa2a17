import ModuleSyntax.Pattern

namespace ModuleSyntax

/-- A source that is read token by token, from a place on. `finished` is set once an end or an
error has been handed out by `item`. -/
structure Lexer where
  rest : List Char
  position : Position
  file : String
  finished : Bool

namespace Lexer

def ofString (source : String) (file : Option String) : Lexer :=
  ⟨source.toList, .start, file.getD "shell", false⟩

def ofBytes (bytes : ByteArray) (file : Option String) : Except Diagnostic Lexer :=
  match String.fromUTF8? bytes with
  | some source => .ok (ofString source file)
  | none => .error ⟨.unreadable "stream did not contain valid UTF-8", .start⟩

def atEnd (l : Lexer) : Bool := l.rest.isEmpty

def skip (l : Lexer) (count : Nat) : Lexer :=
  { l with rest := l.rest.drop count, position := l.position.afterText (l.rest.take count) }

/-- The token ahead. Behind a blank or a comment that is for `goOn` to find; a refused piece stays
where it is. -/
def readThen (goOn : Lexer → Except Diagnostic Token × Lexer) (l : Lexer) :
    Except Diagnostic Token × Lexer :=
  if l.atEnd then (.ok (Token.eof l.position), l)
  else
    match Pattern.first? l.rest with
    | none => (.error ⟨.unrecognised (String.ofList (l.rest.take 1)), l.position⟩, l)
    | some (p, piece) =>
      match p.reading piece (l.skip piece.length).rest with
      | .skipped => goOn (l.skip piece.length)
      | .token kind value =>
        (.ok ⟨kind, value, l.position, (l.skip piece.length).position⟩, l.skip piece.length)
      | .refused cause => (.error ⟨cause, l.position⟩, l)

def nextWithin : Nat → Lexer → Except Diagnostic Token × Lexer
  | 0, l => (.ok (Token.eof l.position), l)
  | n + 1, l => l.readThen (nextWithin n)

/-- The next token. At the end of the source that is the end token, however often it is asked
for. Every blank and comment takes a character, so there are no more of them than characters. -/
def next (l : Lexer) : Except Diagnostic Token × Lexer :=
  l.nextWithin l.rest.length

/-- The next token of a sequence that stops after the end token or the first error. -/
def item (l : Lexer) : Option (Except Diagnostic Token) × Lexer :=
  if l.finished then (none, l)
  else
    let (result, after) := l.next
    let goesOn := match result with
      | .ok t => !t.isEof
      | .error _ => false
    (some result, { after with finished := !goesOn })

theorem length_skip_lt {l : Lexer} {p : Pattern} {piece : List Char}
    (h : Pattern.first? l.rest = some (p, piece)) :
    (l.skip piece.length).rest.length < l.rest.length := by
  obtain ⟨hp, hn⟩ := Pattern.matched?_isPrefix (Pattern.matched?_of_first? h)
  have hl := hp.length_le
  have hpos := List.length_pos_iff.2 hn
  simp only [skip, List.length_drop]
  omega

theorem readThen_congr {f g : Lexer → Except Diagnostic Token × Lexer} {l : Lexer}
    (h : ∀ m : Lexer, m.rest.length < l.rest.length → f m = g m) :
    l.readThen f = l.readThen g := by
  unfold readThen
  split
  · rfl
  · split
    · rfl
    · rename_i hf
      split
      · exact h _ (length_skip_lt hf)
      · rfl
      · rfl

theorem nextWithin_eq {n m : Nat} {l : Lexer} (hn : l.rest.length ≤ n) (hm : l.rest.length ≤ m) :
    l.nextWithin n = l.nextWithin m := by
  induction n generalizing m l with
  | zero =>
    have hl : l.rest = [] := List.length_eq_zero_iff.1 (Nat.le_zero.1 hn)
    cases m <;> simp [nextWithin, readThen, atEnd, hl]
  | succ n ih =>
    cases m with
    | zero =>
      have hl : l.rest = [] := List.length_eq_zero_iff.1 (Nat.le_zero.1 hm)
      simp [nextWithin, readThen, atEnd, hl]
    | succ m => exact readThen_congr fun a ha => ih (by omega) (by omega)

theorem next_eq (l : Lexer) : l.next = l.readThen next := by
  rw [next, nextWithin_eq (Nat.le_refl _) (Nat.le_succ _), nextWithin]
  exact readThen_congr fun a ha => nextWithin_eq (by omega) (Nat.le_refl _)

theorem next_shorter {l after : Lexer} {t : Token} (h : l.next = (.ok t, after))
    (ht : t.isEof = false) : after.rest.length < l.rest.length := by
  induction hn : l.rest.length using Nat.strongRecOn generalizing l with
  | _ n ih =>
    subst hn
    rw [next_eq, readThen] at h
    split at h
    · cases h
      simp [Token.isEof, Token.eof] at ht
    · split at h
      · cases h
      · rename_i hf
        have hs := length_skip_lt hf
        split at h
        · exact Nat.lt_trans (ih _ hs h rfl) hs
        · cases h
          exact hs
        · cases h

end Lexer

end ModuleSyntax
