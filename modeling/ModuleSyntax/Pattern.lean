import ModuleSyntax.Diagnostic

namespace ModuleSyntax

inductive Pattern where
  | blank | lineComment | blockComment | openComment
  | word | digits | quoted | openQuote
  | mark (mark : Mark)
deriving DecidableEq

/-- What a matched text means to the reader of tokens. -/
inductive Reading where
  | skipped
  | token (kind : Kind) (value : String)
  | refused (cause : Cause)

def isBlank (c : Char) : Bool := c == ' ' || c == '\t' || c == '\r' || c == '\n'

def isWordStart (c : Char) : Bool := c.isAlpha || c == '_'

def isWordPart (c : Char) : Bool := c.isAlphanum || c == '_'

def throughCommentEnd? : List Char → Option (List Char)
  | [] => none
  | '*' :: '/' :: _ => some ['*', '/']
  | c :: text => (throughCommentEnd? text).map (c :: ·)

theorem throughCommentEnd?_isPrefix {text piece : List Char}
    (h : throughCommentEnd? text = some piece) : piece <+: text := by
  fun_induction throughCommentEnd? text generalizing piece with
  | case1 => cases h
  | case2 rest =>
    cases h
    exact ⟨rest, rfl⟩
  | case3 c text _ ih =>
    obtain ⟨piece, hp, rfl⟩ := Option.map_eq_some_iff.1 h
    exact (List.prefix_cons_inj c).2 (ih hp)

def run? (p : Char → Bool) (text : List Char) : Option (List Char) :=
  let run := text.takeWhile p
  if run.isEmpty then none else some run

theorem run?_isPrefix {p : Char → Bool} {text piece : List Char} (h : run? p text = some piece) :
    piece <+: text ∧ piece ≠ [] := by
  simp only [run?] at h
  split at h
  · cases h
  · cases h
    exact ⟨List.takeWhile_prefix p, by simp_all⟩

theorem takeWhile_ne_isPrefix {c : Char} {text : List Char} (h : c ∈ text) :
    text.takeWhile (· ≠ c) ++ [c] <+: text := by
  induction text with
  | nil => cases h
  | cons a text ih =>
    by_cases ha : a = c
    · subst ha
      simp
    · have hm : c ∈ text := (List.mem_cons.1 h).resolve_left (Ne.symm ha)
      rw [List.takeWhile_cons_of_pos (by simpa using ha)]
      exact (List.prefix_cons_inj a).2 (ih hm)

namespace Pattern

/-- The piece of the text ahead that a pattern takes. -/
def matched? : Pattern → List Char → Option (List Char)
  | blank, text => run? isBlank text
  | lineComment, '/' :: '/' :: text => some ('/' :: '/' :: text.takeWhile (· ≠ '\n'))
  | blockComment, '/' :: '*' :: text => (throughCommentEnd? text).map ('/' :: '*' :: ·)
  | openComment, '/' :: '*' :: _ => some ['/', '*']
  | word, c :: text => if isWordStart c then some (c :: text.takeWhile isWordPart) else none
  | digits, text => run? Char.isDigit text
  | quoted, '"' :: text =>
    if text.contains '"' then some ('"' :: text.takeWhile (· ≠ '"') ++ ['"']) else none
  | openQuote, '"' :: _ => some ['"']
  | mark m, text => if m.spelling.toList.isPrefixOf text then some m.spelling.toList else none
  | _, _ => none

theorem matched?_isPrefix {p : Pattern} {text piece : List Char}
    (h : p.matched? text = some piece) : piece <+: text ∧ piece ≠ [] := by
  unfold matched? at h
  split at h
  · exact run?_isPrefix h
  · cases h
    exact ⟨(List.prefix_append_right_inj ['/', '/']).2 (List.takeWhile_prefix _), by simp⟩
  · obtain ⟨piece, hp, rfl⟩ := Option.map_eq_some_iff.1 h
    exact ⟨(List.prefix_append_right_inj ['/', '*']).2 (throughCommentEnd?_isPrefix hp), by simp⟩
  · cases h
    exact ⟨⟨_, rfl⟩, by simp⟩
  · split at h
    · cases h
      exact ⟨(List.prefix_cons_inj _).2 (List.takeWhile_prefix _), by simp⟩
    · cases h
  · exact run?_isPrefix h
  · rename_i text
    split at h
    · rename_i hq
      cases h
      have hm := List.contains_iff_mem.1 hq
      exact ⟨(List.prefix_cons_inj _).2 (takeWhile_ne_isPrefix hm), by simp⟩
    · cases h
  · cases h
    exact ⟨⟨_, rfl⟩, by simp⟩
  · split at h
    · cases h
      exact ⟨List.isPrefixOf_iff_prefix.1 ‹_›, Mark.spelling_ne_nil _⟩
    · cases h
  · cases h

/-- The patterns in the order in which they are tried. One that begins another comes after it. -/
def table : List Pattern :=
  [blank, lineComment, blockComment, openComment, word, digits, quoted, openQuote,
    mark .equals, mark .notEquals, mark .lessEquals, mark .greaterEquals, mark .assignment,
    mark .less, mark .greater, mark .openBracket, mark .closeBracket, mark .openCurly,
    mark .closeCurly, mark .openParen, mark .closeParen, mark .semicolon, mark .comma, mark .plus,
    mark .dash, mark .slash, mark .star, mark .percent]

def first? (text : List Char) : Option (Pattern × List Char) :=
  table.findSome? fun p => (p.matched? text).map (p, ·)

theorem matched?_of_first? {text piece : List Char} {p : Pattern}
    (h : first? text = some (p, piece)) : p.matched? text = some piece := by
  obtain ⟨q, _, hq⟩ := List.exists_of_findSome?_eq_some h
  obtain ⟨_, hm, heq⟩ := Option.map_eq_some_iff.1 hq
  cases heq
  exact hm

/-- Digits that run into a word make no number: the reader would have to guess where it ends. -/
def ofDigits (digits ahead : List Char) : Reading :=
  let glued := ahead.takeWhile isWordPart
  if glued.any isWordStart then .refused (.malformedNumber (String.ofList (digits ++ glued)))
  else .token .intLiteral (String.ofList digits)

def reading (p : Pattern) (piece ahead : List Char) : Reading :=
  match p with
  | blank | lineComment | blockComment => .skipped
  | openComment => .refused .unterminatedComment
  | word => .token (Kind.ofWord (String.ofList piece)) (String.ofList piece)
  | digits => ofDigits piece ahead
  | quoted => .token .stringLiteral (String.ofList piece.tail.dropLast)
  | openQuote => .refused (.unterminatedString (String.ofList ahead))
  | mark m => .token (.mark m) m.spelling

theorem reading_ne_eof {p : Pattern} {piece ahead : List Char} {k : Kind} {value : String}
    (h : p.reading piece ahead = .token k value) : k ≠ .eof := by
  unfold reading at h
  split at h
  all_goals try cases h
  · unfold Kind.ofWord
    cases Keyword.ofWord? (String.ofList piece) <;> simp
  · simp only [ofDigits] at h
    split at h <;> cases h
    simp
  · simp
  · simp

end Pattern

end ModuleSyntax
