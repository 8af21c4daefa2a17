namespace ModuleSyntax.Text

/-- The White_Space property of Unicode. -/
def isSpace (c : Char) : Bool :=
  c.isWhitespace || c == '\u000b' || c == '\u000c' || c == '\u0085' || c == '\u00a0' ||
  c == '\u1680' || ('\u2000' ≤ c && c ≤ '\u200a') || c == '\u2028' || c == '\u2029' ||
  c == '\u202f' || c == '\u205f' || c == '\u3000'

def isIndent (c : Char) : Bool := c == ' ' || c == '\t'

def trimEnd (text : List Char) : List Char :=
  (text.reverse.dropWhile isSpace).reverse

end ModuleSyntax.Text
