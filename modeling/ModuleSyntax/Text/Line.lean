namespace ModuleSyntax.Text

/-- The lines of a text. A line feed ends a line, together with a carriage return right before
it; nothing follows the last line end. -/
def lines : List Char → List (List Char)
  | [] => []
  | '\n' :: text => [] :: lines text
  | '\r' :: '\n' :: text => [] :: lines text
  | c :: text =>
    match lines text with
    | [] => [[c]]
    | line :: rest => (c :: line) :: rest

def line (text : List Char) (number : Nat) : List Char :=
  (lines text)[number]?.getD []

example : lines "a\r\n\n\rb\r".toList = [['a'], [], ['\r', 'b', '\r']] := by decide

end ModuleSyntax.Text
