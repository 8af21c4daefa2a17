import ModuleSyntax.Text.Extender
import ModuleSyntax.Text.Ignorable
import ModuleSyntax.Text.Invisible

namespace ModuleSyntax.Text

/-- Whether a character, put between quotes, is seen there as one of its own: it does not join the
one before it and is not shown as nothing. -/
def isSeen (c : Char) : Bool :=
  (!isExtender c || isSoundMark c) && !isInvisible c && !isIgnorable c

/-- What stands for a character between quotes. One that would not be seen there is written by its
code point. -/
def escaped : Char → List Char
  | '\x00' => ['\\', '0']
  | '\t' => ['\\', 't']
  | '\r' => ['\\', 'r']
  | '\n' => ['\\', 'n']
  | '"' => ['\\', '"']
  | '\\' => ['\\', '\\']
  | c =>
    if isSeen c then [c] else ['\\', 'u', '\x7b'] ++ Nat.toDigits 16 c.toNat ++ ['\x7d']

def quoted (text : String) : String :=
  String.ofList ('"' :: text.toList.flatMap escaped ++ ['"'])

example : quoted "a\"\\b" = "\"a\\\"\\\\b\"" := by decide +kernel

example : quoted "\u0301\u007f" = "\"\\u\x7b301\x7d\\u\x7b7f\x7d\"" := by decide +kernel

example : quoted "\uff9e\u1160" = "\"\uff9e\\u\x7b1160\x7d\"" := by decide +kernel

end ModuleSyntax.Text
