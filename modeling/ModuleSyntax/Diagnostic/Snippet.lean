import ModuleSyntax.Diagnostic
import ModuleSyntax.Text.Line
import ModuleSyntax.Text.Space

namespace ModuleSyntax.Diagnostic

def heading (d : Diagnostic) : String :=
  "Error: " ++ d.cause.name ++ d.cause.tip?.elim "" fun tip => " (" ++ tip ++ ")"

def lineNumber (d : Diagnostic) : List Char :=
  (toString (d.position.line + 1)).toList

def gutter (d : Diagnostic) : List Char :=
  List.replicate (d.lineNumber.length + 1) ' ' ++ ['|']

def sourceLine (d : Diagnostic) (source : String) : List Char :=
  Text.line source.toList d.position.line.toNat

/-- The numbered line, without its indent and the spaces at its end. -/
def numbered (d : Diagnostic) (source : String) : List Char :=
  d.lineNumber ++ [' ', '|', ' '] ++ Text.trimEnd ((d.sourceLine source).dropWhile Text.isIndent)

/-- The line below it, which points at the column, moved left by the indent that is not shown. It
is as wide as the column asks for: that a formatter may pad to some width only, such as 65535, is
not modelled. -/
def pointer (d : Diagnostic) (source : String) : List Char :=
  let indent := ((d.sourceLine source).takeWhile Text.isIndent).length
  d.gutter ++ [' '] ++ List.replicate (d.position.column.toNat - indent) '-' ++ ['^']

def render (d : Diagnostic) (source file : String) : String :=
  String.ofList <| List.flatMap (· ++ ['\n'])
    [d.heading.toList, "-> ".toList ++ file.toList, d.gutter, d.numbered source, d.pointer source]

end ModuleSyntax.Diagnostic
