namespace ModuleSyntax

/-- Operators and punctuation. The order of the constructors is the order in which expected
kinds are listed. -/
inductive Mark where
  | openBracket | closeBracket | openCurly | closeCurly | openParen | closeParen
  | assignment | equals | notEquals | less | lessEquals | greater | greaterEquals
  | semicolon | comma | plus | dash | slash | star | percent
deriving DecidableEq

inductive Keyword where
  | moduleWord | importWord | publicWord | typeWord | voidWord | intWord | booleanWord
  | stringWord | trueWord | falseWord | ifWord | elseWord | whileWord | breakWord | returnWord
deriving DecidableEq

inductive Kind where
  | eof | intLiteral | stringLiteral | identifier
  | mark (mark : Mark)
  | keyword (word : Keyword)
deriving DecidableEq

namespace Mark

def all : List Mark :=
  [openBracket, closeBracket, openCurly, closeCurly, openParen, closeParen, assignment, equals,
    notEquals, less, lessEquals, greater, greaterEquals, semicolon, comma, plus, dash, slash, star,
    percent]

theorem mem_all (m : Mark) : m ∈ all := by cases m <;> decide

def spelling : Mark → String
  | openBracket => "["
  | closeBracket => "]"
  | openCurly => "\x7b"
  | closeCurly => "\x7d"
  | openParen => "("
  | closeParen => ")"
  | assignment => "="
  | equals => "=="
  | notEquals => "!="
  | less => "<"
  | lessEquals => "<="
  | greater => ">"
  | greaterEquals => ">="
  | semicolon => ";"
  | comma => ","
  | plus => "+"
  | dash => "-"
  | slash => "/"
  | star => "*"
  | percent => "%"

def name : Mark → String
  | openBracket => "OpenBracket"
  | closeBracket => "CloseBracket"
  | openCurly => "OpenCurly"
  | closeCurly => "CloseCurly"
  | openParen => "OpenParen"
  | closeParen => "CloseParen"
  | assignment => "Assignment"
  | equals => "Equals"
  | notEquals => "NotEquals"
  | less => "Less"
  | lessEquals => "LessEquals"
  | greater => "Greater"
  | greaterEquals => "GreaterEquals"
  | semicolon => "Semicolon"
  | comma => "Comma"
  | plus => "Plus"
  | dash => "Dash"
  | slash => "Slash"
  | star => "Star"
  | percent => "Percent"

theorem spelling_ne_nil (m : Mark) : m.spelling.toList ≠ [] := by cases m <;> decide

def rank (m : Mark) : Nat := all.idxOf m

end Mark

namespace Keyword

def all : List Keyword :=
  [moduleWord, importWord, publicWord, typeWord, voidWord, intWord, booleanWord, stringWord,
    trueWord, falseWord, ifWord, elseWord, whileWord, breakWord, returnWord]

theorem mem_all (k : Keyword) : k ∈ all := by cases k <;> decide

def spelling : Keyword → String
  | moduleWord => "module"
  | importWord => "import"
  | publicWord => "public"
  | typeWord => "type"
  | voidWord => "void"
  | intWord => "int"
  | booleanWord => "boolean"
  | stringWord => "string"
  | trueWord => "true"
  | falseWord => "false"
  | ifWord => "if"
  | elseWord => "else"
  | whileWord => "while"
  | breakWord => "break"
  | returnWord => "return"

def name : Keyword → String
  | moduleWord => "Module"
  | importWord => "Import"
  | publicWord => "Public"
  | typeWord => "Type"
  | voidWord => "Void"
  | intWord => "Int"
  | booleanWord => "Boolean"
  | stringWord => "String"
  | trueWord => "True"
  | falseWord => "False"
  | ifWord => "If"
  | elseWord => "Else"
  | whileWord => "While"
  | breakWord => "Break"
  | returnWord => "Return"

/-- Words are reserved in their exact lower-case spelling only. -/
def ofWord? (word : String) : Option Keyword :=
  all.find? fun k => k.spelling = word

theorem ofWord?_eq_some_iff {word : String} {k : Keyword} :
    ofWord? word = some k ↔ k.spelling = word := by
  constructor
  · intro h
    simpa using List.find?_some h
  · rintro rfl
    cases k <;> decide

def rank (k : Keyword) : Nat := all.idxOf k

end Keyword

namespace Kind

def all : List Kind :=
  [eof, intLiteral, stringLiteral, identifier] ++ Mark.all.map mark ++ Keyword.all.map keyword

theorem mem_all (k : Kind) : k ∈ all := by
  cases k with
  | mark m => simp [all, Mark.mem_all]
  | keyword w => simp [all, Keyword.mem_all]
  | _ => simp [all]

def rank : Kind → Nat
  | eof => 0
  | intLiteral => 1
  | stringLiteral => 2
  | identifier => 3
  | mark m => 4 + m.rank
  | keyword w => 24 + w.rank

instance : Ord Kind := ⟨fun a b => compare a.rank b.rank⟩

def name : Kind → String
  | eof => "EOF"
  | intLiteral => "IntLiteral"
  | stringLiteral => "StringLiteral"
  | identifier => "Identifier"
  | mark m => m.name
  | keyword w => w.name

def isKeyword : Kind → Bool
  | keyword _ => true
  | _ => false

def ofWord (word : String) : Kind :=
  (Keyword.ofWord? word).elim identifier keyword

/-- The given kinds in listing order, each once. -/
def listing (kinds : List Kind) : List Kind :=
  all.filter (kinds.contains ·)

theorem mem_listing {kinds : List Kind} {k : Kind} : k ∈ listing kinds ↔ k ∈ kinds := by
  simp [listing, mem_all]

end Kind

end ModuleSyntax
