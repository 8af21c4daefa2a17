namespace ModuleSyntax.Text

abbrev CharRange := Nat × Nat

def CharRange.holds (r : CharRange) (c : Char) : Bool :=
  r.1 ≤ c.toNat && c.toNat ≤ r.2

end ModuleSyntax.Text
