import ApiContract.Text.PrintableTable

/-!
Printable characters, those that a shown text keeps as they are.
-/

namespace ApiContract.Text

def isPrintable (c : Char) : Bool :=
  printableRanges.any fun r => r.1 ≤ c.toNat && c.toNat ≤ r.2

end ApiContract.Text
