/-! Sets of code points given as sorted, disjoint closed ranges. -/
namespace Lisplet.Text

def inRanges (ranges : List (Nat × Nat)) (c : Char) : Bool :=
  ranges.any fun r => r.1 ≤ c.toNat && c.toNat ≤ r.2

end Lisplet.Text
