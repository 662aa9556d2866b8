/-
  Membership in a table of code point ranges.
-/

namespace SealedStore.Unicode

/-- Some range of the table holds the code point. -/
def inRanges (ranges : List (Nat × Nat)) (n : Nat) : Bool :=
  ranges.any fun r => r.1 ≤ n && n ≤ r.2

end SealedStore.Unicode
