/-!
# Bisection

Search in a half-open range of places. `side` tells on which side of a place the target lies:
`lt` before it, `gt` after it, `eq` at it; it gives `none` when nothing is stored at the place,
which ends the search.
-/

namespace FontCatalog

/-- The place in `[low, high)` at which the search ends up on the target. -/
def bisect (side : Nat → Option Ordering) (low high : Nat) : Option Nat :=
  if low < high then
    let middle := (low + high) / 2
    match side middle with
    | none => none
    | some .lt => bisect side low middle
    | some .gt => bisect side (middle + 1) high
    | some .eq => some middle
  else none
termination_by high - low

end FontCatalog
