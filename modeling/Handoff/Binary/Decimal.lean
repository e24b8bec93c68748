import Handoff.Binary.Basic

namespace Handoff.Binary

variable {f : Format}

def ofDecimalExact (negative : Bool) (n : Nat) (e : Int) : Binary f :=
  if 0 ≤ e then round negative (n * Nat.pow 10 e.toNat) 1 0
  else round negative n (Nat.pow 10 (-e).toNat) 0

/-- The number nearest to `± n · 10 ^ e`, without forming powers that no answer needs: beyond the
range of the format every numeral is infinity or zero. -/
def ofDecimal (negative : Bool) (n : Nat) (e : Int) : Binary f :=
  let digits : Int := (Nat.toDigits 10 n).length
  if n = 0 then zero negative
  else if f.maxExponent + f.precision < digits - 1 + e then infinity negative
  else if digits + e < f.minExponent - 1 then zero negative
  else ofDecimalExact negative n e

instance : OfScientific (Binary f) :=
  ⟨fun n negativeExponent e =>
    ofDecimal false n (if negativeExponent then -(e : Int) else (e : Int))⟩

end Handoff.Binary
