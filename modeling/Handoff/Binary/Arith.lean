import Handoff.Binary.Basic

namespace Handoff.Binary

variable {f : Format}

/-- A finite number as a multiple of `2 ^ e`, for an exponent not above its own. -/
def multiple (negative : Bool) (m : Nat) (exponent e : Int) : Int :=
  let n : Int := (m <<< (exponent - e).toNat : Nat)
  if negative then -n else n

def neg : Binary f → Binary f
  | nan => nan
  | infinity s => infinity !s
  | finite s m e h => finite (!s) m e h

def abs : Binary f → Binary f
  | nan => nan
  | infinity _ => infinity false
  | finite _ m e h => finite false m e h

/-- A sum that is zero is negative only where both terms are. -/
def add : Binary f → Binary f → Binary f
  | nan, _ => nan
  | _, nan => nan
  | infinity s, infinity t => if s == t then infinity s else nan
  | infinity s, finite .. => infinity s
  | finite .., infinity t => infinity t
  | finite s m e _, finite t n d _ =>
    let low := min e d
    let sum := multiple s m e low + multiple t n d low
    if sum = 0 then zero (s && t) else ofScaled sum low

def mul : Binary f → Binary f → Binary f
  | nan, _ => nan
  | _, nan => nan
  | infinity s, infinity t => infinity (s != t)
  | infinity s, finite t n _ _ => if n = 0 then nan else infinity (s != t)
  | finite s m _ _, infinity t => if m = 0 then nan else infinity (s != t)
  | finite s m e _, finite t n d _ => round (s != t) (m * n) 1 (e + d)

def div : Binary f → Binary f → Binary f
  | nan, _ => nan
  | _, nan => nan
  | infinity _, infinity _ => nan
  | infinity s, finite t _ _ _ => infinity (s != t)
  | finite s _ _ _, infinity t => zero (s != t)
  | finite s m e _, finite t n d _ =>
    if n = 0 then if m = 0 then nan else infinity (s != t)
    else round (s != t) m n (e - d)

instance : Neg (Binary f) := ⟨neg⟩
instance : Add (Binary f) := ⟨add⟩
instance : Sub (Binary f) := ⟨fun x y => x + -y⟩
instance : Mul (Binary f) := ⟨mul⟩
instance : Div (Binary f) := ⟨div⟩

def floorSqrt (n : Nat) : Nat :=
  if n = 0 then 0 else go (1 <<< (n.log2 / 2 + 1)) (n.log2 + 2)
where
  go (guess : Nat) : Nat → Nat
    | 0 => guess
    | fuel + 1 =>
      let next := (guess + n / guess) / 2
      if next < guess then go next fuel else guess

/-- The square root. The root is taken to two bits more than are kept, and a last bit says
whether anything was left over, so that it rounds as the exact root does. -/
def sqrt : Binary f → Binary f
  | nan => nan
  | infinity s => if s then nan else infinity s
  | finite s m e h =>
    if m = 0 then finite s m e h
    else if s then nan
    else
      let shift := 2 * f.precision + (e % 2).toNat
      let n := m <<< shift
      let r := floorSqrt n
      round false (2 * r + if r * r = n then 0 else 1) 1 ((e - shift) / 2 - 1)

/-- What is left of the first number after as many whole multiples of the second as it holds;
it keeps the sign of the first, and is exact. -/
def remainder : Binary f → Binary f → Binary f
  | nan, _ => nan
  | _, nan => nan
  | infinity _, _ => nan
  | finite s m e h, infinity _ => finite s m e h
  | finite s m e _, finite _ n d _ =>
    if n = 0 then nan
    else
      let low := min e d
      let left := (m <<< (e - low).toNat) % (n <<< (d - low).toNat)
      round s left 1 low

/-- The order of two numbers; there is none where one of them is no number. -/
def compare? : Binary f → Binary f → Option Ordering
  | nan, _ => none
  | _, nan => none
  | infinity s, infinity t => some (if s == t then .eq else if s then .lt else .gt)
  | infinity s, finite .. => some (if s then .lt else .gt)
  | finite .., infinity t => some (if t then .gt else .lt)
  | finite s m e _, finite t n d _ =>
    let low := min e d
    some (compare (multiple s m e low) (multiple t n d low))

def less (x y : Binary f) : Bool := x.compare? y == some .lt

def atMost (x y : Binary f) : Bool := x.less y || x.compare? y == some .eq

def isZero (x : Binary f) : Bool := x.compare? 0 == some .eq

instance : LT (Binary f) := ⟨fun x y => x.less y = true⟩
instance : LE (Binary f) := ⟨fun x y => x.atMost y = true⟩
instance (x y : Binary f) : Decidable (x < y) := inferInstanceAs (Decidable (x.less y = true))
instance (x y : Binary f) : Decidable (x ≤ y) := inferInstanceAs (Decidable (x.atMost y = true))

/-- The larger number; one that is no number gives way to the other. -/
def larger (x y : Binary f) : Binary f :=
  if x.isNan then y else if y.isNan then x else if x < y then y else x

end Handoff.Binary
