namespace Handoff

/-- A binary format: how many bits a significand has, and between which exponents its last
place lies. -/
structure Format where
  precision : Nat
  minExponent : Int
  maxExponent : Int
deriving DecidableEq, Repr

namespace Format

def single : Format := ⟨24, -149, 104⟩

def double : Format := ⟨53, -1074, 971⟩

/-- Significands have the full number of bits, but for those at the least exponent. -/
def Fits (f : Format) (significand : Nat) (exponent : Int) : Prop :=
  significand < 1 <<< f.precision ∧ f.minExponent ≤ exponent ∧ exponent ≤ f.maxExponent ∧
    (1 <<< (f.precision - 1) ≤ significand ∨ exponent = f.minExponent)

instance (f : Format) (m : Nat) (e : Int) : Decidable (f.Fits m e) :=
  inferInstanceAs (Decidable (_ ∧ _ ∧ _ ∧ _))

end Format

/-- A number of a format. There is one value that is no number, whatever its payload, so that an
equation between numbers says nothing about payloads. -/
inductive Binary (f : Format)
  | nan
  | infinity (negative : Bool)
  | finite (negative : Bool) (significand : Nat) (exponent : Int)
      (fits : f.Fits significand exponent)
deriving DecidableEq

abbrev Binary32 := Binary .single

abbrev Binary64 := Binary .double

/-- The quotient of two naturals to the nearest natural; a half goes to the even neighbour. -/
def roundDiv (a b : Nat) : Nat :=
  let q := a / b
  let r := a % b
  if b < 2 * r || (b == 2 * r && q % 2 == 1) then q + 1 else q

/-- `n · 2 ^ s` for a shift in either direction, as a fraction. -/
def scale (n d : Nat) (s : Int) : Nat × Nat :=
  if 0 ≤ s then (n <<< s.toNat, d) else (n, d <<< (-s).toNat)

def leadingExponent (n d : Nat) : Int :=
  let k : Int := (n.log2 : Int) - d.log2
  let (a, b) := scale n d (-k)
  if b ≤ a then k else k - 1

namespace Binary

variable {f : Format}

/-- The number with these parts, or infinity where the format has no such number. -/
def ofParts (negative : Bool) (significand : Nat) (exponent : Int) : Binary f :=
  if h : f.Fits significand exponent then .finite negative significand exponent h
  else .infinity negative

def zero (negative : Bool) : Binary f := ofParts negative 0 f.minExponent

/-- The number nearest to `± n / d · 2 ^ e`; a tie goes to the even significand. -/
def round (negative : Bool) (n d : Nat) (e : Int) : Binary f :=
  if n = 0 then zero negative
  else
    let lead := leadingExponent n d + e
    let q := max (lead - (f.precision - 1)) f.minExponent
    let (a, b) := scale n d (e - q)
    let m := roundDiv a b
    if m = 1 <<< f.precision then ofParts negative (1 <<< (f.precision - 1)) (q + 1)
    else ofParts negative m q

def ofScaled (n : Int) (e : Int) : Binary f := round (n < 0) n.natAbs 1 e

def ofInt (n : Int) : Binary f := ofScaled n 0

instance (n : Nat) : OfNat (Binary f) n := ⟨ofInt n⟩

def convert {g : Format} : Binary f → Binary g
  | nan => nan
  | infinity s => infinity s
  | finite s m e _ => round s m 1 e

def isNan : Binary f → Bool
  | nan => true
  | _ => false

def isFinite : Binary f → Bool
  | finite .. => true
  | _ => false

def truncate : Binary f → Int
  | finite s m e _ =>
    let (a, b) := scale m 1 e
    if s then -(a / b : Nat) else (a / b : Nat)
  | _ => 0

end Binary

/-- The number with this pattern of a sign, eight exponent bits and 23 fraction bits. -/
def Binary32.ofBits (w : UInt32) : Binary32 :=
  let n := w.toNat
  let negative := n >>> 31 == 1
  let exponent : Nat := (n >>> 23) % 256
  let fraction : Nat := n % 0x800000
  if exponent = 255 then if fraction = 0 then .infinity negative else .nan
  else if exponent = 0 then .ofParts negative fraction (-149)
  else .ofParts negative (0x800000 + fraction) ((exponent : Int) - 150)

/-- The bit pattern; what is no number has the quiet pattern without a payload. -/
def Binary.toBits : Binary32 → UInt32
  | nan => 0x7FC00000
  | infinity s => if s then 0xFF800000 else 0x7F800000
  | finite s m e _ =>
    let exponent := if m < 0x800000 then 0 else (e + 150).toNat
    UInt32.ofNat ((if s then 0x80000000 else 0) + exponent <<< 23 + m % 0x800000)

end Handoff
