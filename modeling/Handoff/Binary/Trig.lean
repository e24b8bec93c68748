import Handoff.Binary.Arith
import Handoff.Binary.Decimal

namespace Handoff.Binary32

def sinKernel (x : Binary64) : Binary32 :=
  let z := x * x
  let w := z * z
  let r := -0.000198393348360966317347 + z * 0.0000027183114939898219064
  let s := z * x
  ((x + s * (-0.166666666416265235595 + z * 0.0083333293858894631756)) + s * w * r).convert

def cosKernel (x : Binary64) : Binary32 :=
  let z := x * x
  let w := z * z
  let r := -0.00138867637746099294692 + z * 0.0000243904487962774090654
  (((1 + z * -0.499999997251031003120) + w * 0.0416666233237390631894) + (w * z) * r).convert

/-- The first 384 fraction bits of `2 / π`. -/
def twoOverPi : Nat :=
  0xA2F9836E4E441529FC2757D1F534DDC0DB6295993C439041FE5163ABDEBBC561B7246E3A424DD2E006492EEA09D1921C

/-- `π / 2` in four pieces of 24 bits, the last bit of piece `k` being worth `2 ^ -(23 + 24 k)`. -/
def halfPiPieces : List Nat := [0xC90FDA, 0xA22168, 0xC234C4, 0xC6628B]

/-- Digits to the base `2 ^ 24`, the most significant first. -/
def digits24 (n : Nat) : List Nat := go [] n (n.log2 / 24 + 1)
where
  go (digits : List Nat) (n : Nat) : Nat → List Nat
    | 0 => digits
    | count + 1 => go (n % 0x1000000 :: digits) (n >>> 24) count

/-- The quarter turns in `m · 2 ^ e` and what is left of the last one, as a count, a sign and a
fraction over `2 ^ (24 last - shift)`. The product with `2 / π` is formed from the digit `skip`
on: the digits before it only add whole turns. More digits are taken while the fraction is small. -/
def quarterTurns (m skip : Nat) (shift : Int) (last : Nat) : Nat → Nat × Bool × Nat × Nat
  | 0 => (0, false, 0, last)
  | fuel + 1 =>
    let digits := (twoOverPi >>> (24 * (16 - (skip + last + 1)))) % (1 <<< (24 * (last + 1)))
    let product := m * digits
    let bits := (24 * last - shift).toNat
    let turns := product >>> bits
    let fraction := product % (1 <<< bits)
    let (turns, negative, fraction) :=
      if 1 <<< bits ≤ 2 * fraction then (turns + 1, true, 1 <<< bits - fraction)
      else (turns, false, fraction)
    if 1 <<< 72 ≤ fraction then (turns % 4, negative, fraction, last)
    else quarterTurns m skip shift (last + 4 - (digits24 fraction).length) fuel

/-- A fraction of a quarter turn, `fraction · 2 ^ (shift - 24 last)`, in radians: the products of
digits and pieces of equal weight are added exactly, and those sums from the least up. -/
def toRadians (fraction : Nat) (shift : Int) (last : Nat) : Binary64 :=
  let digits := digits24 fraction
  let top := shift - 24 * (last + 1 - digits.length : Nat)
  let weight (s : Nat) : Nat :=
    (halfPiPieces.zip (List.range 4)).foldl (fun sum (p, k) =>
      if k ≤ s then sum + p * (digits[s - k]?).getD 0 else sum) 0
  (List.range digits.length).reverse.foldl
    (fun acc s => acc + Binary.ofScaled (weight s) (top - 23 - 24 * s)) (0 : Binary64)

def reduceLarge (negative : Bool) (m : Nat) (e : Int) : Int × Binary64 :=
  let skip := ((e - 3) / 24).toNat
  let shift := e - 24 * (skip + 1)
  let (turns, flipped, fraction, last) := quarterTurns m skip shift 3 8
  let y := toRadians fraction shift last
  let y := if flipped then -y else y
  if negative then (-turns, -y) else (turns, y)

/-- Reduction by the nearest whole number of quarter turns, found by a rounding addition. -/
def reduceMedium (x : Binary64) : Int × Binary64 :=
  let toInteger : Binary64 := 6755399441055744
  let count := x * 0.636619772367581382433 + toInteger - toInteger
  (count.truncate, x - count * 1.57079631090164184570 - count * 0.0000000158932547735281966916)

/-- Magnitudes up to which the argument lies within half a quarter turn of `k` of them. -/
def nearTurns : List (Nat × Binary32) :=
  [(0, ofBits 0x3F490FDA), (1, ofBits 0x4016CBE3), (2, ofBits 0x407B53D1),
   (3, ofBits 0x40AFEDDF), (4, ofBits 0x40E231D5)]

def reduce (x : Binary32) : Int × Binary64 :=
  match x with
  | .finite negative m e _ =>
    match nearTurns.find? fun near => x.abs ≤ near.2 with
    | some (0, _) => (0, x.convert)
    | some (k, _) =>
      let turn : Binary64 := Binary.ofInt k * 1.57079632679489661923
      if negative then (-k, x.convert + turn) else (k, x.convert - turn)
    | none =>
      if x.abs < ofBits 0x4DC90FDB then reduceMedium x.convert else reduceLarge negative m e
  | _ => (0, .nan)

/-- The sine and the cosine of an angle in radians, by the usual algorithm in single precision, step
by step. What is proved about cameras needs no more of it than that it is a function. -/
def sinCos (x : Binary32) : Binary32 × Binary32 :=
  if x.abs < ofBits 0x39800000 then (x, 1)
  else
    let (turns, y) := reduce x
    let s := sinKernel y
    let c := cosKernel y
    match (turns % 4).toNat with
    | 0 => (s, c)
    | 1 => (c, -s)
    | 2 => (-s, -c)
    | _ => (-c, s)

end Handoff.Binary32
