import Sitewright.Text.Basic

/-!
Bytes in base 64. Reading passes over characters outside the alphabet; what it insists on is
that the last group of four is full or closed by equals signs.
-/
namespace Sitewright.Base64

def value? (c : Char) : Option Nat :=
  let n := c.toNat
  if 'A' ≤ c && c ≤ 'Z' then some (n - 65)
  else if 'a' ≤ c && c ≤ 'z' then some (n - 71)
  else if '0' ≤ c && c ≤ '9' then some (n + 4)
  else if c = '+' then some 62
  else if c = '/' then some 63
  else none

/-- How far the current group of four has come. -/
inductive Group where
  | empty
  | one (left : Nat)
  | two (left : Nat)
  | three (left : Nat)

/-- May equals signs close the group, and how many are needed? -/
def Group.missing : Group → Option Nat
  | .two _ => some 2
  | .three _ => some 1
  | _ => none

/-- The group with one more value, and the byte that this completes. -/
def Group.push (n : Nat) : Group → Group × List UInt8
  | .empty => (.one n, [])
  | .one left => (.two (n % 16), [UInt8.ofNat (left * 4 + n / 16)])
  | .two left => (.three (n % 4), [UInt8.ofNat (left * 16 + n / 4)])
  | .three left => (.empty, [UInt8.ofNat (left * 64 + n)])

/-- Reads on within a group, after a number of equals signs. -/
def decodeFrom? (g : Group) (signs : Nat) : Text → Option (List UInt8)
  | [] =>
    match g with
    | .empty => some []
    | _ => none
  | c :: cs =>
    if c = '=' then
      match g.missing with
      | some n => if n ≤ signs + 1 then some [] else decodeFrom? g (signs + 1) cs
      | none => decodeFrom? g signs cs
    else match value? c with
      | some n =>
        let (g, bytes) := g.push n
        (decodeFrom? g 0 cs).map (bytes ++ ·)
      | none => decodeFrom? g signs cs

/-- The bytes that a text writes, none if it breaks off inside a group. -/
def decode? (t : Text) : Option (List UInt8) := decodeFrom? .empty 0 t

end Sitewright.Base64
