import BodyCallout.Text.Scan

set_option autoImplicit false

namespace BodyCallout

inductive SocketAddress where
  | v4 (octets : List Nat) (port : Nat)
  | v6 (groups : List Nat) (zone port : Nat)
  deriving DecidableEq, Repr

namespace SocketAddress

open Scan

def number (base most bound : Nat) (leadingZeros : Bool) : Scan Nat := fun text =>
  let (ds, rest) := many (digit base) text
  let n := ofDigits base ds
  let zeros := ds.head? = some 0 && 1 < ds.length
  if ds.isEmpty || most < ds.length || (zeros && !leadingZeros) || bound ≤ n then none
  else some (n, rest)

def after {α : Type} (c : Char) (index : Nat) (scan : Scan α) : Scan α := fun text =>
  if index = 0 then scan text else (mark c text).bind fun (_, rest) => scan rest

def octets : Scan (List Nat) := fun text => do
  let octet := number 10 3 256 false
  let (a, text) ← octet text
  let (b, text) ← after '.' 1 octet text
  let (c, text) ← after '.' 1 octet text
  let (d, text) ← after '.' 1 octet text
  some ([a, b, c, d], text)

/-- The groups that four octets stand for. -/
def paired : List Nat → List Nat
  | [a, b, c, d] => [a * 256 + b, c * 256 + d]
  | _ => []

/-- Up to `room` groups, and whether the last two were written as octets. -/
def groups : (room index : Nat) → List Char → (List Nat × Bool) × List Char
  | 0, _, text => (([], false), text)
  | room + 1, index, text =>
    match if room = 0 then none else after ':' index octets text with
    | some (o, rest) => ((paired o, true), rest)
    | none =>
      match after ':' index (number 16 4 65536 true) text with
      | none => (([], false), text)
      | some (g, rest) =>
        let ((gs, ended), rest) := groups room (index + 1) rest
        ((g :: gs, ended), rest)

def address : Scan (List Nat) := fun text => do
  let ((front, ended), text) := groups 8 0 text
  if front.length = 8 then some (front, text)
  else if ended then none
  else
    let (_, text) ← marks [':', ':'] text
    let ((back, _), text) := groups (7 - front.length) 0 text
    some (front ++ List.replicate (8 - front.length - back.length) 0 ++ back, text)

def port : Scan Nat := after ':' 1 fun text => number 10 text.length 65536 true text

def zone : Scan Nat := after '%' 1 fun text => number 10 text.length 4294967296 true text

def readV4 : Scan SocketAddress := fun text => do
  let (o, text) ← octets text
  let (p, text) ← port text
  some (.v4 o p, text)

def readV6 : Scan SocketAddress := fun text => do
  let (_, text) ← mark '[' text
  let (gs, text) ← address text
  let (z, text) := (zone text).getD (0, text)
  let (_, text) ← mark ']' text
  let (p, text) ← port text
  some (.v6 gs z p, text)

def ofText? (text : String) : Option SocketAddress :=
  match (readV4 text.toList).or (readV6 text.toList) with
  | some (a, []) => some a
  | _ => none

end SocketAddress

end BodyCallout
