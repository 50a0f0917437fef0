import BodyCallout.Text.Blank
import BodyCallout.Wire.Frame

/-!
Frames off a stream of bytes. The splitter takes one byte at a time and may be left at any point and
taken up again; what it answers depends on the bytes alone. A line longer than the limit is
answered as soon as one byte too many has come, and reading goes on after that byte.
-/

set_option autoImplicit false

namespace BodyCallout

open Data

inductive Line where
  | whole (bytes : List UInt8)
  | tooLong
  deriving DecidableEq, Repr

/-- A line in progress, newest byte first, and how many more bytes make it too long. -/
structure Splitter (limit : Nat) where
  held : List UInt8
  room : Nat
  held_add_room : held.length + room = limit + 1

namespace Splitter

variable {limit : Nat}

def start : Splitter limit := ⟨[], limit + 1, by simp⟩

def push (s : Splitter limit) (b : UInt8) : Splitter limit × Option Line :=
  if b = newline then (start, some (.whole s.held.reverse))
  else
    match h : s.room with
    | room + 2 =>
      (⟨b :: s.held, room + 1, by have := s.held_add_room; simp only [List.length_cons]; omega⟩,
        none)
    | _ => (start, some .tooLong)

/-- The last line needs no newline, unless it is empty. -/
def finish (s : Splitter limit) : Option Line :=
  if s.held.isEmpty then none else some (.whole s.held.reverse)

def pushAll (s : Splitter limit) (newest : List Line) (bytes : List UInt8) :
    Splitter limit × List Line :=
  bytes.foldl
    (fun (s, newest) b =>
      match s.push b with
      | (s, none) => (s, newest)
      | (s, some line) => (s, line :: newest))
    (s, newest)

end Splitter

def linesOf (limit : Nat) (input : List UInt8) : List Line :=
  let (s, newest) := (Splitter.start : Splitter limit).pushAll [] input
  (s.finish.toList ++ newest).reverse

/-- The pieces between the newlines; a last piece that is empty is none. -/
def cutLines : List UInt8 → List (List UInt8)
  | [] => []
  | b :: rest =>
    if b = newline then [] :: cutLines rest
    else
      match cutLines rest with
      | [] => [[b]]
      | line :: lines => (b :: line) :: lines

inductive Receipt (α : Type) where
  | frame (a : α)
  | malformed (fault : Fault)
  | tooLarge (limit : Nat)

/-- A blank line amounts to nothing. -/
def receive (α : Type) [Framed α] (limit : Nat) : Line → Option (Receipt α)
  | .tooLong => some (.tooLarge limit)
  | .whole line =>
    if Text.isBlankLine line then none
    else
      match decodeFrame α line with
      | .ok a => some (.frame a)
      | .error fault => some (.malformed fault)

def receiveAll (α : Type) [Framed α] (limit : Nat) (input : List UInt8) : List (Receipt α) :=
  (linesOf limit input).filterMap (receive α limit)

def tooLargeMessage (limit : Nat) : String :=
  "frame exceeds " ++ Decimal.text limit ++ " bytes"

def Data.Fault.message : Fault → String
  | .stop .ended => "EOF while parsing a value"
  | .stop .illFormed => "expected value"
  | .mismatch m => m.message .json

def malformedMessage (fault : Fault) : String := "malformed frame: " ++ fault.message

end BodyCallout
