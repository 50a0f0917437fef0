import BodyCallout.Json.Numeral
import BodyCallout.Text.Utf8

/-!
The outline of a JSON text: its values in order, with numerals and strings as they are spelled, and
the place where the text stops being JSON, if it does. An outline decides nothing about what a
value should be: how deep values may nest, whether a numeral is in range and whether a string is
Unicode are questions for whoever reads it, and a value that nobody asks for is only passed over.

The scan takes one byte at a time and keeps the open arrays and objects on a stack.
-/

set_option autoImplicit false

namespace BodyCallout.Json

open Data

mutual
/-- A value. A cut one carries the stop met by reading it and the one met by passing over it: a
numeral that the text leaves unfinished ends too early for a reader and is ill-formed for others. -/
inductive Outline where
  | missing (stop : Stop)
  | cutText (read skipped : Stop)
  | cutScalar (read skipped : Stop)
  | null
  | boolean (b : Bool)
  | number (n : Numeral)
  | text (content : Option String)
  | array (items : Items)
  | object (members : Members)
inductive Items where
  | closed
  | cut (stop : Stop)
  | item (value : Outline) (rest : Items)
/-- The members of an object up to its end or its cut; `comma` says that a comma precedes the cut.
A key is `none` when it is not Unicode. -/
inductive Members where
  | closed
  | cut (comma : Bool) (read skipped : Stop)
  | member (key : Option String) (value : Outline) (rest : Members)
end

def Items.stop? : Items → Option Stop
  | .closed => none
  | .cut stop => some stop
  | .item _ rest => rest.stop?

def Members.stop? : Members → Option Stop
  | .closed => none
  | .cut _ _ skipped => some skipped
  | .member _ _ rest => rest.stop?

def Outline.stop? : Outline → Option Stop
  | .missing stop => some stop
  | .cutText _ skipped => some skipped
  | .cutScalar _ skipped => some skipped
  | .null => none
  | .boolean _ => none
  | .number _ => none
  | .text _ => none
  | .array items => items.stop?
  | .object members => members.stop?

def Outline.pass (o : Outline) : Reading Unit :=
  match o.stop? with
  | none => .ok ()
  | some stop => stopped stop

def Items.ofReversed (newest : List Outline) (tail : Items) : Items :=
  newest.foldl (fun rest value => .item value rest) tail

def Members.ofReversed (newest : List (Option String × Outline)) (tail : Members) : Members :=
  newest.foldl (fun rest entry => .member entry.1 entry.2 rest) tail

/-- An array or object that is still open, with what it holds, newest first. -/
inductive Frame where
  | array (items : List Outline)
  | object (members : List (Option String × Outline))
  | keyed (members : List (Option String × Outline)) (key : Option String)

def cutOutline : List Frame → Outline → Stop → Outline
  | [], value, _ => value
  | .array items :: outer, value, stop =>
    cutOutline outer (.array (.ofReversed (value :: items) (.cut stop))) stop
  | .object members :: outer, _, stop =>
    cutOutline outer (.object (.ofReversed members (.cut false stop stop))) stop
  | .keyed members key :: outer, value, stop =>
    cutOutline outer (.object (.ofReversed ((key, value) :: members) (.cut false stop stop))) stop

inductive Place where
  | value
  | firstItem
  | firstKey
  | nextKey
  | colon
  | after

inductive NumeralStage where
  | sign
  | zero
  | whole
  | point
  | fraction
  | mark
  | markSign
  | exponent

def NumeralStage.complete : NumeralStage → Bool
  | .zero | .whole | .fraction | .exponent => true
  | .sign | .point | .mark | .markSign => false

structure NumeralScan where
  stage : NumeralStage
  negative : Bool
  whole : List Nat
  fraction : List Nat
  down : Bool
  exponent : List Nat
  pointed : Bool
  marked : Bool

def NumeralScan.numeral (n : NumeralScan) : Numeral where
  negative := n.negative
  whole := n.whole.reverse
  fraction := if n.pointed then some n.fraction.reverse else none
  exponent := if n.marked then some (n.down, n.exponent.reverse) else none

inductive Escape where
  | none
  | backslash
  | code (digits : Nat) (value : Nat) (bad : Bool)

/-- A string in progress: its bytes, newest first, whether a surrogate stands alone in it, and a
high surrogate that waits for the low one. -/
structure TextScan where
  bytes : List UInt8
  flawed : Bool
  high : Option Nat
  escape : Escape

def TextScan.start : TextScan := ⟨[], false, none, .none⟩

def TextScan.content (t : TextScan) : Option String :=
  if t.flawed || t.high.isSome then none
  else (Utf8.decode? t.bytes.reverse).map String.ofList

inductive Lexing where
  | between (place : Place)
  | word (owed : List UInt8) (value : Outline)
  | numeral (n : NumeralScan)
  | text (isKey : Bool) (t : TextScan)

/-- A scan: open, with one whole value and nothing more, with something after it, or cut. -/
inductive Scanner where
  | scanning (stack : List Frame) (lexing : Lexing)
  | whole (value : Outline)
  | trailing (value : Outline)
  | cut (value : Outline)

def Scanner.start : Scanner := .scanning [] (.between .value)

def deliver (stack : List Frame) (value : Outline) : Scanner :=
  match stack with
  | [] => .whole value
  | .array items :: outer => .scanning (.array (value :: items) :: outer) (.between .after)
  | .object members :: outer => .scanning (.object members :: outer) (.between .after)
  | .keyed members key :: outer =>
    .scanning (.object ((key, value) :: members) :: outer) (.between .after)

def isSpace (b : UInt8) : Bool := b = 0x20 || b = 0x09 || b = 0x0A || b = 0x0D

def isDigit (b : UInt8) : Bool := 0x30 ≤ b && b ≤ 0x39

def digitOf (b : UInt8) : Nat := b.toNat - 0x30

def NumeralScan.start (b : UInt8) : NumeralScan :=
  let n : NumeralScan := ⟨.sign, false, [], [], false, [], false, false⟩
  if b = 0x2D then { n with negative := true }
  else { n with stage := if b = 0x30 then .zero else .whole, whole := [digitOf b] }

def cutValue (stack : List Frame) (value : Outline) (stop : Stop) : Scanner :=
  .cut (cutOutline stack value stop)

def beginValue (stack : List Frame) (b : UInt8) : Scanner :=
  if b = 0x22 then .scanning stack (.text false .start)
  else if b = 0x5B then .scanning (.array [] :: stack) (.between .firstItem)
  else if b = 0x7B then .scanning (.object [] :: stack) (.between .firstKey)
  else if b = 0x2D || isDigit b then .scanning stack (.numeral (.start b))
  else if b = 0x6E then .scanning stack (.word [0x75, 0x6C, 0x6C] .null)
  else if b = 0x74 then .scanning stack (.word [0x72, 0x75, 0x65] (.boolean true))
  else if b = 0x66 then .scanning stack (.word [0x61, 0x6C, 0x73, 0x65] (.boolean false))
  else cutValue stack (.missing .illFormed) .illFormed

/-- The cut of the innermost frame itself, between its items or members. -/
def cutFrame (stack : List Frame) (comma : Bool) (stop : Stop) : Scanner :=
  match stack with
  | [] => .cut (.missing stop)
  | .array items :: outer => cutValue outer (.array (.ofReversed items (.cut stop))) stop
  | .object members :: outer =>
    cutValue outer (.object (.ofReversed members (.cut comma stop stop))) stop
  | _ => cutValue stack (.missing stop) stop

def stepBetween (stack : List Frame) (place : Place) (b : UInt8) : Scanner :=
  if isSpace b then .scanning stack (.between place)
  else
    match place, stack with
    | .value, _ => beginValue stack b
    | .firstItem, .array items :: outer =>
      if b = 0x5D then deliver outer (.array (.ofReversed items .closed))
      else beginValue stack b
    | .firstKey, .object members :: outer =>
      if b = 0x22 then .scanning stack (.text true .start)
      else if b = 0x7D then deliver outer (.object (.ofReversed members .closed))
      else cutFrame stack false .illFormed
    | .nextKey, _ =>
      if b = 0x22 then .scanning stack (.text true .start) else cutFrame stack true .illFormed
    | .colon, _ =>
      if b = 0x3A then .scanning stack (.between .value)
      else cutValue stack (.missing .illFormed) .illFormed
    | .after, .array items :: outer =>
      if b = 0x2C then .scanning stack (.between .value)
      else if b = 0x5D then deliver outer (.array (.ofReversed items .closed))
      else cutFrame stack false .illFormed
    | .after, .object members :: outer =>
      if b = 0x2C then .scanning stack (.between .nextKey)
      else if b = 0x7D then deliver outer (.object (.ofReversed members .closed))
      else cutFrame stack false .illFormed
    | _, _ => cutFrame stack false .illFormed

/-- What a byte does to a numeral: it goes on, it is over before the byte, or it is ill-formed. -/
inductive NumeralStep where
  | goes (n : NumeralScan)
  | over
  | bad

def NumeralScan.step (n : NumeralScan) (b : UInt8) : NumeralStep :=
  let point := b = 0x2E
  let mark := b = 0x65 || b = 0x45
  let pointed := .goes { n with stage := .point, pointed := true }
  let marked := .goes { n with stage := .mark, marked := true }
  match n.stage with
  | .sign =>
    if isDigit b then
      .goes { n with stage := if b = 0x30 then .zero else .whole, whole := [digitOf b] }
    else .bad
  | .zero =>
    if isDigit b then .bad else if point then pointed else if mark then marked else .over
  | .whole =>
    if isDigit b then .goes { n with whole := digitOf b :: n.whole }
    else if point then pointed else if mark then marked else .over
  | .point =>
    if isDigit b then .goes { n with stage := .fraction, fraction := [digitOf b] } else .bad
  | .fraction =>
    if isDigit b then .goes { n with fraction := digitOf b :: n.fraction }
    else if mark then marked else .over
  | .mark =>
    if isDigit b then .goes { n with stage := .exponent, exponent := [digitOf b] }
    else if b = 0x2B then .goes { n with stage := .markSign }
    else if b = 0x2D then .goes { n with stage := .markSign, down := true }
    else .bad
  | .markSign =>
    if isDigit b then .goes { n with stage := .exponent, exponent := [digitOf b] } else .bad
  | .exponent =>
    if isDigit b then .goes { n with exponent := digitOf b :: n.exponent } else .over

def hexValue? (b : UInt8) : Option Nat :=
  if isDigit b then some (digitOf b)
  else if 0x61 ≤ b && b ≤ 0x66 then some (b.toNat - 0x57)
  else if 0x41 ≤ b && b ≤ 0x46 then some (b.toNat - 0x37)
  else none

def TextScan.pushChar (t : TextScan) (c : Char) : TextScan :=
  { t with bytes := (String.utf8EncodeChar c).reverse ++ t.bytes, escape := .none }

/-- A byte that stands for itself; a waiting high surrogate is alone before it. -/
def TextScan.pushByte (t : TextScan) (b : UInt8) : TextScan :=
  { bytes := b :: t.bytes, flawed := t.flawed || t.high.isSome, high := none, escape := .none }

def TextScan.pushCode (t : TextScan) (code : Nat) : TextScan :=
  let isLow := 0xDC00 ≤ code && code ≤ 0xDFFF
  match t.high with
  | some high =>
    if isLow then
      { t.pushChar (Char.ofNat (0x10000 + (high - 0xD800) * 0x400 + (code - 0xDC00))) with
        high := none }
    else { t with flawed := true, high := none, escape := .none }
  | none =>
    if isLow then { t with flawed := true, escape := .none }
    else if 0xD800 ≤ code && code ≤ 0xDBFF then { t with high := some code, escape := .none }
    else t.pushChar (Char.ofNat code)

inductive TextStep where
  | goes (t : TextScan)
  | over
  | bad

def simpleEscape? (b : UInt8) : Option UInt8 :=
  if b = 0x22 || b = 0x5C || b = 0x2F then some b
  else if b = 0x62 then some 0x08
  else if b = 0x66 then some 0x0C
  else if b = 0x6E then some 0x0A
  else if b = 0x72 then some 0x0D
  else if b = 0x74 then some 0x09
  else none

def TextScan.step (t : TextScan) (b : UInt8) : TextStep :=
  match t.escape with
  | .none =>
    if b = 0x22 then .over
    else if b = 0x5C then .goes { t with escape := .backslash }
    else if b < 0x20 then .bad
    else .goes (t.pushByte b)
  | .backslash =>
    if b = 0x75 then .goes { t with escape := .code 0 0 false }
    else
      match simpleEscape? b with
      | some c => .goes (t.pushByte c)
      | none => .bad
  | .code digits value bad =>
    let value' := value * 16 + (hexValue? b).getD 0
    let bad' := bad || (hexValue? b).isNone
    if digits < 3 then .goes { t with escape := .code (digits + 1) value' bad' }
    else if bad' then .bad
    else .goes (t.pushCode value')

def cutText (stack : List Frame) (isKey : Bool) (read skipped : Stop) : Scanner :=
  if isKey then
    match stack with
    | .object members :: outer =>
      cutValue outer
        (.object (.ofReversed members (.cut (!members.isEmpty) read skipped))) skipped
    | _ => cutFrame stack false skipped
  else cutValue stack (.cutText read skipped) skipped

def Scanner.step : Scanner → UInt8 → Scanner
  | .scanning stack (.between place), b => stepBetween stack place b
  | .scanning stack (.word owed value), b =>
    match owed with
    | [c] =>
      if b = c then deliver stack value
      else cutValue stack (.cutScalar .illFormed .illFormed) .illFormed
    | c :: d :: rest =>
      if b = c then .scanning stack (.word (d :: rest) value)
      else cutValue stack (.cutScalar .illFormed .illFormed) .illFormed
    | [] => cutValue stack (.cutScalar .illFormed .illFormed) .illFormed
  | .scanning stack (.numeral n), b =>
    match n.step b with
    | .goes n => .scanning stack (.numeral n)
    | .bad => cutValue stack (.cutScalar .illFormed .illFormed) .illFormed
    | .over =>
      match deliver stack (.number n.numeral) with
      | .scanning stack (.between place) => stepBetween stack place b
      | .whole value => if isSpace b then .whole value else .trailing value
      | other => other
  | .scanning stack (.text isKey t), b =>
    match t.step b with
    | .goes t => .scanning stack (.text isKey t)
    | .bad => cutText stack isKey .illFormed .illFormed
    | .over =>
      if isKey then
        match stack with
        | .object members :: outer =>
          .scanning (.keyed members t.content :: outer) (.between .colon)
        | _ => cutFrame stack false .illFormed
      else deliver stack (.text t.content)
  | .whole value, b => if isSpace b then .whole value else .trailing value
  | .trailing value, _ => .trailing value
  | .cut value, _ => .cut value

structure Document where
  value : Outline
  trailing : Bool

def endBetween (stack : List Frame) : Place → Outline
  | .value => cutOutline stack (.missing .ended) .ended
  | .colon => cutOutline stack (.missing .ended) .ended
  | .nextKey => match cutFrame stack true .ended with | .cut value => value | _ => .missing .ended
  | _ => match cutFrame stack false .ended with | .cut value => value | _ => .missing .ended

def Scanner.finish : Scanner → Document
  | .scanning stack (.between place) => ⟨endBetween stack place, false⟩
  | .scanning stack (.word _ _) => ⟨cutOutline stack (.cutScalar .ended .ended) .ended, false⟩
  | .scanning stack (.numeral n) =>
    if n.stage.complete then
      match deliver stack (.number n.numeral) with
      | .scanning stack (.between place) => ⟨endBetween stack place, false⟩
      | .whole value => ⟨value, false⟩
      | .cut value => ⟨value, false⟩
      | _ => ⟨.missing .ended, false⟩
    else ⟨cutOutline stack (.cutScalar .ended .illFormed) .illFormed, false⟩
  | .scanning stack (.text isKey t) =>
    match cutText stack isKey (if t.flawed then .illFormed else .ended) .ended with
    | .cut value => ⟨value, false⟩
    | _ => ⟨.missing .ended, false⟩
  | .whole value => ⟨value, false⟩
  | .trailing value => ⟨value, true⟩
  | .cut value => ⟨value, false⟩

def scan (text : List UInt8) : Scanner := text.foldl Scanner.step .start

theorem scan_append (a b : List UInt8) : scan (a ++ b) = b.foldl Scanner.step (scan a) := by
  simp [scan]

def outline (text : List UInt8) : Document := (scan text).finish

end BodyCallout.Json
