import BodyCallout.Store.Transaction
import BodyCallout.Text.Blank
import BodyCallout.Text.LetterCase
import BodyCallout.Text.Sorted
import BodyCallout.Text.Utf8
import BodyCallout.Wire.Mutation

set_option autoImplicit false

namespace BodyCallout

inductive Refusal where
  | rejected (reason : String)
  | failed (reason : String)
  deriving DecidableEq, Repr

abbrev Builder := Body → Except Refusal Mutation

inductive Format where
  | json
  | xml
  | text
  deriving DecidableEq, Repr

def Format.name : Format → String
  | .json => "json"
  | .xml => "xml"
  | .text => "text"

/-- Goes by the first and the last character that are not blank. -/
def Format.ofText (text : List Char) : Format :=
  let text := Text.trim text
  if text.head? = some (Char.ofNat 0x7B) ∧ text.getLast? = some (Char.ofNat 0x7D) then .json
  else if text.head? = some '<' ∧ text.getLast? = some '>' then .xml
  else .text

namespace Classifier

def keywords : List (String × String) :=
  [("x-body-has-error", "error"), ("x-body-has-warning", "warning")]

def pairs (bytes : List UInt8) : List (String × String) :=
  let text := Utf8.repair bytes
  let lowered := Text.lowerAll text
  ("x-body-size", Decimal.text bytes.length) :: ("x-body-format", (Format.ofText text).name) ::
    keywords.filterMap fun (header, word) =>
      if Text.mentions word.toList lowered then some (header, "true") else none

/-- The headers come in order of their keys, however they were found. -/
def mutation (bytes : List UInt8) : Mutation := .ofPairs (Text.Sorted.ofPairs (pairs bytes)).entries

def builder : Builder := fun body => .ok (mutation body.bytes)

end Classifier

end BodyCallout
