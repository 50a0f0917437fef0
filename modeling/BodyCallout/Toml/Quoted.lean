import BodyCallout.Text.Scan

set_option autoImplicit false

namespace BodyCallout.Toml

open Scan

def isSpace (c : Char) : Bool := c = ' ' || c = '\t'

def skipSpace (text : List Char) : List Char := text.dropWhile isSpace

def isPlain (c : Char) : Bool := c = '\t' || (0x20 ≤ c.toNat && c.toNat ≠ 0x7F)

def newline : Scan Unit
  | '\n' :: rest => some ((), rest)
  | '\r' :: '\n' :: rest => some ((), rest)
  | _ => none

def skipComment : List Char → List Char
  | '#' :: rest => rest.dropWhile isPlain
  | text => text

def lineEnd (text : List Char) : Option (Unit × List Char) :=
  match skipComment (skipSpace text) with
  | [] => some ((), [])
  | text => newline text

def skipGaps (text : List Char) : List Char :=
  skipSpace (many (fun text => newline (skipComment (skipSpace text))) text).2

def hexChar (count : Nat) : Scan Char := fun text =>
  let ds := (text.take count).filterMap (digit? 16)
  let n := ofDigits 16 ds
  if ds.length = count ∧ n.isValidChar then some (Char.ofNat n, text.drop count) else none

def escaped : Scan Char
  | 'b' :: rest => some ('\x08', rest)
  | 'f' :: rest => some ('\x0c', rest)
  | 'n' :: rest => some ('\n', rest)
  | 'r' :: rest => some ('\r', rest)
  | 't' :: rest => some ('\t', rest)
  | '"' :: rest => some ('"', rest)
  | '\\' :: rest => some ('\\', rest)
  | 'u' :: rest => hexChar 4 rest
  | 'U' :: rest => hexChar 8 rest
  | _ => none

def plainPiece (quote : Char) : Scan (List Char)
  | [] => none
  | c :: rest => if isPlain c && c ≠ quote then some ([c], rest) else none

def basicPiece : Scan (List Char)
  | '\\' :: rest => (escaped rest).map fun (c, rest) => ([c], rest)
  | text => plainPiece '"' text

def quoted (quote : Char) (piece : Scan (List Char)) : Scan (List Char) := fun text => do
  let (_, text) ← mark quote text
  let (pieces, text) := many piece text
  let (_, text) ← mark quote text
  some (pieces.flatten, text)

def breakPiece : Scan (List Char) := fun text => (newline text).map fun (_, rest) => (['\n'], rest)

def quotesPiece (quote : Char) : Scan (List Char)
  | a :: b :: c :: rest =>
    if a ≠ quote then none
    else if b ≠ quote then some ([quote], b :: c :: rest)
    else if c ≠ quote then some ([quote, quote], c :: rest)
    else none
  | [a, b] => if a = quote ∧ b ≠ quote then some ([quote], [b]) else none
  | _ => none

/-- A backslash at the end of a line skips to the next thing that is not white space. -/
def continuation : Scan (List Char)
  | '\\' :: rest => do
    let (_, rest) ← newline (skipSpace rest)
    let soft : Scan Unit := fun text =>
      match text with
      | ' ' :: rest => some ((), rest)
      | '\t' :: rest => some ((), rest)
      | _ => newline text
    some ([], (many soft rest).2)
  | _ => none

def multiline (quote : Char) (piece : Scan (List Char)) : Scan (List Char) := fun text => do
  let fence := List.replicate 3 quote
  let (_, text) ← marks fence text
  let text := match newline text with
    | some (_, rest) => rest
    | none => text
  let (pieces, text) := many
    (fun text => (breakPiece text).or ((quotesPiece quote text).or (piece text))) text
  let closing := (text.takeWhile (· = quote)).length
  if closing < 3 then none
  else
    let more := min (closing - 3) 2
    some (pieces.flatten ++ List.replicate more quote, text.drop (3 + more))

def basic : Scan (List Char) := quoted '"' basicPiece

def literal : Scan (List Char) := quoted '\'' (plainPiece '\'')

def multilineBasic : Scan (List Char) :=
  multiline '"' fun text => (continuation text).or (basicPiece text)

def multilineLiteral : Scan (List Char) := multiline '\'' (plainPiece '\'')

def string : Scan (List Char) := fun text =>
  (multilineBasic text).or ((basic text).or ((multilineLiteral text).or (literal text)))

end BodyCallout.Toml
