import BodyCallout.Toml.Number
import BodyCallout.Toml.Quoted

/-!
TOML documents. A document is read into its lines; the entries among them fall into sections by the
headers, and the sections are put into one table.
-/

set_option autoImplicit false

namespace BodyCallout.Toml

open Scan

def maxDepth : Nat := 79

def isBare (c : Char) : Bool := c.isAlphanum || c = '-' || c = '_'

def bareKey : Scan (List Char) := fun text =>
  let name := text.takeWhile isBare
  if name.isEmpty then none else some (name, text.dropWhile isBare)

def simpleKey : Scan String := fun text => do
  let (name, rest) ← (basic (skipSpace text)).or
    ((literal (skipSpace text)).or (bareKey (skipSpace text)))
  some (String.ofList name, skipSpace rest)

def dottedKey : Scan (List String × String) := fun text => do
  let (keys, rest) ← separated '.' simpleKey text
  if maxDepth < keys.length then none
  else
    let last ← keys.getLast?
    some ((keys.dropLast, last), rest)

def word : Scan Node := fun text =>
  ((marks ['t', 'r', 'u', 'e'] text).map fun (_, rest) => (.boolean true, rest)).or
    ((marks ['f', 'a', 'l', 's', 'e'] text).map fun (_, rest) => (.boolean false, rest))

def scalar : Scan Node := fun text =>
  ((string text).map fun (cs, rest) => (.text (String.ofList cs), rest)).or
    ((number text).or (word text))

def entry (value : Scan Node) : Scan Entry := fun text => do
  let ((path, key), text) ← dottedKey text
  let (_, text) ← mark '=' text
  let (v, text) ← value (skipSpace text)
  some (⟨path, key, v⟩, skipSpace text)

/-- Between its brackets an array may break lines, and a comma may stand after its last item. -/
def array (value : Scan Node) : Scan Node := fun text => do
  let (_, text) ← mark '[' text
  let item : Scan Node := fun text => do
    let (v, text) ← value (skipGaps text)
    some (v, skipGaps text)
  let (items, text) := match separated ',' item text with
    | some (items, ',' :: rest) => (items, rest)
    | some (items, rest) => (items, rest)
    | none => ([], text)
  let (_, text) ← mark ']' (skipGaps text)
  some (.array items, text)

/-- Between its braces a table keeps to one line, and no comma stands after its last entry. -/
def braced (value : Scan Node) : Scan Node := fun text => do
  let (_, text) ← mark '\x7b' text
  let (entries, text) := (separated ',' (entry value) text).getD ([], text)
  let (_, text) ← mark '\x7d' (skipSpace text)
  let members ← Members.fill entries []
  some (.table .braced members, text)

def value : Nat → Scan Node
  | 0 => scalar
  | depth + 1 => fun text =>
    (array (value depth) text).or ((braced (value depth) text).or (scalar text))

inductive Line where
  | blank
  | header (repeated : Bool) (path : List String) (key : String)
  | entry (entry : Entry)

def headerLine (repeated : Bool) (close : List Char) : Scan Line := fun text => do
  let ((path, key), text) ← dottedKey text
  let (_, text) ← marks close text
  let (_, text) ← lineEnd text
  some (.header repeated path key, text)

def entryLine : Scan Line := fun text => do
  let (e, text) ← entry (value maxDepth) text
  let (_, text) ← lineEnd text
  some (.entry e, text)

def line : Scan Line := fun text =>
  match skipSpace text with
  | [] => none
  | '[' :: '[' :: rest => headerLine true [']', ']'] rest
  | '[' :: rest => headerLine false [']'] rest
  | c :: rest =>
    if c = '#' ∨ c = '\r' ∨ c = '\n' then (lineEnd (c :: rest)).map fun (_, rest) => (.blank, rest)
    else entryLine (c :: rest)

def sections : List Line → List Entry × List Section
  | [] => ([], [])
  | .blank :: ls => sections ls
  | .entry e :: ls =>
    let (es, ss) := sections ls
    (e :: es, ss)
  | .header repeated path key :: ls =>
    let (es, ss) := sections ls
    ([], ⟨repeated, path, key, es⟩ :: ss)

def byteOrderMark : Char := '\uFEFF'

def read? (text : List Char) : Option Node := do
  let text := if text.head? = some byteOrderMark then text.tail else text
  let (lines, rest) := many line text
  if (skipSpace rest).isEmpty then
    let (es, ss) := sections lines
    (Members.ofSections es ss).map (.table .opened)
  else none

end BodyCallout.Toml
