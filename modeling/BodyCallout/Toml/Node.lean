import BodyCallout.Data.Held

/-!
The contents of a TOML document. A table remembers how it came about, for that decides what may be
added to it later: a table opened by its header is complete when the next header comes, one that a
longer header or a dotted key has implied can still be added to in kind, and one written between
braces is a value like any other.
-/

set_option autoImplicit false

namespace BodyCallout.Toml

open Data

inductive Origin where
  | opened
  | implied
  | dotted
  | braced
  deriving DecidableEq, Repr

/-- A moment is a date, a time or both. Rows are the tables of one repeated header. -/
inductive Node where
  | text (s : String)
  | integer (n : Int)
  | binary (x : Float)
  | boolean (b : Bool)
  | moment
  | array (items : List Node)
  | table (origin : Origin) (members : List (String × Node))
  | rows (tables : List (List (String × Node)))

abbrev Members := List (String × Node)

namespace Members

def find? (ms : Members) (key : String) : Option Node :=
  (List.find? (fun m => m.1 = key) ms).map Prod.snd

def erase (ms : Members) (key : String) : Members := ms.filter fun m => m.1 ≠ key

/-- Changes what is under a key; what was not there goes to the end. -/
def alter (key : String) (f : Option Node → Option Node) : Members → Option Members
  | [] => (f none).map fun n => [(key, n)]
  | (k, n) :: ms =>
    if k = key then (f (some n)).map fun n => (k, n) :: ms
    else (alter key f ms).map ((k, n) :: ·)

def onLast (f : Members → Option Members) : List Members → Option (List Members)
  | [] => none
  | [ms] => (f ms).map ([·])
  | ms :: rest => (onLast f rest).map (ms :: ·)

/-- Puts a value under a new key, which other keys may lead to. These name tables that dotted keys
have made, or make them; the last of them has to be such a table. -/
def insertAt : List String → String → Node → Members → Option Members
  | [], key, value =>
    alter key fun
      | none => some value
      | some _ => none
  | k :: path, key, value =>
    alter k fun
      | none => (insertAt path key value []).map (.table .dotted)
      | some (.table .dotted ms) => (insertAt path key value ms).map (.table .dotted)
      | some (.table .implied ms) =>
        if path.isEmpty then none else (insertAt path key value ms).map (.table .implied)
      | some (.rows tables) =>
        if path.isEmpty then none else (onLast (insertAt path key value) tables).map .rows
      | some _ => none

/-- Changes the table that a header's first keys lead to; tables that are not there are implied. -/
def descend : List String → (Members → Option Members) → Members → Option Members
  | [], f => f
  | k :: path, f =>
    alter k fun
      | none => (descend path f []).map (.table .implied)
      | some (.table .braced _) => none
      | some (.table origin ms) => (descend path f ms).map (.table origin)
      | some (.rows tables) => (onLast (descend path f) tables).map .rows
      | some _ => none

end Members

structure Entry where
  path : List String
  key : String
  value : Node

structure Section where
  repeated : Bool
  path : List String
  key : String
  entries : List Entry

def Members.fill (entries : List Entry) (ms : Members) : Option Members :=
  entries.foldlM (fun ms e => ms.insertAt e.path e.key e.value) ms

/-- A table is opened once. If a longer header has implied it, it moves to the end. -/
def Members.openTable (key : String) (entries : List Entry) (ms : Members) : Option Members :=
  match ms.find? key with
  | none => (Members.fill entries []).map fun t => ms ++ [(key, .table .opened t)]
  | some (.table .implied t) =>
    (Members.fill entries t).map fun t => ms.erase key ++ [(key, .table .opened t)]
  | some _ => none

def Members.openRow (key : String) (entries : List Entry) : Members → Option Members :=
  alter key fun
    | none => (Members.fill entries []).map fun t => .rows [t]
    | some (.rows tables) => (Members.fill entries []).map fun t => .rows (tables ++ [t])
    | some _ => none

def Members.place (ms : Members) (s : Section) : Option Members :=
  ms.descend s.path
    (if s.repeated then Members.openRow s.key s.entries else Members.openTable s.key s.entries)

def Members.ofSections (entries : List Entry) (sections : List Section) : Option Members := do
  sections.foldlM Members.place (← Members.fill entries [])

def Node.view : Node → View Node
  | .text s => .text s
  | .integer n => .number (if n < 0 then .negative n.natAbs else .natural n.natAbs)
  | .binary x => .number (.binary x)
  | .boolean b => .boolean b
  | .moment => .moment
  | .array items => .list items
  | .table _ members => .map members
  | .rows tables => .list (tables.map (.table .opened))

def Node.unit : Node → Option Mismatch
  | .text _ => some (.fullChoice "table, found string")
  | .integer _ => some (.fullChoice "table, found integer")
  | .binary _ => some (.fullChoice "table, found float")
  | .boolean _ => some (.fullChoice "table, found boolean")
  | .moment => some (.fullChoice "table, found datetime")
  | .array items => if items.isEmpty then none else some (.fullChoice "empty table")
  | .table _ members => if members.isEmpty then none else some (.fullChoice "empty table")
  | .rows tables => if tables.isEmpty then none else some (.fullChoice "empty array")

/-- A list may be longer than a record needs. -/
def dialect : Dialect Node where
  view := Node.view
  surplus _ _ := none
  empty := .emptyChoice
  crowded := .crowdedChoice
  unnamed _ := .noChoice
  unit := Node.unit
  placed := false

end BodyCallout.Toml
