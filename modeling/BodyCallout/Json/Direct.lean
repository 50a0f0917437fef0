import BodyCallout.Data.Held
import BodyCallout.Json.Tree

/-!
Reading a value of a shape from JSON text. Where the text says what follows before it follows, the
value is read straight off the outline: members nobody knows are passed over unread, and the first
fault met from the left is reported. Content that stands before its tag is held as a tree until
the tag is known, and so is everything inside a frame, whose tag may stand anywhere in it.
-/

set_option autoImplicit false

namespace BodyCallout.Json

open Data

def Tree.view : Tree → View Tree
  | .null => .null
  | .boolean b => .boolean b
  | .number n => .number n
  | .text s => .text s
  | .array items => .list items
  | .object members => .map members

def oneEntry : String := "map with a single key"

/-- A tree that was held until its tag was known; an empty object is as good as null beside a
chosen name, and the tag that heads a list may be a place. -/
def heldDialect : Dialect Tree where
  view := Tree.view
  surplus total used := some (.wrongLength total (elements used ++ " in sequence"))
  empty := .wrongValue .map oneEntry
  crowded := .wrongValue .map oneEntry
  unnamed found := .wrongType found "string or map"
  unit
    | .null => none
    | .object [] => none
    | t => some (.wrongType t.view.found "unit")
  placed := true

/-- A tree that was given as a tree; beside a chosen name only null is right. -/
def treeDialect : Dialect Tree where
  view := Tree.view
  surplus total _ := some (.wrongLength total "fewer elements in array")
  empty := .wrongValue .map oneEntry
  crowded := .wrongValue .map oneEntry
  unnamed found := .wrongType found "string or map"
  unit
    | .null => none
    | t => some (.wrongType t.view.found "unit")
  placed := false

def Outline.found : Outline → Reading Found
  | .missing stop => stopped stop
  | .cutText read _ => stopped read
  | .cutScalar read _ => stopped read
  | .null => .ok .null
  | .boolean b => .ok (.boolean b)
  | .number n => (readNumber n).map Number.found
  | .text content => (readText content).map .text
  | .array _ => .ok .sequence
  | .object _ => .ok .map

def Outline.unexpected {α : Type} (o : Outline) (expected : String) : Reading α := do
  wrongType (← o.found) expected

def readName (names : List String) (o : Outline) : Reading (Fin names.length) :=
  match o with
  | .text content => do chosen names (← readText content)
  | _ => o.unexpected nameTitle

def readUnit : Outline → Reading Unit
  | .null => .ok ()
  | o => o.unexpected "unit"

def Members.lone : Members → Reading Unit
  | .closed => .ok ()
  | .cut false read _ => stopped read
  | _ => stopped .illFormed

/-- A choice is a name, or an object with null under the name; a value of any other kind is
ill-formed whatever it is. -/
def readChoice (names : List String) (depth : Nat) (o : Outline) : Reading (Fin names.length) :=
  match o with
  | .missing stop => stopped stop
  | .cutText read _ => stopped read
  | .text content => do chosen names (← readText content)
  | .object members =>
    match depth, members with
    | 0, _ => stopped .illFormed
    | _ + 1, .closed => stopped .illFormed
    | _ + 1, .cut _ read _ => stopped read
    | _ + 1, .member key value rest => do
      let i ← chosen names (← readText key)
      readUnit value
      rest.lone
      .ok i
  | _ => stopped .illFormed

/-- The end of an array whose items a record has used. -/
def Items.finish : Items → Reading Unit
  | .closed => .ok ()
  | .cut stop => stopped stop
  | .item _ _ => stopped .illFormed

def Items.readAll {α : Type} (read : Outline → Reading α) : List α → Items → Reading (List α)
  | newest, .closed => .ok newest.reverse
  | _, .cut stop => stopped stop
  | newest, .item value rest => do
    let v ← read value
    rest.readAll read (v :: newest)

def Members.readAll {σ : Type} (read : String → Outline → σ → Reading σ) :
    Members → σ → Reading σ
  | .closed, s => .ok s
  | .cut _ stop _, _ => stopped stop
  | .member key value rest, s => do
    let k ← readText key
    let s ← read k value s
    rest.readAll read s

inductive Next where
  | tag (value : Outline) (rest : Members)
  | content (value : Outline) (rest : Members)
  | neither

def Members.next (tag content : String) : Members → Reading Next
  | .closed => .ok .neither
  | .cut _ read _ => stopped read
  | .member key value rest => do
    let k ← readText key
    if k = tag then .ok (.tag value rest)
    else if k = content then .ok (.content value rest)
    else
      value.pass
      rest.next tag content

def Members.noMore (tag content : String) (members : Members) : Reading Unit := do
  match ← members.next tag content with
  | .neither => .ok ()
  | .tag _ _ => mismatched (.repeated tag)
  | .content _ _ => mismatched (.repeated content)

end BodyCallout.Json

namespace BodyCallout.Data

open Json

mutual
/-- Reads a value of a shape off its outline; `depth` more arrays and objects may open. -/
def Shape.read : (s : Shape) → (depth : Nat) → Outline → Reading s.Value
  | .boolean, _, o =>
    match o with
    | .boolean b => .ok b
    | _ => o.unexpected "a boolean"
  | .natural title bound, _, o =>
    match o with
    | .number n => do
      match ← readNumber n with
      | .natural n =>
        if h : n < bound then .ok ⟨n, h⟩ else mismatched (.wrongValue (.integer n) title)
      | .negative n => mismatched (.wrongValue (.integer (-(n : Int))) title)
      | .binary x => wrongType (.binary x) title
    | _ => o.unexpected title
  | .text, _, o =>
    match o with
    | .text content => readText content
    | _ => o.unexpected "a string"
  | .list item, depth, o =>
    match o, depth with
    | .array _, 0 => stopped .illFormed
    | .array items, depth + 1 => items.readAll (item.read depth) []
    | _, _ => o.unexpected "a sequence"
  | .optional inner, depth, o =>
    match o with
    | .null => .ok none
    | _ => (inner.read depth o).map some
  | .choice names, depth, o => readChoice names depth o
  | .record title fields, depth, o =>
    match o, depth with
    | .array _, 0 => stopped .illFormed
    | .object _, 0 => stopped .illFormed
    | .array items, depth + 1 => do
      let (vs, left) ← fields.readItems (recordLength title fields) depth 0 items
      left.finish
      .ok vs
    | .object members, depth + 1 => do
      let slots ← members.readAll (fun name o slots => fields.readMember depth name o slots)
        fields.vacant
      fields.fill slots
    | _, _ => o.unexpected title
  | .tagged title tag content cases, depth, o =>
    match o, depth with
    | .array _, 0 => stopped .illFormed
    | .object _, 0 => stopped .illFormed
    | .array .closed, _ => mismatched (.wrongLength 0 title)
    | .array (.cut stop), _ => stopped stop
    | .array (.item name rest), depth + 1 => do
      let i ← readName cases.names name
      match rest with
      | .closed => mismatched (.wrongLength 1 title)
      | .cut stop => stopped stop
      | .item value rest => do
        let v ← cases.readAs i depth value
        rest.finish
        .ok v
    | .object members, depth + 1 => do
      match ← members.next tag content with
      | .neither => mismatched (.missing tag)
      | .tag name rest => do
        let i ← readChoice cases.names depth name
        match ← rest.next tag content with
        | .neither => mismatched (.missing content)
        | .tag _ _ => mismatched (.repeated tag)
        | .content value rest => do
          let v ← cases.readAs i depth value
          rest.noMore tag content
          .ok v
      | .content value rest => do
        let t ← value.tree depth
        match ← rest.next tag content with
        | .neither => mismatched (.missing tag)
        | .content _ _ => mismatched (.repeated content)
        | .tag name rest => do
          let i ← readChoice cases.names depth name
          let v ← cases.heldAs heldDialect i t
          rest.noMore tag content
          .ok v
    | _, _ => o.unexpected title
/-- Reads a record whose fields are listed in order, and answers the items it did not use. -/
def Fields.readItems : (f : Fields) → (expected : String) → (depth index : Nat) → Items →
    Reading (f.Values × Items)
  | .done, _, _, _, items => .ok ((), items)
  | .must _ shape rest, expected, depth, index, items =>
    match items with
    | .closed => mismatched (.wrongLength index expected)
    | .cut stop => stopped stop
    | .item value more => do
      let v ← shape.read depth value
      let (vs, left) ← rest.readItems expected depth (index + 1) more
      .ok ((v, vs), left)
  | .may _ shape rest, expected, depth, index, items =>
    match items with
    | .closed => do
      let (vs, left) ← rest.readItems expected depth (index + 1) .closed
      .ok ((none, vs), left)
    | .cut stop => stopped stop
    | .item value more => do
      let v ← shape.read depth value
      let (vs, left) ← rest.readItems expected depth (index + 1) more
      .ok ((some v, vs), left)
def Fields.readMember : (f : Fields) → (depth : Nat) → String → Outline → f.Slots →
    Reading f.Slots
  | .done, _, _, o, () => o.pass
  | .must key shape rest, depth, name, o, (slot, slots) =>
    if name = key then
      match slot with
      | some _ => mismatched (.repeated key)
      | none => (shape.read depth o).map fun v => (some v, slots)
    else (rest.readMember depth name o slots).map (slot, ·)
  | .may key shape rest, depth, name, o, (slot, slots) =>
    if name = key then
      match slot with
      | some _ => mismatched (.repeated key)
      | none => (shape.read depth o).map fun v => (some v, slots)
    else (rest.readMember depth name o slots).map (slot, ·)
def Cases.readAs : (c : Cases) → Fin c.names.length → (depth : Nat) → Outline → Reading c.Values
  | .case _ shape _, ⟨0, _⟩, depth, o => (shape.read depth o).map .inl
  | .case _ _ rest, ⟨i + 1, h⟩, depth, o =>
    (rest.readAs ⟨i, Nat.lt_of_succ_lt_succ h⟩ depth o).map .inr
end

end BodyCallout.Data

namespace BodyCallout.Json

open Data

def readWhole {α : Type} (read : Outline → Reading α) (text : List UInt8) : Reading α := do
  let doc := outline text
  let v ← read doc.value
  if doc.trailing then stopped .illFormed else .ok v

def decode (s : Shape) (text : List UInt8) : Reading s.Value :=
  readWhole (s.read maxDepth) text

/-- One of several records, with the name of the case among its members under `tag`. -/
structure Union where
  title : String
  tag : String
  cases : Cases

/-- The members of a union as far as they have been met: the case, once it is named, and the others,
newest first. -/
structure Union.Met (u : Union) where
  name : Option (Fin u.cases.names.length)
  others : List (String × Tree)

def Union.readMember (u : Union) (depth : Nat) (key : String) (o : Outline) (met : u.Met) :
    Reading u.Met :=
  if key = u.tag then
    match met.name with
    | some _ => mismatched (.repeated u.tag)
    | none => (readName u.cases.names o).map fun i => { met with name := some i }
  else (o.tree depth).map fun t => { met with others := (key, t) :: met.others }

def Union.read (u : Union) (depth : Nat) (o : Outline) : Reading u.cases.Values :=
  match o, depth with
  | .array _, 0 => stopped .illFormed
  | .object _, 0 => stopped .illFormed
  | .array .closed, _ => mismatched (.missing u.tag)
  | .array (.cut stop), _ => stopped stop
  | .array (.item name rest), depth + 1 => do
    let i ← readName u.cases.names name
    let items ← rest.trees depth []
    u.cases.heldAs heldDialect i (.array items)
  | .object members, depth + 1 => do
    let met ← members.readAll (u.readMember depth) ⟨none, []⟩
    match met.name with
    | none => mismatched (.missing u.tag)
    | some i => u.cases.heldAs heldDialect i (.object met.others.reverse)
  | _, _ => o.unexpected u.title

def Union.decode (u : Union) (text : List UInt8) : Reading u.cases.Values :=
  readWhole (u.read maxDepth) text

end BodyCallout.Json
