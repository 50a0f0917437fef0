import BodyCallout.Data.Shape

/-!
Reading a value that is held as a tree. Several kinds of tree are read alike; a dialect says what a
node is and settles the few questions on which they differ: what a list longer than a record means,
and how a choice or a tag may be spelled.
-/

set_option autoImplicit false

namespace BodyCallout.Data

/-- One node of a tree. A moment is a date or a time, which counts as a map without known keys. -/
inductive View (T : Type) where
  | null
  | boolean (b : Bool)
  | number (n : Number)
  | text (s : String)
  | list (items : List T)
  | map (members : List (String × T))
  | moment

def View.found {T : Type} : View T → Found
  | .null => .null
  | .boolean b => .boolean b
  | .number n => n.found
  | .text s => .text s
  | .list _ => .sequence
  | .map _ => .map
  | .moment => .map

/-- `surplus total used` is the objection to a list of `total` items of which a record used `used`;
`empty`, `crowded` and `unnamed` are those to a choice spelled by a map with no or several entries or
by neither a text nor a map; `unit` is that to the value beside a chosen name; `placed` says that the
tag that heads a list may be the place of its name. -/
structure Dialect (T : Type) where
  view : T → View T
  surplus : Nat → Nat → Option Mismatch
  empty : Mismatch
  crowded : Mismatch
  unnamed : Found → Mismatch
  unit : T → Option Mismatch
  placed : Bool

def objection (m : Option Mismatch) : Reading Unit :=
  match m with
  | none => .ok ()
  | some m => mismatched m

def chosen (names : List String) (name : String) : Reading (Fin names.length) :=
  match names.finIdxOf? name with
  | some i => .ok i
  | none => mismatched (.unknown name names)

def nameTitle : String := "variant identifier"

def placeTitle (count : Nat) : String := "variant index 0 <= i < " ++ Decimal.text count

section
variable {T : Type} (D : Dialect T)

def heldChoice (names : List String) (t : T) : Reading (Fin names.length) :=
  match D.view t with
  | .text s => chosen names s
  | .map [] => mismatched D.empty
  | .map [(key, value)] => do
    let i ← chosen names key
    objection (D.unit value)
    .ok i
  | .map _ => mismatched D.crowded
  | v => mismatched (D.unnamed v.found)

/-- The tag of a tagged value that is a list: a name or, in some dialects, its place among those that
are possible. -/
def heldTag (names : List String) (t : T) : Reading (Fin names.length) :=
  match D.view t, D.placed with
  | .text s, _ => chosen names s
  | .number (.natural n), true =>
    if h : n < names.length then .ok ⟨n, h⟩
    else mismatched (.wrongValue (.integer n) (placeTitle names.length))
  | v, _ => wrongType v.found nameTitle

/-- The tag and the content of a tagged value among its members, in the order in which they
come. -/
inductive Relevant (T : Type) where
  | tag (value : T) (rest : List (String × T))
  | content (value : T) (rest : List (String × T))
  | neither

def heldRelevant (tag content : String) : List (String × T) → Relevant T
  | [] => .neither
  | (key, value) :: rest =>
    if key = tag then .tag value rest
    else if key = content then .content value rest
    else heldRelevant tag content rest

def heldNoMore (tag content : String) (members : List (String × T)) : Reading Unit :=
  match heldRelevant tag content members with
  | .neither => .ok ()
  | .tag _ _ => mismatched (.repeated tag)
  | .content _ _ => mismatched (.repeated content)

mutual
def Shape.held : (s : Shape) → T → Reading s.Value
  | .boolean, t =>
    match D.view t with
    | .boolean b => .ok b
    | v => wrongType v.found "a boolean"
  | .natural title bound, t =>
    match D.view t with
    | .number (.natural n) =>
      if h : n < bound then .ok ⟨n, h⟩ else mismatched (.wrongValue (.integer n) title)
    | .number (.negative n) => mismatched (.wrongValue (.integer (-(n : Int))) title)
    | v => wrongType v.found title
  | .text, t =>
    match D.view t with
    | .text s => .ok s
    | v => wrongType v.found "a string"
  | .list item, t =>
    match D.view t with
    | .list items => items.mapM item.held
    | v => wrongType v.found "a sequence"
  | .optional inner, t =>
    match D.view t with
    | .null => .ok none
    | _ => (inner.held t).map some
  | .choice names, t => heldChoice D names t
  | .record title fields, t =>
    match D.view t with
    | .list items => do
      let vs ← fields.heldItems (recordLength title fields) 0 items
      objection (if fields.count < items.length then D.surplus items.length fields.count else none)
      .ok vs
    | .map members => do
      let slots ← members.foldlM (fun slots entry => fields.heldMember entry.1 entry.2 slots)
        fields.vacant
      fields.fill slots
    | .moment => fields.fill fields.vacant
    | v => wrongType v.found title
  | .tagged title tag content cases, t =>
    match D.view t with
    | .list [] => mismatched (.wrongLength 0 title)
    | .list [name] => do
      let _ ← heldTag D cases.names name
      mismatched (.wrongLength 1 title)
    | .list (name :: value :: more) => do
      let i ← heldTag D cases.names name
      let v ← cases.heldAs i value
      objection (if more.isEmpty then none else D.surplus (more.length + 2) 2)
      .ok v
    | .map members =>
      match heldRelevant tag content members with
      | .neither => mismatched (.missing tag)
      | .tag name rest => do
        let i ← heldChoice D cases.names name
        match heldRelevant tag content rest with
        | .neither => mismatched (.missing content)
        | .tag _ _ => mismatched (.repeated tag)
        | .content value rest => do
          let v ← cases.heldAs i value
          heldNoMore tag content rest
          .ok v
      | .content value rest =>
        match heldRelevant tag content rest with
        | .neither => mismatched (.missing tag)
        | .content _ _ => mismatched (.repeated content)
        | .tag name rest => do
          let i ← heldChoice D cases.names name
          let v ← cases.heldAs i value
          heldNoMore tag content rest
          .ok v
    | .moment => mismatched (.missing tag)
    | v => wrongType v.found title
/-- Reads a record whose fields are listed in order; `index` of them have been read. -/
def Fields.heldItems : (f : Fields) → (expected : String) → (index : Nat) → List T →
    Reading f.Values
  | .done, _, _, _ => .ok ()
  | .must _ shape rest, expected, index, items =>
    match items with
    | [] => mismatched (.wrongLength index expected)
    | t :: more => do
      let v ← shape.held t
      let vs ← rest.heldItems expected (index + 1) more
      .ok (v, vs)
  | .may _ shape rest, expected, index, items =>
    match items with
    | [] => (rest.heldItems expected (index + 1) []).map (none, ·)
    | t :: more => do
      let v ← shape.held t
      let vs ← rest.heldItems expected (index + 1) more
      .ok (some v, vs)
/-- Reads one member of a record into its slot; a member that is no field is passed over. -/
def Fields.heldMember : (f : Fields) → String → T → f.Slots → Reading f.Slots
  | .done, _, _, () => .ok ()
  | .must key shape rest, name, t, (slot, slots) =>
    if name = key then
      match slot with
      | some _ => mismatched (.repeated key)
      | none => (shape.held t).map fun v => (some v, slots)
    else (rest.heldMember name t slots).map (slot, ·)
  | .may key shape rest, name, t, (slot, slots) =>
    if name = key then
      match slot with
      | some _ => mismatched (.repeated key)
      | none => (shape.held t).map fun v => (some v, slots)
    else (rest.heldMember name t slots).map (slot, ·)
def Cases.heldAs : (c : Cases) → Fin c.names.length → T → Reading c.Values
  | .case _ shape _, ⟨0, _⟩, t => (shape.held t).map .inl
  | .case _ _ rest, ⟨i + 1, h⟩, t => (rest.heldAs ⟨i, Nat.lt_of_succ_lt_succ h⟩ t).map .inr
end

end

end BodyCallout.Data
