import BodyCallout.Proofs.Toml.Distinct
import BodyCallout.Proofs.Toml.Lines

set_option autoImplicit false

namespace BodyCallout.Toml

open Scan

structure Item where
  key : String
  text : List Char
  node : Node
  stands : Stands text node

structure Block where
  name : String
  items : List Item
  distinct : (items.map Item.key).Nodup

/-- The items before the first header, and the blocks under the headers. -/
structure Document where
  top : List Item
  blocks : List Block
  distinct : (top.map Item.key ++ blocks.map Block.name).Nodup

namespace Item

def member (i : Item) : String × Node := (i.key, i.node)

def entry (i : Item) : Entry := ⟨[], i.key, i.node⟩

def lineText (i : Item) : List Char := entryText i.key i.text

end Item

namespace Block

def members (b : Block) : Members := b.items.map Item.member

def member (b : Block) : String × Node := (b.name, .table .opened b.members)

def toSection (b : Block) : Section := ⟨false, [], b.name, b.items.map Item.entry⟩

def text (b : Block) : List Char := headerText b.name ++ b.items.flatMap Item.lineText

end Block

namespace Document

def text (d : Document) : List Char := d.top.flatMap Item.lineText ++ d.blocks.flatMap Block.text

def members (d : Document) : Members := d.top.map Item.member ++ d.blocks.map Block.member

structure Rearranges (d d' : Document) : Prop where
  top : d.top.Perm d'.top
  kept : ∀ b ∈ d.blocks, ∃ b' ∈ d'.blocks, b.name = b'.name ∧ b.items.Perm b'.items
  nothingNew : ∀ b' ∈ d'.blocks, ∃ b ∈ d.blocks, b.name = b'.name ∧ b.items.Perm b'.items

end Document

theorem runs_items (is : List Item) {text rest : List Char} {ls : List Line}
    (h : Runs line text ls rest) :
    Runs line (is.flatMap Item.lineText ++ text) (is.map (.entry ·.entry) ++ ls) rest := by
  induction is with
  | nil => exact h
  | cons i is ih =>
    rw [List.flatMap_cons, List.append_assoc, List.map_cons, List.cons_append]
    exact .piece (by simp [Item.lineText, entryText]) (line_entryText i.key i.stands _) ih

def Block.lines (b : Block) : List Line :=
  .header false [] b.name :: b.items.map (.entry ·.entry)

theorem runs_blocks (bs : List Block) :
    Runs line (bs.flatMap Block.text) (bs.flatMap Block.lines) [] := by
  induction bs with
  | nil => exact .stop rfl
  | cons b bs ih =>
    rw [List.flatMap_cons, List.flatMap_cons, Block.text, Block.lines, List.append_assoc,
      List.cons_append]
    exact .piece (by simp [headerText]) (line_headerText b.name _) (runs_items b.items ih)

theorem sections_items (is : List Item) (ls : List Line) :
    sections (is.map (.entry ·.entry) ++ ls) =
      (is.map Item.entry ++ (sections ls).1, (sections ls).2) := by
  induction is with
  | nil => rfl
  | cons i is ih =>
    simp only [List.map_cons, List.cons_append, sections, ih]

theorem sections_blocks (bs : List Block) :
    sections (bs.flatMap Block.lines) = ([], bs.map Block.toSection) := by
  induction bs with
  | nil => rfl
  | cons b bs ih =>
    rw [List.flatMap_cons, Block.lines, List.cons_append, sections, sections_items, ih,
      List.append_nil]
    rfl

namespace Members

variable {key : String} {ms : Members}

theorem alter_new (h : key ∉ ms.map Prod.fst) (f : Option Node → Option Node) :
    alter key f ms = (f none).map fun n => ms ++ [(key, n)] := by
  induction ms with
  | nil => rfl
  | cons m ms ih =>
    rw [List.map_cons, List.mem_cons, not_or] at h
    rw [alter, if_neg (Ne.symm h.1), ih h.2]
    cases f none <;> rfl

theorem keys_items (is : List Item) : (is.map Item.member).map Prod.fst = is.map Item.key := by
  rw [List.map_map]
  rfl

theorem keys_blocks (bs : List Block) : (bs.map Block.member).map Prod.fst = bs.map Block.name := by
  rw [List.map_map]
  rfl

theorem fill_items {is : List Item} (h : (ms.map Prod.fst ++ is.map Item.key).Nodup) :
    fill (is.map Item.entry) ms = some (ms ++ is.map Item.member) := by
  induction is generalizing ms with
  | nil => simp [fill]
  | cons i is ih =>
    have hi : i.key ∉ ms.map Prod.fst := fun hm =>
      (List.nodup_append.mp h).2.2 _ hm _ (.head _) rfl
    have hs : insertAt [] i.key i.node ms = some (ms ++ [i.member]) := by
      rw [insertAt, alter_new hi]
      rfl
    have hn : ((ms ++ [i.member]).map Prod.fst ++ is.map Item.key).Nodup := by
      simpa [Item.member] using h
    rw [fill, List.map_cons, List.foldlM_cons]
    change (insertAt [] i.key i.node ms >>= fun ms => fill (is.map Item.entry) ms) = _
    rw [hs]
    change fill (is.map Item.entry) (ms ++ [i.member]) = _
    rw [ih hn]
    simp

theorem place_blocks {bs : List Block} (h : (ms.map Prod.fst ++ bs.map Block.name).Nodup) :
    (bs.map Block.toSection).foldlM place ms = some (ms ++ bs.map Block.member) := by
  induction bs generalizing ms with
  | nil => simp
  | cons b bs ih =>
    have hb : b.name ∉ ms.map Prod.fst := fun hm =>
      (List.nodup_append.mp h).2.2 _ hm _ (.head _) rfl
    have hs : ms.place b.toSection = some (ms ++ [b.member]) := by
      have hf : fill (b.items.map Item.entry) [] = some b.members := fill_items b.distinct
      change openTable b.name (b.items.map Item.entry) ms = _
      simp only [openTable, find?_eq_none_iff.mpr hb, hf]
      rfl
    have hn : ((ms ++ [b.member]).map Prod.fst ++ bs.map Block.name).Nodup := by
      simpa [Block.member] using h
    rw [List.map_cons, List.foldlM_cons, hs]
    change (bs.map Block.toSection).foldlM place (ms ++ [b.member]) = _
    rw [ih hn]
    simp

end Members

theorem head?_keyText_ne (key : String) (rest : List Char) :
    (keyText key ++ rest).head? ≠ some byteOrderMark := by
  obtain ⟨c, more, hk, hc⟩ := keyText_eq_cons key
  rw [hk]
  intro h
  obtain rfl := Option.some.inj h
  exact absurd hc (by decide)

namespace Document

variable (d : Document)

theorem keys_members : d.members.map Prod.fst = d.top.map Item.key ++ d.blocks.map Block.name := by
  rw [members, List.map_append, Members.keys_items, Members.keys_blocks]

theorem head?_text_ne : d.text.head? ≠ some byteOrderMark := by
  unfold text
  cases d.top with
  | cons i is =>
    rw [List.flatMap_cons, Item.lineText, entryText, List.append_assoc, List.append_assoc,
      List.append_assoc, List.append_assoc]
    exact head?_keyText_ne i.key _
  | nil =>
    cases d.blocks with
    | nil => exact (by decide : none ≠ some byteOrderMark)
    | cons b bs => exact (by decide : some '[' ≠ some byteOrderMark)

/-- What is written is read, in the order in which it is written. -/
theorem read?_text : read? d.text = some (.table .opened d.members) := by
  have hm : many line d.text = _ := (runs_items d.top (runs_blocks d.blocks)).many
  have hs := sections_items d.top (d.blocks.flatMap Block.lines)
  rw [sections_blocks, List.append_nil] at hs
  have hf : Members.fill (d.top.map Item.entry) [] = some (d.top.map Item.member) :=
    Members.fill_items (List.nodup_append.mp d.distinct).1
  have hp : (d.blocks.map Block.toSection).foldlM Members.place (d.top.map Item.member) =
      some d.members := Members.place_blocks (by
    rw [Members.keys_items]
    exact d.distinct)
  have ho : Members.ofSections (d.top.map Item.entry) (d.blocks.map Block.toSection) =
      some d.members := by
    rw [Members.ofSections, hf]
    exact hp
  simp only [read?, d.head?_text_ne, if_false, hm, hs, ho]
  rfl

end Document

end BodyCallout.Toml
