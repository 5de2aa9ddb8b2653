import WkcBrowser.Feed.W3CDates
import WkcBrowser.Lib.Rearranged

/-! The items of a feed: `WKCRSSParserPrivate::nodeFeedEntry` and `nodeRssChannelItem`, and on which items
the date depends on the order of the elements. -/

namespace WkcBrowser.Feed

open Lib Wtf

inductive NodeType where
  | element
  | text
  | cdataSection
  | other
deriving DecidableEq

/-- A child of an element or of an attribute. -/
structure TextNode where
  type : NodeType
  content : Option (List Byte)

structure Attribute where
  name : Option (List Byte)
  children : List TextNode

/-- A child of an entry or an item, with the prefix of its namespace. -/
structure Node where
  type : NodeType
  name : Option (List Byte)
  ns : Option (List Byte)
  properties : List Attribute
  children : List TextNode

/-- `WKCRSSFeed::Item` -/
structure Item where
  title : Option (List UInt16)
  description : Option (List UInt16)
  content : Option (List UInt16)
  link : Option (List Byte)
  date : Option Date

def emptyItem : Item := { title := none, description := none, content := none, link := none, date := none }

def isTargetElement (node : Node) (ns : Option (List Byte)) (name : List Byte) : Bool :=
  node.type = .element && node.name = some name && (ns.isNone || node.ns = ns)

def findText (children : List TextNode) : Option (List Byte) :=
  children.findSome? fun t => if t.type = .text then t.content else none

/-- The text of the first attribute of the name. -/
def findAttribute (properties : List Attribute) (name : List Byte) : Option (List Byte) :=
  (properties.find? fun t => t.name = some name).bind fun t => findText t.children

section
/- The decoder of UTF-8, and what a new buffer holds that no text is copied into. -/
variable (decode : List Byte → List UInt16) (unset : Node → List Byte)

def getContentInUTF8 (node : Node) : List Byte :=
  let texts := (node.children.filter fun t => t.type = .text || t.type = .cdataSection).filterMap TextNode.content
  if texts.isEmpty then unset node else texts.flatten

def getContentInUTF16 (node : Node) : List UInt16 := decode (getContentInUTF8 unset node)

/-- The date that a text begins with. -/
def parsed (parse : List Byte → Date → Bool × List Byte × Date) (src : List Byte) : Option Date :=
  match parse src unsetDate with
  | (true, _, date) => some date
  | (false, _, _) => none

/-- One turn of the loop of `nodeFeedEntry`. -/
def feedEntryChild (item : Item) (node : Node) : Item :=
  if isTargetElement node none (ascii "title") then
    { item with title := item.title.or (some (getContentInUTF16 decode unset node)) }
  else if isTargetElement node none (ascii "summary") then
    { item with description := item.description.or (some (getContentInUTF16 decode unset node)) }
  else if isTargetElement node none (ascii "content") then
    { item with content := item.content.or (some (getContentInUTF16 decode unset node)) }
  else if isTargetElement node none (ascii "link") then
    { item with link := item.link.or (findAttribute node.properties (ascii "href")) }
  else if isTargetElement node none (ascii "published") || isTargetElement node none (ascii "issued") then
    { item with date := parsed parseRFC3339DateTime (getContentInUTF8 unset node) }
  else if isTargetElement node none (ascii "updated") || isTargetElement node none (ascii "modified") then
    { item with date := item.date.or (parsed parseRFC3339DateTime (getContentInUTF8 unset node)) }
  else item

def nodeFeedEntry (children : List Node) : Item := children.foldl (feedEntryChild decode unset) emptyItem

/-- One turn of the loop of `nodeRssChannelItem`. -/
def rssChannelItemChild (item : Item) (node : Node) : Item :=
  if isTargetElement node none (ascii "title") then
    { item with title := item.title.or (some (getContentInUTF16 decode unset node)) }
  else if isTargetElement node none (ascii "description") then
    { item with description := item.description.or (some (getContentInUTF16 decode unset node)) }
  else if isTargetElement node (some (ascii "content")) (ascii "encoded") then
    { item with content := item.content.or (some (getContentInUTF16 decode unset node)) }
  else if isTargetElement node none (ascii "link") then
    { item with link := item.link.or (some (getContentInUTF8 unset node)) }
  else if isTargetElement node none (ascii "pubDate") then
    { item with date := parsed parseRFC5322DateTime (getContentInUTF8 unset node) }
  else if isTargetElement node (some (ascii "dc")) (ascii "date") then
    { item with date := item.date.or (parsed parseW3CDateTime (getContentInUTF8 unset node)) }
  else item

def nodeRssChannelItem (children : List Node) : Item :=
  children.foldl (rssChannelItemChild decode unset) emptyItem

end

/-! What the date is made of. -/

/-- What elements are called. -/
def Node.qualifiedName (node : Node) : NodeType × Option (List Byte) × Option (List Byte) :=
  (node.type, node.ns, node.name)

def entryRank (node : Node) : Rank :=
  if isTargetElement node none (ascii "published") || isTargetElement node none (ascii "issued") then .first
  else if isTargetElement node none (ascii "updated") || isTargetElement node none (ascii "modified") then .second
  else .neither

def entryDate (unset : Node → List Byte) (node : Node) : Option Date :=
  parsed parseRFC3339DateTime (getContentInUTF8 unset node)

def rssRank (node : Node) : Rank :=
  if isTargetElement node none (ascii "pubDate") then .first
  else if isTargetElement node (some (ascii "dc")) (ascii "date") then .second
  else .neither

def rssDate (unset : Node → List Byte) (node : Node) : Option Date :=
  match rssRank node with
  | .first => parsed parseRFC5322DateTime (getContentInUTF8 unset node)
  | _ => parsed parseW3CDateTime (getContentInUTF8 unset node)

theorem isTargetElement_name {node : Node} {ns : Option (List Byte)} {name : List Byte}
    (target : isTargetElement node ns name = true) : node.name = some name := by
  unfold isTargetElement at target
  rw [Bool.and_eq_true, Bool.and_eq_true] at target
  exact of_decide_eq_true target.1.2

/-- An element has one name. -/
theorem isTargetElement_other {node : Node} {ns : Option (List Byte)} {name other : List Byte}
    (target : isTargetElement node ns name = true) (different : name ≠ other) (ns' : Option (List Byte)) :
    isTargetElement node ns' other = false := by
  rw [Bool.eq_false_iff]
  intro target'
  have same := (isTargetElement_name target).symm.trans (isTargetElement_name target')
  exact different (Option.some.inj same)

theorem isTargetElement_congr {node node' : Node} (same : node.qualifiedName = node'.qualifiedName)
    (ns : Option (List Byte)) (name : List Byte) :
    isTargetElement node ns name = isTargetElement node' ns name := by
  obtain ⟨type, rest⟩ := Prod.mk.inj same
  obtain ⟨ns', name'⟩ := Prod.mk.inj rest
  unfold isTargetElement
  rw [type, ns', name']

theorem entryRank_congr (node node' : Node) (same : node.qualifiedName = node'.qualifiedName) :
    entryRank node = entryRank node' := by
  unfold entryRank
  simp only [isTargetElement_congr same]

theorem rssRank_congr (node node' : Node) (same : node.qualifiedName = node'.qualifiedName) :
    rssRank node = rssRank node' := by
  unfold rssRank
  simp only [isTargetElement_congr same]

section
variable (decode : List Byte → List UInt16) (unset : Node → List Byte)

theorem feedEntryChild_date (item : Item) (node : Node) :
    (feedEntryChild decode unset item node).date = fill entryRank (entryDate unset) item.date node := by
  have others {name : List Byte} (target : isTargetElement node none name = true)
      (different : name ∉ [ascii "published", ascii "issued", ascii "updated", ascii "modified"]) :
      fill entryRank (entryDate unset) item.date node = item.date := by
    have none_of (other : List Byte)
        (listed : other ∈ [ascii "published", ascii "issued", ascii "updated", ascii "modified"]) :
        isTargetElement node none other = false :=
      isTargetElement_other target (fun same => different (same ▸ listed)) none
    have neither : entryRank node = .neither := by
      unfold entryRank
      rw [none_of (ascii "published") (by decide), none_of (ascii "issued") (by decide),
        none_of (ascii "updated") (by decide), none_of (ascii "modified") (by decide)]
      rfl
    rw [fill, neither]
  unfold feedEntryChild
  split_ifs with title summary content link primary secondary
  · exact (others title (by decide)).symm
  · exact (others summary (by decide)).symm
  · exact (others content (by decide)).symm
  · exact (others link (by decide)).symm
  · rw [fill, entryRank, if_pos primary]
    rfl
  · rw [fill, entryRank, if_neg primary, if_pos secondary]
    rfl
  · rw [fill, entryRank, if_neg primary, if_neg secondary]

theorem rssChannelItemChild_date (item : Item) (node : Node) :
    (rssChannelItemChild decode unset item node).date = fill rssRank (rssDate unset) item.date node := by
  have others {ns : Option (List Byte)} {name : List Byte} (target : isTargetElement node ns name = true)
      (different : name ∉ [ascii "pubDate", ascii "date"]) :
      fill rssRank (rssDate unset) item.date node = item.date := by
    have none_of (ns' : Option (List Byte)) (other : List Byte) (listed : other ∈ [ascii "pubDate", ascii "date"]) :
        isTargetElement node ns' other = false :=
      isTargetElement_other target (fun same => different (same ▸ listed)) ns'
    have neither : rssRank node = .neither := by
      unfold rssRank
      rw [none_of none (ascii "pubDate") (by decide),
        none_of (some (ascii "dc")) (ascii "date") (by decide)]
      rfl
    rw [fill, neither]
  unfold rssChannelItemChild
  split_ifs with title description content link primary secondary
  · exact (others title (by decide)).symm
  · exact (others description (by decide)).symm
  · exact (others content (by decide)).symm
  · exact (others link (by decide)).symm
  · have first : rssRank node = .first := by rw [rssRank, if_pos primary]
    rw [fill, rssDate, first]
  · have second : rssRank node = .second := by rw [rssRank, if_neg primary, if_pos secondary]
    rw [fill, rssDate, second]
  · have neither : rssRank node = .neither := by rw [rssRank, if_neg primary, if_neg secondary]
    rw [fill, neither]

theorem nodeFeedEntry_date (children : List Node) :
    (nodeFeedEntry decode unset children).date = children.foldl (fill entryRank (entryDate unset)) none :=
  (List.foldl_hom Item.date fun item node => (feedEntryChild_date decode unset item node).symm).symm

theorem nodeRssChannelItem_date (children : List Node) :
    (nodeRssChannelItem decode unset children).date = children.foldl (fill rssRank (rssDate unset)) none :=
  (List.foldl_hom Item.date fun item node => (rssChannelItemChild_date decode unset item node).symm).symm

end

/-- In any order of the children that keeps the order of those of one name, the item has the same date,
which is the first of the first rank that can be parsed, or else the first of the second rank. -/
def DateOrderFree (itemOf : List Node → Item) (rank : Node → Rank) (date : Node → Option Date)
    (children : List Node) : Prop :=
  ∀ children', Rearranged Node.qualifiedName children children' →
    (itemOf children').date = (itemOf children).date ∧ (itemOf children').date = preferred rank date children'

/-- The date does not depend on the order exactly if the names agree on it. -/
theorem dateOrderFree_iff (decode : List Byte → List UInt16) (unset : Node → List Byte) (children : List Node) :
    (DateOrderFree (nodeFeedEntry decode unset) entryRank (entryDate unset) children ↔
      Agree Node.qualifiedName entryRank (entryDate unset) children) ∧
    (DateOrderFree (nodeRssChannelItem decode unset) rssRank (rssDate unset) children ↔
      Agree Node.qualifiedName rssRank (rssDate unset) children) := by
  constructor
  · rw [← orderFree_iff entryRank_congr children]
    unfold DateOrderFree OrderFree
    simp only [nodeFeedEntry_date]
  · rw [← orderFree_iff rssRank_congr children]
    unfold DateOrderFree OrderFree
    simp only [nodeRssChannelItem_date]

/-- An element with a text. -/
def textElement (ns : Option (List Byte)) (name text : List Byte) : Node where
  type := .element
  name := some name
  ns := ns
  properties := []
  children := [{ type := .text, content := some text }]

/-- A `pubDate` that cannot be parsed takes away the date of a `dc:date` in front of it. -/
theorem not_dateOrderFree :
    ¬∀ (decode : List Byte → List UInt16) (unset : Node → List Byte) (children : List Node),
      DateOrderFree (nodeFeedEntry decode unset) entryRank (entryDate unset) children ∧
      DateOrderFree (nodeRssChannelItem decode unset) rssRank (rssDate unset) children := by
  intro all
  have free := (all (fun _ => []) (fun _ => [])
    [textElement (some (ascii "dc")) (ascii "date") (ascii "2020"),
      textElement none (ascii "pubDate") (ascii "today")]).2
  have taken := (free _ (Rearranged.refl _)).2
  revert taken
  decide

end WkcBrowser.Feed
