import MarkupMachine.Tree.Basic
import MarkupMachine.Table

/-! Documents: trees as arrays of nodes that are linked to each other. Nodes are numbered as they
are added, in document order, with the document node itself at zero. -/

namespace MarkupMachine

abbrev NodeId := Nat

inductive NodeKind where
  | document
  | element (element : Element)
  | content (text : String)
  | comment (text : String)
  deriving Inhabited

def Tree.kind : Tree → NodeKind
  | .document _ => .document
  | .element e _ => .element e
  | .content text => .content text
  | .comment text => .comment text

/-- Of its children a node knows the first and the last; the others come along next siblings. -/
structure Node where
  kind : NodeKind
  parent : Option NodeId := none
  firstChild : Option NodeId := none
  lastChild : Option NodeId := none
  nextSibling : Option NodeId := none
  deriving Inhabited

/-- The number tells documents of one host apart. -/
structure Document where
  number : Nat
  nodes : Array Node := #[]
  deriving Inhabited

def Node.siblings (nodes : Array Node) : Nat → Option NodeId → List NodeId
  | count + 1, some id => id :: siblings nodes count (nodes[id]?.bind (·.nextSibling))
  | _, _ => []

namespace Document

def root : NodeId := 0

def size (doc : Document) : Nat := doc.nodes.size

def node? (doc : Document) (id : NodeId) : Option Node := doc.nodes[id]?

def kind? (doc : Document) (id : NodeId) : Option NodeKind := (doc.node? id).map (·.kind)

def element? (doc : Document) (id : NodeId) : Option Element :=
  match doc.kind? id with
  | some (.element e) => some e
  | _ => none

def parent? (doc : Document) (id : NodeId) : Option NodeId := (doc.node? id).bind (·.parent)

def firstChild? (doc : Document) (id : NodeId) : Option NodeId :=
  (doc.node? id).bind (·.firstChild)

def nextSibling? (doc : Document) (id : NodeId) : Option NodeId :=
  (doc.node? id).bind (·.nextSibling)

def children (doc : Document) (id : NodeId) : List NodeId :=
  Node.siblings doc.nodes doc.size (doc.firstChild? id)

def rootElement? (doc : Document) : Option NodeId :=
  (doc.children root).find? fun id => (doc.element? id).isSome

def elements (doc : Document) : List (NodeId × Element) :=
  (List.range doc.size).filterMap fun id => (doc.element? id).map fun e => (id, e)

def modify (id : NodeId) (f : Node → Node) (doc : Document) : Document :=
  { doc with nodes := doc.nodes.modify id f }

/-- Makes a node the last child of another, after the one that was the last. -/
def linkChild (parent child : NodeId) (doc : Document) : Document :=
  let previous := (doc.node? parent).bind (·.lastChild)
  let doc := doc.modify parent fun n => { n with lastChild := some child }
  match previous with
  | some previous => doc.modify previous fun n => { n with nextSibling := some child }
  | none => doc.modify parent fun n => { n with firstChild := some child }

def alloc (kind : NodeKind) (parent : Option NodeId) (doc : Document) : Document :=
  let id := doc.size
  let doc := { doc with nodes := doc.nodes.push { kind, parent } }
  match parent with
  | some parent => doc.linkChild parent id
  | none => doc

mutual

def insert (parent : NodeId) : Tree → Document → Document
  | .document children, doc => insertAll doc.size children (doc.alloc .document (some parent))
  | .element e children, doc => insertAll doc.size children (doc.alloc (.element e) (some parent))
  | .content text, doc => doc.alloc (.content text) (some parent)
  | .comment text, doc => doc.alloc (.comment text) (some parent)

def insertAll (parent : NodeId) : List Tree → Document → Document
  | [], doc => doc
  | t :: rest, doc => insertAll parent rest (insert parent t doc)

end

/-- A tree that is no document becomes the only child of one. -/
def whole : Tree → Tree
  | .document children => .document children
  | t => .document [t]

/-- Makes a document of a tree, which has to have an element as child of the document node. -/
def ofTree? (number : Nat) (t : Tree) : Option Document :=
  let doc := insertAll root (whole t).children (alloc .document none { number })
  if doc.rootElement?.isSome then some doc else none

structure Summary where
  elements : Nat
  tags : List (String × Nat)

def Summary.count (s : Summary) (tag : String) : Summary :=
  ⟨s.elements + 1, Table.insert tag ((Table.get? tag s.tags).getD 0 + 1) s.tags⟩

def summary (doc : Document) : Summary :=
  doc.elements.foldl (fun s e => s.count e.2.tag) ⟨0, []⟩

end Document
end MarkupMachine
