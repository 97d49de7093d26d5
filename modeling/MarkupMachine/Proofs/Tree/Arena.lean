import MarkupMachine.Tree.Document

/-! What insertion makes of the nodes. The nodes of a tree come after those that are there, each
with the links that it will have for good; of the earlier ones only two change, and only in their
links: the parent, and the child of it that was the last so far. -/

namespace MarkupMachine

def Node.heading (kind : NodeKind) (parent next : Option NodeId) (children : List NodeId) : Node :=
  ⟨kind, parent, children.head?, children.getLast?, next⟩

namespace Document

def numbers : NodeId → List Tree → List NodeId
  | _, [] => []
  | id, t :: rest => id :: numbers (id + t.size) rest

mutual

/-- The nodes of a tree in document order; its root gets the given number. -/
def layout (parent next : Option NodeId) (id : NodeId) : Tree → List Node
  | .document children => .heading .document parent next (numbers (id + 1) children) ::
    layoutAll (some id) (id + 1) children
  | .element e children => .heading (.element e) parent next (numbers (id + 1) children) ::
    layoutAll (some id) (id + 1) children
  | .content text => [.heading (.content text) parent next []]
  | .comment text => [.heading (.comment text) parent next []]

def layoutAll (parent : Option NodeId) (id : NodeId) : List Tree → List Node
  | [] => []
  | t :: rest =>
    layout parent (numbers (id + t.size) rest).head? id t ++ layoutAll parent (id + t.size) rest

end

theorem layout_eq (parent next : Option NodeId) (id : NodeId) (t : Tree) :
    layout parent next id t = .heading t.kind parent next (numbers (id + 1) t.children) ::
      layoutAll (some id) (id + 1) t.children := by
  cases t <;> rfl

mutual

theorem length_layout (parent next : Option NodeId) (id : NodeId) :
    (t : Tree) → (layout parent next id t).length = t.size
  | .document children => by simp [layout, Tree.size, length_layoutAll]
  | .element _ children => by simp [layout, Tree.size, length_layoutAll]
  | .content _ => rfl
  | .comment _ => rfl

theorem length_layoutAll (parent : Option NodeId) (id : NodeId) :
    (ts : List Tree) → (layoutAll parent id ts).length = Tree.sizes ts
  | [] => rfl
  | t :: rest => by
    simp [layoutAll, Tree.sizes, length_layout parent _ id t, length_layoutAll parent _ rest]

end

section Links

def relink (parent : NodeId) (previous : Option NodeId) (first last id : NodeId) (n : Node) : Node :=
  { n with
    firstChild := if parent = id ∧ previous = none then some first else n.firstChild
    lastChild := if parent = id then some last else n.lastChild
    nextSibling := if previous = some id then some first else n.nextSibling }

def lastOf (parent : NodeId) (nodes : List Node) : Option NodeId :=
  nodes[parent]?.bind (·.lastChild)

/-- Nodes one of which gets new children, from a first to a last one. -/
def linked (parent first last : NodeId) (nodes : List Node) : List Node :=
  nodes.mapIdx (relink parent (lastOf parent nodes) first last)

def linkedTo (parent : NodeId) : List NodeId → List Node → List Node
  | [], nodes => nodes
  | first :: rest, nodes => linked parent first (rest.getLastD first) nodes

structure Linkable (parent : Nat) (nodes : List Node) : Prop where
  here : parent < nodes.length
  last : ∀ id : Nat, lastOf parent nodes = some id → id < nodes.length

variable {parent first last id : Nat} {previous : Option Nat} {n : Node}
  {nodes more : List Node}

theorem relink_other (other : parent ≠ id) (further : previous ≠ some id) :
    relink parent previous first last id n = n := by
  simp [relink, other, further]

theorem mapIdx_relink {l : Nat} (other : ∀ i, i < more.length → parent ≠ i + l)
    (further : ∀ i, i < more.length → previous ≠ some (i + l)) :
    more.mapIdx (fun i => relink parent previous first last (i + l)) = more := by
  refine List.ext_getElem? fun i => ?_
  rw [List.getElem?_mapIdx]
  cases found : more[i]? with
  | none => rfl
  | some n =>
    obtain ⟨less, _⟩ := List.getElem?_eq_some_iff.mp found
    rw [Option.map_some, relink_other (other i less) (further i less)]

theorem length_linked : (linked parent first last nodes).length = nodes.length := by
  simp [linked]

theorem lastOf_linked (here : parent < nodes.length) :
    lastOf parent (linked parent first last nodes) = some last := by
  simp [lastOf, linked, relink, here]

theorem lastOf_append (here : parent < nodes.length) :
    lastOf parent (nodes ++ more) = lastOf parent nodes := by
  rw [lastOf, List.getElem?_append_left here, lastOf]

theorem toList_linkChild (parent child : NodeId) (doc : Document) :
    (doc.linkChild parent child).nodes.toList = linked parent child child doc.nodes.toList := by
  have same : (doc.node? parent).bind (·.lastChild) = lastOf parent doc.nodes.toList := by
    rw [node?, lastOf, Array.getElem?_toList]
  refine List.ext_getElem? fun i => ?_
  rw [linked, List.getElem?_mapIdx]
  simp only [linkChild, same]
  cases last : lastOf parent doc.nodes.toList with
  | none =>
    simp only [modify, Array.toList_modify, List.getElem?_modify]
    cases doc.nodes.toList[i]? with
    | none => rfl
    | some n => by_cases here : parent = i <;> simp [relink, here]
  | some previous =>
    simp only [modify, Array.toList_modify, List.getElem?_modify]
    cases doc.nodes.toList[i]? with
    | none => rfl
    | some n =>
      by_cases here : parent = i <;> by_cases before : previous = i <;>
        simp [relink, here, before]

theorem linked_append (h : Linkable parent nodes) :
    linked parent first last (nodes ++ more) = linked parent first last nodes ++ more := by
  rw [linked, lastOf_append h.here, List.mapIdx_append, linked]
  congr 1
  refine mapIdx_relink (l := nodes.length) (fun i _ same => ?_) fun i _ same => ?_
  · have here := h.here
    omega
  · have before := h.last _ same
    omega

theorem linked_layout (t : Tree) (first last : Nat) (here : parent < nodes.length) :
    linked parent first last (linked parent nodes.length nodes.length nodes ++
      layout (some parent) none nodes.length t) =
    linked parent nodes.length last nodes ++
      layout (some parent) (some first) nodes.length t := by
  have last_ : lastOf parent (linked parent nodes.length nodes.length nodes ++
      layout (some parent) none nodes.length t) = some nodes.length := by
    rw [lastOf_append (by rwa [length_linked]), lastOf_linked here]
  rw [linked, last_, List.mapIdx_append, length_linked]
  congr 1
  · rw [linked, linked, List.mapIdx_mapIdx]
    refine List.ext_getElem? fun i => ?_
    cases found : nodes[i]? with
    | none => simp [found]
    | some n =>
      obtain ⟨less, _⟩ := List.getElem?_eq_some_iff.mp found
      have before : nodes.length ≠ i := Nat.ne_of_gt less
      rw [List.getElem?_mapIdx, List.getElem?_mapIdx, found]
      by_cases own : parent = i <;> simp [relink, own, before]
  · have apart : parent ≠ nodes.length := Nat.ne_of_lt here
    have below : (layoutAll (some nodes.length) (nodes.length + 1) t.children).mapIdx
        (fun i => relink parent (some nodes.length) first last (i + (nodes.length + 1))) =
          layoutAll (some nodes.length) (nodes.length + 1) t.children := by
      refine mapIdx_relink (fun i _ same => by omega) fun i _ same => ?_
      have same : nodes.length = i + (nodes.length + 1) := Option.some.inj same
      omega
    rw [layout_eq, layout_eq, List.mapIdx_cons]
    congr 1
    · simp [relink, Node.heading, apart]
    · simpa [Nat.add_assoc, Nat.add_comm 1] using below

theorem linkedTo_fresh (nodes : List Node) (kind : NodeKind) (parent : Option NodeId)
    (ids : List NodeId) :
    linkedTo nodes.length ids (nodes ++ [.heading kind parent none []]) =
      nodes ++ [.heading kind parent none ids] := by
  cases ids with
  | nil => rfl
  | cons first rest =>
    have last : lastOf nodes.length (nodes ++ [.heading kind parent none []]) = none := by
      simp [lastOf, Node.heading]
    rw [linkedTo, linked, last, List.mapIdx_append]
    congr 1
    · exact mapIdx_relink (l := 0) (fun i less same => by omega) (by simp)
    · simp [relink, Node.heading, List.getLast?_cons]

end Links

theorem length_toList (doc : Document) : doc.nodes.toList.length = doc.size := rfl

theorem toList_alloc (kind : NodeKind) {parent : Nat} {doc : Document}
    (h : Linkable parent doc.nodes.toList) :
    (doc.alloc kind (some parent)).nodes.toList =
      linked parent doc.size doc.size doc.nodes.toList ++ [.heading kind (some parent) none []] := by
  rw [alloc, toList_linkChild, Array.toList_push, linked_append h]
  rfl

theorem toList_fresh (kind : NodeKind) {parent : Nat} {doc : Document} {children : List Tree}
    (h : Linkable parent doc.nodes.toList)
    (below : ∀ grown : Document, Linkable doc.size grown.nodes.toList →
      (insertAll doc.size children grown).nodes.toList =
        linkedTo doc.size (numbers grown.size children) grown.nodes.toList ++
          layoutAll (some doc.size) grown.size children) :
    (insertAll doc.size children (doc.alloc kind (some parent))).nodes.toList =
      linked parent doc.size doc.size doc.nodes.toList ++
        .heading kind (some parent) none (numbers (doc.size + 1) children) ::
          layoutAll (some doc.size) (doc.size + 1) children := by
  have allocated := toList_alloc kind h
  have before : (linked parent doc.size doc.size doc.nodes.toList).length = doc.size :=
    length_linked
  have size : (doc.alloc kind (some parent)).size = doc.size + 1 := by
    rw [← length_toList, allocated, List.length_append, before]
    rfl
  have linkable : Linkable doc.size (doc.alloc kind (some parent)).nodes.toList := by
    refine ⟨by rw [length_toList, size]; exact Nat.lt_succ_self _, fun id last => ?_⟩
    rw [allocated, lastOf, List.getElem?_append_right (Nat.le_of_eq before), before] at last
    simp [Node.heading] at last
  have fresh := linkedTo_fresh (linked parent doc.size doc.size doc.nodes.toList) kind (some parent)
    (numbers (doc.size + 1) children)
  rw [before] at fresh
  rw [below _ linkable, size, allocated, fresh, List.append_assoc]
  rfl

mutual

theorem toList_insert (parent : Nat) : (t : Tree) → (doc : Document) →
    Linkable parent doc.nodes.toList → (insert parent t doc).nodes.toList =
      linked parent doc.size doc.size doc.nodes.toList ++ layout (some parent) none doc.size t
  | .document children, doc, h => toList_fresh .document h (toList_insertAll doc.size children)
  | .element e children, doc, h => toList_fresh (.element e) h (toList_insertAll doc.size children)
  | .content text, _, h => toList_alloc (.content text) h
  | .comment text, _, h => toList_alloc (.comment text) h

theorem toList_insertAll (parent : Nat) : (ts : List Tree) → (doc : Document) →
    Linkable parent doc.nodes.toList → (insertAll parent ts doc).nodes.toList =
      linkedTo parent (numbers doc.size ts) doc.nodes.toList ++ layoutAll (some parent) doc.size ts
  | [], doc, _ => by simp [insertAll, numbers, linkedTo, layoutAll]
  | t :: rest, doc, h => by
    have first := toList_insert parent t doc h
    have size : (insert parent t doc).size = doc.size + t.size := by
      rw [← length_toList, first, List.length_append, length_linked, length_layout]
      rfl
    have linkable : Linkable parent (insert parent t doc).nodes.toList := by
      have here := h.here
      rw [length_toList] at here
      refine ⟨by rw [length_toList, size]; omega, fun id last => ?_⟩
      rw [first, lastOf_append (by rw [length_linked]; exact h.here), lastOf_linked h.here] at last
      have last : doc.size = id := Option.some.inj last
      have some_node : 0 < t.size := by cases t <;> simp [Tree.size]
      rw [length_toList, size]
      omega
    have later := toList_insertAll parent rest (insert parent t doc) linkable
    rw [insertAll, later, size, first]
    cases rest with
    | nil => simp [numbers, linkedTo, layoutAll]
    | cons u rest =>
      have extended := linked_layout t (doc.size + t.size)
        ((numbers (doc.size + t.size + u.size) rest).getLastD (doc.size + t.size)) h.here
      rw [length_toList] at extended
      rw [numbers, linkedTo, extended]
      simp [numbers, linkedTo, layoutAll, List.getLast?_cons]

end

theorem whole_eq (t : Tree) : whole t = .document (whole t).children := by
  cases t <;> rfl

theorem number_alloc (kind : NodeKind) (parent : Option NodeId) (doc : Document) :
    (doc.alloc kind parent).number = doc.number := by
  cases parent with
  | none => rfl
  | some parent =>
    simp only [alloc, linkChild]
    split <;> rfl

mutual

theorem number_insert (parent : Nat) : (t : Tree) → (doc : Document) →
    (insert parent t doc).number = doc.number
  | .document children, doc => (number_insertAll doc.size children _).trans (number_alloc ..)
  | .element _ children, doc => (number_insertAll doc.size children _).trans (number_alloc ..)
  | .content _, _ => number_alloc ..
  | .comment _, _ => number_alloc ..

theorem number_insertAll (parent : Nat) : (ts : List Tree) → (doc : Document) →
    (insertAll parent ts doc).number = doc.number
  | [], _ => rfl
  | t :: rest, doc => (number_insertAll parent rest _).trans (number_insert parent t doc)

end

theorem insertAll_root (number : Nat) (t : Tree) :
    insertAll root (whole t).children (alloc .document none { number }) =
      ⟨number, (layout none none root (whole t)).toArray⟩ := by
  let begun : Document := alloc .document none { number }
  have linkable : Linkable root begun.nodes.toList :=
    ⟨Nat.zero_lt_one, fun id last => by cases last⟩
  have nodes : (insertAll root (whole t).children begun).nodes.toList =
      layout none none root (whole t) := by
    rw [toList_insertAll root (whole t).children begun linkable, layout_eq, whole_eq t]
    exact congrArg (· ++ layoutAll (some root) 1 (whole t).children)
      (linkedTo_fresh [] .document none (numbers 1 (whole t).children))
  have number : (insertAll root (whole t).children begun).number = number :=
    number_insertAll root (whole t).children begun
  cases built : insertAll root (whole t).children begun with
  | mk number' nodes' =>
    rw [built] at nodes number
    simp only at nodes number
    rw [← nodes, number]

theorem ofTree?_eq (number : Nat) (t : Tree) : ofTree? number t =
    let doc : Document := ⟨number, (layout none none root (whole t)).toArray⟩
    if doc.rootElement?.isSome then some doc else none := by
  rw [ofTree?, insertAll_root]

end Document
end MarkupMachine
