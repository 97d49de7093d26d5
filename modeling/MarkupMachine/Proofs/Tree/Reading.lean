import MarkupMachine.Proofs.Tree.Order
import Mathlib.Data.List.Nodup
import Mathlib.Data.String.Basic

/-! Reading a document back. From every node one reads the subtree that has its number in document
order, and nothing else, by first children and next siblings alone; and what a document lists and
counts is what its tree has. -/

namespace MarkupMachine

namespace Tree

mutual

def subtrees : Tree → List Tree
  | .document children => .document children :: subtreesOf children
  | .element e children => .element e children :: subtreesOf children
  | .content text => [.content text]
  | .comment text => [.comment text]

def subtreesOf : List Tree → List Tree
  | [] => []
  | t :: rest => t.subtrees ++ subtreesOf rest

end

def element? : Tree → Option Element
  | .element e _ => some e
  | _ => none

theorem subtrees_eq (t : Tree) : t.subtrees = t :: subtreesOf t.children := by
  cases t <;> rfl

theorem subtree_cases {t u : Tree} {i : Nat} (found : t.subtrees[i]? = some u) :
    i = 0 ∧ u = t ∨ ∃ j, i = j + 1 ∧ (subtreesOf t.children)[j]? = some u := by
  rw [subtrees_eq] at found
  cases i with
  | zero => exact .inl ⟨rfl, (Option.some.inj found).symm⟩
  | succ j => exact .inr ⟨j, rfl, found⟩

mutual

theorem length_subtrees : (t : Tree) → t.subtrees.length = t.size
  | .document children => congrArg (· + 1) (length_subtreesOf children)
  | .element _ children => congrArg (· + 1) (length_subtreesOf children)
  | .content _ => rfl
  | .comment _ => rfl

theorem length_subtreesOf : (ts : List Tree) → (subtreesOf ts).length = sizes ts
  | [] => rfl
  | t :: rest => by
    rw [subtreesOf, List.length_append, length_subtrees t, length_subtreesOf rest, sizes]

end

end Tree

namespace Document

mutual

/-- A tree is read from a node by its kind, its first child and the next siblings from there. -/
inductive Reads (doc : Document) : NodeId → Tree → Prop
  | document {id : NodeId} {ts : List Tree} : doc.kind? id = some .document →
    ReadsAll doc (doc.firstChild? id) ts → Reads doc id (.document ts)
  | element {id : NodeId} {e : Element} {ts : List Tree} : doc.kind? id = some (.element e) →
    ReadsAll doc (doc.firstChild? id) ts → Reads doc id (.element e ts)
  | content {id : NodeId} {text : String} : doc.kind? id = some (.content text) →
    Reads doc id (.content text)
  | comment {id : NodeId} {text : String} : doc.kind? id = some (.comment text) →
    Reads doc id (.comment text)

inductive ReadsAll (doc : Document) : Option NodeId → List Tree → Prop
  | nil : ReadsAll doc none []
  | cons {id : NodeId} {t : Tree} {rest : List Tree} : Reads doc id t →
    ReadsAll doc (doc.nextSibling? id) rest → ReadsAll doc (some id) (t :: rest)

end

variable {doc : Document} {parent : Option NodeId} {id : Nat}

mutual

theorem Holds.reads : (t : Tree) → {parent : Option NodeId} → {id : Nat} →
    doc.Holds parent id t → doc.Reads id t
  | .document children, _, _, h => .document h.1.kind (HoldsAll.reads children h.2 h.1.along)
  | .element _ children, _, _, h => .element h.1.kind (HoldsAll.reads children h.2 h.1.along)
  | .content _, _, _, h => .content h.kind
  | .comment _, _, _, h => .comment h.kind

theorem HoldsAll.reads : (ts : List Tree) → {parent start : Option NodeId} → {id : Nat} →
    doc.HoldsAll parent id ts → doc.Along start (numbers id ts) → doc.ReadsAll start ts
  | [], _, _, _, _, along => by
    cases along
    exact .nil
  | t :: rest, _, _, _, h, along => by
    cases along with
    | cons later => exact .cons (Holds.reads t h.1) (HoldsAll.reads rest h.2 later)

end

theorem Reads.kind?_eq {t : Tree} (h : doc.Reads id t) : doc.kind? id = some t.kind := by
  cases h <;> assumption

mutual

theorem Reads.unique : (t : Tree) → {u : Tree} → {id : NodeId} →
    doc.Reads id t → doc.Reads id u → t = u
  | .document ts, u, id, first, second => by
    cases first with
    | document kind below =>
      cases second with
      | document _ other => rw [ReadsAll.unique ts below other]
      | element kind' | content kind' | comment kind' => simp [kind] at kind'
  | .element e ts, u, id, first, second => by
    cases first with
    | element kind below =>
      cases second with
      | element kind' other =>
        obtain rfl : e = _ := by simpa using kind.symm.trans kind'
        rw [ReadsAll.unique ts below other]
      | document kind' | content kind' | comment kind' => simp [kind] at kind'
  | .content text, u, id, first, second => by
    cases first with
    | content kind => cases second <;> simp_all
  | .comment text, u, id, first, second => by
    cases first with
    | comment kind => cases second <;> simp_all

theorem ReadsAll.unique : (ts : List Tree) → {us : List Tree} → {start : Option NodeId} →
    doc.ReadsAll start ts → doc.ReadsAll start us → ts = us
  | [], us, start, first, second => by
    cases first
    cases second
    rfl
  | t :: rest, us, start, first, second => by
    cases first with
    | cons here later =>
      cases second with
      | cons here' later' => rw [Reads.unique t here here', ReadsAll.unique rest later later']

end

mutual

theorem Holds.subtree : (t : Tree) → {parent : Option NodeId} → {id i : Nat} → {u : Tree} →
    doc.Holds parent id t → t.subtrees[i]? = some u → ∃ p, doc.Holds p (id + i) u
  | .document children, _, _, _, _, h, found => by
    obtain ⟨rfl, rfl⟩ | ⟨j, rfl, found⟩ := Tree.subtree_cases found
    · exact ⟨_, h⟩
    · rw [Nat.add_comm j, ← Nat.add_assoc]
      exact HoldsAll.subtree children h.2 found
  | .element _ children, _, _, _, _, h, found => by
    obtain ⟨rfl, rfl⟩ | ⟨j, rfl, found⟩ := Tree.subtree_cases found
    · exact ⟨_, h⟩
    · rw [Nat.add_comm j, ← Nat.add_assoc]
      exact HoldsAll.subtree children h.2 found
  | .content _, _, _, _, _, h, found => by
    obtain ⟨rfl, rfl⟩ | ⟨_, _, found⟩ := Tree.subtree_cases found
    · exact ⟨_, h⟩
    · cases found
  | .comment _, _, _, _, _, h, found => by
    obtain ⟨rfl, rfl⟩ | ⟨_, _, found⟩ := Tree.subtree_cases found
    · exact ⟨_, h⟩
    · cases found

theorem HoldsAll.subtree : (ts : List Tree) → {parent : Option NodeId} → {id i : Nat} →
    {u : Tree} → doc.HoldsAll parent id ts → (Tree.subtreesOf ts)[i]? = some u →
    ∃ p, doc.Holds p (id + i) u
  | [], _, _, _, _, _, found => by cases found
  | t :: rest, _, id, i, _, h, found => by
    rw [Tree.subtreesOf] at found
    rcases Nat.lt_or_ge i t.subtrees.length with inside | beyond
    · rw [List.getElem?_append_left inside] at found
      exact Holds.subtree t h.1 found
    · rw [List.getElem?_append_right beyond] at found
      have later := HoldsAll.subtree rest h.2 found
      have place : id + t.size + (i - t.subtrees.length) = id + i := by
        rw [Tree.length_subtrees] at beyond ⊢
        omega
      rwa [place] at later

end

mutual

theorem Holds.child_within : (t : Tree) → {parent : Option NodeId} → {id j : Nat} →
    doc.Holds parent id t → id < j → j < id + t.size →
    ∃ p, doc.parent? j = some p ∧ j ∈ doc.children p
  | .document children, _, id, _, h, lower, upper => by
    refine HoldsAll.child_within children h.2 (fun c mem => ?_) lower
      (by simp only [Tree.size] at upper; omega)
    rw [Holds.children_eq (t := .document children) h]
    exact mem
  | .element e children, _, id, _, h, lower, upper => by
    refine HoldsAll.child_within children h.2 (fun c mem => ?_) lower
      (by simp only [Tree.size] at upper; omega)
    rw [Holds.children_eq (t := .element e children) h]
    exact mem
  | .content _, _, _, _, _, lower, upper => by simp only [Tree.size] at upper; omega
  | .comment _, _, _, _, _, lower, upper => by simp only [Tree.size] at upper; omega

theorem HoldsAll.child_within : (ts : List Tree) → {p id j : Nat} →
    doc.HoldsAll (some p) id ts → (∀ c ∈ numbers id ts, c ∈ doc.children p) → id ≤ j →
    j < id + Tree.sizes ts → ∃ p, doc.parent? j = some p ∧ j ∈ doc.children p
  | [], _, _, _, _, _, lower, upper => by simp only [Tree.sizes] at upper; omega
  | t :: rest, p, id, j, h, mem, lower, upper => by
    rcases Nat.lt_or_ge j (id + t.size) with inside | beyond
    · rcases Nat.eq_or_lt_of_le lower with rfl | lower
      · exact ⟨p, h.1.stands.parent, mem id (by simp [numbers])⟩
      · exact Holds.child_within t h.1 lower inside
    · exact HoldsAll.child_within rest h.2 (fun c within => mem c (by simp [numbers, within])) beyond
        (by simp only [Tree.sizes] at upper; omega)

end

section RootElement

theorem HoldsAll.find?_eq {before beyond : List Tree} {u : Tree}
    (h : doc.HoldsAll parent id (before ++ u :: beyond)) (element : u.isElement = true)
    (first : ∀ v ∈ before, v.isElement = false) :
    (numbers id (before ++ u :: beyond)).find? (fun id => (doc.element? id).isSome) =
      some (id + Tree.sizes before) ∧ doc.Holds parent (id + Tree.sizes before) u := by
  induction before generalizing id with
  | nil => exact ⟨by simp [numbers, h.1.isElement_eq, element, Tree.sizes], h.1⟩
  | cons v before ih =>
    obtain ⟨found, held⟩ := ih h.2 fun w mem => first w (List.mem_cons_of_mem _ mem)
    have other := h.1.isElement_eq.trans (first v (by simp))
    rw [Tree.sizes, ← Nat.add_assoc]
    refine ⟨?_, held⟩
    rw [List.cons_append, numbers, List.find?_cons, other]
    exact found

theorem HoldsAll.find?_eq_none {ts : List Tree} (h : doc.HoldsAll parent id ts)
    (none : ∀ v ∈ ts, v.isElement = false) :
    (numbers id ts).find? (fun id => (doc.element? id).isSome) = .none := by
  induction ts generalizing id with
  | nil => rfl
  | cons v rest ih =>
    have other := h.1.isElement_eq.trans (none v (by simp))
    rw [numbers, List.find?_cons, other]
    exact ih h.2 fun w mem => none w (List.mem_cons_of_mem _ mem)

theorem exists_first_element {ts : List Tree} {u : Tree} (mem : u ∈ ts)
    (element : u.isElement = true) : ∃ before v beyond, ts = before ++ v :: beyond ∧
      v.isElement = true ∧ ∀ w ∈ before, w.isElement = false := by
  have some_ : (ts.find? Tree.isElement).isSome = true := List.find?_isSome.mpr ⟨u, mem, element⟩
  obtain ⟨v, found⟩ := Option.isSome_iff_exists.mp some_
  obtain ⟨element, before, beyond, rfl, first⟩ := List.find?_eq_some_iff_append.mp found
  exact ⟨before, v, beyond, rfl, element, fun w mem => by simpa using first w mem⟩

theorem ofTree?_eq_none_iff (number : Nat) (t : Tree) :
    ofTree? number t = none ↔ ∀ u ∈ (whole t).children, u.isElement = false := by
  let doc : Document := ⟨number, (layout none none root (whole t)).toArray⟩
  have held : doc.Holds none root (whole t) :=
    holds_of_layout none none (whole t) [] [] (by simp [doc, root])
  have rooted : doc.rootElement? =
      (numbers (root + 1) (whole t).children).find? fun id => (doc.element? id).isSome := by
    rw [rootElement?, held.children_eq]
  have made : ofTree? number t = if doc.rootElement?.isSome then some doc else none :=
    ofTree?_eq number t
  rw [made]
  constructor
  · intro failed u mem
    cases element : u.isElement with
    | false => rfl
    | true =>
      obtain ⟨before, v, beyond, split, element, first⟩ := exists_first_element mem element
      have below := held.below
      rw [split] at rooted below
      rw [rooted, (below.find?_eq element first).1] at failed
      cases failed
  · intro none
    rw [rooted, held.below.find?_eq_none none]
    rfl

end RootElement

section Counting

def Summary.total (tags : List (String × Nat)) : Nat :=
  tags.foldr (fun entry total => entry.2 + total) 0

/-- Counts by tag over some elements, in a table without repetitions. -/
structure Summary.Counts (s : Summary) (elements : List Element) : Prop where
  all : s.elements = elements.length
  tags : ∀ tag, Table.get? tag s.tags =
    if elements.countP (·.tag == tag) = 0 then none else some (elements.countP (·.tag == tag))
  ordered : Table.Ordered s.tags
  sum : Summary.total s.tags = s.elements

theorem get?_of_least {tag : String} {tags : List (String × Nat)}
    (least : ∀ entry ∈ tags, tag < entry.1) : Table.get? tag tags = none := by
  cases found : Table.get? tag tags with
  | none => rfl
  | some value => exact absurd (least _ (Table.mem_of_get? found)) (String.lt_irrefl tag)

theorem Summary.total_insert {tag : String} {tags : List (String × Nat)}
    (ordered : Table.Ordered tags) :
    total (Table.insert tag ((Table.get? tag tags).getD 0 + 1) tags) = total tags + 1 := by
  induction tags with
  | nil => rfl
  | cons first rest ih =>
    obtain ⟨head, previous⟩ := first
    obtain ⟨least, tail⟩ := List.pairwise_cons.mp ordered
    by_cases same : tag = head
    · subst same
      simp [total, Table.insert, Table.get?]
      omega
    · by_cases less : tag < head
      · have absent := get?_of_least fun entry mem => String.lt_trans less (least entry mem)
        simp [total, Table.insert, Table.get?, same, less, absent]
        omega
      · have later := ih tail
        simp only [total] at later
        simp only [total, Table.insert, Table.get?, same, less, if_false, List.foldr_cons, later]
        omega

theorem Summary.Counts.count {s : Summary} {elements : List Element} (h : s.Counts elements)
    (e : Element) : (s.count e.tag).Counts (elements ++ [e]) where
  all := by simp [Summary.count, h.all]
  tags tag := by
    rw [Summary.count, Table.get?_insert, h.tags, h.tags, List.countP_append]
    by_cases same : tag = e.tag
    · subst same
      by_cases none : elements.countP (·.tag == e.tag) = 0 <;> simp [none]
    · simp [same, Ne.symm same]
  ordered := Table.ordered_insert h.ordered
  sum := by
    rw [Summary.count, Summary.total_insert h.ordered, h.sum]

theorem Summary.Counts.fold {s : Summary} {elements : List Element} (h : s.Counts elements)
    (others : List (NodeId × Element)) :
    (others.foldl (fun s e => s.count e.2.tag) s).Counts (elements ++ others.map (·.2)) := by
  induction others generalizing s elements with
  | nil => simpa using h
  | cons e others ih => simpa using ih (h.count e.2)

end Counting

/-- A document that is what a tree says, node for node. -/
structure Represents (doc : Document) (w : Tree) : Prop where
  size : doc.size = w.subtrees.length
  kinds : ∀ id, doc.kind? id = w.subtrees[id]?.map Tree.kind
  document : doc.kind? root = some .document
  reads : ∀ id t, doc.Reads id t ↔ w.subtrees[id]? = some t
  whole : ∀ t, doc.Reads root t ↔ t = w
  children : ∀ id, doc.Along (doc.firstChild? id) (doc.children id)
  parents : ∀ c p, doc.parent? c = some p ↔ c ∈ doc.children p
  once : ∀ p, ∀ c ∈ doc.children p, (doc.children p).count c = 1
  rootElement : ∃ before u beyond, w.children = before ++ u :: beyond ∧ u.isElement = true ∧
    (∀ v ∈ before, v.isElement = false) ∧ doc.rootElement? = some (1 + Tree.sizes before) ∧
    doc.Reads (1 + Tree.sizes before) u
  elements : doc.elements =
    w.subtrees.zipIdx.filterMap fun entry => entry.1.element?.map fun e => (entry.2, e)
  summary : doc.summary.Counts (w.subtrees.filterMap Tree.element?)

theorem Built.along_children (built : doc.Built) (id : NodeId) :
    doc.Along (doc.firstChild? id) (doc.children id) := by
  cases node : doc.node? id with
  | none =>
    rw [children_of_none node, firstChild?, node]
    exact .nil
  | some _ =>
    obtain ⟨_, t, held⟩ := built.exists_holds node
    rw [held.children_eq]
    exact held.stands.along

theorem Built.parent?_eq_some_iff (built : doc.Built) {c p : NodeId} :
    doc.parent? c = some p ↔ c ∈ doc.children p := by
  refine ⟨fun parent => ?_, built.parent?_of_mem_children⟩
  obtain ⟨number, t, made⟩ := built
  have held := holds_of_ofTree? made
  obtain ⟨node, found, _⟩ := Option.bind_eq_some_iff.mp parent
  have upper : c < doc.size := (Array.getElem?_eq_some_iff.mp found).1
  rw [size_of_ofTree? made] at upper
  -- the document node itself has no parent
  have lower : root < c := by
    refine Nat.pos_of_ne_zero fun first => ?_
    subst first
    exact absurd (held.stands.parent.symm.trans parent) (by simp)
  obtain ⟨q, parent', mem⟩ := Holds.child_within (whole t) held lower (by rwa [root, Nat.zero_add])
  cases parent.symm.trans parent'
  exact mem

theorem Holds.exists_rootElement {w : Tree} (h : doc.Holds parent root w)
    (rooted : doc.rootElement?.isSome = true) : ∃ before u beyond,
    w.children = before ++ u :: beyond ∧ u.isElement = true ∧
    (∀ v ∈ before, v.isElement = false) ∧ doc.rootElement? = some (1 + Tree.sizes before) ∧
    doc.Reads (1 + Tree.sizes before) u := by
  have below := h.below
  rw [rootElement?, h.children_eq] at rooted ⊢
  by_cases any : ∃ u ∈ w.children, u.isElement = true
  · obtain ⟨u, mem, element⟩ := any
    obtain ⟨before, v, beyond, split, element, first⟩ := exists_first_element mem element
    rw [split] at below ⊢
    obtain ⟨found, held⟩ := below.find?_eq element first
    exact ⟨before, v, beyond, rfl, element, first, found, Holds.reads v held⟩
  · have none : ∀ u ∈ w.children, u.isElement = false := fun u mem =>
      Bool.eq_false_iff.mpr fun element => any ⟨u, mem, element⟩
    rw [below.find?_eq_none none] at rooted
    cases rooted

theorem filterMap_range_eq {α β : Type} (l : List α) (f : α → Nat → Option β) :
    ((List.range l.length).filterMap fun i => l[i]?.bind (f · i)) =
      l.zipIdx.filterMap fun entry => f entry.1 entry.2 := by
  rw [List.range_eq_range', ← List.zipIdx_map_snd 0 l, List.filterMap_map]
  refine List.filterMap_congr fun entry mem => ?_
  have found := List.mem_zipIdx_iff_getElem?.mp mem
  simp [found]

theorem represents_of_ofTree? {number : Nat} {t : Tree} (made : ofTree? number t = some doc) :
    doc.Represents (whole t) := by
  have built : doc.Built := ⟨number, t, made⟩
  have held := holds_of_ofTree? made
  have size : doc.size = (whole t).subtrees.length :=
    (size_of_ofTree? made).trans (Tree.length_subtrees _).symm
  have holds {id : Nat} {u : Tree} (found : (whole t).subtrees[id]? = some u) :
      ∃ p, doc.Holds p id u := by
    have below := Holds.subtree (whole t) held found
    rwa [root, Nat.zero_add] at below
  have kinds (id : Nat) : doc.kind? id = (whole t).subtrees[id]?.map Tree.kind := by
    cases found : (whole t).subtrees[id]? with
    | some u =>
      obtain ⟨_, below⟩ := holds found
      exact below.kind?_eq
    | none =>
      have beyond := List.getElem?_eq_none_iff.mp found
      rw [← size] at beyond
      simp [kind?, node?, Array.getElem?_eq_none beyond]
  have reads (id : NodeId) (u : Tree) : doc.Reads id u ↔ (whole t).subtrees[id]? = some u := by
    refine ⟨fun read => ?_, fun found => ?_⟩
    · obtain ⟨v, found, _⟩ := Option.map_eq_some_iff.mp ((kinds id).symm.trans read.kind?_eq)
      obtain ⟨_, below⟩ := holds found
      rw [found, Reads.unique u read (Holds.reads v below)]
    · obtain ⟨_, below⟩ := holds found
      exact Holds.reads u below
  have elements_ : doc.elements = (whole t).subtrees.zipIdx.filterMap fun entry =>
      entry.1.element?.map fun e => (entry.2, e) := by
    rw [← filterMap_range_eq (whole t).subtrees fun u i => u.element?.map fun e => (i, e),
      Document.elements, size]
    refine List.filterMap_congr fun id _ => ?_
    rw [element?, kinds]
    cases (whole t).subtrees[id]? with
    | none => rfl
    | some u => cases u <;> rfl
  refine {
    size := size
    kinds := kinds
    document := ?_
    reads := reads
    whole := fun u => ?_
    children := built.along_children
    parents := fun _ _ => built.parent?_eq_some_iff
    once := fun p c mem => ?_
    rootElement := held.exists_rootElement (rootElement?_of_ofTree? made)
    elements := elements_
    summary := ?_ }
  · rw [kinds, Tree.subtrees_eq, whole_eq]
    rfl
  · rw [reads, Tree.subtrees_eq]
    exact ⟨fun same => (Option.some.inj same).symm, fun same => congrArg some same.symm⟩
  · exact List.count_eq_one_of_mem ((built.children_increasing p).imp Nat.ne_of_lt) mem
  · have begun : Summary.Counts ⟨0, []⟩ [] := ⟨rfl, fun _ => rfl, .nil, rfl⟩
    have listed : doc.elements.map (·.2) = (whole t).subtrees.filterMap Tree.element? := by
      rw [elements_, List.map_filterMap, ← List.zipIdx_map_fst 0 (whole t).subtrees,
        List.filterMap_map, List.zipIdx_map_fst]
      simp [Function.comp_def]
    exact listed ▸ begun.fold doc.elements

/-- A tree without an element on its top level makes no document, and any other makes one that
represents it. -/
theorem tree_represented (number : Nat) (t : Tree) :
    (ofTree? number t = none ↔ ∀ u ∈ (whole t).children, u.isElement = false) ∧
      ∀ doc, ofTree? number t = some doc → doc.Represents (whole t) :=
  ⟨ofTree?_eq_none_iff number t, fun _ made => represents_of_ofTree? made⟩

def page : Tree :=
  .element { tag := "page" } [.content "hello",
    .element { tag := "body" } [.element { tag := "p" } []], .comment "note",
    .element { tag := "footer" } []]

theorem tree_represented_page : ∃ doc, ofTree? 0 page = some doc ∧
    doc.children 1 = [2, 3, 5, 6] ∧ doc.Represents (.document [page]) := by
  have known : (ofTree? 0 page).any (fun doc => doc.children 1 == [2, 3, 5, 6]) = true := by
    decide +kernel
  obtain ⟨doc, made, known⟩ := (Option.any_eq_true _ _).mp known
  exact ⟨doc, made, by simpa using known, (tree_represented 0 page).2 doc made⟩

end Document
end MarkupMachine
