import MarkupMachine.Proofs.Tree.Shape

/-! Document order. Subtrees of siblings are laid out one after the other, and those of children
within their parent's; so a walk that keeps a list of what it has still to visit meets ever greater
numbers, and no more elements than the list holds. -/

namespace MarkupMachine

namespace Tree

mutual

def elements : Tree → Nat
  | .document children => elementsOf children
  | .element _ children => elementsOf children + 1
  | .content _ => 0
  | .comment _ => 0

def elementsOf : List Tree → Nat
  | [] => 0
  | t :: rest => t.elements + elementsOf rest

end

mutual

theorem elements_le_size : (t : Tree) → t.elements ≤ t.size
  | .document children => by
    have below := elementsOf_le_sizes children
    simp only [elements, size]
    omega
  | .element _ children => by
    have below := elementsOf_le_sizes children
    simp only [elements, size]
    omega
  | .content _ => by simp [elements]
  | .comment _ => by simp [elements]

theorem elementsOf_le_sizes : (ts : List Tree) → elementsOf ts ≤ sizes ts
  | [] => Nat.le_refl 0
  | t :: rest => Nat.add_le_add (elements_le_size t) (elementsOf_le_sizes rest)

end

theorem size_le_of_mem {t : Tree} {ts : List Tree} (mem : t ∈ ts) : t.size ≤ sizes ts := by
  induction ts with
  | nil => cases mem
  | cons u rest ih =>
    simp only [sizes]
    rcases List.mem_cons.mp mem with rfl | mem
    · exact Nat.le_add_right _ _
    · exact Nat.le_trans (ih mem) (Nat.le_add_left _ _)

theorem sizes_children_le (t : Tree) : sizes t.children ≤ t.size := by
  cases t <;> simp [children, size, sizes]

end Tree

namespace Document

/-- Subtrees with their roots under some numbers lie between two bounds, one after the other, and
have so many elements in all. -/
inductive InOrder (doc : Document) : Nat → List NodeId → Nat → Nat → Prop
  | nil {lo hi : Nat} : lo ≤ hi → InOrder doc lo [] hi 0
  | cons {lo id hi n : Nat} {rest parent t} : lo ≤ id → doc.Holds parent id t →
    InOrder doc (id + t.size) rest hi n → InOrder doc lo (id :: rest) hi (t.elements + n)

namespace InOrder

variable {doc : Document} {lo mid hi n m id : Nat} {ids others : List NodeId}

theorem weaken (h : doc.InOrder mid ids hi n) (le : lo ≤ mid) : doc.InOrder lo ids hi n := by
  cases h with
  | nil above => exact .nil (Nat.le_trans le above)
  | cons above held rest => exact .cons (Nat.le_trans le above) held rest

theorem append (first : doc.InOrder lo ids mid n) (later : doc.InOrder mid others hi m) :
    doc.InOrder lo (ids ++ others) hi (n + m) := by
  induction first with
  | nil le =>
    rw [Nat.zero_add]
    exact later.weaken le
  | cons le held _ ih =>
    rw [Nat.add_assoc]
    exact .cons le held (ih later)

theorem drop (h : doc.InOrder lo (ids ++ others) hi n) :
    ∃ m, m ≤ n ∧ doc.InOrder lo others hi m := by
  induction ids generalizing lo n with
  | nil => exact ⟨n, Nat.le_refl n, h⟩
  | cons id ids ih =>
    cases h with
    | cons le held rest =>
      obtain ⟨m, fewer, rest⟩ := ih rest
      exact ⟨m, Nat.le_trans fewer (Nat.le_add_left _ _),
        rest.weaken (Nat.le_trans le (Nat.le_add_right _ _))⟩

theorem le_of_mem (h : doc.InOrder lo ids hi n) (mem : id ∈ ids) : lo ≤ id := by
  induction h with
  | nil => cases mem
  | cons le _ _ ih =>
    rcases List.mem_cons.mp mem with rfl | mem
    · exact le
    · have later := ih mem
      omega

theorem increasing (h : doc.InOrder lo ids hi n) : ids.Pairwise (· < ·) := by
  induction h with
  | nil => exact .nil
  | @cons _ id _ _ _ _ t _ held rest ih =>
    refine List.pairwise_cons.mpr ⟨fun other mem => ?_, ih⟩
    have later := rest.le_of_mem mem
    have some_node : 0 < t.size := by cases t <;> simp [Tree.size]
    exact Nat.lt_of_lt_of_le (Nat.lt_add_of_pos_right some_node) later

end InOrder

variable {doc : Document} {parent : Option NodeId} {id : Nat}

theorem HoldsAll.inOrder {ts : List Tree} (h : doc.HoldsAll parent id ts) :
    doc.InOrder id (numbers id ts) (id + Tree.sizes ts) (Tree.elementsOf ts) := by
  induction ts generalizing id with
  | nil => exact .nil (Nat.le_refl _)
  | cons t rest ih =>
    have later := ih h.2
    simp only [numbers, Tree.sizes, Tree.elementsOf, ← Nat.add_assoc]
    exact .cons (Nat.le_refl _) h.1 later

theorem Holds.inOrder_children {el : Element} {children : List Tree}
    (h : doc.Holds parent id (.element el children)) :
    doc.InOrder (id + 1) (doc.children id) (id + (Tree.element el children).size)
      (Tree.elementsOf children) := by
  rw [h.children_eq]
  have below := h.below.inOrder
  have size : id + (Tree.element el children).size = id + 1 + Tree.sizes children := by
    simp only [Tree.size]
    omega
  rw [size]
  exact below

theorem Built.children_increasing (built : doc.Built) (id : NodeId) :
    (doc.children id).Pairwise (· < ·) := by
  cases node : doc.node? id with
  | none => simp [children_of_none node]
  | some _ =>
    obtain ⟨_, t, held⟩ := built.exists_holds node
    rw [held.children_eq]
    exact held.below.inOrder.increasing

def after (id : NodeId) (ids : List NodeId) : List NodeId := (ids.dropWhile (· != id)).drop 1

theorem after_eq {before beyond : List NodeId} (fresh : id ∉ before) :
    after id (before ++ id :: beyond) = beyond := by
  have passed : (before ++ id :: beyond).dropWhile (· != id) = id :: beyond := by
    have others : ∀ j ∈ before, (j != id) = true := fun j mem => by
      simpa using ne_of_mem_of_not_mem mem fresh
    rw [List.dropWhile_append_of_pos others]
    simp
  simp [after, passed]

theorem Built.after_child (built : doc.Built) {child : NodeId} {before beyond : List NodeId}
    (children : doc.children id = before ++ child :: beyond) :
    after child (doc.children id) = beyond ∧ doc.nextSibling? child = beyond.head? := by
  have increasing := built.children_increasing id
  rw [children] at increasing
  have fresh : child ∉ before := fun mem =>
    Nat.lt_irrefl child ((List.pairwise_append.mp increasing).2.2 child mem child (by simp))
  refine ⟨by rw [children, after_eq fresh], ?_⟩
  cases node : doc.node? id with
  | none => simp [children_of_none node] at children
  | some _ =>
    obtain ⟨_, t, held⟩ := built.exists_holds node
    have along := held.stands.along
    rw [← held.children_eq, children] at along
    exact along.nextSibling?_eq

theorem elements_le_size {number : Nat} {t u : Tree} (made : ofTree? number t = some doc)
    (rooted : t.rootElement? = some u) : u.elements ≤ doc.size := by
  have mem : u ∈ (whole t).children := List.mem_of_find?_eq_some rooted
  rw [size_of_ofTree? made]
  exact Nat.le_trans (Tree.elements_le_size u)
    (Nat.le_trans (Tree.size_le_of_mem mem) (whole t).sizes_children_le)

end Document
end MarkupMachine
