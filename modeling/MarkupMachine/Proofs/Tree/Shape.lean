import MarkupMachine.Proofs.Tree.Layout

/-! The shape of a tree as a run meets it: its root element, document nodes within it, and how many
elements stand within each other. -/

namespace MarkupMachine

namespace Tree

def isElement : Tree → Bool
  | .element _ _ => true
  | _ => false

def rootElement? (t : Tree) : Option Tree := (Document.whole t).children.find? isElement

mutual

def hasDocument : Tree → Bool
  | .document _ => true
  | .element _ children => anyDocument children
  | .content _ => false
  | .comment _ => false

def anyDocument : List Tree → Bool
  | [] => false
  | t :: rest => t.hasDocument || anyDocument rest

end

mutual

def elementDepth : Tree → Nat
  | .document children => elementDepths children
  | .element _ children => elementDepths children + 1
  | .content _ => 0
  | .comment _ => 0

def elementDepths : List Tree → Nat
  | [] => 0
  | t :: rest => max t.elementDepth (elementDepths rest)

end

variable {t : Tree}

theorem hasDocument_of_mem {ts : List Tree} (mem : t ∈ ts) (h : anyDocument ts = false) :
    t.hasDocument = false := by
  induction ts with
  | nil => cases mem
  | cons u rest ih =>
    simp only [anyDocument, Bool.or_eq_false_iff] at h
    rcases List.mem_cons.mp mem with rfl | mem
    · exact h.1
    · exact ih mem h.2

theorem elementDepth_le_of_mem {ts : List Tree} (mem : t ∈ ts) :
    t.elementDepth ≤ elementDepths ts := by
  induction ts with
  | nil => cases mem
  | cons u rest ih =>
    simp only [elementDepths]
    rcases List.mem_cons.mp mem with rfl | mem
    · exact Nat.le_max_left _ _
    · exact Nat.le_trans (ih mem) (Nat.le_max_right _ _)

end Tree

namespace Document

variable {doc : Document} {parent : Option NodeId} {id : Nat}

theorem Holds.eq_element {t : Tree} {el : Element} (h : doc.Holds parent id t)
    (element : doc.element? id = some el) : t = .element el t.children := by
  cases t <;> simp [element?, h.kind?_eq, Tree.kind] at element
  subst element
  rfl

theorem Holds.isElement_eq {t : Tree} (h : doc.Holds parent id t) :
    (doc.element? id).isSome = t.isElement := by
  cases t <;> simp [element?, h.kind?_eq, Tree.kind, Tree.isElement]

theorem HoldsAll.exists_of_find {ts : List Tree} {found : Nat} (h : doc.HoldsAll parent id ts)
    (first : (numbers id ts).find? (fun id => (doc.element? id).isSome) = some found) :
    ∃ t, ts.find? Tree.isElement = some t ∧ doc.Holds parent found t := by
  induction ts generalizing id with
  | nil => cases first
  | cons t rest ih =>
    simp only [numbers, List.find?_cons, h.1.isElement_eq] at first
    cases element : t.isElement with
    | true =>
      simp only [element] at first
      cases first
      exact ⟨t, by simp [element], h.1⟩
    | false =>
      simp only [element] at first
      obtain ⟨u, eq, held⟩ := ih h.2 first
      exact ⟨u, by simp [element, eq], held⟩

theorem exists_holds_of_rootElement? {number : Nat} {t : Tree} {root : Nat}
    (made : ofTree? number t = some doc) (rooted : doc.rootElement? = some root) :
    ∃ parent u, t.rootElement? = some u ∧ doc.Holds parent root u := by
  have held := holds_of_ofTree? made
  rw [rootElement?, held.children_eq] at rooted
  obtain ⟨u, first, below⟩ := held.below.exists_of_find rooted
  exact ⟨_, u, first, below⟩

end Document
end MarkupMachine
