import MarkupMachine.Proofs.Tree.Arena

/-! The array of a document represents the tree it was made of: every node is the root of a subtree
that is laid out from there on, and its children follow it in order. -/

namespace MarkupMachine.Document

def Built (doc : Document) : Prop := ∃ number t, ofTree? number t = some doc

/-- Along next siblings one comes from a node, or from none, to such nodes and then to an end. -/
inductive Along (doc : Document) : Option NodeId → List NodeId → Prop
  | nil : Along doc none []
  | cons {id : NodeId} {rest : List NodeId} : Along doc (doc.nextSibling? id) rest →
    Along doc (some id) (id :: rest)

structure Stands (doc : Document) (id : NodeId) (kind : NodeKind) (parent : Option NodeId)
    (children : List NodeId) : Prop where
  kind : doc.kind? id = some kind
  parent : doc.parent? id = parent
  along : doc.Along (doc.firstChild? id) children

mutual

/-- A tree is laid out in a document, with its root under a number. -/
def Holds (doc : Document) (parent : Option NodeId) (id : NodeId) : Tree → Prop
  | .document children => doc.Stands id .document parent (numbers (id + 1) children) ∧
    HoldsAll doc (some id) (id + 1) children
  | .element e children => doc.Stands id (.element e) parent (numbers (id + 1) children) ∧
    HoldsAll doc (some id) (id + 1) children
  | .content text => doc.Stands id (.content text) parent []
  | .comment text => doc.Stands id (.comment text) parent []

def HoldsAll (doc : Document) (parent : Option NodeId) (id : NodeId) : List Tree → Prop
  | [] => True
  | t :: rest => Holds doc parent id t ∧ HoldsAll doc parent (id + t.size) rest

end

variable {doc : Document} {parent : Option NodeId} {id : Nat}

namespace Along

variable {start : Option NodeId} {ids : List NodeId}

theorem head?_eq (h : doc.Along start ids) : start = ids.head? := by
  cases h <;> rfl

theorem siblings_eq {count : Nat} (h : doc.Along start ids) (enough : ids.length ≤ count) :
    Node.siblings doc.nodes count start = ids := by
  induction h generalizing count with
  | nil => cases count <;> rfl
  | cons _ ih =>
    cases count with
    | zero => cases enough
    | succ count =>
      rw [List.length_cons] at enough
      exact congrArg (_ :: ·) (ih (Nat.le_of_succ_le_succ enough))

theorem nextSibling?_eq {before beyond : List NodeId} {child : NodeId}
    (h : doc.Along start (before ++ child :: beyond)) : doc.nextSibling? child = beyond.head? := by
  induction before generalizing start with
  | nil =>
    cases h with
    | cons rest => exact rest.head?_eq
  | cons id before ih =>
    cases h with
    | cons rest => exact ih rest

end Along

theorem Holds.stands {t : Tree} (h : doc.Holds parent id t) :
    doc.Stands id t.kind parent (numbers (id + 1) t.children) := by
  cases t with
  | document | element => exact h.1
  | content | comment => exact h

theorem Holds.below {t : Tree} (h : doc.Holds parent id t) :
    doc.HoldsAll (some id) (id + 1) t.children := by
  cases t with
  | document | element => exact h.2
  | content | comment => exact trivial

theorem Holds.kind?_eq {t : Tree} (h : doc.Holds parent id t) : doc.kind? id = some t.kind :=
  h.stands.kind

theorem lt_size_of_kind? {kind : NodeKind} (h : doc.kind? id = some kind) : id < doc.size := by
  obtain ⟨node, found, _⟩ := Option.map_eq_some_iff.mp h
  exact (Array.getElem?_eq_some_iff.mp found).1

theorem HoldsAll.length_le {t : Tree} {rest : List Tree} (h : doc.HoldsAll parent id (t :: rest)) :
    id + (t :: rest).length ≤ doc.size := by
  induction rest generalizing id t with
  | nil => exact lt_size_of_kind? h.1.kind?_eq
  | cons u rest ih =>
    have later := ih h.2
    have some_node : 0 < t.size := by cases t <;> simp [Tree.size]
    simp only [List.length_cons] at later ⊢
    omega

theorem length_numbers (id : NodeId) (ts : List Tree) : (numbers id ts).length = ts.length := by
  induction ts generalizing id with
  | nil => rfl
  | cons t rest ih => simp [numbers, ih]

theorem HoldsAll.length_le_size {ts : List Tree} (h : doc.HoldsAll parent id ts) :
    (numbers id ts).length ≤ doc.size := by
  rw [length_numbers]
  cases ts with
  | nil => exact Nat.zero_le _
  | cons t rest => exact Nat.le_trans (Nat.le_add_left _ _) h.length_le

theorem Holds.children_eq {t : Tree} (h : doc.Holds parent id t) :
    doc.children id = numbers (id + 1) t.children :=
  h.stands.along.siblings_eq h.below.length_le_size

theorem children_of_none (h : doc.node? id = none) : doc.children id = [] := by
  have none : doc.firstChild? id = none := by rw [firstChild?, h]; rfl
  rw [children, none]
  cases doc.size <;> rfl

theorem node?_of_toList {before after : List Node} {node : Node}
    (h : doc.nodes.toList = before ++ node :: after) : doc.node? before.length = some node := by
  simp [node?, ← Array.getElem?_toList, h]

theorem along_of_layoutAll (parent : Option NodeId) (ts : List Tree) (before after : List Node)
    (h : doc.nodes.toList = before ++ layoutAll parent before.length ts ++ after) :
    doc.Along (numbers before.length ts).head? (numbers before.length ts) := by
  induction ts generalizing before with
  | nil => exact .nil
  | cons t rest ih =>
    simp only [layoutAll, List.append_assoc] at h
    have later := ih (before ++ layout parent _ before.length t)
      (by simpa [length_layout] using h)
    rw [layout_eq, List.cons_append] at h
    have next : doc.nextSibling? before.length = (numbers (before.length + t.size) rest).head? := by
      rw [nextSibling?, node?_of_toList h]
      rfl
    simp only [List.length_append, length_layout] at later
    exact .cons (next ▸ later)

theorem stands_of_toList (ts : List Tree) {before after : List Node} {kind : NodeKind}
    {next : Option NodeId} (h : doc.nodes.toList = before ++
      .heading kind parent next (numbers (before.length + 1) ts) ::
        (layoutAll (some before.length) (before.length + 1) ts ++ after)) :
    doc.Stands before.length kind parent (numbers (before.length + 1) ts) := by
  have node := node?_of_toList h
  have along := along_of_layoutAll (some before.length) ts (before ++ [_]) after (by simpa using h)
  simp only [List.length_append, List.length_singleton] at along
  have first : doc.firstChild? before.length = (numbers (before.length + 1) ts).head? := by
    rw [firstChild?, node]
    rfl
  exact ⟨by rw [kind?, node]; rfl, by rw [parent?, node]; rfl, first ▸ along⟩

mutual

theorem holds_of_layout (parent next : Option NodeId) : (t : Tree) → (before after : List Node) →
    doc.nodes.toList = before ++ layout parent next before.length t ++ after →
    doc.Holds parent before.length t
  | .document children, before, after, h => by
    simp only [layout, List.append_assoc, List.cons_append] at h
    refine ⟨stands_of_toList children h, ?_⟩
    have rest := holdsAll_of_layoutAll (some before.length) children (before ++ [_]) after
      (by simpa using h)
    simpa using rest
  | .element e children, before, after, h => by
    simp only [layout, List.append_assoc, List.cons_append] at h
    refine ⟨stands_of_toList children h, ?_⟩
    have rest := holdsAll_of_layoutAll (some before.length) children (before ++ [_]) after
      (by simpa using h)
    simpa using rest
  | .content text, before, after, h => by
    simp only [layout, List.append_assoc, List.cons_append] at h
    exact stands_of_toList [] h
  | .comment text, before, after, h => by
    simp only [layout, List.append_assoc, List.cons_append] at h
    exact stands_of_toList [] h

theorem holdsAll_of_layoutAll (parent : Option NodeId) : (ts : List Tree) →
    (before after : List Node) →
    doc.nodes.toList = before ++ layoutAll parent before.length ts ++ after →
    doc.HoldsAll parent before.length ts
  | [], _, _, _ => trivial
  | t :: rest, before, after, h => by
    simp only [layoutAll, List.append_assoc] at h
    refine ⟨holds_of_layout parent _ t before _ (by simpa using h), ?_⟩
    have later := holdsAll_of_layoutAll parent rest (before ++ layout parent _ before.length t)
      after (by simpa [length_layout] using h)
    simpa [length_layout] using later

end

theorem holds_of_ofTree? {number : Nat} {t : Tree} (h : ofTree? number t = some doc) :
    doc.Holds none root (whole t) := by
  simp only [ofTree?_eq] at h
  split at h
  · cases h
    exact holds_of_layout none none (whole t) [] [] (by simp [root])
  · cases h

theorem size_of_ofTree? {number : Nat} {t : Tree} (h : ofTree? number t = some doc) :
    doc.size = (whole t).size := by
  simp only [ofTree?_eq] at h
  split at h
  · cases h
    simp [size, length_layout]
  · cases h

theorem number_of_ofTree? {number : Nat} {t : Tree} (h : ofTree? number t = some doc) :
    doc.number = number := by
  simp only [ofTree?_eq] at h
  split at h
  · cases h
    rfl
  · cases h

theorem ofTree?_renumber {number : Nat} {t : Tree} (h : ofTree? number t = some doc) (other : Nat) :
    ofTree? other t = some { doc with number := other } := by
  simp only [ofTree?_eq] at h ⊢
  split at h
  · cases h
    exact if_pos (by assumption)
  · cases h

theorem rootElement?_of_ofTree? {number : Nat} {t : Tree} (h : ofTree? number t = some doc) :
    doc.rootElement?.isSome := by
  simp only [ofTree?_eq] at h
  split at h
  · cases h
    assumption
  · cases h

theorem Built.exists_root (built : doc.Built) :
    ∃ root el, doc.rootElement? = some root ∧ doc.element? root = some el := by
  obtain ⟨number, t, made⟩ := built
  obtain ⟨root, rooted⟩ := Option.isSome_iff_exists.mp (rootElement?_of_ofTree? made)
  have element : (doc.element? root).isSome := by
    simpa [rootElement?] using List.find?_some rooted
  obtain ⟨el, element⟩ := Option.isSome_iff_exists.mp element
  exact ⟨root, el, rooted, element⟩

theorem HoldsAll.exists_of_mem {ts : List Tree} {c : Nat} (h : doc.HoldsAll parent id ts)
    (mem : c ∈ numbers id ts) : id ≤ c ∧ ∃ t ∈ ts, doc.Holds parent c t := by
  induction ts generalizing id with
  | nil => cases mem
  | cons t rest ih =>
    rcases List.mem_cons.mp mem with rfl | mem
    · exact ⟨Nat.le_refl _, t, by simp, h.1⟩
    · obtain ⟨le, u, within, held⟩ := ih h.2 mem
      exact ⟨by omega, u, List.mem_cons_of_mem t within, held⟩

theorem Holds.exists_of_mem_children {t : Tree} {c : Nat} (h : doc.Holds parent id t)
    (mem : c ∈ doc.children id) : id < c ∧ ∃ u ∈ t.children, doc.Holds (some id) c u := by
  rw [h.children_eq] at mem
  obtain ⟨le, u, within, held⟩ := h.below.exists_of_mem mem
  exact ⟨by omega, u, within, held⟩

mutual

theorem Holds.exists_within {parent : Option NodeId} {id j : Nat} :
    (t : Tree) → doc.Holds parent id t → id ≤ j → j < id + t.size →
    ∃ p u, doc.Holds p j u
  | .document children, h, lower, upper => by
    rcases Nat.eq_or_lt_of_le lower with rfl | lower
    · exact ⟨_, _, h⟩
    · exact HoldsAll.exists_within children h.2 lower (by simp only [Tree.size] at upper; omega)
  | .element _ children, h, lower, upper => by
    rcases Nat.eq_or_lt_of_le lower with rfl | lower
    · exact ⟨_, _, h⟩
    · exact HoldsAll.exists_within children h.2 lower (by simp only [Tree.size] at upper; omega)
  | .content _, h, lower, upper => by
    have same : id = j := by simp only [Tree.size] at upper; omega
    exact ⟨_, _, same ▸ h⟩
  | .comment _, h, lower, upper => by
    have same : id = j := by simp only [Tree.size] at upper; omega
    exact ⟨_, _, same ▸ h⟩

theorem HoldsAll.exists_within {parent : Option NodeId} {id j : Nat} :
    (ts : List Tree) → doc.HoldsAll parent id ts → id ≤ j → j < id + Tree.sizes ts →
    ∃ p u, doc.Holds p j u
  | [], _, lower, upper => by simp only [Tree.sizes] at upper; omega
  | t :: rest, h, lower, upper => by
    rcases Nat.lt_or_ge j (id + t.size) with inside | beyond
    · exact Holds.exists_within t h.1 lower inside
    · exact HoldsAll.exists_within rest h.2 beyond (by simp only [Tree.sizes] at upper; omega)

end

theorem Built.exists_holds (built : doc.Built) {node : Node} (h : doc.node? id = some node) :
    ∃ p t, doc.Holds p id t := by
  obtain ⟨number, t, made⟩ := built
  have bound : id < doc.size := by
    simp only [node?] at h
    exact (Array.getElem?_eq_some_iff.mp h).1
  rw [size_of_ofTree? made] at bound
  exact Holds.exists_within (whole t) (holds_of_ofTree? made) (Nat.zero_le _) (by simpa [root])

theorem Built.of_mem_children (built : doc.Built) {c : Nat} (mem : c ∈ doc.children id) :
    id < c ∧ ∃ kind, doc.kind? c = some kind := by
  cases node : doc.node? id with
  | none => simp [children_of_none node] at mem
  | some _ =>
    obtain ⟨p, t, held⟩ := built.exists_holds node
    obtain ⟨lt, u, _, below⟩ := held.exists_of_mem_children mem
    exact ⟨lt, _, below.kind?_eq⟩

theorem Built.parent?_of_mem_children (built : doc.Built) {c : Nat} (mem : c ∈ doc.children id) :
    doc.parent? c = some id := by
  cases node : doc.node? id with
  | none => simp [children_of_none node] at mem
  | some _ =>
    obtain ⟨_, t, held⟩ := built.exists_holds node
    obtain ⟨_, _, _, below⟩ := held.exists_of_mem_children mem
    exact below.stands.parent

end MarkupMachine.Document
