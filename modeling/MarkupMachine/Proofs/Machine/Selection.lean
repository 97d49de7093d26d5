import MarkupMachine.Machine.Step

/-! What the walk over the children of a frame passes over, and where it comes to rest. -/

namespace MarkupMachine

def appended (content : Option String) (texts : List String) : Option String :=
  if texts.isEmpty then content else some (content.getD "" ++ String.join texts)

theorem appended_cons (content : Option String) (text : String) (texts : List String) :
    appended content (text :: texts) = appended (gather content text) texts := by
  cases texts <;> cases content <;> simp [appended, gather, String.join_cons, String.append_assoc]

theorem appended_append (content : Option String) (texts more : List String) :
    appended (appended content texts) more = appended content (texts ++ more) := by
  induction texts generalizing content with
  | nil => rfl
  | cons text texts ih => rw [List.cons_append, appended_cons, appended_cons, ih]

namespace Document

def text? (doc : Document) (id : NodeId) : Option String :=
  match doc.kind? id with
  | some (.content text) => some text
  | _ => none

def texts (doc : Document) (ids : List NodeId) : List String := ids.filterMap doc.text?

theorem texts_append (doc : Document) (ids more : List NodeId) :
    doc.texts (ids ++ more) = doc.texts ids ++ doc.texts more := by
  rw [texts, texts, texts, List.filterMap_append]

/-- A node that the walk passes over. -/
inductive Skips (doc : Document) (raising : Bool) (id : NodeId) : Prop
  | content {text} : doc.kind? id = some (.content text) → Skips doc raising id
  | comment {text} : doc.kind? id = some (.comment text) → Skips doc raising id
  | element {el} : doc.kind? id = some (.element el) → raising = true →
    ElementKind.ofTag el.tag ≠ .catcher → Skips doc raising id

structure Admits (doc : Document) (raising : Bool) (id : NodeId) (el : Element) : Prop where
  element : doc.kind? id = some (.element el)
  calm : raising = true → ElementKind.ofTag el.tag = .catcher

def Blocks (doc : Document) (id : NodeId) : Prop :=
  doc.kind? id = some .document ∨ doc.kind? id = none

def Reaches (doc : Document) (raising : Bool) (ids : List NodeId) (id : NodeId)
    (beyond : List NodeId) : Prop :=
  ∃ skipped, ids = skipped ++ id :: beyond ∧ ∀ j ∈ skipped, doc.Skips raising j

variable {doc : Document} {raising : Bool} {id : NodeId}

theorem Admits.element?_eq {el : Element} (h : doc.Admits raising id el) :
    doc.element? id = some el := by
  simp [element?, h.element]

theorem Skips.select (skips : doc.Skips raising id) (rest : List NodeId)
    (content : Option String) : doc.select raising (id :: rest) content =
      doc.select raising rest (appended content (doc.texts [id])) := by
  cases skips with
  | @content text kind =>
    have texts : doc.texts [id] = [text] := by simp [Document.texts, text?, kind]
    rw [texts, appended_cons]
    simp [Document.select, kind, appended]
  | comment kind => simp [Document.select, kind, Document.texts, text?, appended]
  | element kind flying other =>
    simp [Document.select, kind, flying, ElementKind.catches, other, Document.texts, text?,
      appended]

theorem select_append {passed : List NodeId} (skips : ∀ j ∈ passed, doc.Skips raising j)
    (beyond : List NodeId) (content : Option String) : doc.select raising (passed ++ beyond) content =
      doc.select raising beyond (appended content (doc.texts passed)) := by
  induction passed generalizing content with
  | nil => rfl
  | cons j passed ih =>
    rw [List.cons_append, (skips j (by simp)).select,
      ih fun i mem => skips i (List.mem_cons_of_mem _ mem), appended_append, ← texts_append,
      List.singleton_append]

theorem Admits.select {el : Element} (h : doc.Admits raising id el) (rest : List NodeId)
    (content : Option String) : doc.select raising (id :: rest) content =
      ⟨content, rest, .element (ElementKind.ofTag el.tag) id⟩ := by
  cases raising with
  | false => simp [Document.select, h.element]
  | true => simp [Document.select, h.element, ElementKind.catches, h.calm rfl]

theorem Blocks.select (h : doc.Blocks id) (rest : List NodeId) (content : Option String) :
    doc.select raising (id :: rest) content = ⟨content, rest, .misplaced⟩ := by
  rcases h with h | h <;> simp [Document.select, h]

theorem skips_or_admits_or_blocks (doc : Document) (raising : Bool) (id : NodeId) :
    doc.Skips raising id ∨ (∃ el, doc.Admits raising id el) ∨ doc.Blocks id := by
  cases kind : doc.kind? id with
  | none => exact .inr (.inr (.inr kind))
  | some node =>
    cases node with
    | document => exact .inr (.inr (.inl kind))
    | content text => exact .inl (.content kind)
    | comment text => exact .inl (.comment kind)
    | element el =>
      by_cases calm : raising = true → ElementKind.ofTag el.tag = .catcher
      · exact .inr (.inl ⟨el, kind, calm⟩)
      · obtain ⟨flying, other⟩ := Classical.not_imp.mp calm
        exact .inl (.element kind flying other)

theorem Reaches.cons {ids beyond : List NodeId} {j : NodeId} (skip : doc.Skips raising j)
    (h : doc.Reaches raising ids id beyond) : doc.Reaches raising (j :: ids) id beyond := by
  obtain ⟨skipped, rfl, all⟩ := h
  refine ⟨j :: skipped, rfl, fun i mem => ?_⟩
  rcases List.mem_cons.mp mem with rfl | mem
  · exact skip
  · exact all i mem

theorem Reaches.first (ids : List NodeId) : doc.Reaches raising (id :: ids) id ids :=
  ⟨[], rfl, fun _ mem => by cases mem⟩

theorem select_cases (doc : Document) (raising : Bool) (ids : List NodeId)
    (content : Option String) :
    (∃ gathered, doc.select raising ids content = ⟨gathered, [], .exhausted⟩) ∨
    ∃ gathered id beyond, doc.Reaches raising ids id beyond ∧
      ((∃ el, doc.Admits raising id el ∧ doc.select raising ids content =
        ⟨gathered, beyond, .element (ElementKind.ofTag el.tag) id⟩) ∨
      (doc.Blocks id ∧ doc.select raising ids content = ⟨gathered, beyond, .misplaced⟩)) := by
  induction ids generalizing content with
  | nil => exact .inl ⟨content, rfl⟩
  | cons j ids ih =>
    rcases doc.skips_or_admits_or_blocks raising j with skip | ⟨el, admits⟩ | blocks
    · rw [skip.select]
      rcases ih (appended content (doc.texts [j])) with ⟨all, ended⟩ | ⟨all, id, beyond, reached, rest⟩
      · exact .inl ⟨all, ended⟩
      · exact .inr ⟨all, id, beyond, reached.cons skip, rest⟩
    · exact .inr ⟨content, j, ids, .first ids, .inl ⟨el, admits, admits.select ids content⟩⟩
    · exact .inr ⟨content, j, ids, .first ids, .inr ⟨blocks, blocks.select ids content⟩⟩

theorem Reaches.select_of_admits {ids beyond : List NodeId} {el : Element}
    (h : doc.Reaches raising ids id beyond) (admits : doc.Admits raising id el)
    (content : Option String) : ∃ gathered, doc.select raising ids content =
      ⟨gathered, beyond, .element (ElementKind.ofTag el.tag) id⟩ := by
  obtain ⟨skipped, rfl, all⟩ := h
  exact ⟨_, by rw [select_append all, admits.select]⟩

theorem Reaches.select_of_blocks {ids beyond : List NodeId}
    (h : doc.Reaches raising ids id beyond) (blocks : doc.Blocks id) (content : Option String) :
    ∃ gathered, doc.select raising ids content = ⟨gathered, beyond, .misplaced⟩ := by
  obtain ⟨skipped, rfl, all⟩ := h
  exact ⟨_, by rw [select_append all, blocks.select]⟩

theorem exists_reaches_of_select_element {ids beyond : List NodeId}
    {content gathered : Option String} {kind : ElementKind}
    (h : doc.select raising ids content = ⟨gathered, beyond, .element kind id⟩) :
    ∃ el, doc.Reaches raising ids id beyond ∧ doc.Admits raising id el ∧
      kind = ElementKind.ofTag el.tag := by
  rcases doc.select_cases raising ids content with
    ⟨_, ended⟩ | ⟨_, j, _, reached, ⟨el, admits, entered⟩ | ⟨_, stuck⟩⟩
  · rw [ended] at h; cases h
  · rw [entered] at h; cases h
    exact ⟨el, reached, admits, rfl⟩
  · rw [stuck] at h; cases h

theorem exists_reaches_of_select_misplaced {ids beyond : List NodeId}
    {content gathered : Option String}
    (h : doc.select raising ids content = ⟨gathered, beyond, .misplaced⟩) :
    ∃ id, doc.Reaches raising ids id beyond ∧ doc.Blocks id := by
  rcases doc.select_cases raising ids content with
    ⟨_, ended⟩ | ⟨_, j, _, reached, ⟨el, admits, entered⟩ | ⟨blocks, stuck⟩⟩
  · rw [ended] at h; cases h
  · rw [entered] at h; cases h
  · rw [stuck] at h; cases h
    exact ⟨j, reached, blocks⟩

/-- The longest run of nodes that the walk passes over, and what is beyond. -/
structure Parts (doc : Document) (raising : Bool) (ids passed beyond : List NodeId) : Prop where
  split : ids = passed ++ beyond
  skips : ∀ j ∈ passed, doc.Skips raising j
  rests : ∀ j ∈ beyond.head?, ¬ doc.Skips raising j

theorem exists_parts (doc : Document) (raising : Bool) (ids : List NodeId) :
    ∃ passed beyond, doc.Parts raising ids passed beyond := by
  induction ids with
  | nil => exact ⟨[], [], rfl, nofun, nofun⟩
  | cons id ids ih =>
    by_cases skips : doc.Skips raising id
    case neg => exact ⟨[], id :: ids, rfl, nofun, fun j mem => by cases mem; exact skips⟩
    obtain ⟨passed, beyond, rfl, all, rests⟩ := ih
    exact ⟨id :: passed, beyond, rfl, List.forall_mem_cons.mpr ⟨skips, all⟩, rests⟩

theorem Parts.unique {ids passed beyond passed' beyond' : List NodeId}
    (parts : doc.Parts raising ids passed beyond)
    (parts' : doc.Parts raising ids passed' beyond') : passed' = passed ∧ beyond' = beyond := by
  -- the shorter of two runs would rest at a node that the longer one passes over
  have shortest {first more after : List NodeId} (skips : ∀ j ∈ first ++ more, doc.Skips raising j)
      (rests : ∀ j ∈ (more ++ after).head?, ¬ doc.Skips raising j) : more = [] := by
    cases more with
    | nil => rfl
    | cons j more => exact absurd (skips j (by simp)) (rests j rfl)
  rcases List.append_eq_append_iff.mp (parts.split.symm.trans parts'.split) with
    ⟨more, rfl, rfl⟩ | ⟨more, rfl, rfl⟩
  · obtain rfl := shortest parts'.skips parts.rests
    simp
  · obtain rfl := shortest parts.skips parts'.rests
    simp

end Document
end MarkupMachine
