import MarkupMachine.Proofs.Codec.Messages
import MarkupMachine.Proofs.Codec.Scanning
import MarkupMachine.Tree.Parse

/-! The round trip through JSON: as a tree for all that has a JSON form, and as a text for whole
documents. -/

namespace MarkupMachine

namespace Json

variable {α : Type} {decoder : Decoder α} {j : Json} {a : α}

/-- Decoding undoes encoding, where all values inside have a JSON form. -/
def Lawful (decoder : Decoder α) (encode : α → Json) (literals : α → List Value) : Prop :=
  ∀ a, (∀ v ∈ literals a, v.Writable) → decodeTree decoder (encode a) = .ok a

theorem decode_text (reads : decoder.Reads j a) (survives : j.Survives)
    (shallow : j.height ≤ maxDepth) : decode decoder j.text = .ok a := by
  have read := reads (.text maxDepth) shallow
  simp [decode, scan_text survives, read]

theorem survives_ofOption {f : α → Json} {o : Option α} (each : ∀ a ∈ o, (f a).Survives) :
    (ofOption f o).Survives := by
  cases o with
  | none => trivial
  | some a => exact each a rfl

end Json

namespace Value

mutual

theorem survives_toJson : ∀ {v : Value}, (∀ x ∈ v.numbers, (Json.Number.float x).Survives) →
    v.toJson.Survives
  | .null, _ => ⟨trivial, trivial⟩
  | .bool _, _ => ⟨trivial, trivial, trivial⟩
  | .number x, survive => by
    have own : (numberToJson x).Survives := by
      unfold numberToJson
      split
      · exact survive x (by simp [numbers])
      · trivial
    exact ⟨trivial, own, trivial⟩
  | .text _, _ => ⟨trivial, trivial, trivial⟩
  | .list _, survive => ⟨trivial, survive_itemsToJson survive, trivial⟩
  | .object _, survive => ⟨trivial, survive_entriesToJson survive, trivial⟩

theorem survive_itemsToJson : ∀ {items : List Value},
    (∀ x ∈ itemsNumbers items, (Json.Number.float x).Survives) →
    Json.ItemsSurvive (itemsToJson items)
  | [], _ => trivial
  | _ :: _, survive =>
    ⟨survives_toJson fun x mem => survive x (List.mem_append_left _ mem),
      survive_itemsToJson fun x mem => survive x (List.mem_append_right _ mem)⟩

theorem survive_entriesToJson : ∀ {entries : List (String × Value)},
    (∀ x ∈ entriesNumbers entries, (Json.Number.float x).Survives) →
    Json.FieldsSurvive (entriesToJson entries)
  | [], _ => trivial
  | _ :: _, survive =>
    ⟨survives_toJson fun x mem => survive x (List.mem_append_left _ mem),
      survive_entriesToJson fun x mem => survive x (List.mem_append_right _ mem)⟩

end

def Survives (v : Value) : Prop := ∀ x ∈ v.numbers, (Json.Number.float x).Survives

end Value

theorem Position.survives_toJson (p : Position) : p.toJson.Survives := by
  have line := p.line.toNat_lt
  have column := p.column.toNat_lt
  exact ⟨Json.Number.survives_natural (Nat.lt_trans line (by decide)),
    Json.Number.survives_natural (Nat.lt_trans column (by decide)),
    Json.Number.survives_natural p.offset.toNat_lt, trivial⟩

namespace Expression

mutual

theorem survives_toJson : ∀ {x : Expression}, (∀ v ∈ x.literals, v.Survives) → x.toJson.Survives
  | .literal v, survive =>
    ⟨trivial, Value.survives_toJson (survive v (by simp [literals])), trivial⟩
  | .variable _, _ => ⟨trivial, trivial, trivial⟩
  | .symbol _ level, _ =>
    ⟨trivial, trivial, Json.Number.survives_natural (Nat.lt_trans level.toNat_lt (by decide)),
      trivial⟩
  | .interpolation _, survive => ⟨trivial, survive_partsToJson survive, trivial⟩

theorem survive_partsToJson : ∀ {parts : List Expression}, (∀ v ∈ partsLiterals parts, v.Survives) →
    Json.ItemsSurvive (partsToJson parts)
  | [], _ => trivial
  | _ :: _, survive =>
    ⟨survives_toJson fun v mem => survive v (List.mem_append_left _ mem),
      survive_partsToJson fun v mem => survive v (List.mem_append_right _ mem)⟩

end
end Expression

theorem Attribute.survives_toJson {a : Attribute} (survive : ∀ v ∈ a.literals, v.Survives) :
    a.toJson.Survives :=
  ⟨trivial, trivial, Json.survives_ofOption fun x own => Expression.survives_toJson fun v mem =>
    survive v (by simpa [literals, Option.mem_def.mp own]), trivial⟩

namespace Tree

theorem survive_attributes {attributes : List Attribute}
    (survive : ∀ v ∈ attributes.flatMap Attribute.literals, v.Survives) :
    Json.ItemsSurvive (attributes.map Attribute.toJson) := by
  induction attributes with
  | nil => trivial
  | cons a rest ih =>
    rw [List.flatMap_cons] at survive
    exact ⟨Attribute.survives_toJson fun v mem => survive v (List.mem_append_left _ mem),
      ih fun v mem => survive v (List.mem_append_right _ mem)⟩

mutual

theorem survives_toJson : ∀ {t : Tree}, (∀ v ∈ t.literals, v.Survives) → t.toJson.Survives
  | .document _, survive => ⟨trivial, survive_childrenToJson survive, trivial⟩
  | .element _ _, survive =>
    ⟨trivial, trivial, survive_attributes fun v mem => survive v (List.mem_append_left _ mem),
      survive_childrenToJson fun v mem => survive v (List.mem_append_right _ mem),
      Json.survives_ofOption fun p _ => p.survives_toJson, trivial⟩
  | .content _, _ => ⟨trivial, trivial, trivial⟩
  | .comment _, _ => ⟨trivial, trivial, trivial⟩

theorem survive_childrenToJson : ∀ {children : List Tree},
    (∀ v ∈ childrenLiterals children, v.Survives) → Json.ItemsSurvive (childrenToJson children)
  | [], _ => trivial
  | _ :: _, survive =>
    ⟨survives_toJson fun v mem => survive v (List.mem_append_left _ mem),
      survive_childrenToJson fun v mem => survive v (List.mem_append_right _ mem)⟩

end
end Tree

theorem Document.parse_toJson (number : Nat) {t : Tree} (writable : ∀ v ∈ t.literals, v.Writable)
    (survive : ∀ v ∈ t.literals, v.Survives) (shallow : t.toJson.height ≤ Json.maxDepth) :
    parse number t.toJson.text = (ofTree? number t).elim (.error .noRootElement) .ok := by
  have read := Json.decode_text (Tree.reads false writable) (Tree.survives_toJson survive) shallow
  rw [parse, show t.toJson = Json.arranged false t.toJson from rfl, read]
  cases made : ofTree? number t <;> simp [made]

/-- Decoding undoes encoding for each kind of data with a JSON form, and the text of a tree that a
text has room for makes the same document as the tree, or makes none for the same reason. Of floats
it is supposed that their texts read back. -/
theorem decoding_undoes_encoding :
    Json.Lawful Tree.decoder Tree.toJson Tree.literals ∧
    Json.Lawful Attribute.decoder Attribute.toJson Attribute.literals ∧
    Json.Lawful Expression.decoder Expression.toJson Expression.literals ∧
    Json.Lawful Value.decoder Value.toJson (fun v => [v]) ∧
    Json.Lawful Exception.decoder Exception.toJson (fun _ => []) ∧
    Json.Lawful Outcome.decoder Outcome.toJson Outcome.literals ∧
    Json.Lawful Payload.decoder Payload.toJson Payload.literals ∧
    Json.Lawful Request.decoder Request.toJson (·.payload.literals) ∧
    Json.Lawful Response.decoder Response.toJson (·.payload.literals) ∧
    ∀ number (t : Tree), (∀ v ∈ t.literals, v.Writable) → (∀ v ∈ t.literals, v.Survives) →
      t.toJson.height ≤ Json.maxDepth →
      Document.parse number t.toJson.text =
        (Document.ofTree? number t).elim (.error .noRootElement) .ok := by
  refine ⟨fun t writable => Tree.reads true writable .tree trivial,
    fun a writable => Attribute.reads true writable .tree trivial,
    fun x writable => Expression.reads true writable .tree trivial, fun v writable => ?_,
    fun e _ => e.reads .tree trivial, fun o writable => Outcome.reads writable .tree trivial,
    fun p writable => Payload.reads writable .tree trivial,
    fun r writable => Request.reads writable .tree trivial,
    fun r writable => Response.reads writable .tree trivial,
    fun number t writable survive shallow => Document.parse_toJson number writable survive shallow⟩
  have writable := writable v (by simp)
  have read := writable.reads .tree trivial
  rwa [← Value.normal_toJson writable.ordered] at read

def moment : Binary64 := .ofRatio false 5 2

def paced : Tree :=
  .element { tag := "main" } [
    .element {
      tag := "sleep"
      attributes := [{ name := "for", value := some (.literal (.number moment)) }]
      position := some { line := 2, column := 3, offset := 9 } } [],
    .content "tick"]

theorem decoding_undoes_encoding_paced :
    Json.decodeTree Tree.decoder paced.toJson = .ok paced ∧
    ∃ doc, Document.parse 0 paced.toJson.text = .ok doc ∧ Document.ofTree? 0 paced = some doc := by
  have literals : paced.literals = [.number moment] := rfl
  have writable : ∀ v ∈ paced.literals, v.Writable := by
    intro v mem
    rw [literals, List.mem_singleton] at mem
    subst mem
    exact ⟨trivial, fun x own => by rw [List.mem_singleton.mp own]; rfl⟩
  have survive : ∀ v ∈ paced.literals, v.Survives := by
    intro v mem x own
    rw [literals, List.mem_singleton] at mem
    subst mem
    rw [List.mem_singleton.mp own]
    unfold Json.Number.Survives
    rfl
  obtain ⟨trees, _, _, _, _, _, _, _, _, texts⟩ := decoding_undoes_encoding
  have made : (Document.ofTree? 0 paced).isSome = true := by decide +kernel
  obtain ⟨doc, made⟩ := Option.isSome_iff_exists.mp made
  have parsed := texts 0 paced writable survive (by decide)
  rw [made] at parsed
  exact ⟨trees paced writable, doc, parsed, made⟩

end MarkupMachine
