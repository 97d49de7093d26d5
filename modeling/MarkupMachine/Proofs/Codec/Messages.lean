import MarkupMachine.Proofs.Codec.Trees
import MarkupMachine.Report

/-! Exceptions, outcomes and renderer messages out of their JSON form, with its fields in order. -/

namespace MarkupMachine

open Json (Decoder)

namespace Exception

theorem Info.reads (info : Info) : Info.decoder.Reads info.toJson.normal info := by
  have form : info.toJson.normal = .object [
      ("element", Json.arranged true (Json.ofOption .string info.element)),
      ("message", .string info.message),
      ("position", Json.arranged true (Json.ofOption Position.toJson info.position))] := by
    simp only [Info.toJson, Json.arranged, Json.normal, Json.normalFields, Table.ofList, List.foldl,
      Table.insert, String.reduceLT, String.reduceEq, ↓reduceIte]
  have element : (Decoder.nullable Decoder.string).Reads
      (Json.arranged true (Json.ofOption .string info.element)) info.element :=
    .nullable_ofOption (by simp) fun s _ => by simpa using Decoder.Reads.ofString s
  have position := Tree.reads_position true info.position
  rw [form]
  exact .bind (.record (.cons rfl rfl (.put element) (.cons rfl rfl (.put (.ofString _))
    (.cons rfl rfl (.put position) .nil)))) rfl

theorem reads (e : Exception) : Exception.decoder.Reads e.toJson.normal e := by
  have form : e.toJson.normal = .object [("atom", .string e.category),
      ("info", Json.arranged true (Json.ofOption Info.toJson e.info))] :=
    Json.arranged_of_ordered true ["atom", "info"] rfl (by decide)
  have info : (Decoder.nullable Info.decoder).Reads
      (Json.arranged true (Json.ofOption Info.toJson e.info)) e.info :=
    .nullable_ofOption (fun _ _ => Json.arranged_object_ne_null _) fun info _ => info.reads
  rw [form]
  exact .bind (.record (.cons rfl rfl (.put (.ofString _)) (.cons rfl rfl (.put info) .nil))) rfl

end Exception

namespace Outcome

def literals : Outcome → List Value
  | .returned v => [v]
  | _ => []

theorem reads {o : Outcome} (writable : ∀ v ∈ o.literals, v.Writable) :
    Outcome.decoder.Reads o.toJson.normal o := by
  have form (name : String) (content : Json) :
      (Json.object [("t", .string name), ("v", content)]).normal =
        .object [("t", .string name), ("v", content.normal)] :=
    Json.arranged_of_ordered true ["t", "v"] rfl (by decide)
  cases o with
  | returned v =>
    have writable := writable v (by simp [literals])
    rw [toJson, form, Value.normal_toJson writable.ordered]
    exact .adjacent (by decide) rfl (.map writable.reads)
  | thrown e =>
    rw [toJson, form]
    exact .adjacent (by decide) rfl (.map e.reads)
  | fatal message =>
    rw [toJson, form]
    exact .adjacent (by decide) rfl (.map (.ofString message))
  | cancelled => exact .adjacent_alone rfl fun _ => rfl

end Outcome

namespace Uuid

theorem unhyphenated?_of_groups {a b c d e : List Char} (first : a.length = 8)
    (second : b.length = 4) (third : c.length = 4) (fourth : d.length = 4) (last : e.length = 12) :
    unhyphenated? (a ++ '-' :: b ++ '-' :: c ++ '-' :: d ++ '-' :: e) =
      some (a ++ b ++ c ++ d ++ e) := by
  simp [unhyphenated?, first, second, third, fourth, last, List.drop_append,
    List.drop_eq_nil_of_le]

theorem digit?_digitChar : ∀ d : Fin 16, digit? (Nat.digitChar d.val) = some d := by
  decide

theorem mapM_digit? (digits : List (Fin 16)) :
    (digits.map fun d => Nat.digitChar d.val).mapM digit? = some digits := by
  induction digits with
  | nil => rfl
  | cons d rest ih => simp [digit?_digitChar, ih]

theorem unhyphenated?_of_length {cs : List Char} (size : cs.length = 32) :
    unhyphenated? (cs.take 8 ++ '-' :: (cs.drop 8).take 4 ++ '-' :: (cs.drop 12).take 4 ++
      '-' :: (cs.drop 16).take 4 ++ '-' :: cs.drop 20) = some cs := by
  rw [unhyphenated?_of_groups (by simp [size]) (by simp [size]) (by simp [size]) (by simp [size])
    (by simp [size])]
  have group (start count : Nat) :
      (cs.drop start).take count ++ cs.drop (start + count) = cs.drop start := by
    rw [← List.drop_drop, List.take_append_drop]
  simp only [List.append_assoc, group 16 4, group 12 4, group 8 4, List.take_append_drop]

theorem parse?_text (id : Uuid) : parse? id.text = some id := by
  obtain ⟨digits, size⟩ := id
  have hyphenated := @unhyphenated?_of_length (digits.map fun d => Nat.digitChar d.val)
    (by simp [size])
  simp only [List.append_assoc, List.cons_append] at hyphenated
  simp [parse?, text, hyphenated, mapM_digit?, size, -List.mapM_map]

theorem reads (id : Uuid) : Uuid.decoder.Reads (.string id.text) id := fun source room => by
  simp [decoder, Decoder.string, Json.Scan.ofJson, parse?_text]

end Uuid

theorem Target.reads (t : Target) : Target.decoder.Reads (.string t.name) t := by
  cases t <;> exact .enumerated rfl rfl

theorem ElementType.reads (t : ElementType) : ElementType.decoder.Reads (.string t.name) t := by
  cases t <;> exact .enumerated rfl rfl

namespace Payload

def literals : Payload → List Value
  | .json v => [v]
  | _ => []

theorem reads {p : Payload} (writable : ∀ v ∈ p.literals, v.Writable) :
    Payload.decoder.Reads p.toJson.normal p := by
  have form (name : String) (content : Json) :
      (Json.object [("type", .string name), ("data", content)]).normal =
        .object [("data", content.normal), ("type", .string name)] := by
    simp only [Json.normal, Json.normalFields, Table.ofList, List.foldl, Table.insert,
      String.reduceLT, String.reduceEq, ↓reduceIte]
  cases p with
  | void => exact .adjacent_alone rfl fun _ => rfl
  | text s =>
    rw [toJson, form]
    exact .adjacent_aside (by decide) rfl (.map (.ofString s))
  | json v =>
    have writable := writable v (by simp [literals])
    rw [toJson, form, Value.normal_toJson writable.ordered]
    exact .adjacent_aside (by decide) rfl (.map writable.reads)

end Payload

namespace Request

theorem fills_optional {σ : Type} {known : List (Decoder.Field σ)} {name : String}
    (o : Option String) {put : σ → Option String → σ} {rest : List (String × Json)}
    {seen : List String} {record last : σ}
    (found : known.find? (·.name == name) =
      some (Decoder.field name (Decoder.nullable Decoder.string) put true))
    (fresh : seen.contains name = false) (apart : ∀ field ∈ rest, field.1 ≠ name)
    (unset : put record none = record) (fills : Decoder.Fills known rest seen (put record o) last) :
    Decoder.Fills known (optionalField name o ++ rest) seen record last := by
  cases o with
  | none => rwa [unset] at fills
  | some s =>
    refine .cons found fresh (.put (.nullable_some (.ofString s) nofun)) (fills.behind ?_)
    intro field mem
    simp [apart field mem]

theorem normal_toJson (r : Request) : r.toJson.normal = .object (
    ("data", r.payload.toJson.normal) :: (optionalField "element" r.element ++
      ("elementType", .string r.elementType.name) :: ("operation", .string r.operation) ::
        (optionalField "property" r.property ++
          [("requestId", .string r.id.text), ("target", .string r.target.name),
            ("targetValue", .number (.int r.handle.toNat))]))) := by
  obtain ⟨id, target, handle, operation, elementType, element, property, data⟩ := r
  cases element <;> cases property <;>
    simp only [toJson, optionalField, List.cons_append, List.nil_append, Json.normal,
      Json.normalFields, Table.ofList, List.foldl, Table.insert, String.reduceLT,
      String.reduceEq, ↓reduceIte]

theorem reads {r : Request} (writable : ∀ v ∈ r.payload.literals, v.Writable) :
    Request.decoder.Reads r.toJson.normal r := by
  rw [normal_toJson]
  refine .bind (.record (.cons rfl rfl (.put (Payload.reads writable))
    (fills_optional r.element rfl rfl ?_ rfl
    (.cons rfl rfl (.put r.elementType.reads) (.cons rfl rfl (.put (.ofString r.operation))
    (fills_optional r.property rfl rfl ?_ rfl
    (.cons rfl rfl (.put r.id.reads) (.cons rfl rfl (.put r.target.reads)
    (.cons rfl rfl (.put (.ofUInt64 r.handle)) .nil))))))))) rfl
  · cases r.property <;> simp [optionalField]
  · simp

end Request

theorem Response.reads {r : Response} (writable : ∀ v ∈ r.payload.literals, v.Writable) :
    Response.decoder.Reads r.toJson.normal r := by
  have form : r.toJson.normal = .object [("data", r.payload.toJson.normal),
      ("requestId", .string r.id.text), ("resultValue", .number (.int r.result.toNat)),
      ("retCode", .number (.int r.status.toNat))] := by
    simp only [toJson, Json.normal, Json.normalFields, Table.ofList, List.foldl, Table.insert,
      String.reduceLT, String.reduceEq, ↓reduceIte]
  rw [form]
  exact .bind (.record (.cons rfl rfl (.put (Payload.reads writable))
    (.cons rfl rfl (.put r.id.reads) (.cons rfl rfl (.put (.ofUInt64 _))
      (.cons rfl rfl (.put (.ofUInt16 _)) .nil))))) rfl

end MarkupMachine
