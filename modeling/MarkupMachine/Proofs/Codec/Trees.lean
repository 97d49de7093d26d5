import MarkupMachine.Proofs.Codec.Values
import MarkupMachine.Tree.Codec

/-! Trees out of their JSON form, with its fields as they were written or in order. -/

namespace MarkupMachine

open Json (arranged Decoder)

namespace Json.Decoder.Reads

variable {α : Type} {decoder : Decoder α} {sorted : Bool}

theorem nullable_ofOption {f : α → Json} {o : Option α}
    (given : ∀ a ∈ o, arranged sorted (f a) ≠ .null)
    (reads : ∀ a ∈ o, decoder.Reads (arranged sorted (f a)) a) :
    (Decoder.nullable decoder).Reads (arranged sorted (ofOption f o)) o := by
  cases o with
  | none =>
    rw [ofOption, arranged_null]
    exact nullable_none
  | some a => exact nullable_some (reads a rfl) (given a rfl)

theorem enumerated {all : List α} {name : α → String} {a fallback : α} {index : Nat}
    (named : Decoder.variantNamed (all.map name) (name a) = .ok index)
    (same : all.getD index fallback = a) : Decoder.Reads (fun source scan => do
      return all.getD (← Decoder.oneOf (all.map name) source scan) fallback) (.string (name a)) a :=
  .bind (.oneOf named) (by rw [same, pure_eq_ok])

end Json.Decoder.Reads

theorem Position.reads (sorted : Bool) (p : Position) :
    Position.decoder.Reads (arranged sorted p.toJson) p := by
  rcases Json.arranged_object sorted [("line", .number (.int p.line.toNat)),
    ("column", .number (.int p.column.toNat)),
    ("offset", .number (.int p.offset.toNat))] with eq | eq
  all_goals
    simp only [List.map, Json.arranged_number, Table.ofList, List.foldl, Table.insert,
      String.reduceLT, String.reduceEq, ↓reduceIte] at eq
    rw [toJson, eq]
  · exact .bind (.record (.cons rfl rfl (.put (.ofUInt32 _)) (.cons rfl rfl (.put (.ofUInt32 _))
      (.cons rfl rfl (.put (.ofUInt64 _)) .nil)))) rfl
  · exact .bind (.record (.cons rfl rfl (.put (.ofUInt32 _)) (.cons rfl rfl (.put (.ofUInt32 _))
      (.cons rfl rfl (.put (.ofUInt64 _)) .nil)))) rfl

theorem Operator.reads (op : Operator) : Operator.decoder.Reads (.string op.text) op := by
  cases op <;> exact .enumerated rfl rfl

namespace Expression

mutual

def literals : Expression → List Value
  | .literal v => [v]
  | .interpolation parts => partsLiterals parts
  | _ => []

def partsLiterals : List Expression → List Value
  | [] => []
  | part :: rest => part.literals ++ partsLiterals rest

end

variable {sorted : Bool}

mutual

theorem reads_within : ∀ {x : Expression} {levels : Nat}, (∀ v ∈ x.literals, v.Writable) →
    (arranged sorted x.toJson).height < levels →
    (decodeWithin levels).Reads (arranged sorted x.toJson) x
  | _, 0, _, below => absurd below (Nat.not_lt_zero _)
  | .literal v, levels + 1, writable, _ => by
    have writable := writable v (by simp [literals])
    have form : arranged sorted (literal v).toJson =
        .object [("t", arranged sorted (.string "Lit")), ("v", arranged sorted v.toJson)] :=
      Json.arranged_of_ordered sorted ["t", "v"] rfl (by decide)
    rw [Json.arranged_string, writable.arranged_toJson] at form
    rw [form]
    exact .tagged [] [("v", _)] (by simp) rfl
      (.bind (.record (.cons rfl rfl (.put writable.reads) .nil)) rfl)
  | .variable name, levels + 1, _, _ => by
    -- In order, what the variant reads comes ahead of its tag.
    have fields : (Expression.variant (Decoder.list (decodeWithin levels)) 1).Reads
        (.object [("name", .string name)]) (.variable name) :=
      .bind (.record (.cons rfl rfl (.put (.ofString name)) .nil)) rfl
    rcases Json.arranged_swapped sorted (show "name" < "t" by decide) (.string "Var")
      (.string name) with eq | eq
    all_goals
      rw [Json.arranged_string, Json.arranged_string] at eq
      rw [toJson, eq]
    · exact .tagged [] [("name", _)] (by simp) rfl fields
    · exact .tagged [("name", _)] [] (by simp) rfl fields
  | .symbol c level, levels + 1, _, _ => by
    rcases Json.arranged_object sorted [("t", .string "Symbol"),
      ("symbol", .string (String.singleton c)), ("number", .number (.int level.toNat))] with eq | eq
    all_goals
      simp only [List.map, Json.arranged_number, Json.arranged_string, Table.ofList, List.foldl,
        Table.insert, String.reduceLT, String.reduceEq, ↓reduceIte] at eq
      rw [toJson, eq]
    · exact .tagged [] [("symbol", _), ("number", _)] (by simp) rfl
        (.bind (.record (.cons rfl rfl (.put (.ofChar c)) (.cons rfl rfl (.put (.ofUInt32 level))
          .nil))) rfl)
    · exact .tagged [("number", _), ("symbol", _)] [] (by simp) rfl
        (.bind (.record (.cons rfl rfl (.put (.ofUInt32 level)) (.cons rfl rfl (.put (.ofChar c))
          .nil))) rfl)
  | .interpolation parts, levels + 1, writable, below => by
    have items := Json.arranged_array sorted (partsToJson parts)
    rcases Json.arranged_swapped sorted (show "parts" < "t" by decide) (.string "Concat")
      (.array (partsToJson parts)) with eq | eq
    all_goals
      rw [Json.arranged_string, items] at eq
      rw [toJson, eq] at below ⊢
      have fields : (Expression.variant (Decoder.list (decodeWithin levels)) 3).Reads
          (.object [("parts", .array ((partsToJson parts).map (arranged sorted)))])
          (.interpolation parts) := by
        refine .bind (.record (.cons rfl rfl (.put (.list (reads_parts writable
          fun item mem => ?_))) .nil)) rfl
        exact Json.height_lt_of_field "parts" mem (by simp) below
    · exact .tagged [] [("parts", _)] (by simp) rfl fields
    · exact .tagged [("parts", _)] [] (by simp) rfl fields

theorem reads_parts : ∀ {parts : List Expression} {levels : Nat},
    (∀ v ∈ partsLiterals parts, v.Writable) →
    (∀ item ∈ (partsToJson parts).map (arranged sorted), item.height < levels) →
    List.Forall₂ (decodeWithin levels).Reads ((partsToJson parts).map (arranged sorted)) parts
  | [], _, _, _ => .nil
  | part :: rest, levels, writable, below => by
    refine .cons (reads_within (fun v mem => writable v ?_) (below _ ?_))
      (reads_parts (fun v mem => writable v ?_) fun item mem => below item ?_)
    · simp [partsLiterals, mem]
    · simp [partsToJson]
    · simp [partsLiterals, mem]
    · exact .tail _ mem

end

theorem reads (sorted : Bool) {x : Expression} (writable : ∀ v ∈ x.literals, v.Writable) :
    Expression.decoder.Reads (arranged sorted x.toJson) x := fun source holds =>
  reads_within writable (Nat.lt_succ_self _) source holds

end Expression

namespace Attribute

def literals (a : Attribute) : List Value := a.value.elim [] Expression.literals

theorem reads (sorted : Bool) {a : Attribute} (writable : ∀ v ∈ a.literals, v.Writable) :
    Attribute.decoder.Reads (arranged sorted a.toJson) a := by
  have form : arranged sorted a.toJson = .object [("name", arranged sorted (.string a.name)),
      ("op", arranged sorted (.string a.operator.text)),
      ("value", arranged sorted (Json.ofOption Expression.toJson a.value))] :=
    Json.arranged_of_ordered sorted ["name", "op", "value"] rfl (by decide)
  rw [Json.arranged_string, Json.arranged_string] at form
  have value : (Decoder.nullable Expression.decoder).Reads
      (arranged sorted (Json.ofOption Expression.toJson a.value)) a.value := by
    refine .nullable_ofOption (fun x _ => ?_) fun x own => ?_
    · cases x <;> exact Json.arranged_object_ne_null _
    · exact Expression.reads sorted fun v mem =>
        writable v (by simpa [literals, Option.mem_def.mp own])
  rw [form]
  exact .bind (.record (.cons rfl rfl (.put (.ofString _)) (.cons rfl rfl (.put (Operator.reads _))
    (.cons rfl rfl (.put value) .nil)))) rfl

end Attribute

namespace Tree

mutual

def literals : Tree → List Value
  | .document children => childrenLiterals children
  | .element e children => e.attributes.flatMap Attribute.literals ++ childrenLiterals children
  | _ => []

def childrenLiterals : List Tree → List Value
  | [] => []
  | t :: rest => t.literals ++ childrenLiterals rest

end

variable {sorted : Bool}

theorem reads_attributes (sorted : Bool) {attributes : List Attribute}
    (writable : ∀ v ∈ attributes.flatMap Attribute.literals, v.Writable) :
    (Decoder.list Attribute.decoder).Reads
      (arranged sorted (.array (attributes.map Attribute.toJson))) attributes := by
  rw [Json.arranged_array]
  refine .list ?_
  rw [List.map_map, List.forall₂_map_left_iff, List.forall₂_same]
  exact fun a own => Attribute.reads sorted fun v mem =>
    writable v (List.mem_flatMap.mpr ⟨a, own, mem⟩)

theorem reads_position (sorted : Bool) (p : Option Position) :
    (Decoder.nullable Position.decoder).Reads
      (arranged sorted (Json.ofOption Position.toJson p)) p :=
  .nullable_ofOption (fun _ _ => Json.arranged_object_ne_null _) fun p _ => p.reads sorted

theorem arranged_text (tag text : String) :
    arranged sorted (.object [("t", .string tag), ("text", .string text)]) =
      .object [("t", .string tag), ("text", .string text)] := by
  have form := Json.arranged_of_ordered sorted ["t", "text"]
    (show [("t", Json.string tag), ("text", .string text)].map Prod.fst = _ from rfl) (by decide)
  simpa only [List.map_cons, List.map_nil, Json.arranged_string] using form

theorem reads_text (text : String) :
    Decoder.Reads variant.text (.object [("text", .string text)]) text :=
  .bind (.record (.cons rfl rfl (.put (.ofString text)) .nil)) rfl

mutual

theorem reads_within : ∀ {t : Tree} {levels : Nat}, (∀ v ∈ t.literals, v.Writable) →
    (arranged sorted t.toJson).height < levels →
    (decodeWithin levels).Reads (arranged sorted t.toJson) t
  | _, 0, _, below => absurd below (Nat.not_lt_zero _)
  | .document children, levels + 1, writable, below => by
    have items := Json.arranged_array sorted (childrenToJson children)
    rcases Json.arranged_swapped sorted (show "children" < "t" by decide) (.string "document")
      (.array (childrenToJson children)) with eq | eq
    all_goals
      rw [Json.arranged_string, items] at eq
      rw [toJson, eq] at below ⊢
      have fields : (Tree.variant (Decoder.list (decodeWithin levels)) 0).Reads
          (.object [("children", .array ((childrenToJson children).map (arranged sorted)))])
          (.document children) := by
        refine .bind (.record (.cons rfl rfl (.put (.list (reads_children writable
          fun item mem => ?_))) .nil)) rfl
        exact Json.height_lt_of_field "children" mem (by simp) below
    · exact .tagged [] [("children", _)] (by simp) rfl fields
    · exact .tagged [("children", _)] [] (by simp) rfl fields
  | .element e children, levels + 1, writable, below => by
    have items := Json.arranged_array sorted (childrenToJson children)
    have attributes := reads_attributes sorted fun v mem =>
      writable v (List.mem_append_left (childrenLiterals children) mem)
    have position := reads_position sorted e.position
    -- In order, all but the name of the element comes ahead of the tag of the variant.
    rcases Json.arranged_object sorted [("t", .string "element"), ("tag", .string e.tag),
      ("attrs", .array (e.attributes.map Attribute.toJson)),
      ("children", .array (childrenToJson children)),
      ("pos", Json.ofOption Position.toJson e.position)] with eq | eq
    all_goals
      simp only [List.map_cons, List.map_nil, Json.arranged_string, items, Table.ofList,
        List.foldl, Table.insert, String.reduceLT, String.reduceEq, ↓reduceIte] at eq
      rw [toJson, eq] at below ⊢
      have inside : (Decoder.list (decodeWithin levels)).Reads
          (.array ((childrenToJson children).map (arranged sorted))) children := by
        refine .list (reads_children (fun v mem => writable v (by simp [literals, mem]))
          fun item mem => ?_)
        exact Json.height_lt_of_field "children" mem (by simp) below
    · exact .tagged [] [("tag", _), ("attrs", _), ("children", _), ("pos", _)] (by simp) rfl
        (.bind (.record (.cons rfl rfl (.put (.ofString _)) (.cons rfl rfl (.put attributes)
          (.cons rfl rfl (.put inside) (.cons rfl rfl (.put position) .nil))))) rfl)
    · exact .tagged [("attrs", _), ("children", _), ("pos", _)] [("tag", _)] (by simp) rfl
        (.bind (.record (.cons rfl rfl (.put attributes) (.cons rfl rfl (.put inside)
          (.cons rfl rfl (.put position) (.cons rfl rfl (.put (.ofString _)) .nil))))) rfl)
  | .content text, levels + 1, _, _ => by
    rw [toJson, arranged_text]
    exact .tagged [] [("text", _)] (by simp) rfl (.bind (reads_text text) rfl)
  | .comment text, levels + 1, _, _ => by
    rw [toJson, arranged_text]
    exact .tagged [] [("text", _)] (by simp) rfl (.bind (reads_text text) rfl)

theorem reads_children : ∀ {children : List Tree} {levels : Nat},
    (∀ v ∈ childrenLiterals children, v.Writable) →
    (∀ item ∈ (childrenToJson children).map (arranged sorted), item.height < levels) →
    List.Forall₂ (decodeWithin levels).Reads ((childrenToJson children).map (arranged sorted))
      children
  | [], _, _, _ => .nil
  | t :: rest, levels, writable, below => by
    refine .cons (reads_within (fun v mem => writable v ?_) (below _ ?_))
      (reads_children (fun v mem => writable v ?_) fun item mem => below item ?_)
    · simp [childrenLiterals, mem]
    · simp [childrenToJson]
    · simp [childrenLiterals, mem]
    · exact .tail _ mem

end

theorem reads (sorted : Bool) {t : Tree} (writable : ∀ v ∈ t.literals, v.Writable) :
    Tree.decoder.Reads (arranged sorted t.toJson) t := fun source holds =>
  reads_within writable (Nat.lt_succ_self _) source holds

end Tree
end MarkupMachine
