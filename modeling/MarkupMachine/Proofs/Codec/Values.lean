import MarkupMachine.Proofs.Codec.Decoding
import MarkupMachine.Value.Codec

/-! Values out of their JSON form. -/

namespace MarkupMachine.Value

open Json (arranged Decoder)

mutual

def numbers : Value → List Binary64
  | .number x => [x]
  | .list items => itemsNumbers items
  | .object entries => entriesNumbers entries
  | _ => []

def itemsNumbers : List Value → List Binary64
  | [] => []
  | item :: rest => item.numbers ++ itemsNumbers rest

def entriesNumbers : List (String × Value) → List Binary64
  | [] => []
  | (_, value) :: rest => value.numbers ++ entriesNumbers rest

end

/-- A value that has a JSON form: its objects are in order, and its numbers finite. -/
structure Writable (v : Value) : Prop where
  ordered : v.Ordered
  finite : ∀ x ∈ v.numbers, x.isFinite = true

theorem keys_entriesToJson (entries : List (String × Value)) :
    (entriesToJson entries).map Prod.fst = entries.map Prod.fst := by
  induction entries with
  | nil => rfl
  | cons entry rest ih => simp [entriesToJson, ih]

theorem ordered_entriesToJson {entries : List (String × Value)} (ordered : Table.Ordered entries) :
    Table.Ordered (entriesToJson entries) := by
  rw [Table.ordered_iff_keys] at ordered ⊢
  rw [keys_entriesToJson]
  exact ordered

theorem normal_tagged (tag : String) (content : Json) :
    (tagged tag content).normal = tagged tag content.normal :=
  Json.arranged_of_ordered true ["t", "v"] rfl (by decide)

theorem normal_numberToJson (x : Binary64) : (numberToJson x).normal = numberToJson x := by
  unfold numberToJson
  split <;> rfl

mutual

theorem normal_toJson : ∀ {v : Value}, v.Ordered → v.toJson.normal = v.toJson
  | .null, _ => rfl
  | .bool _, _ | .text _, _ => by
    rw [toJson, normal_tagged]
    rfl
  | .number x, _ => by rw [toJson, normal_tagged, normal_numberToJson]
  | .list items, ordered => by
    rw [toJson, normal_tagged, Json.normal, normalItems_itemsToJson ordered]
  | .object entries, ordered => by
    rw [toJson, normal_tagged, Json.normal, normalFields_entriesToJson ordered.2,
      Table.ofList_of_ordered (ordered_entriesToJson ordered.1)]

theorem normalItems_itemsToJson : ∀ {items : List Value}, OrderedItems items →
    Json.normalItems (itemsToJson items) = itemsToJson items
  | [], _ => rfl
  | item :: rest, ordered => by
    simp [itemsToJson, Json.normalItems, normal_toJson ordered.1, normalItems_itemsToJson ordered.2]

theorem normalFields_entriesToJson : ∀ {entries : List (String × Value)}, OrderedEntries entries →
    Json.normalFields (entriesToJson entries) = entriesToJson entries
  | [], _ => rfl
  | (name, value) :: rest, ordered => by
    simp [entriesToJson, Json.normalFields, normal_toJson ordered.1,
      normalFields_entriesToJson ordered.2]

end

theorem height_lt_tagged (tag : String) (content : Json) :
    content.height < (tagged tag content).height :=
  Json.height_lt_of_mem_fields "v" (by simp)

mutual

theorem reads_within : ∀ {v : Value} {levels : Nat}, v.Ordered →
    (∀ x ∈ v.numbers, x.isFinite = true) → v.toJson.height < levels →
    (decodeWithin levels).Reads v.toJson v
  | _, 0, _, _, below => absurd below (Nat.not_lt_zero _)
  | .null, levels + 1, _, _, _ => .adjacent_alone rfl fun _ => rfl
  | .bool b, levels + 1, _, _, _ => .adjacent (by decide) rfl (.map (.ofBool b))
  | .number x, levels + 1, _, finite, _ => by
    have form : numberToJson x = .number (.float x) := if_pos (finite x (by simp [numbers]))
    rw [toJson, form]
    exact .adjacent (by decide) rfl (.map (.ofFloat x))
  | .text s, levels + 1, _, _, _ => .adjacent (by decide) rfl (.map (.ofString s))
  | .list items, levels + 1, ordered, finite, below => by
    refine .adjacent (by decide) rfl (.map (.list (reads_items ordered finite fun item mem => ?_)))
    have outer := height_lt_tagged "List" (.array (itemsToJson items))
    have inner := Json.height_lt_of_mem mem
    rw [toJson] at below
    omega
  | .object entries, levels + 1, ordered, finite, below => by
    refine .adjacent (by decide) rfl (.bind (.fields (reads_entries ordered.2 finite
      fun name value mem => ?_)) ?_)
    · have outer := height_lt_tagged "Obj" (.object (entriesToJson entries))
      have inner := Json.height_lt_of_mem_fields name mem
      rw [toJson] at below
      omega
    · rw [Table.ofList_of_ordered ordered.1]
      rfl

theorem reads_items : ∀ {items : List Value} {levels : Nat}, OrderedItems items →
    (∀ x ∈ itemsNumbers items, x.isFinite = true) →
    (∀ item ∈ itemsToJson items, item.height < levels) →
    List.Forall₂ (decodeWithin levels).Reads (itemsToJson items) items
  | [], _, _, _, _ => .nil
  | item :: rest, levels, ordered, finite, below => by
    refine .cons (reads_within ordered.1 (fun x mem => finite x ?_) (below _ ?_))
      (reads_items ordered.2 (fun x mem => finite x ?_) fun item mem => below item ?_)
    · simp [itemsNumbers, mem]
    · simp [itemsToJson]
    · simp [itemsNumbers, mem]
    · simp [itemsToJson, mem]

theorem reads_entries : ∀ {entries : List (String × Value)} {levels : Nat}, OrderedEntries entries →
    (∀ x ∈ entriesNumbers entries, x.isFinite = true) →
    (∀ name value, (name, value) ∈ entriesToJson entries → value.height < levels) →
    List.Forall₂
      (fun field entry => field.1 = entry.1 ∧ (decodeWithin levels).Reads field.2 entry.2)
      (entriesToJson entries) entries
  | [], _, _, _, _ => .nil
  | (name, value) :: rest, levels, ordered, finite, below => by
    refine .cons ⟨rfl, reads_within ordered.1 (fun x mem => finite x ?_) (below name _ ?_)⟩
      (reads_entries ordered.2 (fun x mem => finite x ?_) fun name value mem => below name value ?_)
    · simp [entriesNumbers, mem]
    · simp [entriesToJson]
    · simp [entriesNumbers, mem]
    · simp [entriesToJson, mem]

end

namespace Writable

variable {v : Value}

theorem arranged_toJson (h : v.Writable) (sorted : Bool) : arranged sorted v.toJson = v.toJson := by
  cases sorted with
  | false => rfl
  | true => exact normal_toJson h.ordered

theorem reads (h : v.Writable) : Value.decoder.Reads v.toJson v := fun source holds =>
  reads_within h.ordered h.finite (Nat.lt_succ_self _) source holds

end Writable
end MarkupMachine.Value
