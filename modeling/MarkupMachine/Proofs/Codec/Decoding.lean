import Mathlib.Data.List.Forall2
import MarkupMachine.Json.Decode

/-! Decoders on input without faults. What a decoder reads out of a tree does not depend on where
the tree comes from, as long as a text has room for all of it. -/

namespace MarkupMachine.Json

section Results

variable {α β : Type}

@[simp] theorem ok_bind (a : α) (next : α → Except Failure β) : (.ok a >>= next) = next a := rfl

@[simp] theorem pure_eq_ok (a : α) : (pure a : Except Failure α) = .ok a := rfl

end Results

def height (j : Json) : Nat := (Scan.ofJson j).height

section Height

theorem height_lt_of_mem {item : Json} {items : List Json} (mem : item ∈ items) :
    item.height < (array items).height := by
  have below : item.height ≤ Scan.itemsHeight (Scan.ofItems items) := by
    induction items with
    | nil => cases mem
    | cons first rest ih =>
      simp only [Scan.ofItems, Scan.itemsHeight]
      rcases List.mem_cons.mp mem with rfl | mem
      · exact Nat.le_max_left ..
      · exact Nat.le_trans (ih mem) (Nat.le_max_right ..)
  simp only [height, Scan.ofJson, Scan.height] at below ⊢
  omega

theorem height_lt_of_mem_fields (name : String) {value : Json} {fields : List (String × Json)}
    (mem : (name, value) ∈ fields) : value.height < (object fields).height := by
  have below : value.height ≤ Scan.fieldsHeight (Scan.ofFields fields) := by
    induction fields with
    | nil => cases mem
    | cons first rest ih =>
      obtain ⟨other, previous⟩ := first
      simp only [Scan.ofFields, Scan.fieldsHeight]
      rcases List.mem_cons.mp mem with same | mem
      · cases same
        exact Nat.le_max_left ..
      · exact Nat.le_trans (ih mem) (Nat.le_max_right ..)
  simp only [height, Scan.ofJson, Scan.height] at below ⊢
  omega

theorem height_lt_of_field (name : String) {item : Json} {items : List Json}
    {fields : List (String × Json)} {levels : Nat} (mem : item ∈ items)
    (field : (name, array items) ∈ fields) (below : (object fields).height < levels + 1) :
    item.height < levels := by
  have inner := height_lt_of_mem mem
  have outer := height_lt_of_mem_fields name field
  omega

end Height

/-- There is room for so many containers inside each other. -/
def Source.Holds : Source → Nat → Prop
  | .text room, height => height ≤ room
  | _, _ => True

namespace Source.Holds

variable {source : Source}

theorem enter {height : Nat} (holds : source.Holds height) (pos : 0 < height) :
    ∃ inner, source.enter = .ok inner ∧ ∀ below < height, inner.Holds below := by
  cases source with
  | text room =>
    simp only [Holds] at holds
    obtain ⟨room, rfl⟩ : ∃ fewer, room = fewer + 1 := ⟨room - 1, by omega⟩
    exact ⟨.text room, rfl, fun below less => by simp only [Holds]; omega⟩
  | aside => exact ⟨.aside, rfl, fun _ _ => trivial⟩
  | tree => exact ⟨.tree, rfl, fun _ _ => trivial⟩

theorem items {items : List Json} (holds : source.Holds (array items).height) :
    ∃ inner, source.enter = .ok inner ∧ ∀ item ∈ items, inner.Holds item.height := by
  obtain ⟨inner, entered, room⟩ := holds.enter (Nat.succ_pos _)
  exact ⟨inner, entered, fun item mem => room _ (height_lt_of_mem mem)⟩

theorem fields {fields : List (String × Json)}
    (holds : source.Holds (object fields).height) :
    ∃ inner, source.enter = .ok inner ∧
      ∀ name value, (name, value) ∈ fields → inner.Holds value.height := by
  obtain ⟨inner, entered, room⟩ := holds.enter (Nat.succ_pos _)
  exact ⟨inner, entered, fun name value mem => room _ (height_lt_of_mem_fields name mem)⟩

end Source.Holds

namespace Scan

mutual

theorem toJson_ofJson : ∀ (j : Json) {source : Source}, source.Holds j.height →
    (ofJson j).toJson source = .ok j
  | .null, _, _ => rfl
  | .bool _, _, _ => rfl
  | .number _, _, _ => rfl
  | .string _, _, _ => rfl
  | .array items, source, holds => by
    obtain ⟨inner, entered, room⟩ := holds.items
    simp [ofJson, toJson, entered, itemsToJson_ofItems items room, close]
  | .object fields, source, holds => by
    obtain ⟨inner, entered, room⟩ := holds.fields
    simp [ofJson, toJson, entered, fieldsToJson_ofFields fields room, close]

theorem itemsToJson_ofItems : ∀ (items : List Json) {source : Source},
    (∀ item ∈ items, source.Holds item.height) →
    itemsToJson source (ofItems items) = .ok items
  | [], _, _ => rfl
  | item :: rest, source, room => by
    simp [ofItems, itemsToJson, toJson_ofJson item (room item (by simp)),
      itemsToJson_ofItems rest fun other mem => room other (by simp [mem])]

theorem fieldsToJson_ofFields : ∀ (fields : List (String × Json)) {source : Source},
    (∀ name value, (name, value) ∈ fields → source.Holds value.height) →
    fieldsToJson source (ofFields fields) = .ok fields
  | [], _, _ => rfl
  | (name, value) :: rest, source, room => by
    simp [ofFields, fieldsToJson, key, toJson_ofJson value (room name value (by simp)),
      fieldsToJson_ofFields rest fun other value mem => room other value (by simp [mem])]

end

end Scan

namespace Decoder

variable {α β : Type} {decoder : Decoder α}

/-- What a decoder comes to on a tree, wherever that stands. -/
def Reads (decoder : Decoder α) (j : Json) (a : α) : Prop :=
  ∀ source : Source, source.Holds j.height → decoder source (.ofJson j) = .ok a

namespace Reads

theorem ofString (s : String) : Decoder.string.Reads (.string s) s := fun _ _ => rfl

theorem ofBool (b : Bool) : Decoder.bool.Reads (.bool b) b := fun _ _ => rfl

theorem ofFloat (x : Binary64) : Decoder.float.Reads (.number (.float x)) x := fun _ _ => rfl

theorem ofNatural {n bound : Nat} (less : n < bound) :
    (Decoder.natural bound).Reads (.number (.int n)) n := fun _ _ => by
  have fits : (0 : Int) ≤ n ∧ (n : Int) < bound := by omega
  simp [natural, Scan.ofJson, fits]

theorem ofUInt16 (n : UInt16) : Decoder.uint16.Reads (.number (.int n.toNat)) n :=
  fun source room => by
    simp [uint16, ofNatural n.toNat_lt source room]

theorem ofUInt32 (n : UInt32) : Decoder.uint32.Reads (.number (.int n.toNat)) n :=
  fun source room => by
    simp [uint32, ofNatural n.toNat_lt source room]

theorem ofUInt64 (n : UInt64) : Decoder.uint64.Reads (.number (.int n.toNat)) n :=
  fun source room => by
    simp [uint64, ofNatural n.toNat_lt source room]

theorem ofChar (c : Char) : Decoder.char.Reads (.string (String.singleton c)) c :=
  fun source room => by
    simp [char, ofString _ source room]

theorem map {f : α → β} {j : Json} {a : α} (reads : decoder.Reads j a) :
    Decoder.Reads (fun source scan => f <$> decoder source scan) j (f a) := fun source room => by
  simp [reads source room]

theorem bind {next : α → Except Failure β} {j : Json} {a : α} {b : β} (reads : decoder.Reads j a)
    (made : next a = .ok b) :
    Decoder.Reads (fun source scan => decoder source scan >>= next) j b := fun source room => by
  simp [reads source room, made]

theorem list {items : List Json} {values : List α} (all : List.Forall₂ decoder.Reads items values) :
    (Decoder.list decoder).Reads (.array items) values := fun source holds => by
  obtain ⟨inner, entered, room⟩ := holds.items
  have each : (Scan.ofItems items).mapM (decoder inner) = .ok values := by
    clear holds
    induction all with
    | nil => rfl
    | cons reads _ ih =>
      have others := ih fun item mem => room item (by simp [mem])
      simp [Scan.ofItems, reads inner (room _ (by simp)), others]
  simp [Decoder.list, Scan.ofJson, entered, each, close]

theorem fields {fields : List (String × Json)} {entries : List (String × α)}
    (all : List.Forall₂ (fun field entry => field.1 = entry.1 ∧ decoder.Reads field.2 entry.2)
      fields entries) : (Decoder.fields decoder).Reads (.object fields) entries :=
  fun source holds => by
    obtain ⟨inner, entered, room⟩ := holds.fields
    have each : ((Scan.ofFields fields).mapM fun field => do
        Except.ok (← field.1.key, ← decoder inner field.2)) = Except.ok entries := by
      clear holds
      induction all with
      | nil => rfl
      | @cons field entry _ _ reads _ ih =>
        obtain ⟨name, value⟩ := field
        obtain ⟨_, a⟩ := entry
        obtain ⟨rfl, reads⟩ := reads
        have first := reads inner (room name value (by simp))
        have others := ih fun other value mem => room other value (by simp [mem])
        simp_all [Scan.ofFields, Scan.key]
    simp [Decoder.fields, Scan.ofJson, entered, each, close]

theorem nullable_none : (Decoder.nullable decoder).Reads .null none := fun _ _ => rfl

theorem nullable_some {j : Json} {a : α} (reads : decoder.Reads j a) (given : j ≠ .null) :
    (Decoder.nullable decoder).Reads j (some a) := fun source room => by
  have read := reads source room
  cases j with
  | null => exact absurd rfl given
  | _ => simp_all [Decoder.nullable, Scan.ofJson]

end Reads

/-- Fields that a record knows, each of them once, with what they make of it. -/
inductive Fills {σ : Type} (known : List (Field σ)) :
    List (String × Json) → List String → σ → σ → Prop
  | nil {seen record} : Fills known [] seen record record
  | cons {name value rest seen field record next last} :
    known.find? (·.name == name) = some field → seen.contains name = false →
    Reads (fun source scan => field.read source scan record) value next →
    Fills known rest (name :: seen) next last →
    Fills known ((name, value) :: rest) seen record last

variable {σ : Type} {known : List (Field σ)}

theorem Fills.readNamed {fields : List (String × Json)} {seen : List String} {record last : σ}
    (fills : Fills known fields seen record last) {source : Source}
    (room : ∀ name value, (name, value) ∈ fields → source.Holds value.height) :
    Decoder.readNamed known source (Scan.ofFields fields) seen record = .ok last := by
  induction fills with
  | nil => rfl
  | @cons name value rest seen field record next last found fresh reads _ ih =>
    have first := reads source (room name value (by simp))
    have others := ih fun other value mem => room other value (by simp [mem])
    simp only [Scan.ofFields, Decoder.readNamed, Scan.key, found, fresh, first, ok_bind]
    simpa using others

theorem Fills.behind {fields : List (String × Json)} {seen others : List String} {record last : σ}
    (fills : Fills known fields seen record last)
    (same : ∀ field ∈ fields, others.contains field.1 = seen.contains field.1) :
    Fills known fields others record last := by
  induction fills generalizing others with
  | nil => exact .nil
  | cons found fresh reads _ ih =>
    have first := same _ (List.mem_cons_self ..)
    refine .cons found (first.trans fresh) reads (ih fun field mem => ?_)
    rw [List.contains_cons, List.contains_cons, same field (by simp [mem])]

namespace Reads

theorem put {name : String} {f : σ → α → σ} {optional : Bool} {record : σ} {j : Json} {a : α}
    (reads : decoder.Reads j a) : Decoder.Reads
      (fun source scan => (field name decoder f optional).read source scan record) j (f record a) :=
  reads.map

theorem record {fields : List (String × Json)} {empty last : σ}
    (fills : Fills known fields [] empty last) :
    (Decoder.record known empty).Reads (.object fields) last := fun source holds => by
  obtain ⟨inner, entered, room⟩ := holds.fields
  simp [Decoder.record, Scan.ofJson, entered, fills.readNamed room, close]

theorem oneOf {names : List String} {name : String} {index : Nat}
    (named : variantNamed names name = .ok index) :
    (Decoder.oneOf names).Reads (.string name) index := fun _ _ => named

section Tagged

variable {key name : String} {names : List String} {index : Nat}

theorem splitNamed_apart {source : Source} {fields : List (String × Json)} (found : Option Nat)
    (apart : ∀ field ∈ fields, field.1 ≠ key)
    (room : ∀ name value, (name, value) ∈ fields → source.Holds value.height) :
    splitNamed key names source (Scan.ofFields fields) found =
      .ok (found, Scan.ofFields fields) := by
  induction fields with
  | nil => rfl
  | cons field rest ih =>
    obtain ⟨other, value⟩ := field
    have others := ih (fun field mem => apart field (by simp [mem]))
      fun other value mem => room other value (by simp [mem])
    simp [Scan.ofFields, splitNamed, Scan.key, apart (other, value) (by simp),
      Scan.toJson_ofJson value (room other value (by simp)), others]

theorem splitNamed_among {source : Source} {before after : List (String × Json)}
    (apart : ∀ field ∈ before ++ after, field.1 ≠ key) (named : variantNamed names name = .ok index)
    (room : ∀ name value, (name, value) ∈ before ++ after → source.Holds value.height) :
    splitNamed key names source (Scan.ofFields (before ++ (key, .string name) :: after)) none =
      .ok (some index, Scan.ofFields (before ++ after)) := by
  induction before with
  | nil =>
    have read : tag names source (.string (some name)) = .ok index := by
      cases source <;> simpa [tag, Decoder.string] using named
    have others : splitNamed key names source (Scan.ofFields after) (some index) = _ :=
      splitNamed_apart _ apart room
    simp [Scan.ofFields, Scan.ofJson, splitNamed, Scan.key, read, others]
  | cons field rest ih =>
    obtain ⟨other, value⟩ := field
    have others := ih (fun field mem => apart field (.tail _ mem))
      fun other value mem => room other value (.tail _ mem)
    simp [Scan.ofFields, splitNamed, Scan.key, apart (other, value) (by simp),
      Scan.toJson_ofJson value (room other value (by simp)), others]

theorem tagged {branch : Nat → Decoder α} {a : α} (before after : List (String × Json))
    (apart : ∀ field ∈ before ++ after, field.1 ≠ key) (named : variantNamed names name = .ok index)
    (reads : (branch index).Reads (.object (before ++ after)) a) :
    Decoder.Reads (fun source scan => do
      let (index, fields) ← Decoder.tagged key names source scan
      branch index .aside fields) (.object (before ++ (key, .string name) :: after)) a :=
  fun source holds => by
    obtain ⟨inner, entered, room⟩ := holds.fields
    have split := splitNamed_among apart named fun name value mem => room name value (by
      rcases List.mem_append.mp mem with mem | mem <;> simp [mem])
    have branched := reads .aside trivial
    rw [Scan.ofJson] at branched
    simp [Decoder.tagged, Scan.ofJson, entered, split, close, required, branched]

end Tagged

section Adjacent

variable {tagKey contentKey name : String} {names : List String} {index : Nat}
  {content : Nat → Source → Option Scan → Except Failure α} {value : Json} {a : α}

theorem adjacent (other : tagKey ≠ contentKey) (named : variantNamed names name = .ok index)
    (reads : Decoder.Reads (fun source scan => content index source (some scan)) value a) :
    (Decoder.adjacent tagKey contentKey names content).Reads
      (.object [(tagKey, .string name), (contentKey, value)]) a := fun source holds => by
  obtain ⟨inner, entered, room⟩ := holds.fields
  have read := reads inner (room contentKey value (by simp))
  have which := Reads.oneOf named inner (room tagKey _ (by simp))
  simp_all [Decoder.adjacent, Scan.ofJson, Scan.ofFields, nextOf, noneOf, Scan.key, close,
    Ne.symm other]

theorem adjacent_aside (other : tagKey ≠ contentKey) (named : variantNamed names name = .ok index)
    (reads : Decoder.Reads (fun source scan => content index source (some scan)) value a) :
    (Decoder.adjacent tagKey contentKey names content).Reads
      (.object [(contentKey, value), (tagKey, .string name)]) a := fun source holds => by
  obtain ⟨inner, entered, room⟩ := holds.fields
  have read := reads .aside trivial
  have whole := Scan.toJson_ofJson value (room contentKey value (by simp))
  have which := Reads.oneOf named inner (room tagKey _ (by simp))
  simp_all [Decoder.adjacent, Scan.ofJson, Scan.ofFields, nextOf, noneOf, Scan.key, close,
    Ne.symm other]

theorem adjacent_alone (named : variantNamed names name = .ok index)
    (made : ∀ source, content index source none = .ok a) :
    (Decoder.adjacent tagKey contentKey names content).Reads (.object [(tagKey, .string name)]) a :=
  fun source holds => by
    obtain ⟨inner, entered, room⟩ := holds.fields
    have which := Reads.oneOf named inner (room tagKey _ (by simp))
    simp_all [Decoder.adjacent, Scan.ofJson, Scan.ofFields, nextOf, Scan.key, close]

end Adjacent

end Reads
end Decoder

/-- A tree as decoders meet it: as it was written, or with its fields in order. -/
def arranged (sorted : Bool) (j : Json) : Json := if sorted then j.normal else j

section Arranged

variable {sorted : Bool}

@[simp] theorem arranged_null : arranged sorted .null = .null := by
  cases sorted <;> rfl

@[simp] theorem arranged_number (n : Number) : arranged sorted (.number n) = .number n := by
  cases sorted <;> rfl

@[simp] theorem arranged_string (s : String) : arranged sorted (.string s) = .string s := by
  cases sorted <;> rfl

theorem normalItems_eq_map (items : List Json) : normalItems items = items.map normal := by
  induction items with
  | nil => rfl
  | cons item rest ih => simp [normalItems, ih]

theorem arranged_array (sorted : Bool) (items : List Json) :
    arranged sorted (.array items) = .array (items.map (arranged sorted)) := by
  cases sorted with
  | false =>
    have same : arranged false = id := rfl
    simp [same]
  | true => simp [arranged, normal, normalItems_eq_map]

theorem normalFields_eq_map (fields : List (String × Json)) :
    normalFields fields = fields.map fun field => (field.1, field.2.normal) := by
  induction fields with
  | nil => rfl
  | cons field rest ih => simp [normalFields, ih]

theorem arranged_object (sorted : Bool) (fields : List (String × Json)) :
    arranged sorted (.object fields) =
        .object (fields.map fun field => (field.1, arranged sorted field.2)) ∨
      arranged sorted (.object fields) =
        .object (Table.ofList (fields.map fun field => (field.1, arranged sorted field.2))) := by
  cases sorted with
  | false => exact .inl (by simp [arranged])
  | true => exact .inr (by simp [arranged, normal, normalFields_eq_map])

theorem arranged_object_ne_null (fields : List (String × Json)) :
    arranged sorted (.object fields) ≠ .null := by
  rcases arranged_object sorted fields with eq | eq <;> simp [eq]

theorem arranged_of_ordered (sorted : Bool) (names : List String) {fields : List (String × Json)}
    (same : fields.map Prod.fst = names) (ordered : names.Pairwise (· < ·)) :
    arranged sorted (.object fields) =
      .object (fields.map fun field => (field.1, arranged sorted field.2)) := by
  have keys : Table.Ordered (fields.map fun field => (field.1, arranged sorted field.2)) := by
    rw [Table.ordered_iff_keys, List.map_map, ← same] at *
    exact ordered
  rcases arranged_object sorted fields with eq | eq
  · exact eq
  · rw [eq, Table.ofList_of_ordered keys]

theorem arranged_swapped (sorted : Bool) {first second : String} (less : second < first)
    (a b : Json) :
    arranged sorted (.object [(first, a), (second, b)]) =
        .object [(first, arranged sorted a), (second, arranged sorted b)] ∨
      arranged sorted (.object [(first, a), (second, b)]) =
        .object [(second, arranged sorted b), (first, arranged sorted a)] := by
  have other : second ≠ first := by
    rintro rfl
    exact String.lt_irrefl _ less
  rcases arranged_object sorted [(first, a), (second, b)] with eq | eq
  · exact .inl eq
  · exact .inr (by simpa [Table.ofList, Table.insert, other, less] using eq)

end Arranged
end MarkupMachine.Json
