import MarkupMachine.Proofs.Codec.Values
import MarkupMachine.Proofs.Number.Rounding
import MarkupMachine.Value.Plain

/-! Values through plain JSON. A value comes back as it was, numbers compared as numbers, but for
the numbers that JSON cannot write, which come back as `null`. A tree keeps its value from the first
conversion on, and its form from the second. -/

namespace MarkupMachine

namespace Json

/-- What a number in a tree can be: an integer of 64 bits, with a sign or without, or a finite
number. -/
def Number.Sound : Number → Prop
  | .int n => -(2 ^ 63) ≤ n ∧ n < 2 ^ 64
  | .float x => x.isFinite = true

mutual

def numbers : Json → List Number
  | .number n => [n]
  | .array items => itemsNumbers items
  | .object fields => fieldsNumbers fields
  | _ => []

def itemsNumbers : List Json → List Number
  | [] => []
  | item :: rest => item.numbers ++ itemsNumbers rest

def fieldsNumbers : List (String × Json) → List Number
  | [] => []
  | (_, value) :: rest => value.numbers ++ fieldsNumbers rest

end
end Json

namespace Value

mutual

/-- A value with `null` in place of the numbers that are not finite. -/
def sifted : Value → Value
  | .number x => if x.isFinite then .number x else .null
  | .list items => .list (siftedItems items)
  | .object entries => .object (siftedEntries entries)
  | v => v

def siftedItems : List Value → List Value
  | [] => []
  | item :: rest => item.sifted :: siftedItems rest

def siftedEntries : List (String × Value) → List (String × Value)
  | [] => []
  | (key, value) :: rest => (key, value.sifted) :: siftedEntries rest

end

section Numbers

variable {x y : Binary64}

theorem plainNumber_of_isFinite (finite : x.isFinite = true) :
    ∃ n, plainNumber x = .number n ∧ (ofNumber n).equal x = true := by
  unfold plainNumber
  cases whole : x.toInt? with
  | none => exact ⟨.float x, if_pos finite, Binary64.equal_self_of_isFinite finite⟩
  | some n =>
    by_cases small : n.natAbs < integerBound
    · exact ⟨.int n, if_pos small, Binary64.ofInt_equal whole⟩
    · exact ⟨.float x, if_neg small, Binary64.equal_self_of_isFinite finite⟩

theorem plainNumber_of_not_isFinite (infinite : x.isFinite = false) : plainNumber x = .null := by
  cases x with
  | nan => rfl
  | infinite => rfl
  | finite => cases infinite

theorem plainNumber_zero {exponent : Int} (negative : Bool)
    (canonical : Binary64.Canonical 0 exponent) :
    plainNumber (.finite negative 0 exponent canonical) = .number (.int 0) := by
  have whole : Binary64.toInt? (.finite negative 0 exponent canonical) = some 0 := by
    simp only [Binary64.toInt?, Binary64.ratio]
    split <;> simp
  rw [plainNumber, whole]
  rfl

theorem plainNumber_congr (equal : x.equal y = true) : plainNumber x = plainNumber y := by
  unfold Binary64.equal at equal
  split at equal
  · cases equal
  · cases equal
  · rw [eq_of_beq equal]
  · simp only [Bool.or_eq_true, Bool.and_eq_true, beq_iff_eq] at equal
    rcases equal with ⟨rfl, rfl⟩ | ⟨⟨rfl, rfl⟩, rfl⟩
    · rw [plainNumber_zero, plainNumber_zero]
    · rfl
  · cases equal

theorem ofNumber_isFinite {n : Json.Number} (sound : n.Sound) : (ofNumber n).isFinite = true := by
  cases n with
  | int n =>
    obtain ⟨low, high⟩ := sound
    have small : n.natAbs < 1 * 2 ^ 64 := by omega
    exact Binary64.ofRatio_isFinite _ Nat.one_pos (by decide) small
  | float x => exact sound

end Numbers

theorem keys_ofPlainFields (fields : List (String × Json)) :
    (ofPlainFields fields).map Prod.fst = fields.map Prod.fst := by
  induction fields with
  | nil => rfl
  | cons field rest ih => simp [ofPlainFields, ih]

theorem keys_toPlainEntries (entries : List (String × Value)) :
    (toPlainEntries entries).map Prod.fst = entries.map Prod.fst := by
  induction entries with
  | nil => rfl
  | cons entry rest ih => simp [toPlainEntries, ih]

theorem ofList_ofPlainFields {entries : List (String × Value)} (ordered : Table.Ordered entries) :
    Table.ofList (ofPlainFields (toPlainEntries entries)) =
      ofPlainFields (toPlainEntries entries) := by
  apply Table.ofList_of_ordered
  rw [Table.ordered_iff_keys] at ordered ⊢
  rw [keys_ofPlainFields, keys_toPlainEntries]
  exact ordered

mutual

/-- What comes back of a value. -/
theorem same_sifted : ∀ {v : Value}, v.Ordered → (ofPlain v.toPlain).same v.sifted = true
  | .null, _ => rfl
  | .bool _, _ => by simp [toPlain, ofPlain, same, sifted]
  | .text _, _ => by simp [toPlain, ofPlain, same, sifted]
  | .number x, _ => by
    cases finite : x.isFinite with
    | false => simp [toPlain, plainNumber_of_not_isFinite finite, ofPlain, same, sifted, finite]
    | true =>
      obtain ⟨n, form, equal⟩ := plainNumber_of_isFinite finite
      simp [toPlain, form, ofPlain, same, sifted, finite, equal]
  | .list _, ordered => by
    simp [toPlain, ofPlain, same, sifted, same_siftedItems ordered]
  | .object _, ordered => by
    simp [toPlain, ofPlain, same, sifted, ofList_ofPlainFields ordered.1,
      same_siftedEntries ordered.2]

theorem same_siftedItems : ∀ {items : List Value}, OrderedItems items →
    sameItems (ofPlainItems (toPlainItems items)) (siftedItems items) = true
  | [], _ => rfl
  | _ :: _, ordered => by
    simp [toPlainItems, ofPlainItems, sameItems, siftedItems, same_sifted ordered.1,
      same_siftedItems ordered.2]

theorem same_siftedEntries : ∀ {entries : List (String × Value)}, OrderedEntries entries →
    sameEntries (ofPlainFields (toPlainEntries entries)) (siftedEntries entries) = true
  | [], _ => rfl
  | _ :: _, ordered => by
    simp [toPlainEntries, ofPlainFields, sameEntries, siftedEntries, same_sifted ordered.1,
      same_siftedEntries ordered.2]

end

mutual

theorem sifted_of_finite : ∀ {v : Value}, (∀ x ∈ v.numbers, x.isFinite = true) → v.sifted = v
  | .null, _ => rfl
  | .bool _, _ => rfl
  | .text _, _ => rfl
  | .number x, finite => by simp [sifted, finite x (by simp [numbers])]
  | .list _, finite => by rw [sifted, siftedItems_of_finite finite]
  | .object _, finite => by rw [sifted, siftedEntries_of_finite finite]

theorem siftedItems_of_finite : ∀ {items : List Value},
    (∀ x ∈ itemsNumbers items, x.isFinite = true) → siftedItems items = items
  | [], _ => rfl
  | _ :: _, finite => by
    rw [siftedItems, sifted_of_finite fun x mem => finite x (List.mem_append_left _ mem),
      siftedItems_of_finite fun x mem => finite x (List.mem_append_right _ mem)]

theorem siftedEntries_of_finite : ∀ {entries : List (String × Value)},
    (∀ x ∈ entriesNumbers entries, x.isFinite = true) → siftedEntries entries = entries
  | [], _ => rfl
  | _ :: _, finite => by
    rw [siftedEntries, sifted_of_finite fun x mem => finite x (List.mem_append_left _ mem),
      siftedEntries_of_finite fun x mem => finite x (List.mem_append_right _ mem)]

end

mutual

theorem toPlain_congr : ∀ {v w : Value}, v.same w = true → v.toPlain = w.toPlain
  | .null, w, same => by
    cases w with
    | null => rfl
    | _ => cases same
  | .bool a, w, same => by
    cases w with
    | bool b => rw [eq_of_beq same]
    | _ => cases same
  | .number x, w, same => by
    cases w with
    | number y => exact plainNumber_congr same
    | _ => cases same
  | .text s, w, same => by
    cases w with
    | text t => rw [eq_of_beq same]
    | _ => cases same
  | .list xs, w, same => by
    cases w with
    | list ys => exact congrArg Json.array (toPlainItems_congr same)
    | _ => cases same
  | .object xs, w, same => by
    cases w with
    | object ys => exact congrArg Json.object (toPlainEntries_congr same)
    | _ => cases same

theorem toPlainItems_congr : ∀ {xs ys : List Value}, sameItems xs ys = true →
    toPlainItems xs = toPlainItems ys
  | [], ys, same => by
    cases ys with
    | nil => rfl
    | cons => cases same
  | x :: xs, ys, same => by
    cases ys with
    | nil => cases same
    | cons y ys =>
      obtain ⟨first, others⟩ := Bool.and_eq_true_iff.mp same
      rw [toPlainItems, toPlainItems, toPlain_congr first, toPlainItems_congr others]

theorem toPlainEntries_congr : ∀ {xs ys : List (String × Value)}, sameEntries xs ys = true →
    toPlainEntries xs = toPlainEntries ys
  | [], ys, same => by
    cases ys with
    | nil => rfl
    | cons => cases same
  | (key, x) :: xs, ys, same => by
    cases ys with
    | nil => cases same
    | cons entry ys =>
      obtain ⟨other, y⟩ := entry
      obtain ⟨first, others⟩ := Bool.and_eq_true_iff.mp same
      obtain ⟨keys, values⟩ := Bool.and_eq_true_iff.mp first
      rw [toPlainEntries, toPlainEntries, eq_of_beq keys, toPlain_congr values,
        toPlainEntries_congr others]

end

section Entries

theorem orderedEntries_iff {entries : List (String × Value)} :
    OrderedEntries entries ↔ ∀ entry ∈ entries, entry.2.Ordered := by
  induction entries with
  | nil => simp [OrderedEntries]
  | cons entry rest ih => simp [OrderedEntries, ih]

theorem entriesNumbers_eq (entries : List (String × Value)) :
    entriesNumbers entries = entries.flatMap fun entry => entry.2.numbers := by
  induction entries with
  | nil => rfl
  | cons entry rest ih => simp [entriesNumbers, ih]

theorem mem_entriesNumbers_ofList {x : Binary64} {entries : List (String × Value)}
    (mem : x ∈ entriesNumbers (Table.ofList entries)) : x ∈ entriesNumbers entries := by
  rw [entriesNumbers_eq, List.mem_flatMap] at mem ⊢
  obtain ⟨entry, own, mem⟩ := mem
  exact ⟨entry, Table.mem_of_mem_ofList own, mem⟩

end Entries

mutual

theorem ordered_ofPlain : ∀ j : Json, (ofPlain j).Ordered
  | .null | .bool _ | .number _ | .string _ => trivial
  | .array items => ordered_ofPlainItems items
  | .object fields => ⟨Table.ordered_ofList _, orderedEntries_iff.mpr fun entry mem =>
      orderedEntries_iff.mp (ordered_ofPlainFields fields) entry (Table.mem_of_mem_ofList mem)⟩

theorem ordered_ofPlainItems : ∀ items : List Json, OrderedItems (ofPlainItems items)
  | [] => trivial
  | item :: rest => ⟨ordered_ofPlain item, ordered_ofPlainItems rest⟩

theorem ordered_ofPlainFields : ∀ fields : List (String × Json),
    OrderedEntries (ofPlainFields fields)
  | [] => trivial
  | (_, value) :: rest => ⟨ordered_ofPlain value, ordered_ofPlainFields rest⟩

end

mutual

theorem finite_ofPlain : ∀ {j : Json}, (∀ n ∈ j.numbers, n.Sound) →
    ∀ x ∈ (ofPlain j).numbers, x.isFinite = true
  | .null, _, _, mem | .bool _, _, _, mem | .string _, _, _, mem => by cases mem
  | .number n, sound, x, mem => by
    obtain rfl := List.mem_singleton.mp mem
    exact ofNumber_isFinite (sound n (List.mem_singleton_self n))
  | .array _, sound, x, mem => finite_ofPlainItems sound x mem
  | .object _, sound, x, mem => finite_ofPlainFields sound x (mem_entriesNumbers_ofList mem)

theorem finite_ofPlainItems : ∀ {items : List Json}, (∀ n ∈ Json.itemsNumbers items, n.Sound) →
    ∀ x ∈ itemsNumbers (ofPlainItems items), x.isFinite = true
  | [], _, _, mem => by cases mem
  | _ :: _, sound, x, mem => by
    rcases List.mem_append.mp mem with mem | mem
    · exact finite_ofPlain (fun n own => sound n (List.mem_append_left _ own)) x mem
    · exact finite_ofPlainItems (fun n own => sound n (List.mem_append_right _ own)) x mem

theorem finite_ofPlainFields : ∀ {fields : List (String × Json)},
    (∀ n ∈ Json.fieldsNumbers fields, n.Sound) →
    ∀ x ∈ entriesNumbers (ofPlainFields fields), x.isFinite = true
  | [], _, _, mem => by cases mem
  | (_, _) :: _, sound, x, mem => by
    rcases List.mem_append.mp mem with mem | mem
    · exact finite_ofPlain (fun n own => sound n (List.mem_append_left _ own)) x mem
    · exact finite_ofPlainFields (fun n own => sound n (List.mem_append_right _ own)) x mem

end

theorem writable_ofPlain {j : Json} (sound : ∀ n ∈ j.numbers, n.Sound) : (ofPlain j).Writable where
  ordered := ordered_ofPlain j
  finite := finite_ofPlain sound

theorem Writable.same_ofPlain {v : Value} (writable : v.Writable) :
    (ofPlain v.toPlain).same v = true := by
  have back := same_sifted writable.ordered
  rwa [sifted_of_finite writable.finite] at back

/-- A value comes back through a tree with `null` for the numbers that are not finite, so as it was
if there are none. The value of a tree comes back too; the tree of that value is the same tree from
then on, and its value the very same value. -/
theorem plain_round_trip :
    (∀ v : Value, v.Ordered → (ofPlain v.toPlain).same v.sifted = true) ∧
      (∀ v : Value, v.Writable → (ofPlain v.toPlain).same v = true) ∧
      ∀ j : Json, (∀ n ∈ j.numbers, n.Sound) →
        (ofPlain (ofPlain j).toPlain).same (ofPlain j) = true ∧
          (ofPlain (ofPlain j).toPlain).toPlain = (ofPlain j).toPlain ∧
          ofPlain (ofPlain (ofPlain j).toPlain).toPlain = ofPlain (ofPlain j).toPlain := by
  refine ⟨fun _ => same_sifted, fun _ => Writable.same_ofPlain, fun j sound => ?_⟩
  have back := (writable_ofPlain sound).same_ofPlain
  have again := toPlain_congr back
  exact ⟨back, again, congrArg ofPlain again⟩

def third : Binary64 := .ofRatio false 1 3

def assorted : Value :=
  .object [("a", .list [.number .nan, .number (.zero true), .number (.infinite true)]),
    ("b", .object [("c", .number third), ("d", .text "e")])]

def unsettled : Json :=
  .object [("b", .number (.float (.zero true))),
    ("a", .array [.number (.int (2 ^ 64 - 1)), .number (.float third)])]

theorem plain_round_trip_assorted :
    assorted.sifted = .object [("a", .list [.null, .number (.zero true), .null]),
      ("b", .object [("c", .number third), ("d", .text "e")])] ∧
    (ofPlain assorted.toPlain).same assorted.sifted = true ∧
    (ofPlain assorted.sifted.toPlain).same assorted.sifted = true ∧
    (ofPlain (ofPlain unsettled).toPlain).same (ofPlain unsettled) = true ∧
    ofPlain (ofPlain (ofPlain unsettled).toPlain).toPlain =
      ofPlain (ofPlain unsettled).toPlain := by
  obtain ⟨sifts, returns, settles⟩ := plain_round_trip
  have outer (v w : Value) : Table.Ordered [("a", v), ("b", w)] :=
    List.pairwise_pair.mpr (show "a" < "b" by decide)
  have inner (v w : Value) : Table.Ordered [("c", v), ("d", w)] :=
    List.pairwise_pair.mpr (show "c" < "d" by decide)
  have ordered : assorted.Ordered :=
    ⟨outer _ _, ⟨trivial, trivial, trivial, trivial⟩,
      ⟨inner _ _, trivial, trivial, trivial⟩, trivial⟩
  have writable : assorted.sifted.Writable := by
    refine ⟨⟨outer _ _, ⟨trivial, trivial, trivial, trivial⟩,
      ⟨inner _ _, trivial, trivial, trivial⟩, trivial⟩, fun x mem => ?_⟩
    have numbers : assorted.sifted.numbers = [.zero true, third] := rfl
    rw [numbers] at mem
    rcases List.mem_pair.mp mem with rfl | rfl <;> rfl
  have sound : ∀ n ∈ unsettled.numbers, n.Sound := by
    have numbers : unsettled.numbers = [.float (.zero true), .int (2 ^ 64 - 1), .float third] := rfl
    rw [numbers]
    simp only [List.forall_mem_cons]
    exact ⟨rfl, ⟨by decide, by decide⟩, rfl, List.forall_mem_nil _⟩
  obtain ⟨back, -, again⟩ := settles unsettled sound
  exact ⟨rfl, sifts assorted ordered, returns assorted.sifted writable, back, again⟩

end Value
end MarkupMachine
