import Mathlib.Data.List.Forall2
import MarkupMachine.Proofs.Number.Rounding
import MarkupMachine.Value.Text

/-! How values are written: `null`, the two truth values, numbers in decimals, texts in quotes,
lists in brackets and objects in braces, with commas between what is inside. A text that is joined
to others is written without quotes. -/

namespace MarkupMachine

namespace Text

inductive Escapes : Char → List Char → Prop
  | nothing : Escapes '\x00' ['\\', '0']
  | tab : Escapes '\t' ['\\', 't']
  | back : Escapes '\r' ['\\', 'r']
  | line : Escapes '\n' ['\\', 'n']
  | quote : Escapes '"' ['\\', '"']
  | backslash : Escapes '\\' ['\\', '\\']
  | plain {c} : c ∉ ['\x00', '\t', '\r', '\n', '"', '\\'] → isPlain c = true → Escapes c [c]
  | hidden {c} : c ∉ ['\x00', '\t', '\r', '\n', '"', '\\'] → isPlain c = false →
    Escapes c ('\\' :: 'u' :: '\x7b' :: Nat.toDigits 16 c.toNat ++ ['\x7d'])

theorem escapes_iff {c : Char} {cs : List Char} : Escapes c cs ↔ escape c = cs := by
  constructor
  · have ordinary (apart : c ∉ ['\x00', '\t', '\r', '\n', '"', '\\']) : escape c =
        if isPlain c then [c] else "\\u\x7b".toList ++ Nat.toDigits 16 c.toNat ++ ['\x7d'] := by
      simp only [List.mem_cons, not_or] at apart
      simp [escape, apart]
    rintro (_ | _ | _ | _ | _ | _ | ⟨apart, plain⟩ | ⟨apart, hidden⟩)
    any_goals rfl
    · rw [ordinary apart, if_pos plain]
    · rw [ordinary apart, if_neg (by simp [hidden])]
      rfl
  · rintro rfl
    unfold escape
    split
    · exact .nothing
    · exact .tab
    · exact .back
    · exact .line
    · exact .quote
    · exact .backslash
    · next zero tab back line quote slash =>
      have apart : c ∉ ['\x00', '\t', '\r', '\n', '"', '\\'] := by
        simpa using ⟨zero, tab, back, line, quote, slash⟩
      cases plain : isPlain c with
      | true => exact .plain apart plain
      | false => exact .hidden apart plain

inductive Quotes (s : String) : String → Prop
  | quoted {pieces} : List.Forall₂ Escapes s.toList pieces →
    Quotes s (String.ofList ('"' :: pieces.flatten ++ ['"']))

theorem quotes_iff {s t : String} : Quotes s t ↔ quoted s = t := by
  constructor
  · rintro @⟨pieces, escapes⟩
    have same : s.toList.map escape = pieces := by
      rw [← List.forall₂_eq_eq_eq, List.forall₂_map_left_iff]
      exact escapes.imp fun _ _ => escapes_iff.mp
    rw [quoted, List.flatMap_def, same]
  · rintro rfl
    rw [quoted, List.flatMap_def]
    refine .quoted ?_
    rw [List.forall₂_map_right_iff, List.forall₂_same]
    exact fun _ _ => escapes_iff.mpr rfl

end Text

namespace Binary64

/-- How a number is written. Integers below `10 ^ 15` have neither a point nor a sign for zero. -/
inductive Prints : Binary64 → String → Prop
  | integer {x n} : x.IsInteger n → n.natAbs < 10 ^ 15 → Prints x (toString n)
  | decimal {negative significand exponent canonical} :
    (∀ n, (finite negative significand exponent canonical).IsInteger n →
      10 ^ 15 ≤ n.natAbs) →
    Prints (.finite negative significand exponent canonical)
      ((if negative then "-" else "") ++
        (Decimal.shortest .upward significand exponent).positional false)
  | infinity : Prints (.infinite false) "inf"
  | below : Prints (.infinite true) "-inf"
  | nan : Prints .nan "NaN"

theorem prints_iff {x : Binary64} {s : String} : x.Prints s ↔ Value.numberText x = s := by
  unfold Value.numberText
  constructor
  · rintro (⟨integer, small⟩ | large | _ | _ | _)
    · rw [toInt?_eq_some_iff.mpr integer]
      exact if_pos small
    · split
      · rename_i n whole
        exact if_neg (Nat.not_lt.mpr (large n (toInt?_eq_some_iff.mp whole)))
      · rfl
    · rfl
    · rfl
    · rfl
  · rintro rfl
    cases x with
    | nan => exact .nan
    | infinite negative =>
      cases negative with
      | false => exact .infinity
      | true => exact .below
    | finite =>
      split
      · rename_i n whole
        split
        · rename_i small
          exact .integer (toInt?_eq_some_iff.mp whole) small
        · rename_i large
          refine .decimal fun m integer => ?_
          rw [toInt?_eq_some_iff.mpr integer] at whole
          cases whole
          exact Nat.not_lt.mp large
      · rename_i broken
        refine .decimal fun n integer => ?_
        rw [toInt?_eq_some_iff.mpr integer] at broken
        cases broken

end Binary64

namespace Value

mutual

inductive Shows : Value → String → Prop
  | null : Shows .null "null"
  | yes : Shows (.bool true) "true"
  | no : Shows (.bool false) "false"
  | number {x s} : x.Prints s → Shows (.number x) s
  | text {s t} : Text.Quotes s t → Shows (.text s) t
  | list {items texts} : ShowsItems items texts →
    Shows (.list items) ("[" ++ ", ".intercalate texts ++ "]")
  | object {entries texts} : ShowsEntries entries texts →
    Shows (.object entries) ("\x7b" ++ ", ".intercalate texts ++ "\x7d")

inductive ShowsItems : List Value → List String → Prop
  | nil : ShowsItems [] []
  | cons {item text items texts} : Shows item text → ShowsItems items texts →
    ShowsItems (item :: items) (text :: texts)

inductive ShowsEntries : List (String × Value) → List String → Prop
  | nil : ShowsEntries [] []
  | cons {key name value text entries texts} : Text.Quotes key name → Shows value text →
    ShowsEntries entries texts →
    ShowsEntries ((key, value) :: entries) ((name ++ ": " ++ text) :: texts)

end

mutual

theorem shows_shown : ∀ v : Value, v.Shows v.shown
  | .null => .null
  | .bool true => .yes
  | .bool false => .no
  | .number _ => .number (Binary64.prints_iff.mpr rfl)
  | .text _ => .text (Text.quotes_iff.mpr rfl)
  | .list items => .list (shows_shownItems items)
  | .object entries => .object (shows_shownEntries entries)

theorem shows_shownItems : ∀ items : List Value, ShowsItems items (shownItems items)
  | [] => .nil
  | item :: rest => .cons (shows_shown item) (shows_shownItems rest)

theorem shows_shownEntries : ∀ entries : List (String × Value),
    ShowsEntries entries (shownEntries entries)
  | [] => .nil
  | (_, value) :: rest =>
    .cons (Text.quotes_iff.mpr rfl) (shows_shown value) (shows_shownEntries rest)

end

mutual

theorem Shows.shown_eq : ∀ {v : Value} {s : String}, v.Shows s → v.shown = s
  | _, _, .null => rfl
  | _, _, .yes => rfl
  | _, _, .no => rfl
  | _, _, .number prints => Binary64.prints_iff.mp prints
  | _, _, .text quotes => Text.quotes_iff.mp quotes
  | _, _, .list items => by rw [shown, items.shown_eq]
  | _, _, .object entries => by rw [shown, entries.shown_eq]

theorem ShowsItems.shown_eq : ∀ {items : List Value} {texts : List String},
    ShowsItems items texts → shownItems items = texts
  | _, _, .nil => rfl
  | _, _, .cons item rest => by rw [shownItems, item.shown_eq, rest.shown_eq]

theorem ShowsEntries.shown_eq : ∀ {entries : List (String × Value)} {texts : List String},
    ShowsEntries entries texts → shownEntries entries = texts
  | _, _, .nil => rfl
  | _, _, .cons key value rest => by
    rw [shownEntries, Text.quotes_iff.mp key, value.shown_eq, rest.shown_eq]

end

/-- The text that a value is joined as: a string stands for itself. -/
inductive Displays : Value → String → Prop
  | text {s} : Displays (.text s) s
  | other {value s} : (∀ t, value ≠ .text t) → value.Shows s → Displays value s

theorem displays_iff {value : Value} {s : String} : value.Displays s ↔ value.joined = s := by
  constructor
  · rintro (_ | ⟨other, written⟩)
    · rfl
    · rw [← written.shown_eq]
      cases value with
      | text t => exact absurd rfl (other t)
      | _ => rfl
  · rintro rfl
    cases value with
    | text s => exact .text
    | _ => exact .other (fun _ same => by cases same) (shows_shown _)

end Value
end MarkupMachine
