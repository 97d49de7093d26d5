import MarkupMachine.Duration

/-! Which numbers of milliseconds are durations: those that come to less than `2 ^ 64` seconds when
they are divided by a thousand, as numbers are. -/

namespace MarkupMachine

namespace Binary64

theorem ofRatio_eq_finite {negative other : Bool} {num den significand : Nat} {exponent : Int}
    {canonical : Canonical significand exponent}
    (finite : ofRatio negative num den = .finite other significand exponent canonical) :
    other = negative ∧ (num = 0 → significand = 0) := by
  by_cases none : num = 0
  · rw [ofRatio, if_pos none] at finite
    cases finite
    exact ⟨rfl, fun _ => rfl⟩
  · have packed {s : Nat} {e : Int}
        (finite : pack negative s e = .finite other significand exponent canonical) :
        other = negative := by
      unfold pack at finite
      split at finite <;> cases finite
      rfl
    rw [ofRatio, if_neg none] at finite
    refine ⟨?_, fun zero => absurd zero none⟩
    dsimp only at finite
    split at finite
    · exact packed finite
    · exact packed finite

theorem div_ofNat_eq_finite {x : Binary64} {parts : Nat} {negative : Bool} {significand : Nat}
    {exponent : Int} {canonical : Canonical significand exponent} (nonnegative : x.isNonnegative)
    (finite : x.div (ofNat parts) = .finite negative significand exponent canonical) :
    negative = true → significand = 0 := by
  cases divisor : ofNat parts with
  | nan => rw [divisor] at finite; cases x <;> cases finite
  | infinite => rw [divisor] at finite; cases x <;> cases finite; exact fun _ => rfl
  | finite s' m' e' h' =>
    obtain ⟨rfl, -⟩ := ofRatio_eq_finite divisor
    rw [divisor] at finite
    cases x with
    | nan => cases nonnegative
    | infinite s => cases finite
    | finite s m e h =>
      by_cases none : (ratio m' e').1 = 0
      · by_cases nothing : (ratio m e).1 = 0 <;> simp [div, none, nothing] at finite
      have quotient :
          ofRatio s ((ratio m e).1 * (ratio m' e').2) ((ratio m e).2 * (ratio m' e').1) =
            .finite negative significand exponent canonical := by
        simpa [div, none] using finite
      obtain ⟨rfl, zero⟩ := ofRatio_eq_finite quotient
      intro below
      have empty : m = 0 := by simpa [isNonnegative, below] using nonnegative
      apply zero
      rw [empty, ratio]
      split <;> simp

/-- What is not below zero: zero with either sign too, but nothing that is no number. -/
inductive AtLeastZero : Binary64 → Prop
  | infinite : AtLeastZero (.infinite false)
  | positive {significand exponent canonical} :
    AtLeastZero (.finite false significand exponent canonical)
  | zero {exponent canonical} : AtLeastZero (.finite true 0 exponent canonical)

theorem isNonnegative_iff {x : Binary64} : x.isNonnegative = true ↔ x.AtLeastZero := by
  constructor
  · intro nonnegative
    cases x with
    | nan => cases nonnegative
    | infinite negative =>
      cases negative with
      | false => exact .infinite
      | true => cases nonnegative
    | finite negative significand =>
      cases negative with
      | false => exact .positive
      | true =>
        obtain rfl : significand = 0 := by simpa [isNonnegative] using nonnegative
        exact .zero
  · rintro (_ | _ | _)
    · rfl
    · simp [isNonnegative]
    · rfl

end Binary64

namespace Duration

/-- A number of milliseconds comes to a duration: its thousandth is a number of seconds that 64 bits
can count, and is rounded to nanoseconds. -/
inductive Counts (x : Binary64) : Duration → Prop where
  | seconds {negative significand exponent canonical} :
    x.div (.ofNat 1000) = .finite negative significand exponent canonical →
    (Binary64.ratio significand exponent).1 <
      (Binary64.ratio significand exponent).2 * UInt64.size →
    Counts x ⟨roundRatio ((Binary64.ratio significand exponent).1 * 1000000000)
      (Binary64.ratio significand exponent).2⟩

theorem ofNumber?_eq_some_iff {x : Binary64} (least : x.AtLeastZero) (d : Duration) :
    ofNumber? x = some d ↔ Counts x d := by
  have nonnegative := Binary64.isNonnegative_iff.mpr least
  constructor
  · intro found
    unfold ofNumber? at found
    split at found
    · rename_i quotient
      dsimp only at found
      split at found
      · cases found
      · rename_i inside
        cases found
        exact .seconds quotient (Nat.not_le.mp (not_or.mp inside).2)
    · cases found
  · rintro ⟨quotient, inside⟩
    have unsigned := Binary64.div_ofNat_eq_finite nonnegative quotient
    unfold ofNumber?
    rw [quotient]
    dsimp only
    rw [if_neg]
    rintro (⟨below, apart⟩ | outside)
    · exact apart (unsigned below)
    · exact absurd inside (Nat.not_lt.mpr outside)

end Duration
end MarkupMachine
