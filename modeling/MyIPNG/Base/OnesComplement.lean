import Mathlib.Algebra.BigOperators.Group.List.Basic
import Mathlib.Algebra.GroupWithZero.Nat
import Mathlib.Tactic.SplitIfs

/-!
# One's-complement sums of sixteen-bit words

The sum of words with end-around carry: a carry out of the sixteen bits is added at the low end. It
is the sum of the words modulo `65535`, and of the two words that stand for zero modulo `65535` it
is the word `0` exactly when all words are (`onesSum_spec`). These two facts determine it
(`eq_of_residue`), so any other way to add up words and fold the carries gives the same word as soon
as it has them.
-/

set_option autoImplicit false
set_option relaxedAutoImplicit false

namespace MyIPNG.Base

/-- Addition with end-around carry. -/
def onesAdd (a b : UInt16) : UInt16 := if a + b < a then a + b + 1 else a + b

/-- The one's-complement sum of words. -/
def onesSum (words : List UInt16) : UInt16 := words.foldl onesAdd 0

theorem toNat_onesAdd (a b : UInt16) :
    (onesAdd a b).toNat =
      if a.toNat + b.toNat < 65536 then a.toNat + b.toNat else a.toNat + b.toNat - 65535 := by
  have ha := a.toNat_lt
  have hb := b.toNat_lt
  have hcarry : a + b < a ↔ ¬ a.toNat + b.toNat < 65536 := by
    rw [UInt16.lt_iff_toNat_lt, UInt16.toNat_add]
    omega
  unfold onesAdd
  by_cases h : a.toNat + b.toNat < 65536
  · rw [if_neg (not_not.mpr h ∘ hcarry.mp), if_pos h, UInt16.toNat_add]
    omega
  · rw [if_pos (hcarry.mpr h), if_neg h, UInt16.toNat_add, UInt16.toNat_add]
    change ((a.toNat + b.toNat) % 65536 + 1) % 65536 = _
    omega

/-- The sum modulo `65535`, and when it is zero. -/
theorem foldl_onesAdd_spec (words : List UInt16) (acc : UInt16) :
    (words.foldl onesAdd acc).toNat % 65535 =
        (acc.toNat + (words.map UInt16.toNat).sum) % 65535 ∧
      ((words.foldl onesAdd acc).toNat = 0 ↔ acc.toNat + (words.map UInt16.toNat).sum = 0) := by
  induction words generalizing acc with
  | nil => exact ⟨rfl, Iff.rfl⟩
  | cons word words ih =>
    have hadd := toNat_onesAdd acc word
    obtain ⟨hmod, hzero⟩ := ih (onesAdd acc word)
    rw [List.foldl_cons, List.map_cons, List.sum_cons]
    split_ifs at hadd with hcarry
    · rw [hadd, Nat.add_assoc] at hmod hzero
      exact ⟨hmod, hzero⟩
    · constructor
      · rw [hmod]
        omega
      · rw [hzero]
        omega

theorem onesSum_spec (words : List UInt16) :
    (onesSum words).toNat % 65535 = (words.map UInt16.toNat).sum % 65535 ∧
      ((onesSum words).toNat = 0 ↔ (words.map UInt16.toNat).sum = 0) := by
  have hspec := foldl_onesAdd_spec words 0
  rwa [UInt16.toNat_zero, Nat.zero_add] at hspec

/-- Words that agree modulo `65535` and in being zero are equal. -/
theorem eq_of_residue {a b : ℕ} (ha : a ≤ 65535) (hb : b ≤ 65535) (hmod : a % 65535 = b % 65535)
    (hzero : a = 0 ↔ b = 0) : a = b := by
  omega

end MyIPNG.Base
