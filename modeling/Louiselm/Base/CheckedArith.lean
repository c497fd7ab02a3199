import Mathlib.Algebra.Group.Nat.Defs

/-!
# Checked machine arithmetic

The `checked_add` of the source on the machine integers it is used at: a sum, or nothing
where it does not fit.
-/

namespace Louiselm.Base

/-- The sum of two counts, when it fits. -/
def checkedAdd (a b : UInt64) : Option UInt64 :=
  if a.toNat + b.toNat < 2 ^ 64 then some (a + b) else none

theorem checkedAdd_eq_some {a b c : UInt64} (h : checkedAdd a b = some c) :
    c.toNat = a.toNat + b.toNat := by
  unfold checkedAdd at h
  split at h
  · next hl =>
    rw [← Option.some.inj h, UInt64.toNat_add, Nat.mod_eq_of_lt hl]
  · simp at h

/-- A difference that does not underflow. -/
theorem toNat_sub {a b : UInt64} (h : b.toNat ≤ a.toNat) : (a - b).toNat = a.toNat - b.toNat :=
  UInt64.toNat_sub_of_le a b (UInt64.le_iff_toNat_le.mpr h)

end Louiselm.Base
