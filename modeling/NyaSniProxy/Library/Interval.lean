import Mathlib.Tactic.Common

/-!
# Intervals

An interval is due at an instant, and it is waited for again and again. A tick that completes when
it is due, or not more than a tolerance later, is followed by one a period behind the instant it was
due at. For a tick that was missed there is the choice: `delay` counts the period from the
completion, `skip` goes on with the first multiple of the period that is still to come.
-/

namespace Interval

inductive MissedTick where
  | delay
  | skip

/-- When the interval is due again, if the tick that was due at `due` has completed at `now`. -/
def next (missed : MissedTick) (tolerance period due now : Nat) : Nat :=
  if now ≤ due + tolerance then due + period
  else match missed with
    | .delay => now + period
    | .skip => now + period - (now - due) % period

variable {missed : MissedTick} {tolerance period due now : Nat}

/-- An interval that is waited for is due after a period at the latest. -/
theorem next_le (h : due ≤ now) : next missed tolerance period due now ≤ now + period := by
  unfold next
  split
  · omega
  · cases missed with
    | delay => exact Nat.le_refl _
    | skip => exact Nat.sub_le _ _

/-- An interval does not come faster than its period. -/
theorem le_next (h : due ≤ now) : due + period ≤ next missed tolerance period due now := by
  unfold next
  split
  · exact Nat.le_refl _
  · cases missed with
    | delay => exact Nat.add_le_add_right h period
    | skip =>
      have hle : (now - due) % period ≤ now - due := Nat.mod_le _ _
      simp only
      omega

/-- With `delay`, two ticks are a period apart, less the tolerance. -/
theorem le_next_delay : now + period ≤ next .delay tolerance period due now + tolerance := by
  unfold next
  split
  · omega
  · exact Nat.le_add_right _ _

end Interval
