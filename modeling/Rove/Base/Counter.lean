/-
Numbers drawn from a counter that goes round: from a first number on, so many
in a row, and then from the first again. Which numbers come twice is a matter
of how many draws lie between.
-/
import Mathlib.Data.Nat.Basic

namespace Rove

/-- The number that the draw with `n` draws before it gives. -/
def roundDraw (first period n : Nat) : Nat := first + n % period

variable {first period n m : Nat}

theorem roundDraw_zero : roundDraw first period 0 = first := by
  rw [roundDraw, Nat.zero_mod, Nat.add_zero]

theorem roundDraw_lt (hperiod : 0 < period) : roundDraw first period n < first + period :=
  Nat.add_lt_add_left (Nat.mod_lt n hperiod) first

/-- The next number is one more, or the first again after the last. -/
theorem roundDraw_succ (hperiod : 0 < period) :
    roundDraw first period (n + 1) =
      if roundDraw first period n = first + period - 1 then first else roundDraw first period n + 1 := by
  have hlt := Nat.mod_lt n hperiod
  unfold roundDraw
  rw [← Nat.mod_add_mod]
  split
  · next hlast =>
    have hround : n % period + 1 = period := by omega
    rw [hround, Nat.mod_self, Nat.add_zero]
  · next hmore =>
    rw [Nat.mod_eq_of_lt (by omega), Nat.add_assoc]

/-- Two draws give the same number if and only if they are whole rounds apart. -/
theorem roundDraw_eq_iff : roundDraw first period n = roundDraw first period m ↔ n % period = m % period :=
  Nat.add_left_cancel_iff

end Rove
