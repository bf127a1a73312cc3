import SimTerm.Random.Draw

/-!
# What a draw may give

What is drawn depends on the stream, and a proof that holds for every stream may only use the range
of each draw. `Draw.Gives` states such a range: it holds of the result whatever stream is drawn
from. A computation is taken apart at its binds (`Draw.Gives.bind`), so the range of a whole
computation follows from those of its draws.
-/

namespace SimTerm.Random

/-- Whatever stream is drawn from, the result is such a value. -/
def Draw.Gives (d : Draw α) (P : α → Prop) : Prop :=
  ∀ k : Keystream, P (d.run k).1

namespace Draw

/-- A value that is not drawn is known. -/
theorem gives_pure {P : α → Prop} {a : α} (h : P a) : Gives (pure a) P :=
  fun _ => h

/-- What is known of one draw may be used for the next. -/
theorem Gives.bind {d : Draw α} {f : α → Draw β} {P : α → Prop} {Q : β → Prop} (hd : Gives d P)
    (hf : ∀ a, P a → Gives (f a) Q) : Gives (d >>= f) Q :=
  fun k => hf _ (hd k) (d.run k).2

/-- Less may be known of a draw. -/
theorem Gives.imp {d : Draw α} {P Q : α → Prop} (hd : Gives d P) (h : ∀ a, P a → Q a) : Gives d Q :=
  fun k => h _ (hd k)

/-- What is made of a drawn value is made on the same stream. -/
theorem run_map (f : α → β) (d : Draw α) (k : Keystream) : ((f <$> d).run k).1 = f (d.run k).1 :=
  rfl

theorem gives_true (d : Draw α) : Gives d fun _ => True :=
  fun _ => trivial

end Draw

open Draw

/-! ## Words -/

/-- A short word has 32 bits. -/
theorem word32_gives : Gives word32 (· < UInt32.size) :=
  fun k => k.word.1.toNat_lt_size

/-- A long word has 64 bits. -/
theorem word64_gives : Gives word64 (· < UInt64.size) := by
  refine word32_gives.bind fun low hlow => word32_gives.bind fun high hhigh => gives_pure ?_
  simp only [UInt32.size, UInt64.size] at hlow hhigh ⊢
  omega

/-- A word of a width has its bits. -/
theorem Width.draw_gives (width : Width) : Gives width.draw (· < width.size) := by
  cases width with
  | narrow => exact word32_gives
  | wide => exact word64_gives

/-! ## Numbers in a range -/

/-- A number below a bound is below it, however many tries it took and whether or not one succeeded.
-/
theorem belowWithin_gives (width : Width) {n : Nat} (hn : 0 < n) (tries : Nat) :
    Gives (belowWithin width n tries) (· < n) := by
  induction tries with
  | zero => exact gives_pure hn
  | succ tries ih =>
    refine width.draw_gives.bind fun word hword => ?_
    have hproduct : word * n / width.size < n :=
      Nat.div_lt_of_lt_mul (Nat.mul_lt_mul_of_pos_right hword hn)
    dsimp only
    split
    · exact gives_pure hproduct
    · exact ih

/-- A number between two bounds is between them, both included. -/
theorem between_gives (width : Width) {low high : Nat} (h : low ≤ high) :
    Gives (between width low high) fun n => low ≤ n ∧ n ≤ high := by
  refine (belowWithin_gives width (Nat.succ_pos (high - low)) maxTries).bind fun n hn =>
    gives_pure ⟨Nat.le_add_right low n, ?_⟩
  omega

/-! ## Chances -/

/-- What has a chance of nothing never happens, and what is certain always does. -/
theorem belowPercent_gives (percent : Nat) :
    Gives (belowPercent percent) fun happens =>
      (happens = true → 0 < percent) ∧ (happens = false → percent < 100) := by
  refine word64_gives.bind fun word hword => gives_pure ?_
  have hpoint : word / Nat.pow 2 12 < Nat.pow 2 52 := Nat.div_lt_of_lt_mul hword
  rw [decide_eq_true_iff, decide_eq_false_iff_not]
  constructor
  · intro h
    exact Nat.pos_of_mul_pos_right (Nat.zero_lt_of_lt h)
  · intro h
    refine Nat.lt_of_not_le fun hcertain => h ?_
    exact Nat.mul_lt_mul_of_le_of_lt hcertain hpoint (by omega)

end SimTerm.Random
