import SimTerm.Machine

/-!
# Booting

Whatever a boot sequence consists of, it wipes the session, prints, lets the caret blink, and leaves
the files alone. So what holds of the wiped session and does not mind printing and blinking holds of
the session that has booted: `runBoot_induction`.
-/

namespace SimTerm.Machine

/-- What holds of the wiped session, and of others after a line is printed or the caret blinks,
holds after booting. -/
theorem runBoot_induction {P : Session → Prop} {m : Machine}
    (hwiped : P { m.session.resetHard with bootMode := true })
    (hprint : ∀ s line, P s → P (s.print line)) (hblink : ∀ s, P s → P s.blink)
    (hdone : ∀ s, P s → P { s with bootMode := false }) (reboot : Bool) :
    P (m.runBoot reboot).session := by
  have hsteps : ∀ (steps : List BootStep) (m : Machine),
      P m.session → P (steps.foldl bootStep m).session := by
    intro steps
    induction steps with
    | nil => exact fun m hm => hm
    | cons step steps ih =>
      intro m hm
      refine ih (m.bootStep step) ?_
      cases step with
      | print line => exact hprint m.session line hm
      | sleep length => exact hm
      | blink => exact hblink m.session hm
  let begun : Machine := { m with session := { m.session.resetHard with bootMode := true } }
  exact hdone _ (hsteps _ begun hwiped)

/-- Booting leaves the files alone. -/
theorem files_runBoot (m : Machine) (reboot : Bool) : (m.runBoot reboot).files = m.files := by
  have hsteps : ∀ (steps : List BootStep) (m : Machine),
      (steps.foldl bootStep m).files = m.files := by
    intro steps
    induction steps with
    | nil => exact fun m => rfl
    | cons step steps ih =>
      intro m
      rw [List.foldl_cons, ih]
      cases step <;> rfl
  exact hsteps _ { m with session := { m.session.resetHard with bootMode := true } }

theorem files_reboot (m : Machine) : m.reboot.files = m.files :=
  files_runBoot { m with session := m.session.stop } true

end SimTerm.Machine
