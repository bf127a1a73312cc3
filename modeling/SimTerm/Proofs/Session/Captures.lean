import SimTerm.Machine
import SimTerm.Proofs.Session.Line

/-!
# What captures collect

Whatever happens to a session, every capture that is open collects the same lines, and these are the
lines that the log says were printed: `Session.Prints`. Only printing adds a line. Booting wipes the
screen, but neither the log nor a capture.
-/

namespace SimTerm

/-- The line that was printed, if one was. -/
def SessionEvent.line? : SessionEvent → Option String
  | .printed line => some line
  | _ => none

namespace Session

/-- These lines are printed between one session and another, in this order: the log tells of them
and of no others, and every open capture has collected them. -/
structure Prints (s : Session) (lines : List String) (t : Session) : Prop where
  log : ∃ events : List SessionEvent, t.log = events.reverse ++ s.log ∧
    events.filterMap SessionEvent.line? = lines
  captures : t.captures = s.captures.map (lines.reverse ++ ·)

variable {s t u : Session}

/-- Nothing is printed by what leaves the captures alone and tells the log of no line. -/
theorem Prints.quiet (events : List SessionEvent) (hlog : t.log = events.reverse ++ s.log)
    (hevents : events.filterMap SessionEvent.line? = []) (hcaptures : t.captures = s.captures) :
    s.Prints [] t :=
  ⟨⟨events, hlog, hevents⟩, by simp [hcaptures]⟩

/-- What is printed in two parts is printed one after the other. -/
theorem Prints.trans {lines lines' : List String} (h : s.Prints lines t) (h' : t.Prints lines' u) :
    s.Prints (lines ++ lines') u := by
  obtain ⟨events, hlog, hevents⟩ := h.log
  obtain ⟨events', hlog', hevents'⟩ := h'.log
  refine ⟨⟨events ++ events', ?_, ?_⟩, ?_⟩
  · rw [hlog', hlog, List.reverse_append, List.append_assoc]
  · rw [List.filterMap_append, hevents, hevents']
  · rw [h'.captures, h.captures, List.map_map]
    simp [Function.comp_def]

/-- Printing a line prints that line, to the log and to all captures. -/
theorem print_prints (s : Session) (line : String) : s.Prints [line] (s.print line) := by
  rw [print_eq, foldl_putRow_eq]
  exact ⟨⟨[.printed line], rfl, rfl⟩, rfl⟩

theorem renderInput_prints (s : Session) : s.Prints [] s.renderInput := by
  have hcaptures : s.renderInput.captures = s.captures := by rw [renderInput_eq]
  refine Prints.quiet s.drawn (log_renderInput s) ?_ hcaptures
  unfold drawn
  split <;> rfl

/-- Drawing the prompt row prints nothing more. -/
theorem Prints.renderInput {lines : List String} (h : s.Prints lines t) :
    s.Prints lines t.renderInput := by
  have hall := h.trans (renderInput_prints t)
  rwa [List.append_nil] at hall

/-- An edit prints nothing, whatever is written down before it. -/
theorem edit_prints (s : Session) (event : SessionEvent) (hevent : event.line? = none)
    (change : Editor → Editor) : s.Prints [] ((s.record event).edit change) :=
  Prints.renderInput (Prints.quiet [event] rfl (by simp [hevent]) rfl)

theorem blink_prints (s : Session) : s.Prints [] s.blink := by
  unfold blink
  split
  · exact Prints.renderInput (Prints.quiet [] rfl rfl rfl)
  · exact Prints.quiet [] rfl rfl rfl

theorem drawPrompt_prints (s : Session) : s.Prints [] s.drawPrompt := by
  rw [drawPrompt_eq, ensureRow_eq]
  exact Prints.renderInput (Prints.quiet [] rfl rfl rfl)

/-- What the capture begun last has collected is what was printed in it, and the captures around it
have collected the same. -/
theorem Prints.endCapture {lines : List String} (h : s.beginCapture.Prints lines t) :
    t.endCapture.1 = lines ∧ s.Prints lines t.endCapture.2 := by
  -- the capture was begun empty, so it holds these lines only
  have hcaptures : t.captures = lines.reverse :: s.captures.map (lines.reverse ++ ·) := by
    rw [h.captures, beginCapture, List.map_cons, List.append_nil]
  have hend : t.endCapture =
      (lines, { t with captures := s.captures.map (lines.reverse ++ ·) }) := by
    simp only [Session.endCapture, hcaptures, List.reverse_reverse]
  rw [hend]
  exact ⟨rfl, ⟨h.log, rfl⟩⟩

end Session

/-! ## Booting -/

namespace Machine

/-- A step of a boot sequence prints one line or none. -/
theorem bootStep_prints (m : Machine) (step : BootStep) :
    ∃ lines, m.session.Prints lines (m.bootStep step).session := by
  cases step with
  | print line => exact ⟨_, m.session.print_prints line⟩
  | sleep length => exact ⟨_, Session.Prints.quiet [] rfl rfl rfl⟩
  | blink => exact ⟨_, m.session.blink_prints⟩

/-- Steps of a boot sequence print lines, by induction on the steps. -/
theorem bootSteps_print (m : Machine) (steps : List BootStep) :
    ∃ lines, m.session.Prints lines (steps.foldl bootStep m).session := by
  induction steps generalizing m with
  | nil => exact ⟨_, Session.Prints.quiet [] rfl rfl rfl⟩
  | cons step steps ih =>
    obtain ⟨first, hfirst⟩ := m.bootStep_prints step
    obtain ⟨others, hothers⟩ := ih (m.bootStep step)
    exact ⟨_, hfirst.trans hothers⟩

/-- Booting wipes the screen, but what the boot sequence prints is collected like any output. -/
theorem runBoot_prints (m : Machine) (reboot : Bool) :
    ∃ lines, m.session.Prints lines (m.runBoot reboot).session := by
  have hwiped : m.session.Prints [] { m.session.resetHard with bootMode := true } :=
    Session.Prints.quiet [.wiped] rfl rfl rfl
  obtain ⟨lines, hsteps⟩ :=
    bootSteps_print { m with session := { m.session.resetHard with bootMode := true } }
      (m.boot reboot { m.session.resetHard with bootMode := true })
  exact ⟨_, (hwiped.trans hsteps).trans (Session.Prints.quiet [] rfl rfl rfl)⟩

/-- A reboot prints what its boot sequence prints. -/
theorem reboot_prints (m : Machine) : ∃ lines, m.session.Prints lines m.reboot.session := by
  have hstop : m.session.Prints [] m.session.stop := Session.Prints.quiet [] rfl rfl rfl
  obtain ⟨lines, hboot⟩ := runBoot_prints { m with session := m.session.stop } true
  let booted := (runBoot { m with session := m.session.stop } true).session
  have hrunning : booted.Prints [] { booted with running := true } :=
    Session.Prints.quiet [] rfl rfl rfl
  exact ⟨_, ((hstop.trans hboot).trans hrunning).trans (Session.drawPrompt_prints _)⟩

end Machine

end SimTerm
