import SimTerm.Proofs.Terminal.Keys
import SimTerm.Proofs.Terminal.Submit

/-!
# Input is accepted again

A submitted line takes the session in hand, and what it runs may stop the session, show a boot log
and open captures. All of that is over when the call returns: a terminal that accepted input does so
again, with as many captures open as before, and a reboot brings even a stopped terminal there:
`accepts_input_again`.

Only a reboot touches the modes while a line runs. So a line never leaves the session stopped, which
is why the prompt is drawn and input is accepted once the line is out of hand.
-/

namespace SimTerm

open Session

/-! ## Lines -/

/-- The line in hand and the captures are as they were, and a session that runs and shows no boot
log still does. -/
structure Environment.GoesOn (e f : Environment) : Prop where
  busy : f.session.busy = e.session.busy
  captures : f.session.captures.length = e.session.captures.length
  modes : e.session.running = true ∧ e.session.bootMode = false →
    f.session.running = true ∧ f.session.bootMode = false

namespace Environment

theorem GoesOn.of_steady {e f : Environment} (h : e.session.Steady f.session) : e.GoesOn f :=
  ⟨h.busy, h.captures, fun hmodes => ⟨h.running.trans hmodes.1, h.bootMode.trans hmodes.2⟩⟩

/-- Every step of a command leaves the line in hand and the captures, a reboot as well. -/
theorem commandStep_goesOn {e f : Environment} (h : CommandStep e f) : e.GoesOn f := by
  cases h with
  | print line => exact .of_steady (e.session.print_steady line)
  | echo line => exact .of_steady (e.session.echo_steady line)
  | paste text hread => exact .of_steady (e.session.paste_steady text)
  | clearScreen => exact .of_steady e.session.clearScreen_steady
  | changeDir path => exact ⟨rfl, rfl, id⟩
  | files call => exact .of_steady (.refl e.session)
  | clip text clipboard hwrite => exact .of_steady (.refl e.session)
  | reboot =>
    exact ⟨e.toMachine.reboot_stays.busy, e.toMachine.reboot_stays.captures,
      fun _ => ⟨e.toMachine.running_reboot, e.toMachine.bootMode_reboot⟩⟩
  | charge => exact .of_steady (.refl e.session)
  | deeper => exact .of_steady (.refl e.session)
  | shallower => exact .of_steady (.refl e.session)

instance : LineClosed GoesOn where
  refl e := .of_steady (.refl e.session)
  trans hef hfg :=
    ⟨hfg.busy.trans hef.busy, hfg.captures.trans hef.captures, fun h => hfg.modes (hef.modes h)⟩
  step := commandStep_goesOn
  stdin e _ := .of_steady (.refl e.session)
  capture {e f} h := by
    -- the capture that ends is the one that was begun
    have hbegun : f.session.captures.length = e.session.captures.length + 1 := h.captures
    rw [uncaptured, endCapture_eq]
    refine ⟨h.busy, ?_, h.modes⟩
    rw [List.length_tail, hbegun, Nat.add_sub_cancel]

end Environment

namespace Terminal

/-! ## Calls -/

/-- A terminal with the built-in commands that accepts input. -/
structure Ready (t : Terminal) : Prop where
  registry : t.registry = Commands.registry
  acceptsInput : t.session.acceptsInput = true

/-- After a call input is accepted, and no capture was left open. -/
structure Returns (t u : Terminal) : Prop where
  ready : u.Ready
  captures : u.session.captures.length = t.session.captures.length

variable {t u v : Terminal}

theorem Ready.returns (h : t.Ready) : t.Returns t :=
  ⟨h, rfl⟩

/-- Input is accepted after two calls if it is after each. -/
theorem Returns.trans (htu : t.Returns u) (huv : u.Returns v) : t.Returns v :=
  ⟨huv.ready, huv.captures.trans htu.captures⟩

/-- A call that only changes the session, and keeps its modes. -/
theorem Ready.onSession (h : t.Ready) {change : Session → Session}
    (hsteady : t.session.Steady (change t.session)) : t.Returns (t.onSession change) :=
  ⟨⟨h.registry, hsteady.acceptsInput.trans h.acceptsInput⟩, hsteady.captures⟩

/-- What a line of the built-in commands leaves goes on from where it began. -/
theorem lineLeaves_goesOn (hregistry : t.registry = Commands.registry) :
    t.lineEnvironment.GoesOn t.lineLeaves := by
  rw [lineLeaves, hregistry]
  exact Registry.execute_keeps Commands.registry_stepwise _ _

/-- After a line the session still runs, so there is a new prompt, and the line is out of hand. -/
theorem Ready.submit (h : t.Ready) : t.Returns t.submit.2 := by
  obtain ⟨hrunning, hbootMode, -⟩ := acceptsInput_iff.1 h.acceptsInput
  have hcommit := t.session.commit_steady
  have hline := lineLeaves_goesOn h.registry
  have hmodes : t.lineLeaves.session.running = true ∧ t.lineLeaves.session.bootMode = false := by
    refine hline.modes ?_
    rw [session_lineEnvironment]
    exact ⟨hcommit.running.trans hrunning, hcommit.bootMode.trans hbootMode⟩
  have hcaptures : t.lineLeaves.session.captures.length = t.session.captures.length := by
    rw [hline.captures, session_lineEnvironment]
    exact hcommit.captures
  have hprompt := drawPrompt_steady { t.lineLeaves.session with busy := false }
  rw [← session_submit hmodes.1] at hprompt
  have hregistry := t.registry_submit.trans h.registry
  exact ⟨⟨hregistry, acceptsInput_iff.2 ⟨hprompt.running.trans hmodes.1,
    hprompt.bootMode.trans hmodes.2, hprompt.busy⟩⟩, hprompt.captures.trans hcaptures⟩

/-- A reboot ends in a terminal that accepts input, whatever modes it was in. -/
theorem reboot_returns (hregistry : t.registry = Commands.registry)
    (hbusy : t.session.busy = false) : t.Returns t.reboot :=
  ⟨⟨hregistry, Machine.acceptsInput_reboot hbusy⟩, t.machine.reboot_stays.captures⟩

/-- The key that reboots is taken in every mode. -/
theorem press_of_reboots {p : KeyPress} (h : p.reboots = true) : t.press p = t.reboot := by
  rw [press, if_pos h]

/-- Input is accepted after every key press. -/
theorem Ready.press (h : t.Ready) (p : KeyPress) : t.Returns (t.press p) := by
  have hreboot := reboot_returns h.registry (acceptsInput_iff.1 h.acceptsInput).2.2
  have hclear : t.Returns (t.onSession fun s => s.clearScreen.drawPrompt) :=
    h.onSession (t.session.clearScreen_steady.trans (drawPrompt_steady _))
  exact press_induction (P := t.Returns) p hreboot h.returns hclear h.submit
    (h.onSession (editKey_editsLine p t.session).toSteady)

/-- Input is accepted after a text was typed, by induction on its characters. -/
theorem Ready.type (h : t.Ready) (text : String) : t.Returns (t.type text) :=
  type_induction (P := t.Returns) (fun _ p hu => hu.trans (hu.ready.press p)) h.returns text

theorem Ready.runLine (h : t.Ready) (line : String) : t.Returns (t.runLine line).2 := by
  have htyped := h.type line
  rw [Terminal.runLine, if_pos h.acceptsInput]
  exact htyped.trans htyped.ready.submit

/-- If a terminal accepts input, then it does so after every press and after every line, whatever is
run, and no capture was left open. If it has no line in hand, then it accepts input after the press
that reboots, even if it was stopped or showed a boot log. -/
theorem accepts_input_again (t : Terminal) (hregistry : t.registry = Commands.registry) :
    (t.session.acceptsInput = true →
      (∀ p, (t.press p).session.acceptsInput = true ∧
        (t.press p).session.captures.length = t.session.captures.length) ∧
      (∀ line, (t.runLine line).2.session.acceptsInput = true ∧
        (t.runLine line).2.session.captures.length = t.session.captures.length)) ∧
      (t.session.busy = false → ∀ p, p.reboots = true →
        (t.press p).session.acceptsInput = true ∧
          (t.press p).session.captures.length = t.session.captures.length) := by
  refine ⟨fun haccepts => ?_, fun hbusy p hreboots => ?_⟩
  · have hready : t.Ready := ⟨hregistry, haccepts⟩
    exact ⟨fun p => ⟨(hready.press p).ready.acceptsInput, (hready.press p).captures⟩,
      fun line => ⟨(hready.runLine line).ready.acceptsInput, (hready.runLine line).captures⟩⟩
  · have hreturns := reboot_returns hregistry hbusy
    rw [press_of_reboots hreboots]
    exact ⟨hreturns.ready.acceptsInput, hreturns.captures⟩

/-- A terminal whose storage refuses everything, with a clipboard that may not be used, and a boot
log of one line. -/
def refusing : Terminal :=
  ofSettings { rows := 12, cols := 40, execDelay := 0 } { refusal := fun _ _ _ => some "no" } 0
    .denied (fun _ _ => [.print "up", .sleep 5]) [] []

/-- The terminal is stopped and shows a boot log; it is rebooted with the keys. Then a line fails to
reset and to paste, and reboots in between. -/
theorem accepts_input_again_refusing :
    let t := refusing.onSession fun s => { s with bootMode := true }
    let rebooted := t.press { key := .char 'R', modifiers := { ctrl := true, alt := true } }
    t.session.running = false ∧ t.session.bootMode = true ∧
      rebooted.session.acceptsInput = true ∧
      (rebooted.runLine "reset | echo x; reboot; paste").1.map (·.success) = [false, true, false] ∧
      (rebooted.runLine "reset | echo x; reboot; paste").2.session.acceptsInput = true ∧
      (rebooted.runLine "reset | echo x; reboot; paste").2.session.captures.length =
        rebooted.session.captures.length := by
  intro t rebooted
  have hrebooted := (accepts_input_again t rfl).2 rfl
    { key := .char 'R', modifiers := { ctrl := true, alt := true } } (by decide)
  have hline := ((accepts_input_again rebooted rfl).1 hrebooted.1).2 "reset | echo x; reboot; paste"
  exact ⟨rfl, rfl, hrebooted.1, by decide +kernel, hline.1, hline.2⟩

end Terminal

end SimTerm
