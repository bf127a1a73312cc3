import SimTerm.Proofs.Session.Line
import SimTerm.Proofs.Shell.Steps

/-!
# The output of steps

Every step leads from a running session to a running session by events, and so does every line. A
reboot begins with wiping the screen; what comes after it, up to the new prompt, is printed by the
boot sequence.
-/

namespace SimTerm

open Session

namespace Machine

/-- The session of a machine is extended by some events. -/
def Extended (m n : Machine) : Prop :=
  ∃ events, Extends events m.session n.session

theorem Extended.sound {m n : Machine} (h : m.Extended n) : n.session.Sound := by
  obtain ⟨_, hevents⟩ := h
  exact hevents.sound

/-- The events of two parts of a boot come one after the other. -/
theorem Extended.trans {l m n : Machine} (hlm : l.Extended m) (hmn : m.Extended n) :
    l.Extended n := by
  obtain ⟨a, ha⟩ := hlm
  obtain ⟨b, hb⟩ := hmn
  exact ⟨a ++ b, ha.trans hb⟩

/-- A step of a boot sequence is told by events, and keeps the session sound. -/
theorem bootStep_extended {m : Machine} (h : m.session.Sound) (step : BootStep) :
    m.Extended (m.bootStep step) := by
  cases step with
  | print line => exact ⟨_, print_extends h line⟩
  | sleep length => exact ⟨[], Extends.refl h⟩
  | blink => exact blink_extends h

/-- The steps of a boot sequence are told by events, by induction on the steps. -/
theorem bootSteps_extended {m : Machine} (h : m.session.Sound) (steps : List BootStep) :
    m.Extended (steps.foldl bootStep m) := by
  induction steps generalizing m with
  | nil => exact ⟨[], Extends.refl h⟩
  | cons step steps ih =>
    have hstep := bootStep_extended h step
    exact hstep.trans (ih hstep.sound)

/-- Booting wipes the screen first. -/
theorem runBoot_extends {m : Machine} (h : m.session.Sound) (reboot : Bool) :
    ∃ events, Extends (.wiped :: events) m.session (m.runBoot reboot).session := by
  let wiped : Machine := { m with session := { m.session.resetHard with bootMode := true } }
  have hreset := resetHard_extends h
  have hwiped : Extends [.wiped] m.session wiped.session :=
    ⟨hreset.log, hreset.rows, hreset.cols, ⟨hreset.sound.screen, hreset.sound.outRow_le⟩⟩
  obtain ⟨events, hsteps⟩ := bootSteps_extended hwiped.sound (m.boot reboot wiped.session)
  have hall := hwiped.trans hsteps
  exact ⟨events, hall.log, hall.rows, hall.cols, ⟨hall.sound.screen, hall.sound.outRow_le⟩⟩

/-- A reboot ends with a new prompt in a running session. -/
theorem reboot_prompted {m : Machine} (h : m.session.Sound) :
    ∃ events, Follows (.wiped :: events) m.session m.reboot.session ∧
      m.reboot.session.outRow < m.reboot.session.screen.rows := by
  obtain ⟨events, hboot⟩ :=
    runBoot_extends (m := { m with session := m.session.stop }) ⟨h.screen, h.outRow_le⟩ true
  -- a boot ends with a prompt, before which the screen was wiped; nothing older has to be told
  let booted := (runBoot { m with session := m.session.stop } true).session
  have hstarted : Sound { booted with running := true } := ⟨hboot.sound.screen, hboot.sound.outRow_le⟩
  have hprompt := drawPrompt_prompted hstarted
  refine ⟨events, ⟨⟨hprompt.log.trans hboot.log, hprompt.rows.trans hboot.rows,
    hprompt.cols.trans hboot.cols, hprompt.sound⟩, hprompt.running, hprompt.bootMode,
    fun hwiped => absurd List.mem_cons_self hwiped⟩, hprompt.outRow_lt⟩

end Machine

/-! ## Steps -/

/-- Ending a capture changes nothing but the captures. -/
theorem endCapture_eq (s : Session) :
    s.endCapture.2 = { s with captures := s.captures.tail } := by
  unfold endCapture
  split
  · next h => rw [h, List.tail_nil, ← h]
  · next h => rw [h, List.tail_cons]

/-- Whatever a command does to a running session is told by events. -/
theorem commandStep_follows {e f : Environment} (h : e.session.Running) (hstep : CommandStep e f) :
    ∃ events, Follows events e.session f.session := by
  cases hstep with
  | print line => exact ⟨_, print_follows h line⟩
  | echo line =>
    have hshows : (SessionEvent.echoed line).showsInput = true := rfl
    obtain ⟨events, hfollows⟩ := edit_follows h hshows fun _ => Editor.echo line.toList
    exact ⟨_, hfollows⟩
  | paste text hread =>
    have hshows : (SessionEvent.pasted text).showsInput = true := rfl
    obtain ⟨events, hfollows⟩ := edit_follows h hshows (·.paste text.toList)
    exact ⟨_, hfollows⟩
  | clearScreen => exact ⟨_, clearScreen_follows h⟩
  | changeDir path => exact ⟨_, Follows.quiet h rfl rfl rfl rfl rfl⟩
  | files call => exact ⟨_, Follows.quiet h rfl rfl rfl rfl rfl⟩
  | clip text clipboard hwrite => exact ⟨_, Follows.quiet h rfl rfl rfl rfl rfl⟩
  | reboot =>
    obtain ⟨events, hfollows, -⟩ := Machine.reboot_prompted h.sound
    exact ⟨_, hfollows⟩
  | charge => exact ⟨_, Follows.quiet h rfl rfl rfl rfl rfl⟩
  | deeper => exact ⟨_, Follows.quiet h rfl rfl rfl rfl rfl⟩
  | shallower => exact ⟨_, Follows.quiet h rfl rfl rfl rfl rfl⟩

/-- A running session is led to a running session by events. -/
def Environment.FollowedBy (e f : Environment) : Prop :=
  e.session.Running → ∃ events, Follows events e.session f.session

/-- Ending a capture is told by no event. -/
theorem uncaptured_follows {f : Environment} (h : f.session.Running) :
    ∃ events, Follows events f.session f.uncaptured.session := by
  rw [Environment.uncaptured, endCapture_eq]
  exact ⟨_, Follows.quiet h rfl rfl rfl rfl rfl⟩

instance : LineClosed Environment.FollowedBy where
  refl _ h := ⟨_, Follows.quiet h rfl rfl rfl rfl rfl⟩
  trans hef hfg h := by
    obtain ⟨before, hbefore⟩ := hef h
    obtain ⟨events, hevents⟩ := hfg hbefore.toRunning
    exact ⟨_, hbefore.trans hevents⟩
  step hstep h := commandStep_follows h hstep
  stdin _ _ h := ⟨_, Follows.quiet h rfl rfl rfl rfl rfl⟩
  capture {e f} hcaptured h := by
    have hbegin : Follows [] e.session e.captured.session := Follows.quiet h rfl rfl rfl rfl rfl
    obtain ⟨events, hevents⟩ := hcaptured hbegin.toRunning
    obtain ⟨ended, hended⟩ := uncaptured_follows hevents.toRunning
    exact ⟨_, (hbegin.trans hevents).trans hended⟩

end SimTerm
