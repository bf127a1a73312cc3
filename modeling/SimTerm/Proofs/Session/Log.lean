import SimTerm.Proofs.Machine
import SimTerm.Proofs.Session.Line

/-!
# The log grows

Nothing that happens to a session takes an event out of its log. `Logs` says so, and which kind of
events came in: printing, drawing a prompt and booting bring in no event that shows some input.
-/

namespace SimTerm

namespace Session

/-- The later log has some more events than the earlier one, all of them with the property. -/
def Logs (p : SessionEvent → Prop) (s t : Session) : Prop :=
  ∃ events : List SessionEvent, t.log = events.reverse ++ s.log ∧ ∀ event ∈ events, p event

variable {p : SessionEvent → Prop} {s t u : Session}

/-- A log that did not grow has nothing new in it. -/
theorem Logs.of_eq (h : t.log = s.log) : Logs p s t :=
  ⟨[], h, List.forall_mem_nil _⟩

/-- A log that grew by one event has nothing else that is new. -/
theorem Logs.of_cons {event : SessionEvent} (h : t.log = event :: s.log) (hevent : p event) :
    Logs p s t :=
  ⟨[event], h, List.forall_mem_singleton.2 hevent⟩

/-- What a log gained in two parts has the property if both parts have it. -/
theorem Logs.trans (hst : Logs p s t) (htu : Logs p t u) : Logs p s u := by
  obtain ⟨events, hlog, hevents⟩ := hst
  obtain ⟨events', hlog', hevents'⟩ := htu
  refine ⟨events ++ events', ?_, List.forall_mem_append.2 ⟨hevents, hevents'⟩⟩
  rw [hlog', hlog, List.reverse_append, List.append_assoc]

/-- What has one property has every property that follows from it. -/
theorem Logs.imp {q : SessionEvent → Prop} (h : Logs p s t) (hpq : ∀ event, p event → q event) :
    Logs q s t := by
  obtain ⟨events, hlog, hevents⟩ := h
  exact ⟨events, hlog, fun event hevent => hpq event (hevents event hevent)⟩

/-- An event that was in the log is in it later. -/
theorem Logs.mem (h : Logs p s t) {event : SessionEvent} (hevent : event ∈ s.log) :
    event ∈ t.log := by
  obtain ⟨events, hlog, -⟩ := h
  rw [hlog]
  exact List.mem_append_right _ hevent

theorem log_print (s : Session) (line : String) : (s.print line).log = .printed line :: s.log := by
  rw [print_eq, foldl_putRow_eq]
  rfl

section

variable (hp : ∀ event : SessionEvent, event.showsInput = false → p event)
include hp

theorem print_logs (s : Session) (line : String) : Logs p s (s.print line) :=
  Logs.of_cons (s.log_print line) (hp _ rfl)

/-- Drawing the prompt row writes down at most that it was drawn over output. -/
theorem renderInput_logs (s : Session) : Logs p s s.renderInput := by
  refine ⟨s.drawn, s.log_renderInput, ?_⟩
  unfold drawn
  split
  · exact List.forall_mem_nil _
  · exact List.forall_mem_singleton.2 (hp _ rfl)

theorem edit_logs (s : Session) (change : Editor → Editor) : Logs p s (s.edit change) :=
  renderInput_logs hp { s with editor := change s.editor }

/-- Showing some input brings in the event that tells of it. -/
theorem shown_logs (s : Session) {event : SessionEvent} (hevent : p event)
    (change : Editor → Editor) : Logs p s ((s.record event).edit change) :=
  Logs.trans (Logs.of_cons rfl hevent) (edit_logs hp (s.record event) change)

theorem blink_logs (s : Session) : Logs p s s.blink := by
  unfold blink
  split
  · exact renderInput_logs hp { s with caretVisible := !s.caretVisible }
  · exact Logs.of_eq rfl

theorem clearScreen_logs (s : Session) : Logs p s s.clearScreen :=
  Logs.of_cons rfl (hp _ rfl)

theorem drawPrompt_logs (s : Session) : Logs p s s.drawPrompt := by
  rw [drawPrompt_eq, ensureRow_eq]
  exact renderInput_logs hp _

end

end Session

namespace Machine

open Session

variable {p : SessionEvent → Prop}
  (hp : ∀ event : SessionEvent, event.showsInput = false → p event)
include hp

/-- A boot writes down a wipe and what its steps print. -/
theorem runBoot_logs (m : Machine) (reboot : Bool) :
    Logs p m.session (m.runBoot reboot).session := by
  refine runBoot_induction ?_ (fun s line h => ?_) (fun s h => ?_) (fun s h => ?_) reboot
  · exact Logs.of_cons rfl (hp .wiped rfl)
  · exact h.trans (print_logs hp s line)
  · exact h.trans (blink_logs hp s)
  · exact h.trans (Logs.of_eq rfl)

theorem reboot_logs (m : Machine) : Logs p m.session m.reboot.session :=
  (runBoot_logs hp { m with session := m.session.stop } true).trans
    (drawPrompt_logs hp
      { (runBoot { m with session := m.session.stop } true).session with running := true })

end Machine

end SimTerm
