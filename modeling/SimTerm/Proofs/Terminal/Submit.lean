import SimTerm.Proofs.Commands.Steps
import SimTerm.Proofs.Shell.Output
import SimTerm.Terminal

/-!
# Submitting a line

A submitted line commits the input, runs, and draws a new prompt. `Submits` says what it does to the
session by the events of the line, which `submit_submits` finds: the committed row comes below the
output that was there, and the events go on from it.
-/

namespace SimTerm

open Session

/-! ## Committing the input -/

namespace Session

/-- The row that a committed line leaves on the screen. -/
def committedRow (s : Session) : Row :=
  Row.fit (s.prompt.toList ++ s.editor.input) s.screen.cols

/-- A session with its prompt on the grid. -/
structure AtPrompt (s : Session) : Prop where
  running : s.Running
  outRow_lt : s.outRow < s.screen.rows

/-- What committing the input does to the output. -/
structure Commits (s t : Session) : Prop where
  log : t.log = s.log
  rows : t.screen.rows = s.screen.rows
  cols : t.screen.cols = s.screen.cols
  running : t.Running
  outRow : t.outRow = min (s.outRow + 1) (s.screen.rows - 1)
  shows : ∀ seen, s.Shows seen → t.Shows (seen ++ [s.committedRow])

/-- The committed row below the output, before there is room for what follows. -/
def withCommitted (s : Session) : Session :=
  let line := String.ofList s.editor.input
  { s with
    caretVisible := true, editor := {}
    screen := (s.screen.setRow s.promptRow (s.prompt.toList ++ line.toList)).present
    outRow := s.outRow + 1 }

/-- Committing draws the committed row, makes room below it, and enters the line into the history.
-/
theorem commit_eq (s : Session) :
    s.commit.2 = { s.withCommitted.ensureRow with
      history := s.withCommitted.ensureRow.history.push (String.ofList s.editor.input) } :=
  rfl

/-- Committing writes no event down. -/
theorem log_commit (s : Session) : s.commit.2.log = s.log := by
  rw [commit_eq, ensureRow_eq]
  rfl

/-- The committed row is on the grid. -/
theorem withCommitted_sound {s : Session} (h : s.AtPrompt) : s.withCommitted.Sound := by
  have hprompt : s.promptRow = s.outRow := Nat.min_eq_left (by have := h.outRow_lt; omega)
  have hplaced := h.running.sound.place h.outRow_lt (s.prompt.toList ++ s.editor.input)
  refine ⟨?_, ?_⟩
  · rw [withCommitted, hprompt, String.toList_ofList]
    exact hplaced.screen.present
  · rw [withCommitted, hprompt, String.toList_ofList]
    exact hplaced.outRow_le

/-- The committed row comes below what was shown. -/
theorem withCommitted_shows {s : Session} (h : s.AtPrompt) {seen : List Row} (hseen : s.Shows seen) :
    s.withCommitted.Shows (seen ++ [s.committedRow]) := by
  have hprompt : s.promptRow = s.outRow := Nat.min_eq_left (by have := h.outRow_lt; omega)
  have hplaced := hseen.place h.running.sound h.outRow_lt (s.prompt.toList ++ s.editor.input)
  refine ⟨hplaced.enough, ?_⟩
  rw [rowsAbove, withCommitted, hprompt, String.toList_ofList]
  exact hplaced.above

/-- What committing does to the output. -/
theorem commit_commits {s : Session} (h : s.AtPrompt) : Commits s s.commit.2 := by
  have hsound := withCommitted_sound h
  have hrows : s.withCommitted.screen.rows = s.screen.rows := Screen.rows_setRow _ _ _
  have hready : s.withCommitted.ensureRow.Sound := hsound.ensureRow
  rw [commit_eq]
  refine ⟨s.log_commit, ?_, ?_, ⟨⟨hready.screen, hready.outRow_le⟩, ?_, ?_⟩, ?_,
    fun seen hseen => ?_⟩
  · exact (rows_ensureRow _).trans hrows
  · exact (cols_ensureRow _).trans (Screen.cols_setRow _ _ _)
  · rw [ensureRow_eq]
    exact h.running.running
  · rw [ensureRow_eq]
    exact h.running.bootMode
  · have hout : s.withCommitted.outRow = s.outRow + 1 := rfl
    have hlt := h.outRow_lt
    dsimp only
    -- one row further down, or scrolled up by one
    rw [outRow_ensureRow, hrows, hout]
    split <;> omega
  · have hshown := (withCommitted_shows h hseen).ensureRow hsound
    exact ⟨hshown.enough, hshown.above⟩

end Session

/-! ## Submitting -/

namespace Terminal

/-- A terminal with its prompt on the grid and the built-in commands. -/
structure AtPrompt (t : Terminal) : Prop where
  session : t.session.AtPrompt
  registry : t.registry = Commands.registry

/-- The session in which a submitted line is run. -/
def lineSession (t : Terminal) : Session :=
  { t.session.commit.2 with busy := true }

/-- The environment in which a submitted line is run. -/
def lineEnvironment (t : Terminal) : Environment :=
  let m := { t.machine with session := t.lineSession }
  { toMachine := if t.delay = 0 then m else m.sleep (UInt64.ofNat t.delay) }

theorem session_lineEnvironment (t : Terminal) : t.lineEnvironment.session = t.lineSession := by
  unfold lineEnvironment
  dsimp only
  split <;> rfl

theorem files_lineEnvironment (t : Terminal) : t.lineEnvironment.files = t.machine.files := by
  unfold lineEnvironment
  dsimp only
  split <;> rfl

/-- The environment that a submitted line leaves. -/
@[irreducible] def lineLeaves (t : Terminal) : Environment :=
  ((t.registry.execute t.session.commit.1).run t.lineEnvironment).2

/-- Submitting is committing, running the line, and drawing a prompt if the session still runs. -/
theorem submit_eq (t : Terminal) :
    t.submit.2 = { t with machine := { t.lineLeaves.toMachine with
      session :=
        let session := { t.lineLeaves.session with busy := false }
        if session.running then session.drawPrompt else session } } := by
  unfold submit lineLeaves lineEnvironment lineSession
  -- how a line is run does not matter here, and unfolding it would take long
  generalize t.registry.execute = execute
  rfl

/-- What a submitted line does to a terminal at its prompt. -/
structure Submits (events : List SessionEvent) (t u : Terminal) : Prop where
  atPrompt : u.AtPrompt
  log : u.session.log = events.reverse ++ t.session.log
  rows : u.session.screen.rows = t.session.screen.rows
  cols : u.session.screen.cols = t.session.screen.cols
  shows : .wiped ∉ events → ∀ seen, t.session.Shows seen →
    u.session.Shows (scroll t.session.screen.cols (seen ++ [t.session.committedRow]) events)
  overdrawn : .wiped ∉ events → ((∃ row, .overdrawn row ∈ events) ↔
    Late t.session.screen.rows t.session.screen.cols
      (min (t.session.outRow + 1) (t.session.screen.rows - 1)) events)

/-- Running a submitted line is told by some events. -/
theorem lineLeaves_follows {t : Terminal} (h : t.AtPrompt) :
    ∃ events, Follows events t.lineSession t.lineLeaves.session := by
  have hcommit := commit_commits h.session
  have hline : t.lineEnvironment.session.Running := by
    rw [session_lineEnvironment]
    exact ⟨⟨hcommit.running.sound.screen, hcommit.running.sound.outRow_le⟩,
      hcommit.running.running, hcommit.running.bootMode⟩
  have hleaves : t.lineEnvironment.FollowedBy t.lineLeaves := by
    rw [lineLeaves, h.registry]
    exact Registry.execute_keeps Commands.registry_stepwise _ _
  rw [← session_lineEnvironment]
  exact hleaves hline

/-- Where the session still runs after the line, a new prompt is drawn. -/
theorem session_submit {t : Terminal} (h : t.lineLeaves.session.running = true) :
    t.submit.2.session = drawPrompt { t.lineLeaves.session with busy := false } := by
  rw [submit_eq]
  exact if_pos h

/-- After the line a new prompt is drawn, or the session stands as the line left it. -/
theorem session_submit_cases (t : Terminal) :
    t.submit.2.session = drawPrompt { t.lineLeaves.session with busy := false } ∨
      t.submit.2.session = { t.lineLeaves.session with busy := false } := by
  by_cases h : t.lineLeaves.session.running = true
  · exact Or.inl (session_submit h)
  · right
    rw [submit_eq]
    exact if_neg h

theorem registry_submit (t : Terminal) : t.submit.2.registry = t.registry := by
  rw [submit_eq]

theorem files_submit (t : Terminal) : t.submit.2.machine.files = t.lineLeaves.files := by
  rw [submit_eq]

/-- Submitting a line is told by the events of the line and of the new prompt. -/
theorem submit_submits {t : Terminal} (h : t.AtPrompt) :
    ∃ events, Submits events t t.submit.2 := by
  have hcommit := commit_commits h.session
  obtain ⟨events, hevents⟩ := lineLeaves_follows h
  have hextends := hevents.toExtends
  -- the line, then the prompt, each told from what the one before it has left
  have hended : Sound { t.lineLeaves.session with busy := false } :=
    ⟨hextends.sound.screen, hextends.sound.outRow_le⟩
  have hprompt := drawPrompt_prompted hended
  rw [← session_submit hevents.running] at hprompt
  have hregistry := t.registry_submit.trans h.registry
  have hrows : t.lineSession.screen.rows = t.session.screen.rows := hcommit.rows
  have hcols : t.lineSession.screen.cols = t.session.screen.cols := hcommit.cols
  have hplace : t.lineSession.outRow = min (t.session.outRow + 1) (t.session.screen.rows - 1) :=
    hcommit.outRow
  have hatPrompt : t.submit.2.session.AtPrompt :=
    ⟨⟨hprompt.sound, hprompt.running.trans hevents.running,
      hprompt.bootMode.trans hevents.bootMode⟩, hprompt.outRow_lt⟩
  refine ⟨events, ⟨hatPrompt, hregistry⟩, ?_, hprompt.rows.trans (hextends.rows.trans hrows),
    hprompt.cols.trans (hextends.cols.trans hcols), fun hwiped seen hseen => ?_, fun hwiped => ?_⟩
  · rw [hprompt.log]
    exact hextends.log.trans (congrArg (events.reverse ++ ·) hcommit.log)
  · have hcommitted := hcommit.shows seen hseen
    have hshown := (hevents.scrolls hwiped).shows _ ⟨hcommitted.enough, hcommitted.above⟩
    rw [← hcols]
    exact hprompt.shows _ ⟨hshown.enough, hshown.above⟩
  · rw [← hplace, ← hrows, ← hcols]
    exact (hevents.scrolls hwiped).overdrawn

end Terminal

end SimTerm
