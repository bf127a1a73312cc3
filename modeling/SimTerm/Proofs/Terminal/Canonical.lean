import SimTerm.Proofs.FileSystem.Contents
import SimTerm.Proofs.Path.Canonical
import SimTerm.Proofs.Shell.Lasting
import SimTerm.Proofs.Terminal.InStep

/-!
# Directories stay canonical

The working directory comes from an input that was resolved, an input is resolved against the
working directory and the bookmarks, and bookmarks are put where inputs were resolved to. So neither
can lose its form unless the other has lost it before: if a terminal starts in a canonical directory
with bookmarks of canonical paths only, then however it is used, and whatever the storage refuses,
its working directory, the directory left last and the targets of its bookmarks are canonical:
`directories_canonical`.
-/

namespace SimTerm

open Commands SimTerm.Path

namespace Machine

/-- The directories of the session and the targets of the bookmarks are canonical. -/
structure Canonical (m : Machine) : Prop where
  cwd : IsCanonical m.session.cwd
  previousDir : ∀ dir, m.session.previousDir = some dir → IsCanonical dir
  files : m.files.Holds IsCanonical fun _ => True

variable {m n : Machine}

/-- A session that stays keeps its directories. -/
theorem Canonical.of_stays (h : m.Canonical) (hsession : m.session.Stays n.session)
    (hfiles : n.files = m.files) : n.Canonical :=
  ⟨hsession.cwd ▸ h.cwd, hsession.previousDir ▸ h.previousDir, hfiles ▸ h.files⟩

/-- The directory that is gone back to is canonical, the root included. -/
theorem Canonical.previous (h : m.Canonical) : IsCanonical (m.session.previousDir.getD "/") := by
  cases hprevious : m.session.previousDir with
  | none => exact root_canonical
  | some dir => exact h.previousDir dir hprevious

/-- Entering a canonical directory keeps the machine canonical. -/
theorem Canonical.changeDir (h : m.Canonical) {dir : String} (hdir : IsCanonical dir) :
    Canonical { m with session := m.session.changeDir dir } := by
  refine ⟨hdir, fun left hleft => ?_, h.files⟩
  obtain rfl : m.session.cwd = left := Option.some.inj hleft
  exact h.cwd

/-- A reboot enters no directory. -/
theorem Canonical.reboot (h : m.Canonical) : m.reboot.Canonical :=
  h.of_stays m.reboot_stays (files_reboot m)

end Machine

/-! ## Lines -/

namespace Environment

/-- To have canonical directories and bookmarks, as something to keep up. -/
def canonical : Upkeep :=
  ⟨fun e => e.toMachine.Canonical, fun _ => True, IsCanonical, fun _ => True⟩

/-- Ordinary steps keep directories and bookmarks canonical: every path that is resolved is
canonical. -/
theorem canonical_sound : canonical.Sound where
  step {e f} h he := by
    cases h with
    | print line => exact he.of_stays (e.session.print_steady line).toStays rfl
    | clearScreen => exact he.of_stays e.session.clearScreen_steady.toStays rfl
    | changeDir hdir => exact he.changeDir hdir
    | files hc => exact ⟨he.cwd, he.previousDir, he.files.change trivial hc⟩
    | clip text clipboard hwrite => exact he.of_stays (.refl e.session) rfl
  homeSign := trivial
  here he := he.cwd
  previous he := he.previous
  resolved he input _ := resolve_canonical he.files.targets he.cwd _ input
  edited _ _ _ _ _ _ _ := trivial

/-- So do captures, reboots, and pastes. -/
theorem canonical_lasting : canonical.Lasting where
  toSound := canonical_sound
  captured he := ⟨he.cwd, he.previousDir, he.files⟩
  uncaptured {e} he := by
    have hsession : e.uncaptured.session = { e.session with captures := e.session.captures.tail } :=
      endCapture_eq e.session
    exact ⟨hsession ▸ he.cwd, hsession ▸ he.previousDir, he.files⟩
  reboot he := he.reboot
  reset {e} he := ⟨he.cwd, he.previousDir, .reset e.files⟩
  machine {e f} he h := by
    show f.toMachine.Canonical
    rw [h]
    exact he
  arg _ := trivial
  shown {e} he event change :=
    he.of_stays (e.session.recorded_edit_steady event change).toStays rfl

end Environment

namespace Terminal

/-! ## Calls -/

/-- A terminal with the built-in commands, and canonical directories and bookmarks. -/
structure Canonical (t : Terminal) : Prop where
  registry : t.registry = Commands.registry
  machine : t.machine.Canonical

variable {t : Terminal}

/-- A call that only changes the session, and lets it stay. -/
theorem Canonical.onSession (h : t.Canonical) {change : Session → Session}
    (hstays : t.session.Stays (change t.session)) : (t.onSession change).Canonical :=
  ⟨h.registry, h.machine.of_stays hstays rfl⟩

theorem lineEnvironment_canonical (h : t.machine.Canonical) :
    t.lineEnvironment.toMachine.Canonical := by
  have hcommit := t.session.commit_steady
  refine ⟨?_, ?_, t.files_lineEnvironment ▸ h.files⟩
  · rw [session_lineEnvironment]
    exact hcommit.cwd ▸ h.cwd
  · rw [session_lineEnvironment]
    exact hcommit.previousDir ▸ h.previousDir

theorem lineLeaves_canonical (h : t.Canonical) : t.lineLeaves.toMachine.Canonical := by
  rw [lineLeaves, h.registry]
  exact Environment.canonical_lasting.execute _ (lineEnvironment_canonical h.machine)

theorem Canonical.submit (h : t.Canonical) : t.submit.2.Canonical := by
  have hline := lineLeaves_canonical h
  have hregistry := t.registry_submit.trans h.registry
  have hended : Machine.Canonical { t.lineLeaves.toMachine with
      session := { t.lineLeaves.session with busy := false } } :=
    ⟨hline.cwd, hline.previousDir, hline.files⟩
  refine ⟨hregistry, hended.of_stays ?_ t.files_submit⟩
  show Session.Stays _ t.submit.2.session
  rcases t.session_submit_cases with hsession | hsession
  · rw [hsession]
    exact (Session.drawPrompt_steady _).toStays
  · rw [hsession]
    exact .refl _

theorem Canonical.press (h : t.Canonical) (p : KeyPress) : (t.press p).Canonical := by
  have hclear : (t.onSession fun s => s.clearScreen.drawPrompt).Canonical :=
    h.onSession (t.session.clearScreen_steady.trans (Session.drawPrompt_steady _)).toStays
  exact press_induction (P := Terminal.Canonical) p ⟨h.registry, h.machine.reboot⟩ h hclear h.submit
    (h.onSession (editKey_editsLine p t.session).toStays)

/-- Typing keeps the terminal canonical, by induction on the text. -/
theorem Canonical.type (h : t.Canonical) (text : String) : (t.type text).Canonical :=
  type_induction (fun _ p hcanonical => hcanonical.press p) h text

theorem Canonical.runLine (h : t.Canonical) (line : String) : (t.runLine line).2.Canonical := by
  unfold Terminal.runLine
  split
  · exact (h.type line).submit
  · exact h

theorem Canonical.resize (h : t.Canonical) (rows cols : Nat) : (t.resize rows cols).Canonical := by
  refine h.onSession ?_
  dsimp only
  split
  · exact (t.session.resize_steady rows cols).toStays.trans (Session.renderInput_steady _).toStays
  · exact (t.session.resize_steady rows cols).toStays

/-! ## Every use -/

/-- However a canonical terminal is used, it stays canonical. -/
theorem Used.canonical {start : Terminal} (h : Used start t) (hstart : start.Canonical) :
    t.Canonical := by
  induction h with
  | refl => exact hstart
  | press _ p ih => exact ih.press p
  | type _ text ih => exact ih.type text
  | runLine _ line ih => exact ih.runLine line
  | blink _ ih => exact ih.onSession (Session.blink_steady _).toStays
  | resize _ rows cols ih => exact ih.resize rows cols
  | outside _ now jitter clipboard ih =>
    have hfiles := ih.machine.files
    exact ⟨ih.registry, ih.machine.cwd, ih.machine.previousDir,
      ⟨hfiles.isTree, hfiles.sorted, hfiles.targets, hfiles.contents⟩⟩

/-- Powering on enters no directory. -/
theorem Canonical.powerOn (h : t.Canonical) : t.powerOn.Canonical := by
  have hbooted : Canonical { t with machine := t.machine.runBoot false } :=
    ⟨h.registry, h.machine.of_stays (t.machine.runBoot_stays false) (Machine.files_runBoot _ _)⟩
  unfold Terminal.powerOn
  split
  · exact hbooted.onSession (Session.start_stays _)
  · exact h.onSession (Session.start_stays _)

/-- A terminal on canonical bookmarks starts out canonical if its first directory is. -/
theorem ofSettings_canonical {settings : Settings} {storage : Storage} {now : Millis}
    (hdir : IsCanonical settings.startDir)
    (hmarks : ∀ mark ∈ (FileSystem.open storage now (treeOptions settings)).bookmarks,
      IsCanonical mark.2)
    (clipboard : Clipboard) (boot : BootSequence) (frames : List Grid) (pauses : List Pause)
    (zone : Calendar.Zone) :
    (ofSettings settings storage now clipboard boot frames pauses zone).Canonical :=
  ⟨rfl, hdir, fun _ hnone => (nomatch hnone),
    ⟨FileSystem.open_isTree storage now (treeOptions settings),
      FileSystem.open_bookmarks_sorted storage now (treeOptions settings), hmarks,
      fun _ _ _ _ => trivial⟩⟩

/-- A terminal starts in a canonical directory and loads bookmarks of canonical paths only. Whether
or not it was powered on, and however it is used then, with a storage that may refuse any call: the
working directory, the directory left last, and the targets of all bookmarks are canonical. -/
theorem directories_canonical {settings : Settings} {storage : Storage} {now : Millis}
    {clipboard : Clipboard} {boot : BootSequence} {frames : List Grid} {pauses : List Pause}
    {zone : Calendar.Zone} {t : Terminal} (hdir : IsCanonical settings.startDir)
    (hmarks : ∀ mark ∈ (FileSystem.open storage now (treeOptions settings)).bookmarks,
      IsCanonical mark.2)
    (h : Used (ofSettings settings storage now clipboard boot frames pauses zone) t ∨
      Used (powerOn (ofSettings settings storage now clipboard boot frames pauses zone)) t) :
    IsCanonical t.session.cwd ∧
      (∀ dir, t.session.previousDir = some dir → IsCanonical dir) ∧
      ∀ mark ∈ t.machine.files.bookmarks, IsCanonical mark.2 := by
  have hstart := ofSettings_canonical hdir hmarks clipboard boot frames pauses zone
  have hkept : t.Canonical := by
    rcases h with hstopped | hpowered
    · exact hstopped.canonical hstart
    · exact hpowered.canonical hstart.powerOn
  exact ⟨hkept.machine.cwd, hkept.machine.previousDir, hkept.machine.files.targets⟩

/-- A storage with a bookmark in it, which does not take a tree. -/
def marking : Storage :=
  { texts := [(bookmarksKey, Bookmarks.encode [("a", "/home/guest")])]
    refusal := fun call key _ => if call = .save ∧ key = treeKey then some "no" else none }

/-- Paths with doubled slashes and dots are typed, and a bookmark is put where another one is. -/
theorem directories_canonical_marked :
    let settings : Settings := { rows := 12, cols := 40, boot := false, execDelay := 0 }
    let start := powerOn (ofSettings settings marking 0 .denied BootSequence.silent [] [])
    let t := (start.runLine "cd ~; cd ..//./; mark b @a; back; jump @b; mark c ../").2
    (FileSystem.open marking 0 (treeOptions settings)).bookmarks = [("a", "/home/guest")] ∧
      t.session.cwd = "/home/guest" ∧ t.session.previousDir = some "/home/guest" ∧
      t.machine.files.bookmarks = [("a", "/home/guest"), ("b", "/home/guest"), ("c", "/home")] ∧
      IsCanonical t.session.cwd ∧ ∀ mark ∈ t.machine.files.bookmarks, IsCanonical mark.2 := by
  intro settings start t
  have hmarks : (FileSystem.open marking 0 (treeOptions settings)).bookmarks =
      [("a", "/home/guest")] := by decide +kernel
  have hused : Used start t := .runLine .refl _
  have hkept := directories_canonical root_canonical (hmarks ▸ (by decide)) (Or.inr hused)
  -- the line is run once for all that it leaves
  have hended : (t.session.cwd, t.session.previousDir, t.machine.files.bookmarks) =
      ("/home/guest", some "/home/guest",
        [("a", "/home/guest"), ("b", "/home/guest"), ("c", "/home")]) := by decide +kernel
  obtain ⟨hcwd, hothers⟩ := Prod.mk.inj hended
  obtain ⟨hprevious, hbookmarks⟩ := Prod.mk.inj hothers
  exact ⟨hmarks, hcwd, hprevious, hbookmarks, hkept.1, hkept.2.2⟩

end Terminal

end SimTerm
