import SimTerm.Proofs.FileSystem.Contents
import SimTerm.Proofs.Session.SingleLine
import SimTerm.Proofs.Shell.Budget

/-!
# Machines of single lines

A machine is one of single lines if its session is, if no file holds a carriage return, and if all
targets of bookmarks are unbroken. Built-in commands have no other texts to make directories, file
contents and bookmarks of than these and their arguments; the one text that comes from elsewhere is
what a paste inserts. So an unbroken line keeps a machine one of single lines unless it pastes a
text with a line break, and the log tells all texts that were pasted: `singleLine_law`.
-/

namespace SimTerm

open Commands Text

/-- All texts that were pasted are unbroken. -/
def Session.PastesUnbroken (s : Session) : Prop :=
  ∀ text, SessionEvent.pasted text ∈ s.log → Unbroken text.toList

/-- The event pastes no text with a line break. -/
def SessionEvent.pastesUnbroken : SessionEvent → Bool
  | .pasted text => decide (Unbroken text.toList)
  | _ => true

instance (s : Session) : Decidable s.PastesUnbroken :=
  decidable_of_iff (s.log.all SessionEvent.pastesUnbroken = true) <| by
    rw [List.all_eq_true]
    refine ⟨fun h text htext => of_decide_eq_true (h _ htext), fun h event hevent => ?_⟩
    cases event with
    | pasted text => exact decide_eq_true (h text hevent)
    | _ => rfl

namespace Machine

/-- The texts of the machine that lines are made of are unbroken. -/
structure SingleLine (m : Machine) : Prop where
  session : m.session.SingleLine
  files : m.files.Holds (fun target => Unbroken target.toList) ReturnFree

/-- A reboot keeps a machine of single lines. -/
theorem SingleLine.reboot {m : Machine} (h : m.SingleLine) : m.reboot.SingleLine :=
  ⟨reboot_singleLine h.session, (files_reboot m).symm ▸ h.files⟩

/-- The second machine goes on from the first: the log has grown, and if all that was ever pasted
and all these texts are unbroken, a machine of single lines has stayed one. -/
structure Continues (texts : List String) (m n : Machine) : Prop where
  logs : Session.Logs (fun _ => True) m.session n.session
  singleLine (hpastes : n.session.PastesUnbroken) (htexts : ∀ text ∈ texts, Unbroken text.toList)
    (h : m.SingleLine) : n.SingleLine

namespace Continues

variable {texts : List String} {m n o : Machine}

theorem refl (texts : List String) (m : Machine) : Continues texts m m :=
  ⟨Session.Logs.of_eq rfl, fun _ _ h => h⟩

/-- What goes on in two parts goes on. -/
theorem trans (hmn : Continues texts m n) (hno : Continues texts n o) : Continues texts m o where
  logs := hmn.logs.trans hno.logs
  singleLine hpastes htexts h :=
    hno.singleLine hpastes htexts
      (hmn.singleLine (fun text htext => hpastes text (hno.logs.mem htext)) htexts h)

/-- Other texts will do if these are unbroken whenever the others are. -/
theorem of_texts {others : List String} (h : Continues texts m n)
    (htexts : (∀ text ∈ others, Unbroken text.toList) → ∀ text ∈ texts, Unbroken text.toList) :
    Continues others m n :=
  ⟨h.logs, fun hpastes hothers => h.singleLine hpastes (htexts hothers)⟩

end Continues

end Machine

namespace Environment

/-- To be of single lines, as something to keep up: arguments and paths are unbroken, and contents
have no carriage return. -/
def singleLine : Upkeep :=
  ⟨fun e => e.toMachine.SingleLine, fun arg => Unbroken arg.toList,
    fun path => Unbroken path.toList, ReturnFree⟩

/-- Ordinary steps keep single lines: what is printed is seen, but goes neither into the input nor
into the files. -/
theorem singleLine_sound : singleLine.Sound where
  step {e f} h he := by
    cases h with
    | print line => exact ⟨he.session.print line, he.files⟩
    | clearScreen => exact ⟨he.session.clearScreen, he.files⟩
    | changeDir h => exact ⟨he.session.changeDir h, he.files⟩
    | files h => exact ⟨he.session, he.files.change List.not_mem_nil h⟩
    | clip text clipboard hwrite => exact ⟨he.session, he.files⟩
  homeSign := (by decide : Unbroken "~".toList)
  here he := he.session.cwd
  previous he := he.session.previousDir
  resolved he _ hinput :=
    Path.resolve_unbroken he.files.targets he.session.user he.session.cwd hinput
  edited {e} he path place words ls hwords hls := by
    refine editLines?_returnFree ?_ hwords hls
    cases hread : e.files.read? path with
    | none => exact List.not_mem_nil
    | some content => exact he.files.read hread

/-- Captures and reboots keep single lines as well. -/
theorem singleLine_bootable : singleLine.Bootable where
  toSound := singleLine_sound
  captured he := ⟨⟨he.session.input, he.session.surroundings⟩, he.files⟩
  uncaptured {e} he := by
    have hsession : e.uncaptured.session.SingleLine := by
      rw [uncaptured, endCapture_eq]
      exact ⟨he.session.input, he.session.surroundings⟩
    exact ⟨hsession, he.files⟩
  reboot he := he.reboot
  reset {e} he := ⟨he.session, .reset e.files⟩

/-- A paste brings its text into the log, and keeps single lines if that text is unbroken. -/
theorem runStage_paste_continues {d : Dispatcher} {stage : String} {args : List String}
    {e f : Environment} {outcome : Outcome} (htokens : Line.tokens stage = "paste" :: args)
    (hrun : (registry.runStage d stage).run e = (outcome, f)) (hpastes : f.session.PastesUnbroken)
    (he : e.toMachine.SingleLine) : f.toMachine.SingleLine := by
  have hcaptured : e.captured.toMachine.SingleLine := singleLine_bootable.captured he
  rcases runStage_paste_cases htokens hrun with ⟨failure, hended⟩ | ⟨text, -, hended⟩
  · have hkept := singleLine_bootable.concluded hcaptured "paste" (.error failure)
    rwa [hended] at hkept
  · -- the text stands in the log when the stage is over, so the hypothesis is about it
    have hlogged := (concluded_quiet "paste" (.ok ()) (e.captured.pasted text)).log
    rw [hended] at hlogged
    have htext : Unbroken text.toList := by
      refine hpastes text (hlogged.mem ?_)
      have hpasted : Session.Logs (fun _ => True) (e.captured.session.record (.pasted text))
          (e.captured.pasted text).session := Session.edit_logs (fun _ _ => trivial) _ _
      exact hpasted.mem List.mem_cons_self
    have hpasted : (e.captured.pasted text).toMachine.SingleLine :=
      ⟨hcaptured.session.paste htext, hcaptured.files⟩
    have hkept := singleLine_bootable.concluded hpasted "paste" (.ok ())
    rwa [hended] at hkept

end Environment

/-- A line keeps a machine one of single lines if it is unbroken and pastes only unbroken texts. -/
theorem singleLine_law : CourseLaw fun texts _ e _ f =>
    Machine.Continues texts e.toMachine f.toMachine where
  refl texts _ e := .refl texts e.toMachine
  trans hef hfg := hef.trans hfg
  stdin texts _ e _ := .refl texts e.toMachine
  oneOf htext hef := hef.of_texts fun htexts => List.forall_mem_singleton.2 (htexts _ htext)
  stageOf hpart hstage hef := by
    refine hef.of_texts fun hline => List.forall_mem_singleton.2 ?_
    have hpartUnbroken := (List.forall_mem_singleton.1 hline).subset
      (Line.subset_of_mem_parts hpart)
    exact hpartUnbroken.subset (Line.subset_of_mem_stages hstage)
  runs {line lines scripts e} hline _ := by
    refine ⟨?_, fun _ htexts he => ⟨he.session.echo (htexts line hline), he.files⟩⟩
    exact Session.shown_logs (fun _ _ => trivial) e.session trivial fun _ => Editor.echo line.toList
  stage {d stage scripts e f outcome} hscript hrun := by
    have hlogs := (Environment.runStage_quiet (d := d) hscript).log
    rw [hrun] at hlogs
    refine ⟨hlogs.imp fun _ _ => trivial, fun hpastes hstage he => ?_⟩
    by_cases hpaste : (Line.tokens stage).head? = some "paste"
    · obtain ⟨args, htokens⟩ : ∃ args, Line.tokens stage = "paste" :: args :=
        List.head?_eq_some_iff.1 hpaste
      exact Environment.runStage_paste_continues htokens hrun hpastes he
    · have hkept := Environment.singleLine_bootable.runStage (d := d) hscript hpaste
        (fun token htoken => (List.forall_mem_singleton.1 hstage).subset
          (Line.subset_of_mem_tokens htoken)) he
      rwa [hrun] at hkept
  script {stage args lines scripts e f g a result outcome} _ hlines hinside hends := by
    have hended := (Environment.concluded_quiet "cmd" result g.shallower).log
    rw [hends] at hended
    have hstarted : Session.Logs (fun _ => True) e.session e.captured.deeper.session :=
      Session.Logs.of_eq rfl
    refine ⟨(hstarted.trans hinside.logs).trans (hended.imp fun _ _ => trivial),
      fun hpastes _ he => ?_⟩
    -- the lines come from a file, and no file holds a carriage return
    obtain ⟨-, path, source, hread, rfl⟩ := scriptToRun_eq_ok hlines
    have hscript : ∀ line ∈ scriptLines source, Unbroken line.toList := fun line hline =>
      scriptLines_unbroken (he.files.read hread) hline
    have hinner : g.toMachine.SingleLine :=
      hinside.singleLine (fun text htext => hpastes text (hended.mem htext)) hscript
        (Environment.singleLine_bootable.captured he)
    have hkept := Environment.singleLine_bootable.concluded (e := g.shallower) hinner "cmd" result
    rwa [hends] at hkept

end SimTerm
