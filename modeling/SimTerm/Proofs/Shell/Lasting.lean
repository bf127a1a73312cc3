import SimTerm.Proofs.Shell.Course

/-!
# What whole lines keep up

An upkeep of the machine alone that grants every argument, and that neither captures nor reboots nor
a line shown as the input can end, is *lasting*: a line keeps it, whatever is typed and whatever is
pasted, the lines of scripts included, however deeply they are nested: `Lasting.execute`.
-/

namespace SimTerm.Upkeep

open Commands

/-- The upkeep has to do with the machine only, grants every argument, and does not mind an event
that is written down before the input is edited. -/
structure Lasting (U : Upkeep) : Prop extends U.Bootable where
  machine {e f : Environment} (he : U.holds e) (h : f.toMachine = e.toMachine) : U.holds f
  arg (text : String) : U.arg text
  shown {e : Environment} (he : U.holds e) (event : SessionEvent) (change : Editor → Editor) :
    U.holds { e with session := (e.session.record event).edit change }

variable {U : Upkeep} {d : Dispatcher} {stage : String} {e : Environment}

theorem Lasting.pasted (hU : U.Lasting) (he : U.holds e) (text : String) :
    U.holds (e.pasted text) :=
  hU.shown he (.pasted text) (·.paste text.toList)

/-- A script line is charged, which is no matter of the machine, and shown. -/
theorem Lasting.lineBegun (hU : U.Lasting) (he : U.holds e) (line : String) :
    U.holds (e.lineBegun line) :=
  hU.machine (hU.shown he (.echoed line) fun _ => Editor.echo line.toList) rfl

/-- A stage that runs no script. -/
theorem Lasting.runStage (hU : U.Lasting) (hscript : scriptOf? stage e = none) (he : U.holds e) :
    U.holds ((registry.runStage d stage).run e).2 := by
  by_cases hpaste : (Line.tokens stage).head? = some "paste"
  · obtain ⟨args, htokens⟩ : ∃ args, Line.tokens stage = "paste" :: args :=
      List.head?_eq_some_iff.1 hpaste
    rcases runStage_paste_cases (d := d) (e := e) htokens rfl with
      ⟨failure, hended⟩ | ⟨text, -, hended⟩
    · have hkept := hU.concluded (hU.captured he) "paste" (.error failure)
      rwa [hended] at hkept
    · have hkept := hU.concluded (hU.pasted (hU.captured he) text) "paste" (.ok ())
      rwa [hended] at hkept
  · exact hU.toBootable.runStage hscript hpaste (fun token _ => hU.arg token) he

/-- Every stretch of a line keeps a lasting upkeep. -/
theorem Lasting.law (hU : U.Lasting) : CourseLaw fun _ _ e _ f => U.holds e → U.holds f where
  refl _ _ _ := id
  trans hef hfg he := hfg (hef he)
  stdin _ _ _ _ he := hU.machine he rfl
  oneOf _ hef := hef
  stageOf _ _ hef := hef
  runs {line _ _ _} _ _ he := hU.lineBegun he line
  stage {d stage scripts e f outcome} hscript hrun he := by
    have hkept := hU.runStage (d := d) hscript he
    rwa [hrun] at hkept
  script {stage args lines scripts e f g a result outcome} _ _ hinside hends he := by
    -- one script deeper inside the capture, and as deep as before when it ends
    have hinner : U.holds g := hinside (hU.machine (hU.captured he) rfl)
    have hkept := hU.concluded (e := g.shallower) (hU.machine hinner rfl) "cmd" result
    rwa [hends] at hkept

/-- Whatever line of built-in commands is run, it keeps a lasting upkeep. -/
theorem Lasting.execute (hU : U.Lasting) (line : String) (he : U.holds e) :
    U.holds ((registry.execute line).run e).2 :=
  hU.law.line Registry.nesting 0 line e he

end SimTerm.Upkeep
