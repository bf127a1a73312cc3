import Mathlib.Algebra.Group.Nat.Even
import SimTerm.Proofs.Line.Cut
import SimTerm.Proofs.Shell.Nesting

/-!
# One line after the other

A semicolon outside quotes puts two lines into one, and the one does what the two do one after the
other: `execute_semicolon`. The parts of the two lines are the parts of the one, and a part does not
see where the line ended before it. The only thing that could tell is the input, which is put back
at the end of a line and not between parts; but every stage is given its own.
-/

namespace SimTerm

namespace Line

/-- A text that starts outside quotes ends there if its quotes are even in number. -/
theorem quotedAfter_eq_false_iff (text : List Char) :
    quotedAfter false text = false ↔ Even (text.count '"') := by
  induction text using List.reverseRecOn with
  | nil => simp [quotedAfter_nil]
  | append_singleton text c ih =>
    rw [quotedAfter_append, quotedAfter_singleton, List.count_append]
    by_cases hc : c = '"'
    · rw [if_pos hc, hc, List.count_singleton_self, Nat.even_add_one, ← ih]
      simp
    · rw [if_neg hc, List.count_singleton, beq_eq_false_iff_ne.2 hc]
      exact ih

/-- An unquoted separator cuts a text in two, and each is cut for itself. -/
theorem trimmedPieces_append_sep {sep : Char} (hsep : sep ≠ '"') {front : List Char}
    (h : quotedAfter false front = false) (back : List Char) :
    trimmedPieces sep (front ++ sep :: back) =
      trimmedPieces sep front ++ trimmedPieces sep back := by
  simp only [trimmedPieces, unquotedPieces_append_sep hsep h, List.map_append, List.filter_append]

/-- A semicolon behind a text with paired quotes cuts the line in two. -/
theorem parts_semicolon {a : String} (h : Even (a.toList.count '"')) (b : String) :
    parts (a ++ ";" ++ b) = parts a ++ parts b := by
  have hquoted := (quotedAfter_eq_false_iff a.toList).2 h
  have hline : (a ++ ";" ++ b).toList = a.toList ++ ';' :: b.toList := by simp
  rw [parts, hline, trimmedPieces_append_sep (by decide) hquoted, List.map_append, parts, parts]

/-- A quote that is not closed takes the semicolon in. -/
example : parts ("echo \"a" ++ ";" ++ "b\"") = ["echo \"a;b\""] := by
  decide

end Line

namespace Registry

section Parts

variable (reg : Registry) (d : Dispatcher)

/-- Parts can be run in two stretches, by induction on the first. -/
theorem runParts_append (ps qs : List String) :
    reg.runParts d (ps ++ qs) = (do
      let outcomes ← reg.runParts d ps
      let others ← reg.runParts d qs
      return outcomes ++ others) := by
  induction ps with
  | nil => simp only [runParts, List.nil_append, pure_bind, bind_pure]
  | cons part ps ih =>
    simp only [runParts, List.cons_append, ih, bind_assoc, pure_bind, List.append_assoc]

/-- It makes no difference to parts what the input was before, but it may be left as it was. -/
theorem run_runParts_stdin (stdin : String) {parts : List String} {e f : Environment}
    {outcomes : List Outcome} (h : (reg.runParts d parts).run e = (outcomes, f)) :
    ∃ left, (reg.runParts d parts).run { e with stdin } = (outcomes, { f with stdin := left }) := by
  induction parts generalizing outcomes with
  | nil =>
    cases h
    exact ⟨stdin, rfl⟩
  | cons part rest ih =>
    cases hstages : Line.stages part with
    | nil =>
      -- a part without stages is given nothing
      have hpart : reg.runParts d (part :: rest) = reg.runParts d rest := by
        simp [runParts, hstages, runStages]
      rw [hpart] at h ⊢
      exact ih h
    | cons stage stages =>
      -- the first stage is given an input of its own
      have hpart : (reg.runParts d (part :: rest)).run { e with stdin } =
          (reg.runParts d (part :: rest)).run e := by
        rw [runParts, hstages]
        rfl
      exact ⟨f.stdin, hpart.trans h⟩

/-- A line runs its parts and has the input from before after them. -/
theorem run_runLine {line : String} {e f : Environment} {outcomes : List Outcome}
    (h : (reg.runParts d (Line.parts line)).run e = (outcomes, f)) :
    (reg.runLine d line).run e = (outcomes, { f with stdin := e.stdin }) := by
  have hget : (get : Shell Environment).run e = (e, e) := rfl
  rw [runLine, Shell.run_bind_of_run hget, Shell.run_bind_of_run h]
  rfl

/-- A line with an unquoted semicolon is run as two lines, one after the other. -/
theorem runLine_semicolon {a : String} (h : Even (a.toList.count '"')) (b : String) :
    reg.runLine d (a ++ ";" ++ b) = (do
      let first ← reg.runLine d a
      let second ← reg.runLine d b
      return first ++ second) := by
  refine StateT.ext fun e => ?_
  rcases hfirst : (reg.runParts d (Line.parts a)).run e with ⟨first, f⟩
  rcases hsecond : (reg.runParts d (Line.parts b)).run f with ⟨second, g⟩
  have hboth : (reg.runParts d (Line.parts (a ++ ";" ++ b))).run e = (first ++ second, g) := by
    rw [Line.parts_semicolon h, runParts_append, Shell.run_bind_of_run hfirst,
      Shell.run_bind_of_run hsecond]
    rfl
  obtain ⟨left, hsecond'⟩ := reg.run_runParts_stdin d e.stdin hsecond
  -- what the second line left of the input is put back in either case
  calc (reg.runLine d (a ++ ";" ++ b)).run e = (first ++ second, { g with stdin := e.stdin }) :=
        reg.run_runLine d hboth
    _ = _ := by
      rw [Shell.run_bind_of_run (reg.run_runLine d hfirst),
        Shell.run_bind_of_run (reg.run_runLine d hsecond')]
      rfl

end Parts

/-- A line of two lines with a semicolon between them, at any depth. -/
theorem executeWithin_semicolon (reg : Registry) (depth : Nat) {a : String}
    (h : Even (a.toList.count '"')) (b : String) :
    reg.executeWithin depth (a ++ ";" ++ b) = (do
      let first ← reg.executeWithin depth a
      let second ← reg.executeWithin depth b
      return first ++ second) := by
  cases depth with
  | zero => rfl
  | succ depth => exact reg.runLine_semicolon _ h b

/-- Two lines with a semicolon between them do what the two do one after the other, to all of the
environment, if the first closes its quotes; and the outcomes are those of the first and then those
of the second. -/
theorem execute_semicolon (reg : Registry) {a : String} (h : Even (a.toList.count '"')) (b : String)
    (e : Environment) :
    (reg.execute (a ++ ";" ++ b)).run e =
      let (first, f) := (reg.execute a).run e
      let (second, g) := (reg.execute b).run f
      (first ++ second, g) :=
  congrFun (reg.executeWithin_semicolon nesting h b) e

/-- A line with a semicolon in quotes and a pipe, and a line that runs a script. -/
theorem execute_semicolon_script :
    let a := "echo \"x;y\" | clip"
    let b := "cmd run /s"
    let e := Environment.entered selfCalling
    Even (a.toList.count '"') ∧
      (Commands.registry.execute (a ++ ";" ++ b)).run e =
        let (first, f) := (Commands.registry.execute a).run e
        let (second, g) := (Commands.registry.execute b).run f
        (first ++ second, g) := by
  intro a b e
  have hquotes : Even (a.toList.count '"') := by decide
  exact ⟨hquotes, execute_semicolon Commands.registry hquotes b e⟩

end Registry

end SimTerm
