import SimTerm.Proofs.Line.Cut

/-!
# One scan of a line

The three cuts of a line come to one scan from left to right, of the line without the blank
characters at its end: `parse_eq_scan`. The scan keeps one flag for quotes. Outside quotes a
semicolon ends the part, a bar ends the stage and a blank character ends the token; a quote turns
the flag, and every other character goes to the token. An empty token is none, and neither is a
stage or a part that held blank characters only.

The scan stands in a stage of a part of the line, and what it holds is told for each of the three:
`ReadsStage`, `ReadsPart` and `ReadsLine`. One character carries all three on.
-/

namespace SimTerm.Line

open Text

/-- What a scan has read. -/
structure Scan where
  /-- The parts that have ended. -/
  parts : List (List (List String)) := []
  /-- The stages that have ended in this part. -/
  stages : List (List String) := []
  /-- The tokens that have ended in this stage. -/
  tokens : List String := []
  /-- The token so far. -/
  token : List Char := []
  quoted : Bool := false
  /-- The stage has held blank characters only. -/
  stageBlank : Bool := true
  /-- The part has held blank characters only. -/
  partBlank : Bool := true

namespace Scan

/-- End the token, if there is one. -/
def endToken (s : Scan) : Scan :=
  if s.token = [] then s
  else { s with tokens := s.tokens ++ [String.ofList s.token], token := [] }

/-- End the stage. -/
def endStage (s : Scan) : Scan :=
  let tokens := s.endToken.tokens
  { s with stages := if s.stageBlank then s.stages else s.stages ++ [tokens]
           tokens := [], token := [], stageBlank := true }

/-- End the part. -/
def endPart (s : Scan) : Scan :=
  let stages := s.endStage.stages
  { s.endStage with parts := if s.partBlank then s.parts else s.parts ++ [stages]
                    stages := [], partBlank := true }

/-- Turn the flag for quotes. -/
def quote (s : Scan) : Scan :=
  { s with quoted := !s.quoted, stageBlank := false, partBlank := false }

/-- Put a character behind the token. -/
def put (s : Scan) (c : Char) : Scan :=
  { s with token := s.token ++ [c], stageBlank := s.stageBlank && isBlank c
           partBlank := s.partBlank && isBlank c }

/-- Read a character. -/
def step (s : Scan) (c : Char) : Scan :=
  if c = '"' then s.quote
  else if s.quoted then s.put c
  else if c = ';' then s.endPart
  else if c = '|' then { s.endStage with partBlank := false }
  else if isBlank c then s.endToken
  else s.put c

/-- Ending a token changes the tokens and nothing else. -/
theorem endToken_eq (s : Scan) :
    s.endToken = { s with tokens := s.endToken.tokens, token := [] } := by
  unfold endToken
  split
  · next h => rw [← h]
  · rfl

end Scan

/-- The parts, stages and tokens that a scan reads. -/
def scan (text : List Char) : List (List (List String)) :=
  (text.foldl Scan.step {}).endPart.parts

/-! ## Reading a stage -/

/-- The scan has read this much of a stage. -/
structure ReadsStage (stage : List Char) (s : Scan) : Prop where
  pieces : ∃ done, tokenPieces false stage = done ++ [s.token] ∧
    s.tokens = (done.filter (· ≠ [])).map String.ofList
  quoted : s.quoted = quotedAfter false stage
  blank : s.stageBlank = allBlank stage

theorem allBlank_concat (text : List Char) (c : Char) :
    allBlank (text ++ [c]) = (allBlank text && isBlank c) := by
  simp [allBlank]

namespace ReadsStage

variable {stage : List Char} {s : Scan}

/-- A stage begins outside quotes and without a token. -/
theorem nil (hquoted : s.quoted = false) (htokens : s.tokens = []) (htoken : s.token = [])
    (hblank : s.stageBlank = true) : ReadsStage [] s :=
  ⟨⟨[], by rw [htoken]; rfl, htokens⟩, hquoted, hblank⟩

/-- When the stage ends here, the scan has all its tokens. -/
theorem endToken_tokens (h : ReadsStage stage s) : s.endToken.tokens = tokensOf stage := by
  obtain ⟨done, hpieces, htokens⟩ := h.pieces
  rw [tokensOf, hpieces, List.filter_append, List.map_append, ← htokens, Scan.endToken]
  split
  · next hempty => simp [hempty]
  · next hempty => simp [hempty]

/-- A quote goes to no token and turns the flag. -/
theorem quote (h : ReadsStage stage s) : ReadsStage (stage ++ ['"']) s.quote := by
  obtain ⟨done, hpieces, htokens⟩ := h.pieces
  refine ⟨⟨done, ?_, htokens⟩, ?_, ?_⟩
  · rw [tokenPieces_concat_quote, hpieces]
    rfl
  · rw [quotedAfter_append, quotedAfter_singleton, if_pos rfl, ← h.quoted]
    rfl
  · rw [allBlank_concat, Bool.and_eq_false_iff.2 (Or.inr (by decide))]
    rfl

/-- An unquoted blank character ends the token. -/
theorem endToken (h : ReadsStage stage s) {c : Char} (hc : isBlank c = true)
    (hquoted : s.quoted = false) : ReadsStage (stage ++ [c]) s.endToken := by
  have hdone := h.endToken_tokens
  rw [s.endToken_eq]
  refine ⟨⟨tokenPieces false stage, ?_, hdone⟩, ?_, ?_⟩
  · exact tokenPieces_concat_blank hc (h.quoted.symm.trans hquoted)
  · rw [quotedAfter_concat_of_isBlank hc]
    exact h.quoted
  · rw [allBlank_concat, hc, Bool.and_true]
    exact h.blank

/-- Every other character goes to the token. -/
theorem put (h : ReadsStage stage s) {c : Char} (hquote : c ≠ '"')
    (hc : isBlank c = true → s.quoted = true) : ReadsStage (stage ++ [c]) (s.put c) := by
  obtain ⟨done, hpieces, htokens⟩ := h.pieces
  refine ⟨⟨done, ?_, htokens⟩, ?_, ?_⟩
  · rw [tokenPieces_concat_other hquote (h.quoted ▸ hc), hpieces, concatLast_concat]
    rfl
  · rw [quotedAfter_append, quotedAfter_singleton, if_neg hquote]
    exact h.quoted
  · rw [allBlank_concat, ← h.blank]
    rfl

end ReadsStage

/-! ## Reading a part -/

/-- The scan has read this much of a part. -/
structure ReadsPart (part : List Char) (s : Scan) : Prop where
  cut : ∃ done stage, Cut '|' part done stage ∧ ReadsStage stage s ∧
    s.stages = (done.filter fun stage => !allBlank stage).map tokensOf
  blank : s.partBlank = allBlank part

namespace ReadsPart

variable {part : List Char} {s : Scan}

/-- The flag tells whether a quote is open in the part. -/
theorem quoted (h : ReadsPart part s) : s.quoted = quotedAfter false part := by
  obtain ⟨done, stage, hcut, hstage, -⟩ := h.cut
  exact hstage.quoted.trans hcut.quoted

/-- A part begins with a stage. -/
theorem nil (hstage : ReadsStage [] s) (hstages : s.stages = []) (hblank : s.partBlank = true) :
    ReadsPart [] s :=
  ⟨⟨[], [], Cut.nil '|', hstage, hstages⟩, hblank⟩

/-- What carries the stage on carries the part on. -/
theorem lengthen (h : ReadsPart part s) {c : Char} {s' : Scan}
    (hc : ¬ (c = '|' ∧ quotedAfter false (part ++ [c]) = false))
    (hstage : ∀ stage, ReadsStage stage s → ReadsStage (stage ++ [c]) s')
    (hstages : s'.stages = s.stages) (hblank : s'.partBlank = (s.partBlank && isBlank c)) :
    ReadsPart (part ++ [c]) s' := by
  obtain ⟨done, stage, hcut, hs, hdone⟩ := h.cut
  refine ⟨⟨done, stage ++ [c], hcut.lengthen hc, hstage stage hs, hstages.trans hdone⟩, ?_⟩
  rw [hblank, h.blank, allBlank_concat]

/-- When the part ends here, the scan has all its stages. -/
theorem endStage_stages (h : ReadsPart part s) : s.endStage.stages = stagesOf part := by
  obtain ⟨done, stage, hcut, hstage, hdone⟩ := h.cut
  rw [stagesOf, nonblankPieces, hcut.pieces, List.filter_append, List.map_append, ← hdone,
    Scan.endStage, hstage.endToken_tokens, hstage.blank]
  cases hblank : allBlank stage <;> simp [hblank]

/-- A bar outside quotes ends the stage, and a stage begins. -/
theorem endStage (h : ReadsPart part s) (hquoted : s.quoted = false) :
    ReadsPart (part ++ ['|']) { s.endStage with partBlank := false } := by
  obtain ⟨done, stage, hcut, -, -⟩ := h.cut
  have hclosed := hcut.close (by decide) (h.quoted.symm.trans hquoted)
  refine ⟨⟨done ++ [stage], [], hclosed, ReadsStage.nil hquoted rfl rfl rfl, ?_⟩, ?_⟩
  · rw [← hcut.pieces]
    exact h.endStage_stages
  · rw [allBlank_concat]
    exact (Bool.and_false _).symm

theorem quote (h : ReadsPart part s) : ReadsPart (part ++ ['"']) s.quote :=
  h.lengthen (fun hbar => absurd hbar.1 (by decide)) (fun _ hstage => hstage.quote) rfl
    (Bool.and_false _).symm

theorem endToken (h : ReadsPart part s) {c : Char} (hc : isBlank c = true)
    (hquoted : s.quoted = false) : ReadsPart (part ++ [c]) s.endToken := by
  refine h.lengthen (fun hbar => ?_) (fun _ hstage => hstage.endToken hc hquoted) ?_ ?_
  · exact ne_of_isBlank (by decide) hc hbar.1
  · rw [s.endToken_eq]
  · rw [s.endToken_eq, hc, Bool.and_true]

/-- A character that ends nothing in the part goes on with its last stage. -/
theorem put (h : ReadsPart part s) {c : Char} (hquote : c ≠ '"')
    (hc : s.quoted = false → c ≠ '|' ∧ isBlank c = false) :
    ReadsPart (part ++ [c]) (s.put c) := by
  refine h.lengthen (fun hbar => ?_) (fun _ hstage => hstage.put hquote fun hblank => ?_) rfl rfl
  · have hquoted := hbar.2
    rw [quotedAfter_append, quotedAfter_singleton, if_neg hquote, ← h.quoted] at hquoted
    exact (hc hquoted).1 hbar.1
  · by_contra hquoted
    rw [(hc (eq_false_of_ne_true hquoted)).2] at hblank
    exact Bool.noConfusion hblank

end ReadsPart

/-! ## Reading a line -/

/-- The scan has read this much of a line. -/
structure ReadsLine (text : List Char) (s : Scan) : Prop where
  cut : ∃ done part, Cut ';' text done part ∧ ReadsPart part s ∧
    s.parts = (done.filter fun part => !allBlank part).map stagesOf

namespace ReadsLine

variable {text : List Char} {s : Scan}

/-- The flag tells whether a quote is open in the line. -/
theorem quoted (h : ReadsLine text s) : s.quoted = quotedAfter false text := by
  obtain ⟨done, part, hcut, hpart, -⟩ := h.cut
  exact hpart.quoted.trans hcut.quoted

/-- A line begins with a part. -/
theorem nil : ReadsLine [] {} :=
  ⟨⟨[], [], Cut.nil ';', ReadsPart.nil (ReadsStage.nil rfl rfl rfl rfl) rfl rfl, rfl⟩⟩

/-- What carries the part on carries the line on. -/
theorem lengthen (h : ReadsLine text s) {c : Char} {s' : Scan}
    (hc : ¬ (c = ';' ∧ quotedAfter false (text ++ [c]) = false))
    (hpart : ∀ part, ReadsPart part s → ReadsPart (part ++ [c]) s')
    (hparts : s'.parts = s.parts) : ReadsLine (text ++ [c]) s' := by
  obtain ⟨done, part, hcut, hp, hdone⟩ := h.cut
  exact ⟨⟨done, part ++ [c], hcut.lengthen hc, hpart part hp, hparts.trans hdone⟩⟩

/-- When the line ends here, the scan has all its parts. -/
theorem endPart_parts (h : ReadsLine text s) : s.endPart.parts = partsOf text := by
  obtain ⟨done, part, hcut, hpart, hdone⟩ := h.cut
  rw [partsOf, nonblankPieces, hcut.pieces, List.filter_append, List.map_append, ← hdone,
    Scan.endPart, hpart.endStage_stages, hpart.blank]
  cases hblank : allBlank part <;> simp [hblank]

/-- A semicolon outside quotes ends the part, and a part begins. -/
theorem endPart (h : ReadsLine text s) (hquoted : s.quoted = false) :
    ReadsLine (text ++ [';']) s.endPart := by
  obtain ⟨done, part, hcut, -, -⟩ := h.cut
  have hclosed := hcut.close (by decide) (h.quoted.symm.trans hquoted)
  have hpart : ReadsPart [] s.endPart :=
    ReadsPart.nil (ReadsStage.nil hquoted rfl rfl rfl) rfl rfl
  refine ⟨⟨done ++ [part], [], hclosed, hpart, ?_⟩⟩
  rw [← hcut.pieces]
  exact h.endPart_parts

/-- A character that ends nothing in the line goes on with its last part. -/
theorem put (h : ReadsLine text s) {c : Char} (hquote : c ≠ '"')
    (hc : s.quoted = false → c ≠ ';' ∧ c ≠ '|' ∧ isBlank c = false) :
    ReadsLine (text ++ [c]) (s.put c) := by
  refine h.lengthen (fun hsemicolon => ?_) (fun _ hpart => hpart.put hquote fun hq => (hc hq).2) rfl
  have hquoted := hsemicolon.2
  rw [quotedAfter_append, quotedAfter_singleton, if_neg hquote, ← h.quoted] at hquoted
  exact (hc hquoted).1 hsemicolon.1

/-- Every character carries the scan on. -/
theorem step (h : ReadsLine text s) (c : Char) : ReadsLine (text ++ [c]) (s.step c) := by
  unfold Scan.step
  by_cases hquote : c = '"'
  · subst hquote
    rw [if_pos rfl]
    exact h.lengthen (fun hsemicolon => absurd hsemicolon.1 (by decide)) (fun _ hp => hp.quote) rfl
  rw [if_neg hquote]
  by_cases hquoted : s.quoted = true
  · -- inside quotes a separator or a blank is like any other character
    rw [if_pos hquoted]
    exact h.put hquote fun hunquoted => absurd hquoted (by simp [hunquoted])
  rw [if_neg hquoted]
  rw [Bool.not_eq_true] at hquoted
  by_cases hsemicolon : c = ';'
  · subst hsemicolon
    rw [if_pos rfl]
    exact h.endPart hquoted
  rw [if_neg hsemicolon]
  by_cases hbar : c = '|'
  · subst hbar
    rw [if_pos rfl]
    exact h.lengthen (fun hs => hsemicolon hs.1) (fun _ hp => hp.endStage hquoted) rfl
  rw [if_neg hbar]
  by_cases hblank : isBlank c = true
  · rw [if_pos hblank]
    refine h.lengthen (fun hs => hsemicolon hs.1) (fun _ hp => hp.endToken hblank hquoted) ?_
    rw [s.endToken_eq]
  · rw [if_neg hblank]
    exact h.put hquote fun _ => ⟨hsemicolon, hbar, eq_false_of_ne_true hblank⟩

end ReadsLine

/-- What the scan has read, by induction on the text from its end. -/
theorem readsLine_foldl (text : List Char) : ReadsLine text (text.foldl Scan.step {}) := by
  -- from the end, as a piece that is being read is the last one so far
  induction text using List.reverseRecOn with
  | nil => exact ReadsLine.nil
  | append_singleton text c ih =>
    rw [List.foldl_concat]
    exact ih.step c

/-- Cutting a line into parts, the parts into stages and the stages into tokens is one scan of the
line without the blank characters at its end: of the front of the line that does not end in a blank
character and has blank characters only after it (`Text.trimEnd_eq_iff`). -/
theorem parse_eq_scan (line : String) : parse line = scan (trimEnd line.toList) := by
  rw [parse_eq_partsOf, scan, (readsLine_foldl _).endPart_parts]

/-- A part may have no stages and a stage no tokens; what is quoted is not cut. -/
example : scan " \"a; b\"c ;; | ; \"\" | x ".toList = [[["a; bc"]], [], [[], ["x"]]] := by
  decide

end SimTerm.Line
