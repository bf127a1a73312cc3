import Mathlib.Data.List.ModifyLast
import SimTerm.Line
import SimTerm.Proofs.Text.Trim

/-!
# Where a text is cut

A text is cut at the separators that stand outside quotes. So every piece but the last ends outside
quotes, and the last one ends as the text does: `Cut`. When a text grows by a character, that
character either closes the last piece or lengthens it.

A piece that ends outside quotes loses nothing to trimming that a later cut would see. Nor does one
that has no blank character at its end. Every piece of a text that is `Settled` in one of these two
ways is settled too. So it makes no difference whether the pieces are trimmed before they are cut
further, if only the whole line is trimmed at its end: `parse_eq_partsOf`.
-/

namespace SimTerm.Line

open Text

/-- Whether a text ends inside quotes; the flag says whether it starts inside quotes. -/
def quotedAfter (quoted : Bool) (text : List Char) : Bool :=
  text.foldl (fun quoted c => if c = '"' then !quoted else quoted) quoted

theorem quotedAfter_nil (quoted : Bool) : quotedAfter quoted [] = quoted :=
  rfl

/-- The quotes of two texts are counted one after the other. -/
theorem quotedAfter_append (quoted : Bool) (front back : List Char) :
    quotedAfter quoted (front ++ back) = quotedAfter (quotedAfter quoted front) back :=
  List.foldl_append

/-- A quote turns the flag, and every other character leaves it. -/
theorem quotedAfter_singleton (quoted : Bool) (c : Char) :
    quotedAfter quoted [c] = if c = '"' then !quoted else quoted :=
  rfl

theorem quotedAfter_cons (quoted : Bool) (c : Char) (text : List Char) :
    quotedAfter quoted (c :: text) = quotedAfter (quotedAfter quoted [c]) text :=
  rfl

theorem ne_of_isBlank {b c : Char} (hb : isBlank b = false) (hc : isBlank c = true) : c ≠ b := by
  rintro rfl
  rw [hb] at hc
  exact Bool.noConfusion hc

/-- A blank character is no quote. -/
theorem ne_quote_of_isBlank {c : Char} (h : isBlank c = true) : c ≠ '"' :=
  ne_of_isBlank (by decide) h

/-- A blank character in front makes no difference to the quotes. -/
theorem quotedAfter_cons_of_isBlank {c : Char} (h : isBlank c = true) (quoted : Bool)
    (text : List Char) : quotedAfter quoted (c :: text) = quotedAfter quoted text := by
  rw [quotedAfter_cons, quotedAfter_singleton, if_neg (ne_quote_of_isBlank h)]

theorem quotedAfter_concat_of_isBlank {c : Char} (h : isBlank c = true) (quoted : Bool)
    (text : List Char) : quotedAfter quoted (text ++ [c]) = quotedAfter quoted text := by
  rw [quotedAfter_append, quotedAfter_singleton, if_neg (ne_quote_of_isBlank h)]

/-- Trimming in front makes no difference to the quotes. -/
theorem quotedAfter_trimStart (text : List Char) :
    quotedAfter false (trimStart text) = quotedAfter false text :=
  map_trimStart (fun _ cs h => quotedAfter_cons_of_isBlank h false cs) text

/-! ## The first and the last piece -/

theorem consFirst_ne_nil (c : Char) (ps : List (List Char)) : consFirst c ps ≠ [] := by
  cases ps <;> exact List.cons_ne_nil _ _

theorem consFirst_append (c : Char) {ps : List (List Char)} (h : ps ≠ [])
    (qs : List (List Char)) : consFirst c (ps ++ qs) = consFirst c ps ++ qs := by
  obtain ⟨p, ps, rfl⟩ := List.exists_cons_of_ne_nil h
  rfl

/-- Put one more character behind the last piece. -/
def concatLast (ps : List (List Char)) (c : Char) : List (List Char) :=
  ps.modifyLast (· ++ [c])

/-- A character is put at the end of the last piece. -/
theorem concatLast_concat (ps : List (List Char)) (p : List Char) (c : Char) :
    concatLast (ps ++ [p]) c = ps ++ [p ++ [c]] :=
  List.modifyLast_concat _ p ps

theorem concatLast_cons (p : List Char) {ps : List (List Char)} (h : ps ≠ []) (c : Char) :
    concatLast (p :: ps) c = p :: concatLast ps c :=
  List.modifyLast_append_of_right_ne_nil _ [p] ps h

/-- Putting one character in front and one at the end can be done in either order. -/
theorem concatLast_consFirst (b c : Char) {ps : List (List Char)} (h : ps ≠ []) :
    concatLast (consFirst b ps) c = consFirst b (concatLast ps c) := by
  match ps with
  | [] => exact absurd rfl h
  | [p] => rfl
  | p :: q :: ps =>
    rw [concatLast_cons p (List.cons_ne_nil q ps), consFirst, consFirst,
      concatLast_cons _ (List.cons_ne_nil q ps)]

/-! ## Pieces between separators -/

section Pieces

variable {sep : Char}

/-- The first character ends a piece if it is an unquoted separator, and otherwise goes in front of
the first piece. -/
theorem unquotedPieces_cons (quoted : Bool) (c : Char) (cs : List Char) :
    unquotedPieces sep quoted (c :: cs) =
      if c = sep ∧ quotedAfter quoted [c] = false then
        [] :: unquotedPieces sep (quotedAfter quoted [c]) cs
      else consFirst c (unquotedPieces sep (quotedAfter quoted [c]) cs) := by
  simp only [unquotedPieces, Bool.and_eq_true, decide_eq_true_eq, Bool.not_eq_true']
  rfl

/-- A text is cut into at least one piece. -/
theorem unquotedPieces_ne_nil (quoted : Bool) (text : List Char) :
    unquotedPieces sep quoted text ≠ [] := by
  cases text with
  | nil => exact List.cons_ne_nil _ _
  | cons c cs =>
    rw [unquotedPieces_cons]
    split
    · exact List.cons_ne_nil _ _
    · exact consFirst_ne_nil _ _

/-- A separator outside quotes cuts a text into two that are cut further on their own. -/
theorem unquotedPieces_append_sep (hsep : sep ≠ '"') {quoted : Bool} {front : List Char}
    (h : quotedAfter quoted front = false) (back : List Char) :
    unquotedPieces sep quoted (front ++ sep :: back) =
      unquotedPieces sep quoted front ++ unquotedPieces sep false back := by
  induction front generalizing quoted with
  | nil =>
    rw [quotedAfter_nil] at h
    have hquoted : quotedAfter quoted [sep] = false := by
      rw [quotedAfter_singleton, if_neg hsep, h]
    rw [List.nil_append, unquotedPieces_cons, if_pos ⟨rfl, hquoted⟩, hquoted]
    rfl
  | cons c cs ih =>
    rw [quotedAfter_cons] at h
    rw [List.cons_append, unquotedPieces_cons, unquotedPieces_cons, ih h]
    split
    · rfl
    · exact consFirst_append c (unquotedPieces_ne_nil _ cs) _

/-- Any other character lengthens the last piece. -/
theorem unquotedPieces_concat {quoted : Bool} {text : List Char} {c : Char}
    (h : ¬ (c = sep ∧ quotedAfter quoted (text ++ [c]) = false)) :
    unquotedPieces sep quoted (text ++ [c]) = concatLast (unquotedPieces sep quoted text) c := by
  induction text generalizing quoted with
  | nil =>
    rw [List.nil_append] at h ⊢
    rw [unquotedPieces_cons, if_neg h]
    rfl
  | cons b bs ih =>
    rw [List.cons_append, quotedAfter_cons] at h
    rw [List.cons_append, unquotedPieces_cons, unquotedPieces_cons, ih h]
    split
    · exact (concatLast_cons [] (unquotedPieces_ne_nil _ bs) c).symm
    · exact (concatLast_consFirst b c (unquotedPieces_ne_nil _ bs)).symm

end Pieces

/-! ## Pieces between blanks -/

theorem tokenPieces_ne_nil (quoted : Bool) (text : List Char) : tokenPieces quoted text ≠ [] := by
  induction text generalizing quoted with
  | nil => exact List.cons_ne_nil _ _
  | cons c cs ih =>
    rw [tokenPieces]
    split
    · exact ih _
    · split
      · exact List.cons_ne_nil _ _
      · exact consFirst_ne_nil _ _

/-- What one more character does to the pieces between blanks of a text; the flag says whether the
text ends inside quotes. -/
def extendTokens (quoted : Bool) (c : Char) (ps : List (List Char)) : List (List Char) :=
  if c = '"' then ps
  else if isBlank c && !quoted then ps ++ [[]]
  else concatLast ps c

theorem extendTokens_cons (quoted : Bool) (c : Char) (p : List Char) {ps : List (List Char)}
    (h : ps ≠ []) : extendTokens quoted c (p :: ps) = p :: extendTokens quoted c ps := by
  unfold extendTokens
  split
  · rfl
  · split
    · rfl
    · exact concatLast_cons p h c

theorem extendTokens_consFirst (quoted : Bool) (c b : Char) {ps : List (List Char)} (h : ps ≠ []) :
    extendTokens quoted c (consFirst b ps) = consFirst b (extendTokens quoted c ps) := by
  unfold extendTokens
  split
  · rfl
  · split
    · exact (consFirst_append b h _).symm
    · exact concatLast_consFirst b c h

/-- Cutting into tokens can be told from the end of the stage, one character after the other. -/
theorem tokenPieces_concat (quoted : Bool) (text : List Char) (c : Char) :
    tokenPieces quoted (text ++ [c]) =
      extendTokens (quotedAfter quoted text) c (tokenPieces quoted text) := by
  induction text generalizing quoted with
  | nil =>
    rw [List.nil_append, tokenPieces, tokenPieces, extendTokens, quotedAfter_nil]
    rfl
  | cons b bs ih =>
    rw [List.cons_append, tokenPieces, tokenPieces, quotedAfter_cons, quotedAfter_singleton]
    split
    · exact ih (!quoted)
    · rw [ih quoted]
      split
      · exact (extendTokens_cons _ c [] (tokenPieces_ne_nil quoted bs)).symm
      · exact (extendTokens_consFirst _ c b (tokenPieces_ne_nil quoted bs)).symm

/-- A quote neither ends a token nor is part of one. -/
theorem tokenPieces_concat_quote (quoted : Bool) (text : List Char) :
    tokenPieces quoted (text ++ ['"']) = tokenPieces quoted text := by
  rw [tokenPieces_concat, extendTokens, if_pos rfl]

/-- A blank character outside quotes ends the last token. -/
theorem tokenPieces_concat_blank {quoted : Bool} {text : List Char} {c : Char}
    (hc : isBlank c = true) (h : quotedAfter quoted text = false) :
    tokenPieces quoted (text ++ [c]) = tokenPieces quoted text ++ [[]] := by
  rw [tokenPieces_concat, extendTokens, if_neg (ne_quote_of_isBlank hc), hc, h]
  rfl

/-- Any other character lengthens the last token. -/
theorem tokenPieces_concat_other {quoted : Bool} {text : List Char} {c : Char} (hc : c ≠ '"')
    (h : isBlank c = true → quotedAfter quoted text = true) :
    tokenPieces quoted (text ++ [c]) = concatLast (tokenPieces quoted text) c := by
  have hblank : ¬ (isBlank c && !quotedAfter quoted text) = true := by
    simpa using h
  rw [tokenPieces_concat, extendTokens, if_neg hc, if_neg hblank]

/-! ## Cuts -/

/-- The text is cut into pieces that are done and one that the text may still go on with. -/
structure Cut (sep : Char) (text : List Char) (done : List (List Char)) (rest : List Char) :
    Prop where
  pieces : unquotedPieces sep false text = done ++ [rest]
  closed : ∀ p ∈ done, quotedAfter false p = false
  quoted : quotedAfter false rest = quotedAfter false text
  suffix : rest <:+ text

namespace Cut

variable {sep : Char} {text : List Char} {done : List (List Char)} {rest : List Char}

/-- The empty text is one empty piece that may go on. -/
theorem nil (sep : Char) : Cut sep [] [] [] :=
  ⟨rfl, List.forall_mem_nil _, rfl, List.suffix_rfl⟩

/-- A separator outside quotes closes the last piece. -/
theorem close (h : Cut sep text done rest) (hsep : sep ≠ '"')
    (hquoted : quotedAfter false text = false) : Cut sep (text ++ [sep]) (done ++ [rest]) [] where
  pieces := by
    rw [unquotedPieces_append_sep hsep hquoted, h.pieces]
    rfl
  closed := by
    intro p hp
    rcases List.mem_append.1 hp with hdone | hrest
    · exact h.closed p hdone
    · rw [List.mem_singleton.1 hrest, h.quoted, hquoted]
  quoted := by
    rw [quotedAfter_append, quotedAfter_singleton, if_neg hsep, hquoted, quotedAfter_nil]
  suffix := List.nil_suffix

/-- Any other character lengthens it. -/
theorem lengthen (h : Cut sep text done rest) {c : Char}
    (hc : ¬ (c = sep ∧ quotedAfter false (text ++ [c]) = false)) :
    Cut sep (text ++ [c]) done (rest ++ [c]) where
  pieces := by rw [unquotedPieces_concat hc, h.pieces, concatLast_concat]
  closed := h.closed
  quoted := by rw [quotedAfter_append, quotedAfter_append, h.quoted]
  suffix := by
    obtain ⟨front, hfront⟩ := h.suffix
    exact ⟨front, by rw [← List.append_assoc, hfront]⟩

end Cut

/-- Every text has its cut, by induction on the text from its end. -/
theorem exists_cut {sep : Char} (hsep : sep ≠ '"') (text : List Char) :
    ∃ done rest, Cut sep text done rest := by
  induction text using List.reverseRecOn with
  | nil => exact ⟨[], [], Cut.nil sep⟩
  | append_singleton text c ih =>
    obtain ⟨done, rest, hcut⟩ := ih
    by_cases hc : c = sep ∧ quotedAfter false (text ++ [c]) = false
    · obtain ⟨rfl, hquoted⟩ := hc
      rw [quotedAfter_append, quotedAfter_singleton, if_neg hsep] at hquoted
      exact ⟨done ++ [rest], [], hcut.close hsep hquoted⟩
    · exact ⟨done, rest ++ [c], hcut.lengthen hc⟩

/-! ## Trimming pieces -/

/-- The pieces that do not hold blank characters only. -/
def nonblankPieces (sep : Char) (text : List Char) : List (List Char) :=
  (unquotedPieces sep false text).filter fun p => !allBlank p

/-- The trimmed pieces are those that are not blank, trimmed. -/
theorem trimmedPieces_eq_map (sep : Char) (text : List Char) :
    trimmedPieces sep text = (nonblankPieces sep text).map trim := by
  rw [trimmedPieces, nonblankPieces, List.filter_map]
  congr 2
  funext p
  simp [trim_eq_nil_iff]

section Separator

variable {sep : Char}

/-- A blank character in front makes no difference to the trimmed pieces. -/
theorem trimmedPieces_cons_of_isBlank (hsep : isBlank sep = false) {c : Char}
    (hc : isBlank c = true) (text : List Char) :
    trimmedPieces sep (c :: text) = trimmedPieces sep text := by
  have hcut : ¬ (c = sep ∧ quotedAfter false [c] = false) :=
    fun hcut => ne_of_isBlank hsep hc hcut.1
  have hquoted : quotedAfter false [c] = false := if_neg (ne_quote_of_isBlank hc)
  obtain ⟨p, ps, hps⟩ := List.exists_cons_of_ne_nil (@unquotedPieces_ne_nil sep false text)
  rw [trimmedPieces, trimmedPieces, unquotedPieces_cons, if_neg hcut, hquoted, hps, consFirst,
    List.map_cons, List.map_cons, trim_cons_of_isBlank hc]

/-- A blank character at the end makes no difference to the trimmed pieces. -/
theorem trimmedPieces_concat_of_isBlank (hquote : sep ≠ '"') (hsep : isBlank sep = false)
    {c : Char} (hc : isBlank c = true) (text : List Char) :
    trimmedPieces sep (text ++ [c]) = trimmedPieces sep text := by
  have hcut : ¬ (c = sep ∧ quotedAfter false (text ++ [c]) = false) :=
    fun hcut => ne_of_isBlank hsep hc hcut.1
  obtain ⟨done, rest, h⟩ := exists_cut hquote text
  rw [trimmedPieces, trimmedPieces, h.pieces, (h.lengthen hcut).pieces, List.map_append,
    List.map_append, List.map_singleton, List.map_singleton, trim_concat_of_isBlank hc]

/-- Trimming the end makes no difference to the trimmed pieces. -/
theorem trimmedPieces_trimEnd (hquote : sep ≠ '"') (hsep : isBlank sep = false)
    (text : List Char) : trimmedPieces sep (trimEnd text) = trimmedPieces sep text :=
  map_trimEnd (fun cs _ hc => trimmedPieces_concat_of_isBlank hquote hsep hc cs) text

theorem trimmedPieces_trim (hquote : sep ≠ '"') (hsep : isBlank sep = false) (text : List Char) :
    trimmedPieces sep (trim text) = trimmedPieces sep text :=
  map_trim (fun _ cs hc => trimmedPieces_cons_of_isBlank hsep hc cs)
    (fun cs _ hc => trimmedPieces_concat_of_isBlank hquote hsep hc cs) text

end Separator

/-- Trimming the end of this text takes nothing away that is quoted. -/
def Settled (text : List Char) : Prop :=
  quotedAfter false text = false ∨ trimEnd text = text

/-- The pieces of a settled text are settled: only the last one may end inside quotes, and it ends
as the text does. -/
theorem Settled.of_mem {sep : Char} (hsep : sep ≠ '"') {text p : List Char} (h : Settled text)
    (hp : p ∈ unquotedPieces sep false text) : Settled p := by
  obtain ⟨done, rest, hcut⟩ := exists_cut hsep text
  rw [hcut.pieces, List.mem_append, List.mem_singleton] at hp
  rcases hp with hdone | rfl
  · exact Or.inl (hcut.closed p hdone)
  · -- the last piece ends as the text does, so it is settled in the same way
    rcases h with hquoted | htrim
    · exact Or.inl (hcut.quoted.trans hquoted)
    · exact Or.inr (trimEnd_of_suffix hcut.suffix htrim)

/-! ## Trimming stages -/

/-- The tokens of a stage. -/
def tokensOf (stage : List Char) : List String :=
  ((tokenPieces false stage).filter (· ≠ [])).map String.ofList

/-- A blank character in front makes no difference to the tokens. -/
theorem tokensOf_cons_of_isBlank {c : Char} (hc : isBlank c = true) (stage : List Char) :
    tokensOf (c :: stage) = tokensOf stage := by
  simp [tokensOf, tokenPieces, ne_quote_of_isBlank hc, hc]

/-- A blank character at the end makes no difference to the tokens, unless it is quoted. -/
theorem tokensOf_concat_of_isBlank {c : Char} (hc : isBlank c = true) {stage : List Char}
    (h : quotedAfter false stage = false) : tokensOf (stage ++ [c]) = tokensOf stage := by
  simp [tokensOf, tokenPieces_concat_blank hc h]

theorem tokensOf_trimStart (stage : List Char) : tokensOf (trimStart stage) = tokensOf stage :=
  map_trimStart (fun _ cs hc => tokensOf_cons_of_isBlank hc cs) stage

/-- Trimming the end makes no difference to the tokens, if no quote is open there. -/
theorem tokensOf_trimEnd {stage : List Char} (h : quotedAfter false stage = false) :
    tokensOf (trimEnd stage) = tokensOf stage := by
  induction stage using List.reverseRecOn with
  | nil => rfl
  | append_singleton stage c ih =>
    by_cases hc : isBlank c = true
    · rw [quotedAfter_concat_of_isBlank hc] at h
      rw [trimEnd_concat_of_isBlank hc, ih h, tokensOf_concat_of_isBlank hc h]
    · rw [trimEnd_eq_rdropWhile, List.rdropWhile_concat_neg isBlank stage c hc]

/-- Trimming a settled stage changes none of its tokens. -/
theorem tokensOf_trim {stage : List Char} (h : Settled stage) :
    tokensOf (trim stage) = tokensOf stage := by
  rw [trim, ← tokensOf_trimStart stage]
  rcases h with hquoted | htrim
  · exact tokensOf_trimEnd ((quotedAfter_trimStart stage).trans hquoted)
  · have hsuffix : trimStart stage <:+ stage := List.dropWhile_suffix isBlank
    rw [trimEnd_of_suffix hsuffix htrim]

/-! ## The three cuts -/

/-- The stages of a part that is not trimmed, each as its tokens. -/
def stagesOf (part : List Char) : List (List String) :=
  (nonblankPieces '|' part).map tokensOf

/-- The parts of a text, each as its stages. -/
def partsOf (text : List Char) : List (List (List String)) :=
  (nonblankPieces ';' text).map stagesOf

theorem tokens_ofList (stage : List Char) : tokens (String.ofList stage) = tokensOf stage := by
  rw [tokens, tokensOf, String.toList_ofList]

/-- The tokens of the stages of a part, told on lists of characters. -/
theorem stages_eq (part : List Char) :
    (stages (String.ofList part)).map tokens = (trimmedPieces '|' part).map tokensOf := by
  simp only [stages, tokens_ofList, String.toList_ofList, List.map_map, Function.comp_def]

/-- The three cuts, told on lists of characters. -/
theorem parse_eq (line : String) :
    parse line =
      (trimmedPieces ';' line.toList).map fun part => (trimmedPieces '|' part).map tokensOf := by
  simp only [parse, parts, stages_eq, List.map_map, Function.comp_def]

/-- In a settled part the stages need not be trimmed before they are cut into tokens. -/
theorem map_tokensOf_trimmedPieces {part : List Char} (h : Settled part) :
    (trimmedPieces '|' part).map tokensOf = stagesOf part := by
  rw [trimmedPieces_eq_map, List.map_map, stagesOf]
  refine List.map_congr_left fun stage hstage => ?_
  exact tokensOf_trim (h.of_mem (by decide) (List.mem_of_mem_filter hstage))

/-- Only the end of the whole line needs to be trimmed. -/
theorem parse_eq_partsOf (line : String) : parse line = partsOf (trimEnd line.toList) := by
  have hline : Settled (trimEnd line.toList) := Or.inr (trimEnd_trimEnd line.toList)
  -- trimming the line first changes no trimmed part; then the parts need no trimming, nor do stages
  rw [parse_eq, ← trimmedPieces_trimEnd (by decide) (by decide), trimmedPieces_eq_map,
    List.map_map, partsOf]
  refine List.map_congr_left fun part hpart => ?_
  rw [Function.comp_apply, trimmedPieces_trim (by decide) (by decide)]
  exact map_tokensOf_trimmedPieces (hline.of_mem (by decide) (List.mem_of_mem_filter hpart))

end SimTerm.Line
