import SimTerm.Proofs.Line.Cut

/-!
# Lines written from tokens

A line can be written from the tokens it should have: every token goes between quotes, tokens are
set apart by a space, stages by a bar and parts by a semicolon. Between quotes a separator or a
blank is an ordinary character, so such a line reads back as it was written: `parse_written`. Only
empty tokens and tokens with a quote cannot be written this way, and no line has such tokens:
`isToken_of_mem_tokens`.

What has been written is cut at its own separator only. A text that another cut leaves in one piece,
with its quotes in pairs, is `Whole`; tokens between quotes are whole for every separator, and
joining whole texts by another separator keeps them whole.
-/

namespace SimTerm.Line

open Text

/-! ## Writing -/

/-- A token between quotes. -/
def writtenToken (token : String) : List Char :=
  '"' :: (token.toList ++ ['"'])

/-- The tokens of a stage, set apart by a space. -/
def writtenStage (stage : List String) : List Char :=
  joined ' ' (stage.map writtenToken)

/-- The stages of a part, set apart by a bar. -/
def writtenPart (part : List (List String)) : List Char :=
  joined '|' (part.map writtenStage)

/-- The parts of a line, set apart by a semicolon. -/
def written (line : List (List (List String))) : String :=
  String.ofList (joined ';' (line.map writtenPart))

/-- A token is not empty and holds no quote. -/
def IsToken (token : String) : Prop :=
  token ≠ "" ∧ '"' ∉ token.toList

instance (token : String) : Decidable (IsToken token) :=
  inferInstanceAs (Decidable (_ ∧ _))

/-- Every part has stages, every stage has tokens, and they are tokens. -/
def Writable (line : List (List (List String))) : Prop :=
  ∀ part ∈ line, part ≠ [] ∧ ∀ stage ∈ part, stage ≠ [] ∧ ∀ token ∈ stage, IsToken token

instance (line : List (List (List String))) : Decidable (Writable line) :=
  inferInstanceAs (Decidable (∀ part ∈ line, _))

/-! ## Texts in one piece -/

/-- A cut at the separator leaves the text in one piece, and its quotes come in pairs. -/
structure Whole (sep : Char) (text : List Char) : Prop where
  pieces : unquotedPieces sep false text = [text]
  closed : quotedAfter false text = false

/-- A character in front leaves one piece exactly if there was one. -/
theorem consFirst_eq_singleton_iff {c : Char} {ps : List (List Char)} (h : ps ≠ [])
    {text : List Char} : consFirst c ps = [c :: text] ↔ ps = [text] := by
  obtain ⟨p, ps, rfl⟩ := List.exists_cons_of_ne_nil h
  simp [consFirst]

/-- A text is in one piece exactly if what follows its first character is and that character is no
separator outside quotes. -/
theorem unquotedPieces_cons_eq_singleton_iff {sep : Char} {quoted : Bool} {c : Char}
    {cs : List Char} :
    unquotedPieces sep quoted (c :: cs) = [c :: cs] ↔
      ¬ (c = sep ∧ quotedAfter quoted [c] = false) ∧
        unquotedPieces sep (quotedAfter quoted [c]) cs = [cs] := by
  rw [unquotedPieces_cons]
  split
  · next h => exact ⟨fun hpieces => by simp at hpieces, fun hwhole => absurd h hwhole.1⟩
  · next h => simp [h, consFirst_eq_singleton_iff (unquotedPieces_ne_nil _ cs)]

/-- Two texts in one piece each are one piece together, if the flag is handed on. -/
theorem unquotedPieces_append_eq_singleton {sep : Char} {quoted : Bool} {front back : List Char}
    (hfront : unquotedPieces sep quoted front = [front])
    (hback : unquotedPieces sep (quotedAfter quoted front) back = [back]) :
    unquotedPieces sep quoted (front ++ back) = [front ++ back] := by
  induction front generalizing quoted with
  | nil => exact hback
  | cons c cs ih =>
    obtain ⟨hc, hcs⟩ := unquotedPieces_cons_eq_singleton_iff.1 hfront
    exact unquotedPieces_cons_eq_singleton_iff.2 ⟨hc, ih hcs hback⟩

namespace Whole

variable {sep : Char}

/-- Two whole texts are whole together. -/
theorem append {front back : List Char} (hfront : Whole sep front) (hback : Whole sep back) :
    Whole sep (front ++ back) where
  pieces := by
    refine unquotedPieces_append_eq_singleton hfront.pieces ?_
    rw [hfront.closed]
    exact hback.pieces
  closed := by rw [quotedAfter_append, hfront.closed, hback.closed]

/-- A character that is neither the separator nor a quote is whole. -/
theorem singleton {c : Char} (hsep : c ≠ sep) (hquote : c ≠ '"') : Whole sep [c] where
  pieces := unquotedPieces_cons_eq_singleton_iff.2 ⟨fun h => hsep h.1, rfl⟩
  closed := if_neg hquote

/-- Whole texts joined by another separator are whole. -/
theorem joined {c : Char} (hsep : c ≠ sep) (hquote : c ≠ '"') {ps : List (List Char)}
    (h : ∀ p ∈ ps, Whole sep p) : Whole sep (joined c ps) := by
  induction ps with
  | nil => exact ⟨rfl, rfl⟩
  | cons p ps ih =>
    obtain ⟨hp, hps⟩ := List.forall_mem_cons.1 h
    cases ps with
    | nil => simpa [Text.joined] using hp
    | cons q qs =>
      rw [joined_cons_cons]
      exact hp.append ((singleton hsep hquote).append (ih hps))

end Whole

/-! ## Between quotes -/

section Quotes

variable {token : List Char}

/-- Without a quote in it, a text that starts inside quotes ends there. -/
theorem quotedAfter_true_of_not_mem (h : '"' ∉ token) : quotedAfter true token = true := by
  induction token with
  | nil => rfl
  | cons c cs ih =>
    obtain ⟨hc, hcs⟩ := List.ne_and_not_mem_of_not_mem_cons h
    rw [quotedAfter_cons, quotedAfter_singleton, if_neg (Ne.symm hc), ih hcs]

/-- Inside quotes nothing cuts a text without quotes. -/
theorem unquotedPieces_true_of_not_mem (sep : Char) (h : '"' ∉ token) :
    unquotedPieces sep true token = [token] := by
  induction token with
  | nil => rfl
  | cons c cs ih =>
    obtain ⟨hc, hcs⟩ := List.ne_and_not_mem_of_not_mem_cons h
    have hquoted : quotedAfter true [c] = true := if_neg (Ne.symm hc)
    rw [unquotedPieces_cons_eq_singleton_iff, hquoted]
    exact ⟨fun hcut => Bool.noConfusion hcut.2, ih hcs⟩

/-- Inside quotes a text without quotes is one token. -/
theorem tokenPieces_true_of_not_mem (h : '"' ∉ token) : tokenPieces true token = [token] := by
  induction token with
  | nil => rfl
  | cons c cs ih =>
    obtain ⟨hc, hcs⟩ := List.ne_and_not_mem_of_not_mem_cons h
    rw [tokenPieces, if_neg (Ne.symm hc), if_neg (by simp), ih hcs]
    rfl

end Quotes

/-- A token between quotes is whole, whatever it holds. -/
theorem whole_writtenToken {sep : Char} (hsep : sep ≠ '"') {token : String}
    (h : '"' ∉ token.toList) : Whole sep (writtenToken token) := by
  have hopen : quotedAfter false ['"'] = true := rfl
  have hend : quotedAfter true token.toList = true := quotedAfter_true_of_not_mem h
  have hquote : ∀ quoted, ¬ ('"' = sep ∧ quotedAfter quoted ['"'] = false) :=
    fun _ hcut => hsep hcut.1.symm
  constructor
  · rw [writtenToken, unquotedPieces_cons_eq_singleton_iff, hopen]
    refine ⟨hquote false, ?_⟩
    refine unquotedPieces_append_eq_singleton (unquotedPieces_true_of_not_mem sep h) ?_
    rw [hend]
    exact unquotedPieces_cons_eq_singleton_iff.2 ⟨hquote true, rfl⟩
  · rw [writtenToken, quotedAfter_cons, hopen, quotedAfter_append, hend]
    rfl

/-- A token that is written in quotes is read back. -/
theorem tokenPieces_writtenToken {token : String} (h : '"' ∉ token.toList) :
    tokenPieces false (writtenToken token) = [token.toList] :=
  (tokenPieces_concat_quote true token.toList).trans (tokenPieces_true_of_not_mem h)

/-- A blank character outside quotes parts the tokens before it from those after it. -/
theorem tokenPieces_append_blank {c : Char} (hc : isBlank c = true) {quoted : Bool}
    {front : List Char} (h : quotedAfter quoted front = false) (back : List Char) :
    tokenPieces quoted (front ++ c :: back) =
      tokenPieces quoted front ++ tokenPieces false back := by
  induction front generalizing quoted with
  | nil =>
    rw [quotedAfter_nil] at h
    subst h
    rw [List.nil_append, tokenPieces, tokenPieces, if_neg (ne_quote_of_isBlank hc), hc]
    rfl
  | cons b bs ih =>
    rw [quotedAfter_cons, quotedAfter_singleton] at h
    rw [List.cons_append, tokenPieces, tokenPieces]
    split at h
    · next hb => rw [if_pos hb, if_pos hb, ih h]
    · next hb =>
      rw [if_neg hb, if_neg hb, ih h]
      split
      · rfl
      · exact consFirst_append b (tokenPieces_ne_nil _ bs) _

/-! ## Reading what was written -/

/-- Joined texts are cut where they were joined, if none of them ends inside quotes. -/
theorem cut_joined {cut : List Char → List (List Char)} {sep : Char}
    (hcut : ∀ front back, quotedAfter false front = false →
      cut (front ++ sep :: back) = cut front ++ cut back)
    {ps : List (List Char)} (hne : ps ≠ []) (hps : ∀ p ∈ ps, quotedAfter false p = false) :
    cut (joined sep ps) = ps.flatMap cut := by
  induction ps with
  | nil => exact absurd rfl hne
  | cons p ps ih =>
    obtain ⟨hp, hrest⟩ := List.forall_mem_cons.1 hps
    cases ps with
    | nil => simp [joined]
    | cons q qs =>
      rw [joined_cons_cons, hcut p _ hp, ih (List.cons_ne_nil q qs) hrest]
      rfl

/-- Whole texts joined by their separator are its pieces. -/
theorem unquotedPieces_joined {sep : Char} (hsep : sep ≠ '"') {ps : List (List Char)}
    (hne : ps ≠ []) (h : ∀ p ∈ ps, Whole sep p) :
    unquotedPieces sep false (joined sep ps) = ps := by
  rw [cut_joined (fun _ back hfront => unquotedPieces_append_sep hsep hfront back) hne
    fun p hp => (h p hp).closed]
  calc ps.flatMap (unquotedPieces sep false)
    _ = ps.flatMap fun p => [p] := List.flatMap_congr fun p hp => (h p hp).pieces
    _ = ps := List.flatMap_singleton' ps

/-- What all pieces end in, the joined text ends in. -/
theorem suffix_joined {s : List Char} {sep : Char} {ps : List (List Char)} (hne : ps ≠ [])
    (h : ∀ p ∈ ps, s <:+ p) : s <:+ joined sep ps := by
  induction ps with
  | nil => exact absurd rfl hne
  | cons p ps ih =>
    obtain ⟨hp, hps⟩ := List.forall_mem_cons.1 h
    cases ps with
    | nil => simpa [joined] using hp
    | cons q qs =>
      rw [joined_cons_cons]
      exact (ih (List.cons_ne_nil q qs) hps).trans
        ((List.suffix_cons sep _).trans (List.suffix_append p _))

/-- What ends in a quote holds a character that is not blank. -/
theorem allBlank_eq_false_of_suffix {text : List Char} (h : ['"'] <:+ text) :
    allBlank text = false := by
  obtain ⟨front, rfl⟩ := h
  simp [allBlank, show isBlank '"' = false from rfl]

/-- What ends in a quote has no blank character at its end. -/
theorem trimEnd_eq_self_of_suffix {text : List Char} (h : ['"'] <:+ text) :
    trimEnd text = text := by
  obtain ⟨front, rfl⟩ := h
  exact List.rdropWhile_concat_neg isBlank front '"' (by decide)

/-- Pieces that are whole and end in a quote are found again after joining, and none of them is
blank. -/
theorem nonblankPieces_joined {sep : Char} (hsep : sep ≠ '"') {ps : List (List Char)}
    (hne : ps ≠ []) (hwhole : ∀ p ∈ ps, Whole sep p) (hquote : ∀ p ∈ ps, ['"'] <:+ p) :
    nonblankPieces sep (joined sep ps) = ps := by
  rw [nonblankPieces, unquotedPieces_joined hsep hne hwhole, List.filter_eq_self]
  intro p hp
  rw [allBlank_eq_false_of_suffix (hquote p hp)]
  rfl

section Stage

variable {stage : List String}

/-- No separator but a space cuts a written stage. -/
theorem whole_writtenStage {sep : Char} (hquote : sep ≠ '"') (hspace : sep ≠ ' ')
    (h : ∀ token ∈ stage, IsToken token) : Whole sep (writtenStage stage) := by
  refine Whole.joined hspace.symm (by decide) (List.forall_mem_map.2 fun token htoken => ?_)
  exact whole_writtenToken hquote (h token htoken).2

theorem suffix_writtenStage (hne : stage ≠ []) : ['"'] <:+ writtenStage stage := by
  refine suffix_joined (by simpa using hne) (List.forall_mem_map.2 fun token _ => ?_)
  exact List.suffix_append ('"' :: token.toList) ['"']

/-- The tokens of a stage read back. -/
theorem tokensOf_writtenStage (hne : stage ≠ []) (h : ∀ token ∈ stage, IsToken token) :
    tokensOf (writtenStage stage) = stage := by
  have hclosed : ∀ p ∈ stage.map writtenToken, quotedAfter false p = false :=
    List.forall_mem_map.2 fun token htoken =>
      (whole_writtenToken (by decide : ';' ≠ '"') (h token htoken).2).closed
  have hpieces : tokenPieces false (writtenStage stage) = stage.map String.toList := by
    rw [writtenStage, cut_joined (fun _ back hfront => tokenPieces_append_blank rfl hfront back)
      (by simpa using hne) hclosed, List.flatMap_map, List.map_eq_flatMap]
    exact List.flatMap_congr fun token htoken => tokenPieces_writtenToken (h token htoken).2
  have hkept : ∀ p ∈ stage.map String.toList, decide (p ≠ []) = true :=
    List.forall_mem_map.2 fun token htoken => by simpa using (h token htoken).1
  rw [tokensOf, hpieces, List.filter_eq_self.2 hkept, List.map_map]
  simp

end Stage

section Part

variable {part : List (List String)}

/-- No semicolon cuts a written part. -/
theorem whole_writtenPart (h : ∀ stage ∈ part, ∀ token ∈ stage, IsToken token) :
    Whole ';' (writtenPart part) :=
  Whole.joined (by decide) (by decide) (List.forall_mem_map.2 fun stage hstage =>
    whole_writtenStage (by decide) (by decide) (h stage hstage))

theorem suffix_writtenPart (hne : part ≠ []) (h : ∀ stage ∈ part, stage ≠ []) :
    ['"'] <:+ writtenPart part :=
  suffix_joined (by simpa using hne) (List.forall_mem_map.2 fun stage hstage =>
    suffix_writtenStage (h stage hstage))

/-- The stages of a part read back. -/
theorem stagesOf_writtenPart (hne : part ≠ [])
    (h : ∀ stage ∈ part, stage ≠ [] ∧ ∀ token ∈ stage, IsToken token) :
    stagesOf (writtenPart part) = part := by
  have hpieces : nonblankPieces '|' (writtenPart part) = part.map writtenStage :=
    nonblankPieces_joined (by decide) (by simpa using hne)
      (List.forall_mem_map.2 fun stage hstage =>
        whole_writtenStage (by decide) (by decide) (h stage hstage).2)
      (List.forall_mem_map.2 fun stage hstage => suffix_writtenStage (h stage hstage).1)
  rw [stagesOf, hpieces, List.map_map]
  calc part.map (tokensOf ∘ writtenStage)
    _ = part.map id := List.map_congr_left fun stage hstage =>
        tokensOf_writtenStage (h stage hstage).1 (h stage hstage).2
    _ = part := List.map_id part

end Part

/-- A line written from tokens reads back as those tokens. -/
theorem parse_written {line : List (List (List String))} (h : Writable line) :
    parse (written line) = line := by
  by_cases hne : line = []
  · subst hne
    rfl
  have hwhole : ∀ p ∈ line.map writtenPart, Whole ';' p :=
    List.forall_mem_map.2 fun part hpart =>
      whole_writtenPart fun stage hstage => ((h part hpart).2 stage hstage).2
  have hquote : ∀ p ∈ line.map writtenPart, ['"'] <:+ p :=
    List.forall_mem_map.2 fun part hpart =>
      suffix_writtenPart (h part hpart).1 fun stage hstage => ((h part hpart).2 stage hstage).1
  have hparts : line.map writtenPart ≠ [] := by simpa using hne
  rw [parse_eq_partsOf, written, String.toList_ofList,
    trimEnd_eq_self_of_suffix (suffix_joined hparts hquote), partsOf,
    nonblankPieces_joined (by decide) hparts hwhole hquote, List.map_map]
  calc line.map (stagesOf ∘ writtenPart)
    _ = line.map id := List.map_congr_left fun part hpart =>
        stagesOf_writtenPart (h part hpart).1 (h part hpart).2
    _ = line := List.map_id line

/-! ## What is read -/

/-- A text that is not empty and neither begins nor ends with a blank character. -/
structure Tight (text : List Char) : Prop where
  ne_nil : text ≠ []
  head : isBlank (text.head ne_nil) = false
  last : isBlank (text.getLast ne_nil) = false

/-- Trimming leaves a text that neither begins nor ends with a blank character, or nothing. -/
theorem tight_trim {text : List Char} (h : trim text ≠ []) : Tight (trim text) where
  ne_nil := h
  head := by
    have hfront : trim text <+: trimStart text := List.rdropWhile_prefix isBlank _
    rw [hfront.head h]
    exact List.head_dropWhile_not isBlank _
  last := eq_false_of_ne_true (List.rdropWhile_last_not isBlank (trimStart text) h)

theorem tight_of_mem_trimmedPieces {sep : Char} {text : List Char} {piece : String}
    (h : piece ∈ (trimmedPieces sep text).map String.ofList) : Tight piece.toList := by
  obtain ⟨p, hp, rfl⟩ := List.mem_map.1 h
  obtain ⟨hmem, hne⟩ := List.mem_filter.1 hp
  obtain ⟨q, -, rfl⟩ := List.mem_map.1 hmem
  rw [String.toList_ofList]
  exact tight_trim (of_decide_eq_true hne)

/-- The parts of a line are tight. -/
theorem tight_of_mem_parts {line part : String} (h : part ∈ parts line) : Tight part.toList :=
  tight_of_mem_trimmedPieces h

theorem tight_of_mem_stages {part stage : String} (h : stage ∈ stages part) :
    Tight stage.toList :=
  tight_of_mem_trimmedPieces h

theorem forall_not_mem_consFirst {b c : Char} (h : b ≠ c) {ps : List (List Char)}
    (hps : ∀ p ∈ ps, b ∉ p) : ∀ p ∈ consFirst c ps, b ∉ p := by
  cases ps with
  | nil => exact List.forall_mem_singleton.2 (List.not_mem_cons_of_ne_of_not_mem h List.not_mem_nil)
  | cons p ps =>
    obtain ⟨hp, hrest⟩ := List.forall_mem_cons.1 hps
    exact List.forall_mem_cons.2 ⟨List.not_mem_cons_of_ne_of_not_mem h hp, hrest⟩

/-- Every quote of a stage is dropped. -/
theorem quote_not_mem_of_mem_tokenPieces (quoted : Bool) (text : List Char) :
    ∀ p ∈ tokenPieces quoted text, '"' ∉ p := by
  induction text generalizing quoted with
  | nil => exact List.forall_mem_singleton.2 List.not_mem_nil
  | cons c cs ih =>
    rw [tokenPieces]
    split
    · exact ih _
    · next hc =>
      split
      · exact List.forall_mem_cons.2 ⟨List.not_mem_nil, ih quoted⟩
      · exact forall_not_mem_consFirst (Ne.symm hc) (ih quoted)

/-- What is read as a token can be written: it has no quote. -/
theorem isToken_of_mem_tokens {stage token : String} (h : token ∈ tokens stage) :
    IsToken token := by
  obtain ⟨p, hp, rfl⟩ := List.mem_map.1 h
  obtain ⟨hmem, hne⟩ := List.mem_filter.1 hp
  refine ⟨by simpa using hne, ?_⟩
  rw [String.toList_ofList]
  exact quote_not_mem_of_mem_tokenPieces false stage.toList p hmem

/-- Quoting encodes all the tokens that a line can have: whatever is written reads back, and every
line reads as tokens, out of stages and parts that are not empty and have no blank characters around
them. -/
theorem quoting_complete :
    (∀ line, Writable line → parse (written line) = line) ∧
    ∀ line, ∀ part ∈ parts line, Tight part.toList ∧
      ∀ stage ∈ stages part, Tight stage.toList ∧
        ∀ token ∈ tokens stage, IsToken token :=
  ⟨fun _ => parse_written, fun _ _ hpart => ⟨tight_of_mem_parts hpart, fun _ hstage =>
    ⟨tight_of_mem_stages hstage, fun _ => isToken_of_mem_tokens⟩⟩⟩

/-- Separators, blanks and a tab in tokens, some of which hold nothing else. -/
theorem quoting_complete_separators :
    Writable [[["say", "a; b | c"], [" "]], [["\t;", "é"]]] ∧
      written [[["say", "a; b | c"], [" "]], [["\t;", "é"]]] =
        "\"say\" \"a; b | c\"|\" \";\"\t;\" \"é\"" ∧
      parse (written [[["say", "a; b | c"], [" "]], [["\t;", "é"]]]) =
        [[["say", "a; b | c"], [" "]], [["\t;", "é"]]] :=
  have h : Writable [[["say", "a; b | c"], [" "]], [["\t;", "é"]]] := by decide
  ⟨h, by decide, quoting_complete.1 _ h⟩

end SimTerm.Line
