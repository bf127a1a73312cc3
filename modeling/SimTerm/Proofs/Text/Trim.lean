import Mathlib.Data.List.DropRight
import SimTerm.Text.Blank

/-!
# Trimming

Trimming removes one blank character after the other, first in front and then at the end. So a
function that does not see a blank character at either end does not see trimming: `map_trim` and
`map_trimEnd`. What is left does not end in a blank character, and that makes the cut at the end the
only one: `trimEnd_eq_iff`.
-/

namespace SimTerm.Text

/-- Trimming the end drops from the right while characters are blank. -/
theorem trimEnd_eq_rdropWhile (cs : List Char) : trimEnd cs = cs.rdropWhile isBlank :=
  rfl

theorem trimStart_cons_of_isBlank {c : Char} (h : isBlank c = true) (cs : List Char) :
    trimStart (c :: cs) = trimStart cs :=
  List.dropWhile_cons_of_pos h

/-- A blank character at the end makes no difference to trimming there. -/
theorem trimEnd_concat_of_isBlank {c : Char} (h : isBlank c = true) (cs : List Char) :
    trimEnd (cs ++ [c]) = trimEnd cs := by
  rw [trimEnd_eq_rdropWhile, List.rdropWhile_concat_pos isBlank cs c h, trimEnd_eq_rdropWhile]

/-- Any number of blank characters at the end makes no difference. -/
theorem trimEnd_append_of_allBlank {blanks : List Char} (h : allBlank blanks = true)
    (cs : List Char) : trimEnd (cs ++ blanks) = trimEnd cs := by
  induction blanks using List.reverseRecOn with
  | nil => rw [List.append_nil]
  | append_singleton blanks c ih =>
    rw [allBlank, List.all_append, Bool.and_eq_true, List.all_cons, List.all_nil,
      Bool.and_true] at h
    rw [← List.append_assoc, trimEnd_concat_of_isBlank h.2, ih h.1]

theorem trimEnd_trimEnd (cs : List Char) : trimEnd (trimEnd cs) = trimEnd cs :=
  List.rdropWhile_idempotent isBlank cs

/-- A text is trimmed at the end exactly if its last character is not blank. -/
theorem trimEnd_eq_self_iff {cs : List Char} :
    trimEnd cs = cs ↔ ∀ c ∈ cs.getLast?, isBlank c = false := by
  rw [trimEnd_eq_rdropWhile, List.rdropWhile_eq_self_iff]
  constructor
  · intro h c hc
    obtain ⟨hne, rfl⟩ := List.mem_getLast?_eq_getLast hc
    exact Bool.eq_false_iff.2 (h hne)
  · intro h hne
    exact Bool.eq_false_iff.1 (h _ (List.getLast?_eq_some_getLast hne))

/-- Trimming the end leaves what does not end in a blank character and has blank characters only
after it; there is no other way to cut a text so. -/
theorem trimEnd_eq_iff {cs kept : List Char} :
    trimEnd cs = kept ↔
      (∀ c ∈ kept.getLast?, isBlank c = false) ∧
        ∃ blanks, allBlank blanks = true ∧ cs = kept ++ blanks := by
  constructor
  · rintro rfl
    refine ⟨trimEnd_eq_self_iff.1 (trimEnd_trimEnd cs), cs.rtakeWhile isBlank, ?_, ?_⟩
    · exact List.all_eq_true.2 fun c hc => List.mem_rtakeWhile_imp hc
    · exact List.rdropWhile_append_rtakeWhile.symm
  · rintro ⟨hlast, blanks, hblanks, rfl⟩
    rw [trimEnd_append_of_allBlank hblanks]
    exact trimEnd_eq_self_iff.2 hlast

/-- What does not see a blank character at the end does not see trimming there. -/
theorem map_trimEnd {β : Type} {f : List Char → β}
    (hend : ∀ cs c, isBlank c = true → f (cs ++ [c]) = f cs) (cs : List Char) :
    f (trimEnd cs) = f cs := by
  induction cs using List.reverseRecOn with
  | nil => rfl
  | append_singleton cs c ih =>
    by_cases hc : isBlank c = true
    · rw [trimEnd_concat_of_isBlank hc, ih, hend cs c hc]
    · rw [trimEnd_eq_rdropWhile, List.rdropWhile_concat_neg isBlank cs c hc]

/-- What does not see a blank character in front does not see trimming there. -/
theorem map_trimStart {β : Type} {f : List Char → β}
    (hstart : ∀ c cs, isBlank c = true → f (c :: cs) = f cs) (cs : List Char) :
    f (trimStart cs) = f cs := by
  induction cs with
  | nil => rfl
  | cons c cs ih =>
    by_cases hc : isBlank c = true
    · rw [trimStart_cons_of_isBlank hc, ih, hstart c cs hc]
    · rw [trimStart, List.dropWhile_cons_of_neg hc]

/-- What does not see a blank character at either end does not see trimming. -/
theorem map_trim {β : Type} {f : List Char → β}
    (hstart : ∀ c cs, isBlank c = true → f (c :: cs) = f cs)
    (hend : ∀ cs c, isBlank c = true → f (cs ++ [c]) = f cs) (cs : List Char) :
    f (trim cs) = f cs := by
  rw [trim, map_trimEnd hend, map_trimStart hstart]

theorem trim_cons_of_isBlank {c : Char} (h : isBlank c = true) (cs : List Char) :
    trim (c :: cs) = trim cs := by
  rw [trim, trimStart_cons_of_isBlank h, trim]

/-- A blank character at the end makes no difference to trimming, even where nothing else is left.
-/
theorem trim_concat_of_isBlank {c : Char} (h : isBlank c = true) (cs : List Char) :
    trim (cs ++ [c]) = trim cs := by
  have hc : trimStart [c] = [] := List.dropWhile_eq_nil_iff.2 (by simpa using h)
  rw [trim, trim, trimStart, List.dropWhile_append]
  split
  · next hnil =>
    rw [List.isEmpty_iff] at hnil
    rw [trimStart, hnil]
    exact congrArg trimEnd hc
  · exact trimEnd_concat_of_isBlank h _

/-- Nothing is left of a text exactly if it holds blank characters only. -/
theorem trim_eq_nil_iff (cs : List Char) : trim cs = [] ↔ allBlank cs = true := by
  rw [trim, trimEnd_eq_rdropWhile, List.rdropWhile_eq_nil_iff, allBlank, List.all_eq_true]
  refine ⟨fun h c hc => ?_, fun h c hc => h c ((List.dropWhile_suffix isBlank).subset hc)⟩
  rw [← List.takeWhile_append_dropWhile (p := isBlank) (l := cs), List.mem_append] at hc
  exact hc.elim List.mem_takeWhile_imp (h c)

/-- A text that ends like one without blank characters at the end has none there either. -/
theorem trimEnd_of_suffix {cs text : List Char} (h : cs <:+ text) (htext : trimEnd text = text) :
    trimEnd cs = cs := by
  obtain ⟨front, rfl⟩ := h
  rw [trimEnd_eq_self_iff] at htext ⊢
  exact fun c hc => htext c (List.mem_getLast?_append_of_mem_getLast? hc)

end SimTerm.Text
