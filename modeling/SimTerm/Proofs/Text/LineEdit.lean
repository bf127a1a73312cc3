import Mathlib.Algebra.GroupWithZero.Nat
import Mathlib.Data.List.Induction
import SimTerm.Proofs.Path
import SimTerm.Text.LineEdit

/-!
# Line numbers and edited lines

What `lineNumber?` accepts is what a line number can be written as: the digits of the number, with
zeros and then a sign in front of them or not (`lineNumber?_eq_some_iff`). What `replaceLine` makes of
a list of lines is told line by line (`replaceLine_replaced`). Lines without a line feed in them are
found again in the text that they are joined to (`lines_unlines`).
-/

namespace SimTerm.Text

/-! ## Line numbers -/

/-- The text is the number in decimal digits; there may be zeros in front of them, and a plus sign in
front of all. -/
def InDecimal (n : Nat) (text : String) : Prop :=
  ∃ zeros, text.toList = List.replicate zeros '0' ++ Nat.toDigits 10 n ∨
    text.toList = '+' :: (List.replicate zeros '0' ++ Nat.toDigits 10 n)

/-- The text counts line `n`, the first line being 1; a count fits into 64 bits. -/
structure Counts (text : String) (n : Nat) : Prop where
  pos : 1 ≤ n
  fits : n < 2 ^ 64
  inDecimal : InDecimal n text

/-- A digit is the one that is written for its value. -/
theorem digitChar_of_isDigit {c : Char} (h : c.isDigit) :
    c.toNat - '0'.toNat < 10 ∧ Nat.digitChar (c.toNat - '0'.toNat) = c := by
  have hbounds : 48 ≤ c.toNat ∧ c.toNat ≤ 57 := by
    simpa [Char.isDigit, UInt32.le_iff_toNat_le] using h
  have hzero : '0'.toNat = 48 := rfl
  have hlt : c.toNat - '0'.toNat < 10 := by omega
  refine ⟨hlt, Char.toNat_inj.1 ?_⟩
  rw [Nat.toNat_digitChar_of_lt_ten hlt]
  omega

/-- Zeros in front of a written number are digits as well. -/
theorem all_isDigit_zeros_toDigits (zeros n : Nat) :
    ∀ c ∈ List.replicate zeros '0' ++ Nat.toDigits 10 n, c.isDigit := by
  refine List.forall_mem_append.2 ⟨fun c hc => ?_, fun c hc => ?_⟩
  · rw [List.eq_of_mem_replicate hc]
    rfl
  · exact Nat.isDigit_of_mem_toDigits (by decide) (by decide) hc

/-- Zeros in front do not change the value. -/
theorem ofDigitChars_zeros_toDigits (zeros n : Nat) :
    Nat.ofDigitChars 10 (List.replicate zeros '0' ++ Nat.toDigits 10 n) 0 = n := by
  rw [Nat.ofDigitChars_append, Nat.ofDigitChars_replicate_zero, Nat.mul_zero,
    Nat.ofDigitChars_ten_toDigits]

/-- A row of digits is its value in decimal digits, behind zeros. -/
theorem exists_zeros_of_digits {ds : List Char} (hne : ds ≠ []) (h : ∀ d ∈ ds, d.isDigit) :
    ∃ zeros, ds = List.replicate zeros '0' ++ Nat.toDigits 10 (Nat.ofDigitChars 10 ds 0) := by
  -- one more digit at the end, behind a value that is zero or not
  induction ds using List.reverseRecOn with
  | nil => exact absurd rfl hne
  | append_singleton ds c ih =>
    obtain ⟨hds, hc⟩ := List.forall_mem_append.1 h
    obtain ⟨hlt, hchar⟩ := digitChar_of_isDigit (hc c List.mem_cons_self)
    have hdigit : Nat.toDigits 10 (c.toNat - '0'.toNat) = [c] := by
      rw [Nat.toDigits_of_lt_base hlt, hchar]
    have hvalue : Nat.ofDigitChars 10 (ds ++ [c]) 0 =
        10 * Nat.ofDigitChars 10 ds 0 + (c.toNat - '0'.toNat) := by
      rw [Nat.ofDigitChars_append, Nat.ofDigitChars_cons, Nat.ofDigitChars_nil]
    rw [hvalue]
    by_cases hnil : ds = []
    · subst hnil
      refine ⟨0, ?_⟩
      rw [Nat.ofDigitChars_nil, Nat.mul_zero, Nat.zero_add, hdigit]
      rfl
    · obtain ⟨zeros, hzeros⟩ := ih hnil hds
      rcases Nat.eq_zero_or_pos (Nat.ofDigitChars 10 ds 0) with hzero | hpos
      · rw [hzero, Nat.toDigits_zero] at hzeros
        refine ⟨zeros + 1, ?_⟩
        rw [hzero, Nat.mul_zero, Nat.zero_add, hdigit, List.replicate_succ', ← hzeros]
      · refine ⟨zeros, ?_⟩
        rw [← Nat.toDigits_append_toDigits (by decide) hpos hlt, hdigit, ← List.append_assoc,
          ← hzeros]

/-- The number that a text without a sign is read as. -/
def unsigned? (digits : List Char) : Option Nat :=
  if digits = [] || !digits.all Char.isDigit then none
  else if Nat.ofDigitChars 10 digits 0 < 2 ^ 64 then some (Nat.ofDigitChars 10 digits 0) else none

/-- Digits are read as a number below `2 ^ 64` exactly if they are its digits with any zeros in
front. -/
theorem unsigned?_eq_some_iff {ds : List Char} {n : Nat} :
    unsigned? ds = some n ↔
      n < 2 ^ 64 ∧ ∃ zeros, ds = List.replicate zeros '0' ++ Nat.toDigits 10 n := by
  constructor
  · intro h
    -- only digits, not too large: then the zeros are what is in front of the value
    unfold unsigned? at h
    split at h
    · cases h
    · next hdigits =>
      obtain ⟨hne, hall⟩ : ds ≠ [] ∧ ∀ d ∈ ds, d.isDigit := by simpa using hdigits
      split at h
      · next hfits =>
        obtain rfl := Option.some.inj h
        exact ⟨hfits, exists_zeros_of_digits hne hall⟩
      · cases h
  · rintro ⟨hfits, zeros, rfl⟩
    have hne : List.replicate zeros '0' ++ Nat.toDigits 10 n ≠ [] :=
      List.append_ne_nil_of_right_ne_nil _ Nat.toDigits_ne_nil
    have hall := List.all_eq_true.2 (all_isDigit_zeros_toDigits zeros n)
    rw [unsigned?, ofDigitChars_zeros_toDigits, if_neg (by simp [hne, hall]), if_pos hfits]

/-- One plus sign in front is dropped. -/
theorem wholeNumber?_of_plus {s : String} {cs : List Char} (h : s.toList = '+' :: cs) :
    wholeNumber? s = unsigned? cs := by
  unfold wholeNumber?
  rw [h]
  rfl

/-- Without a plus sign all characters have to be digits. -/
theorem wholeNumber?_of_not_plus {s : String} (h : ∀ cs, s.toList ≠ '+' :: cs) :
    wholeNumber? s = unsigned? s.toList := by
  unfold wholeNumber?
  cases hs : s.toList with
  | nil => rfl
  | cons c cs =>
    have hc : c ≠ '+' := fun heq => h cs (heq ▸ hs)
    split
    · next cs' heq => exact absurd (List.cons.inj heq).1 hc
    · rfl

/-- A text is read as a number exactly if it is that number in decimal and fits into 64 bits. -/
theorem wholeNumber?_eq_some_iff {s : String} {n : Nat} :
    wholeNumber? s = some n ↔ n < 2 ^ 64 ∧ InDecimal n s := by
  by_cases hplus : ∃ cs, s.toList = '+' :: cs
  · obtain ⟨cs, hcs⟩ := hplus
    have hnot (zeros : Nat) : '+' :: cs ≠ List.replicate zeros '0' ++ Nat.toDigits 10 n := fun heq =>
      absurd (all_isDigit_zeros_toDigits zeros n '+' (heq ▸ List.mem_cons_self)) (by decide)
    simp [wholeNumber?_of_plus hcs, unsigned?_eq_some_iff, InDecimal, hcs, hnot]
  · have hnot := not_exists.1 hplus
    simp [wholeNumber?_of_not_plus hnot, unsigned?_eq_some_iff, InDecimal, hnot]

/-- A place is a line exactly if it counts it. -/
theorem lineNumber?_eq_some_iff {place : String} {n : Nat} :
    lineNumber? place = some n ↔ Counts place n := by
  rw [lineNumber?, Option.filter_eq_some_iff, wholeNumber?_eq_some_iff, decide_eq_true_eq]
  exact ⟨fun ⟨⟨hfits, hin⟩, hpos⟩ => ⟨hpos, hfits, hin⟩,
    fun h => ⟨⟨h.fits, h.inDecimal⟩, h.pos⟩⟩

/-! ## Edited lines -/

/-- Line `n` is replaced: it is the new line, the other lines are kept, and where there were fewer
than `n` lines, empty ones fill up. -/
structure Replaced (old : List String) (n : Nat) (line : String) (new : List String) : Prop where
  length_eq : new.length = max old.length n
  replaced : new[n - 1]? = some line
  kept : ∀ i < old.length, i ≠ n - 1 → new[i]? = old[i]?
  filled : ∀ i < new.length, old.length ≤ i → i ≠ n - 1 → new[i]? = some ""

/-- There is one way to replace a line. -/
theorem Replaced.unique {old new other : List String} {n : Nat} {line : String}
    (h : Replaced old n line new) (h' : Replaced old n line other) : new = other := by
  have hlength : new.length = other.length := h.length_eq.trans h'.length_eq.symm
  refine List.ext_getElem? fun i => ?_
  by_cases hplace : i = n - 1
  · rw [hplace, h.replaced, h'.replaced]
  · rcases Nat.lt_or_ge i old.length with hold | hbehind
    · rw [h.kept i hold hplace, h'.kept i hold hplace]
    · rcases Nat.lt_or_ge i new.length with hi | hi
      · rw [h.filled i hi hbehind hplace, h'.filled i (hlength ▸ hi) hbehind hplace]
      · rw [List.getElem?_eq_none hi, List.getElem?_eq_none (hlength ▸ hi)]

/-- Replacing a line fills up with empty lines to it, puts the text there, and leaves the other
lines. -/
theorem replaceLine_replaced {n : Nat} (hn : 1 ≤ n) (ls : List String) (line : String) :
    Replaced ls n line (replaceLine ls n line) := by
  have hlength : (ls ++ List.replicate (n - ls.length) "").length = max ls.length n := by
    rw [List.length_append, List.length_replicate]
    omega
  refine ⟨?_, ?_, ?_, ?_⟩
  · rw [replaceLine, List.length_set, hlength]
  · rw [replaceLine, List.getElem?_set_self (by omega)]
  · intro i hi hne
    rw [replaceLine, List.getElem?_set_ne hne.symm, List.getElem?_append_left hi]
  · intro i hi hbehind hne
    rw [replaceLine, List.length_set, hlength] at hi
    rw [replaceLine, List.getElem?_set_ne hne.symm, List.getElem?_append_right hbehind,
      List.getElem?_replicate, if_pos (by omega)]

/-- A place that counts a line has that line replaced. -/
theorem editLines?_of_counts {place : String} {n : Nat} (h : Counts place n) (ls : List String)
    (line : String) : editLines? ls place line = some (replaceLine ls n line) := by
  have hnumber : lineNumber? place = some n := lineNumber?_eq_some_iff.2 h
  have hplus : place ≠ "+" := by
    rintro rfl
    cases hnumber
  rw [editLines?, if_neg hplus, hnumber, Option.map_some]

/-- A place that is neither a plus sign nor counts a line is none to edit at. -/
theorem editLines?_eq_none {place : String} (hplus : place ≠ "+") (h : ∀ n, ¬ Counts place n)
    (ls : List String) (line : String) : editLines? ls place line = none := by
  rw [editLines?, if_neg hplus, Option.map_eq_none_iff]
  exact Option.eq_none_iff_forall_ne_some.2 fun n hn => h n (lineNumber?_eq_some_iff.1 hn)

/-- The new line is one of those that an edit comes to. -/
theorem mem_editLines? {ls edited : List String} {place line : String}
    (h : editLines? ls place line = some edited) : line ∈ edited := by
  unfold editLines? at h
  split at h
  · obtain rfl := Option.some.inj h
    exact List.mem_append_right ls List.mem_cons_self
  · obtain ⟨n, hn, rfl⟩ := Option.map_eq_some_iff.1 h
    exact List.mem_of_getElem?
      (replaceLine_replaced (lineNumber?_eq_some_iff.1 hn).pos ls line).replaced

/-! ## Lines of a text -/

/-- No line of a text has a line feed. -/
theorem no_newline_of_mem_lines {s line : String} (h : line ∈ lines s) : '\n' ∉ line.toList := by
  obtain ⟨p, hp, rfl⟩ := List.mem_map.1 h
  rw [String.toList_ofList]
  exact not_mem_of_mem_pieces hp

/-- Lines without a line feed in them are found again. -/
theorem lines_unlines {ls : List String} (hne : ls ≠ []) (h : ∀ l ∈ ls, '\n' ∉ l.toList) :
    lines (unlines ls) = ls := by
  have hpieces : pieces '\n' (joined '\n' (ls.map String.toList)) = ls.map String.toList :=
    pieces_joined (by simpa using hne) (List.forall_mem_map.2 h)
  rw [lines, split, unlines, join, String.toList_ofList, hpieces, List.map_map]
  exact List.map_id'' (fun l => String.ofList_toList) ls

end SimTerm.Text
