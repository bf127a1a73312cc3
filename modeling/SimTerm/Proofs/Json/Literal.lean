import SimTerm.Json.Printer
import SimTerm.Json.Reader

/-!
# Literals read back

A string literal and a numeral that were written are read as what they were written for.

A literal is followed character by character: what `escapeChar` writes for a character is read as
one piece, and the pieces of a text denote the text. A numeral is a row of characters that a numeral
may hold, so the reader collects all of them and reads them at the end.
-/

namespace SimTerm.Json

/-- A text can be read in two parts. -/
theorem Reader.run_append (r : Reader) (cs ds : List Char) :
    r.run (cs ++ ds) = (r.run cs).bind (·.run ds) := by
  induction cs generalizing r with
  | nil => rfl
  | cons c cs ih =>
    rw [List.cons_append, Reader.run, Reader.run]
    cases r.step c with
    | none => rfl
    | some next => exact ih next

theorem Reader.run_cons {r next : Reader} {c : Char} (h : r.step c = some next)
    (cs : List Char) : r.run (c :: cs) = next.run cs := by
  rw [Reader.run, h]

/-! ## Strings -/

/-- The piece that a character is read back as. -/
def pieceOf (c : Char) : Piece :=
  match c with
  | '\x08' => .char '\x08'
  | '\x0c' => .char '\x0c'
  | '\n' => .char '\n'
  | '\r' => .char '\r'
  | '\t' => .char '\t'
  | c => if c.toNat < 0x20 then .unit c.toNat else .char c

/-- Every hexadecimal digit that is written is read back. -/
theorem hexValue?_digitChar {n : Nat} (h : n < 16) :
    hexValue? (Nat.digitChar n) = some n := by
  have hall : ∀ n : Fin 16, hexValue? (Nat.digitChar n) = some n.val := by decide
  exact hall ⟨n, h⟩

/-- A unit of two zeros and the two digits of a small number is read as that number. -/
theorem run_hex {n : Nat} (h : n < 0x20) (ps : List Piece) (s : Stack) :
    Reader.run ⟨.string ps, s⟩
        ['\\', 'u', '0', '0', Nat.digitChar (n / 16), Nat.digitChar (n % 16)] =
      some ⟨.string (.unit n :: ps), s⟩ := by
  have hhigh : hexValue? (Nat.digitChar (n / 16)) = some (n / 16) :=
    hexValue?_digitChar (by omega)
  have hlow : hexValue? (Nat.digitChar (n % 16)) = some (n % 16) :=
    hexValue?_digitChar (by omega)
  have hzero : hexValue? '0' = some 0 := by decide
  simp [Reader.run, Reader.step, hhigh, hlow, hzero]
  omega

/-- What is written for a character is read as one piece, the one that stands for it. -/
theorem run_escapeChar (c : Char) (ps : List Piece) (s : Stack) :
    Reader.run ⟨.string ps, s⟩ (escapeChar c) = some ⟨.string (pieceOf c :: ps), s⟩ := by
  -- the seven short escapes compute; what is left is a unit of four digits or the character itself
  unfold escapeChar
  split
  · rfl
  · rfl
  · rfl
  · rfl
  · rfl
  · rfl
  · rfl
  · next hquote hslash h8 hc hn hr ht =>
    have hpiece : pieceOf c = if c.toNat < 0x20 then .unit c.toNat else .char c := by
      unfold pieceOf
      split <;> first | contradiction | rfl
    rw [hpiece]
    split
    · next hlow => exact run_hex hlow ps s
    · next hhigh =>
      have hq : c ≠ '"' := hquote
      have hs : c ≠ '\\' := hslash
      simp [Reader.run, Reader.step, hq, hs, hhigh]

/-- What is written for characters is read as their pieces, by induction on the characters. -/
theorem run_escape (cs : List Char) (ps : List Piece) (s : Stack) :
    Reader.run ⟨.string ps, s⟩ (escape cs) = some ⟨.string ((cs.map pieceOf).reverse ++ ps), s⟩ := by
  induction cs generalizing ps with
  | nil => rfl
  | cons c cs ih =>
    rw [escape, List.flatMap_cons, Reader.run_append, run_escapeChar, Option.bind_some, ← escape,
      ih]
    simp

/-- A unit below the surrogates is a character by itself. -/
theorem textOf?_unit {u : Nat} (h : u < 0xD800) (ps : List Piece) :
    textOf? (.unit u :: ps) = (textOf? ps).map (Char.ofNat u :: ·) := by
  have hnotHigh : isHighSurrogate u = false := by
    simp [isHighSurrogate]
    omega
  have hnotLow : isLowSurrogate u = false := by
    simp [isLowSurrogate]
    omega
  cases ps with
  | nil => simp [textOf?, hnotHigh, hnotLow]
  | cons p ps => cases p <;> simp [textOf?, hnotHigh, hnotLow]

/-- The piece of a character is that character, in front of what follows. -/
theorem textOf?_pieceOf (c : Char) (ps : List Piece) :
    textOf? (pieceOf c :: ps) = (textOf? ps).map (c :: ·) := by
  unfold pieceOf
  split
  · rfl
  · rfl
  · rfl
  · rfl
  · rfl
  · split
    · next hlow => rw [textOf?_unit (by omega), Char.ofNat_toNat]
    · rfl

/-- The pieces of some characters are these characters. -/
theorem textOf?_map_pieceOf (cs : List Char) : textOf? (cs.map pieceOf) = some cs := by
  induction cs with
  | nil => rfl
  | cons c cs ih => rw [List.map_cons, textOf?_pieceOf, ih, Option.map_some]

/-- A literal is handed over as what it was written for. -/
theorem run_renderString (text : Option String) (s : Stack) :
    Reader.run ⟨.between, s⟩ (renderString text) =
      (s.take (.scalar (.string text))).map (⟨.between, ·⟩) := by
  have hopen : Reader.step ⟨.between, s⟩ '"' = some ⟨.string [], s⟩ := rfl
  cases text with
  | none =>
    have halone : Reader.run ⟨.string [], s⟩ ['\\', 'u', 'd', '8', '0', '0'] =
        some ⟨.string [.unit 0xD800], s⟩ := rfl
    have hclose : Reader.step ⟨.string [.unit 0xD800], s⟩ '"' =
        (s.take (.scalar (.string none))).map (⟨.between, ·⟩) := rfl
    rw [show renderString none = '"' :: (['\\', 'u', 'd', '8', '0', '0'] ++ ['"']) from rfl,
      Reader.run_cons hopen, Reader.run_append, halone, Option.bind_some, Reader.run, hclose]
    cases s.take (.scalar (.string none)) with
    | none => rfl
    | some next => rfl
  | some text =>
    have hclose : Reader.step ⟨.string (text.toList.map pieceOf).reverse, s⟩ '"' =
        (s.take (.scalar (.string (some text)))).map (⟨.between, ·⟩) := by
      simp [Reader.step, textOf?_map_pieceOf]
    rw [renderString, quoted, List.cons_append, Reader.run_cons hopen, Reader.run_append,
      run_escape, List.append_nil, Option.bind_some, Reader.run, hclose]
    cases s.take (.scalar (.string (some text))) with
    | none => rfl
    | some next => rfl

/-! ## Numerals -/

namespace Numeral

theorem digitsOf_ne_nil (n : Nat) : digitsOf n ≠ [] :=
  Nat.toDigits_ne_nil

/-- Numbers are written in digits. -/
theorem all_isDigit_digitsOf (n : Nat) : ∀ c ∈ digitsOf n, c.isDigit :=
  fun _ hc => Nat.isDigit_of_mem_toDigits (by decide) (by decide) hc

/-- The digits of a number are read as the number. -/
theorem digitsValue_digitsOf (n : Nat) : digitsValue (digitsOf n) = n :=
  Nat.ofDigitChars_ten_toDigits

/-- Only zero starts with a zero. -/
theorem eq_zero_of_head_digitsOf (n : Nat) (h : (digitsOf n).head? = some '0') : n = 0 := by
  -- the first digit is that of a tenth of the number, down to a number of one digit
  induction n using Nat.strongRecOn with
  | ind n ih =>
    rw [digitsOf, Nat.toDigits_eq_if (by decide)] at h
    by_cases hn : n < 10
    · have hall : ∀ d : Fin 10, Nat.digitChar d = '0' → d.val = 0 := by decide
      rw [if_pos hn, List.head?_cons, Option.some.injEq] at h
      exact hall ⟨n, hn⟩ h
    · have htenth : (digitsOf (n / 10)).head? = some '0' := by
        rw [if_neg hn, List.head?_append] at h
        cases hdigits : (Nat.toDigits 10 (n / 10)).head? with
        | none => exact absurd (List.head?_eq_none_iff.1 hdigits) Nat.toDigits_ne_nil
        | some c =>
          rw [hdigits] at h
          have hc : some c = some '0' := h
          rw [digitsOf, hdigits, hc]
      have hzero := ih (n / 10) (by omega) htenth
      omega

/-- Digits are taken whole where something else follows them. -/
theorem takeWhile_digitsOf (n : Nat) {rest : List Char}
    (h : rest.takeWhile Char.isDigit = []) :
    (digitsOf n ++ rest).takeWhile Char.isDigit = digitsOf n := by
  rw [List.takeWhile_append_of_pos (all_isDigit_digitsOf n), h, List.append_nil]

/-- Where no digit follows, the digits of a number can be told from what follows. -/
theorem dropWhile_digitsOf (n : Nat) {rest : List Char}
    (h : rest.dropWhile Char.isDigit = rest) :
    (digitsOf n ++ rest).dropWhile Char.isDigit = rest := by
  rw [List.dropWhile_append_of_pos (all_isDigit_digitsOf n), h]

/-- A sign is written for a negative numeral only. -/
theorem splitMinus_signed (negative : Bool) (n : Nat) (rest : List Char) :
    splitMinus ((if negative then ['-'] else []) ++ (digitsOf n ++ rest)) =
      (negative, digitsOf n ++ rest) := by
  cases negative with
  | true => rfl
  | false =>
    cases hn : digitsOf n with
    | nil => exact absurd hn (digitsOf_ne_nil n)
    | cons c cs =>
      have hc : c ≠ '-' := by
        have hdigit := all_isDigit_digitsOf n c (hn ▸ List.mem_cons_self)
        intro heq
        rw [heq] at hdigit
        cases hdigit
      unfold splitMinus
      split
      · next heq =>
        simp at heq
        exact absurd heq.1 hc
      · rfl

/-- What is read of a sign, digits and a rest without a fraction. -/
theorem read?_signed (negative : Bool) (n : Nat) {rest : List Char}
    (htake : rest.takeWhile Char.isDigit = []) (hdrop : rest.dropWhile Char.isDigit = rest)
    (hpoint : splitFraction rest = some ([], rest)) {exponent : Option Int}
    (hexp : exponent? rest = some exponent) :
    read? ((if negative then ['-'] else []) ++ (digitsOf n ++ rest)) =
      some (if negative = false ∧ exponent = none then natural n
        else decimal negative n (exponent.getD 0)) := by
  have hzero : ((digitsOf n).head? = some '0' && (digitsOf n).length ≠ 1) = false := by
    rw [Bool.and_eq_false_iff, decide_eq_false_iff_not, decide_eq_false_iff_not]
    by_cases hhead : (digitsOf n).head? = some '0'
    · right
      rw [eq_zero_of_head_digitsOf n hhead]
      exact fun hlength => hlength rfl
    · exact Or.inl hhead
  unfold read?
  simp only [splitMinus_signed, takeWhile_digitsOf n htake, dropWhile_digitsOf n hdrop, hpoint,
    digitsOf_ne_nil, hzero, if_false, Bool.false_eq_true]
  cases negative <;> cases exponent <;>
    simp [hexp, digitsValue_digitsOf]

/-- A whole number with its sign reads back as itself. -/
theorem signedValue?_render (k : Int) :
    signedValue? ((if k < 0 then ['-'] else []) ++ digitsOf k.natAbs) = some k := by
  have hall : (digitsOf k.natAbs).all Char.isDigit = true :=
    List.all_eq_true.2 (all_isDigit_digitsOf k.natAbs)
  have hvalue := digitsValue_digitsOf k.natAbs
  by_cases hk : k < 0
  · have hneg : -(k.natAbs : Int) = k := by omega
    simpa [signedValue?, hk, hall, hvalue, digitsOf_ne_nil] using hneg
  · rw [if_neg hk, List.nil_append]
    unfold signedValue?
    split
    next negative digits hsplit =>
    split at hsplit
    · next ds hds =>
      rw [hds] at hall
      cases hall
    · next ds hds =>
      rw [hds] at hall
      cases hall
    · obtain ⟨rfl, rfl⟩ := Prod.mk.inj hsplit
      have hpos : (k.natAbs : Int) = k := by omega
      simpa [hall, hvalue, digitsOf_ne_nil] using hpos

/-- A numeral that was written reads back as the same one. -/
theorem read?_render (n : Numeral) : read? n.render = some n := by
  cases n with
  | natural n =>
    have hpoint : splitFraction [] = some ([], []) := rfl
    have hread := read?_signed false n rfl rfl hpoint rfl
    simpa [render] using hread
  | decimal negative digits exponent =>
    have hexp : exponent? ('e' :: ((if exponent < 0 then ['-'] else []) ++
        digitsOf exponent.natAbs)) = some (some exponent) := by
      rw [exponent?, signedValue?_render, Option.map_some]
    have hread := read?_signed negative digits (by rfl) (by rfl) (by rfl) hexp
    simpa [render] using hread

end Numeral

end SimTerm.Json
