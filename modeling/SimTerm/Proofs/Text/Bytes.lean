import Mathlib.Tactic.SplitIfs

/-!
# Texts by their bytes

Texts are compared character by character, and the smaller text has the smaller UTF-8 bytes
(`bytes_lt_of_lt`). A code point is written as a first byte with a mark that says how many bytes
follow, and following bytes of six bits each, the greatest first. The marks grow with the number of
bytes, and within one number of bytes the first digit that differs decides, whatever comes behind.
-/

namespace SimTerm.Text

/-- The UTF-8 bytes of a text. -/
def bytes (s : String) : List UInt8 :=
  s.toUTF8.data.toList

/-- The bytes of a text are those of its characters, one after the other. -/
theorem bytes_eq (s : String) : bytes s = s.toList.flatMap String.utf8EncodeChar := by
  obtain ⟨cs, rfl⟩ : ∃ cs, s = String.ofList cs := ⟨s.toList, String.ofList_toList.symm⟩
  rw [String.toList_ofList]
  exact List.toList_data_toByteArray

/-! ## One code point -/

/-- How many bytes follow the first one. -/
def followers (v : Nat) : Nat :=
  if v ≤ 127 then 0 else if v ≤ 2047 then 1 else if v ≤ 65535 then 2 else 3

/-- The mark in the first byte. -/
def mark : Nat → Nat
  | 0 => 0
  | 1 => 192
  | 2 => 224
  | _ => 240

/-- A number without its last `k` digits of six bits. -/
def front : Nat → Nat → Nat
  | 0, v => v
  | k + 1, v => front k v / 64

/-- The last `k` digits of six bits, each with the mark of a following byte. -/
def following : Nat → Nat → List UInt8
  | 0, _ => []
  | k + 1, v => UInt8.ofNat (front k v % 64 + 128) :: following k v

/-- The bytes of a code point. -/
def codeBytes (v : Nat) : List UInt8 :=
  UInt8.ofNat (front (followers v) v + mark (followers v)) :: following (followers v) v

/-- There are 17 planes of code points. -/
theorem toNat_lt (c : Char) : c.toNat < 0x110000 := by
  rcases c.valid with hlow | ⟨-, hhigh⟩
  · exact Nat.lt_trans hlow (by decide)
  · exact hhigh

/-- The bytes of a character are those of its code point. -/
theorem utf8EncodeChar_eq (c : Char) : String.utf8EncodeChar c = codeBytes c.toNat := by
  have hsmall : c.val.toNat < 0x110000 := toNat_lt c
  show String.utf8EncodeChar c = codeBytes c.val.toNat
  simp only [String.utf8EncodeChar, codeBytes, followers]
  generalize c.val.toNat = v at hsmall ⊢
  -- the first digit is small enough to stand as it is
  split_ifs with hone htwo hthree
  · rw [front, mark, following, Nat.add_zero]
  · have hdigit : v / 64 % 32 = v / 64 := Nat.mod_eq_of_lt (by omega)
    simp [front, mark, following, hdigit]
  · have hdigit : v / 4096 % 16 = v / 4096 := Nat.mod_eq_of_lt (by omega)
    simp [front, mark, following, hdigit, Nat.div_div_eq_div_mul]
  · have hdigit : v / 262144 % 8 = v / 262144 := Nat.mod_eq_of_lt (by omega)
    simp [front, mark, following, hdigit, Nat.div_div_eq_div_mul]

/-- Bytes are compared one after the other: the first that differ decide. -/
theorem ofNat_cons_lt {m n : Nat} (hn : n < 256) {bs cs : List UInt8}
    (h : m < n ∨ m = n ∧ bs < cs) : UInt8.ofNat m :: bs < UInt8.ofNat n :: cs := by
  rw [List.cons_lt_cons_iff]
  rcases h with hlt | ⟨rfl, hlt⟩
  · left
    have hm : m < 256 := by omega
    rw [UInt8.lt_iff_toNat_lt, UInt8.toNat_ofNat', UInt8.toNat_ofNat', Nat.mod_eq_of_lt hm,
      Nat.mod_eq_of_lt hn]
    exact hlt
  · exact Or.inr ⟨rfl, hlt⟩

/-- The digits in front grow with the number. -/
theorem front_le {v w : Nat} (h : v ≤ w) (k : Nat) : front k v ≤ front k w := by
  induction k with
  | zero => exact h
  | succ k ih => exact Nat.div_le_div_right ih

/-- Between numbers with the same digits in front, the digits that follow decide. -/
theorem following_append_lt {v w : Nat} (h : v < w) {k : Nat} (hfront : front k v = front k w)
    (bs cs : List UInt8) : following k v ++ bs < following k w ++ cs := by
  induction k with
  | zero =>
    rw [front, front] at hfront
    omega
  | succ k ih =>
    have hdigit : front k w % 64 + 128 < 256 := by omega
    apply ofNat_cons_lt hdigit
    rw [front, front] at hfront
    rcases Nat.lt_or_eq_of_le (front_le (Nat.le_of_lt h) k) with hlt | heq
    · left
      omega
    · right
      exact ⟨by rw [heq], ih heq⟩

/-- The first byte of the smaller code point is smaller, or it is the same and as many follow. -/
theorem first_lt_or_eq {v w : Nat} (h : v < w) (hw : w < 0x110000) :
    front (followers v) v + mark (followers v) < front (followers w) w + mark (followers w) ∨
      followers v = followers w ∧ front (followers v) v = front (followers w) w := by
  by_cases hcount : followers v = followers w
  · rw [hcount]
    rcases Nat.lt_or_eq_of_le (front_le (Nat.le_of_lt h) (followers w)) with hlt | heq
    · exact Or.inl (Nat.add_lt_add_right hlt _)
    · exact Or.inr ⟨rfl, heq⟩
  · left
    unfold followers at hcount ⊢
    split_ifs at hcount ⊢ <;> simp only [front, mark] <;> omega

/-- The first byte is one byte. -/
theorem first_lt {w : Nat} (hw : w < 0x110000) :
    front (followers w) w + mark (followers w) < 256 := by
  unfold followers
  split_ifs <;> simp only [front, mark] <;> omega

/-- The smaller code point has the smaller bytes, whatever comes behind them. -/
theorem codeBytes_append_lt {v w : Nat} (h : v < w) (hw : w < 0x110000) (bs cs : List UInt8) :
    codeBytes v ++ bs < codeBytes w ++ cs := by
  apply ofNat_cons_lt (first_lt hw)
  rcases first_lt_or_eq h hw with hlt | ⟨hcount, hfront⟩
  · exact Or.inl hlt
  · right
    rw [hcount] at hfront ⊢
    exact ⟨by rw [hfront], following_append_lt h hfront bs cs⟩

/-! ## Texts -/

/-- The smaller text has the smaller bytes, by induction on where the texts differ. -/
theorem flatMap_lt_flatMap {cs ds : List Char} (h : cs < ds) :
    cs.flatMap String.utf8EncodeChar < ds.flatMap String.utf8EncodeChar := by
  induction h with
  | nil =>
    rw [List.flatMap_nil, List.flatMap_cons, utf8EncodeChar_eq]
    exact List.nil_lt_cons _ _
  | rel hlt =>
    rw [List.flatMap_cons, List.flatMap_cons, utf8EncodeChar_eq, utf8EncodeChar_eq]
    exact codeBytes_append_lt hlt (toNat_lt _) _ _
  | cons _ ih =>
    rw [List.flatMap_cons, List.flatMap_cons]
    exact List.append_left_lt ih

/-- The order of texts is the order of their bytes; as both are linear, this direction says so. -/
theorem bytes_lt_of_lt {s t : String} (h : s < t) : bytes s < bytes t := by
  rw [bytes_eq, bytes_eq]
  exact flatMap_lt_flatMap (String.lt_iff.1 h)

end SimTerm.Text
