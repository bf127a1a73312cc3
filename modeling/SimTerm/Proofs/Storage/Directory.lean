import Mathlib.Data.List.Induction
import Mathlib.Logic.Function.Basic
import SimTerm.Proofs.Path
import SimTerm.Proofs.Storage
import SimTerm.Storage.Directory

/-!
# A directory is a table of texts

A storage in a directory of its own cannot be told from a table of texts under the plain forms of
the keys, however often it is opened anew: `directory_refines_table`. Keys with one plain form share
a text, and a key is refused exactly if the name of its file is too long for the host. Where neither
happens, the storage answers like one that is kept in memory.

Both halves are simulations: `Holds` ties a directory to a table and `Agrees` a table to a storage
in memory, one call keeps either of them and gives the same answer, and `answerAll_eq` carries that
through all calls.
-/

namespace SimTerm

/-! ## Calls and answers -/

/-- What may be asked of a keyed storage. -/
inductive KeyedCall where
  | load (key : String)
  | save (key text : String)
  | remove (key : String)
deriving DecidableEq, Repr

/-- What a keyed storage answers. -/
inductive KeyedAnswer where
  | done
  | found (text? : Option String)
  | failed (failure : Failure)
deriving DecidableEq, Repr

/-- The key that is asked about. -/
def KeyedCall.key : KeyedCall → String
  | .load key => key
  | .save key _ => key
  | .remove key => key

/-- The answers to calls, one after the other, and the state after them. -/
def answerAll {σ : Type} (perform : σ → KeyedCall → KeyedAnswer × σ) (s : σ) :
    List KeyedCall → List KeyedAnswer × σ
  | [] => ([], s)
  | c :: calls =>
    let (answer, after) := perform s c
    let (answers, last) := answerAll perform after calls
    (answer :: answers, last)

/-- Calls can be answered in two parts, the second from the state that the first left. -/
theorem answerAll_append {σ : Type} (perform : σ → KeyedCall → KeyedAnswer × σ) (s : σ)
    (calls more : List KeyedCall) :
    answerAll perform s (calls ++ more) =
      ((answerAll perform s calls).1 ++
          (answerAll perform (answerAll perform s calls).2 more).1,
        (answerAll perform (answerAll perform s calls).2 more).2) := by
  induction calls generalizing s with
  | nil => rfl
  | cons c calls ih => simp only [List.cons_append, answerAll, ih]

/-- The last call is answered from the state that the calls before it left. -/
theorem answerAll_concat {σ : Type} (perform : σ → KeyedCall → KeyedAnswer × σ) (s : σ)
    (calls : List KeyedCall) (c : KeyedCall) :
    (answerAll perform s (calls ++ [c])).2 = (perform (answerAll perform s calls).2 c).2 := by
  rw [answerAll_append]
  rfl

/-- Two machines give the same answers if a relation between their states is kept by every call and
makes the call be answered alike. -/
theorem answerAll_eq {σ τ : Type} {f : σ → KeyedCall → KeyedAnswer × σ}
    {g : τ → KeyedCall → KeyedAnswer × τ} {R : σ → τ → Prop} {calls : List KeyedCall}
    (hstep : ∀ c ∈ calls, ∀ s t, R s t → (f s c).1 = (g t c).1 ∧ R (f s c).2 (g t c).2)
    {s : σ} {t : τ} (h : R s t) :
    (answerAll f s calls).1 = (answerAll g t calls).1 ∧
      R (answerAll f s calls).2 (answerAll g t calls).2 := by
  induction calls generalizing s t with
  | nil => exact ⟨rfl, h⟩
  | cons c calls ih =>
    obtain ⟨hanswer, hnext⟩ := hstep c List.mem_cons_self s t h
    obtain ⟨hanswers, hlast⟩ := ih (fun c hc => hstep c (List.mem_cons_of_mem _ hc)) hnext
    exact ⟨congrArg₂ List.cons hanswer hanswers, hlast⟩

/-- What a storage in memory answers. -/
def Storage.answer (s : Storage) : KeyedCall → KeyedAnswer × Storage
  | .load key =>
    match s.load key with
    | (.ok text?, after) => (.found text?, after)
    | (.error failure, after) => (.failed failure, after)
  | .save key text =>
    match s.save key text with
    | (.ok (), after) => (.done, after)
    | (.error failure, after) => (.failed failure, after)
  | .remove key =>
    match s.remove key with
    | (.ok (), after) => (.done, after)
    | (.error failure, after) => (.failed failure, after)

namespace Storage

variable {s : Storage}

/-- A reliable storage finds the text. -/
theorem answer_load (h : s.Reliable) (key : String) :
    s.answer (.load key) = (.found (s.text? key), s.counted .load) := by
  rw [answer, load_of_reliable h]

/-- A reliable storage takes every text. -/
theorem answer_save (h : s.Reliable) (key text : String) :
    s.answer (.save key text) = (.done, s.saved key text) := by
  rw [answer, save_of_not_refused (h.refused?_eq_none .save key)]

theorem answer_remove (h : s.Reliable) (key : String) :
    s.answer (.remove key) = (.done, (s.drop key).counted .remove) := by
  rw [answer, remove_of_not_refused (h.refused?_eq_none .remove key)]

end Storage

namespace HostDirectory

/-- What a storage in a directory answers. A call that fails has not touched the directory. -/
def answer (d : HostDirectory) : KeyedCall → KeyedAnswer × HostDirectory
  | .load key =>
    match d.load key with
    | .ok text? => (.found text?, d)
    | .error failure => (.failed failure, d)
  | .save key text =>
    match d.save key text with
    | .ok after => (.done, after)
    | .error failure => (.failed failure, d)
  | .remove key =>
    match d.remove key with
    | .ok after => (.done, after)
    | .error failure => (.failed failure, d)

/-- The answers to the calls of several storages in a row, each opened on the directory that the one
before has left. -/
def answerSessions (d : Option HostDirectory) : List (List KeyedCall) → List KeyedAnswer
  | [] => []
  | calls :: later =>
    let (answers, after) := answerAll answer (opened d) calls
    answers ++ answerSessions (some after) later

/-- It makes no difference where one storage ends and the next one begins. -/
theorem answerSessions_eq (d : Option HostDirectory) (sessions : List (List KeyedCall)) :
    answerSessions d sessions = (answerAll answer (opened d) sessions.flatten).1 := by
  induction sessions generalizing d with
  | nil => rfl
  | cons calls later ih =>
    rw [List.flatten_cons, answerAll_append]
    exact congrArg (_ ++ ·) (ih _)

/-! ## Names of files -/

/-- The character is a letter or a digit of ASCII, or `-` or `_`. -/
def InFileNames (c : Char) : Prop :=
  'A' ≤ c ∧ c ≤ 'Z' ∨ 'a' ≤ c ∧ c ≤ 'z' ∨ '0' ≤ c ∧ c ≤ '9' ∨ c = '-' ∨ c = '_'

instance (c : Char) : Decidable (InFileNames c) :=
  inferInstanceAs (Decidable (_ ∨ _))

/-- The characters that are kept in file names are the ASCII letters and digits, hyphens and
underscores. -/
theorem isPlain_iff (c : Char) : isPlain c = true ↔ InFileNames c := by
  have hplain : isPlain c = (decide ('A' ≤ c ∧ c ≤ 'Z') ||
      (decide ('a' ≤ c) && decide (c ≤ 'z')) || (decide ('0' ≤ c) && decide (c ≤ '9')) ||
      c == '-' || c == '_') := rfl
  simp only [hplain, InFileNames, Bool.or_eq_true, Bool.and_eq_true, decide_eq_true_eq,
    beq_iff_eq, or_assoc]

/-- Each character of a key is kept or replaced, so a key keeps its length. -/
theorem toList_plainKey (key : String) :
    (plainKey key).toList = key.toList.map fun c => if isPlain c then c else '_' :=
  String.toList_ofList

/-- No other characters are in the file name of a key. -/
theorem isPlain_of_mem_plainKey {key : String} {c : Char} (h : c ∈ (plainKey key).toList) :
    isPlain c = true := by
  rw [toList_plainKey, List.mem_map] at h
  obtain ⟨old, -, rfl⟩ := h
  split
  · assumption
  · rfl

/-- One character takes the place of one character. -/
theorem length_plainKey (key : String) : (plainKey key).length = key.length := by
  rw [← String.length_toList, toList_plainKey, List.length_map, String.length_toList]

/-- A plain character takes one byte. -/
theorem utf8Size_of_isPlain {c : Char} (h : isPlain c = true) : c.utf8Size = 1 := by
  rw [Char.utf8Size_eq_one_iff]
  have below {last : Char} (hc : c ≤ last) (hlast : last.val ≤ 127) : c.val ≤ 127 :=
    UInt32.le_trans hc hlast
  rcases (isPlain_iff c).1 h with ⟨-, hc⟩ | ⟨-, hc⟩ | ⟨-, hc⟩ | rfl | rfl
  · exact below hc (by decide)
  · exact below hc (by decide)
  · exact below hc (by decide)
  · decide
  · decide

/-- A text of plain characters has as many bytes as characters. -/
theorem utf8ByteSize_of_plain {cs : List Char} (h : ∀ c ∈ cs, isPlain c = true) :
    (String.ofList cs).utf8ByteSize = cs.length := by
  induction cs with
  | nil => rfl
  | cons c cs ih =>
    obtain ⟨hc, hcs⟩ := List.forall_mem_cons.1 h
    rw [String.ofList_cons, String.utf8ByteSize_append, String.utf8ByteSize_singleton,
      utf8Size_of_isPlain hc, ih hcs, List.length_cons, Nat.add_comm]

/-- A file name has a byte for each character of its key and five more. -/
theorem utf8ByteSize_fileName (key : String) : (fileName key).utf8ByteSize = key.length + 5 := by
  have hplain : (plainKey key).utf8ByteSize = key.length := by
    rw [← length_plainKey, ← String.length_toList, ← utf8ByteSize_of_plain
      fun c hc => isPlain_of_mem_plainKey hc, String.ofList_toList]
  have hend : (".json" : String).utf8ByteSize = 5 := rfl
  rw [fileName, String.utf8ByteSize_append, hplain, hend]

/-- The plain form of the key and the ending have more bytes than a file name may have. -/
def TooLong (key : String) : Prop :=
  255 < (plainKey key ++ ".json").utf8ByteSize

instance (key : String) : Decidable (TooLong key) :=
  inferInstanceAs (Decidable (_ < _))

/-- A key is too long if it has more than 250 characters. -/
theorem tooLong_iff (key : String) : TooLong key ↔ 250 < key.length := by
  have hsize := utf8ByteSize_fileName key
  rw [fileName] at hsize
  rw [TooLong, hsize]
  omega

/-- The host takes the file name of a key exactly if the key is not too long. -/
theorem nameFits_iff (key : String) : nameFits (fileName key) = true ↔ ¬ TooLong key := by
  rw [nameFits, decide_eq_true_eq, TooLong, Nat.not_lt]
  rfl

/-- A file name is the plain key with an ending. -/
theorem toList_fileName (key : String) :
    (fileName key).toList = (plainKey key).toList ++ ['.', 'j', 's', 'o', 'n'] := by
  rw [fileName, String.toList_append]
  rfl

/-- The name of a file is one step of a path, neither empty nor with a slash in it. -/
theorem fileName_isName (key : String) : Path.IsName (fileName key) := by
  refine ⟨?_, ?_⟩
  · rw [toList_fileName]
    exact List.append_ne_nil_of_right_ne_nil _ (List.cons_ne_nil _ _)
  · rw [toList_fileName, List.mem_append]
    rintro (hkey | hend)
    · exact absurd (isPlain_of_mem_plainKey hkey) (by decide)
    · exact absurd hend (by decide)

/-- The path of a file goes one step on from the directory, and that step does not lead up. -/
theorem segments_fileName (dir key : String) :
    Path.segments (dir ++ "/" ++ fileName key) = Path.segments dir ++ [fileName key] ∧
      fileName key ≠ "." ∧ fileName key ≠ ".." := by
  have hlong : 5 ≤ (fileName key).toList.length := by
    rw [toList_fileName, List.length_append]
    exact Nat.le_add_left _ _
  refine ⟨?_, ?_, ?_⟩
  · rw [Path.segments_append, Path.segments_of_isName (fileName_isName key)]
  · intro heq
    rw [heq] at hlong
    exact absurd hlong (by decide)
  · intro heq
    rw [heq] at hlong
    exact absurd hlong (by decide)

/-- Another name has another file. -/
theorem ne_fileName {name key : String} (h : name ≠ plainKey key) :
    name ++ ".json" ≠ fileName key :=
  mt (String.append_left_inj ".json").1 h

end HostDirectory

/-! ## A directory and a table -/

/-- Texts under plain keys. -/
abbrev PlainTexts := String → Option String

/-- What a table of texts answers that knows a key by its plain form only, and refuses a key that is
too long for the name of a file. -/
def PlainTexts.answer (m : PlainTexts) (c : KeyedCall) : KeyedAnswer × PlainTexts :=
  let name := HostDirectory.plainKey c.key
  if HostDirectory.TooLong c.key then
    (.failed (.storage (c.key ++ ": File name too long (os error 36)")), m)
  else
    match c with
    | .load _ => (.found (m name), m)
    | .save _ text => (.done, Function.update m name (some text))
    | .remove _ => (.done, Function.update m name none)

namespace PlainTexts

variable (m : PlainTexts)

/-- A call with too long a key fails and changes nothing. -/
theorem answer_of_tooLong {c : KeyedCall} (h : HostDirectory.TooLong c.key) :
    m.answer c = (.failed (.storage (c.key ++ ": File name too long (os error 36)")), m) :=
  if_pos h

/-- A load with a key that fits finds the text under the plain key. -/
theorem answer_load (key : String) (h : ¬ HostDirectory.TooLong key) :
    m.answer (.load key) = (.found (m (HostDirectory.plainKey key)), m) :=
  if_neg h

/-- A save with a key that fits puts the text under the plain key. -/
theorem answer_save (key text : String) (h : ¬ HostDirectory.TooLong key) :
    m.answer (.save key text) =
      (.done, Function.update m (HostDirectory.plainKey key) (some text)) :=
  if_neg h

theorem answer_remove (key : String) (h : ¬ HostDirectory.TooLong key) :
    m.answer (.remove key) = (.done, Function.update m (HostDirectory.plainKey key) none) :=
  if_neg h

/-- No call fails but those with too long a key. -/
theorem exists_failed_iff (c : KeyedCall) :
    (∃ failure, (m.answer c).1 = .failed failure) ↔ HostDirectory.TooLong c.key := by
  refine ⟨fun ⟨failure, hfailed⟩ => ?_, fun h => ⟨_, congrArg Prod.fst (m.answer_of_tooLong h)⟩⟩
  by_contra h
  cases c with
  | load key =>
    rw [m.answer_load key h] at hfailed
    cases hfailed
  | save key text =>
    rw [m.answer_save key text h] at hfailed
    cases hfailed
  | remove key =>
    rw [m.answer_remove key h] at hfailed
    cases hfailed

end PlainTexts

/-- What was saved last under a name and not removed since, the latest call first. -/
def lastSaved (name : String) : List KeyedCall → Option String
  | [] => none
  | .load _ :: earlier => lastSaved name earlier
  | .save key text :: earlier =>
    if HostDirectory.plainKey key = name then some text else lastSaved name earlier
  | .remove key :: earlier =>
    if HostDirectory.plainKey key = name then none else lastSaved name earlier

namespace HostDirectory

/-- The files of the directory hold the texts of the table. -/
def Holds (d : HostDirectory) (m : PlainTexts) : Prop :=
  ∀ name, d.entries.get? (name ++ ".json") = (m name).map fun text => .file text.toUTF8

/-- The bytes of a text are read as the text. -/
theorem fromUTF8?_toUTF8 (text : String) : String.fromUTF8? text.toUTF8 = some text := by
  unfold String.fromUTF8?
  exact dif_pos text.isValidUTF8

variable {d : HostDirectory} {m : PlainTexts}

/-- What holds texts has no directory where a text would be. -/
theorem Holds.file_or_none (h : d.Holds m) (key : String) :
    d.entries.get? (fileName key) ≠ some .directory := by
  rw [fileName, h (plainKey key)]
  cases m (plainKey key) <;> simp

/-- A directory that holds a table finds what the table has. -/
theorem Holds.load_eq (h : d.Holds m) (key : String) (hfits : ¬ TooLong key) :
    d.load key = .ok (m (plainKey key)) := by
  have hentry := h (plainKey key)
  rw [← fileName] at hentry
  simp only [load, (nameFits_iff key).2 hfits, Bool.not_true, Bool.false_eq_true, if_false, hentry]
  cases m (plainKey key) with
  | none => rfl
  | some text => simp only [Option.map_some, fromUTF8?_toUTF8]

/-- A directory that holds a table takes every text in a file. -/
theorem Holds.save_eq (h : d.Holds m) (key : String) (hfits : ¬ TooLong key) (text : String) :
    d.save key text = .ok ⟨d.entries.insert (fileName key) (.file text.toUTF8)⟩ := by
  have hfile := h.file_or_none key
  simp only [save, (nameFits_iff key).2 hfits, Bool.not_true, Bool.false_eq_true, if_false]

theorem Holds.remove_eq (h : d.Holds m) (key : String) (hfits : ¬ TooLong key) :
    d.remove key = .ok ⟨d.entries.erase (fileName key)⟩ := by
  have hfile := h.file_or_none key
  simp only [remove, (nameFits_iff key).2 hfits, Bool.not_true, Bool.false_eq_true, if_false]

/-- After a save the directory holds the table with the text. -/
theorem Holds.save (h : d.Holds m) (key text : String) :
    Holds ⟨d.entries.insert (fileName key) (.file text.toUTF8)⟩
      (Function.update m (plainKey key) (some text)) := by
  intro name
  by_cases hname : name = plainKey key
  · rw [hname, ← fileName, Entries.get?_insert_self, Function.update_self, Option.map_some]
  · rw [Entries.get?_insert_of_ne (ne_fileName hname), h name, Function.update_of_ne hname]

theorem Holds.remove (h : d.Holds m) (key : String) :
    Holds ⟨d.entries.erase (fileName key)⟩ (Function.update m (plainKey key) none) := by
  intro name
  by_cases hname : name = plainKey key
  · rw [hname, ← fileName, Entries.get?_erase_self, Function.update_self, Option.map_none]
  · rw [Entries.get?_erase_of_ne (ne_fileName hname), h name, Function.update_of_ne hname]

/-- Whatever is in the directory, a key that is too long is refused, and nothing else is done. -/
theorem answer_of_tooLong {c : KeyedCall} (hlong : TooLong c.key) (d : HostDirectory) :
    d.answer c = (.failed (.storage (c.key ++ ": File name too long (os error 36)")), d) := by
  have hfits : nameFits (fileName c.key) = false :=
    Bool.eq_false_iff.2 fun hfits => (nameFits_iff c.key).1 hfits hlong
  have hwords : HostError.nameTooLong.failure c.key =
      .storage (c.key ++ ": File name too long (os error 36)") := by
    rw [HostError.failure, String.append_assoc]
    rfl
  rw [← hwords]
  cases c <;>
    simp only [KeyedCall.key] at hfits <;>
    simp only [answer, KeyedCall.key, load, save, remove, hfits, Bool.not_false, if_true]

/-- One call is answered by a directory as by the table. -/
theorem answer_holds (h : d.Holds m) (c : KeyedCall) :
    (d.answer c).1 = (m.answer c).1 ∧ (d.answer c).2.Holds (m.answer c).2 := by
  by_cases hlong : TooLong c.key
  · rw [answer_of_tooLong hlong, m.answer_of_tooLong hlong]
    exact ⟨rfl, h⟩
  · cases c with
    | load key =>
      rw [answer, h.load_eq key hlong, m.answer_load key hlong]
      exact ⟨rfl, h⟩
    | save key text =>
      rw [answer, h.save_eq key hlong, m.answer_save key text hlong]
      exact ⟨rfl, h.save key text⟩
    | remove key =>
      rw [answer, h.remove_eq key hlong, m.answer_remove key hlong]
      exact ⟨rfl, h.remove key⟩

/-- An empty directory holds an empty table. -/
theorem holds_empty : Holds {} fun _ => none :=
  fun _ => rfl

/-- The directory and the table after the same calls, the directory empty before them. -/
theorem answerAll_holds (calls : List KeyedCall) :
    (answerAll answer {} calls).1 = (answerAll PlainTexts.answer (fun _ => none) calls).1 ∧
      (answerAll answer {} calls).2.Holds (answerAll PlainTexts.answer (fun _ => none) calls).2 :=
  answerAll_eq (R := Holds) (fun c _ _ _ h => answer_holds h c) holds_empty

/-- A save that succeeds leaves the text in the file of its key. -/
theorem eq_of_save_eq_ok {d after : HostDirectory} {key text : String}
    (h : d.save key text = .ok after) :
    after = ⟨d.entries.insert (fileName key) (.file text.toUTF8)⟩ := by
  simp only [save] at h
  split at h
  · cases h
  · split at h
    · cases h
    · exact (Except.ok.inj h).symm

theorem eq_of_remove_eq_ok {d after : HostDirectory} {key : String}
    (h : d.remove key = .ok after) : after = ⟨d.entries.erase (fileName key)⟩ := by
  simp only [remove] at h
  split at h
  · cases h
  · split at h
    · cases h
    · exact (Except.ok.inj h).symm

/-- A call changes no file but the one of its key. -/
theorem get?_answer_of_ne (d : HostDirectory) {c : KeyedCall} {name : String}
    (h : name ≠ fileName c.key) :
    (d.answer c).2.entries.get? name = d.entries.get? name := by
  cases c with
  | load key =>
    rw [answer]
    split <;> rfl
  | save key text =>
    rw [answer]
    split
    · next after hsave =>
      rw [eq_of_save_eq_ok hsave]
      exact Entries.get?_insert_of_ne h _ _
    · rfl
  | remove key =>
    rw [answer]
    split
    · next after hremove =>
      rw [eq_of_remove_eq_ok hremove]
      exact Entries.get?_erase_of_ne h _
    · rfl

end HostDirectory

/-- The table holds under a name what was saved last there, by induction on the calls. -/
theorem answerAll_eq_lastSaved {name : String} (hname : (name ++ ".json").utf8ByteSize ≤ 255)
    (calls : List KeyedCall) :
    (answerAll PlainTexts.answer (fun _ => none) calls).2 name = lastSaved name calls.reverse := by
  -- from the end, as the last call is the first that `lastSaved` looks at
  induction calls using List.reverseRecOn with
  | nil => rfl
  | append_singleton calls c ih =>
    rw [answerAll_concat, List.reverse_append, List.reverse_singleton, List.singleton_append]
    generalize (answerAll PlainTexts.answer (fun _ => none) calls).2 = m at ih ⊢
    by_cases hlong : HostDirectory.TooLong c.key
    · -- the key has another plain form, as this one is short enough
      have hne : HostDirectory.plainKey c.key ≠ name := fun heq =>
        absurd hlong (Nat.not_lt_of_le (heq ▸ hname))
      rw [m.answer_of_tooLong hlong]
      cases c with
      | load key => exact ih
      | save key text => exact ih.trans (if_neg hne).symm
      | remove key => exact ih.trans (if_neg hne).symm
    · cases c with
      | load key =>
        rw [m.answer_load key hlong]
        exact ih
      | save key text =>
        rw [m.answer_save key text hlong, lastSaved, ← ih]
        simp only [Function.update_apply, eq_comm]
      | remove key =>
        rw [m.answer_remove key hlong, lastSaved, ← ih]
        simp only [Function.update_apply, eq_comm]

/-! ## A directory and a storage in memory -/

namespace HostDirectory

/-- The table and the storage have the same texts under some keys, and the storage refuses
nothing. -/
structure Agrees (keys : List String) (m : PlainTexts) (s : Storage) : Prop where
  texts : ∀ key ∈ keys, s.text? key = m (plainKey key)
  reliable : s.Reliable

section

variable {keys : List String} {m : PlainTexts} {s : Storage} {key : String}

/-- A change under one key, where the plain form of the key is that of no other. -/
theorem Agrees.update (h : Agrees keys m s)
    (hapart : ∀ a ∈ keys, ∀ b ∈ keys, plainKey a = plainKey b → a = b) (hkey : key ∈ keys)
    {after : Storage} {value : Option String} (hself : after.text? key = value)
    (hother : ∀ other, other ≠ key → after.text? other = s.text? other)
    (hrefusal : after.refusal = s.refusal) :
    Agrees keys (Function.update m (plainKey key) value) after := by
  refine ⟨fun other hmem => ?_, fun call other made => ?_⟩
  · by_cases hne : other = key
    · rw [hne, hself, Function.update_self]
    · -- another key has another plain form, so the table does not change there either
      have hplain : plainKey other ≠ plainKey key := fun heq => hne (hapart other hmem key hkey heq)
      rw [hother other hne, h.texts other hmem, Function.update_of_ne hplain]
  · rw [hrefusal, h.reliable]

/-- One call is answered by the storage as by the table. -/
theorem Agrees.answer (h : Agrees keys m s)
    (hapart : ∀ a ∈ keys, ∀ b ∈ keys, plainKey a = plainKey b → a = b) (c : KeyedCall)
    (hkey : c.key ∈ keys) (hfits : ¬ TooLong c.key) :
    (m.answer c).1 = (s.answer c).1 ∧ Agrees keys (m.answer c).2 (s.answer c).2 := by
  cases c with
  | load key =>
    rw [m.answer_load key hfits, Storage.answer_load h.reliable, h.texts key hkey]
    exact ⟨rfl, h.texts, h.reliable⟩
  | save key text =>
    have hother (other : String) (hne : other ≠ key) :
        (s.saved key text).text? other = s.text? other := Storage.text?_saved_of_ne hne s text
    rw [m.answer_save key text hfits, Storage.answer_save h.reliable]
    have hnext : Agrees keys (Function.update m (plainKey key) (some text)) (s.saved key text) :=
      h.update hapart hkey (Storage.text?_saved_self s key text) hother rfl
    exact ⟨rfl, hnext⟩
  | remove key =>
    have hother (other : String) (hne : other ≠ key) :
        ((s.drop key).counted .remove).text? other = s.text? other :=
      Storage.text?_drop_of_ne hne s
    rw [m.answer_remove key hfits, Storage.answer_remove h.reliable]
    have hnext : Agrees keys (Function.update m (plainKey key) none)
        ((s.drop key).counted .remove) :=
      h.update hapart hkey (Storage.text?_drop_self s key) hother rfl
    exact ⟨rfl, hnext⟩

end

/-- Where the plain forms tell the keys apart and none is too long, a storage in memory gives the
answers of a directory. -/
theorem answerAll_eq_memory {calls : List KeyedCall}
    (hapart : ∀ a ∈ calls, ∀ b ∈ calls, plainKey a.key = plainKey b.key → a.key = b.key)
    (hfits : ∀ c ∈ calls, ¬ TooLong c.key) :
    (answerAll HostDirectory.answer {} calls).1 = (answerAll Storage.answer {} calls).1 := by
  have hkeys : ∀ a ∈ calls.map KeyedCall.key, ∀ b ∈ calls.map KeyedCall.key,
      plainKey a = plainKey b → a = b := by
    simpa only [List.forall_mem_map] using hapart
  have hempty : Agrees (calls.map KeyedCall.key) (fun _ => none) {} :=
    ⟨fun _ _ => rfl, fun _ _ _ => rfl⟩
  -- the plain forms are told apart for the keys of the calls only, so agreement is about these
  have hmemory : (answerAll PlainTexts.answer (fun _ => none) calls).1 =
      (answerAll Storage.answer {} calls).1 :=
    (answerAll_eq (R := Agrees (calls.map KeyedCall.key))
      (fun c hc _ _ h => h.answer hkeys c (List.mem_map_of_mem hc) (hfits c hc)) hempty).1
  exact (answerAll_holds calls).1.trans hmemory

/-! ## All of it -/

/-- A storage in a directory that nobody else changes, empty at first, is used in any number of
sessions.

* The plain form of a key has `_` for every character but ASCII letters, digits, `-` and `_`.
* All answers are those of a table that knows the plain forms only. In particular a load finds what
  was saved last under a key with the same plain form and not removed since.
* A call fails exactly if its key has a plain form of more than 250 characters, which makes a file
  name of more than 255 bytes, and then it changes nothing.
* A call leaves every file but that of its key alone, and that file stands in the directory itself.
* Where the plain forms tell the keys apart and have at most 250 characters, all answers are those
  of a storage in memory. -/
theorem directory_refines_table :
    (∀ key, (plainKey key).toList = key.toList.map fun c => if InFileNames c then c else '_') ∧
      (∀ sessions : List (List KeyedCall), answerSessions (some {}) sessions =
        (answerAll PlainTexts.answer (fun _ => none) sessions.flatten).1) ∧
      (∀ calls : List KeyedCall,
        let d := (answerAll answer {} calls).2
        (∀ key, ¬ TooLong key →
          (d.answer (.load key)).1 = .found (lastSaved (plainKey key) calls.reverse)) ∧
        ∀ c : KeyedCall, ((∃ failure, (d.answer c).1 = .failed failure) ↔ TooLong c.key) ∧
          (TooLong c.key → (d.answer c).2 = d)) ∧
      (∀ key, TooLong key ↔ 250 < (plainKey key).length) ∧
      (∀ (d : HostDirectory) (c : KeyedCall) (name : String), name ≠ fileName c.key →
        (d.answer c).2.entries.get? name = d.entries.get? name) ∧
      (∀ dir key, Path.segments (dir ++ "/" ++ fileName key) =
        Path.segments dir ++ [fileName key] ∧ fileName key ≠ "." ∧ fileName key ≠ "..") ∧
      ∀ sessions : List (List KeyedCall),
        (∀ a ∈ sessions.flatten, ∀ b ∈ sessions.flatten,
          plainKey a.key = plainKey b.key → a.key = b.key) →
        (∀ c ∈ sessions.flatten, (plainKey c.key).length ≤ 250) →
        answerSessions (some {}) sessions =
          (answerAll Storage.answer {} sessions.flatten).1 := by
  have hlength (key : String) : TooLong key ↔ 250 < (plainKey key).length := by
    rw [tooLong_iff, length_plainKey]
  refine ⟨fun key => ?_, fun sessions => ?_, fun calls => ?_, hlength,
    fun d c name => get?_answer_of_ne d, segments_fileName, fun sessions hapart hshort => ?_⟩
  · simp only [toList_plainKey, isPlain_iff]
  · exact (answerSessions_eq _ sessions).trans (answerAll_holds sessions.flatten).1
  · have hholds := (answerAll_holds calls).2
    refine ⟨fun key hfits => ?_, fun c => ⟨?_, fun hlong => ?_⟩⟩
    · rw [(answer_holds hholds (.load key)).1, PlainTexts.answer_load _ key hfits,
        answerAll_eq_lastSaved (Nat.le_of_not_lt hfits)]
    · rw [(answer_holds hholds c).1]
      exact PlainTexts.exists_failed_iff _ c
    · rw [answer_of_tooLong hlong]
  · rw [answerSessions_eq]
    exact answerAll_eq_memory hapart fun c hc hlong =>
      absurd ((hlength c.key).1 hlong) (Nat.not_lt_of_le (hshort c hc))

/-- Two keys share a file, from one session to the next; a key of 251 characters is refused; and the
keys of a terminal are told apart, so that its texts are found as in memory. -/
theorem directory_refines_table_shared_file :
    let long := String.ofList (List.replicate 251 '/')
    let kept : List (List KeyedCall) :=
      [[.save "cedar:fs" "x"], [.load "cedar:bookmarks", .load "cedar:fs"]]
    answerSessions (some {}) [[.save "a/b" "x", .save "a:b" "y", .remove "c"], [.load "a/b"]] =
        [.done, .done, .done, .found (some "y")] ∧
      (∃ failure, (answer {} (.save long "z")).1 = .failed failure) ∧
      answerSessions (some {}) kept = (answerAll Storage.answer {} kept.flatten).1 ∧
      answerSessions (some {}) kept = [.done, .found none, .found (some "x")] := by
  intro long kept
  obtain ⟨-, htable, hcalls, hlong, -, -, hmemory⟩ := directory_refines_table
  have hlength : 250 < (plainKey long).length := by
    rw [length_plainKey, String.length_ofList, List.length_replicate]
    decide
  refine ⟨(htable _).trans ?_, ((hcalls []).2 (.save long "z")).1.2 ((hlong long).2 hlength),
    hmemory kept ?_ ?_, (htable kept).trans ?_⟩
  · decide +kernel
  · decide
  · decide
  · decide +kernel

end HostDirectory

end SimTerm
