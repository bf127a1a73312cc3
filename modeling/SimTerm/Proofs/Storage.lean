import SimTerm.Storage

/-!
# What a storage does with a call

A call that is refused is counted and does nothing else. One that is not refused reads or changes
the one text that it is about, and a save is noted in the journal.
-/

namespace SimTerm.Storage

@[simp] theorem text?_counted (s : Storage) (call : StorageCall) (key : String) :
    (s.counted call).text? key = s.text? key := rfl

/-! ## Loading -/

/-- A load that is refused is counted, and tells the reason. -/
theorem load_of_refused {s : Storage} {key words : String} (h : s.refused? .load key = some words) :
    s.load key = (.error (.storage words), s.counted .load) := by
  rw [load, h]

/-- A load that is not refused is counted, and tells the text, if there is one. -/
theorem load_of_not_refused {s : Storage} {key : String} (h : s.refused? .load key = none) :
    s.load key = (.ok (s.text? key), s.counted .load) := by
  rw [load, h]

/-- A load is counted in either case, and that is all it does to the storage. -/
theorem storage_load (s : Storage) (key : String) : (s.load key).2 = s.counted .load := by
  unfold load
  split <;> rfl

@[simp] theorem texts_load (s : Storage) (key : String) : (s.load key).2.texts = s.texts := by
  unfold load
  split <;> rfl

@[simp] theorem journal_load (s : Storage) (key : String) :
    (s.load key).2.journal = s.journal := by
  unfold load
  split <;> rfl

@[simp] theorem refusal_load (s : Storage) (key : String) :
    (s.load key).2.refusal = s.refusal := by
  unfold load
  split <;> rfl

/-! ## Saving -/

/-- The storage after a save that was not refused. -/
def saved (s : Storage) (key text : String) : Storage :=
  { (s.put key text).counted .save with journal := (key, text) :: s.journal }

/-- How many saves under a key have succeeded. -/
def saveCount (s : Storage) (key : String) : Nat :=
  s.journal.countP (·.1 = key)

/-- A save that is refused is counted, and stores nothing. -/
theorem save_of_refused {s : Storage} {key words : String} (h : s.refused? .save key = some words)
    (text : String) : s.save key text = (.error (.storage words), s.counted .save) := by
  rw [save, h]

/-- A save that is not refused stores the text. -/
theorem save_of_not_refused {s : Storage} {key : String} (h : s.refused? .save key = none)
    (text : String) : s.save key text = (.ok (), s.saved key text) := by
  rw [save, h, saved]

theorem text?_saved_self (s : Storage) (key text : String) :
    (s.saved key text).text? key = some text :=
  Entries.get?_insert_self key text s.texts

/-- What was saved is stored under no other key. -/
theorem text?_saved_of_ne {key other : String} (h : other ≠ key) (s : Storage) (text : String) :
    (s.saved key text).text? other = s.text? other :=
  Entries.get?_insert_of_ne h text s.texts

/-- A save under one key is none under another. -/
theorem saveCount_saved_of_ne {key other : String} (h : other ≠ key) (s : Storage)
    (text : String) : (s.saved key text).saveCount other = s.saveCount other := by
  have hne : ¬ key = other := fun heq => h heq.symm
  simp [saveCount, saved, hne, counted, put]

/-! ## Removing -/

/-- A removal that is not refused takes the text away. -/
theorem remove_of_not_refused {s : Storage} {key : String} (h : s.refused? .remove key = none) :
    s.remove key = (.ok (), (s.drop key).counted .remove) := by
  rw [remove, h]

theorem text?_drop_self (s : Storage) (key : String) : (s.drop key).text? key = none :=
  Entries.get?_erase_self key s.texts

/-- Taking a text away leaves those under other keys. -/
theorem text?_drop_of_ne {key other : String} (h : other ≠ key) (s : Storage) :
    (s.drop key).text? other = s.text? other :=
  Entries.get?_erase_of_ne h s.texts

/-! ## Storages that refuse nothing -/

/-- A storage that refuses nothing. -/
def Reliable (s : Storage) : Prop :=
  ∀ call key made, s.refusal call key made = none

theorem Reliable.refused?_eq_none {s : Storage} (h : s.Reliable) (call : StorageCall)
    (key : String) : s.refused? call key = none :=
  h call key _

/-- A storage that refuses nothing tells the text, if there is one. -/
theorem load_of_reliable {s : Storage} (h : s.Reliable) (key : String) :
    s.load key = (.ok (s.text? key), s.counted .load) :=
  load_of_not_refused (h.refused?_eq_none .load key)

end SimTerm.Storage
