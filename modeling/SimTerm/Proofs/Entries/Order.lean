import SimTerm.Entries

/-!
# Tables in name order

Every operation keeps a table sorted, and a sorted table is determined by what its names stand for.
So a change of one entry can be taken back by a change of the same entry: `erase_insert` takes back
a new name and `insert_insert_of_get?` a name that stood for something else.
-/

namespace SimTerm.Entries

variable {α : Type}

theorem sorted_nil : Sorted ([] : Entries α) :=
  List.Pairwise.nil

/-- An entry after an insertion is the new one or an old one. -/
theorem mem_insert {name : String} {value : α} {es : Entries α} {e : String × α}
    (h : e ∈ insert name value es) : e = (name, value) ∨ e ∈ es := by
  fun_induction insert name value es with
  | case1 => simpa using h
  | case2 v es =>
    rcases List.mem_cons.1 h with h | h
    · exact Or.inl h
    · exact Or.inr (List.mem_cons_of_mem _ h)
  | case3 => exact List.mem_cons.1 h
  | case4 k v es _ _ ih =>
    rcases List.mem_cons.1 h with h | h
    · exact Or.inr (h ▸ List.mem_cons_self)
    · exact (ih h).imp_right (List.mem_cons_of_mem _)

/-- Taking a name out leaves no entry that was not there before. -/
theorem mem_of_mem_erase {name : String} {es : Entries α} {e : String × α}
    (h : e ∈ erase name es) : e ∈ es := by
  fun_induction erase name es with
  | case1 => exact h
  | case2 v es ih => exact List.mem_cons_of_mem _ (ih h)
  | case3 k v es _ ih =>
    rcases List.mem_cons.1 h with h | h
    · exact h ▸ List.mem_cons_self
    · exact List.mem_cons_of_mem _ (ih h)

/-- What is found under a name is an entry. -/
theorem mem_of_get? {name : String} {value : α} {es : Entries α} (h : es.get? name = some value) :
    (name, value) ∈ es := by
  fun_induction get? name es with
  | case1 => simp at h
  | case2 v es =>
    obtain rfl : v = value := by simpa using h
    exact List.mem_cons_self
  | case3 k v es _ ih => exact List.mem_cons_of_mem _ (ih h)

/-- Putting a name in keeps the order. -/
theorem Sorted.insert {es : Entries α} (h : es.Sorted) (name : String) (value : α) :
    (es.insert name value).Sorted := by
  fun_induction Entries.insert name value es with
  | case1 => exact List.pairwise_singleton _ _
  | case2 v es =>
    obtain ⟨hk, hes⟩ := List.pairwise_cons.1 h
    exact List.pairwise_cons.2 ⟨hk, hes⟩
  | case3 k v es hne hlt =>
    obtain ⟨hk, hes⟩ := List.pairwise_cons.1 h
    refine List.pairwise_cons.2 ⟨fun e he => ?_, h⟩
    rcases List.mem_cons.1 he with rfl | he
    · exact hlt
    · exact String.lt_trans hlt (hk e he)
  | case4 k v es hne hlt ih =>
    obtain ⟨hk, hes⟩ := List.pairwise_cons.1 h
    refine List.pairwise_cons.2 ⟨fun e he => ?_, ih hes⟩
    rcases mem_insert he with rfl | he
    · -- the name is neither this one nor before it
      have hle : k ≤ name := String.not_lt.1 hlt
      grind
    · exact hk e he

/-- Taking a name out keeps the order. -/
theorem Sorted.erase {es : Entries α} (h : es.Sorted) (name : String) :
    (es.erase name).Sorted := by
  fun_induction Entries.erase name es with
  | case1 => exact h
  | case2 v es ih => exact ih (List.pairwise_cons.1 h).2
  | case3 k v es _ ih =>
    obtain ⟨hk, hes⟩ := List.pairwise_cons.1 h
    exact List.pairwise_cons.2 ⟨fun e he => hk e (mem_of_mem_erase he), ih hes⟩

/-- A table made from any list of pairs is in order. -/
theorem Sorted.ofList (pairs : List (String × α)) : (Entries.ofList pairs).Sorted := by
  have step : ∀ es : Entries α, es.Sorted →
      (pairs.foldl (fun es p => Entries.insert p.1 p.2 es) es).Sorted := by
    induction pairs with
    | nil => exact fun es h => h
    | cons p ps ih => exact fun es h => ih _ (h.insert p.1 p.2)
  exact step [] sorted_nil

/-- In a sorted table every entry is found. -/
theorem get?_of_mem {es : Entries α} (hs : es.Sorted) {e : String × α} (he : e ∈ es) :
    es.get? e.1 = some e.2 := by
  induction es with
  | nil => cases he
  | cons first es ih =>
    obtain ⟨hfirst, hrest⟩ := List.pairwise_cons.1 hs
    rcases List.mem_cons.1 he with rfl | he
    · rw [get?, if_pos rfl]
    · have hlt : first.1 < e.1 := hfirst e he
      have hne : e.1 ≠ first.1 := fun heq => String.lt_irrefl _ (heq ▸ hlt)
      rw [get?, if_neg hne]
      exact ih hrest he

/-- In a sorted table a name stands in one place only. -/
theorem Sorted.place_unique {es : Entries α} (hs : es.Sorted) {name : String} {v w : α} {i j : Nat}
    (hi : es[i]? = some (name, v)) (hj : es[j]? = some (name, w)) : i = j := by
  have hascend : ∀ {i j : Nat} {a b : String × α}, i < j → es[i]? = some a → es[j]? = some b →
      a.1 < b.1 := by
    intro i j a b hij ha hb
    obtain ⟨hi, rfl⟩ := List.getElem?_eq_some_iff.1 ha
    obtain ⟨hj, rfl⟩ := List.getElem?_eq_some_iff.1 hb
    exact List.pairwise_iff_getElem.1 hs i j hi hj hij
  rcases Nat.lt_trichotomy i j with hlt | heq | hgt
  · exact absurd (hascend hlt hi hj) (String.lt_irrefl name)
  · exact heq
  · exact absurd (hascend hgt hj hi) (String.lt_irrefl name)

/-- In a sorted table a name before all others stands for nothing. -/
theorem get?_eq_none_of_lt {name : String} {es : Entries α} (h : ∀ e ∈ es, name < e.1) :
    es.get? name = none := by
  fun_induction get? name es with
  | case1 => rfl
  | case2 v es => exact absurd (h _ List.mem_cons_self) (String.lt_irrefl name)
  | case3 k v es _ ih => exact ih fun e he => h e (List.mem_cons_of_mem _ he)

/-- In a sorted table no name that stands for something is before the first. -/
theorem Sorted.not_lt_first {k name : String} {v : α} {es : Entries α}
    (hs : Sorted ((k, v) :: es)) (h : get? name ((k, v) :: es) ≠ none) : ¬ name < k := by
  intro hlt
  obtain ⟨hk, -⟩ := List.pairwise_cons.1 hs
  exact h (get?_eq_none_of_lt
    (List.forall_mem_cons.2 ⟨hlt, fun e he => String.lt_trans hlt (hk e he)⟩))

/-- A sorted table is determined by what its names stand for. -/
theorem Sorted.eq_of_get? {es es' : Entries α} (hs : es.Sorted) (hs' : es'.Sorted)
    (h : ∀ name, es.get? name = es'.get? name) : es = es' := by
  induction es generalizing es' with
  | nil =>
    cases es' with
    | nil => rfl
    | cons e' es' => simpa [get?] using h e'.1
  | cons e es ih =>
    obtain ⟨k, v⟩ := e
    cases es' with
    | nil => simpa [get?] using h k
    | cons e' es' =>
      obtain ⟨k', v'⟩ := e'
      obtain ⟨hk, hes⟩ := List.pairwise_cons.1 hs
      obtain ⟨hk', hes'⟩ := List.pairwise_cons.1 hs'
      -- both tables know both first names, so neither name can come first
      have hlt : ¬ k < k' := hs'.not_lt_first (by rw [← h k]; simp [get?])
      have hlt' : ¬ k' < k := hs.not_lt_first (by rw [h k']; simp [get?])
      obtain rfl : k = k' := String.le_antisymm (String.not_lt.1 hlt') (String.not_lt.1 hlt)
      obtain rfl : v = v' := by simpa [get?] using h k
      rw [ih hes hes' fun name => ?_]
      by_cases hname : name = k
      · rw [hname, get?_eq_none_of_lt hk, get?_eq_none_of_lt hk']
      · simpa [get?, hname] using h name

/-- Erasing a name that stands for nothing changes nothing. -/
theorem erase_of_get?_eq_none {name : String} {es : Entries α} (h : es.get? name = none) :
    es.erase name = es := by
  fun_induction erase name es with
  | case1 => rfl
  | case2 v es _ => simp [get?] at h
  | case3 k v es hne ih => rw [ih (by simpa [get?, hne] using h)]

/-- Of two values put at one name the later one stands. -/
theorem insert_insert (name : String) (value later : α) (es : Entries α) :
    (es.insert name value).insert name later = es.insert name later := by
  fun_induction insert name value es with
  | case1 => simp [insert]
  | case2 v es => simp [insert]
  | case3 k v es hne hlt => simp [insert, hne, hlt]
  | case4 k v es hne hlt ih => rw [insert, if_neg hne, if_neg hlt, ih, insert, if_neg hne, if_neg hlt]

/-- A new name is taken back by erasing it. -/
theorem erase_insert {name : String} {value : α} {es : Entries α} (h : es.get? name = none) :
    (es.insert name value).erase name = es := by
  fun_induction insert name value es with
  | case1 => simp [erase]
  | case2 v es => simp [get?] at h
  | case3 k v es hne hlt =>
    rw [erase, if_pos rfl]
    exact erase_of_get?_eq_none h
  | case4 k v es hne hlt ih => rw [erase, if_neg hne, ih (by simpa [get?, hne] using h)]

/-- A name that stood for something else is taken back by letting it stand for that again. -/
theorem insert_insert_of_get? {name : String} {value old : α} {es : Entries α} (hs : es.Sorted)
    (h : es.get? name = some old) : (es.insert name value).insert name old = es := by
  fun_induction insert name value es with
  | case1 => simp [get?] at h
  | case2 v es =>
    obtain rfl : v = old := by simpa [get?] using h
    simp [insert]
  | case3 k v es hne hlt =>
    -- a name before the first one cannot stand further down
    have hnone : Entries.get? name es = none := by
      obtain ⟨hk, -⟩ := List.pairwise_cons.1 hs
      exact get?_eq_none_of_lt fun e he => String.lt_trans hlt (hk e he)
    simp [get?, hne, hnone] at h
  | case4 k v es hne hlt ih =>
    have hold : Entries.get? name es = some old := by simpa [get?, hne] using h
    rw [insert, if_neg hne, if_neg hlt, ih (List.pairwise_cons.1 hs).2 hold]

/-- A name that was erased is taken back by letting it stand for the same again. -/
theorem insert_erase_of_get? {name : String} {old : α} {es : Entries α} (hs : es.Sorted)
    (h : es.get? name = some old) : (es.erase name).insert name old = es := by
  fun_induction erase name es with
  | case1 => simp [get?] at h
  | case2 v es _ =>
    obtain ⟨hk, -⟩ := List.pairwise_cons.1 hs
    obtain rfl : v = old := by simpa [get?] using h
    rw [erase_of_get?_eq_none (get?_eq_none_of_lt hk)]
    cases es with
    | nil => rfl
    | cons e es =>
      have hlt : name < e.1 := hk e List.mem_cons_self
      have hne : name ≠ e.1 := fun heq => String.lt_irrefl e.1 (heq ▸ hlt)
      rw [insert, if_neg hne, if_pos hlt]
  | case3 k v es hne ih =>
    obtain ⟨hk, hes⟩ := List.pairwise_cons.1 hs
    have hold : Entries.get? name es = some old := by simpa [get?, hne] using h
    have hlt : ¬ name < k := fun hlt =>
      String.lt_asymm hlt (hk _ (mem_of_get? hold))
    rw [insert, if_neg hne, if_neg hlt, ih hes hold]

/-- Putting an entry behind all others. -/
theorem insert_of_forall_lt {name : String} {value : α} {es : Entries α}
    (h : ∀ e ∈ es, e.1 < name) : es.insert name value = es ++ [(name, value)] := by
  fun_induction insert name value es with
  | case1 => rfl
  | case2 v es => exact absurd (h _ List.mem_cons_self) (String.lt_irrefl name)
  | case3 k v es _ hlt => exact absurd (h _ List.mem_cons_self) (String.lt_asymm hlt)
  | case4 k v es _ _ ih => rw [ih fun e he => h e (List.mem_cons_of_mem _ he), List.cons_append]

/-- A sorted table is the table of its own pairs. -/
theorem ofList_of_sorted {es : Entries α} (h : es.Sorted) : ofList es = es := by
  have step : ∀ front : Entries α, (front ++ es).Sorted →
      es.foldl (fun es p => insert p.1 p.2 es) front = front ++ es := by
    induction es with
    | nil => simp
    | cons e es ih =>
      intro front hfront
      have hlt : ∀ f ∈ front, f.1 < e.1 := fun f hf =>
        (List.pairwise_append.1 hfront).2.2 f hf e List.mem_cons_self
      rw [List.foldl_cons, insert_of_forall_lt hlt,
        ih (List.pairwise_cons.1 h).2 (front ++ [e]) (by simpa using hfront)]
      simp
  exact step [] h

end SimTerm.Entries
