import SimTerm.Proofs.Json.Literal

/-!
# Values read back

`read? j.compact = some j` for every value: what `compact` writes, `read?` reads.

The induction is on the value. Its statement, `Readable`, is about a value somewhere inside a text:
where a value may start, the reader comes to the end of what was rendered and, once the next bracket
or comma has shown that it is the end, has the value in its place.
-/

namespace SimTerm.Json

/-- Behind the last character of a value: the value counts, whatever bracket or comma comes. -/
structure Reader.Settles (r : Reader) (s : Stack) : Prop where
  flush : r.flush = some s
  step : ∀ c ∈ [',', ']', '\x7d'], r.step c = Reader.start s c

theorem Reader.settles_between (s : Stack) : Reader.Settles ⟨.between, s⟩ s :=
  ⟨rfl, fun _ _ => rfl⟩

/-- A value may start here. -/
def Expect.startsValue : Expect → Prop
  | .value => True
  | .valueOrEnd => True
  | _ => False

/-- A name may start here. -/
def Expect.startsName : Expect → Prop
  | .name => True
  | .nameOrEnd => True
  | _ => False

/-- The text of the value is read as the value wherever a value may start. -/
def Readable (j : Json) : Prop :=
  ∀ (fs : List Frame) (e : Expect) (s : Stack), e.startsValue → Stack.accept j fs = some s →
    ∃ r, Reader.run ⟨.between, ⟨fs, e⟩⟩ j.render = some r ∧ r.Settles s

/-- Where a value may start, a value that is complete is accepted. -/
theorem take_scalar {fs : List Frame} {e : Expect} (he : e.startsValue) (j : Json) :
    Stack.take ⟨fs, e⟩ (.scalar j) = Stack.accept j fs := by
  cases e with
  | value => rfl
  | valueOrEnd => rfl
  | _ => exact he.elim

/-- Where a value may start, an array may be opened. -/
theorem take_openArray {fs : List Frame} {e : Expect} (he : e.startsValue) :
    Stack.take ⟨fs, e⟩ .openArray = some ⟨.array [] :: fs, .valueOrEnd⟩ := by
  cases e with
  | value => rfl
  | valueOrEnd => rfl
  | _ => exact he.elim

/-- Where a value may start, an object may be opened. -/
theorem take_openObject {fs : List Frame} {e : Expect} (he : e.startsValue) :
    Stack.take ⟨fs, e⟩ .openObject = some ⟨.object [] :: fs, .nameOrEnd⟩ := by
  cases e with
  | value => rfl
  | valueOrEnd => rfl
  | _ => exact he.elim

/-- Where a name may start, a string is the name of a member, and a colon has to follow. -/
theorem take_name {fs : List Frame} {members : List (Option String × Json)} {e : Expect}
    (he : e.startsName) (name : Option String) :
    Stack.take ⟨.object members :: fs, e⟩ (.scalar (.string name)) =
      some ⟨.member members name :: fs, .colon⟩ := by
  cases e with
  | name => rfl
  | nameOrEnd => rfl
  | _ => exact he.elim

/-! ## Scalars -/

/-- Strings are read back: what is between the quotes is read piece by piece. -/
theorem string_readable (text : Option String) : Readable (.string text) := by
  intro fs e s he hs
  refine ⟨⟨.between, s⟩, ?_, Reader.settles_between s⟩
  rw [render, run_renderString, take_scalar he, hs, Option.map_some]

/-- A word is handed over when something else than a letter follows it. -/
theorem word_settles {letters : List Char} {j : Json} {fs : List Frame} {e : Expect} {s : Stack}
    (hword : wordValue? letters.reverse = some j) (he : e.startsValue)
    (hs : Stack.accept j fs = some s) : Reader.Settles ⟨.word letters, ⟨fs, e⟩⟩ s := by
  have hflush : Reader.flush ⟨.word letters, ⟨fs, e⟩⟩ = some s := by
    rw [Reader.flush]
    simp only [hword, Option.bind_some, take_scalar he, hs]
  refine ⟨hflush, fun c hc => ?_⟩
  have hlower : c.isLower = false := by
    have hall : [',', ']', '\x7d'].all (! ·.isLower) = true := by decide
    simpa using List.all_eq_true.1 hall c hc
  simp [Reader.step, hlower, hflush]

theorem null_readable : Readable .null :=
  fun _ _ _ he hs => ⟨_, rfl, word_settles rfl he hs⟩

/-- Both truth values are read back. -/
theorem bool_readable (b : Bool) : Readable (.bool b) := by
  intro fs e s he hs
  cases b with
  | true => exact ⟨_, rfl, word_settles rfl he hs⟩
  | false => exact ⟨_, rfl, word_settles rfl he hs⟩

/-- A numeral goes on as long as its characters do. -/
theorem run_numeral {ds : List Char} (h : ∀ d ∈ ds, isNumeralChar d) (cs : List Char) (s : Stack) :
    Reader.run ⟨.numeral cs, s⟩ ds = some ⟨.numeral (ds.reverse ++ cs), s⟩ := by
  induction ds generalizing cs with
  | nil => rfl
  | cons d ds ih =>
    have hd : isNumeralChar d = true := h d List.mem_cons_self
    have hstep : Reader.step ⟨.numeral cs, s⟩ d = some ⟨.numeral (d :: cs), s⟩ := by
      simp [Reader.step, hd]
    rw [Reader.run_cons hstep, ih fun d' hd' => h d' (List.mem_cons_of_mem _ hd')]
    simp

theorem isNumeralChar_of_isDigit {c : Char} (h : c.isDigit) : isNumeralChar c := by
  simp [isNumeralChar, h]

/-- A number is written in characters that numbers may have. -/
theorem isNumeralChar_render (n : Numeral) : ∀ c ∈ n.render, isNumeralChar c := by
  have hminus : isNumeralChar '-' = true := by decide
  have hexp : isNumeralChar 'e' = true := by decide
  have hdigits : ∀ k, ∀ c ∈ Numeral.digitsOf k, isNumeralChar c := fun k c hc =>
    isNumeralChar_of_isDigit (Numeral.all_isDigit_digitsOf k c hc)
  have hsign : ∀ b : Prop, [Decidable b] → ∀ c ∈ (if b then ['-'] else []), isNumeralChar c := by
    intro b _ c hc
    split at hc
    · rw [List.mem_singleton] at hc
      rw [hc]
      exact hminus
    · cases hc
  intro c hc
  cases n with
  | natural n => exact hdigits n c hc
  | decimal negative digits exponent =>
    simp only [Numeral.render, List.append_assoc, List.mem_append, List.cons_append,
      List.mem_cons] at hc
    -- sign, digits, the letter, sign of the exponent, its digits
    rcases hc with hc | hc | rfl | hc | hc
    · exact hsign _ c hc
    · exact hdigits _ c hc
    · exact hexp
    · exact hsign _ c hc
    · exact hdigits _ c hc

/-- A numeral starts with a digit or a sign. -/
theorem render_cons (n : Numeral) : ∃ c cs, n.render = c :: cs ∧ (c.isDigit ∨ c = '-') := by
  have hdigits : ∀ k rest, ∃ c cs, Numeral.digitsOf k ++ rest = c :: cs ∧ c.isDigit := by
    intro k rest
    cases hk : Numeral.digitsOf k with
    | nil => exact absurd hk (Numeral.digitsOf_ne_nil k)
    | cons c cs =>
      exact ⟨c, cs ++ rest, rfl, Numeral.all_isDigit_digitsOf k c (hk ▸ List.mem_cons_self)⟩
  cases n with
  | natural n =>
    obtain ⟨c, cs, heq, hc⟩ := hdigits n []
    exact ⟨c, cs, by rw [Numeral.render, ← heq, List.append_nil], Or.inl hc⟩
  | decimal negative digits exponent =>
    cases negative with
    | true => exact ⟨'-', _, rfl, Or.inr rfl⟩
    | false =>
      obtain ⟨c, cs, heq, hc⟩ := hdigits digits
        ('e' :: (if exponent < 0 then ['-'] else []) ++ Numeral.digitsOf exponent.natAbs)
      refine ⟨c, cs, ?_, Or.inl hc⟩
      rw [← heq]
      simp [Numeral.render]

/-- A digit or a minus sign starts a number. -/
theorem start_numeral {c : Char} (h : c.isDigit ∨ c = '-') (s : Stack) :
    Reader.start s c = some ⟨.numeral [c], s⟩ := by
  have hnumeral : (c.isDigit || c = '-') = true := by
    rcases h with h | h <;> simp [h]
  have hspace : isSpace c = false := by
    rw [Bool.eq_false_iff]
    intro hspace
    simp only [isSpace, Bool.or_eq_true, beq_iff_eq] at hspace
    rcases hspace with ((rfl | rfl) | rfl) | rfl <;> exact absurd hnumeral (by decide)
  have hquote : c ≠ '"' := by
    rintro rfl
    exact absurd hnumeral (by decide)
  rw [Reader.start, hspace, if_neg Bool.false_ne_true, if_neg hquote, if_pos hnumeral]

/-- Numbers are read back: their characters are collected until one comes that ends the number. -/
theorem number_readable (n : Numeral) : Readable (.number n) := by
  intro fs e s he hs
  obtain ⟨c, cs, hrender, hc⟩ := render_cons n
  have hall := isNumeralChar_render n
  rw [hrender] at hall
  have hstart : Reader.step ⟨.between, ⟨fs, e⟩⟩ c = some ⟨.numeral [c], ⟨fs, e⟩⟩ :=
    start_numeral hc _
  have hread : Numeral.read? (cs.reverse ++ [c]).reverse = some n := by
    rw [List.reverse_append, List.reverse_reverse, List.reverse_singleton, List.singleton_append,
      ← hrender, Numeral.read?_render]
  have hflush : Reader.flush ⟨.numeral (cs.reverse ++ [c]), ⟨fs, e⟩⟩ = some s := by
    rw [Reader.flush]
    simp only [hread, Option.bind_some, take_scalar he, hs]
  refine ⟨⟨.numeral (cs.reverse ++ [c]), ⟨fs, e⟩⟩, ?_, hflush, fun d hd => ?_⟩
  · rw [render, hrender, Reader.run_cons hstart]
    exact run_numeral (fun d hd => hall d (List.mem_cons_of_mem _ hd)) _ _
  · -- a number ends where a character comes that it may not have
    have hd' : isNumeralChar d = false := by
      have hends : [',', ']', '\x7d'].all (! isNumeralChar ·) = true := by decide
      simpa using List.all_eq_true.1 hends d hd
    simp [Reader.step, hd', hflush]

/-! ## Lists between brackets -/

/-- Values that are lists of elements between brackets: how such a list is written, and what the
reader does at its brackets and commas. The elements that were read so far are in a frame, the
latest first. -/
structure Bracketed {α : Type} (value : List α → Json) (text : List α → List Char)
    (frame : List α → Frame) (opening closing : Char) (first next : Expect) : Prop where
  render : ∀ xs, (value xs).render = opening :: (text xs ++ [closing])
  text_nil : text [] = []
  text_cons : ∀ x y ys, text (x :: y :: ys) = text [x] ++ ',' :: text (y :: ys)
  opens : ∀ (fs : List Frame) (e : Expect), e.startsValue →
    Reader.step ⟨.between, ⟨fs, e⟩⟩ opening = some ⟨.between, ⟨frame [] :: fs, first⟩⟩
  goesOn : ∀ (read : List α) (fs : List Frame),
    Reader.start ⟨frame read :: fs, .separator⟩ ',' = some ⟨.between, ⟨frame read :: fs, next⟩⟩
  closing_mem : closing ∈ [',', ']', '\x7d']
  /-- The closing bracket ends a list behind an element, or behind the opening bracket. -/
  closes : ∀ (read : List α) (fs : List Frame) (e : Expect),
    e = .separator ∨ (read = [] ∧ e = first) →
      Reader.start ⟨frame read :: fs, e⟩ closing =
        (Stack.accept (value read.reverse) fs).map (⟨.between, ·⟩)

namespace Bracketed

variable {α : Type} {value : List α → Json} {text : List α → List Char} {frame : List α → Frame}
  {opening closing : Char} {first next : Expect}

/-- The element is read in front of those that were read before it. -/
def ElementReadable (text : List α → List Char) (frame : List α → Frame) (first next : Expect)
    (x : α) : Prop :=
  ∀ (read : List α) (fs : List Frame) (e : Expect), e = first ∨ e = next →
    ∃ r, Reader.run ⟨.between, ⟨frame read :: fs, e⟩⟩ (text [x]) = some r ∧
      r.Settles ⟨frame (x :: read) :: fs, .separator⟩

/-- Elements are read in front of those that were read before them, by induction on the elements. -/
theorem elements (h : Bracketed value text frame opening closing first next) {xs : List α}
    (hne : xs ≠ []) (hxs : ∀ x ∈ xs, ElementReadable text frame first next x) (read : List α)
    (fs : List Frame) {e : Expect} (he : e = first ∨ e = next) :
    ∃ r, Reader.run ⟨.between, ⟨frame read :: fs, e⟩⟩ (text xs) = some r ∧
      r.Settles ⟨frame (xs.reverse ++ read) :: fs, .separator⟩ := by
  induction xs generalizing read e with
  | nil => exact absurd rfl hne
  | cons x xs ih =>
    obtain ⟨hx, hrest⟩ := List.forall_mem_cons.1 hxs
    obtain ⟨r, hrun, hr⟩ := hx read fs e he
    cases xs with
    | nil => exact ⟨r, hrun, hr⟩
    | cons y ys =>
      have hcomma : r.step ',' = some ⟨.between, ⟨frame (x :: read) :: fs, next⟩⟩ :=
        (hr.step ',' List.mem_cons_self).trans (h.goesOn _ _)
      -- behind the comma an element has to come, so the rest may not start with an end
      obtain ⟨r', hrun', hr'⟩ := ih (List.cons_ne_nil y ys) hrest (x :: read) (Or.inr rfl)
      refine ⟨r', ?_, ?_⟩
      · rw [h.text_cons, Reader.run_append, hrun, Option.bind_some, Reader.run_cons hcomma, hrun']
      · rw [List.reverse_cons, List.append_assoc, List.singleton_append]
        exact hr'

/-- A list between brackets is read back if its elements are: the opening bracket puts a frame on
the stack, and the closing one takes it off and leaves the value in its place. -/
theorem readable (h : Bracketed value text frame opening closing first next) {xs : List α}
    (hxs : ∀ x ∈ xs, ElementReadable text frame first next x) : Readable (value xs) := by
  intro fs e s he hs
  have hend {r : Reader} (hrun : Reader.run ⟨.between, ⟨frame [] :: fs, first⟩⟩ (text xs) = some r)
      (hclose : r.step closing = some ⟨.between, s⟩) :
      Reader.run ⟨.between, ⟨fs, e⟩⟩ (value xs).render = some ⟨.between, s⟩ := by
    rw [h.render, Reader.run_cons (h.opens fs e he), Reader.run_append, hrun, Option.bind_some,
      Reader.run_cons hclose, Reader.run]
  refine ⟨⟨.between, s⟩, ?_, Reader.settles_between s⟩
  cases xs with
  | nil =>
    have hclose : Reader.step ⟨.between, ⟨frame [] :: fs, first⟩⟩ closing =
        (Stack.accept (value []) fs).map (⟨.between, ·⟩) :=
      h.closes [] fs first (Or.inr ⟨rfl, rfl⟩)
    rw [hs] at hclose
    exact hend (by rw [h.text_nil, Reader.run]) hclose
  | cons x xs =>
    obtain ⟨r, hrun, hr⟩ := h.elements (List.cons_ne_nil x xs) hxs [] fs (Or.inl rfl)
    have hclose := (hr.step closing h.closing_mem).trans (h.closes _ _ _ (Or.inl rfl))
    rw [List.append_nil, List.reverse_reverse, hs] at hclose
    exact hend hrun hclose

end Bracketed

/-- How arrays are written and read. -/
theorem array_bracketed :
    Bracketed .array renderItems .array '[' ']' .valueOrEnd .value where
  render _ := rfl
  text_nil := rfl
  text_cons _ _ _ := rfl
  opens _ _ he := congrArg (Option.map (Reader.mk .between)) (take_openArray he)
  goesOn _ _ := rfl
  closing_mem := by decide
  closes := by
    rintro read fs e (rfl | ⟨rfl, rfl⟩)
    · rfl
    · rfl

/-- An array is read back if its items are. -/
theorem array_readable {items : List Json} (h : ∀ j ∈ items, Readable j) :
    Readable (.array items) := by
  refine array_bracketed.readable fun j hj read fs e he => ?_
  have hstarts : e.startsValue := by
    rcases he with rfl | rfl
    · trivial
    · trivial
  exact h j hj (.array read :: fs) e _ hstarts rfl

/-- How objects are written and read. -/
theorem object_bracketed :
    Bracketed .object renderMembers .object '\x7b' '\x7d' .nameOrEnd .name where
  render _ := rfl
  text_nil := rfl
  text_cons m n ms := by simp [renderMembers]
  opens _ _ he := congrArg (Option.map (Reader.mk .between)) (take_openObject he)
  goesOn _ _ := rfl
  closing_mem := by decide
  closes := by
    rintro read fs e (rfl | ⟨rfl, rfl⟩)
    · rfl
    · rfl

/-- An object is read back if the values of its members are: a member is its name, a colon, and its
value. -/
theorem object_readable {members : List (Option String × Json)}
    (h : ∀ m ∈ members, Readable m.2) : Readable (.object members) := by
  refine object_bracketed.readable fun ⟨name, j⟩ hm read fs e he => ?_
  have hstarts : e.startsName := by
    rcases he with rfl | rfl
    · trivial
    · trivial
  have hcolon : Reader.step ⟨.between, ⟨.member read name :: fs, .colon⟩⟩ ':' =
      some ⟨.between, ⟨.member read name :: fs, .value⟩⟩ := rfl
  obtain ⟨r, hrun, hr⟩ := h _ hm (.member read name :: fs) .value
    ⟨.object ((name, j) :: read) :: fs, .separator⟩ trivial rfl
  refine ⟨r, ?_, hr⟩
  rw [renderMembers, Reader.run_append, run_renderString, take_name hstarts, Option.map_some,
    Option.bind_some, Reader.run_cons hcolon, hrun]

/-! ## All values -/

mutual
/-- Every value is read back, by induction on the value. -/
theorem readable : ∀ j : Json, Readable j
  | .null => null_readable
  | .bool b => bool_readable b
  | .number n => number_readable n
  | .string text => string_readable text
  | .array items => array_readable (items_all_readable items)
  | .object members => object_readable (members_all_readable members)

theorem items_all_readable : ∀ items : List Json, ∀ j ∈ items, Readable j
  | [] => List.forall_mem_nil _
  | j :: js => List.forall_mem_cons.2 ⟨readable j, items_all_readable js⟩

theorem members_all_readable : ∀ members : List (Option String × Json), ∀ m ∈ members, Readable m.2
  | [] => List.forall_mem_nil _
  | (_, j) :: ms => List.forall_mem_cons.2 ⟨readable j, members_all_readable ms⟩
end

/-- What is written is read back. -/
theorem read?_compact (j : Json) : read? j.compact = some j := by
  obtain ⟨r, hrun, hr⟩ := readable j [] .value ⟨[], .nothing j⟩ trivial rfl
  rw [read?, compact, String.toList_ofList, Reader.initial, hrun, Option.bind_some, Reader.finish,
    hr.flush]

/-- A stored text is read back if its value is admitted, and else refused. -/
theorem readStored?_compact (j : Json) :
    readStored? j.compact = if j.admitted then some j else none := by
  rw [readStored?, read?_compact, Option.filter_some]

end SimTerm.Json
