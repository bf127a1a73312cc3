import Mathlib.Algebra.GroupWithZero.Nat
import Mathlib.Data.List.Forall2
import Mathlib.Data.List.Nodup
import SimTerm.Boot.Log
import SimTerm.Proofs.Random.Draw
import SimTerm.Proofs.Terminal.Reboot

/-!
# What a boot log says

A boot log is drawn line by line, and each line depends on up to four draws. What all streams have
in common is told by the ranges of the draws: `MayLog` relates the entries of a log to the lines
that they may give, with one rule for an entry that is left out and one for an entry that is shown.
The laws of a log follow by induction on it: the lines keep the order of the entries, what is
certain is shown, what has no chance is not, and the uptime grows as long as it has room.

The texts of a script differ from one another, so these laws can be told by counting texts:
`log_follows_script`.
-/

namespace SimTerm.BootLog

open SimTerm.Random
open Draw (gives_pure gives_true)

/-! ## Pauses -/

/-- The pauses that may stand before a line: a short one in a burst, or its own with a random
addition, scaled. -/
inductive MayPause (speed : Float) (e : Entry) : Millis → Prop where
  | burst {millis : Nat} (hburst : e.burst = true) (h : millis ≤ 12) :
    MayPause speed e (UInt64.ofNat millis)
  | own {jitter : Nat} (h : jitter ≤ e.jitter) : MayPause speed e (scaled speed (e.wait + jitter))

/-- Whatever is drawn, the pause before a line is one that it may have. -/
theorem drawWait_gives (speed : Float) (e : Entry) :
    Draw.Gives (drawWait speed e) (MayPause speed e) := by
  refine (between_gives .wide (Nat.zero_le e.jitter)).bind fun jitter hjitter => ?_
  have hown : Draw.Gives (pure (scaled speed (e.wait + jitter))) (MayPause speed e) :=
    gives_pure (.own hjitter.2)
  dsimp only
  split
  · next hburst =>
    refine (gives_true (happens burstChance)).bind fun burst _ => ?_
    cases burst with
    | true =>
      exact (between_gives .wide (Nat.zero_le 12)).bind fun millis hmillis =>
        gives_pure (.burst hburst hmillis.2)
    | false => exact hown
  · exact hown

/-! ## Lines -/

/-- The log lines that entries may give from an uptime on. -/
inductive MayLog (speed : Float) : Millis → List Entry → List Stamped → Prop where
  | done {uptime : Millis} : MayLog speed uptime [] []
  | skip {uptime : Millis} {e : Entry} {es : List Entry} {ls : List Stamped} (h : e.percent < 100)
    (hrest : MayLog speed uptime es ls) : MayLog speed uptime (e :: es) ls
  | line {uptime wait : Millis} {e : Entry} {es : List Entry} {ls : List Stamped}
    (h : 0 < e.percent) (hwait : MayPause speed e wait)
    (hrest : MayLog speed (uptime + (wait + UInt64.ofNat e.passes)) es ls) :
    MayLog speed uptime (e :: es)
      ({ wait, uptime := uptime + (wait + UInt64.ofNat e.passes), text := e.text } :: ls)

/-- Whatever is drawn, the lines are some that the entries may give, by induction on the entries. -/
theorem drawLines_gives (speed : Float) (es : List Entry) (uptime : Millis) :
    Draw.Gives (drawLines speed uptime es) (MayLog speed uptime es) := by
  induction es generalizing uptime with
  | nil => exact gives_pure .done
  | cons e es ih =>
    refine (belowPercent_gives e.percent).bind fun shown hshown => ?_
    cases shown with
    | true =>
      exact (drawWait_gives speed e).bind fun wait hwait =>
        (ih _).bind fun ls hls => gives_pure (.line (hshown.1 rfl) hwait hls)
    | false => exact (ih uptime).imp fun ls hls => .skip (hshown.2 rfl) hls

section MayLog

variable {speed : Float} {uptime : Millis} {es : List Entry} {ls : List Stamped}

/-- The lines keep the order of the entries, and none stands twice for one entry. -/
theorem MayLog.texts_sublist (h : MayLog speed uptime es ls) :
    (ls.map Stamped.text).Sublist (es.map Entry.text) := by
  induction h with
  | done => exact .slnil
  | skip _ _ ih => exact ih.cons _
  | line _ _ _ ih => exact ih.cons_cons _

/-- What is certain is shown. -/
theorem MayLog.mem_texts (h : MayLog speed uptime es ls) {e : Entry} (he : e ∈ es)
    (hcertain : 100 ≤ e.percent) : e.text ∈ ls.map Stamped.text := by
  induction h with
  | done => cases he
  | skip huncertain _ ih =>
    rcases List.mem_cons.1 he with rfl | he
    · exact absurd hcertain (Nat.not_le_of_lt huncertain)
    · exact ih he
  | line _ _ _ ih =>
    rcases List.mem_cons.1 he with rfl | he
    · exact List.mem_cons_self
    · exact List.mem_cons_of_mem _ (ih he)

/-- Every line comes from an entry that has a chance, with one of its pauses. -/
theorem MayLog.of_mem (h : MayLog speed uptime es ls) {l : Stamped} (hl : l ∈ ls) :
    ∃ e ∈ es, e.text = l.text ∧ 0 < e.percent ∧ MayPause speed e l.wait := by
  induction h with
  | done => cases hl
  | skip _ _ ih =>
    obtain ⟨e, he, hfrom⟩ := ih hl
    exact ⟨e, List.mem_cons_of_mem _ he, hfrom⟩
  | line hchance hwait _ ih =>
    rcases List.mem_cons.1 hl with rfl | hl
    · exact ⟨_, List.mem_cons_self, rfl, hchance, hwait⟩
    · obtain ⟨e, he, hfrom⟩ := ih hl
      exact ⟨e, List.mem_cons_of_mem _ he, hfrom⟩

/-- An entry that has a chance only under a condition is shown at most once, and then under it. -/
theorem MayLog.count_le (h : MayLog speed uptime es ls) (hnodup : (es.map Entry.text).Nodup)
    {e : Entry} (he : e ∈ es) {condition : Bool} (hchance : 0 < e.percent → condition = true) :
    (ls.map Stamped.text).count e.text ≤ if condition then 1 else 0 := by
  cases condition with
  | true => exact List.nodup_iff_count_le_one.1 (h.texts_sublist.nodup hnodup) e.text
  | false =>
    refine Nat.le_of_eq (List.count_eq_zero.2 fun hmem => ?_)
    obtain ⟨l, hl, htext⟩ := List.mem_map.1 hmem
    obtain ⟨origin, horigin, hsame, hshown, -⟩ := h.of_mem hl
    -- no other entry has the text
    obtain rfl : origin = e := List.inj_on_of_nodup_map hnodup horigin he (hsame.trans htext)
    exact Bool.false_ne_true (hchance hshown)

/-- What is certain is shown once, as no two entries have the same text. -/
theorem MayLog.count_of_certain (h : MayLog speed uptime es ls)
    (hnodup : (es.map Entry.text).Nodup) {e : Entry} (he : e ∈ es) (hcertain : e.percent = 100) :
    (ls.map Stamped.text).count e.text = 1 :=
  List.count_eq_one_of_mem (h.texts_sublist.nodup hnodup)
    (h.mem_texts he (Nat.le_of_eq hcertain.symm))

/-- The pauses before some lines, in milliseconds. -/
def totalWait (ls : List Stamped) : Nat :=
  (ls.map fun l => l.wait.toNat).sum

theorem totalWait_cons (l : Stamped) (ls : List Stamped) :
    totalWait (l :: ls) = l.wait.toNat + totalWait ls :=
  rfl

/-- As long as the uptime stays below the greatest number, it grows from line to line. -/
theorem MayLog.uptimes_increase (h : MayLog speed uptime es ls)
    (hpasses : ∀ e ∈ es, 0 < e.passes)
    (hroom : uptime.toNat + totalWait ls + (es.map Entry.passes).sum < UInt64.size) :
    (∀ l ∈ ls, uptime < l.uptime) ∧ ls.Pairwise fun l later => l.uptime < later.uptime := by
  induction h with
  | done => exact ⟨List.forall_mem_nil _, .nil⟩
  | skip _ _ ih =>
    rw [List.map_cons, List.sum_cons] at hroom
    exact ih (fun e he => hpasses e (List.mem_cons_of_mem _ he)) (by omega)
  | @line uptime wait e es ls _ _ _ ih =>
    have hpass : 0 < e.passes := hpasses e List.mem_cons_self
    rw [totalWait_cons, List.map_cons, List.sum_cons] at hroom
    dsimp only at hroom
    -- the sum does not wrap: what is still to be added leaves room for it
    have hnext : (uptime + (wait + UInt64.ofNat e.passes)).toNat =
        uptime.toNat + (wait.toNat + e.passes) := by
      simp only [UInt64.toNat_add, UInt64.toNat_ofNat', UInt64.size] at hroom ⊢
      omega
    have hstep : uptime < uptime + (wait + UInt64.ofNat e.passes) := by
      rw [UInt64.lt_iff_toNat_lt, hnext]
      omega
    obtain ⟨hlater, hrest⟩ := ih (fun e he => hpasses e (List.mem_cons_of_mem _ he)) (by omega)
    exact ⟨List.forall_mem_cons.2 ⟨hstep, fun l hl => UInt64.lt_trans hstep (hlater l hl)⟩,
      List.pairwise_cons.2 ⟨hlater, hrest⟩⟩

end MayLog

/-- The pauses of more than 12 milliseconds. Only a scaled pause can be that long, so all scaled
pauses together are no less. -/
def longWait (ls : List Stamped) : Nat :=
  ((ls.map fun l => l.wait.toNat).filter (12 < ·)).sum

/-- All pauses but the long ones are at most 12 milliseconds. -/
theorem totalWait_le (ls : List Stamped) : totalWait ls ≤ longWait ls + 12 * ls.length := by
  induction ls with
  | nil => exact Nat.le_refl 0
  | cons l ls ih =>
    rw [longWait] at ih ⊢
    rw [totalWait_cons, List.map_cons, List.length_cons, List.filter_cons]
    split
    · rw [List.sum_cons]
      omega
    · next hshort =>
      have hwait : l.wait.toNat ≤ 12 := Nat.le_of_not_lt fun hlong => hshort (decide_eq_true hlong)
      omega

/-! ## The script -/

/-- The entries of a log, with numbers in their ranges. -/
inductive IsScript (reboot allowWarnings : Bool) : List Entry → Prop where
  | numbers {cores devices rate address : Nat} {preempt : Bool} (hcores : 2 ≤ cores ∧ cores ≤ 12)
    (hdevices : 2 ≤ devices ∧ devices ≤ 7) (hrate : rate ∈ [100, 250, 300, 1000])
    (haddress : 20 ≤ address ∧ address ≤ 220) :
    IsScript reboot allowWarnings
      (entriesWith cores devices rate preempt address reboot allowWarnings)

/-- The scheduler ticks at one of four rates. -/
theorem tickRate_mem (n : Nat) : tickRate n ∈ [100, 250, 300, 1000] := by
  unfold tickRate
  split <;> decide

/-- Whatever is drawn, the entries are those of a script. -/
theorem drawEntries_gives (reboot allowWarnings : Bool) :
    Draw.Gives (drawEntries reboot allowWarnings) (IsScript reboot allowWarnings) := by
  refine (between_gives .narrow (by decide)).bind fun cores hcores => ?_
  refine (between_gives .narrow (by decide)).bind fun devices hdevices => ?_
  refine (gives_true _).bind fun tick _ => (gives_true _).bind fun preempt _ => ?_
  exact (between_gives .narrow (by decide)).bind fun address haddress =>
    gives_pure (.numbers hcores hdevices (tickRate_mem tick) haddress)

/-- The warning about a device that does not answer. -/
def usbWarning (allowWarnings : Bool) : Entry :=
  quick "usb: device descriptor read/64, error -71" 8 18 40 (if allowWarnings then 8 else 0)

/-- The line about the file system from before a reboot. -/
def oldRoot (reboot : Bool) : Entry :=
  quick "vfs: cleanly unmounted old root" 10 22 40 (if reboot then 60 else 0)

/-- What has a chance only where a flag is set shows that the flag is set. -/
theorem flag_of_chance {flag : Bool} {percent : Nat} (h : 0 < if flag then percent else 0) :
    flag = true := by
  cases flag
  · cases h
  · rfl

/-- What the lines of a script start with, as far as it takes to tell them apart. -/
def beginnings : List String :=
  ["init", "mem", "cpu", "sched", "vfs: mounting / ", "vfs: mounting /p", "vfs: mounting /t",
    "dev: e", "usb", "dev: b", "clock", "fsck", "vfs: c", "sec", "tty", "svc: s", "svc: c",
    "net: lo", "net: dhcp: r", "net: dhcp: l", "net: r", "ui: s", "ui: p", "ui: t"]

/-- Where texts have prefixes one by one, each of the texts has one of the prefixes. -/
theorem exists_prefix_of_mem {ps ts : List (List Char)} (h : List.Forall₂ (· <+: ·) ps ts)
    {t : List Char} (ht : t ∈ ts) : ∃ p ∈ ps, p <+: t := by
  induction h with
  | nil => cases ht
  | cons hp _ ih =>
    rcases List.mem_cons.1 ht with rfl | ht
    · exact ⟨_, List.mem_cons_self, hp⟩
    · obtain ⟨p, hmem, hprefix⟩ := ih ht
      exact ⟨p, List.mem_cons_of_mem _ hmem, hprefix⟩

/-- Texts are different if they start differently. -/
theorem nodup_of_prefixes {ps ts : List (List Char)} (h : List.Forall₂ (· <+: ·) ps ts)
    (hps : ps.Pairwise fun p q => ¬ p <+: q ∧ ¬ q <+: p) : ts.Nodup := by
  induction h with
  | nil => exact .nil
  | cons hp h ih =>
    obtain ⟨hfirst, hrest⟩ := List.pairwise_cons.1 hps
    refine List.nodup_cons.2 ⟨fun ht => ?_, ih hrest⟩
    obtain ⟨q, hq, hqt⟩ := exists_prefix_of_mem h ht
    exact (List.prefix_or_prefix_of_prefix hp hqt).elim (hfirst q hq).1 (hfirst q hq).2

section IsScript

variable {reboot allowWarnings : Bool} {es : List Entry}

/-- The numbers make no difference to the time that passes at the lines. -/
theorem IsScript.passes (h : IsScript reboot allowWarnings es) : es.map Entry.passes =
    [20, 12, 12, 10, 14, 8, 10, 18, 8, 35, 10, 12, 10, 18, 12, 18, 12, 8, 45, 18, 12, 20, 20,
      10] := by
  cases h
  rfl

theorem IsScript.length (h : IsScript reboot allowWarnings es) : es.length = 24 := by
  rw [← List.length_map, h.passes]
  rfl

/-- Some time passes at every line. -/
theorem IsScript.passes_pos (h : IsScript reboot allowWarnings es) {e : Entry} (he : e ∈ es) :
    0 < e.passes := by
  have hall : ∀ n ∈ es.map Entry.passes, 0 < n := by
    rw [h.passes]
    decide
  exact hall e.passes (List.mem_map_of_mem he)

theorem IsScript.sum_passes (h : IsScript reboot allowWarnings es) :
    (es.map Entry.passes).sum = 372 := by
  rw [h.passes]
  rfl

/-- The texts of a script start differently, so they differ. -/
theorem IsScript.texts_nodup (h : IsScript reboot allowWarnings es) :
    (es.map Entry.text).Nodup := by
  have hbegin : List.Forall₂ (· <+: ·) (beginnings.map String.toList)
      ((es.map Entry.text).map String.toList) := by
    cases h
    simp [beginnings, entriesWith, quick, slow]
  exact List.Nodup.of_map String.toList (nodup_of_prefixes hbegin (by decide))

/-- Two entries may be left out, the warning and the line about the old file system. -/
theorem IsScript.uncertain (h : IsScript reboot allowWarnings es) :
    es.filter (·.percent ≠ 100) = [usbWarning allowWarnings, oldRoot reboot] := by
  cases h
  cases allowWarnings <;> cases reboot <;> rfl

/-- All entries are certain but two. -/
theorem IsScript.certain_or (h : IsScript reboot allowWarnings es) {e : Entry} (he : e ∈ es) :
    e.percent = 100 ∨ e = usbWarning allowWarnings ∨ e = oldRoot reboot := by
  by_cases hcertain : e.percent = 100
  · exact .inl hcertain
  · have hmem : e ∈ es.filter (·.percent ≠ 100) := List.mem_filter.2 ⟨he, decide_eq_true hcertain⟩
    rw [h.uncertain, List.mem_cons, List.mem_singleton] at hmem
    exact .inr hmem

theorem IsScript.usbWarning_mem (h : IsScript reboot allowWarnings es) :
    usbWarning allowWarnings ∈ es :=
  List.mem_of_mem_filter (h.uncertain ▸ List.mem_cons_self)

theorem IsScript.oldRoot_mem (h : IsScript reboot allowWarnings es) : oldRoot reboot ∈ es :=
  List.mem_of_mem_filter (h.uncertain ▸ List.mem_cons_of_mem _ List.mem_cons_self)

end IsScript

/-! ## The whole log -/

/-- The factor of all pauses of a log. -/
def Script.pace (s : Script) (reboot : Bool) : Float :=
  if reboot then rebootSpeed s.speed else s.speed

/-- What a log is put together from: what it says before its lines, the moment of uptime zero, and
the lines with the entries that they were drawn from. -/
structure Parts where
  preamble : List BootStep
  base : Int
  entries : List Entry
  lines : List Stamped

/-- The steps of a log with these parts. -/
def Parts.steps (s : Script) (log : Parts) : List BootStep :=
  opening ++ log.preamble ++ log.lines.flatMap (lineSteps s log.base) ++ closing

/-- Draw the parts of a log. -/
def drawParts (s : Script) (reboot : Bool) : Draw Parts := do
  let preamble ← drawPreamble reboot (s.pace reboot)
  let base := s.moment - (← between .wide 0 2499)
  let uptime := UInt64.ofNat (← between .wide 15 120)
  let entries ← drawEntries reboot s.allowWarnings
  let lines ← drawLines (s.pace reboot) uptime entries
  return { preamble, base, entries, lines }

/-- The steps of a log are those of its parts. -/
theorem drawSteps_eq (s : Script) (reboot : Bool) :
    drawSteps s reboot = Parts.steps s <$> drawParts s reboot := by
  simp only [drawSteps, drawParts, map_bind, map_pure]
  rfl

/-- On every stream the drawn steps are those of the drawn parts. -/
theorem run_drawSteps (s : Script) (reboot : Bool) (k : Keystream) :
    ((drawSteps s reboot).run k).1 = ((drawParts s reboot).run k).1.steps s := by
  rw [drawSteps_eq, Draw.run_map]

/-- The lines that a log shows before its log lines. -/
def openingLines (reboot : Bool) : List String :=
  opening.filterMap BootStep.line? ++
    if reboot then ["[reboot] syncing state...", "[reboot] restarting services...", ""]
    else ["[boot] power on self-test...", ""]

/-- The lines that a log shows after its log lines. -/
def closingLines : List String :=
  closing.filterMap BootStep.line?

/-- A log line as it is shown. -/
def Stamped.shown (s : Script) (base : Int) (l : Stamped) : String :=
  stamp s base l.uptime ++ " " ++ l.text

/-- What is known of the parts of a log, whatever they were drawn from. -/
structure MayHave (s : Script) (reboot : Bool) (log : Parts) : Prop where
  preamble : opening.filterMap BootStep.line? ++ log.preamble.filterMap BootStep.line? =
    openingLines reboot
  entries : IsScript reboot s.allowWarnings log.entries
  lines : ∃ uptime : Millis, uptime.toNat ≤ 120 ∧
    MayLog (s.pace reboot) uptime log.entries log.lines

/-- Whatever is drawn, the same lines come before the log lines; only a pause is drawn. -/
theorem drawPreamble_gives (reboot : Bool) (speed : Float) :
    Draw.Gives (drawPreamble reboot speed) fun steps =>
      opening.filterMap BootStep.line? ++ steps.filterMap BootStep.line? = openingLines reboot := by
  cases reboot with
  | true => exact gives_pure rfl
  | false => exact (gives_true _).bind fun _ _ => gives_pure rfl

/-- Whatever is drawn, the parts are some that a log may have. -/
theorem drawParts_gives (s : Script) (reboot : Bool) :
    Draw.Gives (drawParts s reboot) (MayHave s reboot) := by
  refine (drawPreamble_gives reboot (s.pace reboot)).bind fun preamble hpreamble => ?_
  refine (gives_true _).bind fun _ _ => ?_
  refine (between_gives .wide (by decide)).bind fun start hstart => ?_
  refine (drawEntries_gives reboot s.allowWarnings).bind fun entries hentries => ?_
  refine (drawLines_gives _ entries _).bind fun lines hlines => gives_pure ?_
  refine ⟨hpreamble, hentries, _, ?_, hlines⟩
  rw [UInt64.toNat_ofNat_of_lt' (Nat.lt_of_le_of_lt hstart.2 (by decide))]
  exact hstart.2

/-- A log line is shown on one line of the screen, whatever pause comes before it. -/
theorem lines_lineSteps (s : Script) (base : Int) (l : Stamped) :
    (lineSteps s base l).filterMap BootStep.line? = [l.shown s base] := by
  rw [lineSteps, List.filterMap_append]
  split <;> rfl

/-- The lines that a log with these parts shows. -/
theorem MayHave.lines_steps {s : Script} {reboot : Bool} {log : Parts} (h : MayHave s reboot log) :
    (log.steps s).filterMap BootStep.line? =
      openingLines reboot ++ log.lines.map (Stamped.shown s log.base) ++ closingLines := by
  have hlines : (log.lines.flatMap (lineSteps s log.base)).filterMap BootStep.line? =
      log.lines.map (Stamped.shown s log.base) := by
    rw [List.filterMap_flatMap, List.map_eq_flatMap]
    exact congrArg (log.lines.flatMap ·) (funext (lines_lineSteps s log.base))
  rw [Parts.steps, List.filterMap_append, List.filterMap_append, List.filterMap_append, hlines,
    h.preamble, closingLines]

/-- If the long pauses leave room below the greatest number, each line is stamped later than the one
before it. -/
theorem MayHave.uptimes_increase {s : Script} {reboot : Bool} {log : Parts}
    (h : MayHave s reboot log) (hpauses : longWait log.lines < 2 ^ 63) :
    log.lines.Pairwise fun l later => l.uptime < later.uptime := by
  obtain ⟨start, hstart, hlines⟩ := h.lines
  have hlength : log.lines.length ≤ 24 := by
    rw [← h.entries.length, ← List.length_map Stamped.text, ← List.length_map Entry.text]
    exact hlines.texts_sublist.length_le
  -- at most 24 short pauses, the start, and what the lines take, next to the long pauses
  have htotal := totalWait_le log.lines
  refine (hlines.uptimes_increase (fun e he => h.entries.passes_pos he) ?_).2
  rw [h.entries.sum_passes, UInt64.size]
  omega

/-- Whatever stream a log is drawn from, that of a seed for one, in whatever style and time zone and
at whatever speed: it shows its opening, its log lines, and its closing. The log lines stand in the
order of the script, whose texts differ from one another. Each entry that is certain is shown once.
There are only two others. The warning about a device is shown at most once, and never where
warnings are not allowed; the line about the file system from before a reboot is shown at most once,
and only in a reboot. Every pause is a short one in a burst or a scaled one, and if the long ones
stay below `2 ^ 63` together, each line is stamped with a greater uptime than the lines before it.
-/
theorem log_follows_script (s : Script) (reboot : Bool) (k : Keystream) :
    let log := ((drawParts s reboot).run k).1
    let texts := log.lines.map Stamped.text
    let steps := ((drawSteps s reboot).run k).1
    steps = log.steps s ∧
      steps.filterMap BootStep.line? =
        openingLines reboot ++ log.lines.map (Stamped.shown s log.base) ++ closingLines ∧
      IsScript reboot s.allowWarnings log.entries ∧
      texts.Sublist (log.entries.map Entry.text) ∧ (log.entries.map Entry.text).Nodup ∧
      (∀ e ∈ log.entries, e.percent = 100 → texts.count e.text = 1) ∧
      (∀ e ∈ log.entries,
        e.percent = 100 ∨ e = usbWarning s.allowWarnings ∨ e = oldRoot reboot) ∧
      texts.count (usbWarning s.allowWarnings).text ≤ (if s.allowWarnings then 1 else 0) ∧
      texts.count (oldRoot reboot).text ≤ (if reboot then 1 else 0) ∧
      (∀ l ∈ log.lines, ∃ e ∈ log.entries, e.text = l.text ∧ MayPause (s.pace reboot) e l.wait) ∧
      (longWait log.lines < 2 ^ 63 →
        log.lines.Pairwise fun l later => l.uptime < later.uptime) := by
  intro log texts steps
  have hlog : MayHave s reboot log := drawParts_gives s reboot k
  have hsteps : steps = log.steps s := run_drawSteps s reboot k
  have hscript := hlog.entries
  have hnodup := hscript.texts_nodup
  obtain ⟨start, -, hlines⟩ := hlog.lines
  refine ⟨hsteps, ?_, hscript, hlines.texts_sublist, hnodup,
    fun e he hcertain => hlines.count_of_certain hnodup he hcertain,
    fun e he => hscript.certain_or he,
    hlines.count_le hnodup hscript.usbWarning_mem flag_of_chance,
    hlines.count_le hnodup hscript.oldRoot_mem flag_of_chance, fun l hl => ?_,
    hlog.uptimes_increase⟩
  · rw [hsteps]
    exact hlog.lines_steps
  · obtain ⟨e, he, htext, -, hwait⟩ := hlines.of_mem hl
    exact ⟨e, he, htext, hwait⟩

/-- A stream of zeros, as long as it takes. -/
def zeros : Keystream :=
  { key := Vector.replicate 8 0, left := List.replicate 300 0 }

/-- The lowest draws throughout, at a speed that makes the long pauses add up to almost half of
`2 ^ 63`. Lines after pauses of nothing are stamped with greater uptimes as well. -/
theorem log_follows_script_zeros :
    let s : Script := { seed := 0, style := .wall, speed := 9007199254740992 }
    let log := ((drawParts s false).run zeros).1
    log.lines.length = 23 ∧ (log.lines.filter (·.wait = 0)).length = 15 ∧
      longWait log.lines = 4053239664633446400 ∧ longWait log.lines < 2 ^ 63 ∧
      log.lines.Pairwise fun l later => l.uptime < later.uptime := by
  intro s log
  have hlines : log.lines.length = 23 ∧ (log.lines.filter (·.wait = 0)).length = 15 ∧
      longWait log.lines = 4053239664633446400 := by decide +kernel
  obtain ⟨hlength, hbursts, hlong⟩ := hlines
  have hroom : longWait log.lines < 2 ^ 63 := hlong ▸ by decide
  obtain ⟨-, -, -, -, -, -, -, -, -, -, hincreasing⟩ := log_follows_script s false zeros
  exact ⟨hlength, hbursts, hlong, hroom, hincreasing hroom⟩

/-- At a speed 32 times as high the pauses do not have room any more, and the uptime wraps. -/
example :
    let log := ((drawParts { seed := 0, speed := 288230376151711744 } false).run zeros).1
    ¬ log.lines.Pairwise fun l later => l.uptime < later.uptime := by
  decide +kernel

end SimTerm.BootLog
