import SimTerm.Binary64
import SimTerm.Calendar
import SimTerm.Commands.General
import SimTerm.Machine
import SimTerm.Random.Draw

/-!
# The boot log

A boot log has an opening, a row of log lines, and a closing. The log lines tell of made-up devices
and services; which of the uncertain ones appear, what numbers they show and how long the pauses
between them are is drawn from a seed. The time that a line is stamped with is simulated: it moves
on by the pause before the line and by a time of its own, so it grows from line to line.
-/

namespace SimTerm.BootLog

open SimTerm.Random

/-- How log lines are stamped. -/
inductive Style where
  /-- By the time of day in the zone. -/
  | wall
  /-- By the seconds since power on. -/
  | uptime
deriving DecidableEq, Repr

/-- What a boot log is made from. -/
structure Script where
  seed : UInt64
  style : Style := .uptime
  /-- The factor of all pauses. -/
  speed : Float := 1
  allowWarnings : Bool := true
  /-- The moment of the boot, in milliseconds since 1970. -/
  moment : Int := 0
  /-- The zone of the wall clock. -/
  zone : Calendar.Zone := Calendar.Zone.utc

/-- A line of the log that may appear. -/
structure Entry where
  text : String
  /-- The time that passes at the line, in milliseconds. -/
  passes : Nat
  /-- The pause before the line, and the greatest random addition to it. -/
  wait : Nat
  jitter : Nat
  /-- The line may follow the one before without its pause. -/
  burst : Bool
  /-- The chance that the line appears, in per cent. -/
  percent : Nat := 100

/-- A pause with a factor: rounded towards zero, nothing for a negative product, and at most the
greatest number of 64 bits. -/
def scaled (speed : Float) (millis : Nat) : Millis :=
  ((UInt64.ofNat millis).toFloat * speed).toUInt64

/-- The factor of a reboot, which is quicker. -/
def rebootSpeed (speed : Float) : Float :=
  speed * 0.65

/-- Seven tenths in `2 ^ 64`, in steps of `2 ^ 11`. -/
def burstChance : Nat := 12912720851596685312

/-- Three quarters in `2 ^ 64`. -/
def preemptChance : Nat := UInt64.size / 4 * 3

/-- A line that follows the one before quickly, more often than not. -/
def quick (text : String) (passes wait jitter : Nat) (percent : Nat := 100) : Entry :=
  { text, passes, wait, jitter, burst := true, percent }

/-- A line that waits. -/
def slow (text : String) (passes wait jitter : Nat) : Entry :=
  { text, passes, wait, jitter, burst := false }

/-- The lines with the numbers they show. -/
def entriesWith (cores devices tick : Nat) (preempt : Bool) (address : Nat)
    (reboot allowWarnings : Bool) : List Entry :=
  [quick "init: cedar-init starting" 20 25 30,
    quick "mem: ok" 12 20 40,
    quick ("cpu: cores detected: " ++ toString cores) 12 18 40,
    quick ("sched: tick=" ++ toString tick ++ "hz preempt=" ++ (if preempt then "on" else "off"))
      10 18 40,
    quick "vfs: mounting / (ramfs)" 14 22 60,
    quick "vfs: mounting /proc" 8 16 40,
    quick "vfs: mounting /tmp (tmpfs)" 10 18 50,
    quick "dev: enumerating devices" 18 28 80,
    quick "usb: device descriptor read/64, error -71" 8 18 40 (if allowWarnings then 8 else 0),
    slow ("dev: bus=pci scan done (" ++ toString devices ++ " devices)") 35 55 90,
    quick "clock: rtc sync ok" 10 18 50,
    quick "fsck: / clean" 12 22 60,
    quick "vfs: cleanly unmounted old root" 10 22 40 (if reboot then 60 else 0),
    slow "sec: policies loaded" 18 30 70,
    quick "tty: cedar-tty0 attached" 12 24 60,
    slow "svc: starting cedar-logd" 18 35 90,
    quick "svc: cedar-logd: ready" 12 22 60,
    quick "net: lo up" 8 16 40,
    slow "net: dhcp: requesting lease" 45 140 220,
    slow ("net: dhcp: lease acquired 10.0.0." ++ toString address ++ "/24") 18 35 90,
    quick "net: route: default via 10.0.0.1" 12 22 70,
    slow "ui: starting terminal session" 20 55 140,
    slow "ui: preparing prompt..." 20 70 180,
    slow "ui: terminal ready" 10 30 90]

/-- The rates at which a scheduler may tick. -/
def tickRate : Nat → Nat
  | 0 => 100
  | 1 => 250
  | 2 => 300
  | _ => 1000

/-- Draw the numbers that the lines show. -/
def drawEntries (reboot allowWarnings : Bool) : Draw (List Entry) := do
  let cores ← between .narrow 2 12
  let devices ← between .narrow 2 7
  let tick ← between .wide 0 3
  let preempt ← happens preemptChance
  let address ← between .narrow 20 220
  return entriesWith cores devices (tickRate tick) preempt address reboot allowWarnings

/-- Draw the pause before a line: a short one for a burst, and else its own. -/
def drawWait (speed : Float) (e : Entry) : Draw Millis := do
  let jitter ← between .wide 0 e.jitter
  let burst ← if e.burst then happens burstChance else pure false
  if burst then
    return UInt64.ofNat (← between .wide 0 12)
  else
    return scaled speed (e.wait + jitter)

/-- A log line with the pause before it and the uptime it is stamped with. -/
structure Stamped where
  wait : Millis
  uptime : Millis
  text : String

/-- Draw which lines appear, and when, from an uptime on. -/
def drawLines (speed : Float) (uptime : Millis) : List Entry → Draw (List Stamped)
  | [] => return []
  | e :: es => do
    if ← belowPercent e.percent then
      let wait ← drawWait speed e
      let uptime := uptime + (wait + UInt64.ofNat e.passes)
      return { wait, uptime, text := e.text } :: (← drawLines speed uptime es)
    else
      drawLines speed uptime es

/-! ## Stamps -/

/-- Seconds with three decimals, at least eight characters wide: the quotient of the milliseconds
and 1000 as a 64-bit floating point number, rounded to thousandths. -/
def uptimeText (uptime : Millis) : String :=
  -- the quotient is a whole number of small units, so its rounding is exact
  let seconds := Binary64.smallUnits (uptime.toFloat / 1000)
  let thousandths := Binary64.roundHalfEven (1000 * seconds) (Nat.pow 2 1074)
  let text := toString (thousandths / 1000) ++ "." ++ Calendar.padded 3 (thousandths % 1000)
  String.ofList (List.replicate (8 - text.length) ' ') ++ text

/-- The moment at an uptime, where `base` is the moment at uptime zero; moments are counted in 64
bits with a sign and wrap like the uptime. -/
def momentAt (base : Int) (uptime : Millis) : Int :=
  Int.bmod (base + uptime.toNat) UInt64.size

/-- The stamp of a line; the wall clock shows the moment `base` at uptime zero. -/
def stamp (s : Script) (base : Int) (uptime : Millis) : String :=
  match s.style with
  | .uptime => "[" ++ uptimeText uptime ++ "]"
  | .wall => "[" ++ Calendar.clockText s.zone (momentAt base uptime) ++ "]"

/-! ## The whole log -/

/-- The steps that show a log line. -/
def lineSteps (s : Script) (base : Int) (l : Stamped) : List BootStep :=
  (if l.wait = 0 then [] else [.sleep l.wait]) ++
    [.print (stamp s base l.uptime ++ " " ++ l.text)]

/-- The lines before everything else. -/
def opening : List BootStep :=
  [.print "Cedar", .print ("version " ++ version ++ " (" ++ build ++ ")"),
    .print ("kernel  " ++ kernel), .print ""]

/-- Draw what the log says before its lines. -/
def drawPreamble (reboot : Bool) (speed : Float) : Draw (List BootStep) := do
  if reboot then
    return [.print "[reboot] syncing state...", .sleep (scaled speed 180),
      .print "[reboot] restarting services...", .sleep (scaled speed 200), .print ""]
  else
    let pause ← between .wide 320 780
    return [.print "[boot] power on self-test...", .sleep (scaled speed pause), .print ""]

/-- The lines after everything else. -/
def closing : List BootStep :=
  [.print "", .print banner, .print "", .print "Type \x60help\x60 to list commands.",
    .print "Ctrl+L: clear | Ctrl+Alt+R: reboot", .print ""]

/-- Draw the whole log. -/
def drawSteps (s : Script) (reboot : Bool) : Draw (List BootStep) := do
  let speed := if reboot then rebootSpeed s.speed else s.speed
  let preamble ← drawPreamble reboot speed
  let base := s.moment - (← between .wide 0 2499)
  let uptime := UInt64.ofNat (← between .wide 15 120)
  let entries ← drawEntries reboot s.allowWarnings
  let lines ← drawLines speed uptime entries
  return opening ++ preamble ++ lines.flatMap (lineSteps s base) ++ closing

/-- The log as a boot sequence. -/
def sequence (s : Script) : BootSequence :=
  fun reboot _ => ((drawSteps s reboot).run (Keystream.ofSeed s.seed)).1

end SimTerm.BootLog
