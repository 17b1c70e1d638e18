import Mathlib.Data.Rat.Defs
import Mathlib.Order.Lattice
import TMEdge.Library.JsMap
import TMEdge.Library.JsText
import TMEdge.Library.Run

/-!
# When training frames are kept

The model of `RecordSwitch` (`algo/autorecord.ts`). A write is the frame it writes; a call
returns the frames whose writes it runs, in order. The files in which the mode is remembered
are left out: the mode a switch starts in is a parameter.
-/

namespace TMEdge.AutoRecord

open Library

inductive RecordMode
  | off
  | auto
  | on
  deriving DecidableEq

/-- `PREROLL_MS`. -/
def prerollMs : ℚ := 5000

/-- `HOLD_MS`. -/
def holdMs : ℚ := 10000

structure RecordSwitch (φ : Type) where
  mode : RecordMode
  lastPersonAt : JsMap Text ℚ
  pending : JsMap Text (List (ℚ × φ))

namespace RecordSwitch

variable {φ : Type} (s : RecordSwitch φ)

def start (mode : RecordMode) : RecordSwitch φ := ⟨mode, .empty, .empty⟩

/-- The frames of a node that wait for a person. -/
def queued (uid : Text) : List (ℚ × φ) := (s.pending.get uid).getD []

def setMode (mode : RecordMode) : RecordSwitch φ :=
  { s with mode := mode, pending := if mode = .auto then s.pending else .empty }

def active (uid : Text) (now : ℚ) : Bool :=
  match s.lastPersonAt.get uid with
  | none => false
  | some at_ => now - at_ ≤ holdMs

def presence (uid : Text) (people now : ℚ) : RecordSwitch φ × List φ :=
  if people ≤ 0 then (s, [])
  else
    let seen := { s with lastPersonAt := s.lastPersonAt.set uid now }
    if s.mode ≠ .auto || s.active uid now then (seen, [])
    else
      ({ seen with pending := s.pending.delete uid },
        ((s.queued uid).filter fun item => now - item.1 ≤ prerollMs).map Prod.snd)

def gate (uid : Text) (write : φ) (now : ℚ) : RecordSwitch φ × List φ :=
  match s.mode with
  | .off => (s, [])
  | .on => (s, [write])
  | .auto =>
    if s.active uid now then (s, [write])
    else
      let kept := (s.queued uid).filter fun item => now - item.1 ≤ prerollMs
      ({ s with pending := s.pending.set uid (kept ++ [(now, write)]) }, [])

end RecordSwitch

/-! ## Runs -/

/-- A frame: the node and the time it is offered for, and its number among all offers. -/
structure Frame where
  uid : Text
  at_ : ℚ
  serial : Nat
  deriving DecidableEq

inductive Event
  | presence (uid : Text) (people now : ℚ)
  | gate (uid : Text) (now : ℚ)
  | setMode (mode : RecordMode)

def Event.time : Event → Option ℚ
  | .presence _ _ now | .gate _ now => some now
  | .setMode _ => none

/-- The switch, how many frames it was offered, and what was written. -/
structure World where
  switch : RecordSwitch Frame
  offered : Nat
  written : List Frame

namespace World

def start (mode : RecordMode) : World := ⟨.start mode, 0, []⟩

def step (w : World) : Event → World
  | .presence uid people now =>
    let (switch, frames) := w.switch.presence uid people now
    ⟨switch, w.offered, w.written ++ frames⟩
  | .gate uid now =>
    let (switch, frames) := w.switch.gate uid ⟨uid, now, w.offered⟩ now
    ⟨switch, w.offered + 1, w.written ++ frames⟩
  | .setMode mode => { w with switch := w.switch.setMode mode }

def after (w : World) (es : List Event) : World := run step w es

end World

end TMEdge.AutoRecord
