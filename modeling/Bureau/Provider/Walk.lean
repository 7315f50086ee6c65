import Bureau.Error
import Bureau.Time.Timestamp

/-!
Random walks that move base rates. An offset is a fraction of the base rate; it steps at random, at
most once in an interval, and stays in its bounds.
-/

set_option autoImplicit false

namespace Bureau

/-- The settings of the walks. -/
structure Drift where
  /-- Whether walks step at all; offsets that are set apply in any case. -/
  enabled : Bool
  /-- The least time between two steps of a walk. -/
  interval : Duration
  /-- The greatest step. -/
  maxStep : Decimal
  /-- The bound on an offset that has come by steps. -/
  maxOffset : Decimal
deriving DecidableEq

/-- Ten seconds, steps up to 0.05 % and offsets up to 2 %. -/
def Drift.standard : Drift where
  enabled := true
  interval := Duration.ofMillis 10000
  maxStep := Decimal.fiveBasisPoints
  maxOffset := Decimal.twoPercent

/-- The walk of one base rate. -/
structure Walk where
  offset : Decimal
  /-- When the offset was last set or moved. -/
  lastUpdate : Instant
  /-- Whether the next read leaves the offset as it is. -/
  pinned : Bool
  /-- How many random numbers have been drawn. -/
  draws : Nat
deriving DecidableEq

namespace Walk

def start (now : Instant) : Walk := ⟨Decimal.zero, now, true, 0⟩

def override (w : Walk) (offset : Decimal) (now : Instant) : Walk :=
  { w with offset, lastUpdate := now, pinned := true }

def isDue (w : Walk) (drift : Drift) (now : Instant) : Bool :=
  !w.pinned && drift.enabled && decide (drift.interval ≤ now.since w.lastUpdate)

/-- The offset after a step by a part of the greatest step. An offset that was set beyond the bound
never moves further out. -/
def stepped? (w : Walk) (drift : Drift) (part : Decimal) : Option Decimal := do
  let step ← part.mul? drift.maxStep
  let moved ← w.offset.add? step
  let bound := drift.maxOffset.max w.offset.abs
  return (moved.roundTo 10).clamp bound.neg bound

/-- Reads the offset, after a step if one is due. The parts of steps come from `unit` by their
position, and a step that cannot be taken has used up its part. -/
def read (drift : Drift) (unit : Nat → Decimal) (now : Instant) : Attempt Walk Decimal := do
  let w ← get
  if w.isDue drift now then
    set { w with draws := w.draws + 1 }
    let offset ← Crash.arithmetic.unless (w.stepped? drift (unit w.draws))
    set { w with offset, lastUpdate := now, draws := w.draws + 1 }
    return offset
  else
    set { w with pinned := false }
    return w.offset

end Walk

end Bureau
