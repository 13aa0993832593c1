import KessokuOS.Interrupts.Pic

/-!
# The timer

The timer interrupts a thousand times a second; its handler counts the ticks, in 32
bits.
-/

namespace KessokuOS

/-- The number of ticks, which wraps at `2 ^ 32`. -/
structure Pit where
  ticks : ℕ
  ticks_lt : ticks < 2 ^ 32

namespace Pit

def ticksPerSecond : ℕ := 1000

def getTicks (t : Pit) : ℕ := t.ticks

/-- One more tick. -/
def tick (t : Pit) : Pit := ⟨u32 (t.ticks + 1), u32_lt _⟩

/-- `PIT::interval_handler`. -/
def intervalHandler (t : Pit) (p : Pics) : Pit × Pics := (t.tick, p.sendEndOfInterrupt 0x20)

end Pit

end KessokuOS
