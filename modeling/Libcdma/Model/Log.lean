/-
The rate limiter of the log (`cdma_u_log.c`).

Callers share a window start and a counter, two atomics of their own, so a call is
given as the stages between its atomic operations.  The clock counts seconds since
boot; differences of its readings stay far inside `time_t`.
-/

namespace Libcdma

def cdmaLogRateBurst : Int32 := 5

def cdmaLogRateIntervalSec : Int := 5

structure CdmaLogRlState where
  windowStart : Int
  count : Int32

/-- The state is static, so it starts out zeroed. -/
def CdmaLogRlState.zeroed : CdmaLogRlState := { windowStart := 0, count := 0 }

/-- What a call does next, or its value. -/
inductive LogRlCall where
  | loadWindow (now : Int)
  | exchange (now window : Int)
  | storeCount
  | fetchAdd
  | returned (value : Bool)
  deriving DecidableEq

/-- A clock that does not answer lets the log through. -/
def cdmaLogRatelimit (clock : Option Int) : LogRlCall :=
  match clock with
  | none => .returned true
  | some now => .loadWindow now

def outsideWindow (now window : Int) : Prop :=
  now - window < 0 ∨ now - window ≥ cdmaLogRateIntervalSec

instance (now window : Int) : Decidable (outsideWindow now window) :=
  inferInstanceAs (Decidable (_ ∨ _))

/-- One atomic operation.  An exchange that fails goes back to loading the window. -/
def cdmaLogRatelimitStep (state : CdmaLogRlState) :
    LogRlCall → Option (CdmaLogRlState × LogRlCall)
  | .loadWindow now =>
      if outsideWindow now state.windowStart then some (state, .exchange now state.windowStart)
      else some (state, .fetchAdd)
  | .exchange now window =>
      if state.windowStart = window then some ({ state with windowStart := now }, .storeCount)
      else some (state, .loadWindow now)
  | .storeCount => some ({ state with count := 1 }, .returned true)
  | .fetchAdd =>
      some ({ state with count := state.count + 1 }, .returned (state.count < cdmaLogRateBurst))
  | .returned _ => none

end Libcdma
