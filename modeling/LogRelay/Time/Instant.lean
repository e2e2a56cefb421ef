/-!
# Monotonic time

The clock that waits, sleeps and deadlines are measured on. It never goes back. Readings and spans
are natural numbers of nanoseconds; a reading has its seconds in a signed 64-bit word, so there is a
last one. The timeout of a patience may reach beyond it, and that is checked. The other deadlines,
which are at most a word of milliseconds away, are taken to have a reading: the clock would have to
have run for billions of years.
-/

namespace LogRelay

/-- A span of time, in nanoseconds. -/
abbrev Duration := Nat

/-- A reading of the clock, in nanoseconds since it started. -/
abbrev Instant := Nat

/-- The last reading that the clock can show. -/
def Instant.last : Instant := UInt64.size / 2 * 1000000000 - 1

/-- The largest number a 64-bit word holds. -/
def maxWord : Nat := UInt64.size - 1

namespace Duration

def ofMillis (n : Nat) : Duration := n * 1000000

/-- Whole milliseconds, rounded down. -/
def millis (d : Duration) : Nat := d / 1000000

/-- Whole milliseconds as far as a 64-bit word goes. -/
def wordMillis (d : Duration) : Nat := min d.millis maxWord

@[simp] theorem millis_ofMillis (n : Nat) : (ofMillis n).millis = n :=
  Nat.mul_div_cancel n (by decide)

end Duration

end LogRelay
