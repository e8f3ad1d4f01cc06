import Mymuduo.Lib.Calendar

/-! Calendar time, as `localtime` gives it in a time zone that keeps a fixed offset from UTC. -/

namespace Mymuduo

open Lib

/-- `Timestamp::kMicroSecondsPerSecond` -/
def kMicroSecondsPerSecond : Int := 1000 * 1000

/-- A time zone: what is added to UTC, in seconds.  `TZ` allows up to 24 hours, 59 minutes and 59
seconds. -/
structure Zone where
  offset : Int
  bounds : -90000 < offset ∧ offset < 90000

/-- The time zone of UTC. -/
def Zone.utc : Zone := ⟨0, by decide⟩

/-- The fields of a `struct tm` that are read. -/
structure Tm where
  year : Int
  mon : Int
  mday : Int
  hour : Int
  min : Int
  sec : Int
  deriving DecidableEq, Repr

/-- The number of the day on which the epoch begins. -/
def epochDay : Int := 719528

def localtime (z : Zone) (seconds : Int) : Tm :=
  let t := seconds + z.offset
  let date := Date.ofDay (epochDay + t / 86400)
  { year := date.year - 1900
    mon := date.month
    mday := date.day
    hour := t % 86400 / 3600
    min := t % 3600 / 60
    sec := t % 60 }

/-- The minute of the local time, from the epoch on. -/
def Zone.minute (z : Zone) (seconds : Int) : Int := (seconds + z.offset) / 60

variable {z : Zone} {s u : Int}

/-- The fields down to the minute. -/
def Tm.toMinute (t : Tm) : Tm := { t with sec := 0 }

theorem localtime_congr (h : z.minute s = z.minute u) :
    (localtime z s).toMinute = (localtime z u).toMinute := by
  unfold Zone.minute at h
  have hday : (s + z.offset) / 86400 = (u + z.offset) / 86400 := by omega
  have hhour : (s + z.offset) % 86400 / 3600 = (u + z.offset) % 86400 / 3600 := by omega
  have hmin : (s + z.offset) % 3600 / 60 = (u + z.offset) % 3600 / 60 := by omega
  simp only [localtime, Tm.toMinute, hday, hhour, hmin]

/-- The fields down to the minute come one after another in the order of time. -/
theorem localtime_lt (h : z.minute s < z.minute u) :
    let a := localtime z s
    let b := localtime z u
    a.year < b.year ∨ a.year = b.year ∧ (a.mon < b.mon ∨ a.mon = b.mon ∧ (a.mday < b.mday ∨
      a.mday = b.mday ∧ (a.hour < b.hour ∨ a.hour = b.hour ∧ a.min < b.min))) := by
  unfold Zone.minute at h
  rcases Int.lt_or_eq_of_le (show (s + z.offset) / 86400 ≤ (u + z.offset) / 86400 by omega)
    with hday | hday
  · have hbefore := Date.ofDay_before
      (show epochDay + (s + z.offset) / 86400 < epochDay + (u + z.offset) / 86400 by omega)
    unfold Date.Before at hbefore
    simp only [localtime]
    omega
  · have hsplit : ∀ t : Int, t / 60 = t / 86400 * 1440 + t % 86400 / 3600 * 60 + t % 3600 / 60 := by
      omega
    have hs := hsplit (s + z.offset)
    have hu := hsplit (u + z.offset)
    have hmin : (u + z.offset) % 3600 / 60 < 60 := by omega
    have hmin' : 0 ≤ (s + z.offset) % 3600 / 60 := by omega
    simp only [localtime, hday, Int.lt_irrefl, true_and, false_or]
    omega

theorem localtime_year_le (h : z.minute s ≤ z.minute u) :
    (localtime z s).year ≤ (localtime z u).year := by
  rcases Int.lt_or_eq_of_le h with hlt | heq
  · have hfields := localtime_lt hlt
    dsimp only at hfields
    omega
  · have hyear := congrArg Tm.year (localtime_congr heq)
    exact Int.le_of_eq hyear

/-- What the fields lie between, from the epoch up to the year 9999. -/
structure Tm.Bounds (t : Tm) : Prop where
  year : 1000 ≤ t.year + 1900 ∧ t.year + 1900 < 10000
  mon : 0 ≤ t.mon ∧ t.mon < 12
  mday : 0 ≤ t.mday ∧ t.mday < 32
  hour : 0 ≤ t.hour ∧ t.hour < 24
  min : 0 ≤ t.min ∧ t.min < 60
  sec : 0 ≤ t.sec ∧ t.sec < 60

theorem localtime_fields (z : Zone) (s : Int) :
    (0 ≤ (localtime z s).mon ∧ (localtime z s).mon < 12) ∧
    (0 ≤ (localtime z s).mday ∧ (localtime z s).mday < 32) ∧
    (0 ≤ (localtime z s).hour ∧ (localtime z s).hour < 24) ∧
    (0 ≤ (localtime z s).min ∧ (localtime z s).min < 60) ∧
    0 ≤ (localtime z s).sec ∧ (localtime z s).sec < 60 := by
  have hdate := Date.ofDay_bounds (epochDay + (s + z.offset) / 86400)
  simp only [localtime]
  omega

theorem localtime_bounds (hs : 0 ≤ s) (hyear : (localtime z s).year + 1900 ≤ 9999) :
    (localtime z s).Bounds := by
  have hzone := z.bounds
  have hfirst : 1969 ≤ yearOfDay (epochDay + (s + z.offset) / 86400) := by
    have hle := yearOfDay_le
      (show epochDay + -2 ≤ epochDay + (s + z.offset) / 86400 by omega)
    have hearly : yearOfDay (epochDay + -2) = 1969 := by decide
    omega
  have hsame : (localtime z s).year = yearOfDay (epochDay + (s + z.offset) / 86400) - 1900 := rfl
  rw [hsame] at hyear
  obtain ⟨hmon, hmday, hhour, hmin, hsec⟩ := localtime_fields z s
  exact ⟨by rw [hsame]; omega, hmon, hmday, hhour, hmin, hsec⟩

/-- Each second has a local time of its own. -/
theorem localtime_injective (h : localtime z s = localtime z u) : s = u := by
  have hordered : ∀ {s u : Int}, localtime z s = localtime z u → ¬ z.minute s < z.minute u := by
    intro s u h hlt
    have hfields := localtime_lt hlt
    dsimp only at hfields
    rw [h] at hfields
    omega
  have hsec := congrArg Tm.sec h
  have hle := hordered h
  have hge := hordered h.symm
  simp only [localtime] at hsec
  unfold Zone.minute at hle hge
  omega

end Mymuduo
