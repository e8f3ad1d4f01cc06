import Mymuduo.Logger.Logging

/-! The time at the beginning of a record.  Of the 19 bytes of the formatted time only 17 are
streamed, so that the seconds are missing before the microseconds. -/

namespace Mymuduo

open Lib

namespace Logger

variable {z : Zone} {t : Tm} {now : Int}

/-- The time down to the minute, as 17 bytes. -/
def minuteText (t : Tm) : Bytes :=
  lastDigits 4 (t.year + 1900).toNat ++ 47 :: (lastDigits 2 (t.mon + 1).toNat ++
    47 :: (lastDigits 2 t.mday.toNat ++ 32 :: (lastDigits 2 t.hour.toNat ++
      58 :: (lastDigits 2 t.min.toNat ++ [58]))))

theorem length_minuteText (t : Tm) : (minuteText t).length = 17 := by
  simp only [minuteText, List.length_append, List.length_cons, length_lastDigits, List.length_nil]

theorem timeText_eq (h : t.Bounds) : timeText t = minuteText t ++ lastDigits 2 t.sec.toNat := by
  obtain ⟨hyear, hmon, hmday, hhour, hmin, hsec⟩ := h
  have hblank : formatBlank 4 (t.year + 1900) = lastDigits 4 (t.year + 1900).toNat := by
    obtain ⟨m, hm⟩ := Int.eq_ofNat_of_zero_le (show 0 ≤ t.year + 1900 by omega)
    rw [hm]
    exact @formatBlank_eq 3 _ (by decide) (by omega) (by omega)
  rw [timeText, hblank, formatZero_of_nonneg (by decide) (by omega) (by omega),
    formatZero_of_nonneg (by decide) hmday.1 (by omega),
    formatZero_of_nonneg (by decide) hhour.1 (by omega),
    formatZero_of_nonneg (by decide) hmin.1 (by omega),
    formatZero_of_nonneg (by decide) hsec.1 (by omega), minuteText]
  have hslash : ofString "/" = [47] := rfl
  have hblank : ofString " " = [32] := rfl
  have hcolon : ofString ":" = [58] := rfl
  simp only [hslash, hblank, hcolon, List.append_assoc, List.cons_append, List.nil_append]

/-- What `snprintf` has printed is found at the beginning of the buffer. -/
theorem take_snprintf {size n : Nat} {text memory : Bytes} (hn : n ≤ text.length)
    (hfits : text.length < size) : (snprintf size text memory).take n = text.take n := by
  have hall : text.take (size - 1) = text := List.take_of_length_le (by omega)
  rw [snprintf, hall, List.append_assoc, List.take_append_of_le_length hn]

/-- What `formatTime` streams into an empty stream. -/
theorem formatTime_spec (z : Zone) (now : Int) (tTime : TimeBuffer) (memory : Nat → UInt8) :
    ∃ s, formatTime z now tTime (.new memory) = .ok s ∧
      s.content = (secondsPart z now tTime).data.take 17 ++ (microsecondsPart now).data.take 7 := by
  obtain ⟨s, hs, hseconds⟩ := (LogStream.new memory).takes_append (secondsPart z now tTime)
  obtain ⟨u, hu, hmicroseconds⟩ := s.takes_append (microsecondsPart now)
  have hlen : (secondsPart z now tTime).len = 17 := rfl
  have hlen' : (microsecondsPart now).len = 7 := rfl
  have hsize : sizeOfInt 17 = 17 ∧ sizeOfInt 7 = 7 := by decide
  rw [hlen, hsize.1] at hseconds
  rw [hlen', hsize.2] at hmicroseconds
  have hcontent := hseconds.appended (by rw [LogStream.content_new]; decide)
  rw [LogStream.content_new, List.nil_append] at hcontent
  have hlength : s.content.length ≤ 17 := by
    rw [hcontent]
    exact List.length_take_le ..
  refine ⟨u, bind_eq_ok.mpr ⟨s, hs, hu⟩, ?_⟩
  have hcontent' := hmicroseconds.appended (by unfold kSmallBuffer; omega)
  rw [hcontent] at hcontent'
  exact hcontent'

/-- The bytes of a time from the epoch up to the year 9999. -/
theorem prefix_eq (hnow : 0 ≤ now)
    (hyear : (localtime z (now.tdiv kMicroSecondsPerSecond)).year + 1900 ≤ 9999)
    (tTime : TimeBuffer) :
    (secondsPart z now tTime).data.take 17 ++ (microsecondsPart now).data.take 7 =
      minuteText (localtime z (now.tdiv kMicroSecondsPerSecond)) ++
        (lastDigits 6 (now.tmod kMicroSecondsPerSecond).toNat ++ [32]) := by
  have hseconds : 0 ≤ now.tdiv kMicroSecondsPerSecond := Int.tdiv_nonneg hnow (by decide)
  have hbounds := localtime_bounds hseconds hyear
  have hmicro : 0 ≤ now.tmod kMicroSecondsPerSecond := Int.tmod_nonneg _ hnow
  have hlt : now.tmod kMicroSecondsPerSecond < 10 ^ 6 := Int.tmod_lt_of_pos _ (by decide)
  have htext : (timeText (localtime z (now.tdiv kMicroSecondsPerSecond))).length = 19 := by
    rw [timeText_eq hbounds, List.length_append, length_minuteText, length_lastDigits]
  have hmicrotext : formatZero 6 (now.tmod kMicroSecondsPerSecond) ++ ofString " " =
      lastDigits 6 (now.tmod kMicroSecondsPerSecond).toNat ++ [32] := by
    rw [formatZero_of_nonneg (by decide) hmicro hlt]
    rfl
  have hlength : (lastDigits 6 (now.tmod kMicroSecondsPerSecond).toNat ++ [32]).length = 7 := by
    rw [List.length_append, length_lastDigits, List.length_singleton]
  rw [secondsPart, microsecondsPart, GeneralTemplate.ofLength, GeneralTemplate.ofLength]
  dsimp only
  rw [take_snprintf (by rw [htext]; decide) (by rw [htext]; decide), hmicrotext,
    take_snprintf (by rw [hlength]) (by rw [hlength]; decide), timeText_eq hbounds,
    List.take_left' (length_minuteText _), ← hlength, List.take_length]

/-- Texts that begin with a field are compared by the numbers, and by the rest if these agree. -/
theorem field_lt {width m n : Nat} {x y : Bytes} (hn : n < 10 ^ width) (h : m < n ∨ m = n ∧ x < y) :
    lastDigits width m ++ x < lastDigits width n ++ y := by
  rcases h with hlt | ⟨rfl, hrest⟩
  · exact append_lt_append (lastDigits_lt hlt hn) (by simp) x y
  · exact List.append_left_lt hrest

theorem field_lt_iff {width m n : Nat} (hm : m < 10 ^ width) (hn : n < 10 ^ width) (x : Bytes) :
    lastDigits width m ++ x < lastDigits width n ++ x ↔ m < n := by
  refine ⟨?_, fun h => field_lt hn (.inl h)⟩
  intro h
  by_contra hge
  rcases Nat.lt_or_eq_of_le (Nat.le_of_not_lt hge) with hlt | rfl
  · exact List.lt_asymm h (field_lt hm (.inl hlt))
  · exact List.lt_irrefl _ h

theorem cons_lt {b : UInt8} {x y : Bytes} (h : x < y) : b :: x < b :: y :=
  List.cons_lt_cons_iff.mpr (.inr ⟨rfl, h⟩)

theorem minuteText_lt {s u : Int} (hs : (localtime z s).Bounds) (hu : (localtime z u).Bounds)
    (h : z.minute s < z.minute u) : minuteText (localtime z s) < minuteText (localtime z u) := by
  have hlt := localtime_lt h
  dsimp only at hlt
  obtain ⟨hyear, hmon, hmday, hhour, hmin, -⟩ := hs
  obtain ⟨hyear', hmon', hmday', hhour', hmin', -⟩ := hu
  generalize localtime z s = a at *
  generalize localtime z u = b at *
  -- Field by field, as long as they agree.
  refine field_lt (by omega) ?_
  rcases hlt with hlt | ⟨heq, hlt⟩
  · exact .inl (by omega)
  refine .inr ⟨by rw [heq], cons_lt (field_lt (by omega) ?_)⟩
  rcases hlt with hlt | ⟨heq, hlt⟩
  · exact .inl (by omega)
  refine .inr ⟨by rw [heq], cons_lt (field_lt (by omega) ?_)⟩
  rcases hlt with hlt | ⟨heq, hlt⟩
  · exact .inl (by omega)
  refine .inr ⟨by rw [heq], cons_lt (field_lt (by omega) ?_)⟩
  rcases hlt with hlt | ⟨heq, hlt⟩
  · exact .inl (by omega)
  exact .inr ⟨by rw [heq], cons_lt (field_lt (by omega) (.inl (by omega)))⟩

theorem minuteText_congr {s u : Int} (h : z.minute s = z.minute u) :
    minuteText (localtime z s) = minuteText (localtime z u) := by
  have hsame : ∀ t : Tm, minuteText t = minuteText t.toMinute := fun _ => rfl
  rw [hsame, localtime_congr h, ← hsame]

/-- For an earlier and a later moment up to the year 9999, in a zone with a fixed offset: the prefix
of the earlier one is the smaller one exactly if it lies in an earlier minute, or its microseconds
are fewer. -/
theorem timePrefix_lt_iff {now later : Int} (hnow : 0 ≤ now) (hlater : now < later)
    (hyear : (localtime z (later.tdiv kMicroSecondsPerSecond)).year + 1900 ≤ 9999)
    (tTime tTime' : TimeBuffer) (memory memory' : Nat → UInt8) :
    ∃ s s', formatTime z now tTime (.new memory) = .ok s ∧
      formatTime z later tTime' (.new memory') = .ok s' ∧
      (s.content < s'.content ↔
        z.minute (now.tdiv kMicroSecondsPerSecond) < z.minute (later.tdiv kMicroSecondsPerSecond) ∨
          now.tmod kMicroSecondsPerSecond < later.tmod kMicroSecondsPerSecond) := by
  obtain ⟨s, hs, hcontent⟩ := formatTime_spec z now tTime memory
  obtain ⟨s', hs', hcontent'⟩ := formatTime_spec z later tTime' memory'
  refine ⟨s, s', hs, hs', ?_⟩
  have hseconds : now.tdiv kMicroSecondsPerSecond ≤ later.tdiv kMicroSecondsPerSecond := by
    rw [Int.tdiv_eq_ediv_of_nonneg hnow, Int.tdiv_eq_ediv_of_nonneg (by omega)]
    unfold kMicroSecondsPerSecond
    omega
  have hminute : z.minute (now.tdiv kMicroSecondsPerSecond) ≤
      z.minute (later.tdiv kMicroSecondsPerSecond) := by
    unfold Zone.minute
    omega
  have hearlier : (localtime z (now.tdiv kMicroSecondsPerSecond)).year + 1900 ≤ 9999 := by
    have hle := localtime_year_le hminute
    omega
  have hbounds := localtime_bounds (Int.tdiv_nonneg hnow (by decide)) hearlier
  have hbounds' := localtime_bounds (Int.tdiv_nonneg (show 0 ≤ later by omega) (by decide)) hyear
  rw [hcontent, hcontent', prefix_eq hnow hearlier, prefix_eq (by omega) hyear]
  have hmicro : ∀ n : Int, 0 ≤ n → 0 ≤ n.tmod kMicroSecondsPerSecond ∧
      n.tmod kMicroSecondsPerSecond < 10 ^ 6 := fun n hn =>
    ⟨Int.tmod_nonneg _ hn, Int.tmod_lt_of_pos _ (by decide)⟩
  have hm := hmicro now hnow
  have hm' := hmicro later (by omega)
  rcases Int.lt_or_eq_of_le hminute with hlt | heq
  · refine iff_of_true ?_ (.inl hlt)
    exact append_lt_append (minuteText_lt hbounds hbounds' hlt)
      (by rw [length_minuteText, length_minuteText]) _ _
  · rw [minuteText_congr heq, heq]
    rw [append_left_lt_iff, field_lt_iff (by omega) (by omega)]
    omega

theorem timePrefix_lt_iff_first_minute :
    ∃ s s', formatTime .utc 0 ⟨List.replicate 64 0, rfl⟩ (.new fun _ => 0) = .ok s ∧
      formatTime .utc 60000000 ⟨List.replicate 64 0, rfl⟩ (.new fun _ => 0) = .ok s' ∧
      s.content < s'.content := by
  obtain ⟨s, s', hs, hs', hiff⟩ := @timePrefix_lt_iff .utc 0 60000000
    (by decide) (by decide) (by decide) ⟨List.replicate 64 0, rfl⟩ ⟨List.replicate 64 0, rfl⟩
    (fun _ => 0) (fun _ => 0)
  exact ⟨s, s', hs, hs', hiff.mpr (.inl (by decide))⟩

/-- The first two seconds of the epoch have the same prefix. -/
theorem next_second_same_prefix :
    ∃ s s', formatTime .utc 0 ⟨List.replicate 64 0, rfl⟩ (.new fun _ => 0) = .ok s ∧
      formatTime .utc 1000000 ⟨List.replicate 64 0, rfl⟩ (.new fun _ => 0) = .ok s' ∧
      s.content = ofString "1970/01/01 00:00:000000 " ∧ s'.content = s.content ∧
      ¬ s.content < s'.content := by
  obtain ⟨s, hs, hcontent⟩ := formatTime_spec .utc 0 ⟨List.replicate 64 0, rfl⟩ fun _ => 0
  obtain ⟨s', hs', hcontent'⟩ := formatTime_spec .utc 1000000 ⟨List.replicate 64 0, rfl⟩ fun _ => 0
  have hsame : s'.content = s.content := by
    rw [hcontent, hcontent', prefix_eq (by decide) (by decide),
      prefix_eq (by decide) (by decide)]
    decide
  refine ⟨s, s', hs, hs', ?_, hsame, ?_⟩
  · rw [hcontent, prefix_eq (by decide) (by decide)]
    decide
  · rw [hsame]
    exact List.lt_irrefl _

end Logger

end Mymuduo
