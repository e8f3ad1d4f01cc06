import Mymuduo.Logger.TimePrefix

/-! The end of a record.  The trailer is streamed in five pieces, and each of them is dropped when
there is no room for it. -/

namespace Mymuduo

open Lib

section

variable {δ : Type} {printf : δ → Bytes}

/-- Each of the values, streamed one after another into `room` bytes, leaves its whole text. -/
def Fits (printf : δ → Bytes) : Nat → List (Value δ) → Prop
  | _, [] => True
  | room, v :: values => (v.render printf ≠ [] → v.need printf ≤ room) ∧
      Fits printf (room - (v.render printf).length) values

/-- What several values have in their texts. -/
def texts (printf : δ → Bytes) (values : List (Value δ)) : Bytes :=
  values.flatMap (Value.render printf)

namespace Logger

variable (printf) in
/-- What a chain of `operator<<` without floating-point numbers and stray pointers leaves in the
stream. -/
theorem insertAll_spec {values : List (Value δ)}
    (hvalues : ∀ v ∈ values, v.isFloating = false ∧ v.isStray = false) (s : LogStream) : ∃ t, insertAll printf s values = .ok t ∧ s.content <+: t.content ∧
      t.content.length ≤ s.content.length + (texts printf values).length ∧
      (t.content = s.content ++ texts printf values ↔ Fits printf s.avail values) := by
  induction values generalizing s with
  | nil => exact ⟨s, rfl, List.prefix_rfl, Nat.le_refl _, by simp [texts, Fits]⟩
  | cons v values ih =>
    obtain ⟨u, hu, htakes⟩ := s.insert_spec printf v
      (fun h => absurd h (by simp [hvalues v List.mem_cons_self]))
      (hvalues v List.mem_cons_self).2
    obtain ⟨t, ht, hbegins, hlength, hiff⟩ := ih (fun w hw => hvalues w (.tail v hw)) u
    have htexts : texts printf (v :: values) = v.render printf ++ texts printf values := rfl
    refine ⟨t, run_cons_ok.mpr ⟨u, hu, ht⟩, ?_⟩
    by_cases hroom : v.need printf ≤ s.avail
    · have hcontent := (htakes.kept hroom).content
      rw [← LogStream.content, ← LogStream.content] at hcontent
      have havail : u.avail = s.avail - (v.render printf).length := by
        rw [LogStream.avail_of_content, LogStream.avail_of_content, hcontent, List.length_append]
        omega
      rw [hcontent] at hbegins hlength hiff
      rw [List.length_append] at hlength
      rw [htexts, List.length_append, Fits, ← havail, ← hiff, List.append_assoc]
      exact ⟨(List.prefix_append ..).trans hbegins, by omega, iff_and_self.mpr fun _ _ => hroom⟩
    · obtain rfl := htakes.dropped (by omega)
      rw [htexts, List.length_append, Fits]
      refine ⟨hbegins, by omega, ?_⟩
      by_cases hempty : v.render printf = []
      · rw [hempty]
        simpa using hiff
      · have hpos : 0 < (v.render printf).length := List.length_pos_iff.mpr hempty
        refine iff_of_false ?_ fun h => hroom (h.1 hempty)
        intro hall
        have hlengths := congrArg List.length hall
        rw [List.length_append, List.length_append] at hlengths
        omega

/-- `" - file:line"` and a newline. -/
def trailer (file : CString) (line : Int32) : Bytes :=
  ofString " - " ++ (sourceFile file).data ++ ofString ":" ++ toDecimal line.toInt ++ ofString "\n"

theorem length_trailer (file : CString) (line : Int32) : (trailer file line).length =
    (sourceFile file).data.length + (toDecimal line.toInt).length + 5 := by
  have hdash : (ofString " - ").length = 3 := rfl
  have hcolon : (ofString ":").length = 1 := rfl
  have hnewline : (ofString "\n").length = 1 := rfl
  simp only [trailer, List.length_append, hdash, hcolon, hnewline]
  omega

/-- The length of a name below 2 GiB is one that an `int` holds. -/
theorem sourceFile_len {file : CString} (h : (sourceFile file).data.length < 2 ^ 31) :
    (sourceFile file).len = (sourceFile file).data.length := by
  unfold sourceFile at h ⊢
  dsimp only at h ⊢
  apply Int.bmod_eq_of_le <;> omega

section

variable {l : Logger} {file : CString} {line : Int32}

theorem texts_finishValues (hbasename : l.basename = sourceFile file) (hline : l.line = line)
    (hfile : (sourceFile file).data.length < 2 ^ 31) :
    texts printf l.finishValues = trailer file line := by
  have hname : (sourceFile file).data.take (sourceFile file).len.toNat =
      (sourceFile file).data := by
    rw [sourceFile_len hfile, Int.toNat_natCast, List.take_length]
  have htexts : texts printf l.finishValues = ofString " - " ++
      (l.basename.data.take l.basename.len.toNat ++ ([58] ++ (toDecimal l.line.toInt ++
        ([10] ++ [])))) := rfl
  rw [htexts, hbasename, hline, hname, trailer]
  simp only [List.append_assoc, List.append_nil]
  rfl

/-- The line number is what needs the most room. -/
theorem fits_finishValues (hbasename : l.basename = sourceFile file)
    (hfile : (sourceFile file).data.length < 2 ^ 31) (room : Nat) :
    Fits printf room l.finishValues ↔ (sourceFile file).data.length + 52 ≤ room := by
  have hlen := sourceFile_len hfile
  have hsize : sizeOfInt (sourceFile file).len = (sourceFile file).data.length := by
    rw [hlen, sizeOfInt]
    omega
  have hname : (sourceFile file).data.take (sourceFile file).len.toNat =
      (sourceFile file).data := by
    rw [hlen, Int.toNat_natCast, List.take_length]
  have hdigits := LogStream.length_toDecimal_integer (.ofInt32 l.line)
  have hsome := toDecimal_ne_nil l.line.toInt
  -- Piece by piece, with what is left of the room.
  have hfits : Fits printf room l.finishValues ↔
      (ofString " - " ≠ [] → 4 ≤ room) ∧
      (l.basename.data.take l.basename.len.toNat ≠ [] →
        sizeOfInt l.basename.len + 1 ≤ room - 3) ∧
      ([58] ≠ ([] : Bytes) →
        2 ≤ room - 3 - (l.basename.data.take l.basename.len.toNat).length) ∧
      (toDecimal l.line.toInt ≠ [] →
        48 ≤ room - 3 - (l.basename.data.take l.basename.len.toNat).length - 1) ∧
      ([10] ≠ ([] : Bytes) →
        2 ≤ room - 3 - (l.basename.data.take l.basename.len.toNat).length - 1 -
          (toDecimal l.line.toInt).length) ∧ True := Iff.rfl
  have hdash : ofString " - " ≠ [] := by decide
  have hshort : (toDecimal l.line.toInt).length ≤ 21 := hdigits
  rw [hfits, hbasename, hname, hsize]
  constructor
  · rintro ⟨-, -, -, hroom, -⟩
    have hroom := hroom hsome
    omega
  · intro hroom
    exact ⟨fun _ => by omega, fun _ => by omega, fun _ => by omega, fun _ => by omega,
      fun _ => by omega, trivial⟩

theorem impl_place {e : LogContext} {level : LogLevel} {savedErrno : Int32}
    (h : impl printf e level savedErrno file line = .ok l) :
    l.basename = sourceFile file ∧ l.line = line := by
  obtain ⟨s, -, h⟩ := bind_eq_ok.mp h
  obtain ⟨s, -, h⟩ := bind_eq_ok.mp h
  obtain ⟨s, -, h⟩ := bind_eq_ok.mp h
  cases h
  exact ⟨rfl, rfl⟩

/-- Streaming does not touch the place in the source. -/
theorem insert_place {v : Value δ} {l m : Logger}
    (h : l.basename = sourceFile file ∧ l.line = line) (hinsert : l.insert printf v = .ok m) :
    m.basename = sourceFile file ∧ m.line = line := by
  obtain ⟨s, -, hm⟩ := bind_eq_ok.mp hinsert
  cases hm
  exact h

/-- A logger that has been constructed and has taken some values: what it passes on when it is
destroyed fits into the buffer and begins with what the stream holds, and the whole trailer follows
exactly if there are 52 bytes of room besides the name of the file. -/
theorem destroy_trailer_iff {e : LogContext} {level : LogLevel} {savedErrno : Int32}
    {l₀ : Logger} (hnew : impl printf e level savedErrno file line = .ok l₀)
    (values : List (Value δ)) (hrun : run (insert printf) l₀ values = .ok l) :
    ∃ output, l.destroy printf = .ok (output, l.level = .FATAL) ∧
      output.length ≤ kSmallBuffer ∧ l.stream.content <+: output ∧
      (output = l.stream.content ++ trailer file line ↔
        (sourceFile file).data.length + 52 ≤ l.stream.avail) := by
  obtain ⟨hbasename, hline⟩ :=
    run_invariant (fun _ _ _ hl ht => insert_place hl ht) (impl_place hnew) hrun
  have hvalues : ∀ v ∈ (l.finishValues : List (Value δ)),
      v.isFloating = false ∧ v.isStray = false := by
    simp [finishValues, literal, Value.isFloating, Value.isStray]
  obtain ⟨t, ht, hbegins, -, hiff⟩ := insertAll_spec printf hvalues l.stream
  have hle : t.content.length ≤ kSmallBuffer := t.buffer.toFixedBuffer.length_le
  refine ⟨t.content, ?_, hle, hbegins, ?_⟩
  · exact bind_eq_ok.mpr ⟨{ l with stream := t }, bind_eq_ok.mpr ⟨t, ht, rfl⟩, rfl⟩
  · by_cases hfile : (sourceFile file).data.length < 2 ^ 31
    · rw [texts_finishValues hbasename hline hfile, fits_finishValues hbasename hfile] at hiff
      exact hiff
    -- A name of 2 GiB is longer than the buffer.
    · have havail : l.stream.avail ≤ kSmallBuffer := Nat.sub_le ..
      unfold kSmallBuffer at hle havail
      refine iff_of_false ?_ (by omega)
      intro hall
      rw [hall, List.length_append, length_trailer] at hle
      omega

end

/-- The first moment of the epoch. -/
def firstMoment : LogContext where
  zone := .utc
  now := 0
  tTime := ⟨List.replicate 64 0, rfl⟩
  memory := fun _ => 0
  strerror := fun _ => emptyCString

/-- The file `a.cc`. -/
def aCc : CString := ⟨ofString "a.cc", by decide⟩

/-- Without an error, the head of a record has 30 bytes. -/
theorem impl_head (printf : δ → Bytes) (e : LogContext) (level : LogLevel) (file : CString)
    (line : Int32) : ∃ l, impl printf e level 0 file line = .ok l ∧
      l.stream.content.length = 30 ∧ l.level = level := by
  obtain ⟨s, hs, hcontent⟩ := formatTime_spec e.zone e.now e.tTime e.memory
  have htime : s.content.length = 24 := by
    have hseconds : (secondsPart e.zone e.now e.tTime).data.length = 64 :=
      length_snprintf (by decide) e.tTime.property
    have hmicroseconds : (microsecondsPart e.now).data.length = 32 :=
      length_snprintf (by decide) List.length_replicate
    rw [hcontent, List.length_append, List.length_take, List.length_take, hseconds, hmicroseconds]
    rfl
  obtain ⟨t, ht, htakes⟩ := s.takes_append
    (.ofLength (getLevelName level) 6 (by rw [length_getLevelName]) (by decide))
  have hsix : sizeOfInt 6 = 6 := by decide
  have happended := htakes.appended (by
    show s.content.length + (sizeOfInt 6 + 1) ≤ 4000
    omega)
  refine ⟨{ stream := t, level := level, line := line, basename := sourceFile file }, ?_, ?_, rfl⟩
  · exact bind_eq_ok.mpr ⟨s, hs, bind_eq_ok.mpr ⟨t, ht, rfl⟩⟩
  · have hname : ((getLevelName level).take 6).length = 6 := by
      rw [List.length_take, length_getLevelName]
      rfl
    rw [happended, List.length_append, htime]
    exact congrArg (24 + ·) hname

theorem destroy_trailer_iff_empty :
    ∃ l output, impl LogStream.printDigit firstMoment .INFO 0 aCc 7 = .ok l ∧
      l.destroy LogStream.printDigit = .ok (output, false) ∧
      output = l.stream.content ++ ofString " - a.cc:7\n" := by
  obtain ⟨l, hl, hlength, hlevel⟩ := impl_head LogStream.printDigit firstMoment .INFO aCc 7
  obtain ⟨output, houtput, -, -, hiff⟩ := destroy_trailer_iff hl [] rfl
  have havail : (sourceFile aCc).data.length + 52 ≤ l.stream.avail := by
    rw [LogStream.avail_of_content, hlength]
    decide
  refine ⟨l, output, hl, ?_, hiff.mpr havail⟩
  rw [houtput, hlevel]
  rfl

/-- Behind 3965 bytes of text there are 5 bytes of room, and the trailer of 10 bytes is not whole. -/
theorem trailer_dropped : ∃ l₀ l output,
    impl LogStream.printDigit firstMoment .INFO 0 aCc 7 = .ok l₀ ∧
    run (insert LogStream.printDigit) l₀ [.string (List.replicate 3965 120)] = .ok l ∧
    l.destroy LogStream.printDigit = .ok (output, false) ∧ ¬ trailer aCc 7 <:+ output := by
  obtain ⟨l₀, hl₀, hlength, hlevel⟩ := impl_head LogStream.printDigit firstMoment .INFO aCc 7
  let text : Bytes := List.replicate 3965 120
  have htext : text.length = 3965 := List.length_replicate
  obtain ⟨s, hs, htakes⟩ := l₀.stream.insert_spec LogStream.printDigit (.string text) nofun rfl
  have hcontent : s.content = l₀.stream.content ++ text := htakes.appended (by
    show l₀.stream.content.length + (text.length + 1) ≤ 4000
    omega)
  have hvalues : ∀ v ∈ ({ l₀ with stream := s }.finishValues : List (Value (Fin 10))),
      v.isFloating = false ∧ v.isStray = false := by
    simp [finishValues, literal, Value.isFloating, Value.isStray]
  obtain ⟨t, ht, ⟨more, hmore⟩, -⟩ := insertAll_spec LogStream.printDigit hvalues s
  have hle : t.content.length ≤ 4000 := t.buffer.toFixedBuffer.length_le
  refine ⟨l₀, { l₀ with stream := s }, t.content, hl₀, ?_, ?_, ?_⟩
  · rw [run_singleton]
    exact bind_eq_ok.mpr ⟨s, hs, rfl⟩
  · refine bind_eq_ok.mpr ⟨{ l₀ with stream := t }, bind_eq_ok.mpr ⟨t, ht, rfl⟩, ?_⟩
    rw [hlevel]
    rfl
  -- The trailer would begin inside the text.
  · rintro ⟨before, hbefore⟩
    have htrailer : trailer aCc 7 = 32 :: (trailer aCc 7).tail := by decide
    have hten : (trailer aCc 7).length = 10 := by decide
    have hlengths := congrArg List.length hbefore
    have hlengths' := congrArg List.length hmore
    rw [List.length_append, hcontent, List.length_append] at hlengths'
    rw [List.length_append, hten] at hlengths
    have hblank : t.content[before.length]? = some 32 := by
      rw [← hbefore, htrailer]
      rw [List.getElem?_append_right (Nat.le_refl _), Nat.sub_self]
      rfl
    have hletter : t.content[before.length]? = some 120 := by
      rw [← hmore, hcontent, List.append_assoc, List.getElem?_append_right (by omega),
        List.getElem?_append_left (by omega)]
      exact List.getElem?_replicate_of_lt (by omega)
    rw [hblank] at hletter
    exact absurd hletter (by decide)

end Logger

end

end Mymuduo
