import Mymuduo.Logger.FormatInteger

/-! What streaming a value does: its text is appended as a whole or dropped as a whole, on every
path on which streaming is defined. -/

namespace Mymuduo

open Lib

namespace BufferMemory

variable {SIZE : Nat}

/-- Bytes are stored behind the content, and the first `n` of them become part of it. -/
theorem store_add (b : BufferMemory SIZE) (bytes : Bytes) (n : Nat)
    (h : b.cur + bytes.length ≤ SIZE) (hn : n ≤ bytes.length) :
    ∃ t, (b.store b.cur bytes >>= fun b => b.add n) = .ok t ∧
      b.Appends (bytes.take n) bytes.length t := by
  have htake : (bytes.take n).length = n := List.length_take_of_le hn
  have hread : readCells (writeCells b.data b.cur bytes) b.cur (bytes.take n).length =
      bytes.take n := by
    rw [htake, ← take_readCells hn, readCells_writeCells]
  have happends := appends_of_cells (b := b) _ bytes.length
    (by rw [htake]; omega) hread fun i hi => writeCells_of_notMem hi
  refine ⟨_, ?_, happends⟩
  rw [store_ok h, ok_bind]
  have hadd := @add_ok _ { b with data := writeCells b.data b.cur bytes } n
    (show b.cur + n ≤ SIZE by omega)
  rw [hadd]
  simp only [htake]

/-- Bytes that are there are appended if there is more room than they need, and dropped otherwise. -/
theorem append_spec (b : BufferMemory SIZE) (buf : Bytes) (len : Nat)
    (h : len < b.avail → len ≤ buf.length) :
    ∃ t, b.append buf len = .ok t ∧
      if len < b.avail then b.Appends (buf.take len) b.avail t else t = b := by
  have hcur := b.cur_le
  rw [append]
  split
  · rename_i hroom
    have hlen := h hroom
    have htake : (buf.take len).length = len := List.length_take_of_le hlen
    rw [avail] at hroom
    rw [if_neg (by omega)]
    obtain ⟨t, ht, happends⟩ := b.store_add (buf.take len) len
      (by rw [htake]; omega) (by rw [htake])
    rw [List.take_take, Nat.min_self] at happends
    refine ⟨t, ht, happends.mono ?_⟩
    rw [htake, avail]
    omega
  · exact ⟨b, rfl, rfl⟩

theorem append_all (b : BufferMemory SIZE) (buf : Bytes) :
    ∃ t, b.append buf buf.length = .ok t ∧
      if buf.length < b.avail then b.Appends buf b.avail t else t = b := by
  have hspec := b.append_spec buf buf.length fun _ => Nat.le_refl _
  rwa [List.take_length] at hspec

/-- Its users see the buffer do what `FixedBuffer.append` says. -/
theorem append_toFixedBuffer {b t : BufferMemory SIZE} {buf : Bytes}
    (h : b.append buf buf.length = .ok t) : t.toFixedBuffer = b.toFixedBuffer.append buf := by
  have havail : b.toFixedBuffer.avail = b.avail := by
    rw [FixedBuffer.avail, avail]
    exact congrArg _ b.length_content
  obtain ⟨t', ht', hcase⟩ := b.append_all buf
  cases h.symm.trans ht'
  rw [FixedBuffer.append]
  split at hcase
  · rename_i hroom
    rw [dif_pos (havail ▸ hroom)]
    simp only [toFixedBuffer, hcase.content]
  · rename_i hfull
    rw [dif_neg (havail ▸ hfull), hcase]

end BufferMemory

section

variable {δ : Type} (printf : δ → Bytes)

/-- The text that is printed for a pointer, if any. -/
def Pointer.text : Pointer → Bytes
  | .null => textOf none
  | .string str => textOf (some str)
  | .other _ => []

/-- The text of a value. -/
def Value.render : Value δ → Bytes
  | .integer v => toDecimal v.val
  | .float v | .double v => printf v
  | .char c => [c]
  | .pointer data => data.text
  | .str data | .unsignedStr data => textOf data
  | .string data => data
  | .buffer buf => buf.content
  | .general g => g.data.take g.len.toNat

/-- The value is of a floating-point type. -/
def Value.isFloating : Value δ → Bool
  | .float _ | .double _ => true
  | _ => false

/-- The value is a pointer that does not lead to a string. -/
def Value.isStray : Value δ → Bool
  | .pointer (.other _) => true
  | _ => false

/-- The room that a value needs: `kMaxNumericSize` bytes for a number, and one more than its text
for the others. -/
def Value.need : Value δ → Nat
  | .integer _ | .float _ | .double _ => LogStream.kMaxNumericSize
  | .general g => sizeOfInt g.len + 1
  | v => (v.render printf).length + 1

namespace LogStream

variable {printf} {s t : LogStream}

/-- `t` is `s` with a text behind its content, if there is room for it, and `s` otherwise. -/
structure Takes (s : LogStream) (need : Nat) (text : Bytes) (t : LogStream) : Prop where
  kept : need ≤ s.avail → s.buffer.Appends text s.avail t.buffer
  dropped : s.avail < need → t = s

theorem takes_of_append {text : Bytes} {len : Nat} {x : Except StreamFault (BufferMemory kSmallBuffer)}
    (h : ∃ b, x = .ok b ∧
      if len < s.buffer.avail then s.buffer.Appends text s.buffer.avail b else b = s.buffer) :
    ∃ t, (x >>= fun b => .ok { s with buffer := b }) = .ok t ∧ s.Takes (len + 1) text t := by
  obtain ⟨b, hb, hcase⟩ := h
  refine ⟨⟨b⟩, by rw [hb]; rfl, ?_, ?_⟩
  · intro hroom
    have hlt : len < s.buffer.avail := hroom
    rwa [if_pos hlt] at hcase
  · intro hfull
    have hle : ¬ len < s.buffer.avail := Nat.not_lt.mpr (Nat.le_of_lt_succ hfull)
    rw [if_neg hle] at hcase
    rw [hcase]

theorem takes_formatInteger (s : LogStream) (v : Integer) :
    ∃ t, s.formatInteger v.val = .ok t ∧ s.Takes kMaxNumericSize (toDecimal v.val) t := by
  obtain ⟨t, ht, hcase⟩ := s.formatInteger_spec v
  refine ⟨t, ht, ?_, ?_⟩
  · intro hroom
    rw [if_pos hroom] at hcase
    exact hcase.mono hroom
  · intro hfull
    rwa [if_neg (by omega)] at hcase

/-- With room for it, a floating-point number is appended. -/
theorem takes_insertDouble {v : δ} (hprintf : (printf v).length < kMaxNumericSize)
    (hroom : kMaxNumericSize ≤ s.avail) :
    ∃ t, s.insertDouble printf v = .ok t ∧ s.Takes kMaxNumericSize (printf v) t := by
  have hall : (printf v).take (kMaxNumericSize - 1) = printf v :=
    List.take_of_length_le (by omega)
  have hlength : (printf v ++ [0]).length = (printf v).length + 1 := List.length_append
  have hcur := s.buffer.cur_le
  have hstored : s.buffer.cur + (printf v ++ [0]).length ≤ kSmallBuffer := by
    rw [avail, BufferMemory.avail] at hroom
    unfold kMaxNumericSize at hroom hprintf
    omega
  obtain ⟨b, hb, happends⟩ := s.buffer.store_add _ (printf v).length hstored (by omega)
  rw [List.take_left] at happends
  refine ⟨⟨b⟩, ?_, fun _ => happends.mono (by omega), fun hfull => absurd hroom (by omega)⟩
  rw [insertDouble, if_pos hroom]
  dsimp only
  rw [hall]
  obtain ⟨c, hc, hb⟩ := bind_eq_ok.mp hb
  rw [hc, ok_bind, hb]
  rfl

theorem sizeOfInt_le (g : GeneralTemplate) (h : sizeOfInt g.len < kSmallBuffer) :
    sizeOfInt g.len = g.len.toNat ∧ g.len.toNat ≤ g.data.length := by
  obtain ⟨hlow, hhigh⟩ := g.isInt
  have hlen := g.len_le
  unfold sizeOfInt kSmallBuffer at *
  omega

theorem takes_append (s : LogStream) (g : GeneralTemplate) :
    ∃ t, s.append g = .ok t ∧ s.Takes (sizeOfInt g.len + 1) (g.data.take g.len.toNat) t := by
  have hsize : sizeOfInt g.len < s.buffer.avail →
      sizeOfInt g.len = g.len.toNat ∧ g.len.toNat ≤ g.data.length :=
    fun h => sizeOfInt_le g (Nat.lt_of_lt_of_le h (Nat.sub_le ..))
  obtain ⟨b, hb, hcase⟩ := s.buffer.append_spec g.data (sizeOfInt g.len)
    fun h => (hsize h).1.trans_le (hsize h).2
  apply takes_of_append
  refine ⟨b, hb, ?_⟩
  by_cases h : sizeOfInt g.len < s.buffer.avail
  · rw [if_pos h] at hcase ⊢
    rwa [(hsize h).1] at hcase
  · rwa [if_neg h] at hcase ⊢

variable (printf) in
/-- What a value does to the stream that it is streamed into. -/
theorem insert_spec (s : LogStream) (v : Value δ) (hfloating : v.isFloating = true →
      (v.render printf).length < kMaxNumericSize ∧ kMaxNumericSize ≤ s.avail)
    (hstray : v.isStray = false) :
    ∃ t, s.insert printf v = .ok t ∧ s.Takes (v.need printf) (v.render printf) t := by
  cases v with
  | integer v => exact s.takes_formatInteger v
  | float v => exact takes_insertDouble (hfloating rfl).1 (hfloating rfl).2
  | double v => exact takes_insertDouble (hfloating rfl).1 (hfloating rfl).2
  | char c => exact takes_of_append (s.buffer.append_all [c])
  | pointer data =>
    cases data with
    | null => exact takes_of_append (s.buffer.append_all (textOf none))
    | string str => exact takes_of_append (s.buffer.append_all (textOf (some str)))
    | other address => cases hstray
  | str data => exact takes_of_append (s.buffer.append_all (textOf data))
  | unsignedStr data => exact takes_of_append (s.buffer.append_all (textOf data))
  | string data => exact takes_of_append (s.buffer.append_all data)
  | buffer buf => exact takes_of_append (s.buffer.append_all buf.content)
  | general g => exact s.takes_append g

@[simp] theorem content_new (data : Nat → UInt8) : (new data).content = [] := rfl

theorem avail_of_content (s : LogStream) : s.avail = kSmallBuffer - s.content.length := by
  rw [content, BufferMemory.length_content]
  rfl

/-- A text for which there is room is appended. -/
theorem Takes.appended {need : Nat} {text : Bytes} (h : s.Takes need text t)
    (hroom : s.content.length + need ≤ kSmallBuffer) : t.content = s.content ++ text := by
  refine (h.kept ?_).content
  rw [avail_of_content]
  omega

theorem Takes.content {need : Nat} {text : Bytes} (h : s.Takes need text t) :
    t.content = s.content ∨ t.content = s.content ++ text := by
  by_cases hroom : need ≤ s.avail
  · exact .inr (h.kept hroom).content
  · exact .inl (by rw [h.dropped (by omega)])

/-- With `%.12g` printing at most 47 bytes: streaming a value returns the stream, stores nothing
outside of the buffer, and leaves the content as it was or with all of the text behind it, exactly
if it does not stream a floating-point number into less than `kMaxNumericSize` bytes of room, or a
pointer that does not lead to a string. -/
theorem insert_whole_iff (hprintf : ∀ v, (printf v).length < kMaxNumericSize) (s : LogStream)
    (v : Value δ) :
    (∃ t, s.insert printf v = .ok t ∧
      (t.content = s.content ∨ t.content = s.content ++ v.render printf)) ↔
    (v.isFloating = true → kMaxNumericSize ≤ s.avail) ∧ v.isStray = false := by
  constructor
  · rintro ⟨t, ht, -⟩
    constructor
    · intro hfloating
      by_contra hfull
      have hends : ∀ d, s.insertDouble printf d = .error .noReturn := fun d => if_neg hfull
      cases v with
      | float v => exact absurd ((hends v).symm.trans ht) (by simp)
      | double v => exact absurd ((hends v).symm.trans ht) (by simp)
      | _ => cases hfloating
    · cases v with
      | pointer data =>
        cases data with
        | other address => cases ht
        | null | string str => rfl
      | _ => rfl
  · rintro ⟨hroom, hstray⟩
    have hfloating : v.isFloating = true →
        (v.render printf).length < kMaxNumericSize ∧ kMaxNumericSize ≤ s.avail := by
      intro h
      refine ⟨?_, hroom h⟩
      cases v with
      | float v => exact hprintf v
      | double v => exact hprintf v
      | _ => cases h
    obtain ⟨t, ht, htakes⟩ := s.insert_spec printf v hfloating hstray
    exact ⟨t, ht, htakes.content⟩

/-- A call on a stream. -/
inductive Call (δ : Type)
  | insert (v : Value δ)
  | append (g : GeneralTemplate)

variable (printf) in
def call (s : LogStream) : Call δ → Except StreamFault LogStream
  | .insert v => s.insert printf v
  | .append g => s.append g

/-- The numbers from 0 to 9 as `double`s, and what `%.12g` prints of them. -/
def printDigit (d : Fin 10) : Bytes := toDecimal d.val

theorem length_printDigit (d : Fin 10) : (printDigit d).length < kMaxNumericSize := by
  have hlength : (toDecimal d.val).length ≤ 1 := length_toDecimal_natCast_le (by decide) d.isLt
  unfold printDigit kMaxNumericSize
  omega

/-- A number in an empty stream. -/
theorem insert_whole_iff_digit : ∃ t,
    (new fun _ => 0).insert printDigit (.double 7) = .ok t ∧
      (t.content = [] ∨ t.content = ofString "7") :=
  (insert_whole_iff length_printDigit (new fun _ => 0) (.double 7)).mpr
    ⟨fun _ => by decide, rfl⟩

/-- Behind 3960 bytes of text a `double` finds 40 bytes of room: control runs off the end. -/
theorem double_ends_nowhere : ∃ s, Reachable (call printDigit) (new fun _ => 0) s ∧
    s.insert printDigit (.double 7) = .error .noReturn := by
  let text : Bytes := List.replicate 3960 120
  obtain ⟨s, hs, htakes⟩ := (new fun _ => 0).insert_spec printDigit (.string text) nofun rfl
  have hlength : text.length = 3960 := List.length_replicate
  have hcontent := (htakes.kept (by
    show text.length + 1 ≤ kSmallBuffer - 0
    rw [hlength]
    decide)).content
  have havail : s.avail = 40 := by
    rw [avail_of_content]
    have hall : s.content.length = 3960 := by
      rw [content, hcontent]
      exact hlength
    rw [hall]
    rfl
  refine ⟨s, ⟨[.insert (.string text)], by rw [run_singleton]; exact hs⟩, ?_⟩
  exact if_neg (by rw [havail]; decide)

end LogStream

end

end Mymuduo
