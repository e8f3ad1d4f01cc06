import Mymuduo.Http.Exchange

/-! The text of a request: a request line, the header lines up to the empty one, and a body as long
as its Content-Length says. -/

namespace Mymuduo

open Lib HttpConnection

/-! ### Lines -/

/-- A text without a CRLF. -/
def IsLine (line : Bytes) : Prop := search kCRLF line = none

instance (line : Bytes) : Decidable (IsLine line) := inferInstanceAs (Decidable (_ = none))

theorem isLine_take {q : Bytes} {crlf : Nat} (h : search kCRLF q = some crlf) :
    IsLine (q.take crlf) := search_take (by decide) h

theorem search_line {line : Bytes} (h : IsLine line) (t : Bytes) :
    search kCRLF (line ++ kCRLF ++ t) = some line.length := by
  refine search_append_self ?_
  intro j hj
  rintro ⟨rest, hrest⟩
  have hcr : (line ++ kCRLF ++ t)[j]? = some 13 := by
    have hget : ((line ++ kCRLF ++ t).drop j)[0]? = (line ++ kCRLF ++ t)[j + 0]? :=
      List.getElem?_drop
    rw [← hrest] at hget
    exact hget.symm
  have hlf : (line ++ kCRLF ++ t)[j + 1]? = some 10 := by
    have hget : ((line ++ kCRLF ++ t).drop j)[1]? = (line ++ kCRLF ++ t)[j + 1]? :=
      List.getElem?_drop
    rw [← hrest] at hget
    exact hget.symm
  by_cases hlast : j + 1 < line.length
  · refine search_eq_none_iff.mp h ⟨line.take j, line.drop (j + 2), ?_⟩
    rw [List.append_assoc, List.getElem?_append_left hj] at hcr
    rw [List.append_assoc, List.getElem?_append_left hlast] at hlf
    have hsplit : line.drop j = kCRLF ++ line.drop (j + 2) := by
      rw [List.drop_eq_getElem_cons hj, List.drop_eq_getElem_cons hlast,
        (List.getElem?_eq_some_iff.mp hcr).2, (List.getElem?_eq_some_iff.mp hlf).2]
      rfl
    rw [List.append_assoc, ← hsplit, List.take_append_drop]
  · -- The CR of the CRLF after the line comes where the LF would have to be.
    have hend : j + 1 = line.length := by omega
    rw [hend, List.append_assoc, List.getElem?_append_right (Nat.le_refl _), Nat.sub_self] at hlf
    simp [kCRLF] at hlf

/-- The lines of a text, each with its end. -/
def ofLines (lines : List Bytes) : Bytes := lines.flatMap (· ++ kCRLF)

@[simp] theorem ofLines_nil : ofLines [] = [] := rfl

theorem ofLines_cons (line : Bytes) (lines : List Bytes) :
    ofLines (line :: lines) = line ++ kCRLF ++ ofLines lines := by
  rw [ofLines, List.flatMap_cons]
  rfl

theorem ofLines_append (lines lines' : List Bytes) :
    ofLines (lines ++ lines') = ofLines lines ++ ofLines lines' := List.flatMap_append

theorem ofLines_singleton (line : Bytes) : ofLines [line] = line ++ kCRLF := by
  rw [ofLines_cons, ofLines_nil, List.append_nil]

/-! ### Requests -/

/-- `header_`, after the header line `field`. -/
def addField (header : StringMap) (field : Bytes) : StringMap :=
  match matchHeader field with
  | none => header
  | some (key, value) => Function.update header key (some value)

/-- `header_`, after the header lines `fields`. -/
def headerMap (fields : List Bytes) : StringMap := fields.foldl addField fun _ => none

@[simp] theorem headerMap_nil : headerMap [] = fun _ => none := rfl

theorem headerMap_concat (fields : List Bytes) (field : Bytes) :
    headerMap (fields ++ [field]) = addField (headerMap fields) field := by
  rw [headerMap, List.foldl_append]
  rfl

/-- The length that the headers announce for the body. -/
def announcedLength (header : StringMap) : Option Nat :=
  match header (ofString "Content-Length") with
  | none => some 0
  | some value =>
    match stoul value with
    | .ok n => some n.toNat
    | .error _ => none

theorem announcedLength_of_stoul {header : StringMap} {value : Bytes} {m : UInt64}
    (hvalue : header (ofString "Content-Length") = some value) (hm : stoul value = .ok m) :
    announcedLength header = some m.toNat := by
  rw [announcedLength, hvalue]
  dsimp only
  rw [hm]

/-- The headers after which no body is read announce none. -/
theorem announcedLength_of_no_body {header : StringMap}
    (h : contentLength header = none ∨ contentLength header = some (.ok 0)) :
    announcedLength header = some 0 := by
  rcases h with hnone | hzero
  · rw [announcedLength, Option.map_eq_none_iff.mp hnone]
  · obtain ⟨value, hvalue, hreads⟩ := Option.map_eq_some_iff.mp hzero
    obtain ⟨m, hm, hmn⟩ := stoul_of_stoi_nonneg hreads (Int.le_refl 0)
    rw [announcedLength_of_stoul hvalue hm]
    exact congrArg some (by omega)

/-- A well-formed request line, with well-formed header lines. -/
structure RequestHead where
  line : Bytes
  fields : List Bytes
  isLine : IsLine line
  line_matches : (matchRequestLine line).isSome
  fields_match : ∀ field ∈ fields, IsLine field ∧ (matchHeader field).isSome

def RequestHead.bytes (head : RequestHead) : Bytes :=
  head.line ++ kCRLF ++ ofLines head.fields

/-- A whole request. -/
structure Request extends RequestHead where
  body : Bytes
  length : announcedLength (headerMap fields) = some body.length

def Request.bytes (r : Request) : Bytes := r.toRequestHead.bytes ++ kCRLF ++ r.body

/-- One more header line. -/
def RequestHead.concat (head : RequestHead) (field : Bytes) (hline : IsLine field)
    (hmatch : (matchHeader field).isSome) : RequestHead where
  line := head.line
  fields := head.fields ++ [field]
  isLine := head.isLine
  line_matches := head.line_matches
  fields_match := by
    intro f hf
    rcases List.mem_append.mp hf with hf | hf
    · exact head.fields_match f hf
    · rw [List.mem_singleton.mp hf]
      exact ⟨hline, hmatch⟩

theorem RequestHead.bytes_concat (head : RequestHead) (field : Bytes) (hline : IsLine field)
    (hmatch : (matchHeader field).isSome) :
    (head.concat field hline hmatch).bytes = head.bytes ++ (field ++ kCRLF) := by
  show head.line ++ kCRLF ++ ofLines (head.fields ++ [field]) = _
  rw [ofLines_append, ofLines_singleton, ← List.append_assoc]
  rfl

/-- The head of a request ends with a line of its own. -/
theorem RequestHead.bytes_suffix (head : RequestHead) : kCRLF <:+ head.bytes := by
  rw [RequestHead.bytes]
  rcases List.eq_nil_or_concat head.fields with hnil | ⟨fields, field, hfields⟩
  · rw [hnil, ofLines_nil, List.append_nil]
    exact List.suffix_append _ _
  · rw [hfields, List.concat_eq_append, ofLines_append, ofLines_singleton, ← List.append_assoc,
      ← List.append_assoc]
    exact List.suffix_append _ _

theorem Request.empty_line (r : Request) : kCRLF ++ kCRLF <:+: r.bytes := by
  obtain ⟨before, hbefore⟩ := r.toRequestHead.bytes_suffix
  refine ⟨before, r.body, ?_⟩
  rw [Request.bytes, ← hbefore]
  simp only [List.append_assoc]

theorem Request.body_eq_nil (r : Request)
    (h : contentLength (headerMap r.fields) = none ∨
      contentLength (headerMap r.fields) = some (.ok 0)) : r.body = [] :=
  List.eq_nil_of_length_eq_zero
    (Option.some.inj (r.length.symm.trans (announcedLength_of_no_body h)))

theorem Request.length_pos (r : Request) : 0 < r.bytes.length :=
  Nat.lt_of_lt_of_le (by decide) r.empty_line.length_le

end Mymuduo
