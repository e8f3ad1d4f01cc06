import Mathlib.Data.List.Forall2
import Mymuduo.Http.Headers
import Mymuduo.Http.Pipeline
import Mymuduo.Lib.Coupled

/-! The names of headers are looked up as they are spelled.  Texts of a request that differ in the
case of letters in the names of headers are told apart by what the server finds under the three names
that it looks up, and by nothing else. -/

namespace Mymuduo

open Lib HttpConnection

/-! ### Spellings -/

/-- A letter of ASCII in lower case; other bytes are left alone. -/
def lower (b : UInt8) : UInt8 := if 65 ≤ b ∧ b ≤ 90 then b + 32 else b

theorem lower_eq_iff {b c : UInt8} (hc : c < 65) : lower b = c ↔ b = c := by
  unfold lower
  split
  · rename_i hupper
    rw [UInt8.le_iff_toNat_le, UInt8.le_iff_toNat_le] at hupper
    rw [UInt8.lt_iff_toNat_lt] at hc
    simp only [← UInt8.toNat_inj, UInt8.toNat_add, UInt8.reduceToNat] at *
    omega
  · exact Iff.rfl

/-- The case of its letters does not matter to whether a text is a line. -/
theorem isLine_lower {line : Bytes} : IsLine (line.map lower) ↔ IsLine line := by
  have hcrlf : kCRLF.map lower = kCRLF := by decide +kernel
  have hbytes : ∀ c ∈ kCRLF, ∀ a, lower a = lower c → a = c := by
    intro c hc a h
    have hsmall : ∀ c ∈ kCRLF, c < 65 ∧ lower c = c := by decide +kernel
    obtain ⟨hlt, hsame⟩ := hsmall c hc
    exact (lower_eq_iff hlt).mp (h.trans hsame)
  have hsearch := search_map (l := line) hbytes
  rw [hcrlf] at hsearch
  rw [IsLine, IsLine, hsearch]

/-- The second header line is the first with other cases of the letters in the name. -/
inductive Respelled : Bytes → Bytes → Prop
  | same (field : Bytes) : Respelled field field
  | name {name name' : Bytes} (h : name'.map lower = name.map lower)
      (hcolon : (58 : UInt8) ∉ name) (after : Bytes) :
      Respelled (name ++ 58 :: after) (name' ++ 58 :: after)

theorem respelled_headerLine {name name' : Bytes} (h : name'.map lower = name.map lower)
    (hcolon : (58 : UInt8) ∉ name) (value : Bytes) :
    Respelled (headerLine (name, value)) (headerLine (name', value)) := by
  rw [headerLine, headerLine, List.append_assoc, List.append_assoc]
  exact .name h hcolon (32 :: value)

/-- The value of a header line whose first colon stands before `after`. -/
def valueAfter (after : Bytes) : Bytes :=
  if after.dropWhile (· == 32) = [] then after.drop (after.length - 1)
  else after.dropWhile (· == 32)

theorem matchHeader_colon {name : Bytes} (hcolon : (58 : UInt8) ∉ name) (after : Bytes) :
    matchHeader (name ++ 58 :: after) =
      if name ≠ [] ∧ valueAfter after ≠ [] ∧ (13 : UInt8) ∉ valueAfter after ∧
          (10 : UInt8) ∉ valueAfter after then
        some (name, valueAfter after)
      else none := by
  rw [matchHeader, dropWhile_ne_append hcolon, takeWhile_ne_append hcolon]
  rfl

namespace Respelled

variable {field field' : Bytes}

theorem map_lower (h : Respelled field field') : field'.map lower = field.map lower := by
  cases h with
  | same => rfl
  | name h hcolon after => rw [List.map_append, List.map_append, h]

theorem length_eq (h : Respelled field field') : field'.length = field.length := by
  simpa using congrArg List.length h.map_lower

theorem isLine (h : Respelled field field') (hline : IsLine field) : IsLine field' := by
  rw [← isLine_lower, h.map_lower, isLine_lower]
  exact hline

theorem ne_nil (h : Respelled field field') (hne : field ≠ []) : field' ≠ [] := by
  rw [← List.length_pos_iff, h.length_eq, List.length_pos_iff]
  exact hne

/-- Both header lines are refused, or both have the same value. -/
theorem matchHeader_cases (h : Respelled field field') :
    matchHeader field = none ∧ matchHeader field' = none ∨
      ∃ key key' value, matchHeader field = some (key, value) ∧
        matchHeader field' = some (key', value) := by
  cases h with
  | same =>
    cases hmatch : matchHeader field with
    | none => exact .inl ⟨rfl, rfl⟩
    | some header => exact .inr ⟨header.1, header.1, header.2, rfl, rfl⟩
  | @name name name' h hcolon after =>
    have hcolon' : (58 : UInt8) ∉ name' := by
      intro hmem
      have hlower := List.mem_map_of_mem (f := lower) hmem
      rw [h] at hlower
      obtain ⟨b, hb, hcase⟩ := List.mem_map.mp hlower
      rw [(lower_eq_iff (by decide)).mp hcase] at hb
      exact hcolon hb
    have hnil : name' ≠ [] ↔ name ≠ [] := by
      rw [not_iff_not, ← List.map_eq_nil_iff (f := lower), h, List.map_eq_nil_iff]
    rw [matchHeader_colon hcolon, matchHeader_colon hcolon']
    simp only [hnil]
    split
    · exact .inr ⟨name, name', _, rfl, rfl⟩
    · exact .inl ⟨rfl, rfl⟩

end Respelled

/-! ### Lookups -/

/-- The names that the server looks up. -/
def lookedUp : List Bytes :=
  [ofString "Content-Length", ofString "Content-Type", ofString "Connection"]

/-- The server finds the same in both maps. -/
def SameLookups (header header' : StringMap) : Prop := ∀ key ∈ lookedUp, header' key = header key

namespace HttpConnection

variable {fs : FileSystem} {c c' d d' : HttpConnection} {header : StringMap} {ret : HttpCode}

/-- The state with another map of headers. -/
def withHeader (c : HttpConnection) (header : StringMap) : HttpConnection :=
  { c with header := header }

/-- States with different maps of headers, in which the server finds the same. -/
def FindsAlike (c c' : HttpConnection) : Prop :=
  c' = c.withHeader c'.header ∧ SameLookups c.header c'.header

theorem FindsAlike.refl (c : HttpConnection) : FindsAlike c c := ⟨rfl, fun _ _ => rfl⟩

@[simp] theorem withHeader_header (c : HttpConnection) (header : StringMap) :
    (c.withHeader header).header = header := rfl

theorem bodyLength_withHeader (h : SameLookups c.header header) :
    (c.withHeader header).bodyLength = c.bodyLength := by
  rw [bodyLength, bodyLength, withHeader_header, h (ofString "Content-Length") (by simp [lookedUp])]

theorem remain_withHeader (h : SameLookups c.header header) :
    (c.withHeader header).remain = c.remain := by
  rw [remain, remain, bodyLength_withHeader h, withHeader_header,
    h (ofString "Content-Length") (by simp [lookedUp])]
  rfl

theorem asksKeepAlive_withHeader (h : SameLookups c.header header) :
    (c.withHeader header).asksKeepAlive = c.asksKeepAlive := by
  rw [asksKeepAlive, asksKeepAlive, withHeader_header,
    h (ofString "Connection") (by simp [lookedUp])]
  rfl

theorem parsePost_withHeader (h : SameLookups c.header header) :
    (c.withHeader header).parsePost = (c.parsePost.1, c.parsePost.2.withHeader header) := by
  have hbody : (c.withHeader header).body = c.body := rfl
  unfold parsePost
  rw [withHeader_header, h (ofString "Content-Type") (by simp [lookedUp]), hbody]
  split
  · rfl
  · split
    · rfl
    · split <;> rfl

theorem userPage_withHeader (c : HttpConnection) (header : StringMap) :
    (c.withHeader header).userPage = c.userPage.withHeader header := by
  have hpath : (c.withHeader header).path = c.path := rfl
  have hpost : (c.withHeader header).post = c.post := rfl
  unfold userPage
  rw [hpath, hpost]
  split
  · rfl
  · split <;> rfl

theorem userVerify_withHeader (fs : FileSystem) (c : HttpConnection) (header : StringMap) :
    (c.withHeader header).userVerify fs =
      ((c.userVerify fs).1, (c.userVerify fs).2.withHeader header) := by
  have hfile : (c.userPage.withHeader header).file fs = c.userPage.file fs := rfl
  unfold userVerify
  rw [userPage_withHeader]
  dsimp only
  rw [hfile]
  split <;> rfl

theorem parseRequestBody_withHeader (h : SameLookups c.header header) (fs : FileSystem)
    (line : Bytes) :
    (c.withHeader header).parseRequestBody fs line =
      (c.parseRequestBody fs line).map fun r => (r.1, r.2.withHeader header) := by
  have hread : { c.withHeader header with body := (c.withHeader header).body ++ line } =
      withHeader { c with body := c.body ++ line } header := rfl
  unfold parseRequestBody
  rw [hread]
  generalize hd : { c with body := c.body ++ line } = d
  have hd' : SameLookups d.header header := hd ▸ h
  have hbody : (d.withHeader header).body = d.body := rfl
  have hmethod : (d.withHeader header).method = d.method := rfl
  dsimp only
  rw [bodyLength_withHeader hd', parsePost_withHeader hd', hbody, hmethod]
  dsimp only
  rw [userVerify_withHeader]
  cases d.bodyLength with
  | error e => rfl
  | ok m =>
    rw [ok_bind, ok_bind]
    split
    · rfl
    · split
      · rfl
      · split
        · split
          · rfl
          · split <;> rfl
        · rfl

/-! ### One text -/

/-- The same outcome, in states in which the server finds the same. -/
def SameResult (r r' : HttpCode × HttpConnection) : Prop := r'.1 = r.1 ∧ FindsAlike r.2 r'.2

theorem parseRequestLine_alike (h : SameLookups c.header header) (fs : FileSystem) (line : Bytes) :
    SameResult (c.parseRequestLine fs line) ((c.withHeader header).parseRequestLine fs line) := by
  have heq : (c.withHeader header).parseRequestLine fs line =
      ((c.parseRequestLine fs line).1, (c.parseRequestLine fs line).2.withHeader header) := by
    unfold parseRequestLine
    cases matchRequestLine line with
    | none => rfl
    | some groups =>
      obtain ⟨method, path, version⟩ := groups
      dsimp only [withHeader, file]
      split
      · rfl
      · split
        · rfl
        · split <;> rfl
  have hheader : (c.parseRequestLine fs line).2.header = c.header := by
    rcases parseRequestLine_cases fs c line with
      ⟨-, hline⟩ | ⟨method, path, version, -, ret, stat, hline, -⟩ <;> rw [hline]
  rw [heq]
  exact ⟨rfl, rfl, by rw [hheader]; exact h⟩

theorem parseRequestBody_alike (h : SameLookups c.header header) (fs : FileSystem) (line : Bytes) :
    Coupled SameResult (c.parseRequestBody fs line)
      ((c.withHeader header).parseRequestBody fs line) := by
  rw [parseRequestBody_withHeader h]
  apply Coupled.of_map
  rintro ⟨ret, d⟩ hparse
  have hheader : d.header = c.header := by rw [parseRequestBody_frame hparse]
  exact ⟨rfl, rfl, by rw [hheader]; exact h⟩

theorem sameLookups_update {header' : StringMap} (h : SameLookups header header')
    (key value : Bytes) :
    SameLookups (Function.update header key (some value))
      (Function.update header' key (some value)) := by
  intro k hk
  by_cases hkey : k = key
  · rw [hkey, Function.update_self, Function.update_self]
  · rw [Function.update_of_ne hkey, Function.update_of_ne hkey, h k hk]

theorem parseRequestHeader_alike (h : SameLookups c.header header) (line : Bytes) :
    Coupled SameResult (c.parseRequestHeader line) ((c.withHeader header).parseRequestHeader line) := by
  have hlength : contentLength header = contentLength c.header := by
    rw [contentLength, contentLength, h (ofString "Content-Length") (by simp [lookedUp])]
  unfold parseRequestHeader
  rw [withHeader_header, hlength]
  split
  · split
    · exact .ok ⟨rfl, rfl, h⟩
    · exact .error _
    · split
      · exact .ok ⟨rfl, rfl, h⟩
      · exact .ok ⟨rfl, rfl, h⟩
  · split
    · exact .ok ⟨rfl, rfl, h⟩
    · exact .ok ⟨rfl, rfl, sameLookups_update h _ _⟩

/-- Both iterations wait, or both take as many bytes with the same outcome. -/
inductive Stepped (P : Nat → HttpCode → HttpConnection → HttpConnection → Prop) :
    Option (Nat × HttpCode × HttpConnection) → Option (Nat × HttpCode × HttpConnection) → Prop
  | waits : Stepped P none none
  | takes {n : Nat} {ret : HttpCode} {d d' : HttpConnection} (h : P n ret d d') :
      Stepped P (some (n, ret, d)) (some (n, ret, d'))

theorem Stepped.of_result {P : Nat → HttpCode → HttpConnection → HttpConnection → Prop} {n : Nat}
    {r r' : HttpCode × HttpConnection} (h : SameResult r r')
    (hP : FindsAlike r.2 r'.2 → P n r.1 r.2 r'.2) : Stepped P (some (n, r)) (some (n, r')) := by
  obtain ⟨ret, d⟩ := r
  obtain ⟨ret', d'⟩ := r'
  obtain ⟨rfl, hfind⟩ := h
  exact .takes (hP hfind)

/-- States in which the server finds the same do the same with the same bytes. -/
theorem FindsAlike.consume (h : FindsAlike c c') (fs : FileSystem) (q : Bytes) :
    Coupled (Stepped fun _ _ => FindsAlike) (consume fs c q) (consume fs c' q) := by
  obtain ⟨hc', hlookups⟩ := h
  generalize c'.header = header at hc' hlookups
  subst hc'
  unfold HttpConnection.consume
  rw [show (c.withHeader header).parseState = c.parseState from rfl]
  cases c.parseState with
  | kBody =>
    dsimp only
    rw [remain_withHeader hlookups]
    cases c.remain with
    | error e => exact .error e
    | ok m =>
      rw [ok_bind, ok_bind]
      split
      · exact .ok .waits
      · apply (parseRequestBody_alike hlookups fs _).bind
        exact fun r r' hr => .ok (.of_result hr id)
  | kRequestLine =>
    dsimp only
    split
    · exact .ok .waits
    · exact .ok (.of_result (parseRequestLine_alike hlookups fs _) id)
  | kHeader =>
    dsimp only
    split
    · exact .ok .waits
    · apply (parseRequestHeader_alike hlookups _).bind
      exact fun r r' hr => .ok (.of_result hr id)
  | kFinish => exact .ok (.takes ⟨rfl, hlookups⟩)

/-! ### Responses -/

theorem makeResponse_alike (h : FindsAlike c c') (fs : FileSystem) (ret : HttpCode) :
    Coupled (fun r r' => r'.2 = r.2 ∧ FindsAlike r.1 r'.1) (c.makeResponse fs ret)
      (c'.makeResponse fs ret) := by
  obtain ⟨hc', hlookups⟩ := h
  generalize c'.header = header at hc' hlookups
  subst hc'
  have hinit : (c.withHeader header).initResponse fs ret =
      (c.initResponse fs ret).map fun d => d.withHeader header := by
    unfold initResponse
    dsimp only [withHeader, file]
    split
    · split <;> rfl
    · rfl
  unfold makeResponse
  cases check .makeResponse (ret != .kNoRequest) with
  | error e => exact .error e
  | ok u =>
    rw [ok_bind, ok_bind, hinit]
    cases hd : c.initResponse fs ret with
    | error e => exact .error e
    | ok d =>
      have hsame : SameLookups d.header header := by
        rw [show d.header = c.header by rw [initResponse_frame hd]]
        exact hlookups
      have hline : (d.withHeader header).makeResponseLine = d.makeResponseLine := rfl
      have hmake : (d.withHeader header).makeResponseHeader =
          (d.makeResponseHeader.1.withHeader header, d.makeResponseHeader.2) := by
        rw [makeResponseHeader, asksKeepAlive_withHeader hsame]
        rfl
      have hbody : (d.makeResponseHeader.1.withHeader header).makeResponseBody fs =
          d.makeResponseHeader.1.makeResponseBody fs := rfl
      rw [Except.map, ok_bind, ok_bind, hline, hmake]
      cases d.makeResponseLine with
      | error e => exact .error e
      | ok line =>
        rw [ok_bind, ok_bind]
        dsimp only
        rw [hbody]
        cases d.makeResponseHeader.1.makeResponseBody fs with
        | error e => exact .error e
        | ok body => exact .ok ⟨rfl, rfl, hsame⟩

/-! ### Two texts -/

/-- The header lines up to the first that is refused. -/
def accepted (fields : List Bytes) : List Bytes :=
  fields.takeWhile fun field => (matchHeader field).isSome

theorem foldl_accepted_cons (header : StringMap) (field : Bytes) (fields : List Bytes) :
    (accepted (field :: fields)).foldl addField header =
      match matchHeader field with
      | none => header
      | some (key, value) =>
        (accepted fields).foldl addField (Function.update header key (some value)) := by
  cases hmatch : matchHeader field with
  | none =>
    rw [accepted, List.takeWhile_cons_of_neg (by simp [hmatch])]
    rfl
  | some entry =>
    rw [accepted, List.takeWhile_cons_of_pos (by simp [hmatch]), List.foldl_cons, addField, hmatch]
    rfl

/-- Header lines in two spellings, which add to maps of headers so that the server finds the same in
them. -/
structure Spelled (header header' : StringMap) (fields fields' : List Bytes) : Prop where
  isLine : ∀ field ∈ fields, IsLine field ∧ field ≠ []
  respelled : List.Forall₂ Respelled fields fields'
  lookups : SameLookups ((accepted fields).foldl addField header)
    ((accepted fields').foldl addField header')

theorem Spelled.uncons {header header' : StringMap} {field : Bytes} {fields all : List Bytes}
    (h : Spelled header header' (field :: fields) all) :
    ∃ field' fields', all = field' :: fields' ∧ Respelled field field' ∧
      (matchHeader field = none ∧ matchHeader field' = none ∧ SameLookups header header' ∨
        ∃ key key' value, matchHeader field = some (key, value) ∧
          matchHeader field' = some (key', value) ∧
          Spelled (Function.update header key (some value))
            (Function.update header' key' (some value)) fields fields') := by
  obtain ⟨hlines, hspell, hlookups⟩ := h
  cases hspell with
  | @cons _ field' _ fields' hfield hfields =>
    refine ⟨field', fields', rfl, hfield, ?_⟩
    rw [foldl_accepted_cons, foldl_accepted_cons] at hlookups
    rcases hfield.matchHeader_cases with ⟨hnone, hnone'⟩ | ⟨key, key', value, hsome, hsome'⟩
    · rw [hnone, hnone'] at hlookups
      exact .inl ⟨hnone, hnone', hlookups⟩
    · rw [hsome, hsome'] at hlookups
      exact .inr ⟨key, key', value, hsome, hsome',
        fun f hf => hlines f (List.mem_cons_of_mem _ hf), hfields, hlookups⟩

/-- Either a line that comes is not there yet, or the bytes begin with it. -/
theorem line_ahead {q u line t : Bytes} (hline : IsLine line) (h : q ++ u = line ++ kCRLF ++ t) :
    search kCRLF q = none ∧ q.length < line.length + 2 ∨
      ∃ r, q = line ++ kCRLF ++ r ∧ r ++ u = t := by
  have hlength : (line ++ kCRLF).length = line.length + 2 := List.length_append
  by_cases henough : line.length + 2 ≤ q.length
  · obtain ⟨r, rfl⟩ : line ++ kCRLF <+: q :=
      List.prefix_of_prefix_length_le ⟨t, h.symm⟩ ⟨u, rfl⟩ (by omega)
    rw [List.append_assoc] at h
    exact .inr ⟨r, rfl, List.append_cancel_left h⟩
  · refine .inl ⟨?_, by omega⟩
    cases hsearch : search kCRLF q with
    | none => rfl
    | some crlf =>
      have hfound := (line_append hsearch u).1
      rw [h, search_line hline] at hfound
      cases hfound
      exact absurd (search_spec hsearch).1 henough

/-- Of two lines of equal length that come in as many bytes, both are there or neither is. -/
theorem lines_ahead {q q' u u' line line' t t' : Bytes} (hline : IsLine line) (hline' : IsLine line')
    (h : q ++ u = line ++ kCRLF ++ t) (h' : q' ++ u' = line' ++ kCRLF ++ t')
    (hlength : line'.length = line.length) (hlen : q'.length = q.length) :
    search kCRLF q = none ∧ search kCRLF q' = none ∨
      ∃ r r', q = line ++ kCRLF ++ r ∧ r ++ u = t ∧ q' = line' ++ kCRLF ++ r' ∧ r' ++ u' = t' := by
  have hcrlf : kCRLF.length = 2 := rfl
  rcases line_ahead hline h with ⟨hwait, hshort⟩ | ⟨r, rfl, hr⟩ <;>
    rcases line_ahead hline' h' with ⟨hwait', hshort'⟩ | ⟨r', rfl, hr'⟩
  · exact .inl ⟨hwait, hwait'⟩
  · simp only [List.length_append] at hlen
    omega
  · simp only [List.length_append] at hlen
    omega
  · exact .inr ⟨r, r', rfl, hr, rfl, hr'⟩

/-- States with the bytes that come, of which the first may have been delivered. -/
inductive Ahead (c c' : HttpConnection) : Bytes → Bytes → Prop
  | same (h : FindsAlike c c') (t : Bytes) : Ahead c c' t t
  | header {fields fields' : List Bytes} (hstate : c.parseState = .kHeader)
      (hc' : c' = c.withHeader c'.header) (h : Spelled c.header c'.header fields fields')
      (rest : Bytes) : Ahead c c' (ofLines fields ++ rest) (ofLines fields' ++ rest)
  | requestLine {line : Bytes} {fields fields' : List Bytes} (hstate : c.parseState = .kRequestLine)
      (hc' : c' = c) (hline : IsLine line) (h : Spelled c.header c.header fields fields')
      (rest : Bytes) :
      Ahead c c' (line ++ kCRLF ++ (ofLines fields ++ rest)) (line ++ kCRLF ++ (ofLines fields' ++ rest))

/-- What is the same after an iteration that has taken `n` of the bytes `q` or `q'`. -/
def Goes (q u q' u' : Bytes) (n : Nat) (ret : HttpCode) (d d' : HttpConnection) : Prop :=
  (ret ≠ .kNoRequest → FindsAlike d d') ∧
    (ret = .kNoRequest → Ahead d d' (q.drop n ++ u) (q'.drop n ++ u'))

variable {q q' u u' : Bytes}

theorem FindsAlike.consume_goes (h : FindsAlike c c') (fs : FileSystem) (q u : Bytes) :
    Coupled (Stepped (Goes q u q u)) (HttpConnection.consume fs c q)
      (HttpConnection.consume fs c' q) := by
  apply (h.consume fs q).mono
  intro a b hstep
  cases hstep with
  | waits => exact .waits
  | takes hfind => exact .takes ⟨fun _ => hfind, fun _ => .same hfind _⟩

theorem consume_waits (fs : FileSystem)
    (hstate : c.parseState = .kRequestLine ∨ c.parseState = .kHeader)
    (h : search kCRLF q = none) : HttpConnection.consume fs c q = .ok none := by
  unfold HttpConnection.consume
  rcases hstate with hstate | hstate <;> simp only [hstate, h]

/-- A header line is taken in both spellings or in none. -/
theorem consume_goes_header {field : Bytes} {fields all : List Bytes} (fs : FileSystem)
    (hstate : c.parseState = .kHeader) (hc' : c' = c.withHeader c'.header)
    (h : Spelled c.header c'.header (field :: fields) all) {rest : Bytes}
    (ht : q ++ u = ofLines (field :: fields) ++ rest) (ht' : q' ++ u' = ofLines all ++ rest)
    (hlen : q'.length = q.length) :
    Coupled (Stepped (Goes q u q' u')) (HttpConnection.consume fs c q)
      (HttpConnection.consume fs c' q') := by
  obtain ⟨hline, hne⟩ := h.isLine field List.mem_cons_self
  obtain ⟨field', fields', rfl, hfield, hmatch⟩ := h.uncons
  have hstate' : c'.parseState = .kHeader := by rw [hc']; exact hstate
  have hline' := hfield.isLine hline
  have hne' := hfield.ne_nil hne
  have hlength := hfield.length_eq
  rw [ofLines_cons, List.append_assoc] at ht ht'
  rcases lines_ahead hline hline' ht ht' hlength hlen with
    ⟨hwait, hwait'⟩ | ⟨r, r', rfl, hr, rfl, hr'⟩
  · rw [consume_waits fs (.inr hstate) hwait, consume_waits fs (.inr hstate') hwait']
    exact .ok .waits
  · rw [consume_headerLine fs hstate hline, consume_headerLine fs hstate' hline', hlength,
      parseRequestHeader, if_neg (by simpa using hne), parseRequestHeader,
      if_neg (by simpa using hne')]
    rcases hmatch with ⟨hnone, hnone', hlookups⟩ | ⟨key, key', value, hsome, hsome', hfields⟩
    · rw [hnone, hnone']
      exact .ok (.takes ⟨fun _ => ⟨hc', hlookups⟩, by simp⟩)
    · rw [hsome, hsome']
      refine .ok (.takes ⟨fun hret => absurd rfl hret, fun _ => ?_⟩)
      have hdrop' := drop_line field' r'
      rw [hlength] at hdrop'
      rw [drop_line, hdrop', hr, hr']
      refine .header ?_ ?_ ?_ rest
      · exact hstate
      · rw [hc']
        rfl
      · exact hfields

theorem consume_goes_requestLine {line : Bytes} {fields fields' : List Bytes} (fs : FileSystem)
    (hstate : c.parseState = .kRequestLine) (hline : IsLine line)
    (h : Spelled c.header c.header fields fields') {rest : Bytes}
    (ht : q ++ u = line ++ kCRLF ++ (ofLines fields ++ rest))
    (ht' : q' ++ u' = line ++ kCRLF ++ (ofLines fields' ++ rest)) (hlen : q'.length = q.length) :
    Coupled (Stepped (Goes q u q' u')) (HttpConnection.consume fs c q)
      (HttpConnection.consume fs c q') := by
  rcases lines_ahead hline hline ht ht' rfl hlen with
    ⟨hwait, hwait'⟩ | ⟨r, r', rfl, hr, rfl, hr'⟩
  · rw [consume_waits fs (.inl hstate) hwait, consume_waits fs (.inl hstate) hwait']
    exact .ok .waits
  · rw [consume_requestLine fs hstate hline, consume_requestLine fs hstate hline]
    rcases parseRequestLine_cases fs c line with
      ⟨-, hparse⟩ | ⟨method, path, version, -, ret, stat, hparse, -, -⟩
    · rw [hparse]
      exact .ok (.takes ⟨fun _ => .refl _, by simp⟩)
    · rw [hparse]
      refine .ok (.takes ⟨fun _ => .refl _, fun _ => ?_⟩)
      rw [drop_line, drop_line, hr, hr']
      refine .header ?_ ?_ ?_ rest
      · rfl
      · rfl
      · exact h

/-- An iteration goes the same way in both spellings. -/
theorem Ahead.consume (h : Ahead c c' (q ++ u) (q' ++ u')) (hlen : q'.length = q.length)
    (fs : FileSystem) :
    Coupled (Stepped (Goes q u q' u')) (HttpConnection.consume fs c q)
      (HttpConnection.consume fs c' q') := by
  generalize ht : q ++ u = t, ht' : q' ++ u' = t' at h
  cases h with
  | same hfind t =>
    obtain ⟨rfl, rfl⟩ := List.append_inj (ht'.trans ht.symm) hlen
    exact hfind.consume_goes fs _ _
  | @header fields fields' hstate hc' hspelled rest =>
    cases fields with
    | nil =>
      cases hspelled.respelled
      obtain ⟨rfl, rfl⟩ := List.append_inj (ht'.trans ht.symm) hlen
      exact FindsAlike.consume_goes ⟨hc', hspelled.lookups⟩ fs _ _
    | cons field fields => exact consume_goes_header fs hstate hc' hspelled ht ht' hlen
  | requestLine hstate hc' hline hspelled rest =>
    subst hc'
    exact consume_goes_requestLine fs hstate hline hspelled ht ht' hlen

theorem Ahead.consume_none (h : Ahead c c' (q ++ u) (q' ++ u')) (hlen : q'.length = q.length)
    (hconsume : HttpConnection.consume fs c q = .ok none) :
    HttpConnection.consume fs c' q' = .ok none := by
  have hstep := h.consume hlen fs
  rw [hconsume] at hstep
  obtain ⟨x, hx, hstep⟩ := hstep.of_ok
  cases hstep with
  | waits => exact hx

theorem Ahead.consume_some {n : Nat} (h : Ahead c c' (q ++ u) (q' ++ u'))
    (hlen : q'.length = q.length)
    (hconsume : HttpConnection.consume fs c q = .ok (some (n, ret, d))) :
    ∃ d', HttpConnection.consume fs c' q' = .ok (some (n, ret, d')) ∧
      Goes q u q' u' n ret d d' := by
  have hstep := h.consume hlen fs
  rw [hconsume] at hstep
  obtain ⟨x, hx, hstep⟩ := hstep.of_ok
  cases hstep with
  | takes hgoes => exact ⟨_, hx, hgoes⟩

theorem Ahead.parseState_eq {t t' : Bytes} (h : Ahead c c' t t') : c'.parseState = c.parseState := by
  cases h with
  | same hfind => rw [hfind.1]; rfl
  | header hstate hc' => rw [hc']; rfl
  | requestLine hstate hc' => rw [hc']

theorem Ahead.finished {t t' : Bytes} (h : Ahead c c' t t') (hfinish : c.parseState = .kFinish) :
    FindsAlike c c' := by
  cases h with
  | same hfind => exact hfind
  | header hstate => cases hstate.symm.trans hfinish
  | requestLine hstate => cases hstate.symm.trans hfinish

/-- The same outcome, with as many bytes left, when `u` or `u'` is still to come. -/
structure EndsAlike (u u' : Bytes) (r r' : HttpCode × HttpConnection × Bytes) : Prop where
  ret : r'.1 = r.1
  length : r'.2.2.length = r.2.2.length
  ends : r.1 ≠ .kNoRequest → FindsAlike r.2.1 r'.2.1
  waits : r.1 = .kNoRequest → Ahead r.2.1 r'.2.1 (r.2.2 ++ u) (r'.2.2 ++ u')

/-- A parse goes the same way in both spellings. -/
theorem Ahead.parse (h : Ahead c c' (q ++ u) (q' ++ u')) (hlen : q'.length = q.length)
    (fs : FileSystem) :
    Coupled (EndsAlike u u') (HttpConnection.parse fs c q) (HttpConnection.parse fs c' q') := by
  induction c, q using parse_induction fs generalizing c' q' with
  | finish c q hfinish =>
    rw [parse_finish hfinish, parse_finish (h.parseState_eq.trans hfinish)]
    exact .ok ⟨rfl, hlen, fun _ => h.finished hfinish, by simp⟩
  | fails c q e hfinish hconsume =>
    have hstep := h.consume hlen fs
    rw [hconsume] at hstep
    rw [parse_error hfinish hconsume, parse_error (h.parseState_eq ▸ hfinish) hstep.of_error]
    exact .error e
  | waits c q hfinish hconsume =>
    rw [parse_waits hfinish hconsume,
      parse_waits (h.parseState_eq ▸ hfinish) (h.consume_none hlen hconsume)]
    exact .ok ⟨rfl, hlen, fun hret => absurd rfl hret, fun _ => h⟩
  | returns c q n ret d hfinish hret hconsume =>
    obtain ⟨d', hconsume', hfind, -⟩ := h.consume_some hlen hconsume
    rw [parse_returns hfinish hconsume hret,
      parse_returns (h.parseState_eq ▸ hfinish) hconsume' hret]
    refine .ok ⟨rfl, ?_, fun _ => hfind hret, fun hno => absurd hno hret⟩
    rw [List.length_drop, List.length_drop, hlen]
  | continues c q n d hfinish hconsume ih =>
    obtain ⟨d', hconsume', -, hahead⟩ := h.consume_some hlen hconsume
    rw [parse_continues hfinish hconsume, parse_continues (h.parseState_eq ▸ hfinish) hconsume']
    apply ih (hahead rfl)
    rw [List.length_drop, List.length_drop, hlen]

/-- The same response, and as many bytes left, when `u` or `u'` is still to come. -/
structure RepliesAlike (u u' : Bytes) (r r' : Option Reply × HttpConnection × Bytes) : Prop where
  reply : r'.1 = r.1
  length : r'.2.2.length = r.2.2.length
  waits : r.1 = none → Ahead r.2.1 r'.2.1 (r.2.2 ++ u) (r'.2.2 ++ u')

theorem Ahead.respond (h : Ahead c c' (q ++ u) (q' ++ u')) (hlen : q'.length = q.length)
    (fs : FileSystem) :
    Coupled (RepliesAlike u u') (Mymuduo.respond fs c q) (Mymuduo.respond fs c' q') := by
  unfold Mymuduo.respond
  apply (h.parse hlen fs).bind
  rintro ⟨ret, d, r⟩ ⟨ret', d', r'⟩ ⟨hret, hlength, hends, hwaits⟩
  dsimp only at hret hlength hends hwaits ⊢
  subst hret
  split
  · rename_i hno
    exact .ok ⟨rfl, hlength, fun _ => hwaits hno⟩
  · rename_i hended
    apply (makeResponse_alike (hends hended) fs _).bind
    rintro ⟨x, bytes⟩ ⟨x', bytes'⟩ ⟨hbytes, hfind⟩
    dsimp only at hbytes hfind ⊢
    have hkeep : x'.keepAlive = x.keepAlive := by rw [hfind.1]; rfl
    rw [hbytes, hkeep]
    split
    · exact .ok ⟨rfl, hlength, by simp⟩
    · exact .ok ⟨rfl, hlength, by simp⟩

theorem consume_no_header (c : HttpConnection) (q : Bytes) (n : Nat) (ret : HttpCode)
    (c' : HttpConnection) (h : c.parseState = .kRequestLine → c.header = headerMap [])
    (hfinish : c.parseState ≠ .kFinish)
    (hconsume : HttpConnection.consume fs c q = .ok (some (n, ret, c')))
    (hstate' : c'.parseState = .kRequestLine) : c'.header = headerMap [] := by
  cases consume_cases hfinish hconsume with
  | requestLine hstate hcrlf hparse =>
    rcases parseRequestLine_cases fs c _ with
      ⟨-, hline⟩ | ⟨method, path, version, -, ret', stat, hline, -, -⟩ <;>
      cases hparse.symm.trans hline <;> exact h hstate
  | header hstate hcrlf hparse =>
    rcases parseRequestHeader_cases hparse with
      ⟨-, -, -, rfl⟩ | ⟨-, -, -, rfl⟩ | ⟨-, -, -, rfl⟩ | ⟨-, key, value, -, -, rfl⟩
    · cases hstate'
    · cases hstate'
    · cases hstate.symm.trans hstate'
    · cases hstate.symm.trans hstate'
  | body hstate hremain henough hparse =>
    rw [parseRequestBody_frame hparse] at hstate'
    dsimp only at hstate'
    split at hstate'
    · cases hstate'
    · cases hstate.symm.trans hstate'

end HttpConnection

namespace Exchange

open HttpConnection

variable {fs : FileSystem} {sourceDir : Bytes} {e e' : Exchange} {chunk chunk' u u' : Bytes}

/-- Before a request line there are no headers. -/
theorem reachable_no_header (h : Reachable (deliver fs) (start sourceDir) e)
    (hstate : e.http.parseState = .kRequestLine) : e.http.header = headerMap [] :=
  h.invariant (I := fun e => e.http.parseState = .kRequestLine → e.http.header = headerMap [])
    (deliver_invariant consume_no_header (fun _ _ _ _ _ hI => hI) (fun _ _ _ => rfl))
    (fun _ => rfl) hstate

/-- The conversation from `e` up to the first answer, with the deliveries that are left. -/
def untilAnswered (fs : FileSystem) (e : Exchange) (chunks : List Bytes) :
    Except Fault (Exchange × List Bytes) :=
  runUntil (deliver fs) (fun f => decide (e.replies.length < f.replies.length)) e chunks

/-- The responses, how many bytes are left of the input, and how many deliveries. -/
def observe (r : Exchange × List Bytes) : List Reply × Nat × Nat :=
  (r.1.replies, r.1.input.length, r.2.length)

/-- Conversations with the deliveries that come, in two spellings. -/
structure Abreast (r r' : Exchange × List Bytes) : Prop where
  replies : r'.1.replies = r.1.replies
  length : r'.1.input.length = r.1.input.length
  cut : r'.2.map List.length = r.2.map List.length
  ahead : ∃ u u', Ahead r.1.http r'.1.http (r.1.input ++ r.2.flatten ++ u)
    (r'.1.input ++ r'.2.flatten ++ u')

/-- A delivery to both conversations: no response in either, or the same one in both. -/
theorem Abreast.deliver {chunks chunks' : List Bytes} (fs : FileSystem)
    (h : Abreast (e, chunk :: chunks) (e', chunk' :: chunks')) :
    Coupled (fun f f' => f'.replies = f.replies ∧ f'.input.length = f.input.length ∧
      (f.replies = e.replies ∧ Abreast (f, chunks) (f', chunks') ∨
        e.replies.length < f.replies.length))
      (Exchange.deliver fs e chunk) (Exchange.deliver fs e' chunk') := by
  obtain ⟨hreplies, hlength, hcut, u, u', hahead⟩ := h
  dsimp only at hreplies hlength hahead
  obtain ⟨hchunk, hcut⟩ := List.cons.inj hcut
  rw [List.flatten_cons, List.flatten_cons, ← List.append_assoc, ← List.append_assoc,
    List.append_assoc, List.append_assoc (e'.input ++ chunk')] at hahead
  have hlen : (e'.input ++ chunk').length = (e.input ++ chunk).length := by
    rw [List.length_append, List.length_append, hlength, hchunk]
  unfold Exchange.deliver
  apply (hahead.respond hlen fs).bind
  rintro ⟨reply, http, input⟩ ⟨reply', http', input'⟩ ⟨hreply, hleft, hwaits⟩
  dsimp only at hreply hleft hwaits ⊢
  subst hreply
  refine .ok ⟨by rw [hreplies], hleft, ?_⟩
  cases reply' with
  | none =>
    have hsame : e.replies ++ Option.toList none = e.replies := List.append_nil _
    have hsame' : e'.replies ++ Option.toList none = e'.replies := List.append_nil _
    have hmore := hwaits rfl
    rw [← List.append_assoc, ← List.append_assoc] at hmore
    rw [hsame, hsame']
    exact .inl ⟨rfl, hreplies, hleft, hcut, u, u', hmore⟩
  | some reply =>
    right
    simp

theorem Abreast.untilAnswered {chunks chunks' : List Bytes} (fs : FileSystem)
    (h : Abreast (e, chunks) (e', chunks')) :
    (untilAnswered fs e chunks).map observe = (untilAnswered fs e' chunks').map observe := by
  have hcount : e'.replies.length = e.replies.length := by rw [h.replies]
  have hlen : chunks.length = chunks'.length := by
    simpa using (congrArg List.length h.cut).symm
  unfold Exchange.untilAnswered
  rw [hcount]
  refine Coupled.map_eq (R := fun r r' => observe r = observe r') ?_ fun _ _ h => h
  refine Coupled.runUntil
    (I := fun r r' => Abreast r r' ∧ r.1.replies.length = e.replies.length) ?_ ?_ hlen ⟨h, rfl⟩
  · rintro f chunk rest f' chunk' rest' ⟨habreast, hnone⟩
    dsimp only at hnone
    have hcut : rest'.length = rest.length := by
      simpa using congrArg List.length habreast.cut
    apply (habreast.deliver fs).mono
    rintro g g' ⟨hreplies, hleft, hsame | hmore⟩
    · right
      rw [decide_eq_false_iff_not, decide_eq_false_iff_not, hreplies, hsame.1, hnone]
      exact ⟨Nat.lt_irrefl _, Nat.lt_irrefl _, hsame.2, rfl⟩
    · left
      rw [decide_eq_true_eq, decide_eq_true_eq, hreplies, ← hnone]
      refine ⟨hmore, hmore, ?_⟩
      rw [observe, observe, hreplies, hleft, hcut]
  · rintro f f' ⟨habreast, -⟩
    have hreplies : f'.replies = f.replies := habreast.replies
    have hleft : f'.input.length = f.input.length := habreast.length
    rw [observe, observe, hreplies, hleft]

/-- A change of the spelling, unless it takes a name that the server looks up, or makes one. -/
def Unread (field field' : Bytes) : Prop :=
  Respelled field field' ∧ (field' = field ∨ ∀ entry, entry.1 ∈ lookedUp →
    matchHeader field ≠ some entry ∧ matchHeader field' ≠ some entry)

/-- After such changes the server finds what it found before. -/
theorem sameLookups_of_unread {fields fields' : List Bytes}
    (h : List.Forall₂ Unread fields fields') {header header' : StringMap}
    (hfound : SameLookups header header') :
    SameLookups ((accepted fields).foldl addField header)
      ((accepted fields').foldl addField header') := by
  induction h generalizing header header' with
  | nil => exact hfound
  | @cons field field' fields fields' hfield hfields ih =>
    obtain ⟨hspell, hunread⟩ := hfield
    rw [foldl_accepted_cons, foldl_accepted_cons]
    rcases hspell.matchHeader_cases with ⟨hnone, hnone'⟩ | ⟨key, key', value, hsome, hsome'⟩
    · rw [hnone, hnone']
      exact hfound
    · rw [hsome, hsome']
      apply ih
      rcases hunread with rfl | hunread
      · cases hsome.symm.trans hsome'
        exact sameLookups_update hfound key value
      · intro k hk
        have hkey : k ≠ key := fun heq => (hunread (key, value) (heq ▸ hk)).1 hsome
        have hkey' : k ≠ key' := fun heq => (hunread (key', value) (heq ▸ hk)).2 hsome'
        rw [Function.update_of_ne hkey, Function.update_of_ne hkey', hfound k hk]

/-- A body that follows headers with a Content-Length is taken from the input as a body. -/
theorem body_taken (hreach : Reachable (deliver fs) (start sourceDir) e) {c : HttpConnection}
    {body more value : Bytes} {n : Int}
    (hvisit : Visits fs e.http (e.input ++ chunk) c (kCRLF ++ (body ++ more)))
    (hbody : BodyFollows c (kCRLF ++ (body ++ more)) value n)
    (hlength : announcedLength c.header = some body.length) :
    ∃ ret d, parse fs e.http (e.input ++ chunk) = .ok (ret, d, more) ∧ ret ≠ .kNoRequest ∧
      d.body = body := by
  have hcoherent := hvisit.invariant consume_coherent (reachable_coherent hreach)
  have hnil := hcoherent.body_nil (.inr hbody.state)
  obtain ⟨m, hm⟩ := stoul_isOk_of_stoi hbody.reads
  have hsize : body.length = m.toNat :=
    Option.some.inj (hlength.symm.trans (announcedLength_of_stoul hbody.header hm))
  have hdrop : (kCRLF ++ (body ++ more)).drop 2 = body ++ more := rfl
  have henough : ¬(body ++ more).length < m.toNat := by
    rw [List.length_append]
    omega
  have hend := hbody.parse_body fs hcoherent hm
  rw [hdrop, if_neg henough, ← hsize, List.take_left, List.drop_left] at hend
  obtain ⟨ret, d, hjudge, hret, hparse⟩ := hend
  refine ⟨ret, d, hvisit.parse_eq.trans hparse, hret, ?_⟩
  rw [parseRequestBody_frame hjudge]
  show c.body ++ body = body
  rw [hnil, List.nil_append]

/-- For a request that comes in any deliveries at the start of which the parser awaits a request
line: with other cases of the letters in its header names it leads to the same responses and the same
decisions to keep the connection, and leaves as many bytes, if the server finds the same under the
names that it looks up.  A body that follows headers with a Content-Length, in this spelling, is taken
from the input as a body. -/
theorem respelled_alike {line rest input' : Bytes} {fields fields' chunks chunks' : List Bytes}
    (hreach : Reachable (deliver fs) (start sourceDir) e)
    (hstate : e.http.parseState = .kRequestLine) (hline : IsLine line)
    (hfields : ∀ field ∈ fields, IsLine field ∧ field ≠ [])
    (hspell : List.Forall₂ Respelled fields fields')
    (hfound : SameLookups (headerMap (accepted fields)) (headerMap (accepted fields')))
    (htext : e.input ++ chunks.flatten <+: line ++ kCRLF ++ (ofLines fields ++ rest))
    (htext' : input' ++ chunks'.flatten <+: line ++ kCRLF ++ (ofLines fields' ++ rest))
    (hinput : input'.length = e.input.length)
    (hcut : chunks'.map List.length = chunks.map List.length) :
    (untilAnswered fs e chunks).map observe =
        (untilAnswered fs { e with input := input' } chunks').map observe ∧
      ∀ (chunk body more value : Bytes) (n : Int) (c : HttpConnection),
        Visits fs e.http (e.input ++ chunk) c (kCRLF ++ (body ++ more)) →
        BodyFollows c (kCRLF ++ (body ++ more)) value n →
        announcedLength c.header = some body.length →
        ∃ ret d, parse fs e.http (e.input ++ chunk) = .ok (ret, d, more) ∧ ret ≠ .kNoRequest ∧
          d.body = body := by
  have hnone := reachable_no_header hreach hstate
  have hspelled : Spelled e.http.header e.http.header fields fields' := by
    rw [hnone]
    exact ⟨hfields, hspell, hfound⟩
  obtain ⟨u, hu⟩ := htext
  obtain ⟨u', hu'⟩ := htext'
  have hahead : Ahead e.http e.http (e.input ++ chunks.flatten ++ u)
      (input' ++ chunks'.flatten ++ u') := by
    rw [hu, hu']
    exact .requestLine hstate rfl hline hspelled rest
  have habreast : Abreast (e, chunks) ({ e with input := input' }, chunks') :=
    ⟨rfl, hinput, hcut, u, u', hahead⟩
  refine ⟨habreast.untilAnswered fs, ?_⟩
  intro chunk body more value n c hvisit hbody hlength
  exact body_taken hreach hvisit hbody hlength

/-- A request for the root with a body. -/
def withBody (headers : List (Bytes × Bytes)) (body : Bytes) : Bytes :=
  ofString "GET / HTTP/1.1" ++ kCRLF ++ (ofLines (headers.map headerLine) ++ (kCRLF ++ body))

/-- Two headers, of which the server looks the second up. -/
def hostAndLength (host : String) : List (Bytes × Bytes) :=
  [(ofString host, ofString "a"), (ofString "Content-Length", ofString "5")]

theorem respelled_alike_host :
    (untilAnswered rootSite (start []) [withBody (hostAndLength "Host") (ofString "hello")]).map
        observe =
      (untilAnswered rootSite (start [])
        [withBody (hostAndLength "HOST") (ofString "hello")]).map observe ∧
    ∀ (chunk body more value : Bytes) (n : Int) (c : HttpConnection),
      Visits rootSite (.new []) ([] ++ chunk) c (kCRLF ++ (body ++ more)) →
      BodyFollows c (kCRLF ++ (body ++ more)) value n →
      announcedLength c.header = some body.length →
      ∃ ret d, parse rootSite (.new []) ([] ++ chunk) = .ok (ret, d, more) ∧ ret ≠ .kNoRequest ∧
        d.body = body := by
  have hunread : List.Forall₂ Unread ((hostAndLength "Host").map headerLine)
      ((hostAndLength "HOST").map headerLine) := by
    refine .cons ⟨respelled_headerLine (by decide +kernel) (by decide +kernel) _, .inr ?_⟩
      (.cons ⟨.same _, .inl rfl⟩ .nil)
    have hmatch : matchHeader (headerLine (ofString "Host", ofString "a")) =
        some (ofString "Host", ofString "a") := by decide +kernel
    have hmatch' : matchHeader (headerLine (ofString "HOST", ofString "a")) =
        some (ofString "HOST", ofString "a") := by decide +kernel
    intro entry hkey
    constructor
    · intro heq
      cases hmatch.symm.trans heq
      exact absurd hkey (by decide +kernel)
    · intro heq
      cases hmatch'.symm.trans heq
      exact absurd hkey (by decide +kernel)
  have hlines : ∀ field ∈ (hostAndLength "Host").map headerLine, IsLine field ∧ field ≠ [] := by
    decide +kernel
  have htext : ∀ host : String, [] ++ [withBody (hostAndLength host) (ofString "hello")].flatten <+:
      ofString "GET / HTTP/1.1" ++ kCRLF ++
        (ofLines ((hostAndLength host).map headerLine) ++ (kCRLF ++ ofString "hello")) := by
    intro host
    rw [List.nil_append, List.flatten_singleton, withBody]
  exact respelled_alike (.refl _) rfl (by decide +kernel) hlines (hunread.imp fun _ _ h => h.1)
    (sameLookups_of_unread hunread fun _ _ => rfl) (htext "Host") (htext "HOST") rfl
    (by decide +kernel)

/-- A body that is a request for the root. -/
theorem lowercase_length_unread :
    Respelled (headerLine (ofString "Content-Length", ofString "18"))
      (headerLine (ofString "content-length", ofString "18")) ∧
    (run (deliver rootSite) (start [])
        [withBody [(ofString "Connection", ofString "keep-alive"),
          (ofString "Content-Length", ofString "18")] (withBody [] []), []]).map
      (fun e => e.replies.length) = .ok 1 ∧
    (run (deliver rootSite) (start [])
        [withBody [(ofString "Connection", ofString "keep-alive"),
          (ofString "content-length", ofString "18")] (withBody [] []), []]).map
      (fun e => e.replies.length) = .ok 2 := by
  refine ⟨respelled_headerLine (by decide +kernel) (by decide +kernel) _, ?_, ?_⟩
  · decide +kernel
  · decide +kernel

end Exchange

end Mymuduo
