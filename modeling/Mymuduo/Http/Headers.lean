import Mymuduo.Http.Request
import Mymuduo.Lib.Table

/-! Header lines, as they are written and as they are read. -/

namespace Mymuduo

open Lib HttpConnection

/-- The name of a header. -/
structure IsName (name : Bytes) : Prop where
  ne_nil : name ≠ []
  colon : (58 : UInt8) ∉ name
  cr : (13 : UInt8) ∉ name
  lf : (10 : UInt8) ∉ name

/-- The value of a header. -/
structure IsValue (value : Bytes) : Prop where
  ne_nil : value ≠ []
  blank : value.head? ≠ some 32
  cr : (13 : UInt8) ∉ value
  lf : (10 : UInt8) ∉ value

/-- A header as a line. -/
def headerLine (header : Bytes × Bytes) : Bytes := header.1 ++ ofString ": " ++ header.2

theorem matchHeader_headerLine {header : Bytes × Bytes} (hname : IsName header.1)
    (hvalue : IsValue header.2) : matchHeader (headerLine header) = some header := by
  obtain ⟨name, value⟩ := header
  have htext : headerLine (name, value) = name ++ 58 :: 32 :: value := by
    rw [headerLine, List.append_assoc]
    rfl
  have hblank : (32 :: value).dropWhile (· == 32) = value := by
    rw [List.dropWhile_cons_of_pos (by simp)]
    obtain ⟨b, rest, rfl⟩ := List.exists_cons_of_ne_nil hvalue.ne_nil
    refine List.dropWhile_cons_of_neg ?_
    simpa using hvalue.blank
  rw [matchHeader, htext, dropWhile_ne_append hname.colon, takeWhile_ne_append hname.colon]
  dsimp only
  rw [hblank, if_neg hvalue.ne_nil, if_pos ⟨hname.ne_nil, hvalue.ne_nil, hvalue.cr, hvalue.lf⟩]

/-- A text without a CR is a line. -/
theorem isLine_of_cr {line : Bytes} (h : (13 : UInt8) ∉ line) : IsLine line := by
  refine search_eq_none_iff.mpr ?_
  rintro ⟨before, after, rfl⟩
  exact h (by simp [kCRLF])

theorem isLine_headerLine {header : Bytes × Bytes} (hname : IsName header.1)
    (hvalue : IsValue header.2) : IsLine (headerLine header) := by
  refine isLine_of_cr ?_
  rw [headerLine, List.mem_append, List.mem_append]
  rintro ((hmem | hmem) | hmem)
  · exact hname.cr hmem
  · exact absurd hmem (by decide +kernel)
  · exact hvalue.cr hmem

/-- The map that header lines build holds the headers. -/
theorem headerMap_headerLines {headers : List (Bytes × Bytes)} {key value : Bytes}
    (hnodup : (headers.map Prod.fst).Nodup) (hname : ∀ header ∈ headers, IsName header.1)
    (hvalue : ∀ header ∈ headers, IsValue header.2) :
    headerMap (headers.map headerLine) key = some value ↔ (key, value) ∈ headers := by
  have hfold : ∀ header ∈ headers, ∀ table : StringMap,
      addField table (headerLine header) = enter table header := by
    intro header hheader table
    rw [addField, matchHeader_headerLine (hname header hheader) (hvalue header hheader)]
    rfl
  have hmap : headerMap (headers.map headerLine) = headers.foldl enter fun _ => none := by
    rw [headerMap, List.foldl_map]
    exact List.foldl_ext _ _ _ fun table header hheader => hfold header hheader table
  rw [hmap, foldl_enter_eq_some hnodup]
  simp

end Mymuduo
