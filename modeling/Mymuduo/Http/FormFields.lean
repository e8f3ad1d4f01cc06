import Mathlib.Data.List.TakeWhile
import Mymuduo.Http.HttpConnection
import Mymuduo.Lib.Search
import Mymuduo.Lib.Table

/-! Forms.  The loop of `parseFromUrlEncode` works through the fields of a form one after another,
and stores each of them before it looks at the next: a form that is refused has stored the fields
before its defect. -/

namespace Mymuduo

open Lib

/-- A piece of a form: a separator, a byte, an escape with two bytes, or an escape that is cut short
by the end of the text. -/
inductive FormToken
  | equals
  | ampersand
  | byte (b : UInt8)
  | escape (high low : UInt8)
  | cut
  deriving DecidableEq, Repr

/-- The pieces of a form.  An escape takes the two bytes after it, whatever they are. -/
def formTokens : Bytes → List FormToken
  | [] => []
  | 61 :: rest => .equals :: formTokens rest
  | 38 :: rest => .ampersand :: formTokens rest
  | 43 :: rest => .byte 32 :: formTokens rest
  | 37 :: high :: low :: rest => .escape high low :: formTokens rest
  | b :: rest => if b = 37 then [.cut] else .byte b :: formTokens rest

/-- The text that a piece stands for.  An escape stands for the decimal digits of its number. -/
def FormToken.text : FormToken → Bytes
  | .byte b => [b]
  | .escape high low => toDecimal (strtolHex [high, low])
  | _ => []

/-- What is between two ampersands. -/
abbrev FormField := List FormToken

namespace FormField

/-- The text before the first equals sign. -/
def key (field : FormField) : Bytes := (field.takeWhile (· != .equals)).flatMap FormToken.text

/-- The text after the first equals sign.  Further ones are passed over. -/
def value (field : FormField) : Bytes := (field.dropWhile (· != .equals)).flatMap FormToken.text

/-- The field has a key and a value, and no escape of it is cut short. -/
def Complete (field : FormField) : Prop :=
  field.key ≠ [] ∧ field.value ≠ [] ∧ FormToken.cut ∉ field

instance (field : FormField) : Decidable field.Complete := inferInstanceAs (Decidable (_ ∧ _ ∧ _))

def entry (field : FormField) : Bytes × Bytes := (field.key, field.value)

end FormField

def formFields (body : Bytes) : List FormField := (formTokens body).splitOn .ampersand

/-- Every field of the form is complete. -/
def WellFormedForm (body : Bytes) : Prop := ∀ field ∈ formFields body, field.Complete

instance (body : Bytes) : Decidable (WellFormedForm body) :=
  inferInstanceAs (Decidable (∀ field ∈ formFields body, field.Complete))

/-- The fields before the first one that is not complete. -/
def acceptedFields (body : Bytes) : List (Bytes × Bytes) :=
  ((formFields body).takeWhile fun field => decide field.Complete).map FormField.entry

/-! ### The loop -/

namespace FormField

variable {field : FormField} {token : FormToken}

/-- After an equals sign, what follows belongs to the value. -/
theorem concat_of_mem (h : FormToken.equals ∈ field) (token : FormToken) :
    key (field ++ [token]) = field.key ∧ value (field ++ [token]) = field.value ++ token.text := by
  obtain ⟨before, after, rfl, hbefore⟩ := List.eq_append_cons_of_mem h
  rw [List.append_assoc, List.cons_append]
  refine ⟨?_, ?_⟩
  · rw [key, key, takeWhile_ne_append hbefore, takeWhile_ne_append hbefore]
  · rw [value, value, dropWhile_ne_append hbefore, dropWhile_ne_append hbefore,
      ← List.cons_append, List.flatMap_append]
    simp

/-- Before an equals sign, what follows belongs to the key. -/
theorem concat_of_notMem (h : FormToken.equals ∉ field) (token : FormToken) :
    key (field ++ [token]) = field.key ++ token.text ∧ value (field ++ [token]) = field.value := by
  have hall : ∀ t ∈ field, (t != FormToken.equals) = true := by
    intro t ht
    exact bne_iff_ne.mpr fun heq => h (heq ▸ ht)
  have hkey : field.takeWhile (· != .equals) = field := List.takeWhile_eq_self_iff.mpr hall
  have hvalue : field.dropWhile (· != .equals) = [] := List.dropWhile_eq_nil_iff.mpr hall
  rw [key, key, value, value, List.takeWhile_append_of_pos hall, List.dropWhile_append_of_pos hall,
    hkey, hvalue, List.flatMap_append]
  by_cases htoken : token = .equals
  · subst htoken
    exact ⟨by simp [FormToken.text], by simp [FormToken.text]⟩
  · exact ⟨by simp [htoken], by simp [htoken]⟩

theorem decide_mem_concat (htoken : token ≠ .equals) :
    decide (FormToken.equals ∈ field ++ [token]) = decide (FormToken.equals ∈ field) := by
  simp [Ne.symm htoken]

end FormField

namespace HttpConnection

open FormField

/-- Fields are stored one after another, up to the first that is not complete. -/
def storeFields (post : StringMap) : List FormField → HttpCode × StringMap
  | [] => (.kNoRequest, post)
  | field :: fields =>
    if field.Complete then storeFields (enter post field.entry) fields else (.kBadRequest, post)

theorem storeFields_cons_of_complete {field : FormField} (h : field.Complete) (post : StringMap)
    (fields : List FormField) :
    storeFields post (field :: fields) = storeFields (enter post field.entry) fields :=
  if_pos h

theorem storeFields_cons_of_not_complete {field : FormField} (h : ¬field.Complete)
    (post : StringMap) (fields : List FormField) :
    storeFields post (field :: fields) = (.kBadRequest, post) :=
  if_neg h

theorem storeFields_eq (post : StringMap) (fields : List FormField) :
    storeFields post fields =
      (if ∀ field ∈ fields, field.Complete then .kNoRequest else .kBadRequest,
        ((fields.takeWhile fun field => decide field.Complete).map FormField.entry).foldl enter
          post) := by
  induction fields generalizing post with
  | nil => rfl
  | cons field fields ih =>
    by_cases h : field.Complete
    · rw [storeFields_cons_of_complete h, ih]
      simp [h]
    · rw [storeFields_cons_of_not_complete h]
      simp [h]

/-- A byte of the text goes where the loop appends. -/
theorem parseFields_append (post : StringMap) (field : FormField) (token : FormToken) (rest : Bytes)
    (htoken : token ≠ .equals) :
    (if decide (FormToken.equals ∈ field) = true then
        parseFields post field.key (field.value ++ token.text) (decide (FormToken.equals ∈ field)) rest
      else
        parseFields post (field.key ++ token.text) field.value (decide (FormToken.equals ∈ field))
          rest) =
      parseFields post (key (field ++ [token])) (value (field ++ [token]))
        (decide (FormToken.equals ∈ field ++ [token])) rest := by
  rw [decide_mem_concat htoken]
  by_cases hmem : FormToken.equals ∈ field
  · obtain ⟨hkey, hvalue⟩ := concat_of_mem hmem token
    rw [if_pos (decide_eq_true hmem), hkey, hvalue]
  · obtain ⟨hkey, hvalue⟩ := concat_of_notMem hmem token
    rw [if_neg (by simpa using hmem), hkey, hvalue]

theorem complete_iff {field : FormField} (hcut : FormToken.cut ∉ field) :
    field.Complete ↔ ¬(field.key = [] ∨ field.value = []) := by
  rw [not_or]
  exact ⟨fun h => ⟨h.1, h.2.1⟩, fun h => ⟨h.1, h.2, hcut⟩⟩

/-- The loop stores the fields of the rest of the text, the first of which has begun with `field`. -/
theorem parseFields_eq_storeFields (post : StringMap) (field : FormField) (body : Bytes)
    (hampersand : FormToken.ampersand ∉ field) (hcut : FormToken.cut ∉ field) :
    parseFields post field.key field.value (decide (FormToken.equals ∈ field)) body =
      storeFields post ((field ++ formTokens body).splitOn .ampersand) := by
  fun_induction formTokens body generalizing post field with
  | case1 =>
    rw [List.append_nil, List.splitOn_eq_singleton hampersand, parseFields]
    by_cases h : field.key = [] ∨ field.value = []
    · rw [if_pos h, storeFields_cons_of_not_complete (mt (complete_iff hcut).mp (not_not.mpr h))]
    · rw [if_neg h, storeFields_cons_of_complete ((complete_iff hcut).mpr h)]
      rfl
  | case2 rest ih =>
    have hsame : key (field ++ [.equals]) = field.key ∧ value (field ++ [.equals]) = field.value := by
      by_cases hmem : FormToken.equals ∈ field
      · obtain ⟨hkey, hvalue⟩ := concat_of_mem hmem .equals
        exact ⟨hkey, hvalue.trans (List.append_nil _)⟩
      · obtain ⟨hkey, hvalue⟩ := concat_of_notMem hmem .equals
        exact ⟨hkey.trans (List.append_nil _), hvalue⟩
    have hrest := ih post (field ++ [.equals]) (by simp [hampersand]) (by simp [hcut])
    rw [hsame.1, hsame.2, decide_eq_true (by simp)] at hrest
    rw [parseFields, hrest, List.append_cons field .equals (formTokens rest)]
  | case3 rest ih =>
    rw [List.splitOn_append_cons_self_of_not_mem hampersand, parseFields]
    by_cases h : field.key = [] ∨ field.value = []
    · rw [if_pos h, storeFields_cons_of_not_complete (mt (complete_iff hcut).mp (not_not.mpr h))]
    · rw [if_neg h, storeFields_cons_of_complete ((complete_iff hcut).mpr h)]
      exact ih (enter post field.entry) [] List.not_mem_nil List.not_mem_nil
  | case4 rest ih =>
    have hrest := ih post (field ++ [.byte 32]) (by simp [hampersand]) (by simp [hcut])
    rw [parseFields, List.append_cons field, ← hrest]
    exact parseFields_append post field (.byte 32) rest (by simp)
  | case5 high low rest ih =>
    have hrest := ih post (field ++ [.escape high low]) (by simp [hampersand]) (by simp [hcut])
    rw [parseFields, List.append_cons field, ← hrest]
    exact parseFields_append post field (.escape high low) rest (by simp)
  | case6 rest hequals hampersand' hplus hescape =>
    have hsplit : (field ++ [FormToken.cut]).splitOn .ampersand = [field ++ [FormToken.cut]] :=
      List.splitOn_eq_singleton (by simp [hampersand])
    have hincomplete : ¬Complete (field ++ [FormToken.cut]) :=
      fun h => h.2.2 (List.mem_append_right _ (List.mem_singleton_self _))
    rw [hsplit, storeFields_cons_of_not_complete hincomplete, parseFields, if_pos rfl]
    · exact hequals
    · exact hampersand'
    · exact hplus
    · exact hescape
  | case7 b rest hequals hampersand' hplus hescape hpercent ih =>
    have hrest := ih post (field ++ [.byte b]) (by simp [hampersand]) (by simp [hcut])
    rw [List.append_cons field, ← hrest, parseFields, if_neg hpercent]
    · exact parseFields_append post field (.byte b) rest (by simp)
    · exact hequals
    · exact hampersand'
    · exact hplus
    · exact hescape

/-- What becomes of a form: its fields are stored up to the first that is not complete, and it is
refused if there is one. -/
theorem parseFields_eq (post : StringMap) (body : Bytes) :
    parseFields post [] [] false body =
      (if WellFormedForm body then .kNoRequest else .kBadRequest,
        (acceptedFields body).foldl enter post) :=
  (parseFields_eq_storeFields post [] body List.not_mem_nil List.not_mem_nil).trans
    (storeFields_eq post (formFields body))

/-! ### Forms that are refused -/

/-- `post` holds the last value of each key among the fields. -/
def Holds (post : StringMap) (fields : List (Bytes × Bytes)) : Prop :=
  ∀ key value, fields.reverse.lookup key = some value → post key = some value

/-- A form that is refused leaves `post_` as it was, exactly if there is nothing to be refused, or
the fields before the defect are all in `post_` already. -/
theorem refused_form_iff (c : HttpConnection) :
    (c.parseFromUrlEncode.1 = .kBadRequest → c.parseFromUrlEncode.2.post = c.post) ↔
      WellFormedForm c.body ∨ Holds c.post (acceptedFields c.body) := by
  have hret : c.parseFromUrlEncode.1 =
      if WellFormedForm c.body then .kNoRequest else .kBadRequest :=
    congrArg Prod.fst (parseFields_eq c.post c.body)
  have hpost : c.parseFromUrlEncode.2.post = (acceptedFields c.body).foldl enter c.post :=
    congrArg Prod.snd (parseFields_eq c.post c.body)
  rw [hret, hpost]
  by_cases h : WellFormedForm c.body
  · rw [if_pos h]
    exact ⟨fun _ => .inl h, fun _ hbad => by cases hbad⟩
  · rw [if_neg h, foldl_enter_eq_self_iff]
    exact ⟨fun hsame => .inr (hsame rfl), fun hholds _ => hholds.resolve_left h⟩

/-- A form whose last field has no value has stored the two before it, and a later login is checked
against them. -/
theorem refused_form_stored : ∃ c : HttpConnection, c.post = (fun _ => none) ∧
    c.parseFromUrlEncode.1 = .kBadRequest ∧ c.parseFromUrlEncode.2.post ≠ c.post ∧
    (checkLogin c.parseFromUrlEncode.2.post).1 = true := by
  have heval : (parseFields (fun _ => none) [] [] false
        (ofString "username=admin&password=123456&x")).1 = .kBadRequest ∧
      (parseFields (fun _ => none) [] [] false
        (ofString "username=admin&password=123456&x")).2 (ofString "username") =
          some (ofString "admin") ∧
      (checkLogin (parseFields (fun _ => none) [] [] false
        (ofString "username=admin&password=123456&x")).2).1 = true := by decide +kernel
  obtain ⟨hret, husername, hlogin⟩ := heval
  refine ⟨{ HttpConnection.new [] with body := ofString "username=admin&password=123456&x" }, rfl,
    hret, ?_, hlogin⟩
  intro hsame
  have hnone := congrFun hsame (ofString "username")
  cases husername.symm.trans hnone

end HttpConnection

end Mymuduo
