import Mymuduo.Base.Decimal
import Mymuduo.Http.FormFields

/-! Forms as they are encoded.  `parseFromUrlEncode` puts the decimal digits of an escaped byte where
the byte itself belongs, so that it gives back the forms in which no byte is escaped. -/

namespace Mymuduo

open Lib

/-- A byte that stands for itself: a letter, a digit or one of `*-._`. -/
def IsPlain (b : UInt8) : Prop :=
  (48 ≤ b.toNat ∧ b.toNat ≤ 57) ∨ (65 ≤ b.toNat ∧ b.toNat ≤ 90) ∨ (97 ≤ b.toNat ∧ b.toNat ≤ 122) ∨
    b = 42 ∨ b = 45 ∨ b = 46 ∨ b = 95

instance (b : UInt8) : Decidable (IsPlain b) := by
  unfold IsPlain
  infer_instance

/-- The encodings of a byte in `application/x-www-form-urlencoded`.  The hexadecimal digits of an
escape may be in either case. -/
inductive EncodesByte : UInt8 → Bytes → Prop
  | plain {b : UInt8} (hb : IsPlain b) : EncodesByte b [b]
  | space : EncodesByte 32 [43]
  | escaped {b high low : UInt8} (hplain : ¬IsPlain b) (hspace : b ≠ 32)
      (hhigh : digitValue high = some (b.toNat / 16)) (hlow : digitValue low = some (b.toNat % 16)) :
      EncodesByte b [37, high, low]

/-- The encodings of a text, byte by byte. -/
inductive EncodesText : Bytes → Bytes → Prop
  | nil : EncodesText [] []
  | cons {b : UInt8} {text code more : Bytes} (hbyte : EncodesByte b code)
      (htext : EncodesText text more) : EncodesText (b :: text) (code ++ more)

/-- The encodings of a pair. -/
def EncodesPair (pair : Bytes × Bytes) (code : Bytes) : Prop :=
  ∃ key value, EncodesText pair.1 key ∧ EncodesText pair.2 value ∧ code = key ++ 61 :: value

/-- The encodings of a list of pairs. -/
def EncodesForm (pairs : List (Bytes × Bytes)) (body : Bytes) : Prop :=
  ∃ codes, List.Forall₂ EncodesPair pairs codes ∧ body = [38].intercalate codes

/-! ### Bytes -/

/-- What the parser makes of an encoded byte. -/
def decoded (b : UInt8) : Bytes := if IsPlain b ∨ b = 32 then [b] else toDecimal b.toNat

def decodedText (text : Bytes) : Bytes := text.flatMap decoded

theorem decoded_ne_nil (b : UInt8) : decoded b ≠ [] := by
  rw [decoded]
  split
  · simp
  · exact toDecimal_natCast_ne_nil _

theorem decodedText_ne_nil {text : Bytes} (h : text ≠ []) : decodedText text ≠ [] := by
  obtain ⟨b, text, rfl⟩ := List.exists_cons_of_ne_nil h
  rw [decodedText, List.flatMap_cons]
  exact List.append_ne_nil_of_left_ne_nil (decoded_ne_nil b) _

/-- Nothing that the parser makes of an encoded byte would have to be escaped. -/
theorem plain_of_mem_decoded {a b : UInt8} (h : a ∈ decoded b) : IsPlain a ∨ a = 32 := by
  rw [decoded] at h
  split at h
  · rename_i hb
    rw [List.mem_singleton.mp h]
    exact hb
  · exact .inl (.inl (isDigit_ten_iff.mp (digits_toDecimal _ a h)))

theorem decodedText_eq_self {text : Bytes} (h : ∀ b ∈ text, IsPlain b ∨ b = 32) :
    decodedText text = text := by
  induction text with
  | nil => rfl
  | cons b text ih =>
    rw [decodedText, List.flatMap_cons, decoded, if_pos (h b (List.mem_cons_self ..))]
    exact congrArg (b :: ·) (ih fun a ha => h a (List.mem_cons_of_mem _ ha))

/-- Two hexadecimal digits are read as the byte that they say. -/
theorem strtolHex_digits {b high low : UInt8} (hhigh : digitValue high = some (b.toNat / 16))
    (hlow : digitValue low = some (b.toNat % 16)) : strtolHex [high, low] = b.toNat := by
  have hb := b.toNat_lt
  have hsome : ∀ d ∈ [high, low], (digitValue d).isSome := by
    intro d hd
    rcases List.mem_pair.mp hd with rfl | rfl
    · rw [hhigh]
      rfl
    · rw [hlow]
      rfl
  obtain ⟨htext, hminus⟩ := unsignedText_of_digits (List.cons_ne_nil high [low]) hsome
  have hprefix : dropHexPrefix [high, low] = [high, low] := by
    unfold dropHexPrefix
    split
    · rename_i heq
      cases heq
      have hx : (33 : Nat) = b.toNat % 16 := Option.some.inj hlow
      omega
    · rename_i heq
      cases heq
      have hx : (33 : Nat) = b.toNat % 16 := Option.some.inj hlow
      omega
    · rfl
  have hdigits : [high, low].takeWhile (isDigit 16) = [high, low] := by
    rw [List.takeWhile_eq_self_iff]
    intro d hd
    rcases List.mem_pair.mp hd with rfl | rfl
    · simp [isDigit, hhigh]
      omega
    · simp [isDigit, hlow]
      omega
  have hnumber : ofDigits 16 [high, low] = b.toNat := by
    simp only [ofDigits, List.foldl_cons, List.foldl_nil, hhigh, hlow, Option.getD_some]
    omega
  have hsigned : signed [high, low] b.toNat = b.toNat := by rw [signed, hminus, if_neg (by simp)]
  rw [strtolHex, htext, hprefix, hdigits, hnumber, hsigned]
  omega

/-! ### Fields -/

/-- A piece that belongs to the text of a key or a value. -/
def FormToken.IsText (token : FormToken) : Prop :=
  token ≠ .equals ∧ token ≠ .ampersand ∧ token ≠ .cut

theorem formTokens_byte {b : UInt8} {code : Bytes} (h : EncodesByte b code) (rest : Bytes) :
    ∃ token : FormToken, formTokens (code ++ rest) = token :: formTokens rest ∧
      token.text = decoded b ∧ token.IsText := by
  cases h with
  | plain hb =>
    have hspecial : b ≠ 61 ∧ b ≠ 38 ∧ b ≠ 43 ∧ b ≠ 37 := by
      refine ⟨?_, ?_, ?_, ?_⟩
      all_goals
        rintro rfl
        exact absurd hb (by decide)
    obtain ⟨hequals, hampersand, hplus, hpercent⟩ := hspecial
    refine ⟨.byte b, ?_, ?_, by simp [FormToken.IsText]⟩
    · rw [List.singleton_append, formTokens, if_neg hpercent]
      · exact hequals
      · exact hampersand
      · exact hplus
      · exact fun high low more hb _ => hpercent hb
    · rw [decoded, if_pos (.inl hb)]
      rfl
  | space => exact ⟨.byte 32, rfl, rfl, by simp [FormToken.IsText]⟩
  | @escaped b high low hplain hspace hhigh hlow =>
    refine ⟨.escape high low, rfl, ?_, by simp [FormToken.IsText]⟩
    rw [FormToken.text, strtolHex_digits hhigh hlow, decoded, if_neg (not_or.mpr ⟨hplain, hspace⟩)]

theorem formTokens_text {text code : Bytes} (h : EncodesText text code) (rest : Bytes) :
    ∃ tokens : List FormToken, formTokens (code ++ rest) = tokens ++ formTokens rest ∧
      tokens.flatMap FormToken.text = decodedText text ∧ ∀ token ∈ tokens, token.IsText := by
  induction h with
  | nil => exact ⟨[], rfl, rfl, by simp⟩
  | @cons b text code more hbyte htext ih =>
    obtain ⟨token, htoken, hdecoded, htokenText⟩ := formTokens_byte hbyte (more ++ rest)
    obtain ⟨tokens, htokens, hmore, hall⟩ := ih
    refine ⟨token :: tokens, ?_, ?_, ?_⟩
    · rw [List.append_assoc, htoken, htokens, List.cons_append]
    · rw [List.flatMap_cons, hdecoded, hmore, decodedText, decodedText, List.flatMap_cons]
    · intro t ht
      rcases List.mem_cons.mp ht with rfl | ht
      · exact htokenText
      · exact hall t ht

/-- What the parser makes of an encoded pair. -/
def decodedPair (pair : Bytes × Bytes) : Bytes × Bytes := (decodedText pair.1, decodedText pair.2)

/-- No piece of the field ends it or the form. -/
def FormField.Unbroken (field : FormField) : Prop :=
  FormToken.ampersand ∉ field ∧ FormToken.cut ∉ field

theorem formTokens_pair {pair : Bytes × Bytes} {code : Bytes} (h : EncodesPair pair code)
    (rest : Bytes) :
    ∃ field : FormField, formTokens (code ++ rest) = field ++ formTokens rest ∧
      field.entry = decodedPair pair ∧ field.Unbroken := by
  obtain ⟨key, value, hkey, hvalue, rfl⟩ := h
  obtain ⟨keys, hkeys, hkeyText, hkeyAll⟩ := formTokens_text hkey (61 :: (value ++ rest))
  obtain ⟨values, hvalues, hvalueText, hvalueAll⟩ := formTokens_text hvalue rest
  have hequals : FormToken.equals ∉ keys := fun hmem => (hkeyAll _ hmem).1 rfl
  refine ⟨keys ++ .equals :: values, ?_, ?_, ?_, ?_⟩
  · rw [List.append_assoc, List.cons_append, hkeys, List.append_assoc, List.cons_append, ← hvalues]
    rfl
  · rw [FormField.entry, FormField.key, FormField.value, takeWhile_ne_append hequals,
      dropWhile_ne_append hequals, hkeyText, List.flatMap_cons, hvalueText]
    rfl
  · simp only [List.mem_append, List.mem_cons, reduceCtorEq, false_or, not_or]
    exact ⟨fun hmem => (hkeyAll _ hmem).2.1 rfl, fun hmem => (hvalueAll _ hmem).2.1 rfl⟩
  · simp only [List.mem_append, List.mem_cons, reduceCtorEq, false_or, not_or]
    exact ⟨fun hmem => (hkeyAll _ hmem).2.2 rfl, fun hmem => (hvalueAll _ hmem).2.2 rfl⟩

theorem formTokens_form {pairs : List (Bytes × Bytes)} {codes : List Bytes}
    (h : List.Forall₂ EncodesPair pairs codes) (hne : pairs ≠ []) :
    ∃ fields : List FormField, formTokens ([38].intercalate codes) =
        [FormToken.ampersand].intercalate fields ∧ fields ≠ [] ∧
      fields.map FormField.entry = pairs.map decodedPair ∧ ∀ field ∈ fields, field.Unbroken := by
  induction h with
  | nil => exact absurd rfl hne
  | @cons pair code pairs codes hpair hpairs ih =>
    cases hpairs with
    | nil =>
      obtain ⟨field, hfield, hentry, hunbroken⟩ := formTokens_pair hpair []
      rw [List.append_nil] at hfield
      refine ⟨[field], ?_, List.cons_ne_nil _ _, congrArg (fun entry => [entry]) hentry, ?_⟩
      · rw [List.intercalate_singleton, List.intercalate_singleton, hfield, formTokens,
          List.append_nil]
      · intro f hf
        rw [List.mem_singleton.mp hf]
        exact hunbroken
    | @cons pair' code' pairs codes hpair' hpairs =>
      obtain ⟨fields, hfields, hfieldsNe, hentries, hall⟩ := ih (List.cons_ne_nil _ _)
      obtain ⟨field, hfield, hentry, hunbroken⟩ :=
        formTokens_pair hpair (38 :: [38].intercalate (code' :: codes))
      refine ⟨field :: fields, ?_, List.cons_ne_nil _ _, ?_, ?_⟩
      · rw [List.intercalate_cons_cons, List.intercalate_cons_of_ne_nil hfieldsNe,
          List.append_assoc, List.singleton_append, hfield, ← hfields, List.append_assoc]
        rfl
      · rw [List.map_cons, List.map_cons, hentry, hentries]
      · intro f hf
        rcases List.mem_cons.mp hf with rfl | hf
        · exact hunbroken
        · exact hall f hf

/-- An encoded form is accepted, with the decoded pairs. -/
theorem accepted_form {pairs : List (Bytes × Bytes)} {body : Bytes} (hne : pairs ≠ [])
    (hfull : ∀ pair ∈ pairs, pair.1 ≠ [] ∧ pair.2 ≠ []) (hbody : EncodesForm pairs body) :
    WellFormedForm body ∧ acceptedFields body = pairs.map decodedPair := by
  obtain ⟨codes, hcodes, rfl⟩ := hbody
  obtain ⟨fields, htokens, hfieldsNe, hentries, hunbroken⟩ := formTokens_form hcodes hne
  have hsplit : formFields ([38].intercalate codes) = fields := by
    rw [formFields, htokens]
    exact List.splitOn_intercalate _ (fun field hfield => (hunbroken field hfield).1) hfieldsNe
  have hcomplete : ∀ field ∈ fields, field.Complete := by
    intro field hfield
    have hentry : field.entry ∈ pairs.map decodedPair := by
      rw [← hentries]
      exact List.mem_map.mpr ⟨field, hfield, rfl⟩
    obtain ⟨pair, hpair, hdecoded⟩ := List.mem_map.mp hentry
    obtain ⟨hkey, hvalue⟩ := Prod.mk.inj hdecoded
    obtain ⟨hkeyNe, hvalueNe⟩ := hfull pair hpair
    refine ⟨?_, ?_, (hunbroken field hfield).2⟩
    · rw [← hkey]
      exact decodedText_ne_nil hkeyNe
    · rw [← hvalue]
      exact decodedText_ne_nil hvalueNe
  have hall : fields.takeWhile (fun field => decide field.Complete) = fields :=
    List.takeWhile_eq_self_iff.mpr fun field hfield => decide_eq_true (hcomplete field hfield)
  refine ⟨?_, ?_⟩
  · rw [WellFormedForm, hsplit]
    exact hcomplete
  · rw [acceptedFields, hsplit, hall, hentries]

namespace HttpConnection

/-- The pairs of an encoded form are what `post_` holds at the end, exactly when no byte of them had
to be escaped. -/
theorem parseFromUrlEncode_decodes_iff {c : HttpConnection} {pairs : List (Bytes × Bytes)}
    (hne : pairs ≠ []) (hnodup : (pairs.map Prod.fst).Nodup)
    (hfull : ∀ pair ∈ pairs, pair.1 ≠ [] ∧ pair.2 ≠ []) (hbody : EncodesForm pairs c.body)
    (hpost : c.post = fun _ => none) :
    (c.parseFromUrlEncode.1 = .kNoRequest ∧
        ∀ key value, c.parseFromUrlEncode.2.post key = some value ↔ (key, value) ∈ pairs) ↔
      ∀ pair ∈ pairs, ∀ b, b ∈ pair.1 ∨ b ∈ pair.2 → IsPlain b ∨ b = 32 := by
  obtain ⟨hwell, haccepted⟩ := accepted_form hne hfull hbody
  have hform := parseFields_eq c.post c.body
  rw [if_pos hwell, haccepted, hpost] at hform
  have hret : c.parseFromUrlEncode.1 = .kNoRequest := by
    rw [parseFromUrlEncode, hpost, hform]
  have hstored : c.parseFromUrlEncode.2.post =
      (pairs.map decodedPair).foldl enter fun _ => none := by
    rw [parseFromUrlEncode, hpost, hform]
  rw [hstored]
  constructor
  · rintro ⟨-, hpairs⟩ ⟨key, value⟩ hpair b hb
    -- What is stored has been decoded, so that nothing of it would have to be escaped.
    have hmem := mem_of_foldl_enter ((hpairs key value).mpr hpair)
    obtain ⟨pair, -, hdecoded⟩ := List.mem_map.mp hmem
    obtain ⟨rfl, rfl⟩ := Prod.mk.inj hdecoded
    rcases hb with hb | hb
    · obtain ⟨a, -, ha⟩ := List.mem_flatMap.mp hb
      exact plain_of_mem_decoded ha
    · obtain ⟨a, -, ha⟩ := List.mem_flatMap.mp hb
      exact plain_of_mem_decoded ha
  · intro hplain
    refine ⟨hret, ?_⟩
    have hsame : pairs.map decodedPair = pairs := by
      refine (List.map_congr_left ?_).trans (List.map_id _)
      intro pair hpair
      exact Prod.ext (decodedText_eq_self fun b hb => hplain pair hpair b (.inl hb))
        (decodedText_eq_self fun b hb => hplain pair hpair b (.inr hb))
    intro key value
    rw [hsame, foldl_enter_eq_some hnodup]
    simp

/-- A parser that has read the body. -/
def withBody (body : Bytes) : HttpConnection := { HttpConnection.new [] with body := body }

/-- A pair with a blank. -/
theorem parseFromUrlEncode_decodes_blank :
    (withBody (ofString "a=b+c")).parseFromUrlEncode.1 = .kNoRequest ∧
    ∀ key value, (withBody (ofString "a=b+c")).parseFromUrlEncode.2.post key = some value ↔
      (key, value) ∈ [(ofString "a", ofString "b c")] := by
  have hbody : EncodesForm [(ofString "a", ofString "b c")] (ofString "a=b+c") := by
    refine ⟨[ofString "a=b+c"], .cons ⟨ofString "a", ofString "b+c", ?_, ?_, rfl⟩ .nil, rfl⟩
    · exact .cons (.plain (by decide)) .nil
    · exact .cons (.plain (by decide)) (.cons .space (.cons (.plain (by decide)) .nil))
  have hplain : ∀ b ∈ ofString "a" ++ ofString "b c", IsPlain b ∨ b = 32 := by decide +kernel
  refine (parseFromUrlEncode_decodes_iff (List.cons_ne_nil _ _) (by decide +kernel)
    (by decide +kernel) hbody rfl).mpr ?_
  intro pair hpair b hb
  rw [List.mem_singleton.mp hpair] at hb
  exact hplain b (List.mem_append.mpr hb)

/-- An ampersand that was escaped is not given back. -/
theorem escaped_byte_lost : EncodesForm [(ofString "a", ofString "&")] (ofString "a=%26") ∧
    (withBody (ofString "a=%26")).post = (fun _ => none) ∧
    (withBody (ofString "a=%26")).parseFromUrlEncode.2.post (ofString "a") =
      some (ofString "38") ∧
    ¬∀ key value, (withBody (ofString "a=%26")).parseFromUrlEncode.2.post key = some value ↔
      (key, value) ∈ [(ofString "a", ofString "&")] := by
  have hstored : (withBody (ofString "a=%26")).parseFromUrlEncode.2.post (ofString "a") =
      some (ofString "38") := by decide +kernel
  refine ⟨⟨[ofString "a=%26"], .cons ⟨ofString "a", ofString "%26", ?_, ?_, rfl⟩ .nil, rfl⟩, rfl,
    hstored, ?_⟩
  · exact .cons (.plain (by decide)) .nil
  · exact .cons (.escaped (by decide) (by decide) (by decide) (by decide)) .nil
  · intro hpairs
    exact absurd ((hpairs _ _).mp hstored) (by decide +kernel)

end HttpConnection

end Mymuduo
