import Mymuduo.Http.ContentLength

/-! What a request can learn of the requests before it on the same connection.  `resetState` leaves
`post_` and `keepAlive_` alone.  Every response overwrites the second before it is read; the first
completes the form of a later login. -/

namespace Mymuduo

open Lib

namespace HttpConnection

variable {fs : FileSystem} {c c' d : HttpConnection} {q q' : Bytes} {n : Nat} {ret : HttpCode}

/-! ### States without what `resetState` leaves -/

/-- The state without the fields that `resetState` leaves alone. -/
def erase (c : HttpConnection) : HttpConnection :=
  { c with post := fun _ => none, keepAlive := false }

theorem parseRequestLine_erase (fs : FileSystem) (c : HttpConnection) (line : Bytes) :
    c.erase.parseRequestLine fs line =
      ((c.parseRequestLine fs line).1, (c.parseRequestLine fs line).2.erase) := by
  unfold parseRequestLine
  cases matchRequestLine line with
  | none => rfl
  | some groups =>
    obtain ⟨method, path, version⟩ := groups
    dsimp only [erase, file]
    split
    · rfl
    · split
      · rfl
      · split <;> rfl

theorem parseRequestHeader_erase (c : HttpConnection) (line : Bytes) :
    c.erase.parseRequestHeader line =
      (c.parseRequestHeader line).map fun r => (r.1, r.2.erase) := by
  unfold parseRequestHeader
  split
  · rw [show c.erase.header = c.header from rfl]
    split
    · rfl
    · rfl
    · split <;> rfl
  · split <;> rfl

/-- The body that is waited for is there. -/
def BodyThere (c : HttpConnection) (q : Bytes) : Prop :=
  c.parseState = .kBody ∧ ∃ m, c.remain = .ok m ∧ m.toNat ≤ q.length

/-- Except for a body, an iteration does not look at the fields erased. -/
theorem consume_erase (fs : FileSystem) (c : HttpConnection) (q : Bytes) :
    consume fs c.erase q =
        (consume fs c q).map (Option.map fun r => (r.1, r.2.1, r.2.2.erase)) ∨
      BodyThere c q := by
  unfold consume
  rw [show c.erase.parseState = c.parseState from rfl]
  cases hs : c.parseState with
  | kBody =>
    dsimp only
    rw [show c.erase.remain = c.remain from rfl]
    cases hremain : c.remain with
    | error e => exact .inl rfl
    | ok m =>
      rw [ok_bind, ok_bind]
      by_cases hwait : q.length < m.toNat
      · rw [if_pos hwait, if_pos hwait]
        exact .inl rfl
      · exact .inr ⟨hs, m, hremain, Nat.le_of_not_lt hwait⟩
  | kRequestLine =>
    dsimp only
    split
    · exact .inl rfl
    · rw [parseRequestLine_erase]
      exact .inl rfl
  | kHeader =>
    dsimp only
    split
    · exact .inl rfl
    · rw [parseRequestHeader_erase]
      cases c.parseRequestHeader _ <;> exact .inl rfl
  | kFinish => exact .inl rfl

theorem parse_erase (fs : FileSystem) (c : HttpConnection) (q : Bytes) :
    parse fs c.erase q = (parse fs c q).map (fun r => (r.1, r.2.1.erase, r.2.2)) ∨
      ∃ c' q', Visits fs c q c' q' ∧ BodyThere c' q' := by
  induction c, q using parse_induction fs with
  | finish c q hfinish =>
    rw [parse_finish hfinish, parse_finish (c := c.erase) hfinish]
    exact .inl rfl
  | fails c q e hfinish hconsume =>
    refine (consume_erase fs c q).imp ?_ fun hbody => ⟨c, q, .here c q, hbody⟩
    intro h
    rw [hconsume] at h
    rw [parse_error hfinish hconsume, parse_error (c := c.erase) hfinish h]
    rfl
  | waits c q hfinish hconsume =>
    refine (consume_erase fs c q).imp ?_ fun hbody => ⟨c, q, .here c q, hbody⟩
    intro h
    rw [hconsume] at h
    rw [parse_waits hfinish hconsume, parse_waits (c := c.erase) hfinish h]
    rfl
  | returns c q n ret c' hfinish hret hconsume =>
    refine (consume_erase fs c q).imp ?_ fun hbody => ⟨c, q, .here c q, hbody⟩
    intro h
    rw [hconsume] at h
    rw [parse_returns hfinish hconsume hret, parse_returns (c := c.erase) hfinish h hret]
    rfl
  | continues c q n c' hfinish hconsume ih =>
    rcases consume_erase fs c q with h | hbody
    · rw [hconsume] at h
      rw [parse_continues hfinish hconsume, parse_continues (c := c.erase) hfinish h]
      refine ih.imp id ?_
      rintro ⟨d, r, hvisit, hbody⟩
      exact ⟨d, r, .next hfinish hconsume hvisit, hbody⟩
    · exact .inr ⟨c, q, .here c q, hbody⟩

/-- An iteration that goes on has not taken a body, and leaves the body and `post_` alone. -/
theorem consume_continues_frame (hfinish : c.parseState ≠ .kFinish)
    (h : consume fs c q = .ok (some (n, .kNoRequest, c'))) :
    c'.body = c.body ∧ c'.post = c.post ∧ c'.keepAlive = c.keepAlive ∧
      c'.sourceDir = c.sourceDir ∧ ¬BodyThere c q := by
  cases consume_cases hfinish h with
  | requestLine hstate hcrlf hparse =>
    have hno : ¬BodyThere c q := fun hbody => by cases hstate.symm.trans hbody.1
    rcases parseRequestLine_cases fs c _ with
      ⟨-, hline⟩ | ⟨method, path, version, -, ret', stat, hline, -, -⟩
    · cases hparse.symm.trans hline
    · cases hparse.symm.trans hline
      exact ⟨rfl, rfl, rfl, rfl, hno⟩
  | header hstate hcrlf hparse =>
    have hno : ¬BodyThere c q := fun hbody => by cases hstate.symm.trans hbody.1
    rcases parseRequestHeader_cases hparse with
      ⟨-, -, hret, -⟩ | ⟨-, -, -, rfl⟩ | ⟨-, -, hret, -⟩ | ⟨-, key, value, -, -, rfl⟩
    · cases hret
    · exact ⟨rfl, rfl, rfl, rfl, hno⟩
    · cases hret
    · exact ⟨rfl, rfl, rfl, rfl, hno⟩
  | body hstate hremain henough hparse =>
    refine absurd rfl (parseRequestBody_ne_kNoRequest hremain ?_ hparse)
    rw [List.length_take]
    omega

/-- The states that a parse visits hold what it began with, and a parse of the state without the
erased fields visits the same states without them. -/
theorem Visits.erase (h : Visits fs c q c' q') :
    c'.body = c.body ∧ c'.post = c.post ∧ c'.sourceDir = c.sourceDir ∧
      Visits fs c.erase q c'.erase q' := by
  induction h with
  | here c q => exact ⟨rfl, rfl, rfl, .here _ _⟩
  | next hfinish hconsume hrest ih =>
    obtain ⟨hbody, hpost, -, hsource, hno⟩ := consume_continues_frame hfinish hconsume
    obtain ⟨hbody', hpost', hsource', hvisit⟩ := ih
    have hstep := (consume_erase fs _ _).resolve_right hno
    rw [hconsume] at hstep
    exact ⟨hbody'.trans hbody, hpost'.trans hpost, hsource'.trans hsource,
      .next hfinish hstep hvisit⟩

/-! ### Forms -/

/-- The fields of a form over those that were there before. -/
def overlay (fields before : StringMap) : StringMap := fun key => (fields key).or (before key)

theorem overlay_empty (fields : StringMap) : overlay fields (fun _ => none) = fields :=
  funext fun _ => Option.or_none

theorem update_overlay (fields before : StringMap) (key value : Bytes) :
    Function.update (overlay fields before) key (some value) =
      overlay (Function.update fields key (some value)) before := by
  funext k
  by_cases hk : k = key
  · subst hk
    rw [Function.update_self, overlay, Function.update_self, Option.some_or]
  · rw [Function.update_of_ne hk, overlay, overlay, Function.update_of_ne hk]

theorem parseFields_overlay (before fields : StringMap) (key value : Bytes) (inValue : Bool)
    (body : Bytes) :
    parseFields (overlay fields before) key value inValue body =
      ((parseFields fields key value inValue body).1,
        overlay (parseFields fields key value inValue body).2 before) := by
  fun_induction parseFields fields key value inValue body with
  | case1 fields key value inValue hempty => rw [parseFields, if_pos hempty]
  | case2 fields key value inValue hfull =>
    rw [parseFields, if_neg hfull, update_overlay]
  | case3 fields key value inValue rest ih => rw [parseFields, ih]
  | case4 fields key value inValue rest hempty => rw [parseFields, if_pos hempty]
  | case5 fields key value inValue rest hfull ih =>
    rw [parseFields, if_neg hfull, update_overlay, ih]
  | case6 fields key value rest ih => rw [parseFields, if_pos rfl, ih]
  | case7 fields key value inValue rest hkey ih => rw [parseFields, if_neg hkey, ih]
  | case8 fields key value high low rest decoded ih => rw [parseFields, if_pos rfl, ih]
  | case9 fields key value inValue high low rest decoded hkey ih =>
    rw [parseFields, if_neg hkey, ih]
  | case10 => simp_all [parseFields]
  | case11 => simp_all [parseFields]
  | case12 => simp_all [parseFields]

theorem empty_overlay (before : StringMap) : overlay (fun _ => none) before = before :=
  funext fun _ => Option.none_or

/-- What `parsePost` makes of the body alone. -/
def form (c : HttpConnection) (body : Bytes) : HttpCode × HttpConnection :=
  parsePost { c.erase with body := body }

/-- The form completes the fields that were there before. -/
theorem parsePost_overlay (c : HttpConnection) (body : Bytes) :
    parsePost { c with body := body } = ((c.form body).1,
      { (c.form body).2 with
        post := overlay (c.form body).2.post c.post
        keepAlive := c.keepAlive }) := by
  unfold form parsePost
  dsimp only [erase]
  split
  · rw [empty_overlay]
  · split
    · rw [empty_overlay]
    · split
      · have hfields := parseFields_overlay c.post (fun _ => none) [] [] false body
        rw [empty_overlay] at hfields
        unfold parseFromUrlEncode
        dsimp only
        rw [hfields]
      · rw [empty_overlay]

/-- The fields hold the credentials. -/
def Admits (fields : StringMap) : Prop :=
  fields (ofString "username") = some (ofString "admin") ∧
    fields (ofString "password") = some (ofString "123456")

instance (fields : StringMap) : Decidable (Admits fields) := inferInstanceAs (Decidable (_ ∧ _))

theorem index_eq_iff (m : StringMap) (key : Bytes) {value : Bytes} (h : value ≠ []) :
    (index m key).1 = value ↔ m key = some value := by
  unfold index
  split
  · rename_i found hfound
    rw [hfound, Option.some_inj]
  · rename_i hnone
    rw [hnone]
    simp [h.symm]

theorem checkLogin_iff (post : StringMap) : (checkLogin post).1 = true ↔ Admits post := by
  have hadmin : ofString "admin" ≠ [] := by decide +kernel
  have hpassword : ofString "123456" ≠ [] := by decide +kernel
  have husername := index_eq_iff post (ofString "username") hadmin
  unfold checkLogin
  dsimp only
  split
  · rename_i hequal
    have hfound := husername.mp hequal
    have hsame : (index post (ofString "username")).2 = post := by
      rw [index, hfound]
    rw [hsame, Admits, decide_eq_true_iff, index_eq_iff _ _ hpassword]
    exact ⟨fun h => ⟨hfound, h⟩, And.right⟩
  · rename_i hother
    simp only [Bool.false_eq_true, false_iff]
    exact fun h => hother (husername.mpr h.1)

theorem userPage_login (hregister : contains (ofString "register.html") c.path = false)
    (hlogin : contains (ofString "login.html") c.path = true) :
    c.userPage.path =
      if Admits c.post then ofString "/welcome.html" else ofString "/error.html" := by
  unfold userPage
  rw [hregister, hlogin, if_neg (by simp), if_pos rfl]
  dsimp only
  by_cases hadmits : Admits c.post
  · rw [if_pos ((checkLogin_iff _).mpr hadmits), if_pos hadmits]
  · rw [if_neg (mt (checkLogin_iff _).mp hadmits), if_neg hadmits]

/-- The page depends on the fields through the login check. -/
theorem userPage_congr (hpath : c.path = d.path)
    (hadmits : contains (ofString "register.html") c.path = false →
      contains (ofString "login.html") c.path = true → (Admits c.post ↔ Admits d.post)) :
    c.userPage.path = d.userPage.path := by
  cases hregister : contains (ofString "register.html") c.path with
  | true =>
    unfold userPage
    rw [← hpath, hregister, if_pos rfl, if_pos rfl]
  | false =>
    cases hlogin : contains (ofString "login.html") c.path with
    | true =>
      rw [userPage_login hregister hlogin, userPage_login (hpath ▸ hregister) (hpath ▸ hlogin)]
      simp only [hadmits hregister hlogin]
    | false =>
      unfold userPage
      rw [← hpath, hregister, hlogin]
      rfl

theorem userVerify_congr (fs : FileSystem) (herase : c.erase = d.erase) (hpage : c.userPage.path = d.userPage.path) :
    (c.userVerify fs).1 = (d.userVerify fs).1 ∧
      (c.userVerify fs).2.erase = (d.userVerify fs).2.erase := by
  have hpages : c.userPage.erase = d.userPage.erase := by
    have hpath := congrArg (fun e : HttpConnection => { e with path := d.userPage.path }) herase
    rw [c.userPage_frame, d.userPage_frame, hpage]
    exact hpath
  have hfile : c.userPage.erase.file fs = d.userPage.erase.file fs := by rw [hpages]
  change c.userPage.file fs = d.userPage.file fs at hfile
  unfold userVerify
  dsimp only
  rw [hfile]
  split
  · exact ⟨rfl, hpages⟩
  · rename_i f hf
    exact ⟨rfl, congrArg (fun e : HttpConnection => { e with requestFileStat := f.stat }) hpages⟩

theorem verify_congr (fs : FileSystem) (herase : c.erase = d.erase)
    (hpage : c.userPage.path = d.userPage.path) :
    (if (c.userVerify fs).1 ≠ .kNoRequest then Except.ok (c.userVerify fs)
      else (.ok (.kGetRequest, { (c.userVerify fs).2 with parseState := .kFinish }) :
        Except Fault (HttpCode × HttpConnection))).map (fun r => (r.1, r.2.erase)) =
    (if (d.userVerify fs).1 ≠ .kNoRequest then Except.ok (d.userVerify fs)
      else .ok (.kGetRequest, { (d.userVerify fs).2 with parseState := .kFinish })).map
        fun r => (r.1, r.2.erase) := by
  obtain ⟨hsame, herased⟩ := userVerify_congr fs herase hpage
  rw [hsame]
  split
  · simp only [Except.map, hsame, herased]
  · exact congrArg (fun d : HttpConnection =>
      Except.ok (HttpCode.kGetRequest, { d with parseState := .kFinish })) herased

/-! ### Bodies -/

/-- A form for the login check that has been read, with `line` as its text. -/
structure LoginThere (c : HttpConnection) (q line : Bytes) : Prop where
  state : c.parseState = .kBody
  method : c.method = ofString "POST"
  register : contains (ofString "register.html") c.path = false
  login : contains (ofString "login.html") c.path = true
  there : ∃ m, c.remain = .ok m ∧ m.toNat ≤ q.length ∧ line = q.take m.toNat
  form : (c.form line).1 = .kNoRequest

/-- The fields that were there before do not let a login in that the form alone would not. -/
def KeepsVerdict (c : HttpConnection) (line : Bytes) : Prop :=
  Admits (overlay (c.form line).2.post c.post) → Admits (c.form line).2.post

theorem admits_overlay {fields before : StringMap} (h : Admits fields) :
    Admits (overlay fields before) :=
  ⟨by rw [overlay, h.1, Option.some_or], by rw [overlay, h.2, Option.some_or]⟩

theorem form_path (c : HttpConnection) (line : Bytes) : (c.form line).2.path = c.path := by
  rw [form, parsePost_frame]
  rfl

/-- A body is judged without a look at the fields erased, unless they change a login. -/
theorem parseRequestBody_erase {line : Bytes} {m : UInt64} (fs : FileSystem) (hbody : c.body = [])
    (hm : c.bodyLength = .ok m) (hline : line.length = m.toNat)
    (hkeeps : c.method = ofString "POST" → contains (ofString "register.html") c.path = false →
      contains (ofString "login.html") c.path = true → (c.form line).1 = .kNoRequest →
      KeepsVerdict c line) :
    (c.erase.parseRequestBody fs line).map (fun r => (r.1, r.2.erase)) =
      (c.parseRequestBody fs line).map fun r => (r.1, r.2.erase) := by
  have hbody' : c.erase.body = [] := hbody
  have hm' : c.erase.bodyLength = .ok m := hm
  rw [parseRequestBody_complete hbody hm hline, parseRequestBody_complete hbody' hm' hline,
    parsePost_overlay c line, show parsePost { c.erase with body := line } = c.form line from rfl,
    show c.erase.method = c.method from rfl]
  by_cases hpost : c.method = ofString "POST"
  · rw [if_pos hpost, if_pos hpost]
    dsimp only
    by_cases hret : (c.form line).1 = .kNoRequest
    · rw [if_neg (not_not.mpr hret), if_neg (not_not.mpr hret)]
      refine verify_congr fs rfl (userPage_congr rfl ?_)
      intro hregister hlogin
      rw [form_path] at hregister hlogin
      exact ⟨admits_overlay, hkeeps hpost hregister hlogin hret⟩
    · rw [if_pos hret, if_pos hret]
      rfl
  · rw [if_neg hpost, if_neg hpost]
    rfl

theorem bodyLength_of_remain {m : UInt64} (hbody : c.body = []) (h : c.remain = .ok m) :
    (c.header (ofString "Content-Length")).isSome ∧ c.bodyLength = .ok m := by
  obtain ⟨u, hcheck, h⟩ := bind_eq_ok.mp h
  obtain ⟨m', hm', h⟩ := bind_eq_ok.mp h
  cases h
  refine ⟨check_eq_ok.mp hcheck, ?_⟩
  rw [hm', hbody]
  exact congrArg Except.ok (UInt64.sub_zero m').symm

theorem BodyThere.parse_erase (h : BodyThere c q) (fs : FileSystem) (hbody : c.body = [])
    (hkeeps : ∀ line, LoginThere c q line → KeepsVerdict c line) :
    (parse fs c.erase q).map (fun r => (r.1, r.2.1.erase, r.2.2)) =
      (parse fs c q).map fun r => (r.1, r.2.1.erase, r.2.2) := by
  obtain ⟨hstate, m, hremain, henough⟩ := h
  obtain ⟨hpresent, hm⟩ := bodyLength_of_remain hbody hremain
  have hparse := parse_body fs q hstate hbody hm hpresent
  have hparse' := parse_body fs (c := c.erase) q hstate hbody hm hpresent
  rw [if_neg (by omega)] at hparse hparse'
  obtain ⟨ret, d, hjudge, -, hparse⟩ := hparse
  obtain ⟨ret', d', hjudge', -, hparse'⟩ := hparse'
  have hline : (q.take m.toNat).length = m.toNat := by
    rw [List.length_take]
    omega
  have hsame := parseRequestBody_erase fs hbody hm hline fun hpost hregister hlogin hform =>
    hkeeps _ ⟨hstate, hpost, hregister, hlogin, ⟨m, hremain, henough, rfl⟩, hform⟩
  rw [hjudge, hjudge'] at hsame
  simp only [Except.map, Except.ok.injEq, Prod.mk.injEq] at hsame
  rw [hparse, hparse']
  simp only [Except.map, hsame]

theorem LoginThere.page {line : Bytes} (h : LoginThere c q line) (fs : FileSystem)
    (hbody : c.body = []) : ∃ ret d rest, parse fs c q = .ok (ret, d, rest) ∧ d.path =
      if Admits (overlay (c.form line).2.post c.post) then ofString "/welcome.html"
      else ofString "/error.html" := by
  obtain ⟨hstate, hpost, hregister, hlogin, ⟨m, hremain, henough, rfl⟩, hform⟩ := h
  obtain ⟨hpresent, hm⟩ := bodyLength_of_remain hbody hremain
  have hparse := parse_body fs q hstate hbody hm hpresent
  rw [if_neg (by omega)] at hparse
  obtain ⟨ret, d, hjudge, -, hparse⟩ := hparse
  refine ⟨ret, d, _, hparse, ?_⟩
  have hline : (q.take m.toNat).length = m.toNat := by
    rw [List.length_take]
    omega
  rw [parseRequestBody_complete hbody hm hline, if_pos hpost, parsePost_overlay] at hjudge
  dsimp only at hjudge
  rw [if_neg (not_not.mpr hform)] at hjudge
  have hpath := form_path c (q.take m.toNat)
  have hpage := userPage_login (c := { (c.form (q.take m.toNat)).2 with
      post := overlay (c.form (q.take m.toNat)).2.post c.post
      keepAlive := c.keepAlive }) (hpath ▸ hregister) (hpath ▸ hlogin)
  rw [← userVerify_path fs] at hpage
  split at hjudge
  · simp only [Except.ok.injEq] at hjudge
    rw [hjudge] at hpage
    exact hpage
  · cases hjudge
    exact hpage

end HttpConnection

namespace HttpConnection

variable {fs : FileSystem} {c d : HttpConnection} {q : Bytes}

/-! ### Responses -/

theorem initResponse_erase (fs : FileSystem) (c : HttpConnection) (ret : HttpCode) :
    c.erase.initResponse fs ret = (c.initResponse fs ret).map erase := by
  unfold initResponse
  dsimp only [erase, file]
  split
  · split <;> rfl
  · rfl

theorem makeResponse_erase (fs : FileSystem) (c : HttpConnection) (ret : HttpCode) :
    (c.erase.makeResponse fs ret).map (fun r => (r.2, r.1.keepAlive)) =
      (c.makeResponse fs ret).map fun r => (r.2, r.1.keepAlive) := by
  unfold makeResponse
  cases check .makeResponse (ret != .kNoRequest) with
  | error e => rfl
  | ok u =>
    rw [ok_bind, ok_bind, initResponse_erase]
    cases c.initResponse fs ret with
    | error e => rfl
    | ok d =>
      have hline : d.erase.makeResponseLine = d.makeResponseLine := rfl
      have hbody : ∀ keepAlive, makeResponseBody fs { d.erase with keepAlive := keepAlive } =
          d.makeResponseBody fs := fun _ => rfl
      have hbody' : ∀ keepAlive, makeResponseBody fs { d with keepAlive := keepAlive } =
          d.makeResponseBody fs := fun _ => rfl
      simp only [Except.map, ok_bind, hline]
      cases d.makeResponseLine with
      | error e => rfl
      | ok line =>
        simp only [ok_bind, makeResponseHeader, hbody, hbody']
        cases d.makeResponseBody fs <;> rfl

/-- Parses that agree but for the fields erased are answered alike. -/
theorem respond_congr (h : (parse fs c q).map (fun r => (r.1, r.2.1.erase, r.2.2)) =
      (parse fs d q).map fun r => (r.1, r.2.1.erase, r.2.2)) :
    (respond fs c q).map Prod.fst = (respond fs d q).map Prod.fst := by
  have hc : c.parseRequest fs q = parse fs c q := rfl
  have hd : d.parseRequest fs q = parse fs d q := rfl
  unfold respond
  rw [hc, hd]
  rcases map_eq_map h with ⟨e, hp, hp'⟩ | ⟨⟨ret, c', rest⟩, ⟨ret', d', rest'⟩, hp, hp', hsame⟩
  · rw [hp, hp']
  · obtain ⟨rfl, hsame⟩ := Prod.mk.inj hsame
    obtain ⟨herase, rfl⟩ := Prod.mk.inj hsame
    rw [hp, hp', ok_bind, ok_bind]
    dsimp only
    split
    · rfl
    · have hmake := (makeResponse_erase fs c' ret).symm.trans
        ((congrArg (fun e => (makeResponse fs e ret).map fun r => (r.2, r.1.keepAlive)) herase).trans
          (makeResponse_erase fs d' ret))
      rcases map_eq_map hmake with ⟨e, hm, hm'⟩ | ⟨⟨x, bytes⟩, ⟨x', bytes'⟩, hm, hm', hsame⟩
      · rw [hm, hm']
      · obtain ⟨rfl, hkeep⟩ := Prod.mk.inj hsame
        rw [hm, hm', ok_bind, ok_bind]
        dsimp only at hkeep ⊢
        rw [hkeep]
        split <;> rfl

end HttpConnection

namespace Exchange

open HttpConnection

variable {fs : FileSystem} {sourceDir : Bytes} {e e' f : Exchange} {chunk : Bytes}

/-! ### Conversations -/

/-- The conversation stands right after a `resetState`. -/
def AfterReset (fs : FileSystem) (sourceDir : Bytes) (e : Exchange) : Prop :=
  ∃ (e₀ : Exchange) (chunk : Bytes) (r : Reply), Reachable (deliver fs) (start sourceDir) e₀ ∧
    deliver fs e₀ chunk = .ok e ∧ e.replies = e₀.replies ++ [r] ∧ r.keepAlive = true

/-- After a `resetState` the state is the one of the constructor, without what is left alone. -/
theorem AfterReset.erase (h : AfterReset fs sourceDir e) : e.http.erase = .new sourceDir := by
  obtain ⟨e₀, chunk, r, hreach, hd, hreplies, hkeep⟩ := h
  have hsource : e.http.sourceDir = sourceDir := by
    obtain ⟨chunks, hrun⟩ := hreach
    refine reachable_sourceDir ⟨chunks ++ [chunk], run_append_ok.mpr ⟨e₀, hrun, ?_⟩⟩
    rw [run_singleton]
    exact hd
  obtain ⟨ret, c, rest, -, -, hend⟩ := deliver_cases hd
  rcases hend with ⟨-, -, hsame, -⟩ | ⟨-, d, bytes, -, hreplies', ⟨hasks, -, -⟩ | ⟨-, hhttp, -⟩⟩
  · rw [hsame] at hreplies
    simp at hreplies
  · rw [hreplies', List.append_cancel_left_eq] at hreplies
    cases hreplies
    rw [hasks] at hkeep
    cases hkeep
  · rw [hhttp] at hsource ⊢
    rw [← hsource]
    rfl

/-- Two conversations of which the second has forgotten what `resetState` leaves alone.  The first
has read nothing of a body. -/
structure Twin (e f : Exchange) : Prop where
  http : f.http = e.http.erase
  input : f.input = e.input
  body : e.http.body = []

/-- A delivery that is not answered keeps conversations twins. -/
theorem Twin.waits (h : Twin e f) (hd : deliver fs e chunk = .ok e')
    (hwait : e'.replies = e.replies) :
    ∃ f', deliver fs f chunk = .ok f' ∧ f'.replies = f.replies ∧ Twin e' f' := by
  obtain ⟨ret, c, rest, hparse, hinput, hend⟩ := deliver_cases hd
  rcases hend with ⟨rfl, hhttp, -, -⟩ | ⟨-, d, bytes, -, hreplies, -⟩
  · have hvisit := visits_of_waits hparse
    have hbody := hvisit.erase.1
    have herase : parse fs f.http (f.input ++ chunk) = .ok (.kNoRequest, c.erase, rest) := by
      rw [h.http, h.input]
      rcases parse_erase fs e.http (e.input ++ chunk) with heq | ⟨c', q', hvisit', hthere⟩
      · rw [heq, hparse]
        rfl
      · obtain ⟨hstate, m, hremain, henough⟩ := hthere
        have hbody' : c'.body = [] := hvisit'.erase.1.trans h.body
        obtain ⟨hpresent, hm⟩ := bodyLength_of_remain hbody' hremain
        have hend := parse_body fs q' hstate hbody' hm hpresent
        rw [if_neg (by omega)] at hend
        obtain ⟨ret, d, -, hret, hend⟩ := hend
        rw [hvisit'.parse_eq, hend] at hparse
        cases hparse
        exact absurd rfl hret
    refine ⟨_, deliver_waits herase, rfl, ?_⟩
    exact ⟨by rw [hhttp], hinput.symm, by rw [hhttp]; exact hbody.trans h.body⟩
  · rw [hreplies] at hwait
    simp at hwait

theorem deliver_replies (h : deliver fs e chunk = .ok e') : e.replies <+: e'.replies := by
  obtain ⟨ret, c, rest, -, -, hend⟩ := deliver_cases h
  rcases hend with ⟨-, -, hsame, -⟩ | ⟨-, d, bytes, -, hreplies, -⟩
  · rw [hsame]
  · rw [hreplies]
    exact List.prefix_append _ _

theorem Twin.run_waits {chunks : List Bytes} (h : Twin e f)
    (hrun : run (deliver fs) e chunks = .ok e') (hwait : e'.replies = e.replies) :
    ∃ f', run (deliver fs) f chunks = .ok f' ∧ f'.replies = f.replies ∧ Twin e' f' := by
  induction chunks generalizing e f with
  | nil =>
    cases hrun
    exact ⟨f, rfl, rfl, h⟩
  | cons chunk chunks ih =>
    obtain ⟨u, hu, hrun⟩ := run_cons_ok.mp hrun
    have hmore : u.replies <+: e'.replies :=
      run_invariant (I := fun v => u.replies <+: v.replies)
        (fun v a w hv hw => hv.trans (deliver_replies hw)) (List.prefix_refl _) hrun
    have hsame : u.replies = e.replies :=
      ((deliver_replies hu).eq_of_length_le (hwait ▸ hmore.length_le)).symm
    obtain ⟨g, hg, hgreplies, htwin⟩ := h.waits hu hsame
    obtain ⟨f', hf', hreplies, htwin'⟩ := ih htwin hrun (hwait.trans hsame.symm)
    exact ⟨f', run_cons_ok.mpr ⟨g, hg, hf'⟩, hreplies.trans hgreplies, htwin'⟩

/-- A delivery to two conversations leads to the same page, and is answered in the same way, with
the same decision to keep the connection. -/
structure Alike (fs : FileSystem) (e f : Exchange) (chunk : Bytes) : Prop where
  page : (parse fs e.http (e.input ++ chunk)).map (fun r => (r.1, r.2.1.path)) =
    (parse fs f.http (f.input ++ chunk)).map fun r => (r.1, r.2.1.path)
  reply : (respond fs e.http (e.input ++ chunk)).map Prod.fst =
    (respond fs f.http (f.input ++ chunk)).map Prod.fst

/-- Twins are answered alike exactly when the delivery holds no login that the fields left from
earlier requests decide. -/
theorem Twin.alike_iff (h : Twin e f) (chunk : Bytes) :
    Alike fs e f chunk ↔ ∀ c q line, Visits fs e.http (e.input ++ chunk) c q →
      LoginThere c q line → KeepsVerdict c line := by
  constructor
  · intro halike c q line hvisit hlogin hover
    obtain ⟨hbody, -, -, hvisit'⟩ := hvisit.erase
    have hnil : c.body = [] := hbody.trans h.body
    have hlogin' : LoginThere c.erase q line :=
      ⟨hlogin.state, hlogin.method, hlogin.register, hlogin.login, hlogin.there, hlogin.form⟩
    obtain ⟨ret, d, rest, hparse, hpath⟩ := hlogin.page fs hnil
    obtain ⟨ret', d', rest', hparse', hpath'⟩ := hlogin'.page fs hnil
    have hpage := halike.page
    rw [h.http, h.input, hvisit.parse_eq, hvisit'.parse_eq, hparse, hparse'] at hpage
    simp only [Except.map, Except.ok.injEq, Prod.mk.injEq] at hpage
    have hform : c.erase.form line = c.form line := rfl
    have hover' : overlay (c.form line).2.post c.erase.post = (c.form line).2.post := overlay_empty _
    rw [hform, hover'] at hpath'
    rw [hpath, hpath', if_pos hover] at hpage
    by_contra hno
    rw [if_neg hno] at hpage
    exact absurd hpage.2 (by decide +kernel)
  · intro hkeeps
    have hsame : (parse fs e.http (e.input ++ chunk)).map (fun r => (r.1, r.2.1.erase, r.2.2)) =
        (parse fs f.http (f.input ++ chunk)).map fun r => (r.1, r.2.1.erase, r.2.2) := by
      rw [h.http, h.input]
      rcases parse_erase fs e.http (e.input ++ chunk) with heq | ⟨c, q, hvisit, hthere⟩
      · rw [heq]
        cases parse fs e.http (e.input ++ chunk) <;> rfl
      · obtain ⟨hbody, -, -, hvisit'⟩ := hvisit.erase
        rw [hvisit.parse_eq, hvisit'.parse_eq]
        exact (hthere.parse_erase fs (hbody.trans h.body) fun line hlogin =>
          hkeeps c q line hvisit hlogin).symm
    refine ⟨?_, ?_⟩
    · rcases map_eq_map hsame with ⟨fault, hp, hp'⟩ | ⟨r, r', hp, hp', heq⟩
      · rw [hp, hp']
      · obtain ⟨hret, heq⟩ := Prod.mk.inj heq
        have herase : r.2.1.erase = r'.2.1.erase := (Prod.mk.inj heq).1
        have hpath : r.2.1.erase.path = r'.2.1.erase.path := by rw [herase]
        rw [hp, hp', Except.map, Except.map, hret]
        exact congrArg (fun path => Except.ok (r'.1, path)) hpath
    · rw [h.input] at hsame ⊢
      exact respond_congr hsame

/-- After any requests on the connection, ended by a `resetState`, however the next request is cut:
up to the delivery that is answered a new `HttpConnection` waits as well, and it answers alike
exactly when no field left from earlier forms decides a login. -/
theorem isolated_iff {e₁ : Exchange} {chunks : List Bytes} (hafter : AfterReset fs sourceDir e)
    (hrun : run (deliver fs) e chunks = .ok e₁) (hwait : e₁.replies = e.replies) (chunk : Bytes) :
    ∃ f, run (deliver fs) ⟨.new sourceDir, e.input, [], []⟩ chunks = .ok f ∧ f.replies = [] ∧
      (Alike fs e₁ f chunk ↔ ∀ c q line, Visits fs e₁.http (e₁.input ++ chunk) c q →
        LoginThere c q line → KeepsVerdict c line) := by
  have hnew := hafter.erase
  have hbody : e.http.body = [] := by
    rw [show e.http.body = e.http.erase.body from rfl, hnew]
    rfl
  have htwin : Twin e ⟨.new sourceDir, e.input, [], []⟩ := ⟨hnew.symm, rfl, hbody⟩
  obtain ⟨f, hf, hreplies, htwin'⟩ := htwin.run_waits hrun hwait
  exact ⟨f, hf, hreplies, htwin'.alike_iff chunk⟩

/-- A login with a form, on a connection that is to be kept. -/
def postLogin (body : String) : Bytes :=
  ofString "POST /login.html HTTP/1.1\r\nConnection: keep-alive\r\n" ++
    ofString "Content-Type: application/x-www-form-urlencoded\r\nContent-Length: " ++
    toDecimal body.length ++ kCRLF ++ kCRLF ++ ofString body

theorem isolated_get : ∃ e e₁ f : Exchange, AfterReset rootSite [] e ∧
    run (deliver rootSite) e [ofString "GET / HTTP/1.1"] = .ok e₁ ∧
    run (deliver rootSite) ⟨.new [], e.input, [], []⟩ [ofString "GET / HTTP/1.1"] = .ok f ∧
    Alike rootSite e₁ f (ofString "\r\n\r\n") := by
  have heval : (deliver rootSite (start []) (postLogin "username=admin&password=123456") >>=
      fun e => run (deliver rootSite) e [ofString "GET / HTTP/1.1"] >>= fun e₁ =>
        parse rootSite e₁.http (e₁.input ++ ofString "\r\n\r\n") >>= fun r =>
          .ok (e.replies.map Reply.keepAlive, decide (e₁.replies = e.replies), e₁.http.body,
            r.2.1.path)) =
      .ok ([true], true, [], ofString "/index.html") := by decide +kernel
  obtain ⟨e, he, heval⟩ := bind_eq_ok.mp heval
  obtain ⟨e₁, he₁, heval⟩ := bind_eq_ok.mp heval
  obtain ⟨⟨ret, d, rest⟩, hparse, heval⟩ := bind_eq_ok.mp heval
  simp only [Except.ok.injEq, Prod.mk.injEq, decide_eq_true_eq] at heval
  obtain ⟨hreplies, hwait, hbody, hpath⟩ := heval
  obtain ⟨r, hr, hkeep⟩ := List.map_eq_singleton_iff.mp hreplies
  have hafter : AfterReset rootSite [] e := ⟨_, _, r, .refl _, he, hr, hkeep⟩
  obtain ⟨f, hf, -, halike⟩ := isolated_iff hafter he₁ hwait (ofString "\r\n\r\n")
  refine ⟨e, e₁, f, hafter, he₁, hf, halike.mpr ?_⟩
  intro c q line hvisit hlogin
  -- A login would have led to another page.
  obtain ⟨ret', d', rest', hparse', hpage⟩ := hlogin.page rootSite (hvisit.erase.1.trans hbody)
  rw [hvisit.parse_eq, hparse'] at hparse
  cases hparse
  rw [hpath] at hpage
  split at hpage
  · exact absurd hpage (by decide +kernel)
  · exact absurd hpage (by decide +kernel)

/-- A form without credentials, after a login with them. -/
theorem login_by_leftover_fields : ∃ e f : Exchange,
    run (deliver rootSite) (start [])
      [postLogin "username=admin&password=123456", postLogin "a=b"] = .ok e ∧
    run (deliver rootSite) (start []) [postLogin "a=b"] = .ok f ∧
    e.replies.length = 2 ∧ f.replies.length = 1 ∧ e.replies.getLast? ≠ f.replies.getLast? := by
  have heval : (run (deliver rootSite) (start [])
      [postLogin "username=admin&password=123456", postLogin "a=b"] >>= fun e =>
        run (deliver rootSite) (start []) [postLogin "a=b"] >>= fun f =>
          .ok (e.replies.length, f.replies.length,
            decide (e.replies.getLast? = f.replies.getLast?))) = .ok (2, 1, false) := by
    decide +kernel
  obtain ⟨e, he, heval⟩ := bind_eq_ok.mp heval
  obtain ⟨f, hf, heval⟩ := bind_eq_ok.mp heval
  simp only [Except.ok.injEq, Prod.mk.injEq, decide_eq_false_iff_not] at heval
  exact ⟨e, f, he, hf, heval⟩

end Exchange

end Mymuduo
