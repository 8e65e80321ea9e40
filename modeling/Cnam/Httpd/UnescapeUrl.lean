/-
  Escaped paths (`unescape_url` and the escapes of `util.c`), and the path that a request comes
  down to (`ap_process_request_internal`). A C string is its bytes before the zero.
-/
import Cnam.Httpd.Getparents

namespace Httpd

namespace UnescapeUrl

open Getparents

/-- A percent sign. -/
abbrev PERCENT : UInt8 := 37
/-- A plus sign. -/
abbrev PLUS : UInt8 := 43
/-- A colon. -/
abbrev COLON : UInt8 := 58

/-- The path is fine. -/
abbrev OK : ℕ := 0
/-- There is a broken escape. -/
abbrev HTTP_BAD_REQUEST : ℕ := 400
/-- There is an escape that is forbidden. -/
abbrev HTTP_NOT_FOUND : ℕ := 404

/-! ## Unescaping -/

/-- The value of a hexadecimal digit. -/
def x2cDigit (c : UInt8) : UInt8 := if 65 ≤ c then (c &&& 0xdf) - 65 + 10 else c - 48

/-- `x2c`. -/
def x2c (a b : UInt8) : UInt8 := x2cDigit a * 16 + x2cDigit b

/-- What `unescape_url` has written, with its two flags. -/
structure Unescaped where
  url : Bytes
  badesc : Bool
  badpath : Bool
  deriving DecidableEq

/-- Another character of the result. -/
def Unescaped.put (c : UInt8) (r : Unescaped) : Unescaped := { r with url := c :: r.url }

/-- The status of what was unescaped. -/
def Unescaped.status (r : Unescaped) : ℕ :=
  if r.badesc then HTTP_BAD_REQUEST else if r.badpath then HTTP_NOT_FOUND else OK

/-- The loop of `unescape_url`; no set is an empty one. -/
def unescape (forbid reserved : Bytes) : Bytes → Unescaped
  | [] => ⟨[], false, false⟩
  | [c] => ⟨[c], c == PERCENT, false⟩
  | [c, d] => ⟨[c, d], c == PERCENT || d == PERCENT, false⟩
  | c :: a :: b :: rest =>
    if c ≠ PERCENT then (unescape forbid reserved (a :: b :: rest)).put c
    else if isxdigit a && isxdigit b then
      let r := unescape forbid reserved rest
      let decoded := x2c a b
      if decoded = 0 ∨ decoded ∈ forbid then { r.put decoded with badpath := true }
      else if decoded ∈ reserved then ((r.put b).put a).put PERCENT
      else r.put decoded
    else { (unescape forbid reserved (a :: b :: rest)).put c with badesc := true }

/-- `unescape_url`. -/
def unescapeUrl (url forbid reserved : Bytes) : Bytes × ℕ :=
  ((unescape forbid reserved url).url, (unescape forbid reserved url).status)

/-- `ap_unescape_url`: no slash may be escaped. -/
def apUnescapeUrl (url : Bytes) : Bytes × ℕ := unescapeUrl url [SLASH] []

/-- `ap_unescape_url_keep2f`. -/
def apUnescapeUrlKeep2f (url : Bytes) (decodeSlashes : Bool) : Bytes × ℕ :=
  if decodeSlashes then unescapeUrl url [] [] else unescapeUrl url [] [SLASH]

/-- `ap_unescape_urlencoded`. -/
def apUnescapeUrlencoded (query : Bytes) : Bytes × ℕ :=
  unescapeUrl (query.map fun c => if c = PLUS then SP else c) [] []

/-- `ap_unescape_all`. -/
def apUnescapeAll (url : Bytes) : Bytes × ℕ := unescapeUrl url [] []

/-! ## Escaping -/

/-- A hexadecimal digit. -/
def c2xDigit (n : UInt8) : UInt8 := if n < 10 then 48 + n else 87 + n

/-- `c2x`. -/
def c2x (what marker : UInt8) : Bytes := [marker, c2xDigit (what >>> 4), c2xDigit (what &&& 0xf)]

/-- `apr_isalnum`. -/
def isalnum (c : UInt8) : Bool := isdigit c || 65 ≤ c && c ≤ 90 || 97 ≤ c && c ≤ 122

/-- `strchr`, which also finds the end of the string. -/
def strchr (s : Bytes) (c : UInt8) : Bool := c == 0 || s.contains c

/-- All but letters, digits and `$-_.+!*'(),:@&=~`. -/
def tEscapePathSegment (c : UInt8) : Bool :=
  !isalnum c && !strchr [36, 45, 95, 46, 43, 33, 42, 39, 40, 41, 44, 58, 64, 38, 61, 126] c

/-- All but letters, digits and `$-_.+!*'(),:;@&=/~`. -/
def tOsEscapePath (c : UInt8) : Bool :=
  !isalnum c && !strchr [36, 45, 95, 46, 43, 33, 42, 39, 40, 41, 44, 58, 59, 64, 38, 61, 47, 126] c

/-- All but letters, digits, `.-*_` and the space. -/
def tEscapeUrlencoded (c : UInt8) : Bool := !isalnum c && !strchr [46, 45, 42, 95, 32] c

/-- The loop of the escapes. -/
def escape (test : UInt8 → Bool) (s : Bytes) : Bytes :=
  s.flatMap fun c => if test c then c2x c PERCENT else [c]

/-- `ap_escape_path_segment`. -/
def apEscapePathSegment (segment : Bytes) : Bytes := escape tEscapePathSegment segment

/-- There is a colon, and no slash before it. -/
def colonFirst (path : Bytes) : Bool :=
  match path.findIdx? (· == COLON), path.findIdx? (· == SLASH) with
  | none, _ => false
  | some _, none => true
  | some colon, some slash => colon < slash

/-- `ap_os_escape_path`. -/
def apOsEscapePath (path : Bytes) (isPartial : Bool) : Bytes :=
  (if !isPartial && colonFirst path then [DOT, SLASH] else []) ++ escape tOsEscapePath path

/-- `ap_escape_urlencoded`. -/
def apEscapeUrlencoded (buffer : Bytes) : Bytes :=
  buffer.flatMap fun c =>
    if tEscapeUrlencoded c then c2x c PERCENT else if c = SP then [PLUS] else [c]

/-! ## The path of a request -/

/-- The first steps of `ap_process_request_internal`: the path, or the status of the answer. The
    path of a request for a proxy is not decoded. -/
def requestUri (proxyreq allowEncodedSlashes decodeEncodedSlashes : Bool) (path : Bytes) :
    Except ℕ Bytes :=
  let (path, status) :=
    if proxyreq then (path, OK)
    else if allowEncodedSlashes then apUnescapeUrlKeep2f path decodeEncodedSlashes
    else apUnescapeUrl path
  if status ≠ OK then .error status else .ok (apGetparents path)

/-- No segment of the path is `.` or `..`. -/
def NoDots (uri : Bytes) : Prop :=
  ∃ front last, uri = whole front last ∧
    ∀ seg ∈ last :: front, SLASH ∉ seg ∧ seg ≠ [DOT] ∧ seg ≠ [DOT, DOT]

/-- The path is what its segments come down to, each of them decoded on its own. -/
def BySegments (forbid reserved path uri : Bytes) : Prop :=
  ∃ front last, path = whole front last ∧
    (∀ seg ∈ last :: front, SLASH ∉ seg ∧ (unescapeUrl seg forbid reserved).2 = OK ∧
      SLASH ∉ (unescapeUrl seg forbid reserved).1) ∧
    uri = whole
      (resolve (front.map fun seg => (unescapeUrl seg forbid reserved).1)
        (unescapeUrl last forbid reserved).1).1
      (resolve (front.map fun seg => (unescapeUrl seg forbid reserved).1)
        (unescapeUrl last forbid reserved).1).2

/-! ## One character, or one escape -/

variable {forbid reserved rest seg last : Bytes} {front : List Bytes} {c a b : UInt8}

@[simp] theorem put_url (r : Unescaped) : (r.put c).url = c :: r.url := rfl

@[simp] theorem put_badesc (r : Unescaped) : (r.put c).badesc = r.badesc := rfl

@[simp] theorem put_badpath (r : Unescaped) : (r.put c).badpath = r.badpath := rfl

theorem unescape_plain (hc : c ≠ PERCENT) (rest : Bytes) :
    unescape forbid reserved (c :: rest) = (unescape forbid reserved rest).put c := by
  match rest with
  | [] => simp [unescape, Unescaped.put, hc]
  | [d] => simp [unescape, Unescaped.put, hc]
  | a :: b :: rest => rw [unescape, if_pos hc]

/-- `%` that does not start an escape. -/
theorem unescape_stray (h : ∀ a b rest', rest = a :: b :: rest' → ¬ (isxdigit a && isxdigit b)) :
    unescape forbid reserved (PERCENT :: rest) =
      { (unescape forbid reserved rest).put PERCENT with badesc := true } := by
  match rest with
  | [] => rfl
  | [d] => simp [unescape, Unescaped.put]
  | a :: b :: rest =>
    rw [unescape, if_neg (by simp), if_neg]
    exact h a b rest rfl

/-- What an escape comes to. -/
def code (forbid reserved : Bytes) (a b : UInt8) (r : Unescaped) : Unescaped :=
  let decoded := x2c a b
  if decoded = 0 ∨ decoded ∈ forbid then { r.put decoded with badpath := true }
  else if decoded ∈ reserved then ((r.put b).put a).put PERCENT
  else r.put decoded

theorem unescape_code (h : (isxdigit a && isxdigit b) = true) (rest : Bytes) :
    unescape forbid reserved (PERCENT :: a :: b :: rest) =
      code forbid reserved a b (unescape forbid reserved rest) := by
  rw [unescape, if_neg (by simp), if_pos h]
  rfl

/-- An induction that follows the loop. -/
theorem unescape_induction {P : Bytes → Prop} (nil : P [])
    (plain : ∀ c rest, c ≠ PERCENT → P rest → P (c :: rest))
    (code : ∀ a b rest, (isxdigit a && isxdigit b) = true → P rest → P (PERCENT :: a :: b :: rest))
    (stray : ∀ rest, (∀ a b rest', rest = a :: b :: rest' → ¬ (isxdigit a && isxdigit b)) →
      P rest → P (PERCENT :: rest)) (s : Bytes) : P s := by
  induction hlength : s.length using Nat.strong_induction_on generalizing s with
  | _ n ih =>
    cases s with
    | nil => exact nil
    | cons c rest =>
      rw [List.length_cons] at hlength
      have hrest := ih rest.length (by omega) rest rfl
      by_cases hc : c = PERCENT
      · rw [hc]
        by_cases hcode : ∃ a b rest', rest = a :: b :: rest' ∧ (isxdigit a && isxdigit b) = true
        · obtain ⟨a, b, rest', rfl, hdigits⟩ := hcode
          rw [List.length_cons, List.length_cons] at hlength
          exact code a b rest' hdigits (ih rest'.length (by omega) rest' rfl)
        · refine stray rest ?_ hrest
          intro a b rest' heq hdigits
          exact hcode ⟨a, b, rest', heq, hdigits⟩
      · exact plain c rest hc hrest

/-! ## What is escaped is read back -/

theorem x2c_c2x (c : UInt8) : (isxdigit (c2xDigit (c >>> 4)) && isxdigit (c2xDigit (c &&& 0xf))) ∧
    x2c (c2xDigit (c >>> 4)) (c2xDigit (c &&& 0xf)) = c :=
  forall_byte (P := fun c => (isxdigit (c2xDigit (c >>> 4)) && isxdigit (c2xDigit (c &&& 0xf))) ∧
    x2c (c2xDigit (c >>> 4)) (c2xDigit (c &&& 0xf)) = c) (by decide +kernel) c

theorem unescape_c2x (hc : c ≠ 0) (hforbid : c ∉ forbid) (rest : Bytes) :
    unescape forbid [] (c2x c PERCENT ++ rest) = (unescape forbid [] rest).put c := by
  obtain ⟨hdigits, hvalue⟩ := x2c_c2x c
  have hcode : code forbid [] (c2xDigit (c >>> 4)) (c2xDigit (c &&& 0xf))
      (unescape forbid [] rest) = (unescape forbid [] rest).put c := by
    rw [code, hvalue, if_neg (by tauto), if_neg List.not_mem_nil]
  exact (unescape_code hdigits rest).trans hcode

/-- A set of characters to escape that is large enough for the reader: `%` is escaped, and nothing
    that the reader refuses is. -/
theorem unescape_escape {test : UInt8 → Bool} (hpercent : test PERCENT = true) {s : Bytes}
    (hzero : 0 ∉ s) (hforbid : ∀ c ∈ s, test c = true → c ∉ forbid) :
    unescape forbid [] (escape test s) = ⟨s, false, false⟩ := by
  induction s with
  | nil => rfl
  | cons c s ih =>
    have hrest := ih (List.not_mem_of_not_mem_cons hzero)
      (fun c' h => hforbid c' (List.mem_cons_of_mem c h))
    have hc : c ≠ 0 := (List.ne_of_not_mem_cons hzero).symm
    rw [escape, List.flatMap_cons]
    split_ifs with htest
    · rw [unescape_c2x hc (hforbid c List.mem_cons_self htest)]
      exact congrArg (Unescaped.put c) hrest
    · have hne : c ≠ PERCENT := by
        rintro rfl
        exact htest hpercent
      rw [List.singleton_append, unescape_plain hne]
      exact congrArg (Unescaped.put c) hrest

theorem unescapeUrl_escape {test : UInt8 → Bool} (hpercent : test PERCENT = true) {s : Bytes}
    (hzero : 0 ∉ s) (hforbid : ∀ c ∈ s, test c = true → c ∉ forbid) :
    unescapeUrl (escape test s) forbid [] = (s, OK) := by
  rw [unescapeUrl, unescape_escape hpercent hzero hforbid]
  rfl

theorem tOsEscapePath_slash (h : tOsEscapePath c = true) : c ∉ [SLASH] := by
  rw [List.mem_singleton]
  rintro rfl
  cases h

/-- The plus signs that stand for spaces are no others. -/
theorem map_plus (s : Bytes) (hzero : 0 ∉ s) :
    ((apEscapeUrlencoded s).map fun c => if c = PLUS then SP else c) =
      escape tEscapeUrlencoded s := by
  have hbyte : ∀ c, c ≠ 0 →
      ((if tEscapeUrlencoded c then c2x c PERCENT else if c = SP then [PLUS] else [c]).map
        fun c => if c = PLUS then SP else c) = if tEscapeUrlencoded c then c2x c PERCENT else [c] :=
    forall_byte (P := fun c => c ≠ 0 →
      ((if tEscapeUrlencoded c then c2x c PERCENT else if c = SP then [PLUS] else [c]).map
        fun c => if c = PLUS then SP else c) = if tEscapeUrlencoded c then c2x c PERCENT else [c])
      (by decide +kernel)
  rw [apEscapeUrlencoded, List.map_flatMap, escape]
  refine List.flatMap_congr ?_
  intro c hc
  refine hbyte c ?_
  rintro rfl
  exact hzero hc

/-- **What the server escapes it reads back**: a path that `ap_os_escape_path` has escaped, with
    `./` before it where a colon would else look like the end of a scheme; a segment, unless it has
    slashes and these are forbidden; and a form. -/
theorem escaped_read_back (path : Bytes) (hzero : 0 ∉ path) :
    apUnescapeUrl (apOsEscapePath path true) = (path, OK) ∧
      apUnescapeUrl (apOsEscapePath path false) =
        ((if colonFirst path then DOT :: SLASH :: path else path), OK) ∧
      apUnescapeAll (apEscapePathSegment path) = (path, OK) ∧
      (SLASH ∉ path → apUnescapeUrl (apEscapePathSegment path) = (path, OK)) ∧
      apUnescapeUrlencoded (apEscapeUrlencoded path) = (path, OK) := by
  have hpath : unescape [SLASH] [] (escape tOsEscapePath path) = ⟨path, false, false⟩ :=
    unescape_escape rfl hzero fun c _ h => tOsEscapePath_slash h
  refine ⟨?_, ?_, ?_, ?_, ?_⟩
  · rw [apUnescapeUrl, apOsEscapePath, unescapeUrl]
    simp only [Bool.not_true, Bool.false_and, Bool.false_eq_true, if_false, List.nil_append, hpath]
    rfl
  · rw [apUnescapeUrl, apOsEscapePath, unescapeUrl]
    by_cases hcolon : colonFirst path = true
    · simp only [hcolon, Bool.not_false, Bool.true_and, if_true, List.cons_append, List.nil_append]
      rw [unescape_plain (by decide), unescape_plain (by decide), hpath]
      rfl
    · simp only [hcolon, Bool.and_false, Bool.false_eq_true, if_false, List.nil_append, hpath]
      rfl
  · exact unescapeUrl_escape rfl hzero fun _ _ _ => List.not_mem_nil
  · intro hslash
    refine unescapeUrl_escape rfl hzero ?_
    rintro c hc - hforbid
    rw [List.mem_singleton.1 hforbid] at hc
    exact hslash hc
  · rw [apUnescapeUrlencoded, map_plus path hzero]
    exact unescapeUrl_escape rfl hzero fun _ _ _ => List.not_mem_nil

theorem escaped_read_back_percent :
    (0 : UInt8) ∉ [SLASH, PERCENT, 255] ∧
      apUnescapeUrl (apOsEscapePath [SLASH, PERCENT, 255] true) = ([SLASH, PERCENT, 255], OK) :=
  ⟨by decide, (escaped_read_back [SLASH, PERCENT, 255] (by decide)).1⟩

/-! ## Segments are decoded on their own -/

/-- One after the other. -/
def Unescaped.append (r r' : Unescaped) : Unescaped :=
  ⟨r.url ++ r'.url, r.badesc || r'.badesc, r.badpath || r'.badpath⟩

theorem put_append (r r' : Unescaped) : (r.append r').put c = (r.put c).append r' := rfl

theorem code_append (r r' : Unescaped) :
    code forbid reserved a b (r.append r') = (code forbid reserved a b r).append r' := by
  rw [code, code]
  split_ifs
  · rfl
  · rfl
  · rfl

/-- An escape does not reach over a slash. -/
theorem unescape_segment (rest : Bytes) (hseg : SLASH ∉ seg) :
    unescape forbid reserved (seg ++ SLASH :: rest) =
      (unescape forbid reserved seg).append ((unescape forbid reserved rest).put SLASH) := by
  induction seg using unescape_induction with
  | nil =>
    rw [List.nil_append, unescape_plain (by decide)]
    simp [unescape, Unescaped.append, Unescaped.put]
  | plain c seg hc ih =>
    rw [List.cons_append, unescape_plain hc, unescape_plain hc,
      ih (List.not_mem_of_not_mem_cons hseg), put_append]
  | code a b seg hdigits ih =>
    have hseg' : SLASH ∉ seg := by
      intro h
      exact hseg (by simp [h])
    rw [List.cons_append, List.cons_append, List.cons_append, unescape_code hdigits,
      unescape_code hdigits, ih hseg', code_append]
  | stray seg hstray ih =>
    rw [List.cons_append, unescape_stray, unescape_stray hstray,
      ih (List.not_mem_of_not_mem_cons hseg)]
    · rfl
    · intro a b rest' heq hdigits
      match seg with
      | [] =>
        obtain ⟨rfl, -⟩ := List.cons.inj heq
        cases hdigits
      | [d] =>
        obtain ⟨-, heq⟩ := List.cons.inj heq
        obtain ⟨rfl, -⟩ := List.cons.inj heq
        rw [Bool.and_eq_true] at hdigits
        cases hdigits.2
      | d :: e :: seg =>
        simp only [List.cons_append, List.cons.injEq] at heq
        rw [← heq.1, ← heq.2.1] at hdigits
        exact hstray d e seg rfl hdigits

theorem status_ok (r : Unescaped) : r.status = OK ↔ r.badesc = false ∧ r.badpath = false := by
  obtain ⟨url, badesc, badpath⟩ := r
  cases badesc <;> cases badpath <;> simp [Unescaped.status]

theorem unescape_whole (hfront : ∀ seg ∈ front, SLASH ∉ seg) (last : Bytes) :
    (unescape forbid reserved (whole front last)).url =
        whole (front.map fun seg => (unescape forbid reserved seg).url)
          (unescape forbid reserved last).url ∧
      ((unescape forbid reserved (whole front last)).status = OK ↔
        ∀ seg ∈ last :: front, (unescape forbid reserved seg).status = OK) := by
  induction front with
  | nil => exact ⟨rfl, by simp [whole]⟩
  | cons seg front ih =>
    obtain ⟨hurl, hstatus⟩ := ih fun seg' h => hfront seg' (List.mem_cons_of_mem seg h)
    rw [whole_cons, unescape_segment _ (hfront seg List.mem_cons_self)]
    constructor
    · rw [Unescaped.append, put_url, hurl, List.map_cons, whole_cons]
    · have happend : ((unescape forbid reserved seg).append
          ((unescape forbid reserved (whole front last)).put SLASH)).status = OK ↔
          (unescape forbid reserved seg).status = OK ∧
            (unescape forbid reserved (whole front last)).status = OK := by
        simp only [status_ok, Unescaped.append, put_badesc, put_badpath, Bool.or_eq_false_iff]
        tauto
      rw [happend, hstatus]
      simp only [List.forall_mem_cons]
      tauto

/-- What is decoded is not forbidden, and not reserved. -/
theorem mem_unescape {s : Bytes} {d : UInt8}
    (hstatus : (unescape forbid reserved s).badpath = false)
    (hd : d ∈ (unescape forbid reserved s).url) :
    d ∈ s ∨ d ≠ 0 ∧ d ∉ forbid ∧ d ∉ reserved := by
  induction s using unescape_induction with
  | nil => cases hd
  | plain c rest hc ih =>
    rw [unescape_plain hc] at hstatus hd
    rcases List.mem_cons.1 hd with rfl | hd
    · exact Or.inl List.mem_cons_self
    · exact (ih hstatus hd).imp_left (List.mem_cons_of_mem c)
  | code a b rest hdigits ih =>
    rw [unescape_code hdigits, code] at hstatus hd
    split_ifs at hstatus hd with hbad hreserved
    · simp only [put_url, put_badpath, List.mem_cons] at hstatus hd ⊢
      rcases hd with h | h | h | hd
      · exact Or.inl (Or.inl h)
      · exact Or.inl (Or.inr (Or.inl h))
      · exact Or.inl (Or.inr (Or.inr (Or.inl h)))
      · exact (ih hstatus hd).imp_left fun h => Or.inr (Or.inr (Or.inr h))
    · rcases List.mem_cons.1 hd with rfl | hd
      · exact Or.inr ⟨fun h => hbad (Or.inl h), fun h => hbad (Or.inr h), hreserved⟩
      · exact (ih hstatus hd).imp_left fun h => by simp [h]
  | stray rest hstray ih =>
    rw [unescape_stray hstray] at hstatus hd
    rcases List.mem_cons.1 hd with rfl | hd
    · exact Or.inl List.mem_cons_self
    · exact (ih hstatus hd).imp_left (List.mem_cons_of_mem _)

/-- Every segment of a path that is let through is decoded on its own, and has no slash then. -/
theorem bySegments {path : Bytes} (hslash : SLASH ∈ forbid ∨ SLASH ∈ reserved)
    (hstatus : (unescapeUrl path forbid reserved).2 = OK) :
    BySegments forbid reserved path (apGetparents (unescapeUrl path forbid reserved).1) := by
  obtain ⟨front, last, hfront, hlast, rfl⟩ := exists_whole path
  have hwhole : (unescapeUrl (whole front last) forbid reserved).1 =
      whole (front.map fun seg => (unescapeUrl seg forbid reserved).1)
        (unescapeUrl last forbid reserved).1 := (unescape_whole hfront last).1
  have hok := (unescape_whole hfront last).2.1 hstatus
  have hplain : ∀ seg ∈ last :: front, SLASH ∉ seg := by
    intro seg hseg
    rcases List.mem_cons.1 hseg with rfl | hseg
    · exact hlast
    · exact hfront seg hseg
  have hdecoded : ∀ seg ∈ last :: front, SLASH ∉ (unescapeUrl seg forbid reserved).1 := by
    intro seg hseg hmem
    rcases mem_unescape ((status_ok _).1 (hok seg hseg)).2 hmem with h | ⟨-, hforbid, hreserved⟩
    · exact hplain seg hseg h
    · exact hslash.elim hforbid hreserved
  refine ⟨front, last, rfl, fun seg hseg => ⟨hplain seg hseg, hok seg hseg, hdecoded seg hseg⟩, ?_⟩
  rw [hwhole]
  refine apGetparents_whole ?_ (hdecoded last List.mem_cons_self)
  intro seg hseg
  obtain ⟨seg, hmem, rfl⟩ := List.mem_map.1 hseg
  exact hdecoded seg (List.mem_cons_of_mem last hmem)

theorem noDots (name : Bytes) : NoDots (apGetparents name) := by
  obtain ⟨front, last, hfront, hlast, rfl⟩ := exists_whole name
  exact ⟨_, _, apGetparents_whole hfront hlast, resolve_no_dots hfront hlast⟩

/-- **The path of a request** has no segment `.` or `..`. That of a request for a proxy is resolved
    as it is; that of another one is decoded before, and unless encoded slashes are decoded by the
    configuration, its segments are those of the request's path, each decoded on its own, so that an
    encoded slash never starts a segment. -/
theorem request_uri {proxyreq allowEncodedSlashes decodeEncodedSlashes : Bool} {path uri : Bytes}
    (h : requestUri proxyreq allowEncodedSlashes decodeEncodedSlashes path = .ok uri) :
    NoDots uri ∧
      (proxyreq = true → uri = apGetparents path) ∧
      (proxyreq = false → allowEncodedSlashes = false → BySegments [SLASH] [] path uri) ∧
      (proxyreq = false → allowEncodedSlashes = true → decodeEncodedSlashes = false →
        BySegments [] [SLASH] path uri) := by
  rw [requestUri] at h
  cases proxyreq with
  | true =>
    simp only [if_true, ne_eq, not_true_eq_false, if_false, Except.ok.injEq] at h
    subst h
    exact ⟨noDots _, fun _ => rfl, by simp, by simp⟩
  | false =>
    simp only [Bool.false_eq_true, if_false] at h
    cases allowEncodedSlashes with
    | false =>
      by_cases hstatus : (apUnescapeUrl path).2 = OK
      · simp only [Bool.false_eq_true, if_false, hstatus, ne_eq, not_true_eq_false,
          Except.ok.injEq] at h
        subst h
        exact ⟨noDots _, by simp, fun _ _ => bySegments (Or.inl List.mem_cons_self) hstatus,
          by simp⟩
      · simp [hstatus] at h
    | true =>
      by_cases hstatus : (apUnescapeUrlKeep2f path decodeEncodedSlashes).2 = OK
      · simp only [if_true, hstatus, ne_eq, not_true_eq_false, if_false, Except.ok.injEq] at h
        subst h
        refine ⟨noDots _, by simp, by simp, ?_⟩
        rintro - - rfl
        exact bySegments (Or.inr List.mem_cons_self) hstatus
      · simp [hstatus] at h

/-- `/a/%2e%2e/b` -/
theorem request_uri_parent :
    requestUri false false false [47, 97, 47, 37, 50, 101, 37, 50, 101, 47, 98] = .ok [47, 98] ∧
      NoDots [47, 98] ∧
      BySegments [SLASH] [] [47, 97, 47, 37, 50, 101, 37, 50, 101, 47, 98] [47, 98] := by
  have h : requestUri false false false [47, 97, 47, 37, 50, 101, 37, 50, 101, 47, 98] =
      .ok [47, 98] := by decide
  exact ⟨h, (request_uri h).1, (request_uri h).2.2.1 rfl rfl⟩

end UnescapeUrl

end Httpd
