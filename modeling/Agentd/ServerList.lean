import Agentd.Connect

/-!
# Redaction of server lists

The URL of the relay may be a list of server URLs, separated by commas, and each of them may carry
credentials.  `redactUrl` looks for one authority in the whole text: behind the first `://`, up to
the next slash.  So it masks one userinfo at most, and it masks whatever stands between the start of
that authority and its last `@`.

`redactUrl_list_iff` says for which lists this masks every userinfo and nothing else (`Maskable`).
-/

namespace Agentd

open Search

/-! ## Server URLs -/

/-- A server URL `[scheme://][userinfo@]host[:port][/path]`. -/
structure ServerUrl where
  scheme : Option (List Char)
  userinfo : Option (List Char)
  /-- The host, with the port if there is one. -/
  host : List Char
  /-- The path behind its slash. -/
  path : Option (List Char)
  scheme_free : ∀ s ∈ scheme, ':' ∉ s ∧ '/' ∉ s ∧ '@' ∉ s ∧ ',' ∉ s
  userinfo_free : ∀ s ∈ userinfo, '/' ∉ s ∧ ',' ∉ s
  host_free : '/' ∉ host ∧ '@' ∉ host ∧ ',' ∉ host
  /-- There is a host, and a colon is followed by a port. -/
  host_last : ∃ c, c ≠ ':' ∧ host.getLast? = some c
  path_free : ∀ p ∈ path, ',' ∉ p

namespace ServerUrl

/-- The scheme with its marker. -/
def lead (u : ServerUrl) : List Char := u.scheme.elim [] (· ++ schemeMarker)

/-- The userinfo with its `@`. -/
def credentials (u : ServerUrl) : List Char := u.userinfo.elim [] (· ++ ['@'])

/-- The path with its slash. -/
def pathText (u : ServerUrl) : List Char := u.path.elim [] ('/' :: ·)

/-- The URL as it is written. -/
def text (u : ServerUrl) : List Char := u.lead ++ (u.credentials ++ (u.host ++ u.pathText))

/-- The URL with `***` for its userinfo. -/
def masked (u : ServerUrl) : ServerUrl where
  scheme := u.scheme
  userinfo := u.userinfo.map fun _ => "***".toList
  host := u.host
  path := u.path
  scheme_free := u.scheme_free
  userinfo_free s hs := by
    obtain ⟨-, -, rfl⟩ := Option.map_eq_some_iff.mp hs
    decide
  host_free := u.host_free
  host_last := u.host_last
  path_free := u.path_free

/-- There is nothing to mask in the URL. -/
def Plain (u : ServerUrl) : Prop := ∀ s ∈ u.userinfo, s = "***".toList

/-- What stands behind the first scheme marker in the path. -/
def behindMarker (u : ServerUrl) : Option (List Char) := do
  let p ← u.path
  let i ← find schemeMarker p
  return p.drop (i + 3)

end ServerUrl

/-- The list as it is written. -/
def listText (urls : List ServerUrl) : List Char := [','].intercalate (urls.map ServerUrl.text)

/-- No userinfo of these URLs belongs to an authority that is still open in front of them: before
the first of them with a scheme or a path ends it, there is none. -/
def Closed : List ServerUrl → Prop
  | [] => True
  | u :: us => u.scheme.isSome = true ∨ u.userinfo = none ∧ (u.path.isSome = true ∨ Closed us)

/-- What stands before the last `@` of the authority at the start of the text is `***`, if there is
an `@` in it. -/
def Starred (text : List Char) : Prop :=
  ∀ m r, text = m ++ '@' :: r → '/' ∉ m → '@' ∉ authorityOf r → m = "***".toList

/-- The redaction finds the only userinfo of the list that is not masked yet, if there is one, and
nothing else.  It looks at the first URL with a scheme marker, or at the first of all: behind the
marker of its scheme, or else behind the marker in its path. -/
def Maskable : List ServerUrl → Prop
  | [] => True
  | u :: us =>
    if u.scheme.isSome ∨ find schemeMarker (listText (u :: us)) = none then
      (∀ v ∈ us, v.Plain) ∧ (u.path.isSome = true ∨ Closed us)
    else
      u.Plain ∧
        match u.behindMarker with
        | some shown => Starred shown ∧ (∀ v ∈ us, v.Plain) ∧ ('/' ∈ shown ∨ Closed us)
        | none => Maskable us

/-! ## Masking at an authority -/

/-- The text with what stands before the last `@` of the authority at its start masked. -/
def maskHead (text : List Char) : List Char :=
  match rfind '@' (authorityOf text) with
  | none => text
  | some i => "***".toList ++ text.drop i

variable {text start rest l r m : List Char} {u v : ServerUrl} {us vs : List ServerUrl}

/-- The redaction masks at the authority it finds. -/
theorem redactUrl_append (h : authorityStart (start ++ rest) = start.length) :
    redactUrl (start ++ rest) = start ++ maskHead rest := by
  rw [redactUrl, h, List.drop_left, maskHead]
  cases rfind '@' (authorityOf rest) with
  | none => rfl
  | some i =>
    simp only [List.take_left, List.drop_length_add_append, List.append_assoc]

/-- A slash ends an authority. -/
theorem authorityOf_slash (r : List Char) : authorityOf ('/' :: r) = [] := by
  simp [authorityOf, find]

/-- A text without a slash is all authority. -/
theorem authorityOf_eq_self (h : '/' ∉ l) : authorityOf l = l := by
  have happend : authorityOf (l ++ []) = l ++ authorityOf [] := authorityOf_append h
  simpa [authorityOf, find] using happend

/-- The `@` of a text belong to its authority up to the first slash. -/
theorem at_mem_authorityOf_append :
    '@' ∈ authorityOf (l ++ r) ↔ '@' ∈ authorityOf l ∨ '/' ∉ l ∧ '@' ∈ authorityOf r := by
  by_cases hslash : '/' ∈ l
  · obtain ⟨s, t, rfl, hs⟩ := List.eq_append_cons_of_mem hslash
    rw [List.append_assoc, List.cons_append, authorityOf_append hs, authorityOf_append hs,
      authorityOf_slash, authorityOf_slash]
    simp
  · rw [authorityOf_append hslash, authorityOf_eq_self hslash, List.mem_append]
    simp [hslash]

/-- An authority with an `@` has a last one. -/
theorem exists_last_at (h : '@' ∈ authorityOf text) :
    ∃ m r, text = m ++ '@' :: r ∧ '/' ∉ m ∧ '@' ∉ authorityOf r := by
  by_cases hslash : '/' ∈ text
  · obtain ⟨s, t, rfl, hs⟩ := List.eq_append_cons_of_mem hslash
    rw [authorityOf_append hs, authorityOf_slash, List.append_nil] at h
    obtain ⟨m, r, rfl, hr⟩ := exists_append_cons_of_mem h
    obtain ⟨hm, hr'⟩ : '/' ∉ m ∧ '/' ∉ r := by simpa using hs
    refine ⟨m, r ++ '/' :: t, by simp, hm, ?_⟩
    rwa [authorityOf_append hr', authorityOf_slash, List.append_nil]
  · rw [authorityOf_eq_self hslash] at h
    obtain ⟨m, r, rfl, hr⟩ := exists_append_cons_of_mem h
    obtain ⟨hm, hr'⟩ : '/' ∉ m ∧ '/' ∉ r := by simpa using hslash
    exact ⟨m, r, rfl, hm, by rwa [authorityOf_eq_self hr']⟩

/-- Without an `@` in the authority there is nothing to mask. -/
theorem maskHead_eq_self (h : '@' ∉ authorityOf text) : maskHead text = text := by
  rw [maskHead, rfind_eq_none_iff.mpr h]

/-- What stands before the last `@` is masked. -/
theorem maskHead_last (hm : '/' ∉ m) (hr : '@' ∉ authorityOf r) :
    maskHead (m ++ '@' :: r) = "***".toList ++ '@' :: r := by
  have hslash : '/' ∉ m ++ ['@'] := by simpa using hm
  have hlast : rfind '@' (authorityOf (m ++ '@' :: r)) = some m.length := by
    rw [List.append_cons, authorityOf_append hslash, ← List.append_cons]
    exact rfind_append_cons hr
  rw [maskHead, hlast]
  simp

/-- Masking once is enough. -/
theorem maskHead_idem (text : List Char) : maskHead (maskHead text) = maskHead text := by
  by_cases hat : '@' ∈ authorityOf text
  · obtain ⟨m, r, rfl, hm, hr⟩ := exists_last_at hat
    rw [maskHead_last hm hr, maskHead_last (by decide) hr]
  · rw [maskHead_eq_self hat, maskHead_eq_self hat]

/-- Redacting once is enough, for every text. -/
theorem redactUrl_idem (text : List Char) : redactUrl (redactUrl text) = redactUrl text := by
  cases hfind : find schemeMarker text with
  | none =>
    have hstart : ∀ x, find schemeMarker x = none → redactUrl x = maskHead x := by
      intro x hx
      have hzero : authorityStart ([] ++ x) = ([] : List Char).length := by
        rw [List.nil_append, authorityStart, hx]
        rfl
      exact redactUrl_append hzero
    rw [hstart text hfind]
    by_cases hat : '@' ∈ authorityOf text
    · obtain ⟨m, r, rfl, hm, hr⟩ := exists_last_at hat
      -- what is left of the text has no marker
      have hrest : find schemeMarker ('@' :: r) = none := by
        rw [find_eq_none_iff] at hfind ⊢
        exact fun hin => hfind (hin.trans (List.suffix_append m _).isInfix)
      have hnone : find schemeMarker ("***".toList ++ '@' :: r) = none := by
        rw [schemeMarker, find_append_of_notMem (by decide), ← schemeMarker, hrest, Option.map_none]
      rw [maskHead_last hm hr, hstart _ hnone, maskHead_last (by decide) hr]
    · rw [maskHead_eq_self hat, hstart text hfind, maskHead_eq_self hat]
  | some i =>
    obtain ⟨s, rest, rfl, rfl⟩ := exists_append_of_find hfind
    -- the first marker stays where it is
    have hfirst : find schemeMarker (s ++ schemeMarker) = some s.length := by
      cases hcut : find schemeMarker (s ++ schemeMarker) with
      | none => exact absurd (List.suffix_append s _).isInfix (find_eq_none_iff.mp hcut)
      | some j =>
        rw [← List.append_assoc, find_append_of_find hcut] at hfind
        exact hfind
    have hstart : ∀ x, redactUrl (s ++ schemeMarker ++ x) = s ++ schemeMarker ++ maskHead x :=
      fun x => redactUrl_append (by
        rw [authorityStart, find_append_of_find hfirst]
        simp [schemeMarker])
    rw [← List.append_assoc, hstart, hstart, maskHead_idem]

/-- What ends the authority, or does not add an `@` to it, is left alone. -/
theorem maskHead_append (h : '/' ∈ l ∨ '@' ∉ authorityOf r) :
    maskHead (l ++ r) = maskHead l ++ r := by
  have hnot : '@' ∉ authorityOf l → '@' ∉ authorityOf (l ++ r) := by
    intro hl
    rw [at_mem_authorityOf_append, not_or, not_and_or]
    exact ⟨hl, h.imp not_not.mpr id⟩
  by_cases hl : '@' ∈ authorityOf l
  · obtain ⟨m, x, rfl, hm, hx⟩ := exists_last_at hl
    have hx' : '@' ∉ authorityOf (x ++ r) := by
      rw [at_mem_authorityOf_append, not_or, not_and_or]
      refine ⟨hx, h.imp (fun hslash => not_not.mpr ?_) id⟩
      simpa [hm] using hslash
    rw [List.append_assoc, List.cons_append, maskHead_last hm hx', maskHead_last hm hx]
    simp
  · rw [maskHead_eq_self hl, maskHead_eq_self (hnot hl)]

/-- Masking changes nothing exactly when what it masks is `***` already. -/
theorem maskHead_eq_self_iff : maskHead text = text ↔ Starred text := by
  refine ⟨fun h m r htext hm hr => ?_, fun h => ?_⟩
  · rw [htext, maskHead_last hm hr, List.append_left_inj] at h
    exact h.symm
  · by_cases hat : '@' ∈ authorityOf text
    · obtain ⟨m, r, htext, hm, hr⟩ := exists_last_at hat
      rw [htext, maskHead_last hm hr, h m r htext hm hr]
    · exact maskHead_eq_self hat

/-! ## Lists -/

/-- The URLs behind the first one of a list, each with its comma. -/
def more (us : List ServerUrl) : List Char := us.flatMap fun u => ',' :: u.text

theorem listText_cons : listText (u :: us) = u.text ++ more us := by
  induction us generalizing u with
  | nil => simp [listText, more]
  | cons v vs ih =>
    have hrest : listText (u :: v :: vs) = u.text ++ [','] ++ listText (v :: vs) := by
      simp [listText]
    rw [hrest, ih, more, more, List.flatMap_cons]
    simp

namespace ServerUrl

@[simp] theorem lead_masked (u : ServerUrl) : u.masked.lead = u.lead := rfl

@[simp] theorem pathText_masked (u : ServerUrl) : u.masked.pathText = u.pathText := rfl

theorem text_masked (u : ServerUrl) :
    u.masked.text = u.lead ++ (u.masked.credentials ++ (u.host ++ u.pathText)) := rfl

/-- The credentials and the host are free of slashes. -/
theorem slash_notMem_front (u : ServerUrl) : '/' ∉ u.credentials ++ u.host := by
  have hcredentials : '/' ∉ u.credentials := by
    cases huserinfo : u.userinfo with
    | none => simp [credentials, huserinfo]
    | some s => simpa [credentials, huserinfo] using (u.userinfo_free s huserinfo).1
  rw [List.mem_append, not_or]
  exact ⟨hcredentials, u.host_free.1⟩

/-- A slash is found in a URL behind its scheme exactly when it has a path. -/
theorem slash_mem_iff (u : ServerUrl) :
    '/' ∈ u.credentials ++ (u.host ++ u.pathText) ↔ u.path.isSome = true := by
  rw [← List.append_assoc, List.mem_append, or_iff_right u.slash_notMem_front]
  cases hpath : u.path <;> simp [pathText, hpath]

/-- The URLs of a list are free of commas. -/
theorem comma_notMem_text (u : ServerUrl) : ',' ∉ u.text := by
  have hlead : ',' ∉ u.lead := by
    cases hscheme : u.scheme with
    | none => simp [lead, hscheme]
    | some s => simpa [lead, hscheme, schemeMarker] using (u.scheme_free s hscheme).2.2.2
  have hcredentials : ',' ∉ u.credentials := by
    cases huserinfo : u.userinfo with
    | none => simp [credentials, huserinfo]
    | some s => simpa [credentials, huserinfo] using (u.userinfo_free s huserinfo).2
  have hpath : ',' ∉ u.pathText := by
    cases hpath : u.path with
    | none => simp [pathText, hpath]
    | some p => simpa [pathText, hpath] using u.path_free p hpath
  simp [text, hlead, hcredentials, hpath, u.host_free.2.2]

/-- A URL has nothing to mask exactly when masking it changes nothing. -/
theorem credentials_eq_masked_iff (u : ServerUrl) :
    u.credentials = u.masked.credentials ↔ u.Plain := by
  cases huserinfo : u.userinfo with
  | none => simp [credentials, masked, Plain, huserinfo]
  | some s =>
    have hlast : s ++ ['@'] = "***".toList ++ ['@'] ↔ s = "***".toList := List.append_left_inj _
    simpa [credentials, masked, Plain, huserinfo] using hlast

theorem text_eq_masked_iff (u : ServerUrl) : u.text = u.masked.text ↔ u.Plain := by
  rw [text, text_masked, List.append_right_inj, List.append_left_inj, credentials_eq_masked_iff]

/-- The authority of a URL has no `@` behind the userinfo. -/
theorem at_notMem_host (u : ServerUrl) : '@' ∉ authorityOf (u.host ++ u.pathText) := by
  rw [authorityOf_append u.host_free.1]
  cases hpath : u.path with
  | none => simpa [pathText, hpath, authorityOf, find] using u.host_free.2.1
  | some p => simpa [pathText, hpath, authorityOf_slash] using u.host_free.2.1

/-- The authority of a URL has an `@` exactly when it has a userinfo. -/
theorem at_mem_authority_iff (u : ServerUrl) :
    '@' ∈ authorityOf (u.credentials ++ (u.host ++ u.pathText)) ↔ u.userinfo ≠ none := by
  cases huserinfo : u.userinfo with
  | none => simpa [credentials, huserinfo] using u.at_notMem_host
  | some s =>
    have hslash : '/' ∉ s ++ ['@'] := by simpa using (u.userinfo_free s huserinfo).1
    have hcredentials : u.credentials = s ++ ['@'] := by simp [credentials, huserinfo]
    rw [hcredentials, at_mem_authorityOf_append, authorityOf_eq_self hslash]
    simp

/-- At its own authority a URL is masked. -/
theorem maskHead_authority (u : ServerUrl) :
    u.lead ++ maskHead (u.credentials ++ (u.host ++ u.pathText)) = u.masked.text := by
  rw [text_masked, List.append_right_inj]
  cases huserinfo : u.userinfo with
  | none => simpa [credentials, masked, huserinfo] using maskHead_eq_self u.at_notMem_host
  | some s =>
    simpa [credentials, masked, huserinfo] using
      maskHead_last (u.userinfo_free s huserinfo).1 u.at_notMem_host

end ServerUrl

/-- Every URL but the first one of a list has a comma. -/
theorem count_more (us : List ServerUrl) : (more us).count ',' = us.length := by
  induction us with
  | nil => rfl
  | cons u us ih =>
    have hcons : more (u :: us) = ',' :: (u.text ++ more us) := rfl
    rw [hcons, List.count_cons_self, List.count_append, ih,
      List.count_eq_zero_of_not_mem u.comma_notMem_text, Nat.zero_add, List.length_cons]

/-- Behind the first URL of a list an `@` comes after a comma. -/
theorem comma_mem_of_more (h : more us = m ++ '@' :: r) : ',' ∈ m := by
  cases us with
  | nil => exact absurd h.symm (by simp [more])
  | cons u us =>
    have hcons : ',' :: (u.text ++ more us) = m ++ '@' :: r := h
    cases m with
    | nil => exact absurd (List.cons.inj hcons).1 (by decide)
    | cons c m => exact (List.cons.inj hcons).1 ▸ List.mem_cons_self

/-- The first URL of a list ends at its comma. -/
theorem append_more_inj (hl : ',' ∉ l) (hr : ',' ∉ r) (hlen : us.length = vs.length) :
    l ++ more us = r ++ more vs ↔ l = r ∧ more us = more vs := by
  cases us with
  | nil =>
    obtain rfl := List.length_eq_zero_iff.mp hlen.symm
    simp [more]
  | cons u us =>
    cases vs with
    | nil => cases hlen
    | cons v vs =>
      have hcons : ∀ w ws, more (w :: ws) = ',' :: (w.text ++ more ws) := fun _ _ => rfl
      rw [hcons, hcons, append_cons_inj hl hr, List.cons_inj_right]

/-- A list has nothing to mask exactly when masking it changes nothing. -/
theorem more_eq_masked_iff :
    more us = more (us.map ServerUrl.masked) ↔ ∀ v ∈ us, v.Plain := by
  induction us with
  | nil => simp [more]
  | cons u us ih =>
    have hcons : ∀ w ws, more (w :: ws) = ',' :: (w.text ++ more ws) := fun _ _ => rfl
    rw [List.map_cons, hcons, hcons, List.cons_inj_right,
      append_more_inj u.comma_notMem_text u.masked.comma_notMem_text (List.length_map _).symm, ih,
      u.text_eq_masked_iff, List.forall_mem_cons]

/-- An authority that is open in front of these URLs ends before the next `@` exactly when no
userinfo belongs to it. -/
theorem at_notMem_more : '@' ∉ authorityOf (more us) ↔ Closed us := by
  induction us with
  | nil => simp [more, authorityOf, find, Closed]
  | cons u us ih =>
    have hcomma : more (u :: us) = [','] ++ (u.text ++ more us) := rfl
    have hskip : '@' ∉ authorityOf (more (u :: us)) ↔ '@' ∉ authorityOf (u.text ++ more us) := by
      rw [hcomma, authorityOf_append (by decide)]
      simp
    rw [hskip, Closed]
    cases hscheme : u.scheme with
    | some s =>
      obtain ⟨-, hslash, hat, -⟩ := u.scheme_free s hscheme
      have htext : u.text ++ more us = (s ++ [':']) ++ '/' :: ('/' :: (u.credentials ++
          (u.host ++ u.pathText)) ++ more us) := by
        simp [ServerUrl.text, ServerUrl.lead, hscheme, schemeMarker]
      rw [htext, authorityOf_append (by simpa using hslash), authorityOf_slash]
      simp [hat]
    | none =>
      have htext : u.text = u.credentials ++ (u.host ++ u.pathText) := by
        simp [ServerUrl.text, ServerUrl.lead, hscheme]
      rw [htext, at_mem_authorityOf_append, u.at_mem_authority_iff, u.slash_mem_iff, not_or,
        not_not, not_and_or, not_not, ih]
      simp

/-! ## Where the authority is looked for -/

theorem comma_notMem_maskHead (h : ',' ∉ l) : ',' ∉ maskHead l := by
  rw [maskHead]
  cases rfind '@' (authorityOf l) with
  | none => exact h
  | some i =>
    rw [List.mem_append, not_or]
    exact ⟨by decide, fun hmem => h (List.mem_of_mem_drop hmem)⟩

/-- The redaction at an authority in the first URL is right exactly when it is right for this URL,
there is nothing to mask in the others, and the authority does not run into a userinfo of these. -/
theorem redactUrl_list_site {e : List Char} (htext : u.text = start ++ e)
    (hstart : authorityStart (listText (u :: us)) = start.length) :
    redactUrl (listText (u :: us)) = listText ((u :: us).map ServerUrl.masked) ↔
      start ++ maskHead e = u.masked.text ∧ (∀ v ∈ us, v.Plain) ∧ ('/' ∈ e ∨ Closed us) := by
  have hcomma := u.comma_notMem_text
  rw [htext, List.mem_append, not_or] at hcomma
  have hlist : listText (u :: us) = start ++ (e ++ more us) := by
    rw [listText_cons, htext, List.append_assoc]
  rw [hlist] at hstart ⊢
  rw [redactUrl_append hstart, List.map_cons, listText_cons]
  by_cases hclosed : '/' ∈ e ∨ Closed us
  · have hfree : ',' ∉ start ++ maskHead e := by
      rw [List.mem_append, not_or]
      exact ⟨hcomma.1, comma_notMem_maskHead hcomma.2⟩
    rw [maskHead_append (hclosed.imp id at_notMem_more.mpr), ← List.append_assoc,
      append_more_inj hfree u.masked.comma_notMem_text (List.length_map _).symm,
      more_eq_masked_iff, and_iff_left hclosed]
  · refine iff_of_false (fun heq => ?_) (fun h => hclosed h.2.2)
    -- the masked part reaches over a comma
    obtain ⟨hslash, hopen⟩ := not_or.mp hclosed
    obtain ⟨m, r, hmore, hm, hr⟩ := exists_last_at (not_not.mp (at_notMem_more.not.mpr hopen))
    have hmask : maskHead (e ++ more us) = "***".toList ++ '@' :: r := by
      rw [hmore, ← List.append_assoc]
      exact maskHead_last (by simp [hslash, hm]) hr
    have hcount := congrArg (List.count ',') heq
    have htotal := count_more us
    have hcommas : 0 < m.count ',' := List.count_pos_iff.mpr (comma_mem_of_more hmore)
    rw [hmore, List.count_append] at htotal
    rw [hmask, List.count_append, List.count_append, List.count_append, count_more, List.length_map,
      List.count_eq_zero_of_not_mem hcomma.1,
      List.count_eq_zero_of_not_mem u.masked.comma_notMem_text] at hcount
    simp at hcount htotal
    omega

/-- The URL has a scheme, so that the authority is looked for behind it. -/
theorem authorityStart_lead {s : List Char} (hscheme : u.scheme = some s) (r : List Char) :
    authorityStart (u.text ++ r) = u.lead.length := by
  have htext : u.text ++ r =
      s ++ schemeMarker ++ (u.credentials ++ (u.host ++ u.pathText) ++ r) := by
    simp [ServerUrl.text, ServerUrl.lead, hscheme]
  rw [htext, authorityStart_scheme (u.scheme_free s hscheme).1]
  simp [ServerUrl.lead, hscheme]

/-- No marker starts in front of the path of a URL without a scheme. -/
theorem find_marker_host (u : ServerUrl) (r : List Char) :
    find schemeMarker (u.credentials ++ u.host ++ r) =
      (find schemeMarker r).map (· + (u.credentials ++ u.host).length) := by
  obtain ⟨c, hc, hlast⟩ := u.host_last
  obtain ⟨h, hhost⟩ := List.getLast?_eq_some_iff.mp hlast
  have hslash := u.slash_notMem_front
  rw [hhost, ← List.append_assoc, List.mem_append, not_or, List.mem_singleton] at hslash
  have hhead : (c :: r).head? ≠ some '/' := by simpa using Ne.symm hslash.2
  rw [hhost, ← List.append_assoc, List.append_assoc _ [c], List.singleton_append, schemeMarker,
    find_append_of_second_notMem hslash.1 hhead, find_cons_of_ne (Ne.symm hc), Option.map_map]
  congr 1
  funext i
  simp only [Function.comp, List.length_append, List.length_singleton]
  omega

/-- The first marker in a URL without a scheme is the first one in its path. -/
theorem find_marker_text (hscheme : u.scheme = none) :
    find schemeMarker u.text =
      (u.path.bind (find schemeMarker)).map (· + (1 + (u.credentials ++ u.host).length)) := by
  have htext : u.text = u.credentials ++ u.host ++ u.pathText := by
    simp [ServerUrl.text, ServerUrl.lead, hscheme]
  rw [htext, find_marker_host]
  cases hpath : u.path with
  | none => simp [ServerUrl.pathText, hpath, find, schemeMarker]
  | some p =>
    have hslash : find schemeMarker ('/' :: p) = (find schemeMarker p).map (· + 1) :=
      find_cons_of_ne (by decide)
    rw [ServerUrl.pathText, hpath, Option.elim_some, hslash, Option.map_map, Option.bind_some]
    congr 1
    funext i
    exact Nat.add_assoc i 1 _

theorem find_marker_eq_none (hscheme : u.scheme = none) (h : u.behindMarker = none) :
    find schemeMarker u.text = none := by
  rw [find_marker_text hscheme, Option.map_eq_none_iff]
  cases hpath : u.path with
  | none => rfl
  | some p =>
    cases hfind : find schemeMarker p with
    | none => exact hfind
    | some i => simp [ServerUrl.behindMarker, hpath, hfind] at h

/-- A URL without a scheme, cut behind the marker in its path. -/
theorem exists_of_behindMarker (hscheme : u.scheme = none) (h : u.behindMarker = some l) :
    ∃ p, u.pathText = '/' :: (p ++ l) ∧
      authorityStart (u.text ++ r) = (u.credentials ++ u.host ++ '/' :: p).length := by
  simp only [ServerUrl.behindMarker, Option.bind_eq_bind, Option.bind_eq_some_iff] at h
  obtain ⟨path, hpath, i, hfind, hl⟩ := h
  obtain ⟨p, l', rfl, rfl⟩ := exists_append_of_find hfind
  obtain rfl : l' = l := by simpa [schemeMarker] using hl
  have hfirst := find_marker_text hscheme
  rw [hpath, Option.bind_some, hfind, Option.map_some] at hfirst
  refine ⟨p ++ schemeMarker, by simp [ServerUrl.pathText, hpath], ?_⟩
  rw [authorityStart, find_append_of_find hfirst]
  simp [schemeMarker]
  omega

/-- When the first marker is in the path of the first URL, masking behind it is right exactly when
there is nothing to mask in this URL, and what is masked is `***` already. -/
theorem maskHead_behindMarker {p : List Char} (hscheme : u.scheme = none)
    (hpath : u.pathText = '/' :: (p ++ l)) :
    u.credentials ++ u.host ++ '/' :: p ++ maskHead l = u.masked.text ↔ u.Plain ∧ Starred l := by
  have hmasked : u.masked.text = u.masked.credentials ++ u.host ++ '/' :: (p ++ l) := by
    simp [ServerUrl.text_masked, ServerUrl.lead, hscheme, hpath]
  have hslash : '/' ∉ u.masked.credentials ++ u.host := u.masked.slash_notMem_front
  rw [hmasked, List.append_assoc _ ('/' :: p), List.cons_append,
    append_cons_inj u.slash_notMem_front hslash, List.append_left_inj,
    List.append_right_inj, u.credentials_eq_masked_iff, maskHead_eq_self_iff]

/-- What stands in front of the first marker, up to a comma, is left alone. -/
theorem redactUrl_behind (hl : find schemeMarker l = none) (hr : find schemeMarker r ≠ none) :
    redactUrl (l ++ ',' :: r) = l ++ ',' :: redactUrl r := by
  obtain ⟨i, hi⟩ := Option.ne_none_iff_exists'.mp hr
  have hstart : authorityStart (l ++ [','] ++ r) = (l ++ [',']).length + authorityStart r := by
    rw [← List.append_cons, authorityStart, find_append_cons (by decide) (by decide) hl, hi,
      authorityStart, hi]
    simp
    omega
  rw [List.append_cons l ',' r, List.append_cons l ',' (redactUrl r), redactUrl, hstart, redactUrl,
    List.drop_length_add_append]
  cases rfind '@' (authorityOf (r.drop (authorityStart r))) with
  | none => rfl
  | some j =>
    dsimp only
    rw [Nat.add_assoc, List.drop_length_add_append, List.take_length_add_append]
    simp only [List.append_assoc]

/-- The redaction masks every userinfo of a list and leaves everything else alone exactly when the
list is `Maskable`. -/
theorem redactUrl_eq_masked_iff (urls : List ServerUrl) :
    redactUrl (listText urls) = listText (urls.map ServerUrl.masked) ↔ Maskable urls := by
  induction urls with
  | nil => exact iff_of_true rfl trivial
  | cons u us ih =>
    rw [Maskable]
    split
    · rename_i hlead
      have hstart : authorityStart (listText (u :: us)) = u.lead.length := by
        cases hscheme : u.scheme with
        | some s => exact listText_cons ▸ authorityStart_lead hscheme _
        | none =>
          have hnone : find schemeMarker (listText (u :: us)) = none := by
            simpa [hscheme] using hlead
          simp [authorityStart, hnone, ServerUrl.lead, hscheme]
      rw [redactUrl_list_site rfl hstart, u.slash_mem_iff]
      exact and_iff_right u.maskHead_authority
    · rename_i hlead
      obtain ⟨hscheme, hmarker⟩ := not_or.mp hlead
      replace hscheme : u.scheme = none := by simpa using hscheme
      cases hshown : u.behindMarker with
      | some shown =>
        obtain ⟨p, hpath, hstart⟩ := exists_of_behindMarker (r := more us) hscheme hshown
        have htext : u.text = u.credentials ++ u.host ++ '/' :: p ++ shown := by
          simp [ServerUrl.text, ServerUrl.lead, hscheme, hpath]
        rw [← listText_cons] at hstart
        rw [redactUrl_list_site htext hstart, maskHead_behindMarker hscheme hpath, and_assoc]
      | none =>
        have hfind := find_marker_eq_none hscheme hshown
        cases us with
        | nil => exact absurd (by simpa [listText] using hfind) hmarker
        | cons v vs =>
          have hcons : ∀ w x (ws : List ServerUrl),
              listText (w :: x :: ws) = w.text ++ ',' :: listText (x :: ws) := by
            intro w x ws
            simp [listText]
          have hrest : find schemeMarker (listText (v :: vs)) ≠ none := by
            rw [hcons, find_append_cons (by decide) (by decide) hfind] at hmarker
            simpa using hmarker
          rw [hcons, redactUrl_behind hfind hrest, List.map_cons, List.map_cons, hcons,
            append_cons_inj u.comma_notMem_text u.masked.comma_notMem_text, u.text_eq_masked_iff,
            ← List.map_cons, ih]

/-- Every userinfo of a list is masked, everything else is unchanged, and another redaction changes
nothing, exactly when the list is `Maskable`. -/
theorem redactUrl_list_iff (urls : List ServerUrl) :
    (redactUrl (listText urls) = listText (urls.map ServerUrl.masked) ∧
        redactUrl (redactUrl (listText urls)) = redactUrl (listText urls)) ↔
      Maskable urls := by
  rw [and_iff_left (redactUrl_idem _), redactUrl_eq_masked_iff]

/-- A server with credentials. -/
def Sample.server (userinfo host : String) (h : '/' ∉ userinfo.toList ∧ ',' ∉ userinfo.toList)
    (h' : '/' ∉ host.toList ∧ '@' ∉ host.toList ∧ ',' ∉ host.toList)
    (hlast : ∃ c, c ≠ ':' ∧ host.toList.getLast? = some c) : ServerUrl where
  scheme := some "nats".toList
  userinfo := some userinfo.toList
  host := host.toList
  path := none
  scheme_free := by decide
  userinfo_free := by simpa using h
  host_free := h'
  host_last := hlast
  path_free := by decide

/-- Two servers with credentials. -/
def Sample.twoServers : List ServerUrl :=
  [server "u:p" "a:1" (by decide) (by decide) ⟨'1', by decide⟩,
    server "v:q" "b:2" (by decide) (by decide) ⟨'2', by decide⟩]

/-- The credentials of the second server stay. -/
theorem second_server_shown :
    ¬∀ urls : List ServerUrl,
      redactUrl (listText urls) = listText (urls.map ServerUrl.masked) ∧
        redactUrl (redactUrl (listText urls)) = redactUrl (listText urls) := by
  intro h
  exact absurd (h Sample.twoServers).1 (by decide)

end Agentd
