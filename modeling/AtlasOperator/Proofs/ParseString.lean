import AtlasOperator.Proofs.Escaping

namespace AtlasOperator.Proofs

/-- The path as `(*url.URL).String` writes it after a host: with a `/` first
when the escaped path does not start with one. -/
def pathPart (u : URL) : String :=
  (if u.escapedPath ≠ "" ∧ u.escapedPath.front ≠ '/' then "/" else "") ++ u.escapedPath

@[simp] theorem bytesOf_append (a b : String) : bytesOf (a ++ b) = bytesOf a ++ bytesOf b := by
  simp [bytesOf]

theorem bytesOf_empty : bytesOf "" = [] := rfl

theorem bytesOf_eq_nil {s : String} : bytesOf s = [] ↔ s = "" := by
  constructor
  · intro h; exact bytesOf_injective (h.trans bytesOf_empty.symm)
  · rintro rfl; rfl

theorem bytesOf_string {u : URL} (hh : u.host ≠ "") :
    bytesOf u.string =
      (if u.scheme ≠ "" then bytesOf u.scheme ++ [':'.toNat] else []) ++ '/'.toNat :: '/'.toNat ::
        ((match u.user with | some ui => bytesOf ui.string ++ ['@'.toNat] | none => []) ++
          bytesOf (escape u.host .host) ++ bytesOf (pathPart u) ++
          (if u.rawQuery ≠ "" then '?'.toNat :: bytesOf u.rawQuery else [])) := by
  have h1 : bytesOf "//" = ['/'.toNat, '/'.toNat] := rfl
  have h2 : bytesOf ":" = [':'.toNat] := rfl
  have h3 : bytesOf "@" = ['@'.toNat] := rfl
  have h4 : bytesOf "?" = ['?'.toNat] := rfl
  have hne : ∀ a b c d : String, a ++ ("//" ++ b ++ c) ++ d ≠ "" := fun a b c d h => by
    have hl := congrArg String.length h
    have : "//".length = 2 := rfl
    simp only [String.length_append, String.length_empty] at hl
    omega
  unfold URL.string pathPart
  simp only [hh, ne_eq, not_false_eq_true, or_true, true_or, if_true, and_true, hne, false_and,
    if_false, String.append_empty]
  cases u.user <;> simp [apply_ite bytesOf, bytesOf_empty, h1, h2, h3, h4]

theorem parse_stages {raw schemeB rest X q : Bytes} (hstar : raw ≠ ['*'.toNat])
    (hctl : containsCTLByte raw = false) (hs : getScheme raw = .ok (schemeB, rest))
    (hq : splitQuery rest = ('/'.toNat :: X, q, false)) :
    parse raw = (do
      let (user, host, omitHost, rest) ← parseAuthorityPart (toLowerASCII schemeB) ('/'.toNat :: X)
      let (path, rawPath) ← setPath rest
      pure { scheme := toLowerASCII schemeB, user, host, path, rawPath, omitHost, rawQuery := q }) := by
  unfold parse
  simp only [hctl, hstar, hs, if_false, Bool.false_eq_true, bind, Except.bind, pure, Except.pure]
  simp only [hq, List.head?_cons, ne_eq, not_true_eq_false, if_false]

/-- A character a scheme may hold after its first, as `getScheme` tests its byte. -/
def schemeChar (d : Char) : Bool :=
  isAlphaByte d.toNat || isDigitByte d.toNat || d.toNat = '+'.toNat || d.toNat = '-'.toNat ||
    d.toNat = '.'.toNat

/-- A scheme `getScheme` reads whole: a letter, then letters, digits, `+`, `-` or `.`. -/
def validScheme (s : String) : Bool :=
  match s.toList with
  | c :: cs => isAlphaByte c.toNat && cs.all schemeChar
  | [] => false

theorem schemeChar_lt {d : Char} (h : schemeChar d = true) : d.toNat < 128 := by
  simp only [schemeChar, isAlphaByte, isDigitByte, Bool.or_eq_true, decide_eq_true_eq] at h
  have : 'z'.toNat = 122 := rfl
  have : '9'.toNat = 57 := rfl
  have : 'Z'.toNat = 90 := rfl
  have : '+'.toNat = 43 := rfl
  have : '-'.toNat = 45 := rfl
  have : '.'.toNat = 46 := rfl
  omega

theorem alpha_schemeChar {d : Char} (h : isAlphaByte d.toNat = true) : schemeChar d = true := by
  simp [schemeChar, h]

theorem getScheme_go_scheme {raw : Bytes} (rest : Bytes) :
    ∀ {read : Bytes} {cs : List Char}, read ≠ [] → (∀ d ∈ cs, schemeChar d = true) →
      getScheme.go raw read (cs.map Char.toNat ++ ':'.toNat :: rest) =
        .ok (read ++ cs.map Char.toNat, rest)
  | read, [], hr, _ => by simp [getScheme.go, hr, isAlphaByte, isDigitByte]
  | read, d :: cs, hr, h => by
    have ih := @getScheme_go_scheme raw rest (read ++ [d.toNat]) cs (by simp)
      fun e he => h e (List.mem_cons_of_mem _ he)
    have hd := h d (List.mem_cons_self _ _)
    simp only [schemeChar, Bool.or_eq_true, decide_eq_true_eq] at hd
    rw [List.map_cons, List.cons_append, getScheme.go]
    split_ifs with h₁ h₂ <;> simp_all

theorem bytesOf_validScheme {s : String} (h : validScheme s = true) :
    bytesOf s = s.toList.map Char.toNat := by
  obtain ⟨l⟩ := s
  unfold validScheme at h
  refine bytesOf_ascii fun d hd => ?_
  split at h
  · rename_i c cs hl
    simp only [Bool.and_eq_true, List.all_eq_true] at h
    simp only [String.toList] at hl
    rw [hl] at hd
    rcases List.mem_cons.mp hd with rfl | hd
    · exact schemeChar_lt (alpha_schemeChar h.1)
    · exact schemeChar_lt (h.2 d hd)
  · cases h

theorem getScheme_valid {s : String} (h : validScheme s = true) (rest : Bytes) :
    getScheme (bytesOf s ++ ':'.toNat :: rest) = .ok (bytesOf s, rest) := by
  rw [bytesOf_validScheme h]
  unfold validScheme at h
  split at h
  · rename_i c cs hl
    simp only [Bool.and_eq_true, List.all_eq_true] at h
    rw [hl, List.map_cons, List.cons_append, getScheme, getScheme.go, if_pos h.1,
      getScheme_go_scheme rest (by simp) h.2]
    rfl
  · cases h

theorem getScheme_slash (rest : Bytes) :
    getScheme ('/'.toNat :: rest) = .ok ([], '/'.toNat :: rest) := by
  simp [getScheme, getScheme.go, isAlphaByte, isDigitByte]

theorem utf8Nat_mem {v b : Nat} (hb : b ∈ utf8Nat v) (h : b < 128) : v = b := by
  unfold utf8Nat at hb
  split_ifs at hb <;> simp only [List.mem_cons, List.mem_singleton, List.not_mem_nil, or_false] at hb <;>
    omega

theorem mem_bytesOf {d : Char} (hd : d.toNat < 128) {s : String} : d.toNat ∈ bytesOf s ↔ d ∈ s.toList := by
  obtain ⟨l⟩ := s
  rw [bytesOf_mk, List.mem_flatMap]
  constructor
  · rintro ⟨c, hc, hm⟩
    rwa [eq_of_toNat_eq (utf8Nat_mem hm hd)] at hc
  · intro h
    exact ⟨d, h, by rw [utf8Nat_ascii hd]; exact List.mem_singleton_self _⟩

theorem not_mem_validScheme {s : String} (h : validScheme s = true) {d : Char} (hd : schemeChar d = false) :
    d.toNat ∉ bytesOf s := by
  rw [bytesOf_validScheme h]
  intro hm
  obtain ⟨c, hc, he⟩ := List.mem_map.mp hm
  obtain rfl := eq_of_toNat_eq he
  unfold validScheme at h
  split at h
  · rename_i c' cs hl
    simp only [Bool.and_eq_true, List.all_eq_true] at h
    rw [hl] at hc
    rcases List.mem_cons.mp hc with rfl | hc
    · rw [alpha_schemeChar h.1] at hd; cases hd
    · rw [h.2 _ hc] at hd; cases hd
  · cases h

theorem splitQuery_of {Y R : Bytes} (hY : '?'.toNat ∉ Y) (hR : '?'.toNat ∉ R) :
    splitQuery (Y ++ if R ≠ [] then '?'.toNat :: R else []) = (Y, R, false) := by
  unfold splitQuery
  by_cases hr : R = []
  · subst hr
    simp only [ne_eq, not_true_eq_false, if_false, List.append_nil]
    rw [if_neg (fun h => absurd (List.count_eq_zero_of_not_mem hY ▸ h.2) (by decide)), cut_of_not_mem hY]
  · rw [if_pos hr, if_neg, cut_append_cons hY]
    rintro ⟨hl, -⟩
    rw [List.getLast?_append, List.getLast?_cons] at hl
    obtain ⟨x, hx⟩ := List.getLast?_isSome.mpr hr |> Option.isSome_iff_exists.mp
    simp only [hx, Option.or_some, Option.some.injEq] at hl
    exact hR (hl ▸ List.mem_of_getLast?_eq_some hx)

theorem parseAuthorityPart_of (scheme : Bytes) {A P : Bytes} (hA : '/'.toNat ∉ A) (hne : A ≠ [])
    (hP : P = [] ∨ ∃ t, P = '/'.toNat :: t) :
    parseAuthorityPart scheme ('/'.toNat :: '/'.toNat :: (A ++ P)) =
      (parseAuthority A).map fun r => (r.1, r.2, false, P) := by
  obtain ⟨a, A', rfl⟩ := List.exists_cons_of_ne_nil hne
  have ha : a ≠ '/'.toNat := fun h => hA (h ▸ List.mem_cons_self _ _)
  unfold parseAuthorityPart
  rw [if_pos ⟨.inr (by simpa using ha), rfl⟩]
  simp only [List.drop_succ_cons, List.drop_zero]
  rcases hP with rfl | ⟨t, rfl⟩
  · rw [List.append_nil, cut_of_not_mem hA]
    cases parseAuthority (a :: A') <;> rfl
  · rw [cut_append_cons hA]
    cases parseAuthority (a :: A') <;> rfl

/-- The user information `url.Parse` reads back for one `url.UserPassword` or
`url.User` wrote. -/
def userinfoBytes (ui : Userinfo) : UserinfoBytes :=
  ⟨bytesOf ui.username, if ui.passwordSet then bytesOf ui.password else [], ui.passwordSet⟩

theorem not_mem_userinfo {d : Char} (hd : d ∈ ['#', '?', '/', '@', ':', '&', '=', ';', '['])
    (he : shouldEscape d .userPassword = true) (ui : Userinfo) (hc : d ≠ ':') :
    d.toNat ∉ bytesOf ui.string := by
  have h₁ := not_mem_bytesOf_escape hd he ui.username
  have h₂ := not_mem_bytesOf_escape hd he ui.password
  unfold Userinfo.string
  split_ifs
  · rw [bytesOf_append, bytesOf_append]
    simp only [List.mem_append, not_or]
    exact ⟨h₁, fun h => hc (eq_of_toNat_eq (by simpa [show bytesOf ":" = [':'.toNat] from rfl] using h)), h₂⟩
  · rw [bytesOf_append, bytesOf_empty, List.append_nil]
    exact h₁

theorem parseAuthority_escape {ui : Option Userinfo} {H : String} {user : Option UserinfoBytes}
    {host : Bytes}
    (h : parseAuthority ((match ui with | some ui => bytesOf ui.string ++ ['@'.toNat] | none => []) ++
      bytesOf (escape H .host)) = .ok (user, host)) :
    user = ui.map userinfoBytes ∧ host = bytesOf H := by
  have hat : '@'.toNat ∉ bytesOf (escape H .host) := not_mem_bytesOf_escape (by decide) (by decide) H
  cases ui with
  | none =>
    rw [List.nil_append, parseAuthority, cutLast_of_not_mem hat] at h
    obtain ⟨host', hh, h⟩ := except_bind_eq_ok h
    cases h
    exact ⟨rfl, parseHost_escape hh⟩
  | some ui =>
    rw [List.append_assoc, List.singleton_append, parseAuthority, cutLast_append_cons hat] at h
    obtain ⟨host', hh, h⟩ := except_bind_eq_ok h
    have hcu : ':'.toNat ∉ bytesOf (escape ui.username .userPassword) :=
      not_mem_bytesOf_escape (by decide) (by decide) _
    have hstr : bytesOf ui.string = bytesOf (escape ui.username .userPassword) ++
        if ui.passwordSet then ':'.toNat :: bytesOf (escape ui.password .userPassword) else [] := by
      unfold Userinfo.string
      split_ifs <;> simp [bytesOf_empty, show bytesOf ":" = [':'.toNat] from rfl]
    split_ifs at h with h₁ h₂
    · -- a `:` separates the password
      cases hp : ui.passwordSet
      · rw [hstr, hp, if_neg (by decide), List.append_nil] at h₂
        exact absurd h₂ hcu
      rw [hstr, hp, if_pos rfl, cut_append_cons hcu] at h
      obtain ⟨name, hn, h⟩ := except_bind_eq_ok h
      obtain ⟨pass, hq, h⟩ := except_bind_eq_ok h
      cases h
      refine ⟨?_, parseHost_escape hh⟩
      simp [userinfoBytes, hp, unescape_escape_ok hn, unescape_escape_ok hq]
    · -- no `:`, so no password
      cases hp : ui.passwordSet
      · rw [hstr, hp, if_neg (by decide), List.append_nil] at h
        obtain ⟨name, hn, h⟩ := except_bind_eq_ok h
        cases h
        refine ⟨?_, parseHost_escape hh⟩
        simp [userinfoBytes, hp, unescape_escape_ok hn]
      · rw [hstr, hp, if_pos rfl] at h₂
        exact absurd (List.mem_append_right _ (List.mem_cons_self _ _)) h₂

theorem escapeChar_path_head (c : Char) :
    ∃ d ds, escapeChar .path c = d :: ds ∧ (d = '/' ↔ c = '/') := by
  unfold escapeChar percent
  split_ifs with h₁ h₂ h₃
  · exact absurd h₂.2 (by decide)
  · refine ⟨_, _, rfl, by simp, fun hc => ?_⟩
    subst hc; exact absurd h₃ (by decide)
  · exact ⟨c, [], rfl, Iff.rfl⟩
  · obtain ⟨b, bs, hb⟩ := List.exists_cons_of_ne_nil (List.ne_nil_of_length_pos
      (by rw [String.length_utf8EncodeChar]; exact Char.utf8Size_pos c))
    refine ⟨'%', _, by rw [hb, List.flatMap_cons]; rfl, by simp, fun hc => ?_⟩
    subst hc; exact absurd h₁ (by decide)

theorem escape_path_slash (s : String) :
    (escape s .path ≠ "" ∧ (escape s .path).front ≠ '/') ↔ (s ≠ "" ∧ s.front ≠ '/') := by
  obtain ⟨_ | ⟨c, cs⟩⟩ := s
  · exact ⟨fun h => absurd rfl h.1, fun h => absurd rfl h.1⟩
  · obtain ⟨d, ds, hd, hiff⟩ := escapeChar_path_head c
    have he : escape ⟨c :: cs⟩ .path = ⟨d :: (ds ++ cs.flatMap (escapeChar .path))⟩ := by
      simp [escape, hd]
    have hf : ∀ (x : Char) xs, (String.mk (x :: xs)).front = x := fun _ _ => rfl
    have hn : ∀ (x : Char) xs, String.mk (x :: xs) ≠ "" := fun _ _ h => by
      cases congrArg String.data h
    rw [he]
    simp only [hf, ne_eq, hn, not_false_eq_true, true_and]
    exact not_congr hiff

theorem escapedPath_slash (u : URL) :
    (u.escapedPath ≠ "" ∧ u.escapedPath.front ≠ '/') ↔ (u.path ≠ "" ∧ u.path.front ≠ '/') := by
  unfold URL.escapedPath
  split_ifs with h
  · rw [h]
  · exact escape_path_slash u.path

theorem setPath_pathPart {u : URL} {path rawPath : Bytes}
    (h : setPath (bytesOf (pathPart u)) = .ok (path, rawPath)) :
    path = bytesOf ((if u.path ≠ "" ∧ u.path.front ≠ '/' then "/" else "") ++ u.path) := by
  obtain ⟨p, hp, h⟩ := except_bind_eq_ok h
  cases h
  rw [(unescape_ok hp).2, pathPart]
  simp only [escapedPath_slash]
  have hE : unescapeBytes .path (bytesOf u.escapedPath) = bytesOf u.path := by
    unfold URL.escapedPath
    split_ifs with hs
    · rw [hs]; rfl
    · rw [← List.append_nil (bytesOf (escape u.path .path)), unescapeBytes_escape]
      exact List.append_nil _
  split_ifs
  · rw [bytesOf_append, bytesOf_append, show bytesOf "/" = ['/'.toNat] from rfl, List.singleton_append,
      List.singleton_append, unescapeBytes_raw (by decide) (by decide), hE]
  · rw [bytesOf_append, bytesOf_append, bytesOf_empty, List.nil_append, List.nil_append, hE]

theorem urlParse_of_not_mem {raw : Bytes} (h : '#'.toNat ∉ raw) : urlParse raw = parse raw := by
  unfold urlParse
  rw [cut_of_not_mem h]
  cases hp : parse raw <;> simp [hp, bind, Except.bind, pure, Except.pure]

theorem parse_ctl {raw : Bytes} (h : containsCTLByte raw = true) : parse raw = .error .invalidControl := by
  simp [parse, h, bind, Except.bind, throw, throwThe, MonadExceptOf.throw]

theorem not_mem_pathPart {d : Char} (hd : d ∈ ['#', '?']) (u : URL) : d.toNat ∉ bytesOf (pathPart u) := by
  have he : shouldEscape d .path = true := by
    simp only [List.mem_cons, List.mem_singleton, List.not_mem_nil, or_false] at hd
    rcases hd with rfl | rfl <;> decide
  have hs : d.toNat ∉ bytesOf "/" ∧ d.toNat ∉ bytesOf "*" ∧ d.toNat ∉ bytesOf "" := by
    simp only [List.mem_cons, List.mem_singleton, List.not_mem_nil, or_false] at hd
    rcases hd with rfl | rfl <;> decide
  unfold pathPart URL.escapedPath
  rw [bytesOf_append]
  refine List.not_mem_append (by split_ifs <;> simp [hs.1, hs.2.2]) ?_
  split_ifs
  · exact hs.2.1
  · exact not_mem_bytesOf_escape
      ((show ['#', '?'] ⊆ ['#', '?', '/', '@', ':', '&', '=', ';', '['] by decide) hd) he _

theorem pathPart_head (u : URL) :
    bytesOf (pathPart u) = [] ∨ ∃ t, bytesOf (pathPart u) = '/'.toNat :: t := by
  unfold pathPart
  split_ifs with h
  · exact .inr ⟨bytesOf u.escapedPath, by rw [bytesOf_append]; rfl⟩
  · rw [bytesOf_append, bytesOf_empty, List.nil_append]
    generalize u.escapedPath = e at h ⊢
    obtain ⟨_ | ⟨c, cs⟩⟩ := e
    · exact .inl rfl
    · have hc : c = '/' := by
        by_contra hc
        exact h ⟨(fun he => by cases congrArg String.data he), hc⟩
      subst hc
      exact .inr ⟨_, by rw [bytesOf_cons, utf8Nat_ascii (by decide)]; rfl⟩

theorem escape_host_ne_nil {H : String} (hh : H ≠ "") : bytesOf (escape H .host) ≠ [] := fun h => by
  have := unescapeBytes_escape .host H []
  rw [h] at this
  exact hh (bytesOf_eq_nil.mp (List.append_eq_nil.mp this.symm).1)

def userPart (u : URL) : Bytes :=
  match u.user with
  | some ui => bytesOf ui.string ++ ['@'.toNat]
  | none => []

theorem not_mem_userPart {d : Char} (hd : d ∈ ['#', '?', '/']) (u : URL) : d.toNat ∉ userPart u := by
  have hs : d ∈ ['#', '?', '/', '@', ':', '&', '=', ';', '['] :=
    (show ['#', '?', '/'] ⊆ ['#', '?', '/', '@', ':', '&', '=', ';', '['] by decide) hd
  simp only [List.mem_cons, List.mem_singleton, List.not_mem_nil, or_false] at hd
  unfold userPart
  split
  · rename_i ui _
    refine List.not_mem_append (not_mem_userinfo hs (by rcases hd with rfl | rfl | rfl <;> decide) ui
      (by rcases hd with rfl | rfl | rfl <;> decide)) ?_
    rcases hd with rfl | rfl | rfl <;> decide
  · exact List.not_mem_nil _

/-- `url.Parse` of the string of a URL with a host and a well-formed or empty scheme reads
back, when it succeeds, every component: scheme in lower case, user, host, path and query. -/
theorem urlParse_string {u : URL} (hh : u.host ≠ "") (hs : u.scheme = "" ∨ validScheme u.scheme = true)
    (hq : '#' ∉ u.rawQuery.toList ∧ '?' ∉ u.rawQuery.toList) {v : ParsedURL}
    (hv : urlParse (bytesOf u.string) = .ok v) :
    v.scheme = toLowerASCII (bytesOf u.scheme) ∧ v.opaquePart = [] ∧ v.user = u.user.map userinfoBytes ∧
      v.host = bytesOf u.host ∧
      v.path = bytesOf ((if u.path ≠ "" ∧ u.path.front ≠ '/' then "/" else "") ++ u.path) ∧
      v.rawQuery = bytesOf u.rawQuery ∧ v.fragment = [] := by
  have hR : '#'.toNat ∉ bytesOf u.rawQuery ∧ '?'.toNat ∉ bytesOf u.rawQuery :=
    ⟨fun h => hq.1 ((mem_bytesOf (by decide)).mp h), fun h => hq.2 ((mem_bytesOf (by decide)).mp h)⟩
  have hQ : (if u.rawQuery ≠ "" then '?'.toNat :: bytesOf u.rawQuery else []) =
      if bytesOf u.rawQuery ≠ [] then '?'.toNat :: bytesOf u.rawQuery else [] := by
    simp only [ne_eq, bytesOf_eq_nil]
  -- the authority, the path and what stands before the query
  set A := userPart u ++ bytesOf (escape u.host .host) with hA
  set P := bytesOf (pathPart u) with hP
  have hnA : ∀ d ∈ ['#', '?', '/'], d.toNat ∉ A := fun d hd =>
    List.not_mem_append (not_mem_userPart hd u) (not_mem_bytesOf_escape
      ((show ['#', '?', '/'] ⊆ ['#', '?', '/', '@', ':', '&', '=', ';', '['] by decide) hd)
      (by simp only [List.mem_cons, List.mem_singleton, List.not_mem_nil, or_false] at hd
          rcases hd with rfl | rfl | rfl <;> decide) _)
  have hY : ∀ d ∈ ['#', '?'], d.toNat ∉ '/'.toNat :: '/'.toNat :: (A ++ P) := fun d hd => by
    have h₁ := hnA d ((show ['#', '?'] ⊆ ['#', '?', '/'] by decide) hd)
    have h₂ := not_mem_pathPart hd u
    simp only [List.mem_cons, List.mem_singleton, List.not_mem_nil, or_false] at hd
    simp only [List.mem_cons, List.mem_append, not_or]
    exact ⟨by rcases hd with rfl | rfl <;> decide, by rcases hd with rfl | rfl <;> decide, h₁, h₂⟩
  have hraw := bytesOf_string hh
  rw [hQ] at hraw
  change bytesOf u.string = _ ++ '/'.toNat :: '/'.toNat :: (A ++ P ++ _) at hraw
  set Q := if bytesOf u.rawQuery ≠ [] then '?'.toNat :: bytesOf u.rawQuery else [] with hQ
  have hsch : getScheme (bytesOf u.string) =
      .ok (bytesOf u.scheme, ('/'.toNat :: '/'.toNat :: (A ++ P)) ++ Q) := by
    rw [hraw, List.cons_append, List.cons_append]
    rcases hs with hs | hs
    · rw [if_neg (not_not.mpr hs), List.nil_append, hs, bytesOf_empty]
      exact getScheme_slash _
    · have hne : u.scheme ≠ "" := fun h => by rw [h] at hs; cases hs
      rw [if_pos hne, List.append_assoc, List.singleton_append]
      exact getScheme_valid hs _
  have hfrag : '#'.toNat ∉ bytesOf u.string := by
    rw [hraw, show '/'.toNat :: '/'.toNat :: (A ++ P ++ Q) = ('/'.toNat :: '/'.toNat :: (A ++ P)) ++ Q
      from rfl]
    refine List.not_mem_append ?_ (List.not_mem_append (hY '#' (by decide)) ?_)
    · rcases hs with hs | hs
      · rw [if_neg (not_not.mpr hs)]; exact List.not_mem_nil _
      · split_ifs
        · exact List.not_mem_append (not_mem_validScheme hs (by decide)) (by decide)
        · exact List.not_mem_nil _
    · rw [hQ]; split_ifs
      · exact List.not_mem_cons_of_ne_of_not_mem (by decide) hR.1
      · exact List.not_mem_nil _
  have hstar : bytesOf u.string ≠ ['*'.toNat] := fun h => by
    have : '/'.toNat ∈ bytesOf u.string := by rw [hraw]; simp
    rw [h] at this
    exact absurd this (by decide)
  have hA0 : A ≠ [] := fun h => escape_host_ne_nil hh (List.append_eq_nil.mp h).2
  rw [urlParse_of_not_mem hfrag] at hv
  cases hctl : containsCTLByte (bytesOf u.string)
  case true => rw [parse_ctl hctl] at hv; cases hv
  rw [parse_stages hstar hctl hsch (splitQuery_of (hY '?' (by decide)) hR.2),
    parseAuthorityPart_of _ (hnA '/' (by decide)) hA0 (pathPart_head u)] at hv
  cases hpa : parseAuthority A with
  | error e => rw [hpa] at hv; cases hv
  | ok r =>
    obtain ⟨user, host⟩ := r
    rw [hpa] at hv
    simp only [Except.map, bind, Except.bind] at hv
    cases hsp : setPath P with
    | error e => rw [hsp] at hv; cases hv
    | ok pr =>
      rw [hsp] at hv
      cases hv
      obtain ⟨hu, hhost⟩ := @parseAuthority_escape u.user u.host _ _ hpa
      exact ⟨rfl, rfl, hu, hhost, setPath_pathPart hsp, rfl, rfl⟩

end AtlasOperator.Proofs