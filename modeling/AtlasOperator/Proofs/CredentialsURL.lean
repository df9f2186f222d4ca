import AtlasOperator.Proofs.ParseString
import AtlasOperator.Proofs.Order

namespace AtlasOperator.Proofs

section Query

theorem intercalate_singleton_cons {α : Type} (x : α) (l : List α) :
    ∀ ls : List (List α), [x].intercalate (l :: ls) = l ++ ls.flatMap (x :: ·)
  | [] => by simp [List.intercalate]
  | l' :: ls => by
    have ih := intercalate_singleton_cons x l' ls
    simp [List.intercalate, List.intersperse_cons_cons] at ih ⊢
    rw [ih]

theorem bytesOf_intercalate_go :
    ∀ (acc s : String) (ps : List String),
      bytesOf (String.intercalate.go acc s ps) = bytesOf acc ++ ps.flatMap fun a => bytesOf s ++ bytesOf a
  | acc, s, [] => by simp [String.intercalate.go]
  | acc, s, p :: ps => by
    rw [String.intercalate.go, bytesOf_intercalate_go, bytesOf_append, bytesOf_append]
    simp

theorem bytesOf_intercalate : ∀ {ps : List String}, ps ≠ [] →
    bytesOf ("&".intercalate ps) = ['&'.toNat].intercalate (ps.map bytesOf)
  | p :: ps, _ => by
    rw [String.intercalate, bytesOf_intercalate_go, List.map_cons, intercalate_singleton_cons,
      List.flatMap_map]
    rfl

def pieceBytes (p : String × String) : Bytes := bytesOf (queryEscape p.1 ++ "=" ++ queryEscape p.2)

theorem map_pieceBytes (ps : List (String × String)) :
    (ps.map fun p => queryEscape p.1 ++ "=" ++ queryEscape p.2).map bytesOf = ps.map pieceBytes := by
  rw [List.map_map]
  rfl

theorem pieceBytes_eq (p : String × String) :
    pieceBytes p = bytesOf (queryEscape p.1) ++ '='.toNat :: bytesOf (queryEscape p.2) := by
  simp [pieceBytes, show bytesOf "=" = ['='.toNat] from rfl]

theorem not_mem_pieceBytes {d : Char} (hd : d ∈ ['#', '?', '&', ';']) (p : String × String) :
    d.toNat ∉ pieceBytes p := by
  have hs : d ∈ ['#', '?', '/', '@', ':', '&', '=', ';', '['] :=
    (show ['#', '?', '&', ';'] ⊆ ['#', '?', '/', '@', ':', '&', '=', ';', '['] by decide) hd
  have he : shouldEscape d .queryComponent = true := by
    simp only [List.mem_cons, List.mem_singleton, List.not_mem_nil, or_false] at hd
    rcases hd with rfl | rfl | rfl | rfl <;> decide
  rw [pieceBytes_eq]
  refine List.not_mem_append (not_mem_bytesOf_escape hs he _)
    (List.not_mem_cons_of_ne_of_not_mem ?_ (not_mem_bytesOf_escape hs he _))
  simp only [List.mem_cons, List.mem_singleton, List.not_mem_nil, or_false] at hd
  rcases hd with rfl | rfl | rfl | rfl <;> decide

theorem unescape_queryEscape (s : String) :
    unescape (bytesOf (queryEscape s)) .queryComponent = .ok (bytesOf s) := by
  have hc := unescapeError_escape (m := .queryComponent) ⟨by decide, by decide⟩ .queryComponent s []
  rw [List.append_nil] at hc
  rw [unescape, queryEscape, hc]
  simp only [unescapeError, Except.ok.injEq]
  rw [← List.append_nil (bytesOf (escape s .queryComponent)), unescapeBytes_escape]
  exact List.append_nil _

theorem parseQueryStep_piece (acc : ValuesBytes) (err : Option URLError) (p : String × String) :
    parseQueryStep (acc, err) (pieceBytes p) = (acc.add (bytesOf p.1) (bytesOf p.2), err) := by
  have hn : '='.toNat ∉ bytesOf (queryEscape p.1) :=
    not_mem_bytesOf_escape (by decide) (by decide) _
  unfold parseQueryStep
  rw [if_neg (not_mem_pieceBytes (by decide) p), if_neg (by rw [pieceBytes_eq]; simp),
    pieceBytes_eq, cut_append_cons hn]
  simp only [unescape_queryEscape]

theorem add_fresh {m : ValuesBytes} {k : Bytes} (h : ∀ q ∈ m, q.1 ≠ k) (v : Bytes) :
    m.add k v = m ++ [(k, [v])] := by
  rw [ValuesBytes.add, if_neg]
  simpa using fun b hm => h (k, b) hm rfl

theorem foldl_parseQueryStep (err : Option URLError) :
    ∀ (ps : List (String × String)) (acc : ValuesBytes), (ps.map Prod.fst).Nodup →
      (∀ p ∈ ps, ∀ q ∈ acc, q.1 ≠ bytesOf p.1) →
      (ps.map pieceBytes).foldl parseQueryStep (acc, err) =
        (acc ++ ps.map fun p => (bytesOf p.1, [bytesOf p.2]), err)
  | [], acc, _, _ => by simp
  | p :: ps, acc, hn, hf => by
    rw [List.map_cons, List.foldl_cons, parseQueryStep_piece,
      add_fresh (hf p (List.mem_cons_self _ _)), foldl_parseQueryStep err ps _ (List.nodup_cons.mp hn).2]
    · simp
    intro e he q hq
    rcases List.mem_append.mp hq with hq | hq
    · exact hf e (List.mem_cons_of_mem _ he) q hq
    · obtain rfl := List.mem_singleton.mp hq
      exact fun h => (List.nodup_cons.mp hn).1 (bytesOf_injective h ▸ List.mem_map_of_mem Prod.fst he)

theorem parseQuery_pieces {ps : List (String × String)} (hn : (ps.map Prod.fst).Nodup) (hne : ps ≠ []) :
    parseQuery (bytesOf ("&".intercalate (ps.map fun p => queryEscape p.1 ++ "=" ++ queryEscape p.2))) =
      (ps.map fun p => (bytesOf p.1, [bytesOf p.2]), none) := by
  rw [bytesOf_intercalate (by simpa using hne), map_pieceBytes, parseQuery,
    List.splitOn_intercalate _ _ _ (by simpa using hne)]
  · exact (foldl_parseQueryStep none ps [] hn (by simp)).trans (by simp)
  · intro l hl
    obtain ⟨p, -, rfl⟩ := List.mem_map.mp hl
    exact @not_mem_pieceBytes '&' (by decide) p

def encodePairs (v : Values) : List (String × String) :=
  ((v.map Prod.fst).insertionSort (fun a b => stringLe a b = true)).flatMap fun k =>
    (v.lookup k).map (k, ·)

theorem encode_eq_pairs (v : Values) :
    v.encode = "&".intercalate ((encodePairs v).map fun p => queryEscape p.1 ++ "=" ++ queryEscape p.2) := by
  simp [Values.encode, encodePairs, List.map_flatMap, Function.comp_def]

theorem lookup_singletons {es : List (String × String)} (hn : (es.map Prod.fst).Nodup)
    {e : String × String} (he : e ∈ es) :
    Values.lookup (es.map fun p => (p.1, [p.2])) e.1 = [e.2] := by
  have hn' : ((es.map fun p => (p.1, [p.2])).map Prod.fst).Nodup := by
    simpa [Function.comp_def] using hn
  have hm : (e.1, [e.2]) ∈ es.map fun p => (p.1, [p.2]) := List.mem_map_of_mem _ he
  obtain ⟨a, ha⟩ : ∃ a, (es.map fun p => (p.1, [p.2])).find? (·.1 = e.1) = some a :=
    Option.ne_none_iff_exists'.mp fun h => List.find?_eq_none.mp h _ hm (by simp)
  have hk : a.1 = e.1 := by simpa using List.find?_some ha
  rw [Values.lookup, ha, List.inj_on_of_nodup_map hn' (List.mem_of_find?_eq_some ha) hm hk]
  rfl

theorem encodePairs_perm {es : List (String × String)} (hn : (es.map Prod.fst).Nodup) :
    (encodePairs (es.map fun p => (p.1, [p.2]))).Perm es := by
  have hs := List.perm_insertionSort (fun a b => stringLe a b = true)
    ((es.map fun p => (p.1, [p.2])).map Prod.fst)
  refine (hs.flatMap_right _).trans ?_
  rw [List.map_map, List.flatMap_map, @List.flatMap_congr _ _ _ _ (fun e => [e]) fun e he => by
    simp only [Function.comp_apply, lookup_singletons hn he, List.map_singleton],
    List.flatMap_singleton']

/-- What `Values.Encode` writes for distinct keys, one value each, `ParseQuery` decodes
without error to the same keys and values, in sorted order. -/
theorem parseQuery_encode {es : List (String × String)} (hn : (es.map Prod.fst).Nodup) :
    (parseQuery (bytesOf (Values.encode (es.map fun e => (e.1, [e.2]))))).2 = none ∧
      (parseQuery (bytesOf (Values.encode (es.map fun e => (e.1, [e.2]))))).1.Perm
        (es.map fun e => (bytesOf e.1, [bytesOf e.2])) := by
  have hp := encodePairs_perm hn
  rcases es with _ | ⟨e, es⟩
  · exact ⟨rfl, .nil⟩
  have hne : encodePairs ((e :: es).map fun p => (p.1, [p.2])) ≠ [] := fun h =>
    List.cons_ne_nil _ _ (List.perm_nil.mp (h ▸ hp).symm)
  rw [encode_eq_pairs, parseQuery_pieces ((hp.map Prod.fst).nodup_iff.mpr hn) hne]
  exact ⟨rfl, hp.map _⟩

theorem not_mem_encode {d : Char} (hd : d = '#' ∨ d = '?') (v : Values) :
    d ∉ (Values.encode v).toList := by
  have hlt : d.toNat < 128 := by rcases hd with rfl | rfl <;> decide
  have ha : d.toNat ≠ '&'.toNat := by rcases hd with rfl | rfl <;> decide
  have hp : ∀ q, d.toNat ∉ pieceBytes q :=
    not_mem_pieceBytes (by rcases hd with rfl | rfl <;> decide)
  rw [← mem_bytesOf hlt, encode_eq_pairs]
  cases encodePairs v with
  | nil => exact List.not_mem_nil _
  | cons q qs =>
    rw [bytesOf_intercalate (by simp), map_pieceBytes, List.map_cons, intercalate_singleton_cons,
      List.mem_append, List.mem_flatMap]
    rintro (h | ⟨_, hr, h⟩)
    · exact hp q h
    · obtain ⟨r, -, rfl⟩ := List.mem_map.mp hr
      exact (List.mem_cons.mp h).elim ha (hp r)

end Query

section Credentials

variable (it : Iteration) (c : Credentials)

@[simp] theorem Credentials.URL_scheme : (c.URL it).scheme = c.scheme := by
  simp only [Credentials.URL, apply_ite AtlasOperator.URL.scheme, ite_self]

@[simp] theorem Credentials.URL_user : (c.URL it).user =
    if c.user ≠ "" ∨ c.password ≠ "" then some ⟨c.user, c.password, true⟩ else none := by
  simp only [Credentials.URL, apply_ite AtlasOperator.URL.user, ite_self]

@[simp] theorem Credentials.URL_host : (c.URL it).host =
    if c.port > 0 then c.host ++ ":" ++ toString c.port else c.host := rfl

@[simp] theorem Credentials.URL_path : (c.URL it).path = c.database := by
  simp only [Credentials.URL, apply_ite AtlasOperator.URL.path, ite_self]

@[simp] theorem Credentials.URL_rawQuery :
    (c.URL it).rawQuery = Values.encode (c.parameters.entries.map fun p => (p.1, [p.2])) := by
  simp only [Credentials.URL, apply_ite AtlasOperator.URL.rawQuery, ite_self, visit_encode]
  split_ifs with h
  · rfl
  · rw [List.length_eq_zero.mp (Nat.eq_zero_of_not_pos h)]
    rfl

end Credentials

/-- Whenever `url.Parse` accepts `Credentials.URL`'s string for a host and an empty or
well-formed scheme, it reads every field back, and `ParseQuery` the parameters. -/
theorem credentials_url_read_back (it : Iteration) {c : Credentials} (hh : c.host ≠ "")
    (hs : c.scheme = "" ∨ validScheme c.scheme = true) {v : ParsedURL}
    (hv : urlParse (bytesOf (c.URL it).string) = .ok v) :
    v.scheme = toLowerASCII (bytesOf c.scheme) ∧ v.opaquePart = [] ∧
      v.user = (if c.user ≠ "" ∨ c.password ≠ "" then
        some ⟨bytesOf c.user, bytesOf c.password, true⟩ else none) ∧
      v.host = bytesOf (if c.port > 0 then c.host ++ ":" ++ toString c.port else c.host) ∧
      v.path = bytesOf ((if c.database ≠ "" ∧ c.database.front ≠ '/' then "/" else "") ++
        c.database) ∧
      v.fragment = [] ∧ (parseQuery v.rawQuery).2 = none ∧
      (parseQuery v.rawQuery).1.Perm (c.parameters.entries.map fun e => (bytesOf e.1, [bytesOf e.2])) := by
  have hhost : (c.URL it).host ≠ "" := by
    rw [Credentials.URL_host]
    split_ifs
    · intro h
      have hl := congrArg String.length h
      have : ":".length = 1 := rfl
      simp only [String.length_append, String.length_empty] at hl
      omega
    · exact hh
  obtain ⟨h1, h2, h3, h4, h5, h6, h7⟩ := urlParse_string hhost (by rwa [Credentials.URL_scheme])
    (by rw [Credentials.URL_rawQuery]; exact ⟨not_mem_encode (.inl rfl) _, not_mem_encode (.inr rfl) _⟩) hv
  rw [Credentials.URL_scheme] at h1
  rw [Credentials.URL_host] at h4
  rw [Credentials.URL_path] at h5
  rw [Credentials.URL_rawQuery] at h6
  obtain ⟨hq1, hq2⟩ := parseQuery_encode c.parameters.nodup
  refine ⟨h1, h2, ?_, h4, h5, h7, h6 ▸ hq1, h6 ▸ hq2⟩
  rw [h3, Credentials.URL_user]
  split_ifs <;> rfl

/-- Credentials with a user, a password holding `@`, a port and one parameter. -/
def sampleCredentials : Credentials :=
  { scheme := "postgres", user := "root", password := "p@ss", host := "db", port := 5432,
    database := "app", parameters := ⟨[("sslmode", "disable")], by decide⟩ }

theorem sampleCredentials_read_back :
    sampleCredentials.host ≠ "" ∧ validScheme sampleCredentials.scheme = true ∧
      ∃ v, urlParse (bytesOf (sampleCredentials.URL .listed).string) = .ok v ∧
        v.user = some ⟨bytesOf "root", bytesOf "p@ss", true⟩ := by
  obtain ⟨v, hv⟩ : ∃ v, urlParse (bytesOf (sampleCredentials.URL .listed).string) = .ok v :=
    ⟨_, rfl⟩
  exact ⟨by decide, rfl, v, hv,
    (credentials_url_read_back .listed (by decide) (.inr (by rfl)) hv).2.2.1.trans (if_pos (by decide))⟩

/-- Credentials whose scheme holds `://`, a host of its own and a `#`. -/
def schemeInjected : Credentials :=
  { scheme := "postgres://evil/x#", host := "db.internal", database := "app" }

theorem scheme_injection_moves_host :
    (schemeInjected.URL .listed).string = "postgres://evil/x#://db.internal/app" ∧
      urlParse (bytesOf (schemeInjected.URL .listed).string) =
        .ok { scheme := bytesOf "postgres", host := bytesOf "evil", path := bytesOf "/x",
              fragment := bytesOf "://db.internal/app" } :=
  ⟨rfl, rfl⟩

end AtlasOperator.Proofs
