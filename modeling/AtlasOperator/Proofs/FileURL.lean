import AtlasOperator.Proofs.DirURL

namespace AtlasOperator.Proofs

section Cut

variable {sep : Nat}

theorem cut_fst_begins (sep : Nat) : ∀ s : Bytes, (cut sep s).1 <+: s
  | [] => List.nil_prefix
  | c :: s => by
    unfold cut
    split
    · exact List.nil_prefix
    · exact List.cons_prefix_cons.mpr ⟨rfl, cut_fst_begins sep s⟩

theorem cut_fst_length_lt : ∀ {s : Bytes}, sep ∈ s → (cut sep s).1.length < s.length
  | c :: s, h => by
    unfold cut
    split
    · simp
    · rename_i hc
      have hs : sep ∈ s := (List.mem_cons.mp h).resolve_left fun e => hc e.symm
      simpa using cut_fst_length_lt hs

theorem cut_append_left : ∀ {F : Bytes}, sep ∉ F → ∀ s, (cut sep (F ++ s)).1 = F ++ (cut sep s).1
  | [], _, _ => rfl
  | c :: F, h, s => by
    rw [List.mem_cons, not_or] at h
    simp [cut, Ne.symm h.1, cut_append_left h.2 s]

end Cut

theorem splitQuery_slashes (X₀ : Bytes) :
    ∃ X, (splitQuery ('/'.toNat :: '/'.toNat :: '/'.toNat :: X₀)).1 =
        '/'.toNat :: '/'.toNat :: '/'.toNat :: X ∧ X <+: X₀ ∧
      ('?'.toNat ∈ X₀ → X.length < X₀.length) := by
  unfold splitQuery
  split_ifs with h
  · -- a lone `?` at the end, which is the last byte of `X₀`
    have hne : X₀ ≠ [] := by
      rintro rfl
      exact absurd h.1 (by decide)
    refine ⟨X₀.dropLast, ?_, List.dropLast_prefix _, fun _ => ?_⟩
    · obtain ⟨x, X₁, rfl⟩ := List.exists_cons_of_ne_nil hne
      simp only [List.dropLast_cons₂]
    · have := List.length_pos.mpr hne
      simp only [List.length_dropLast]
      omega
  · exact ⟨(cut '?'.toNat X₀).1, rfl, cut_fst_begins _ _, cut_fst_length_lt⟩

theorem unescapeBytes_length_le (mode : Encoding) (s : Bytes) :
    (unescapeBytes mode s).length ≤ s.length := by
  induction s using unescapeBytes.induct mode with
  | case1 => simp [unescapeBytes]
  | case2 h l rest ih =>
    simp only [unescapeBytes, if_true, List.length_cons]
    omega
  | case3 rest hr => simp [unescapeBytes.eq_3 mode _ rest hr]
  | case4 c rest hc _ ih | case5 c rest hc _ ih =>
    simp only [unescapeBytes_cons hc, List.length_cons]
    omega

theorem unescapeBytes_length_lt (mode : Encoding) {s : Bytes} (hs : '%'.toNat ∈ s) :
    (unescapeBytes mode s).length < s.length := by
  induction s using unescapeBytes.induct mode with
  | case1 => cases hs
  | case2 h l rest ih =>
    simp only [unescapeBytes, if_true, List.length_cons]
    have := unescapeBytes_length_le mode rest
    omega
  | case3 rest hr => simp [unescapeBytes.eq_3 mode _ rest hr]
  | case4 c rest hc _ ih | case5 c rest hc _ ih =>
    have := ih ((List.mem_cons.mp hs).resolve_left fun e => hc e.symm)
    simp only [unescapeBytes_cons hc, List.length_cons]
    omega

theorem urlParse_path {raw : Bytes} {u : ParsedURL} (h : urlParse raw = .ok u) :
    ∃ u₀ : ParsedURL, parse (cut '#'.toNat raw).1 = .ok u₀ ∧ u.path = u₀.path := by
  simp only [urlParse] at h
  cases hp : parse (cut '#'.toNat raw).1 with
  | error e =>
    rw [hp] at h
    cases h
  | ok u₀ =>
    refine ⟨u₀, rfl, ?_⟩
    rw [hp] at h
    simp only [bind, Except.bind, pure, Except.pure] at h
    split_ifs at h
    · cases h
      rfl
    · split at h
      · cases h
      · cases h
        rfl

/-- A successful `parse` of `file:///Q` has no control byte in `Q`, and its path unescapes `/X`
for a prefix `X` of `Q`, shorter than `Q` when `Q` holds a `?`. -/
theorem parse_file {Q : Bytes} {u : ParsedURL}
    (h : parse (bytesOf "file://" ++ '/'.toNat :: Q) = .ok u) :
    containsCTLByte Q = false ∧ ∃ X, X <+: Q ∧ ('?'.toNat ∈ Q → X.length < Q.length) ∧
      unescape ('/'.toNat :: X) .path = .ok u.path := by
  have hraw : bytesOf "file://" ++ '/'.toNat :: Q =
      bytesOf "file" ++ ':'.toNat :: '/'.toNat :: '/'.toNat :: '/'.toNat :: Q := rfl
  rw [hraw] at h
  cases hc : containsCTLByte (bytesOf "file" ++ ':'.toNat :: '/'.toNat :: '/'.toNat :: '/'.toNat :: Q)
  case true => rw [parse_ctl hc] at h; cases h
  have hq : containsCTLByte Q = false := by
    simp only [containsCTLByte, List.any_append, List.any_cons, Bool.or_eq_false_iff] at hc
    exact hc.2.2.2.2.2
  obtain ⟨X, hX, hpre, hlt⟩ := splitQuery_slashes Q
  refine ⟨hq, X, hpre, hlt, ?_⟩
  have hs : getScheme (bytesOf "file" ++ ':'.toNat :: '/'.toNat :: '/'.toNat :: '/'.toNat :: Q) =
      .ok (bytesOf "file", '/'.toNat :: '/'.toNat :: '/'.toNat :: Q) := getScheme_valid (by decide) _
  have hstar : bytesOf "file" ++ ':'.toNat :: '/'.toNat :: '/'.toNat :: '/'.toNat :: Q ≠ ['*'.toNat] :=
    fun he => by
      have := congrArg List.length he
      simp only [List.length_append, List.length_cons, List.length_singleton, List.length_nil] at this
      omega
  generalize hsq : splitQuery ('/'.toNat :: '/'.toNat :: '/'.toNat :: Q) = sq at hX
  obtain ⟨r, q, fq⟩ := sq
  subst hX
  unfold parse at h
  simp only [hc, hstar, hs, hsq, if_false, Bool.false_eq_true, bind, Except.bind, pure, Except.pure,
    List.head?_cons, ne_eq, not_true_eq_false, setPath,
    parseAuthorityPart_empty (by decide : toLowerASCII (bytesOf "file") ≠ [])] at h
  split at h
  · cases h
  · rename_i v hv
    cases h
    split at hv
    · cases hv
    · rename_i path hpath
      cases hv
      exact hpath

/-- Along the stages of `url.Parse` of `file:///P` the path never grows, and shrinks when `P`
holds a `#`, `?` or `%`; a control byte before the first `#` fails the parse. -/
theorem urlParse_file_length {P : Bytes} {u : ParsedURL}
    (h : urlParse (bytesOf "file://" ++ '/'.toNat :: P) = .ok u) :
    containsCTLByte (cut '#'.toNat P).1 = false ∧ u.path.length ≤ P.length + 1 ∧
      ('#'.toNat ∈ P ∨ '?'.toNat ∈ P ∨ '%'.toNat ∈ P → u.path.length < P.length + 1) := by
  obtain ⟨u₀, h₀, hu⟩ := urlParse_path h
  have hcut : (cut '#'.toNat (bytesOf "file://" ++ '/'.toNat :: P)).1 =
      bytesOf "file://" ++ '/'.toNat :: (cut '#'.toNat P).1 := by
    rw [show bytesOf "file://" ++ '/'.toNat :: P = (bytesOf "file://" ++ ['/'.toNat]) ++ P by simp,
      cut_append_left (by decide) P]
    simp
  rw [hcut] at h₀
  obtain ⟨hctl, X, hpre, hq, hx⟩ := parse_file h₀
  obtain ⟨-, hx⟩ := unescape_ok hx
  -- the lengths along the stages: `P`, its part before `#`, before `?`, unescaped
  have hlen : u.path.length = (unescapeBytes .path ('/'.toNat :: X)).length := by rw [hu, hx]
  have h₁ := (cut_fst_begins '#'.toNat P).length_le
  have h₂ := hpre.length_le
  have h₃ := unescapeBytes_length_le .path ('/'.toNat :: X)
  simp only [List.length_cons] at h₃
  refine ⟨hctl, by omega, fun hm => ?_⟩
  by_cases hh : '#'.toNat ∈ P
  · have := cut_fst_length_lt hh
    omega
  have hc : (cut '#'.toNat P).1 = P := by rw [cut_of_not_mem hh]
  rw [hc] at hpre hq
  rcases hm with hm | hm | hm
  · exact absurd hm hh
  · have := hq hm
    omega
  · rcases (Nat.lt_or_eq_of_le hpre.length_le).imp_right hpre.eq_of_length with hX | rfl
    · omega
    · have := unescapeBytes_length_lt .path (List.mem_cons_of_mem '/'.toNat hm)
      simp only [List.length_cons] at this
      omega

theorem plain_of_bytes {p : String} (h₁ : '%'.toNat ∉ bytesOf p) (h₂ : '#'.toNat ∉ bytesOf p)
    (h₃ : '?'.toNat ∉ bytesOf p) (h₄ : containsCTLByte (bytesOf p) = false) :
    p.toList.all plainChar = true := by
  rw [List.all_eq_true]
  intro c hc
  have hsp : ' '.toNat = 32 := rfl
  by_cases ha : c.toNat < 128
  · have hm : c.toNat ∈ bytesOf p := (mem_bytesOf ha).mpr hc
    have hctl : ¬ (c.toNat < 32 ∨ c.toNat = 0x7f) := fun hb => by
      rw [containsCTLByte, List.any_eq_false] at h₄
      exact h₄ _ hm (by simpa [hsp] using hb)
    have e₁ : c ≠ '%' := fun e => h₁ (e ▸ hm)
    have e₂ : c ≠ '#' := fun e => h₂ (e ▸ hm)
    have e₃ : c ≠ '?' := fun e => h₃ (e ▸ hm)
    simp only [plainChar, e₁, e₂, e₃, hsp, ne_eq, not_false_eq_true, decide_True, Bool.true_and,
      Bool.and_eq_true, decide_eq_true_eq]
    omega
  · have hn : ∀ d : Char, d.toNat < 128 → c ≠ d := fun d hd e => ha (e ▸ hd)
    simp only [plainChar, hn '%' (by decide), hn '#' (by decide), hn '?' (by decide), hsp, ne_eq,
      not_false_eq_true, decide_True, Bool.true_and, Bool.and_eq_true, decide_eq_true_eq]
    omega

/-- For an absolute `p` that holds a `%`, `#`, `?` or control character,
`url.Parse` of `file://` and `p` fails, or the path it gives is shorter than `p`. -/
theorem urlParse_file_not_plain {p : String} (hs : p.toList.head? = some '/')
    (hn : p.toList.all plainChar = false) :
    (∃ e, urlParse (bytesOf ("file://" ++ p)) = .error e) ∨
      ∃ u, urlParse (bytesOf ("file://" ++ p)) = .ok u ∧ u.path.length < (bytesOf p).length := by
  obtain ⟨P, hP⟩ := bytesOf_slash hs
  cases hu : urlParse (bytesOf ("file://" ++ p)) with
  | error e => exact .inl ⟨e, rfl⟩
  | ok u =>
    refine .inr ⟨u, rfl, ?_⟩
    rw [bytesOf_append, hP] at hu
    obtain ⟨hctl, -, hlt⟩ := urlParse_file_length hu
    rw [hP, List.length_cons]
    refine hlt ?_
    by_contra hm
    simp only [not_or] at hm
    obtain ⟨h₁, h₂, h₃⟩ := hm
    rw [cut_of_not_mem h₁] at hctl
    have hb : ∀ d, d ≠ '/'.toNat → d ∉ P → d ∉ bytesOf p := fun d hd h =>
      hP ▸ List.not_mem_cons_of_ne_of_not_mem hd h
    have hplain := plain_of_bytes (hb _ (by decide) h₃) (hb _ (by decide) h₁) (hb _ (by decide) h₂)
      (by rw [hP]; simpa [containsCTLByte] using hctl)
    exact Bool.false_ne_true (hn.symm.trans hplain)

/-- `url.Parse` gives back the path of `file://` and an absolute path `p`
exactly when `p` holds no `%`, `#`, `?` or control character. -/
theorem urlParse_file_path_iff {p : String} (hs : p.toList.head? = some '/') :
    (urlParse (bytesOf ("file://" ++ p))).map ParsedURL.path = .ok (bytesOf p) ↔
      p.toList.all plainChar = true := by
  refine ⟨fun h => ?_, fun hc => by rw [urlParse_file hs hc]; rfl⟩
  cases hc : p.toList.all plainChar
  · rcases urlParse_file_not_plain hs hc with ⟨e, he⟩ | ⟨u, hu, hlt⟩
    · rw [he] at h
      cases h
    · rw [hu] at h
      have hpath : u.path = bytesOf p := by injection h
      rw [hpath] at hlt
      exact absurd hlt (lt_irrefl _)
  · rfl

theorem head_append {a : String} (b : String) (ha : a.toList.head? = some '/') :
    (a ++ b).toList.head? = some '/' := by
  obtain ⟨_ | ⟨c, l⟩⟩ := a
  · cases ha
  · exact ha

theorem tempDir_absolute {fs fs' : Fs} {t : TempNames} {p : String}
    (hd : t.dir.toList.head? = some '/') (h : tempDir fs t = .ok (p, fs')) :
    p.toList.head? = some '/' := by
  obtain ⟨-, -, -, -, i, rfl⟩ := mkdirTempLoop_ok h
  unfold joinPath
  split_ifs
  · exact head_append _ (head_append _ hd)
  · exact head_append _ (head_append _ (head_append _ hd))

/-- `hash`'s `url.Parse` of the URL `createTmpDirFromMap` returns gives back the directory it
made exactly when its name is plain; otherwise the parse fails or the path is shorter. -/
theorem createTmpDirFromMap_read_back {w : World} {m : GoMap} {s t : PassState} {d : String}
    {cl : CleanUp} (hd : w.temp.dir.toList.head? = some '/')
    (h : createTmpDirFromMap w m s = .ok (d, cl) t) :
    ∃ p fs₁, tempDir s.fs w.temp = .ok (p, fs₁) ∧ d = "file://" ++ p ∧ cl = .removeAll p ∧
      ((urlParse (bytesOf d)).map ParsedURL.path = .ok (bytesOf p) ↔ p.toList.all plainChar = true) ∧
      (p.toList.all plainChar = false → (∃ e, urlParse (bytesOf d) = .error e) ∨
        ∃ u, urlParse (bytesOf d) = .ok u ∧ u.path.length < (bytesOf p).length) := by
  obtain ⟨p, fs₁, ht, rfl, rfl⟩ := createTmpDirFromMap_eq_ok h
  have hs := tempDir_absolute hd ht
  exact ⟨p, fs₁, ht, rfl, rfl, urlParse_file_path_iff hs, urlParse_file_not_plain hs⟩

/-- `TMPDIR` set to `/tmp/a#b`. -/
def fragmentWorld : World := { oneFileWorld with temp := ⟨"/tmp/a#b", fun n => toString n⟩ }

def fragmentFs : Fs := ⟨[], [["a#b".toList, "tmp".toList], ["tmp".toList]], [], fun _ h => nomatch h⟩

theorem createTmpDirFromMap_read_back_fragment :
    fragmentWorld.temp.dir.toList.head? = some '/' ∧
      (∃ t, createTmpDirFromMap fragmentWorld oneFile ⟨localOne, fragmentFs, [], []⟩ =
        .ok ("file:///tmp/a#b/migrations0", .removeAll "/tmp/a#b/migrations0") t) ∧
      ∃ p fs₁, tempDir fragmentFs fragmentWorld.temp = .ok (p, fs₁) ∧
        "file:///tmp/a#b/migrations0" = "file://" ++ p ∧ CleanUp.removeAll "/tmp/a#b/migrations0" = .removeAll p ∧
        ((urlParse (bytesOf "file:///tmp/a#b/migrations0")).map ParsedURL.path = .ok (bytesOf p) ↔
          p.toList.all plainChar = true) ∧
        (p.toList.all plainChar = false → (∃ e, urlParse (bytesOf "file:///tmp/a#b/migrations0") = .error e) ∨
          ∃ u, urlParse (bytesOf "file:///tmp/a#b/migrations0") = .ok u ∧
            u.path.length < (bytesOf p).length) := by
  obtain ⟨t, ht⟩ : ∃ t, createTmpDirFromMap fragmentWorld oneFile ⟨localOne, fragmentFs, [], []⟩ =
      .ok ("file:///tmp/a#b/migrations0", .removeAll "/tmp/a#b/migrations0") t := ⟨_, rfl⟩
  exact ⟨rfl, ⟨t, ht⟩, createTmpDirFromMap_read_back (by rfl) ht⟩

end AtlasOperator.Proofs
