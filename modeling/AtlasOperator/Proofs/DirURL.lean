import Mathlib.Data.Nat.Digits
import AtlasOperator.Proofs.ParseString
import AtlasOperator.Proofs.Fingerprint

namespace AtlasOperator.Proofs

section Plain

/-- A character that `url.Parse` keeps as it is in a path: not `%`, `#` or
`?`, and not a control character. -/
def plainChar (c : Char) : Bool :=
  c ≠ '%' && c ≠ '#' && c ≠ '?' && (' '.toNat ≤ c.toNat && c.toNat ≠ 0x7f)

theorem unescapeError_of_not_mem {m : Encoding} (hm : m ≠ .host ∧ m ≠ .zone) :
    ∀ {s : Bytes}, '%'.toNat ∉ s → unescapeError m s = none
  | [], _ => rfl
  | x :: s, h => by
    rw [unescapeError_raw hm (fun e => h (e ▸ List.mem_cons_self _ _)),
      unescapeError_of_not_mem hm fun e => h (List.mem_cons_of_mem _ e)]

theorem unescapeBytes_of_not_mem {m : Encoding} (hq : m ≠ .queryComponent) :
    ∀ {s : Bytes}, '%'.toNat ∉ s → unescapeBytes m s = s
  | [], _ => by rw [unescapeBytes.eq_def]
  | x :: s, h => by
    rw [unescapeBytes_raw (fun e => h (e ▸ List.mem_cons_self _ _)) (fun e => hq e.2),
      unescapeBytes_of_not_mem hq fun e => h (List.mem_cons_of_mem _ e)]

theorem toDigitsCore_plain :
    ∀ (fuel n : Nat) (ds : List Char), ds.all plainChar = true →
      (Nat.toDigitsCore 10 fuel n ds).all plainChar = true
  | 0, _, _, h => h
  | fuel + 1, n, ds, h => by
    have hd : plainChar (Nat.digitChar (n % 10)) = true :=
      (show ∀ k < 10, plainChar (Nat.digitChar k) = true by decide) _ (Nat.mod_lt _ (by decide))
    simp only [Nat.toDigitsCore]
    split_ifs
    · simp [hd, h]
    · exact toDigitsCore_plain fuel _ _ (by simp [hd, h])

theorem toString_plain (n : Nat) : (toString n).toList.all plainChar = true :=
  toDigitsCore_plain _ _ [] rfl

theorem unescape_path_of_not_mem {s : Bytes} (h : '%'.toNat ∉ s) : unescape s .path = .ok s := by
  rw [unescape, unescapeError_of_not_mem ⟨by decide, by decide⟩ h,
    unescapeBytes_of_not_mem (by decide) h]

theorem plain_bytes {p : String} (hc : p.toList.all plainChar = true) :
    '%'.toNat ∉ bytesOf p ∧ '#'.toNat ∉ bytesOf p ∧ '?'.toNat ∉ bytesOf p ∧
      containsCTLByte (bytesOf p) = false := by
  have hd : ∀ d : Char, d.toNat < 128 → d.toNat ∈ bytesOf p → plainChar d = true := fun d hd hm =>
    List.all_eq_true.mp hc d ((mem_bytesOf hd).mp hm)
  refine ⟨fun h => absurd (hd '%' (by decide) h) (by decide),
    fun h => absurd (hd '#' (by decide) h) (by decide),
    fun h => absurd (hd '?' (by decide) h) (by decide), ?_⟩
  rw [containsCTLByte, List.any_eq_false]
  intro b hb hctl
  have hsp : ' '.toNat = 32 := rfl
  simp only [hsp, decide_eq_true_eq] at hctl
  have hv : (Char.ofNat b).toNat = b := by
    rw [Char.ofNat, dif_pos (Or.inl (by omega))]
    rfl
  have := hd (Char.ofNat b) (by rw [hv]; omega) (by rw [hv]; exact hb)
  simp only [plainChar, hv, hsp, Bool.and_eq_true, decide_eq_true_eq] at this
  omega

end Plain

section FileURL

theorem parseAuthorityPart_empty {scheme : Bytes} (hs : scheme ≠ []) (P : Bytes) :
    parseAuthorityPart scheme ('/'.toNat :: '/'.toNat :: '/'.toNat :: P) =
      .ok (none, [], false, '/'.toNat :: P) := by
  unfold parseAuthorityPart
  rw [if_pos ⟨.inl hs, rfl⟩]
  rfl

theorem bytesOf_slash {p : String} (hs : p.toList.head? = some '/') :
    ∃ P, bytesOf p = '/'.toNat :: P := by
  obtain ⟨_ | ⟨c, l⟩⟩ := p
  · cases hs
  · obtain rfl : c = '/' := Option.some.inj hs
    exact ⟨_, by rw [bytesOf_cons, utf8Nat_ascii (by decide)]; rfl⟩

/-- `url.Parse` of `file://` followed by an absolute path of plain characters
succeeds, with no host and the path as it is. -/
theorem urlParse_file {p : String} (hs : p.toList.head? = some '/')
    (hc : p.toList.all plainChar = true) :
    urlParse (bytesOf ("file://" ++ p)) =
      .ok { scheme := bytesOf "file", path := bytesOf p,
            rawPath := if escapeBytes .path (bytesOf p) = bytesOf p then [] else bytesOf p } := by
  obtain ⟨hpc, hh, hq, hctl⟩ := plain_bytes hc
  obtain ⟨P, hP⟩ := bytesOf_slash hs
  have hraw : bytesOf ("file://" ++ p) =
      bytesOf "file" ++ ':'.toNat :: ('/'.toNat :: '/'.toNat :: bytesOf p) := by
    rw [bytesOf_append]; rfl
  have hsq : splitQuery ('/'.toNat :: '/'.toNat :: bytesOf p) =
      ('/'.toNat :: '/'.toNat :: bytesOf p, [], false) := by
    have := @splitQuery_of ('/'.toNat :: '/'.toNat :: bytesOf p) [] (by simpa using hq)
      (List.not_mem_nil _)
    rwa [if_neg (not_not.mpr rfl), List.append_nil] at this
  have hfrag : '#'.toNat ∉ bytesOf ("file://" ++ p) := by
    rw [hraw]
    simp only [List.mem_append, List.mem_cons, not_or]
    exact ⟨by decide, by decide, by decide, by decide, hh⟩
  have hctl' : containsCTLByte (bytesOf ("file://" ++ p)) = false := by
    unfold containsCTLByte at hctl ⊢
    rw [hraw, List.any_append, List.any_cons, List.any_cons, List.any_cons, hctl]
    decide
  have hstar : bytesOf ("file://" ++ p) ≠ ['*'.toNat] := fun h => by
    have := congrArg List.length h
    rw [hraw, List.length_append] at this
    simp only [List.length_cons, List.length_nil] at this
    omega
  rw [urlParse_of_not_mem hfrag, parse_stages hstar hctl' (hraw ▸ @getScheme_valid "file" rfl _) hsq, hP,
    parseAuthorityPart_empty (by decide), ← hP]
  simp only [bind, Except.bind, setPath, unescape_path_of_not_mem hpc, pure, Except.pure]
  rfl

theorem append_plain {a b : String} (ha : a.toList.head? = some '/')
    (hca : a.toList.all plainChar = true) (hcb : b.toList.all plainChar = true) :
    (a ++ b).toList.head? = some '/' ∧ (a ++ b).toList.all plainChar = true := by
  obtain ⟨_ | ⟨c, l⟩⟩ := a
  · cases ha
  · exact ⟨ha, by simp_all [String.toList]⟩

theorem tempDir_plain {fs fs' : Fs} {t : TempNames} {p : String}
    (hd : t.dir.toList.head? = some '/') (hc : t.dir.toList.all plainChar = true)
    (hr : ∀ n, (t.random n).toList.all plainChar = true) (h : tempDir fs t = .ok (p, fs')) :
    p.toList.head? = some '/' ∧ p.toList.all plainChar = true := by
  obtain ⟨-, -, -, -, i, rfl⟩ := mkdirTempLoop_ok h
  have hm : "migrations".toList.all plainChar = true := by decide
  unfold joinPath
  split_ifs
  · have h₁ := append_plain hd hc hm
    exact append_plain h₁.1 h₁.2 (hr i)
  · have h₁ := append_plain hd hc (show "/".toList.all plainChar = true by decide)
    have h₂ := append_plain h₁.1 h₁.2 hm
    exact append_plain h₂.1 h₂.2 (hr i)

end FileURL

section CreateTmpDir

variable {w : World} {m : GoMap} {s t : PassState} {d : String} {cl : CleanUp}

theorem createTmpDirFromMap_eq_ok (h : createTmpDirFromMap w m s = .ok (d, cl) t) :
    ∃ p fs₁, tempDir s.fs w.temp = .ok (p, fs₁) ∧ d = "file://" ++ p ∧ cl = .removeAll p := by
  obtain ⟨p, s₁, h₁, h₂⟩ := bind_eq_ok h
  obtain ⟨fs₁, ht, rfl⟩ := onFs_eq_ok h₁
  obtain ⟨_, u, -, hpu⟩ := bind_eq_ok h₂
  obtain ⟨hdc, -⟩ := pure_eq_ok hpu
  cases hdc
  exact ⟨p, fs₁, ht, rfl, rfl⟩

/-- With `os.TempDir()` and the random names absolute and plain, `url.Parse` of the URL
`createTmpDirFromMap` returns gives back the directory it made, which the cleanup removes. -/
theorem createTmpDirFromMap_url_path (hd : w.temp.dir.toList.head? = some '/')
    (hc : w.temp.dir.toList.all plainChar = true)
    (hr : ∀ n, (w.temp.random n).toList.all plainChar = true)
    (h : createTmpDirFromMap w m s = .ok (d, cl) t) :
    ∃ p fs₁, tempDir s.fs w.temp = .ok (p, fs₁) ∧ cl = .removeAll p ∧
      ∃ v, urlParse (bytesOf d) = .ok v ∧ v.path = bytesOf p := by
  obtain ⟨p, fs₁, ht, rfl, rfl⟩ := createTmpDirFromMap_eq_ok h
  obtain ⟨hs, hp⟩ := tempDir_plain hd hc hr ht
  exact ⟨p, fs₁, ht, rfl, _, urlParse_file hs hp, rfl⟩

theorem tmp_dir_url_path :
    ∃ p fs₁, tempDir tmpOnly oneFileWorld.temp = .ok (p, fs₁) ∧
      CleanUp.removeAll "/tmp/migrations0" = .removeAll p ∧
      ∃ v, urlParse (bytesOf "file:///tmp/migrations0") = .ok v ∧ v.path = bytesOf p := by
  obtain ⟨t, ht⟩ : ∃ t, createTmpDirFromMap oneFileWorld oneFile ⟨localOne, tmpOnly, [], []⟩ =
      .ok ("file:///tmp/migrations0", .removeAll "/tmp/migrations0") t := ⟨_, rfl⟩
  exact createTmpDirFromMap_url_path (by rfl) (by decide) toString_plain ht

end CreateTmpDir

/-- `$TMPDIR` set to the relative `tmp`, with the process in `/`. -/
def relativeTmpWorld : World := { oneFileWorld with temp := ⟨"tmp", fun n => toString n⟩ }

/-- Library calls that read the directory's path with `url.Parse`, its bytes
taken as characters, as they are for an ASCII path. -/
def urlParseLib : Lib :=
  { okLib with urlPath := fun u => match urlParse (bytesOf u) with
      | .ok v => .ok ⟨v.path.map Char.ofNat⟩
      | .error _ => .error ⟨"parse " ++ u, false⟩ }

theorem relative_tmpdir_moves_path :
    (∃ t, createTmpDirFromMap relativeTmpWorld oneFile ⟨localOne, tmpOnly, [], []⟩ =
        .ok ("file://tmp/migrations0", .removeAll "tmp/migrations0") t) ∧
      urlParse (bytesOf "file://tmp/migrations0") =
        .ok { scheme := bytesOf "file", host := bytesOf "tmp", path := bytesOf "/migrations0" } ∧
      fingerprint urlParseLib relativeTmpWorld localOne tmpOnly =
        some (.error ⟨"sql/migrate: stat /migrations0: no such file or directory", false⟩) :=
  ⟨⟨_, rfl⟩, rfl, rfl⟩

end AtlasOperator.Proofs
