import AtlasOperator.Proofs.Fingerprint
import AtlasOperator.Proofs.Materialize

namespace AtlasOperator.Proofs

section StringOrder

theorem charsLe_total : ∀ a b : List Char, charsLe a b = true ∨ charsLe b a = true
  | [], _ => .inl rfl
  | _ :: _, [] => .inr rfl
  | x :: as, y :: bs => by
    simp only [charsLe, Bool.or_eq_true, decide_eq_true_eq, Bool.and_eq_true]
    rcases Nat.lt_trichotomy x.toNat y.toNat with h | h | h
    · exact .inl (.inl h)
    · exact (charsLe_total as bs).imp (fun h' => .inr ⟨h, h'⟩) fun h' => .inr ⟨h.symm, h'⟩
    · exact .inr (.inl h)

theorem charsLe_trans :
    ∀ a b c : List Char, charsLe a b = true → charsLe b c = true → charsLe a c = true
  | [], _, _, _, _ => rfl
  | _ :: _, [], _, h, _ => by simp [charsLe] at h
  | _ :: _, _ :: _, [], _, h => by simp [charsLe] at h
  | x :: as, y :: bs, z :: cs, h₁, h₂ => by
    simp only [charsLe, Bool.or_eq_true, decide_eq_true_eq, Bool.and_eq_true] at h₁ h₂ ⊢
    rcases h₁ with h₁ | ⟨e₁, h₁⟩ <;> rcases h₂ with h₂ | ⟨e₂, h₂⟩
    · exact .inl (by omega)
    · exact .inl (by omega)
    · exact .inl (by omega)
    · exact .inr ⟨e₁.trans e₂, charsLe_trans as bs cs h₁ h₂⟩

theorem charsLe_antisymm : ∀ a b : List Char, charsLe a b = true → charsLe b a = true → a = b
  | [], [], _, _ => rfl
  | [], _ :: _, _, h => by simp [charsLe] at h
  | _ :: _, [], h, _ => by simp [charsLe] at h
  | x :: as, y :: bs, h₁, h₂ => by
    simp only [charsLe, Bool.or_eq_true, decide_eq_true_eq, Bool.and_eq_true] at h₁ h₂
    rcases h₁ with h₁ | ⟨e₁, h₁⟩ <;> rcases h₂ with h₂ | ⟨e₂, h₂⟩
    · omega
    · omega
    · omega
    · have hxy : x = y := by rw [← Char.ofNat_toNat x, ← Char.ofNat_toNat y, e₁]
      rw [hxy, charsLe_antisymm as bs h₁ h₂]

end StringOrder

/-- Sorting with `stringLe` on a key that no two elements share: every
permutation sorts to the same list. -/
theorem insertionSort_eq_of_perm {α : Type} (key : α → String) {l₁ l₂ : List α}
    (hp : l₁.Perm l₂) (hn : (l₁.map key).Nodup) :
    l₁.insertionSort (fun a b => stringLe (key a) (key b) = true) =
      l₂.insertionSort (fun a b => stringLe (key a) (key b) = true) := by
  let r := fun a b => stringLe (key a) (key b) = true
  haveI : IsTotal α r := ⟨fun a b => charsLe_total (key a).data (key b).data⟩
  haveI : IsTrans α r := ⟨fun a b c => charsLe_trans _ _ _⟩
  haveI : IsAntisymm α (fun a b => r a b ∧ key a ≠ key b) :=
    ⟨fun a b h₁ h₂ => absurd (String.ext (charsLe_antisymm _ _ h₁.1 h₂.1)) h₁.2⟩
  have sorted : ∀ l : List α, (l.map key).Nodup →
      (l.insertionSort r).Sorted (fun a b => r a b ∧ key a ≠ key b) := fun l hl =>
    (List.sorted_insertionSort r l).and
      (List.pairwise_map.mp (((List.perm_insertionSort r l).map key).nodup_iff.mpr hl))
  exact List.eq_of_perm_of_sorted
    ((List.perm_insertionSort r l₁).trans (hp.trans (List.perm_insertionSort r l₂).symm))
    (sorted l₁ hn) (sorted l₂ ((hp.map key).nodup_iff.mp hn))

section Query

theorem foldl_set_fresh :
    ∀ (es : List (String × String)) (acc : Values), (es.map Prod.fst).Nodup →
      (∀ e ∈ es, ∀ q ∈ acc, q.1 ≠ e.1) →
      es.foldl (fun qs p => Values.set qs p.1 p.2) acc = acc ++ es.map fun p => (p.1, [p.2])
  | [], acc, _, _ => by simp
  | (k, v) :: rest, acc, hn, hf => by
    have hk : acc.any (·.1 = k) = false := by
      simpa using fun q hq => hf (k, v) (List.mem_cons_self _ _) q hq
    rw [List.foldl_cons, Values.set, if_neg (by simp [hk]),
      foldl_set_fresh rest _ (List.nodup_cons.mp hn).2 fun e he q hq => ?_]
    · simp
    rcases List.mem_append.mp hq with hq | hq
    · exact hf e (List.mem_cons_of_mem _ he) q hq
    · obtain rfl := List.mem_singleton.mp hq
      exact fun h => (List.nodup_cons.mp hn).1 (h ▸ List.mem_map_of_mem Prod.fst he)

theorem lookup_perm {v₁ v₂ : Values} (hp : v₁.Perm v₂) (hn : (v₁.map Prod.fst).Nodup)
    (k : String) : v₁.lookup k = v₂.lookup k := by
  unfold Values.lookup
  congr 2
  cases h₁ : v₁.find? (·.1 = k) with
  | none =>
    refine (List.find?_eq_none.mpr fun x hx => ?_).symm
    exact List.find?_eq_none.mp h₁ x (hp.mem_iff.mpr hx)
  | some a =>
    have ha := List.find?_some h₁
    obtain ⟨b, h₂⟩ : ∃ b, v₂.find? (·.1 = k) = some b := Option.ne_none_iff_exists'.mp fun h₂ =>
      List.find?_eq_none.mp h₂ a (hp.mem_iff.mp (List.mem_of_find?_eq_some h₁)) ha
    have hb := List.find?_some h₂
    simp only [decide_eq_true_eq] at ha hb
    rw [h₂, List.inj_on_of_nodup_map hn (List.mem_of_find?_eq_some h₁)
      (hp.mem_iff.mpr (List.mem_of_find?_eq_some h₂)) (ha.trans hb.symm)]

theorem encode_perm {v₁ v₂ : Values} (hp : v₁.Perm v₂) (hn : (v₁.map Prod.fst).Nodup) :
    v₁.encode = v₂.encode := by
  have hk := insertionSort_eq_of_perm id (hp.map Prod.fst) (by simpa using hn)
  simp only [Values.encode, id] at hk ⊢
  simp only [hk, lookup_perm hp hn]

/-- The query `Credentials.URL` builds is the same in every iteration order. -/
theorem visit_encode (it : Iteration) (m : GoMap) :
    ((it.visit m).foldl (fun qs p => Values.set qs p.1 p.2) []).encode =
      Values.encode (m.entries.map fun p => (p.1, [p.2])) := by
  have hn : ((it.visit m).map Prod.fst).Nodup := ((it.perm m).map Prod.fst).nodup_iff.mpr m.nodup
  rw [foldl_set_fresh _ [] hn (by simp), List.nil_append]
  exact encode_perm ((it.perm m).map _) (by simpa [Function.comp_def] using hn)

theorem Credentials.URL_iter (it it' : Iteration) (c : Credentials) :
    c.URL it = c.URL it' := by
  simp only [Credentials.URL, visit_encode]

end Query

theorem extractURL_iter (w : World) (it : Iteration) (am : AtlasMigration) :
    extractURL { w with iter := it } am = extractURL w am := by
  simp only [extractURL, Credentials.URL_iter it w.iter]
  rfl

/-- Two file systems the controller's reads cannot tell apart: the same working directory and
directories, files at the same paths, and the same listing of every directory. -/
structure FsAlike (a b : Fs) : Prop where
  cwd : a.cwd = b.cwd
  dirs : a.dirs = b.dirs
  paths : ∀ q, q ∈ a.files.map Prod.fst ↔ q ∈ b.files.map Prod.fst
  listing : ∀ q, a.listing q = b.listing q

namespace FsAlike

variable {a b : Fs}

theorem refl (a : Fs) : FsAlike a a := ⟨rfl, rfl, fun _ => Iff.rfl, fun _ => rfl⟩

theorem isDir (h : FsAlike a b) (q : FsPath) : a.isDir q = b.isDir q := by
  simp only [Fs.isDir, h.dirs]

theorem present (h : FsAlike a b) (q : FsPath) : a.present q = b.present q := by
  simp only [Fs.present, h.isDir, h.paths]

theorem localDir (h : FsAlike a b) (p : String) : a.localDir p = b.localDir p := by
  simp only [Fs.localDir, h.cwd, h.isDir, h.present, h.listing]

theorem hash (h : FsAlike a b) (lib : Lib) (md : AtlasMigrationData) :
    md.hash lib a = md.hash lib b := by
  simp only [AtlasMigrationData.hash, AtlasMigrationData.hashInput, AtlasMigrationData.writes,
    AtlasMigrationData.writes.localPart, AtlasMigrationData.dirSum, h.localDir]

theorem mkdir (h : FsAlike a b) (p : String) :
    (∃ e, a.mkdir p = .error e ∧ b.mkdir p = .error e) ∨
      ∃ a' b', a.mkdir p = .ok a' ∧ b.mkdir p = .ok b' ∧ FsAlike a' b' := by
  simp only [Fs.mkdir, h.cwd, h.present, h.isDir]
  split_ifs
  · exact .inl ⟨_, rfl, rfl⟩
  · exact .inr ⟨_, _, rfl, rfl, ⟨rfl, congrArg (_ :: ·) h.dirs, h.paths, h.listing⟩⟩
  · exact .inl ⟨_, rfl, rfl⟩

theorem mkdirTempLoop (h : FsAlike a b) (t : TempNames) (pre : String) :
    ∀ n k, (∃ e, AtlasOperator.mkdirTempLoop a t pre n k = .error e ∧
        AtlasOperator.mkdirTempLoop b t pre n k = .error e) ∨
      ∃ p a' b', AtlasOperator.mkdirTempLoop a t pre n k = .ok (p, a') ∧
        AtlasOperator.mkdirTempLoop b t pre n k = .ok (p, b') ∧ FsAlike a' b'
  | _, 0 => .inl ⟨_, rfl, rfl⟩
  | n, k + 1 => by
    simp only [AtlasOperator.mkdirTempLoop]
    rcases h.mkdir (pre ++ t.random n) with ⟨e, ha, hb⟩ | ⟨a', b', ha, hb, h'⟩
    · simp only [ha, hb, h.cwd, h.present]
      split
      · exact mkdirTempLoop h t pre (n + 1) k
      · split <;> exact .inl ⟨_, rfl, rfl⟩
    · exact .inr ⟨_, a', b', by rw [ha], by rw [hb], h'⟩

theorem tempDir (h : FsAlike a b) (t : TempNames) :
    (∃ e, AtlasOperator.tempDir a t = .error e ∧ AtlasOperator.tempDir b t = .error e) ∨
      ∃ p a' b', AtlasOperator.tempDir a t = .ok (p, a') ∧ AtlasOperator.tempDir b t = .ok (p, b') ∧
        FsAlike a' b' :=
  h.mkdirTempLoop t _ 0 10000

end FsAlike

section Loop

variable {p : String}

def written (es : List (String × String)) (Q : FsPath) : List (FsPath × String) :=
  es.reverse.map fun e => (e.1.toList :: Q, e.2)

/-- The write loop over entries with distinct plain names, into a directory where none is a
directory, writes each entry to its own file and keeps every other file. -/
theorem writeEntries_closed (hp : p ≠ "") :
    ∀ (es : List (String × String)) (s : PassState), (es.map Prod.fst).Nodup →
      (∀ e ∈ es, plainElem e.1.toList) → s.fs.isDir (resolve s.fs.cwd p.toList) = true →
      (∀ e ∈ es, e.1.toList :: resolve s.fs.cwd p.toList ∉ s.fs.dirs) →
      ∃ fs', writeEntries p es s = .ok () { s with fs := fs' } ∧ fs'.cwd = s.fs.cwd ∧
        fs'.dirs = s.fs.dirs ∧ fs'.files = written es (resolve s.fs.cwd p.toList) ++
          s.fs.files.filter fun f => f.1 ∉ (written es (resolve s.fs.cwd p.toList)).map Prod.fst
  | [], s, _, _, _, _ => ⟨s.fs, rfl, rfl, rfl, by simp [written]⟩
  | (k, v) :: rest, s, hn, hk, hq, hd => by
    have hj : resolve s.fs.cwd (filepathJoin p k).toList = k.toList :: resolve s.fs.cwd p.toList :=
      resolve_join_plain s.fs.cwd hp (hk (k, v) (List.mem_cons_self _ _))
    obtain ⟨fs₁, hw⟩ : ∃ fs₁, s.fs.writeFile (filepathJoin p k) v = .ok fs₁ := by
      have hk' : s.fs.isDir (k.toList :: resolve s.fs.cwd p.toList) = false := by
        simpa [Fs.isDir] using hd (k, v) (List.mem_cons_self _ _)
      simp only [Fs.writeFile, hj, hk', List.tail_cons, hq, dite_true]
      exact ⟨_, rfl⟩
    obtain ⟨hc₁, hd₁, hf₁⟩ := writeFile_ok hw
    obtain ⟨fs', hx, hc, hdd, hf⟩ := writeEntries_closed hp rest { s with fs := fs₁ }
      (List.nodup_cons.mp hn).2 (fun e he => hk e (List.mem_cons_of_mem _ he))
      (by simpa [hc₁, hd₁, Fs.isDir] using hq)
      (fun e he => by simpa [hc₁, hd₁] using hd e (List.mem_cons_of_mem _ he))
    have hnk : k.toList :: resolve s.fs.cwd p.toList ∉
        (written rest (resolve s.fs.cwd p.toList)).map Prod.fst := by
      intro hm
      unfold written at hm
      obtain ⟨_, ha, heq⟩ := List.mem_map.mp hm
      obtain ⟨e, he, rfl⟩ := List.mem_map.mp ha
      exact (List.nodup_cons.mp hn).1
        (List.mem_map.mpr ⟨e, List.mem_reverse.mp he, String.ext (List.cons.inj heq).1⟩)
    have hcons : written ((k, v) :: rest) (resolve s.fs.cwd p.toList) =
        written rest (resolve s.fs.cwd p.toList) ++ [(k.toList :: resolve s.fs.cwd p.toList, v)] := by
      simp [written]
    refine ⟨fs', by simpa only [writeEntries, hw] using hx, hc.trans hc₁, hdd.trans hd₁, ?_⟩
    simp only [hc₁] at hf
    rw [hf, hf₁, hj, List.filter_cons_of_pos (by exact decide_eq_true hnk), hcons, List.append_assoc,
      List.singleton_append, List.filter_filter]
    congr 2
    refine List.filter_congr fun f _ => ?_
    rw [Bool.eq_iff_iff]
    simp only [Bool.and_eq_true, decide_eq_true_eq, List.map_append, List.mem_append, List.map_cons,
      List.map_nil, List.mem_singleton, not_or, ne_eq]

theorem writeEntries_error_of_dir (hp : p ≠ "") :
    ∀ (es : List (String × String)) (s : PassState), (∀ e ∈ es, plainElem e.1.toList) →
      (∃ e ∈ es, e.1.toList :: resolve s.fs.cwd p.toList ∈ s.fs.dirs) →
      ∃ x t, writeEntries p es s = .error x t
  | [], _, _, ⟨_, he, _⟩ => absurd he (List.not_mem_nil _)
  | (k, v) :: rest, s, hk, ⟨e, he, hed⟩ => by
    simp only [writeEntries]
    split
    · rename_i fs₁ hw
      obtain ⟨hc₁, hd₁, -⟩ := writeFile_ok hw
      rcases List.mem_cons.mp he with rfl | he
      · have hj : resolve s.fs.cwd (filepathJoin p k).toList = k.toList :: resolve s.fs.cwd p.toList :=
          resolve_join_plain s.fs.cwd hp (hk _ (List.mem_cons_self _ _))
        simp only [Fs.writeFile, hj, Fs.isDir] at hw
        rw [if_pos (by simpa using hed)] at hw
        cases hw
      · exact writeEntries_error_of_dir hp rest _ (fun e he => hk e (List.mem_cons_of_mem _ he))
          ⟨e, he, by rwa [hc₁, hd₁]⟩
    · exact ⟨_, _, rfl⟩

theorem children_written (es : List (String × String)) (Q d : FsPath) :
    (written es Q).filterMap (Fs.childOf d) = if d = Q then es.reverse else [] := by
  unfold written
  rw [List.filterMap_map]
  split_ifs with h
  · subst h
    conv_rhs => rw [← List.filterMap_some es.reverse]
    exact List.filterMap_congr fun e _ => by simp [Fs.childOf]
  · exact List.filterMap_eq_nil_iff.mpr fun e _ => by simp [Fs.childOf, Ne.symm h]

theorem children_kept (es : List (String × String)) {Q d : FsPath} (hd : d ≠ Q)
    (F : List (FsPath × String)) :
    (F.filter fun f => f.1 ∉ (written es Q).map Prod.fst).filterMap (Fs.childOf d) =
      F.filterMap (Fs.childOf d) := by
  rw [List.filterMap_filter]
  refine List.filterMap_congr fun f _ => ?_
  split_ifs with h
  · rfl
  · obtain ⟨e, he, hef⟩ : ∃ e ∈ written es Q, e.1 = f.1 := by simpa using h
    unfold written at he
    obtain ⟨e, -, rfl⟩ := List.mem_map.mp he
    obtain ⟨_ | ⟨n, d'⟩, v⟩ := f
    · cases hef
    · simp only at hef
      simp [Fs.childOf, ← (List.cons.inj hef).2, Ne.symm hd]

theorem mem_paths_written (W F : List (FsPath × String)) (q : FsPath) :
    q ∈ (W ++ F.filter fun f => f.1 ∉ W.map Prod.fst).map Prod.fst ↔
      q ∈ W.map Prod.fst ∨ q ∈ F.map Prod.fst := by
  simp only [List.map_append, List.mem_append, List.mem_map, List.mem_filter,
    decide_eq_true_eq]
  constructor
  · rintro (h | ⟨f, ⟨hf, -⟩, rfl⟩)
    exacts [.inl h, .inr ⟨f, hf, rfl⟩]
  · rintro (h | ⟨f, hf, rfl⟩)
    · exact .inl h
    · by_cases hw : ∃ a ∈ W, a.1 = f.1
      exacts [.inl hw, .inr ⟨f, ⟨hf, hw⟩, rfl⟩]

theorem alike_written {es₁ es₂ : List (String × String)} (hperm : es₁.Perm es₂)
    (hn : (es₁.map Prod.fst).Nodup) {a b a' b' : Fs} (h : FsAlike a b) {Q : FsPath}
    (hc : a.children Q = []) (hc' : b.children Q = [])
    (ha : a'.cwd = a.cwd ∧ a'.dirs = a.dirs ∧
      a'.files = written es₁ Q ++ a.files.filter fun f => f.1 ∉ (written es₁ Q).map Prod.fst)
    (hb : b'.cwd = b.cwd ∧ b'.dirs = b.dirs ∧
      b'.files = written es₂ Q ++ b.files.filter fun f => f.1 ∉ (written es₂ Q).map Prod.fst) :
    FsAlike a' b' := by
  have hrev : es₁.reverse.Perm es₂.reverse :=
    (List.reverse_perm _).trans (hperm.trans (List.reverse_perm _).symm)
  have hw : (written es₁ Q).Perm (written es₂ Q) := hrev.map _
  refine ⟨by rw [ha.1, hb.1, h.cwd], by rw [ha.2.1, hb.2.1, h.dirs], fun q => ?_, fun d => ?_⟩
  · rw [ha.2.2, hb.2.2, mem_paths_written, mem_paths_written, (hw.map Prod.fst).mem_iff, h.paths]
  · simp only [Fs.listing, Fs.children, ha.2.2, hb.2.2, List.filterMap_append, children_written]
    by_cases hd : d = Q
    · subst hd
      have hnil : ∀ (x : Fs) (es : List (String × String)), x.children d = [] →
          (x.files.filter fun f => f.1 ∉ (written es d).map Prod.fst).filterMap (Fs.childOf d) = [] :=
        fun x _ hx => List.sublist_nil.mp (hx ▸ (List.filter_sublist _).filterMap _)
      rw [if_pos rfl, if_pos rfl, hnil a es₁ hc, hnil b es₂ hc', List.append_nil, List.append_nil]
      exact insertionSort_eq_of_perm Prod.fst hrev (by simpa using hn)
    · rw [if_neg hd, if_neg hd, List.nil_append, List.nil_append, children_kept es₁ hd,
        children_kept es₂ hd]
      exact h.listing d

end Loop

/-- Two pass states that differ at most in what no read of the controller sees. -/
structure Alike (s t : PassState) : Prop where
  am : s.am = t.am
  events : s.events = t.events
  reads : s.reads = t.reads
  fs : FsAlike s.fs t.fs

theorem Alike.refl (s : PassState) : Alike s s := ⟨rfl, rfl, rfl, FsAlike.refl _⟩

/-- Two ends of a computation no later step can tell apart: both failed, or
both returned the same value in alike states. -/
def EndsAlike {α : Type} : EStateM.Result Exit PassState α → EStateM.Result Exit PassState α → Prop
  | .ok a s, .ok b t => a = b ∧ Alike s t
  | .error _ _, .error _ _ => True
  | _, _ => False

/-- From alike states, `x` and `y` end alike. -/
def Agree {α : Type} (x y : PassM α) : Prop := ∀ s t, Alike s t → EndsAlike (x s) (y t)

section Agree

variable {α β : Type}

theorem Agree.bind {x y : PassM α} {f g : α → PassM β} (hx : Agree x y)
    (hf : ∀ a, Agree (f a) (g a)) : Agree (x >>= f) (y >>= g) := by
  intro s t hst
  have h := hx s t hst
  cases hxs : x s <;> cases hyt : y t <;> simp only [hxs, hyt, EndsAlike] at h
  · rw [bind_ok hxs, bind_ok hyt, h.1]
    exact hf _ _ _ h.2
  · rw [bind_error hxs, bind_error hyt]
    trivial

theorem agree_pure (a : α) : Agree (pure a : PassM α) (pure a) := fun _ _ h => ⟨rfl, h⟩

theorem agree_fail (e e' : Err) : Agree (fail e : PassM α) (fail e') := fun _ _ _ => trivial

theorem agree_recordRead (r : Ref) : Agree (recordRead r) (recordRead r) :=
  fun _ _ h => ⟨rfl, h.am, h.events, congrArg (· ++ [r]) h.reads, h.fs⟩

end Agree

section Extract

variable (w : World) (it : Iteration) (am : AtlasMigration)

theorem agree_getSecretValue (ns : String) (sel : SecretKeySelector) :
    Agree (getSecretValue w ns sel) (getSecretValue w ns sel) := by
  refine (agree_recordRead _).bind fun _ => ?_
  split
  exacts [agree_pure _, agree_fail _ _]

theorem agree_extractURL : Agree (extractURL { w with iter := it } am) (extractURL w am) := by
  rw [extractURL_iter]
  unfold extractURL hydrateCredentials
  split_ifs
  · exact agree_pure _
  · split
    · exact agree_getSecretValue w _ _
    · refine Agree.bind ?_ fun _ => agree_pure _
      split
      · exact (agree_getSecretValue w _ _).bind fun _ => agree_pure _
      · exact agree_pure _
  · split
    · exact agree_getSecretValue w _ _
    · exact agree_pure _

theorem writeEntries_endsAlike {p : String} (hp : p ≠ "") {es₁ es₂ : List (String × String)}
    (hperm : es₁.Perm es₂) (hn : (es₁.map Prod.fst).Nodup) (hk : ∀ e ∈ es₁, plainElem e.1.toList)
    {s t : PassState} (hst : Alike s t) (hq : resolve s.fs.cwd p.toList ∈ s.fs.dirs)
    (hc : s.fs.children (resolve s.fs.cwd p.toList) = [])
    (hc' : t.fs.children (resolve s.fs.cwd p.toList) = []) :
    EndsAlike (writeEntries p es₁ s) (writeEntries p es₂ t) := by
  have hQ : resolve t.fs.cwd p.toList = resolve s.fs.cwd p.toList := by rw [hst.fs.cwd]
  have hk₂ : ∀ e ∈ es₂, plainElem e.1.toList := fun e he => hk e (hperm.mem_iff.mpr he)
  by_cases bad : ∃ e ∈ es₁, e.1.toList :: resolve s.fs.cwd p.toList ∈ s.fs.dirs
  · obtain ⟨x, s', h₁⟩ := writeEntries_error_of_dir hp es₁ s hk bad
    obtain ⟨e, he, hed⟩ := bad
    obtain ⟨y, t', h₂⟩ := writeEntries_error_of_dir hp es₂ t hk₂
      ⟨e, hperm.mem_iff.mp he, by rwa [hQ, ← hst.fs.dirs]⟩
    rw [h₁, h₂]
    trivial
  push_neg at bad
  obtain ⟨a', h₁, ha⟩ := writeEntries_closed hp es₁ s hn hk
    (by simp only [Fs.isDir, hq, or_true, decide_True]) bad
  obtain ⟨b', h₂, hb⟩ := writeEntries_closed hp es₂ t ((hperm.map Prod.fst).nodup_iff.mp hn) hk₂
    (by simp only [Fs.isDir, hQ, ← hst.fs.dirs, hq, or_true, decide_True])
    (fun e he => by rw [hQ, ← hst.fs.dirs]; exact bad e (hperm.mem_iff.mpr he))
  rw [h₁, h₂]
  rw [hQ] at hb
  exact ⟨rfl, hst.am, hst.events, hst.reads, alike_written hperm hn hst.fs hc hc' ha hb⟩

theorem agree_createTmpDirFromMap {m : GoMap} (hk : PlainKeys m) :
    Agree (createTmpDirFromMap { w with iter := it } m) (createTmpDirFromMap w m) := by
  intro s t hst
  rcases hst.fs.tempDir w.temp with ⟨e, ha, hb⟩ | ⟨p, a', b', ha, hb, hab⟩
  · have h₁ : onFs (tempDir · w.temp) s = .error (.err e) s := by simp [onFs, ha]
    have h₂ : onFs (tempDir · w.temp) t = .error (.err e) t := by simp [onFs, hb]
    rw [createTmpDirFromMap, createTmpDirFromMap, bind_error h₁, bind_error h₂]
    trivial
  have h₁ : onFs (tempDir · w.temp) s = .ok p { s with fs := a' } := by simp [onFs, ha]
  have h₂ : onFs (tempDir · w.temp) t = .ok p { t with fs := b' } := by simp [onFs, hb]
  obtain ⟨hca, hda, hfa, hpa, hp⟩ := tempDir_ok ha
  obtain ⟨hcb, -, hfb, hpb, -⟩ := tempDir_ok hb
  have hfresh : ∀ x : Fs, x.present (resolve s.fs.cwd p.toList) = false →
      x.children (resolve s.fs.cwd p.toList) = [] := fun x hx =>
    children_fresh (by simp only [Fs.present, decide_eq_false_iff_not, not_or] at hx; simpa using hx.1)
  have hw := writeEntries_endsAlike hp ((it.perm m).trans (w.iter.perm m).symm)
    (((it.perm m).map Prod.fst).nodup_iff.mpr m.nodup) (fun e he => hk e ((it.perm m).subset he))
    (s := { s with fs := a' }) (t := { t with fs := b' }) ⟨hst.am, hst.events, hst.reads, hab⟩
    (by simp [hca, hda]) (by rw [Fs.children, hfa, hca]; exact hfresh s.fs hpa)
    (by rw [Fs.children, hfb, hca]; exact hfresh t.fs (by rw [hst.fs.cwd]; exact hpb))
  rw [createTmpDirFromMap, createTmpDirFromMap, bind_ok h₁, bind_ok h₂]
  cases hx : writeEntries p (it.visit m) { s with fs := a' } <;>
    cases hy : writeEntries p (w.iter.visit m) { t with fs := b' } <;>
    simp only [hx, hy, EndsAlike] at hw
  · rw [bind_ok hx, bind_ok hy]
    exact ⟨rfl, hw.2⟩
  · rw [bind_error hx, bind_error hy]
    trivial

theorem agree_createTmpDirFromCfgMap (ns c : String)
    (hk : ∀ m, w.configMap ⟨ns, c⟩ = .ok m → PlainKeys m) :
    Agree (createTmpDirFromCfgMap { w with iter := it } ns c) (createTmpDirFromCfgMap w ns c) := by
  refine (agree_recordRead _).bind fun _ => ?_
  dsimp only
  split
  · exact agree_fail _ _
  · exact agree_createTmpDirFromMap w it (hk _ ‹_›)

theorem agree_extractConfigMapDir
    (hk : ∀ c m, am.spec.dir.configMapRef = some c → w.configMap ⟨am.ns, c⟩ = .ok m → PlainKeys m) :
    Agree (extractConfigMapDir { w with iter := it } am) (extractConfigMapDir w am) := by
  unfold extractConfigMapDir
  split
  · exact (agree_createTmpDirFromCfgMap w it _ _ (hk _ · ‹_›)).bind fun _ => agree_pure _
  · exact agree_pure _

theorem agree_extractLocalDir (hk : ∀ m, am.spec.dir.«local» = some m → PlainKeys m)
    (mig : Option Migration) (cl : CleanUp) :
    Agree (extractLocalDir { w with iter := it } am mig cl) (extractLocalDir w am mig cl) := by
  unfold extractLocalDir
  split
  · split_ifs
    · exact agree_fail _ _
    · exact (agree_createTmpDirFromMap w it (hk _ ‹_›)).bind fun _ => agree_pure _
  · exact agree_pure _

theorem agree_extractCloud : Agree (extractCloud { w with iter := it } am) (extractCloud w am) := by
  unfold extractCloud
  split
  · exact (agree_getSecretValue w _ _).bind fun _ => agree_pure _
  · exact agree_pure _

/-- With plain file names for the keys of the migration maps it reads,
`extractMigrationData` ends alike in every iteration order. -/
theorem agree_extractMigrationData (hl : ∀ m, am.spec.dir.«local» = some m → PlainKeys m)
    (hc : ∀ c m, am.spec.dir.configMapRef = some c → w.configMap ⟨am.ns, c⟩ = .ok m → PlainKeys m) :
    Agree (extractMigrationData { w with iter := it } am) (extractMigrationData w am) :=
  (agree_extractURL w it am).bind fun _ => (agree_extractConfigMapDir w it am hc).bind fun _ =>
    (agree_extractLocalDir w it am hl _ _).bind fun _ => (agree_extractCloud w it am).bind fun _ =>
      agree_pure _

end Extract

/-- When every key of the migration maps a resource reads is a plain file
name, its fingerprint is the same in every map iteration order. -/
theorem fingerprint_iteration_free (lib : Lib) (w : World) (it : Iteration) (am : AtlasMigration)
    (fs : Fs) (hl : ∀ m, am.spec.dir.«local» = some m → PlainKeys m)
    (hc : ∀ c m, am.spec.dir.configMapRef = some c → w.configMap ⟨am.ns, c⟩ = .ok m → PlainKeys m) :
    fingerprint lib { w with iter := it } am fs = fingerprint lib w am fs := by
  have h := agree_extractMigrationData w it am hl hc _ _ (Alike.refl ⟨am, fs, [], []⟩)
  unfold fingerprint
  cases hx : extractMigrationData { w with iter := it } am ⟨am, fs, [], []⟩ <;>
    cases hy : extractMigrationData w am ⟨am, fs, [], []⟩ <;> simp only [hx, hy, EndsAlike] at h
  · obtain ⟨rfl, hs⟩ := h
    exact congrArg some (hs.fs.hash lib _)
  · rfl

/-- Two migration files with plain names. -/
def twoFiles : GoMap :=
  ⟨[("1.sql", "create table a(id int);"), ("2.sql", "create table b(id int);")], by decide⟩

def twoFilesDir : AtlasMigration :=
  { name := "m", ns := "default",
    spec := { url := "sqlite://file", dir := { «local» := some twoFiles } },
    status := { conditions := [⟨"Ready", .false, "Reconciling", "Reconciling"⟩] } }

theorem fingerprint_iteration_free_twoFiles :
    (∀ m, twoFilesDir.spec.dir.«local» = some m → PlainKeys m) ∧
      (∀ c m, twoFilesDir.spec.dir.configMapRef = some c →
        oneFileWorld.configMap ⟨twoFilesDir.ns, c⟩ = .ok m → PlainKeys m) ∧
      fingerprint contentLib { oneFileWorld with iter := .reversed } twoFilesDir tmpOnly =
        fingerprint contentLib oneFileWorld twoFilesDir tmpOnly := by
  have hl : ∀ m, twoFilesDir.spec.dir.«local» = some m → PlainKeys m :=
    fun m h => Option.some.inj h ▸ by decide
  have hc : ∀ c m, twoFilesDir.spec.dir.configMapRef = some c →
      oneFileWorld.configMap ⟨twoFilesDir.ns, c⟩ = .ok m → PlainKeys m :=
    fun _ _ h => Option.noConfusion h
  exact ⟨hl, hc, fingerprint_iteration_free contentLib oneFileWorld .reversed twoFilesDir tmpOnly hl hc⟩

/- Visited in reverse, `2.sql` is written first; the checksum still reads the
files by name. -/
example : fingerprint contentLib { oneFileWorld with iter := .reversed } twoFilesDir tmpOnly =
    some (.ok "sqlite://filecreate table a(id int);create table b(id int);") := rfl

end AtlasOperator.Proofs
