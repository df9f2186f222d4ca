import Mathlib.Data.Nat.Digits
import AtlasOperator.Proofs.NoLoss

namespace AtlasOperator.Proofs

section Paths

theorem resolve_sep (cwd : FsPath) (L x : List Char) :
    resolve cwd (L ++ '/' :: x) = (x.splitOn '/').foldl walkStep (resolve cwd (L ++ ['/'])) := by
  have hh : (L ++ '/' :: x).head? = (L ++ ['/']).head? := by cases L <;> rfl
  unfold resolve
  rw [splitOn_append_sep, splitOn_append_sep, List.foldl_append, List.foldl_append, hh]
  simp [List.splitOn, walk_empty]

theorem resolve_slash (cwd : FsPath) {L : List Char} (hL : L ≠ []) :
    resolve cwd (L ++ ['/']) = resolve cwd L := by
  obtain ⟨c, cs, rfl⟩ := List.exists_cons_of_ne_nil hL
  unfold resolve
  rw [splitOn_append_sep]
  simp [List.splitOn, walk_empty]

theorem resolve_joinPath (cwd : FsPath) {dir name : String} (hd : dir ≠ "")
    (hn : plainElem name.toList) :
    resolve cwd (joinPath dir name).toList = name.toList :: resolve cwd dir.toList := by
  have hs : name.toList.splitOn '/' = [name.toList] :=
    List.splitOnP_eq_single _ _ fun x hx h => hn.2.2.2 (by simpa [beq_iff_eq.mp h] using hx)
  have hne : dir.toList ≠ [] := fun h => hd (String.ext h)
  have hw := walkStep_plain ⟨hn.1, hn.2.1, hn.2.2.1⟩ (resolve cwd dir.toList)
  unfold joinPath
  split
  · rename_i hb
    have hlast : dir.toList.getLast hne = '/' := by
      have hb := hb.2
      rw [String.back_eq, List.getLastD_eq_getLast?, List.getLast?_eq_getLast dir.data hne] at hb
      exact hb
    obtain ⟨L, hL⟩ : ∃ L, dir.toList = L ++ ['/'] :=
      ⟨_, hlast ▸ (List.dropLast_append_getLast hne).symm⟩
    have htl : (dir ++ name).toList = L ++ '/' :: name.toList := by
      show dir.toList ++ name.toList = _
      rw [hL, List.append_assoc]
      rfl
    rw [htl, resolve_sep, ← hL, hs]
    exact hw
  · have htl : (dir ++ "/" ++ name).toList = dir.toList ++ '/' :: name.toList :=
      List.append_assoc _ _ _
    rw [htl, resolve_sep, resolve_slash cwd hne, hs]
    exact hw

/-- `os.MkdirTemp` makes its directories in `os.TempDir()`, not empty, and no
random part of a name has a `/`. -/
def TempIn (dir : String) (t : TempNames) : Prop :=
  t.dir = dir ∧ dir ≠ "" ∧ ∀ i, '/' ∉ (t.random i).toList

/-- The directory `os.MkdirTemp` makes is an entry `migrations<random>` of
`os.TempDir()`. -/
theorem resolve_tempDir {fs fs' : Fs} {t : TempNames} {dir p : String} (ht : TempIn dir t)
    (h : tempDir fs t = .ok (p, fs')) : ∃ n, resolve fs.cwd p.toList = n :: resolve fs.cwd dir.toList := by
  obtain ⟨rfl, hd, hr⟩ := ht
  obtain ⟨-, -, -, -, i, rfl⟩ := mkdirTempLoop_ok h
  have hj : joinPath t.dir "migrations" ++ t.random i = joinPath t.dir ("migrations" ++ t.random i) := by
    unfold joinPath
    split <;> simp only [String.append_assoc]
  have hm : "migrations".toList = ['m', 'i', 'g', 'r', 'a', 't', 'i', 'o', 'n', 's'] := rfl
  have hn : plainElem ("migrations" ++ t.random i).toList := by
    rw [show ("migrations" ++ t.random i).toList = "migrations".toList ++ (t.random i).toList from
      String.data_append _ _, hm]
    have hr := hr i
    simp [plainElem] at hr ⊢
    exact hr
  exact ⟨_, hj ▸ resolve_joinPath fs.cwd hd hn⟩

theorem mem_toDigitsCore {c : Char} :
    ∀ (fuel n : Nat) (ds : List Char), c ∈ Nat.toDigitsCore 10 fuel n ds →
      c ∈ ds ∨ ∃ k < 10, c = Nat.digitChar k
  | 0, _, _, h => .inl h
  | fuel + 1, n, ds, h => by
    have hd : c ∈ Nat.digitChar (n % 10) :: ds → c ∈ ds ∨ ∃ k < 10, c = Nat.digitChar k := fun h =>
      (List.mem_cons.mp h).elim (fun e => .inr ⟨_, Nat.mod_lt _ (by decide), e⟩) .inl
    simp only [Nat.toDigitsCore] at h
    split_ifs at h
    · exact hd h
    · exact (mem_toDigitsCore fuel _ _ h).elim hd .inr

theorem digit_of_mem_toString {c : Char} {n : Nat} (h : c ∈ (toString n).toList) :
    ∃ k < 10, c = Nat.digitChar k :=
  (mem_toDigitsCore _ _ [] h).resolve_left (List.not_mem_nil _)

theorem slash_not_mem_toString (n : Nat) : '/' ∉ (toString n).toList := fun h => by
  obtain ⟨k, hk, he⟩ := digit_of_mem_toString h
  exact (show ∀ k < 10, Nat.digitChar k ≠ '/' by decide) k hk he.symm

end Paths

/-- Everything in `fs` that was not in `fs₀` lies strictly below the
directory `D`, seen from the same working directory. -/
structure Confined (fs₀ : Fs) (D : FsPath) (fs : Fs) : Prop where
  cwd : fs.cwd = fs₀.cwd
  below : ∀ q, fs.present q = true → fs₀.present q = true ∨ ∃ n, n :: D <:+ q

section Confined

variable {fs₀ fs fs' : Fs} {D q : FsPath} {p data : String}

theorem present_of_mkdir (h : fs.mkdir p = .ok fs') (hq : fs'.present q = true) :
    q = resolve fs.cwd p.toList ∨ fs.present q = true := by
  obtain ⟨-, hd, hf, -⟩ := mkdir_ok h
  simp only [present_iff, isDir_iff, hd, hf, List.mem_cons] at hq ⊢
  tauto

theorem present_of_writeFile (h : fs.writeFile p data = .ok fs') (hq : fs'.present q = true) :
    q = resolve fs.cwd p.toList ∨ fs.present q = true := by
  obtain ⟨-, hd, hf⟩ := writeFile_ok h
  rcases present_iff.mp hq with hq | hq
  · rw [isDir_iff, hd] at hq
    exact .inr (present_iff.mpr (.inl (isDir_iff.mpr hq)))
  · rw [hf, List.map_cons, List.mem_cons] at hq
    rcases hq with rfl | hq
    · exact .inl rfl
    · obtain ⟨f, hm, rfl⟩ := List.mem_map.mp hq
      exact .inr (present_iff.mpr (.inr (List.mem_map_of_mem _ (List.mem_filter.mp hm).1)))

theorem present_of_removeAll (hq : (fs.removeAll p).present q = true) : fs.present q = true :=
  present_mono removeAll_dirs_subset (fun x hx => by
    obtain ⟨f, hm, rfl⟩ := List.mem_map.mp hx
    exact List.mem_map_of_mem _ (mem_removeAll_files.mp hm).1) hq

theorem Confined.refl (fs : Fs) (D : FsPath) : Confined fs D fs := ⟨rfl, fun _ h => .inl h⟩

theorem Confined.trans (h₁ : Confined fs₀ D fs) (h₂ : Confined fs D fs') : Confined fs₀ D fs' :=
  ⟨h₂.cwd.trans h₁.cwd, fun q hq => (h₂.below q hq).elim (h₁.below q) .inr⟩

theorem Confined.grow (hs : Confined fs₀ D fs) (hc : fs'.cwd = fs.cwd)
    (hp : ∃ n, n :: D <:+ resolve fs.cwd p.toList)
    (h : ∀ q, fs'.present q = true → q = resolve fs.cwd p.toList ∨ fs.present q = true) :
    Confined fs₀ D fs' :=
  ⟨hc.trans hs.cwd, fun q hq => (h q hq).elim (fun e => .inr (e ▸ hp)) (hs.below q)⟩

theorem Confined.mkdir (hs : Confined fs₀ D fs) (h : fs.mkdir p = .ok fs')
    (hp : ∃ n, n :: D <:+ resolve fs.cwd p.toList) : Confined fs₀ D fs' :=
  hs.grow (mkdir_ok h).1 hp fun _ => present_of_mkdir h

theorem Confined.writeFile (hs : Confined fs₀ D fs) (h : fs.writeFile p data = .ok fs')
    (hp : ∃ n, n :: D <:+ resolve fs.cwd p.toList) : Confined fs₀ D fs' :=
  hs.grow (writeFile_ok h).1 hp fun _ => present_of_writeFile h

theorem Confined.cleanUp (hs : Confined fs₀ D fs) (cl : CleanUp) : Confined fs₀ D (cl.run fs) := by
  cases cl with
  | none => exact hs
  | removeAll dir => exact ⟨hs.cwd, fun q hq => hs.below q (present_of_removeAll hq)⟩

end Confined

section Writes

variable {fs₀ : Fs} {D : FsPath} {w : World} {T p : String}

theorem tempDir_confined {t : TempNames} (ht : TempIn T t) :
    KeepsFs (Confined fs₀ (resolve fs₀.cwd T.toList))
      (fun p => p ≠ "" ∧ ∃ n, resolve fs₀.cwd p.toList = n :: resolve fs₀.cwd T.toList)
      (onFs (tempDir · t)) := by
  intro s hs
  simp only [onFs]
  split
  · rename_i p fs₁ ht'
    obtain ⟨n, hn⟩ := resolve_tempDir ht ht'
    rw [hs.cwd] at hn
    refine ⟨hs.mkdir (mkdirTempLoop_mkdir ht') ⟨n, by rw [hs.cwd, hn]⟩, fun _ _ h => ?_⟩
    cases h
    exact ⟨(tempDir_ok ht').2.2.2.2, n, hn⟩
  · exact ⟨hs, fun _ _ h => nomatch h⟩

theorem writeEntries_confined (hne : p ≠ "") (hp : ∃ n, resolve fs₀.cwd p.toList = n :: D) :
    ∀ es : List (String × String), (∀ e ∈ es, plainElem e.1.toList) →
      KeepsFs (Confined fs₀ D) (fun _ => True) (writeEntries p es)
  | [], _ => keepsFs_pure trivial
  | (k, v) :: rest, hk => fun s hs => by
    simp only [writeEntries]
    split
    · rename_i fs₁ hf
      obtain ⟨n, hn⟩ := hp
      refine writeEntries_confined hne ⟨n, hn⟩ rest (fun e he => hk e (List.mem_cons_of_mem _ he)) _
        (hs.writeFile hf ⟨n, ?_⟩)
      rw [resolve_join_plain _ hne (hk (k, v) (List.mem_cons_self _ _)), hs.cwd, hn]
      exact List.suffix_cons _ _
    · exact ⟨hs.cleanUp (.removeAll p), fun _ _ h => nomatch h⟩

theorem createTmpDirFromMap_confined {m : GoMap} (hk : PlainKeys m) (ht : TempIn T w.temp) :
    KeepsFs (Confined fs₀ (resolve fs₀.cwd T.toList)) (fun _ => True) (createTmpDirFromMap w m) :=
  (tempDir_confined ht).bind fun _ ⟨hne, hp⟩ =>
    (writeEntries_confined hne hp _ fun e he => hk e ((w.iter.perm m).subset he)).bind
      fun _ _ => keepsFs_pure trivial

end Writes

/-- With plain file names for keys, everything a pass makes lies below the
directory its `os.MkdirTemp` draws in. -/
theorem pass_confined (lib : Lib) (w : World) (am : AtlasMigration) (fs : Fs) {T : String}
    (hl : PlainLocal am.spec) (hc : PlainConfigMaps w) (ht : TempIn T w.temp) :
    Confined fs (resolve fs.cwd T.toList) (PassM.final (pass lib w am fs)).fs :=
  pass_keepsFs (C := fun _ => True)
    (fun _ hm => createTmpDirFromMap_confined (plainKeys_of_mapOf hl hc hm) ht)
    lib (.refl fs _) trivial fun _ cl hs _ => hs.cleanUp cl

def StepTempIn (dir : String) : Step → Prop
  | .reconcile _ w _ => TempIn dir w.temp
  | _ => True

theorem step_confined (lib : Lib) {sys : System} (x : Step) (T : String) (hs : PlainStore sys)
    (hx : PlainStep x) (ht : StepTempIn T x) :
    Confined sys.fs (resolve sys.fs.cwd T.toList) (step lib sys x).fs := by
  rcases step_fs lib sys x with h | ⟨req, w, written, am, rfl, hg, h⟩ <;> rw [h]
  · exact .refl _ _
  · exact pass_confined lib w am sys.fs (hs _ (List.mem_map_of_mem _ (System.get_some hg).1)) hx ht

theorem run_confined (lib : Lib) (T : String) :
    ∀ (sys : System) (steps : List Step), PlainStore sys →
      (∀ x ∈ steps, PlainStep x ∧ StepTempIn T x) →
      Confined sys.fs (resolve sys.fs.cwd T.toList) (run lib sys steps).fs
  | sys, [], _, _ => .refl sys.fs _
  | sys, x :: xs, hs, hx =>
    have h₁ := step_confined lib x T hs (hx x (List.mem_cons_self _ _)).1 (hx x (List.mem_cons_self _ _)).2
    have h₂ := run_confined lib T (step lib sys x) xs
      (plainStore_step hs (hx x (List.mem_cons_self _ _)).1) fun y hy => hx y (List.mem_cons_of_mem _ hy)
    h₁.trans (by rwa [h₁.cwd] at h₂)

/-- Over any run whose maps have plain file names for keys and whose passes draw their
temporary directories in `T`, everything present at the end and not at the start lies below `T`. -/
theorem run_writes_below_tempDir (lib : Lib) (sys : System) (steps : List Step) (T : String)
    (hs : PlainStore sys) (hx : ∀ x ∈ steps, PlainStep x ∧ StepTempIn T x) :
    ∀ q, (run lib sys steps).fs.present q = true →
      sys.fs.present q = true ∨ ∃ n, n :: resolve sys.fs.cwd T.toList <:+ q :=
  (run_confined lib T sys steps hs hx).below

theorem run_writes_below_tempDir_bothDirs :
    PlainStore (System.init tmpWithFile) ∧ (∀ x ∈ bothDirsSteps, PlainStep x ∧ StepTempIn "/tmp" x) ∧
      ∀ q, (run okLib (System.init tmpWithFile) bothDirsSteps).fs.present q = true →
        (System.init tmpWithFile).fs.present q = true ∨
          ∃ n, n :: resolve (System.init tmpWithFile).fs.cwd "/tmp".toList <:+ q := by
  have hs : PlainStore (System.init tmpWithFile) := fun _ h => nomatch h
  have hx : ∀ x ∈ bothDirsSteps, PlainStep x ∧ StepTempIn "/tmp" x := by
    intro x hx
    simp only [bothDirsSteps, List.mem_cons, List.mem_singleton, List.not_mem_nil, or_false] at hx
    rcases hx with rfl | rfl | rfl
    · exact ⟨(by decide : PlainLocal bothDirs.spec), trivial⟩
    all_goals
      refine ⟨fun n m h => ?_, rfl, by decide, slash_not_mem_toString⟩
      cases h
      decide
  exact ⟨hs, hx, run_writes_below_tempDir okLib _ _ "/tmp" hs hx⟩

end AtlasOperator.Proofs
