import AtlasOperator.Proofs.Pass

namespace AtlasOperator.Proofs

section Ops

variable {fs fs' : Fs} {p data : String}

theorem mkdir_ok (h : fs.mkdir p = .ok fs') :
    fs'.cwd = fs.cwd ∧ fs'.dirs = resolve fs.cwd p.toList :: fs.dirs ∧ fs'.files = fs.files ∧
      fs.present (resolve fs.cwd p.toList) = false := by
  dsimp only [Fs.mkdir] at h
  split at h
  · cases h
  · split at h
    · rename_i hp _
      cases h
      exact ⟨rfl, rfl, rfl, by simpa using hp⟩
    · cases h

theorem mkdirTempLoop_ok {t : TempNames} {pre : String} :
    ∀ {n k : Nat}, mkdirTempLoop fs t pre n k = .ok (p, fs') →
      fs'.cwd = fs.cwd ∧ fs'.dirs = resolve fs.cwd p.toList :: fs.dirs ∧ fs'.files = fs.files ∧
        fs.present (resolve fs.cwd p.toList) = false ∧ ∃ i, p = pre ++ t.random i
  | _, 0, h => by simp [mkdirTempLoop] at h
  | n, k + 1, h => by
    dsimp only [mkdirTempLoop] at h
    split at h
    · rename_i fs'' hm
      cases h
      obtain ⟨hc, hd, hf, hp⟩ := mkdir_ok hm
      exact ⟨hc, hd, hf, hp, n, rfl⟩
    · split at h
      · exact mkdirTempLoop_ok h
      · split at h <;> cases h

theorem tempDir_ok {t : TempNames} (h : tempDir fs t = .ok (p, fs')) :
    fs'.cwd = fs.cwd ∧ fs'.dirs = resolve fs.cwd p.toList :: fs.dirs ∧ fs'.files = fs.files ∧
      fs.present (resolve fs.cwd p.toList) = false ∧ p ≠ "" := by
  obtain ⟨hc, hd, hf, hp, i, rfl⟩ := mkdirTempLoop_ok h
  refine ⟨hc, hd, hf, hp, fun he => ?_⟩
  have h10 : "migrations".length = 10 := by decide
  have := congrArg String.length he
  unfold joinPath at this
  split at this <;> simp only [String.length_append, String.length_empty] at this <;> omega

theorem writeFile_ok (h : fs.writeFile p data = .ok fs') :
    fs'.cwd = fs.cwd ∧ fs'.dirs = fs.dirs ∧
      fs'.files = (resolve fs.cwd p.toList, data) ::
        fs.files.filter (·.1 ≠ resolve fs.cwd p.toList) := by
  dsimp only [Fs.writeFile] at h
  split at h
  · cases h
  · split at h
    · cases h
      exact ⟨rfl, rfl, rfl⟩
    · cases h

@[simp] theorem removeAll_cwd : (fs.removeAll p).cwd = fs.cwd := rfl

theorem mem_removeAll_dirs {q : FsPath} :
    q ∈ (fs.removeAll p).dirs ↔ q ∈ fs.dirs ∧ ¬ resolve fs.cwd p.toList <:+ q := by
  simp [Fs.removeAll, ← List.isSuffixOf_iff_suffix]

theorem removeAll_dirs_subset : (fs.removeAll p).dirs ⊆ fs.dirs :=
  fun _ hq => (mem_removeAll_dirs.mp hq).1

theorem not_mem_removeAll_dirs : resolve fs.cwd p.toList ∉ (fs.removeAll p).dirs :=
  fun hq => (mem_removeAll_dirs.mp hq).2 (List.suffix_refl _)

theorem cleanUp_run_cwd (cl : CleanUp) : (cl.run fs).cwd = fs.cwd := by
  cases cl <;> rfl

theorem cleanUp_run_dirs_subset (cl : CleanUp) : (cl.run fs).dirs ⊆ fs.dirs := by
  cases cl
  · exact List.Subset.refl _
  · exact removeAll_dirs_subset

end Ops

/-- No directory appears, and the working directory stays. -/
def Shrinks (s t : PassState) : Prop := t.fs.cwd = s.fs.cwd ∧ t.fs.dirs ⊆ s.fs.dirs

instance : IsRefl PassState Shrinks := ⟨fun _ => ⟨rfl, List.Subset.refl _⟩⟩

instance : IsTrans PassState Shrinks :=
  ⟨fun _ _ _ h₁ h₂ => ⟨h₂.1.trans h₁.1, h₂.2.trans h₁.2⟩⟩

theorem shrinks_run (s : PassState) (cl : CleanUp) : Shrinks s { s with fs := cl.run s.fs } :=
  ⟨cleanUp_run_cwd cl, cleanUp_run_dirs_subset cl⟩

/-- The write loop adds no directory, and when a write fails the directory it
writes into is gone. -/
theorem writeEntries_dirs (dir : String) :
    ∀ (es : List (String × String)) (s : PassState),
      Shrinks s (PassM.final (writeEntries dir es s)) ∧
        ∀ e t, writeEntries dir es s = .error e t → resolve s.fs.cwd dir.toList ∉ t.fs.dirs
  | [], _ => ⟨refl _, fun _ _ h => nomatch h⟩
  | (key, value) :: rest, s => by
    simp only [writeEntries]
    split
    · rename_i fs hw
      obtain ⟨hc, hd, -⟩ := writeFile_ok hw
      have ih := writeEntries_dirs dir rest { s with fs := fs }
      refine ⟨IsTrans.trans _ _ _ ⟨hc, hd ▸ List.Subset.refl _⟩ ih.1, fun e t h => ?_⟩
      simpa [hc] using ih.2 e t h
    · exact ⟨shrinks_run s (.removeAll dir), fun e t h => by
        cases h
        exact not_mem_removeAll_dirs⟩

variable {w : World} {m : GoMap} {s t : PassState}

/-- After `createTmpDirFromMap` returns, its cleanup function removes every
directory it made. -/
theorem createTmpDirFromMap_ok {d : String} {cl : CleanUp}
    (h : createTmpDirFromMap w m s = .ok (d, cl) t) : Shrinks s { t with fs := cl.run t.fs } := by
  obtain ⟨p, s₁, h₁, h₂⟩ := bind_eq_ok h
  obtain ⟨fs₁, ht, rfl⟩ := onFs_eq_ok h₁
  obtain ⟨hc, hd, -⟩ := tempDir_ok ht
  obtain ⟨_, u, hx, hp⟩ := bind_eq_ok h₂
  obtain ⟨hdc, rfl⟩ := pure_eq_ok hp
  cases (Prod.mk.inj hdc).2
  obtain ⟨hc', hd'⟩ : Shrinks { s with fs := fs₁ } t := by
    simpa [hx] using (writeEntries_dirs p (w.iter.visit m) { s with fs := fs₁ }).1
  refine ⟨by simp [CleanUp.run, hc', hc], fun q hq => ?_⟩
  obtain ⟨hq, hn⟩ := mem_removeAll_dirs.mp hq
  rcases List.mem_cons.mp (hd ▸ hd' hq) with rfl | hq
  · exact absurd (by simp [hc', hc]) hn
  · exact hq

theorem createTmpDirFromMap_error {e : Exit} (h : createTmpDirFromMap w m s = .error e t) :
    Shrinks s t := by
  rcases bind_eq_error h with h₁ | ⟨p, s₁, h₁, h₂⟩
  · rw [onFs_eq_error h₁]; exact refl _
  obtain ⟨fs₁, ht, rfl⟩ := onFs_eq_ok h₁
  obtain ⟨hc, hd, -⟩ := tempDir_ok ht
  rcases bind_eq_error h₂ with hx | ⟨_, u, -, hp⟩
  · obtain ⟨hc', hd'⟩ : Shrinks { s with fs := fs₁ } t := by
      simpa [hx] using (writeEntries_dirs p (w.iter.visit m) { s with fs := fs₁ }).1
    have hn := (writeEntries_dirs p (w.iter.visit m) { s with fs := fs₁ }).2 e t hx
    refine ⟨hc'.trans hc, fun q hq => ?_⟩
    rcases List.mem_cons.mp (hd ▸ hd' hq) with rfl | hq
    · exact absurd hq (by simpa [hc] using hn)
    · exact hq
  · cases hp

end AtlasOperator.Proofs
