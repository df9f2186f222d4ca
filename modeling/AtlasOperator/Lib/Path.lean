import Mathlib.Data.List.Basic

namespace AtlasOperator

/-- A resolved path: directory names from the innermost one out, so `/tmp/m1` is `["m1", "tmp"]`. -/
abbrev FsPath := List (List Char)

/-- An element that names a real entry: not empty, not `.` and not `..`. -/
def plainElem (e : List Char) : Prop := e ≠ [] ∧ e ≠ ['.'] ∧ e ≠ ['.', '.'] ∧ '/' ∉ e

instance (e : List Char) : Decidable (plainElem e) := inferInstanceAs (Decidable (_ ∧ _))

/-- One element of `filepath.Clean`'s scan. Empty and `.` elements vanish; `..` removes the
last real element, vanishes at the root and stays before a relative path with nothing left. -/
def cleanStep (rooted : Bool) (rev : FsPath) (e : List Char) : FsPath :=
  if e = [] ∨ e = ['.'] then rev
  else if e = ['.', '.'] then
    match rev with
    | last :: rest => if last = ['.', '.'] then e :: rev else rest
    | [] => if rooted then [] else [e]
  else e :: rev

/-- `filepath.Clean`: the shortest lexically equal path; `"."` when nothing is left. -/
def clean (p : List Char) : List Char :=
  let rooted := p.head? = some '/'
  let es := ((p.splitOn '/').foldl (cleanStep rooted) []).reverse
  if rooted then '/' :: ['/'].intercalate es
  else if es = [] then ['.'] else ['/'].intercalate es

/-- `filepath.Join(dir, key)`: empty arguments are skipped, the rest joined by `/`
and cleaned. -/
def filepathJoin (dir key : String) : String :=
  if dir ≠ "" then ⟨clean (dir.toList ++ '/' :: key.toList)⟩
  else if key ≠ "" then ⟨clean key.toList⟩ else ""

/-- One element of the kernel's name lookup: `..` goes to the parent, the root
being its own parent. -/
def walkStep (cur : FsPath) (e : List Char) : FsPath :=
  if e = [] ∨ e = ['.'] then cur
  else if e = ['.', '.'] then cur.tail
  else e :: cur

/-- The entry a path names, from the root or from the working directory `cwd`
(symbolic links are not modelled). -/
def resolve (cwd : FsPath) (p : List Char) : FsPath :=
  (p.splitOn '/').foldl walkStep (if p.head? = some '/' then [] else cwd)

theorem splitOn_append_sep (t k : List Char) :
    (t ++ '/' :: k).splitOn '/' = t.splitOn '/' ++ k.splitOn '/' := by
  induction t with
  | nil => simp [List.splitOn]
  | cons c t ih =>
    simp only [List.splitOn, List.cons_append, List.splitOnP_cons] at ih ⊢
    rw [ih]
    split
    · rfl
    · obtain ⟨x, xs, hx⟩ := List.exists_cons_of_ne_nil (List.splitOnP_ne_nil (· == '/') t)
      simp [hx]

theorem sep_not_mem_splitOn (p : List Char) : ∀ e ∈ p.splitOn '/', '/' ∉ e := by
  induction p with
  | nil => simp
  | cons c p ih =>
    simp only [List.splitOn, List.splitOnP_cons] at ih ⊢
    split
    · rename_i h
      intro e he
      rcases List.mem_cons.mp he with rfl | he
      · simp
      · exact ih e he
    · rename_i h
      obtain ⟨x, xs, hx⟩ := List.exists_cons_of_ne_nil (List.splitOnP_ne_nil (· == '/') p)
      rw [hx] at ih ⊢
      intro e he
      simp only [List.modifyHead, List.mem_cons] at he
      rcases he with rfl | he
      · simp only [List.mem_cons, not_or]
        exact ⟨fun h' => h (by simp [← h']), ih x (by simp)⟩
      · exact ih e (by simp [he])

/-- What `clean` keeps are elements the kernel steps into; `..` only where a
relative path has no real element left to remove. -/
def Kept (rev : FsPath) : Prop := ∀ e ∈ rev, e ≠ [] ∧ e ≠ ['.'] ∧ '/' ∉ e

theorem walkStep_plain {e : List Char} (h : e ≠ [] ∧ e ≠ ['.'] ∧ e ≠ ['.', '.']) (cur : FsPath) :
    walkStep cur e = e :: cur := by
  simp [walkStep, h.1, h.2.1, h.2.2]

theorem walk_cleanStep {rooted : Bool} {base : FsPath} (hb : rooted = true → base = [])
    {rev : FsPath} (hk : Kept rev) (e : List Char) :
    (cleanStep rooted rev e).reverse.foldl walkStep base =
      walkStep (rev.reverse.foldl walkStep base) e := by
  unfold cleanStep
  by_cases h0 : e = [] ∨ e = ['.']
  · simp only [h0, if_true]
    rcases h0 with rfl | rfl <;> simp [walkStep]
  · simp only [h0, if_false]
    by_cases h1 : e = ['.', '.']
    · subst h1
      simp only [if_true]
      cases rev with
      | nil =>
        cases rooted
        · simp [walkStep]
        · simp [walkStep, hb rfl]
      | cons last rest =>
        by_cases hl : last = ['.', '.']
        · simp [hl]
        · have hp := hk last (by simp)
          simp only [hl, if_false, List.reverse_cons, List.foldl_append, List.foldl_cons,
            List.foldl_nil, walkStep_plain ⟨hp.1, hp.2.1, hl⟩]
          simp [walkStep]
    · simp [h1]

theorem kept_cleanStep {rooted : Bool} {rev : FsPath} (hk : Kept rev) {e : List Char}
    (he : '/' ∉ e) : Kept (cleanStep rooted rev e) := by
  unfold cleanStep
  split
  · exact hk
  · split
    · rename_i h0 h1
      subst h1
      split
      · split
        · intro x hx
          rcases List.mem_cons.mp hx with rfl | hx
          · simp
          · exact hk x hx
        · intro x hx; exact hk x (by simp [hx])
      · split
        · intro x hx; simp at hx
        · intro x hx; simp only [List.mem_singleton] at hx; subst hx; simp
    · rename_i h0 h1
      intro x hx
      rcases List.mem_cons.mp hx with rfl | hx
      · exact ⟨fun h => h0 (Or.inl h), fun h => h0 (Or.inr h), he⟩
      · exact hk x hx

theorem walk_cleanFold {rooted : Bool} {base : FsPath} (hb : rooted = true → base = []) :
    ∀ (es : List (List Char)) (rev : FsPath), Kept rev → (∀ e ∈ es, '/' ∉ e) →
      (es.foldl (cleanStep rooted) rev).reverse.foldl walkStep base =
        es.foldl walkStep (rev.reverse.foldl walkStep base)
  | [], _, _, _ => rfl
  | e :: es, rev, hk, hs => by
    rw [List.foldl_cons, List.foldl_cons, walk_cleanFold hb es _
      (kept_cleanStep hk (hs e (by simp))) (fun x hx => hs x (by simp [hx])),
      walk_cleanStep hb hk]

theorem kept_cleanFold (rooted : Bool) :
    ∀ (es : List (List Char)) (rev : FsPath), Kept rev → (∀ e ∈ es, '/' ∉ e) →
      Kept (es.foldl (cleanStep rooted) rev)
  | [], _, hk, _ => hk
  | e :: es, _, hk, hs =>
    kept_cleanFold rooted es _ (kept_cleanStep hk (hs e (by simp))) (fun x hx => hs x (by simp [hx]))

theorem walk_empty (cur : FsPath) : walkStep cur [] = cur := by simp [walkStep]

theorem walk_dot (cur : FsPath) : walkStep cur ['.'] = cur := by simp [walkStep]

theorem walk_intercalate (base : FsPath) (es : FsPath) (hk : Kept es) :
    List.foldl walkStep base ((['/'].intercalate es).splitOn '/') = es.foldl walkStep base := by
  cases es with
  | nil => exact walk_empty base
  | cons e es =>
    rw [List.splitOn_intercalate _ '/' (fun l hl => (hk l hl).2.2) (List.cons_ne_nil _ _)]

theorem resolve_rooted (cwd : FsPath) (x : List Char) :
    resolve cwd ('/' :: x) = (x.splitOn '/').foldl walkStep [] := by
  simp [resolve, List.splitOn, walk_empty]

theorem resolve_relative (cwd : FsPath) {x : List Char} (hx : x.head? ≠ some '/') :
    resolve cwd x = (x.splitOn '/').foldl walkStep cwd := by
  simp [resolve, hx]

theorem kept_reverse {rev : FsPath} (hk : Kept rev) : Kept rev.reverse :=
  fun e he => hk e (List.mem_reverse.mp he)

/-- Cleaning a path never changes the entry it names. -/
theorem resolve_clean (cwd : FsPath) (p : List Char) : resolve cwd (clean p) = resolve cwd p := by
  have hs := sep_not_mem_splitOn p
  unfold clean
  by_cases hr : p.head? = some '/'
  · have hk := kept_reverse (kept_cleanFold true (p.splitOn '/') [] (by simp [Kept]) hs)
    have hw := @walk_cleanFold true [] (fun _ => rfl) (p.splitOn '/') []
      (by simp [Kept]) hs
    simp only [hr, decide_True, if_true, resolve_rooted, walk_intercalate [] _ hk, hw]
    simp [resolve, hr]
  · have hk := kept_reverse (kept_cleanFold false (p.splitOn '/') [] (by simp [Kept]) hs)
    have hw := @walk_cleanFold false cwd (fun h => nomatch h) (p.splitOn '/')
      [] (by simp [Kept]) hs
    simp only [hr, decide_False, if_false, List.reverse_nil, List.foldl_nil] at hw hk ⊢
    rw [resolve_relative cwd hr]
    split
    · rename_i he
      rw [he] at hw
      simpa [resolve, walk_dot] using hw
    · rename_i he
      have hh : (['/'].intercalate
          ((p.splitOn '/').foldl (cleanStep false) []).reverse).head? ≠ some '/' := by
        obtain ⟨e, es, hes⟩ := List.exists_cons_of_ne_nil he
        rw [hes] at hk ⊢
        have he' := hk e (by simp)
        obtain ⟨c, cs, rfl⟩ := List.exists_cons_of_ne_nil he'.1
        have hc : c ≠ '/' := fun h => he'.2.2 (by simp [h])
        cases es <;> simp [List.intercalate, hc]
      rw [resolve_relative cwd hh, walk_intercalate cwd _ hk, hw]

/-- A plain key names a direct child of the directory it is joined to. -/
theorem resolve_join_plain (cwd : FsPath) {dir key : String} (hd : dir ≠ "")
    (hk : plainElem key.toList) :
    resolve cwd (filepathJoin dir key).toList = key.toList :: resolve cwd dir.toList := by
  have hj : (filepathJoin dir key).toList = clean (dir.toList ++ '/' :: key.toList) := by
    simp [filepathJoin, hd]
  have hs : key.toList.splitOn '/' = [key.toList] :=
    List.splitOnP_eq_single _ _ fun x hx h => hk.2.2.2 (by simpa [beq_iff_eq.mp h] using hx)
  obtain ⟨c, cs, hc⟩ : ∃ c cs, dir.toList = c :: cs :=
    List.exists_cons_of_ne_nil fun h => hd (String.ext h)
  rw [hj, resolve_clean]
  unfold resolve
  rw [splitOn_append_sep, List.foldl_append, hs, hc]
  simp only [List.foldl_cons, List.foldl_nil, List.cons_append, List.head?_cons]
  exact walkStep_plain ⟨hk.1, hk.2.1, hk.2.2.1⟩ _

end AtlasOperator
