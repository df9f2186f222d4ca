import Mathlib.Data.List.Sort
import AtlasOperator.Lib.Go
import AtlasOperator.Lib.Path

namespace AtlasOperator

/-- The process's file system: its working directory and the directories and files
(with their contents) that exist; every file sits in a directory. -/
structure Fs where
  cwd : FsPath
  dirs : List FsPath
  files : List (FsPath × String)
  parents : ∀ f ∈ files, f.1.tail = [] ∨ f.1.tail ∈ dirs

instance : DecidableEq Fs := fun a b =>
  decidable_of_iff (a.cwd = b.cwd ∧ a.dirs = b.dirs ∧ a.files = b.files) (by
    cases a; cases b; simp)

namespace Fs

def isDir (fs : Fs) (q : FsPath) : Bool := q = [] ∨ q ∈ fs.dirs

def present (fs : Fs) (q : FsPath) : Bool := fs.isDir q ∨ q ∈ fs.files.map Prod.fst

/-- `os.Mkdir(p, 0700)`. -/
def mkdir (fs : Fs) (p : String) : Except Err Fs :=
  let q := resolve fs.cwd p.toList
  if fs.present q then .error ⟨s!"mkdir {p}: file exists", false⟩
  else if fs.isDir q.tail then
    .ok { fs with dirs := q :: fs.dirs,
                  parents := fun f hf => (fs.parents f hf).imp_right (List.mem_cons_of_mem q) }
  else .error ⟨s!"mkdir {p}: no such file or directory", false⟩

/-- `ioutil.WriteFile(p, data, 0644)`: creates the file or replaces its content. -/
def writeFile (fs : Fs) (p data : String) : Except Err Fs :=
  let q := resolve fs.cwd p.toList
  if fs.isDir q then .error ⟨s!"open {p}: is a directory", false⟩
  else if h : fs.isDir q.tail then
    .ok { fs with
      files := (q, data) :: fs.files.filter (·.1 ≠ q),
      parents := by
        intro f hf
        rcases List.mem_cons.mp hf with rfl | hf
        · simpa [isDir] using h
        · exact fs.parents f (List.mem_filter.mp hf).1 }
  else .error ⟨s!"open {p}: no such file or directory", false⟩

/-- `os.RemoveAll(p)`: the entry at `p` and everything below it. -/
def removeAll (fs : Fs) (p : String) : Fs :=
  let q := resolve fs.cwd p.toList
  { fs with
    dirs := fs.dirs.filter (fun d => !q.isSuffixOf d),
    files := fs.files.filter (fun f => !q.isSuffixOf f.1),
    parents := by
      intro f hf
      obtain ⟨hm, hq⟩ := List.mem_filter.mp hf
      refine (fs.parents f hm).imp_right fun hd => List.mem_filter.mpr ⟨hd, ?_⟩
      rw [Bool.not_eq_true', Bool.eq_false_iff] at hq ⊢
      intro hs
      exact hq (List.isSuffixOf_iff_suffix.mpr
        ((List.isSuffixOf_iff_suffix.mp hs).trans (List.tail_suffix _))) }

def childOf (q : FsPath) (f : FsPath × String) : Option (String × String) :=
  match f.1 with
  | n :: d => if d = q then some (⟨n⟩, f.2) else none
  | [] => none

def children (fs : Fs) (q : FsPath) : List (String × String) := fs.files.filterMap (childOf q)

/-- The files directly in directory `q`, sorted by name as `migrate.LocalDir` reads them. -/
def listing (fs : Fs) (q : FsPath) : List (String × String) :=
  (fs.children q).insertionSort (fun a b => stringLe a.1 b.1 = true)

/-- `migrate.NewLocalDir(p)`, with the files the directory holds. -/
def localDir (fs : Fs) (p : String) : Except Err (List (String × String)) :=
  let q := resolve fs.cwd p.toList
  if fs.isDir q then .ok (fs.listing q)
  else if fs.present q then .error ⟨s!"sql/migrate: \"{p}\" is not a dir", false⟩
  else .error ⟨s!"sql/migrate: stat {p}: no such file or directory", false⟩

end Fs

/-- What `os.MkdirTemp` draws from: `os.TempDir()` and the random part of each
name it tries. -/
structure TempNames where
  dir : String
  random : Nat → String

/-- `joinPath(dir, name)` of package `os`. -/
def joinPath (dir name : String) : String :=
  if dir ≠ "" ∧ dir.back = '/' then dir ++ name else dir ++ "/" ++ name

/-- The attempts of `os.MkdirTemp`: a name that exists already is tried again
with the next random part, up to 10000 times. -/
def mkdirTempLoop (fs : Fs) (t : TempNames) (pre : String) : Nat → Nat → Except Err (String × Fs)
  | _, 0 => .error ⟨s!"mkdirtemp {t.dir}/{pre}*: file exists", false⟩
  | attempt, fuel + 1 =>
    let name := pre ++ t.random attempt
    match fs.mkdir name with
    | .ok fs' => .ok (name, fs')
    | .error e =>
      if fs.present (resolve fs.cwd name.toList) then mkdirTempLoop fs t pre (attempt + 1) fuel
      else if fs.present (resolve fs.cwd t.dir.toList) then .error e
      else .error ⟨s!"stat {t.dir}: no such file or directory", false⟩

/-- `ioutil.TempDir("", "migrations")`. -/
def tempDir (fs : Fs) (t : TempNames) : Except Err (String × Fs) :=
  mkdirTempLoop fs t (joinPath t.dir "migrations") 0 10000

end AtlasOperator
