import Mathlib.Data.List.Perm.Basic

namespace AtlasOperator

/-- A Go `error`: its text, and whether the controller wrapped it with `transient`. -/
structure Err where
  msg : String
  transient : Bool := false
deriving DecidableEq, Repr

/-- `transient(err)` keeps the text and marks the error for a retry. -/
def transient (e : Err) : Err := { e with transient := true }

/-- A Go `map[string]string`: each key once, in no particular order. -/
structure GoMap where
  entries : List (String × String)
  nodup : (entries.map Prod.fst).Nodup

instance : DecidableEq GoMap := fun a b =>
  decidable_of_iff (a.entries = b.entries) (by cases a; cases b; simp)

def GoMap.empty : GoMap := ⟨[], List.nodup_nil⟩

/-- The order a `for k, v := range m` loop visits each map in: any permutation
of its entries, chosen afresh by the runtime. -/
structure Iteration where
  visit : GoMap → List (String × String)
  perm : ∀ m, (visit m).Perm m.entries

def Iteration.listed : Iteration := ⟨GoMap.entries, fun _ => List.Perm.refl _⟩

def Iteration.reversed : Iteration := ⟨fun m => m.entries.reverse, fun _ => List.reverse_perm _⟩

/-- Go's `a <= b` on the characters of two strings: their UTF-8 bytes compare
as their code points do. -/
def charsLe : List Char → List Char → Bool
  | [], _ => true
  | _ :: _, [] => false
  | a :: as, b :: bs => a.toNat < b.toNat || (a.toNat = b.toNat && charsLe as bs)

def stringLe (a b : String) : Bool := charsLe a.data b.data

/-- `unicode.IsSpace`. -/
def isSpace (c : Char) : Bool :=
  match c.toNat with
  | 0x09 | 0x0A | 0x0B | 0x0C | 0x0D | 0x20 | 0x85 | 0xA0 | 0x1680
  | 0x2028 | 0x2029 | 0x202F | 0x205F | 0x3000 => true
  | n => 0x2000 ≤ n && n ≤ 0x200A

/-- `strings.TrimSpace`: leading and trailing white space removed. -/
def trimSpace (s : String) : String :=
  ⟨((s.toList.dropWhile isSpace).reverse.dropWhile isSpace).reverse⟩

end AtlasOperator
