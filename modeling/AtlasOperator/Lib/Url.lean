import Mathlib.Data.List.Sort
import AtlasOperator.Lib.Go

namespace AtlasOperator

/-- `net/url`'s `encoding` modes. -/
inductive Encoding
  | path | pathSegment | host | zone | userPassword | queryComponent | fragment
deriving DecidableEq, Repr

/-- `shouldEscape` for an ASCII byte, RFC 3986 read per component. -/
def shouldEscape (c : Char) (mode : Encoding) : Bool :=
  if ('a' ≤ c ∧ c ≤ 'z') ∨ ('A' ≤ c ∧ c ≤ 'Z') ∨ ('0' ≤ c ∧ c ≤ '9') then false
  else if (mode = .host ∨ mode = .zone) ∧
      c ∈ ['!', '$', '&', Char.ofNat 39, '(', ')', '*', '+', ',', ';', '=', ':', '[', ']',
        '<', '>', '"'] then false
  else if c ∈ ['-', '_', '.', '~'] then false
  else if c ∈ ['$', '&', '+', ',', '/', ':', ';', '=', '?', '@'] then
    match mode with
    | .path => c = '?'
    | .pathSegment => c = '/' ∨ c = ';' ∨ c = ',' ∨ c = '?'
    | .userPassword => c = '@' ∨ c = '/' ∨ c = '?' ∨ c = ':'
    | .queryComponent => true
    | .fragment => false
    | .host | .zone => true
  else if mode = .fragment ∧ c ∈ ['!', '(', ')', '*'] then false
  else true

def upperhex (n : Nat) : Char := if n < 10 then Char.ofNat (48 + n) else Char.ofNat (55 + n)

def percent (b : Nat) : List Char := ['%', upperhex (b / 16), upperhex (b % 16)]

def escapeChar (mode : Encoding) (c : Char) : List Char :=
  if c.toNat < 128 then
    if c = ' ' ∧ mode = .queryComponent then ['+']
    else if shouldEscape c mode then percent c.toNat
    else [c]
  else (String.utf8EncodeChar c).flatMap fun b => percent b.toNat

/-- `escape(s, mode)`. -/
def escape (s : String) (mode : Encoding) : String := ⟨s.toList.flatMap (escapeChar mode)⟩

/-- `url.QueryEscape`. -/
def queryEscape (s : String) : String := escape s .queryComponent

/-- `url.Values`: keys with their lists of values, each key once. -/
abbrev Values := List (String × List String)

/-- `v.Get`'s list: `v[key]`, empty when the key is absent. -/
def Values.lookup (v : Values) (k : String) : List String :=
  ((v.find? (·.1 = k)).map Prod.snd).getD []

/-- `v.Set(key, value)`: `v[key] = []string{value}`. -/
def Values.set (v : Values) (k val : String) : Values :=
  if v.any (·.1 = k) then v.map fun p => if p.1 = k then (k, [val]) else p
  else v ++ [(k, [val])]

/-- `v.Encode()`: `key=value` pairs joined by `&`, sorted by key. -/
def Values.encode (v : Values) : String :=
  let keys := (v.map Prod.fst).insertionSort (fun a b => stringLe a b = true)
  "&".intercalate (keys.flatMap fun k =>
    (v.lookup k).map fun val => queryEscape k ++ "=" ++ queryEscape val)

/-- `url.Userinfo`, as `url.UserPassword` builds it. -/
structure Userinfo where
  username : String
  password : String
  passwordSet : Bool
deriving DecidableEq, Repr

/-- `(*url.Userinfo).String`. -/
def Userinfo.string (u : Userinfo) : String :=
  escape u.username .userPassword ++
    if u.passwordSet then ":" ++ escape u.password .userPassword else ""

/-- The fields of `url.URL` that `Credentials.URL` sets; the others stay zero. -/
structure URL where
  scheme : String := ""
  user : Option Userinfo := none
  host : String := ""
  path : String := ""
  rawQuery : String := ""
deriving DecidableEq, Repr

/-- `(*url.URL).EscapedPath` for a URL without a raw path. -/
def URL.escapedPath (u : URL) : String := if u.path = "*" then "*" else escape u.path .path

/-- `(*url.URL).String` for a URL with no opaque part, raw path, fragment or
forced query. -/
def URL.string (u : URL) : String :=
  let pre := if u.scheme ≠ "" then u.scheme ++ ":" else ""
  let auth :=
    if u.scheme ≠ "" ∨ u.host ≠ "" ∨ u.user.isSome then
      (if u.host ≠ "" ∨ u.path ≠ "" ∨ u.user.isSome then "//" else "") ++
        (match u.user with | some ui => ui.string ++ "@" | none => "") ++
        (if u.host ≠ "" then escape u.host .host else "")
    else ""
  let path := u.escapedPath
  let slash := if path ≠ "" ∧ path.front ≠ '/' ∧ u.host ≠ "" then "/" else ""
  let dot := if pre ++ auth ++ slash = "" ∧ ':' ∈ path.toList.takeWhile (· ≠ '/') then "./" else ""
  pre ++ auth ++ slash ++ dot ++ path ++ if u.rawQuery ≠ "" then "?" ++ u.rawQuery else ""

end AtlasOperator
