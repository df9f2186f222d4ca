import AtlasOperator.Lib.Url

namespace AtlasOperator

/-- A Go string as its bytes, each a `Nat` below 256. -/
abbrev Bytes := List Nat

/-- The bytes Go holds for a string: its characters' UTF-8 encodings. -/
def bytesOf (s : String) : Bytes :=
  s.toList.flatMap fun c => (String.utf8EncodeChar c).map UInt8.toNat

def ishex (c : Nat) : Bool :=
  ('0'.toNat ≤ c ∧ c ≤ '9'.toNat) ∨ ('a'.toNat ≤ c ∧ c ≤ 'f'.toNat) ∨ ('A'.toNat ≤ c ∧ c ≤ 'F'.toNat)

def unhex (c : Nat) : Nat :=
  if '0'.toNat ≤ c ∧ c ≤ '9'.toNat then c - '0'.toNat
  else if 'a'.toNat ≤ c ∧ c ≤ 'f'.toNat then c - 'a'.toNat + 10
  else if 'A'.toNat ≤ c ∧ c ≤ 'F'.toNat then c - 'A'.toNat + 10
  else 0

/-- `shouldEscape` on a byte: one from 0x80 up falls through every case and is escaped. -/
def shouldEscapeByte (c : Nat) (mode : Encoding) : Bool :=
  if c < 0x80 then shouldEscape (Char.ofNat c) mode else true

/-- `escape(s, mode)` on bytes. -/
def escapeBytes (mode : Encoding) (s : Bytes) : Bytes :=
  s.flatMap fun c =>
    if c = ' '.toNat ∧ mode = .queryComponent then ['+'.toNat]
    else if shouldEscapeByte c mode then (percent c).map Char.toNat
    else [c]

/-- The errors `url.Parse` and `url.ParseQuery` return, with the bytes each quotes. -/
inductive URLError
  /-- The error "net/url: invalid control character in URL". -/
  | invalidControl
  /-- The error "missing protocol scheme". -/
  | missingScheme
  /-- The error "first path segment in URL cannot contain colon". -/
  | colonInFirstSegment
  /-- The error "net/url: invalid userinfo". -/
  | invalidUserinfo
  /-- The error "missing ']' in host". -/
  | missingBracket
  /-- The error "invalid port %q after host". -/
  | invalidPort (colonPort : Bytes)
  /-- An `EscapeError`: "invalid URL escape %q". -/
  | escape (s : Bytes)
  /-- An `InvalidHostError`: "invalid character %q in host name". -/
  | invalidHost (s : Bytes)
  /-- The error "invalid semicolon separator in query". -/
  | semicolon
deriving DecidableEq, Repr

/-- The first loop of `unescape`: the error of the first malformed `%` sequence, or of
a byte a host may not hold unescaped; `none` when `s` is well formed for `mode`. -/
def unescapeError (mode : Encoding) : Bytes → Option URLError
  | [] => none
  | c :: rest =>
    if c = '%'.toNat then
      match rest with
      | h :: l :: rest' =>
        if !(ishex h && ishex l) then some (.escape [c, h, l])
        else if mode = .host ∧ unhex h < 8 ∧ [h, l] ≠ ['2'.toNat, '5'.toNat] then
          some (.escape [c, h, l])
        else if mode = .zone ∧ [h, l] ≠ ['2'.toNat, '5'.toNat] ∧
            unhex h * 16 + unhex l ≠ ' '.toNat ∧ shouldEscapeByte (unhex h * 16 + unhex l) .host then
          some (.escape [c, h, l])
        else unescapeError mode rest'
      | _ => some (.escape (c :: rest))
    else if c = '+'.toNat then unescapeError mode rest
    else if (mode = .host ∨ mode = .zone) ∧ c < 0x80 ∧ shouldEscapeByte c mode then
      some (.invalidHost [c])
    else unescapeError mode rest

/-- The second loop of `unescape`: `%XY` becomes the byte
`unhex(X)<<4 | unhex(Y)`, and `+` a space in a query component. -/
def unescapeBytes (mode : Encoding) : Bytes → Bytes
  | [] => []
  | c :: rest =>
    if c = '%'.toNat then
      match rest with
      | h :: l :: rest' => (unhex h * 16 + unhex l) :: unescapeBytes mode rest'
      | _ => []
    else if c = '+'.toNat ∧ mode = .queryComponent then ' '.toNat :: unescapeBytes mode rest
    else c :: unescapeBytes mode rest

/-- `unescape(s, mode)`. Go returns `s` itself when it holds no `%` and no `+`
to replace, which is what the second loop gives for such an `s`. -/
def unescape (s : Bytes) (mode : Encoding) : Except URLError Bytes :=
  match unescapeError mode s with
  | some e => .error e
  | none => .ok (unescapeBytes mode s)

/-- `strings.Cut(s, sep)` for a one-byte `sep`: the bytes before and after the
first `sep`, and whether there is one; `s`, nothing and `false` without one. -/
def cut (sep : Nat) : Bytes → Bytes × Bytes × Bool
  | [] => ([], [], false)
  | c :: rest =>
    if c = sep then ([], rest, true)
    else
      let r := cut sep rest
      (c :: r.1, r.2.1, r.2.2)

/-- The bytes before and after the last `sep`, where `strings.LastIndex` finds it. -/
def cutLast (sep : Nat) (s : Bytes) : Option (Bytes × Bytes) :=
  match cut sep s.reverse with
  | (after, before, true) => some (before.reverse, after.reverse)
  | _ => none

/-- `strings.Index(s, "%25")`: the bytes before the first `%25`, and the rest from it. -/
def cutPercent25 : Bytes → Option (Bytes × Bytes)
  | [] => none
  | c :: rest =>
    if (c :: rest).take 3 = ['%'.toNat, '2'.toNat, '5'.toNat] then some ([], c :: rest)
    else (cutPercent25 rest).map fun r => (c :: r.1, r.2)

/-- `stringContainsCTLByte`. -/
def containsCTLByte (s : Bytes) : Bool := s.any fun b => b < ' '.toNat ∨ b = 0x7f

def isAlphaByte (c : Nat) : Bool := ('a'.toNat ≤ c ∧ c ≤ 'z'.toNat) ∨ ('A'.toNat ≤ c ∧ c ≤ 'Z'.toNat)

def isDigitByte (c : Nat) : Bool := '0'.toNat ≤ c ∧ c ≤ '9'.toNat

/-- `getScheme(rawURL)`: the scheme and what follows its colon, or no scheme
and the whole of `rawURL` when a byte that no scheme holds comes first. -/
def getScheme (raw : Bytes) : Except URLError (Bytes × Bytes) := go [] raw
where
  /-- The loop over `rawURL`, with the bytes it has read. -/
  go (read : Bytes) : Bytes → Except URLError (Bytes × Bytes)
    | [] => .ok ([], raw)
    | c :: rest =>
      if isAlphaByte c then go (read ++ [c]) rest
      else if isDigitByte c ∨ c = '+'.toNat ∨ c = '-'.toNat ∨ c = '.'.toNat then
        if read = [] then .ok ([], raw) else go (read ++ [c]) rest
      else if c = ':'.toNat then
        if read = [] then .error .missingScheme else .ok (read, rest)
      else .ok ([], raw)

/-- `strings.ToLower` on a scheme, which `getScheme` leaves ASCII. -/
def toLowerASCII (s : Bytes) : Bytes :=
  s.map fun c => if 'A'.toNat ≤ c ∧ c ≤ 'Z'.toNat then c + ('a'.toNat - 'A'.toNat) else c

/-- `validUserinfo`. Go ranges over the runes, and refuses every rune past
ASCII, so every byte from 0x80 up. -/
def validUserinfo (s : Bytes) : Bool :=
  s.all fun r => r < 0x80 ∧ (isAlphaByte r ∨ isDigitByte r ∨
    Char.ofNat r ∈ ['-', '.', '_', ':', '~', '!', '$', '&', Char.ofNat 39, '(', ')', '*', '+', ',',
      ';', '=', '%', '@'])

def validOptionalPort : Bytes → Bool
  | [] => true
  | c :: port => c = ':'.toNat ∧ port.all isDigitByte

/-- `parseHost`: `host[:port]`, with an IP literal in brackets whose zone,
after `%25`, may escape more than a host name may. -/
def parseHost (host : Bytes) : Except URLError Bytes :=
  if host.head? = some '['.toNat then
    match cutLast ']'.toNat host with
    | none => .error .missingBracket
    | some (literal, colonPort) =>
      if !validOptionalPort colonPort then .error (.invalidPort colonPort)
      else match cutPercent25 literal with
        | some (host1, zone) => do
          let host1 ← unescape host1 .host
          let host2 ← unescape zone .zone
          let host3 ← unescape (']'.toNat :: colonPort) .host
          pure (host1 ++ host2 ++ host3)
        | none => unescape host .host
  else
    match cutLast ':'.toNat host with
    | some (_, port) =>
      if !validOptionalPort (':'.toNat :: port) then .error (.invalidPort (':'.toNat :: port))
      else unescape host .host
    | none => unescape host .host

/-- `url.Userinfo` as `url.Parse` fills it. -/
structure UserinfoBytes where
  username : Bytes
  password : Bytes
  passwordSet : Bool
deriving DecidableEq, Repr

/-- `parseAuthority`: the user information before the last `@`, and the host. -/
def parseAuthority (authority : Bytes) : Except URLError (Option UserinfoBytes × Bytes) :=
  match cutLast '@'.toNat authority with
  | none => do
    let host ← parseHost authority
    pure (none, host)
  | some (userinfo, hostPart) => do
    let host ← parseHost hostPart
    if !validUserinfo userinfo then .error .invalidUserinfo
    else if ':'.toNat ∉ userinfo then do
      let username ← unescape userinfo .userPassword
      pure (some ⟨username, [], false⟩, host)
    else do
      let r := cut ':'.toNat userinfo
      let username ← unescape r.1 .userPassword
      let password ← unescape r.2.1 .userPassword
      pure (some ⟨username, password, true⟩, host)

/-- `url.URL` as `url.Parse` fills it, each string as its bytes. -/
structure ParsedURL where
  scheme : Bytes := []
  opaquePart : Bytes := []
  user : Option UserinfoBytes := none
  host : Bytes := []
  path : Bytes := []
  rawPath : Bytes := []
  omitHost : Bool := false
  forceQuery : Bool := false
  rawQuery : Bytes := []
  fragment : Bytes := []
  rawFragment : Bytes := []
deriving DecidableEq, Repr

/-- `setPath`: the path unescaped, and the raw path kept when escaping the
path does not give it back. -/
def setPath (p : Bytes) : Except URLError (Bytes × Bytes) := do
  let path ← unescape p .path
  pure (path, if escapeBytes .path path = p then [] else p)

/-- The authority block of `parse`: the user information and host after `//`; without
`//`, a scheme and a leading `/` mark an omitted host. Returns user, host, `OmitHost`, rest. -/
def parseAuthorityPart (scheme rest : Bytes) :
    Except URLError (Option UserinfoBytes × Bytes × Bool × Bytes) :=
  if (scheme ≠ [] ∨ rest.take 3 ≠ ['/'.toNat, '/'.toNat, '/'.toNat]) ∧
      rest.take 2 = ['/'.toNat, '/'.toNat] then do
    let r := cut '/'.toNat (rest.drop 2)
    let (user, host) ← parseAuthority r.1
    pure (user, host, false, if r.2.2 then '/'.toNat :: r.2.1 else [])
  else pure (none, [], scheme ≠ [] ∧ rest.head? = some '/'.toNat, rest)

/-- The query block of `parse`: a lone `?` at the end forces an empty query;
otherwise the query is what follows the first `?`. -/
def splitQuery (rest : Bytes) : Bytes × Bytes × Bool :=
  if rest.getLast? = some '?'.toNat ∧ rest.count '?'.toNat = 1 then (rest.dropLast, [], true)
  else
    let r := cut '?'.toNat rest
    (r.1, r.2.1, false)

/-- `parse(rawURL, false)`: `url.Parse` once the fragment is cut off. -/
def parse (raw : Bytes) : Except URLError ParsedURL := do
  if containsCTLByte raw then throw .invalidControl
  if raw = ['*'.toNat] then return { path := raw }
  let (scheme, rest) ← getScheme raw
  let scheme := toLowerASCII scheme
  let (rest, rawQuery, forceQuery) := splitQuery rest
  if rest.head? ≠ some '/'.toNat then
    if scheme ≠ [] then return { scheme, opaquePart := rest, rawQuery, forceQuery }
    if ':'.toNat ∈ (cut '/'.toNat rest).1 then throw .colonInFirstSegment
  let (user, host, omitHost, rest) ← parseAuthorityPart scheme rest
  let (path, rawPath) ← setPath rest
  return { scheme, user, host, path, rawPath, omitHost, forceQuery, rawQuery }

/-- `url.Parse(rawURL)`. -/
def urlParse (raw : Bytes) : Except URLError ParsedURL := do
  let r := cut '#'.toNat raw
  let url ← parse r.1
  if r.2.1 = [] then return url
  let fragment ← unescape r.2.1 .fragment
  return { url with fragment,
                    rawFragment := if escapeBytes .fragment fragment = r.2.1 then [] else r.2.1 }

/-- `url.Values` as `ParseQuery` fills it: each key once, in the order first met. -/
abbrev ValuesBytes := List (Bytes × List Bytes)

/-- `m[key] = append(m[key], value)`. -/
def ValuesBytes.add (m : ValuesBytes) (k v : Bytes) : ValuesBytes :=
  if m.any (·.1 = k) then m.map fun p => if p.1 = k then (k, p.2 ++ [v]) else p
  else m ++ [(k, [v])]

/-- One turn of `parseQuery`'s loop, on the piece before the next `&`: the
values so far and the first error met, or the last semicolon's. -/
def parseQueryStep (acc : ValuesBytes × Option URLError) (piece : Bytes) :
    ValuesBytes × Option URLError :=
  if ';'.toNat ∈ piece then (acc.1, some .semicolon)
  else if piece = [] then acc
  else
    let r := cut '='.toNat piece
    match unescape r.1 .queryComponent with
    | .error e => (acc.1, acc.2 <|> some e)
    | .ok key =>
      match unescape r.2.1 .queryComponent with
      | .error e => (acc.1, acc.2 <|> some e)
      | .ok value => (acc.1.add key value, acc.2)

/-- `url.ParseQuery(query)`: Go cuts one piece off at each `&`, the pieces of `splitOn`,
and skips every empty piece. -/
def parseQuery (query : Bytes) : ValuesBytes × Option URLError :=
  (query.splitOn '&'.toNat).foldl parseQueryStep ([], none)

end AtlasOperator
