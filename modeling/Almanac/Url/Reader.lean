import Almanac.Url.Host

/-!
# Reading locators

`Url.ofText` reads an absolute locator. Controls and blanks at the ends do not count, nor
do tabs and line ends anywhere. The schemes http, https, ws, wss, ftp and file have hosts
and paths of a fixed form; every other scheme may be followed by anything.
-/

namespace Almanac.Url

/-- How the rest of a locator is read, by its scheme. -/
inductive SchemeKind where
  | special
  | file
  | other
  deriving DecidableEq, Repr

namespace Reader

/-- The port that a scheme uses unless another is named. -/
def defaultPort? (scheme : List Char) : Option Nat :=
  if scheme = "http".toList ∨ scheme = "ws".toList then some 80
  else if scheme = "https".toList ∨ scheme = "wss".toList then some 443
  else if scheme = "ftp".toList then some 21
  else none

def kindOf (scheme : List Char) : SchemeKind :=
  if (defaultPort? scheme).isSome then .special
  else if scheme = "file".toList then .file
  else .other

/-- Drops what does not count: controls and blanks at the ends, tabs and line ends anywhere. -/
def cleaned (s : List Char) : List Char :=
  let isEdge (c : Char) : Bool := c.toNat ≤ 0x20
  let inner := (s.dropWhile isEdge).reverse.dropWhile isEdge |>.reverse
  inner.filter fun c => !(c == '\t' || c == '\n' || c == '\r')

def isSchemeChar (c : Char) : Bool :=
  c.isAlphanum || c == '+' || c == '-' || c == '.'

/-- The scheme in lower case, and what follows its colon. -/
def scheme? (s : List Char) : Option (List Char × List Char) :=
  match s with
  | c :: _ =>
    if c.isAlpha then
      match s.dropWhile isSchemeChar with
      | ':' :: rest => some ((s.takeWhile isSchemeChar).map Char.toLower, rest)
      | _ => none
    else none
  | [] => none

def endsAuthority (special : Bool) (c : Char) : Bool :=
  c == '/' || c == '?' || c == '#' || (special && c == '\\')

def escapedInFragment (c : Char) : Bool :=
  Host.isControl c || c == ' ' || c == '\x22' || c == '<' || c == '>' || c == '\x60'

/-- Escaped in queries; a quote only where the scheme is special. -/
def escapedInQuery (special : Bool) (c : Char) : Bool :=
  Host.isControl c || c == ' ' || c == '\x22' || c == '#' || c == '<' || c == '>' ||
    (special && c == '\x27')

def escapedInPath (c : Char) : Bool :=
  escapedInFragment c || c == '#' || c == '?' || c == '\x7b' || c == '\x7d'

def escapedInUser (c : Char) : Bool :=
  escapedInPath c || c == '/' || c == ':' || c == ';' || c == '=' || c == '@' || c == '[' ||
    c == '\\' || c == ']' || c == '^' || c == '|'

/-- A text up to the last `@` before the end of the authority, and what follows that sign. -/
def credentials? (special : Bool) (s : List Char) : Option (List Char × List Char) :=
  let authority := s.takeWhile fun c => !endsAuthority special c
  if authority.contains '@' then
    let host := (authority.reverse.takeWhile (· != '@')).reverse
    let credentials := authority.take (authority.length - host.length - 1)
    some (credentials, host ++ s.drop authority.length)
  else none

/-- User and password of credentials. An empty password is none. -/
def userAndPassword (s : List Char) : List Char × Option (List Char) :=
  let user := s.takeWhile (· != ':')
  let password := s.drop (user.length + 1)
  (Text.percentEncode escapedInUser user,
    if password.isEmpty then none else some (Text.percentEncode escapedInUser password))

/-- A host up to the colon of its port, colons in brackets aside, and what follows. -/
def hostSpan (special inBrackets : Bool) : List Char → List Char × List Char
  | [] => ([], [])
  | c :: s =>
    if (c == ':' && !inBrackets) || endsAuthority special c then ([], c :: s)
    else
      let inside := if c = '[' then true else if c = ']' then false else inBrackets
      let (host, rest) := hostSpan special inside s
      (c :: host, rest)

def port (value : Nat) (any : Bool) : List Char → Except UrlError (Option Nat × List Char)
  | [] => .ok (if any then some value else none, [])
  | c :: s =>
    match Text.digit? c with
    | some d =>
      if 10 * value + d ≤ 65535 then port (10 * value + d) true s else .error .invalidPort
    | none =>
      if endsAuthority true c then .ok (if any then some value else none, c :: s)
      else .error .invalidPort

/-- Reads an authority: credentials, host and port. -/
def authority [Names] (scheme : List Char) (s : List Char) :
    Except UrlError (Authority × List Char) := do
  let special := kindOf scheme != .other
  let (user, password, rest) ←
    match credentials? special s with
    | none => pure ([], none, s)
    | some ([], rest) =>
      match rest with
      | c :: _ => if endsAuthority special c then .error .emptyHost else pure ([], none, rest)
      | [] => pure ([], none, [])
    | some (credentials, rest) =>
      let (user, password) := userAndPassword credentials
      pure (user, password, rest)
  let (name, rest) := hostSpan special false rest
  let host ←
    if special then (if name.isEmpty then .error .emptyHost else Host.special name)
    else Host.opaqueName name
  let (number, rest) ←
    match rest with
    | ':' :: after => if host.isEmpty then .error .emptyHost else port 0 false after
    | rest => pure (none, rest)
  let number := if number = defaultPort? scheme then none else number
  if host.isEmpty && (!user.isEmpty || password.isSome) then .error .emptyHost
  else .ok (⟨user, password, host, number⟩, rest)

def isSlash (special : Bool) (c : Char) : Bool :=
  c == '/' || (special && c == '\\')

/-- A segment in which an escaped point counts as a point. -/
def pointed : List Char → List Char
  | '%' :: '2' :: c :: s =>
    if c = 'e' ∨ c = 'E' then '.' :: pointed s else '%' :: '2' :: c :: pointed s
  | c :: s => c :: pointed s
  | [] => []

/-- Holds of drive letters, a letter and a colon or a bar. -/
def isDrive : List Char → Bool
  | [c, d] => c.isAlpha && (d == ':' || d == '|')
  | _ => false

/-- Takes the last segment off, except the drive letter of a file. -/
def parent (kind : SchemeKind) (segments : List (List Char)) : List (List Char) :=
  match segments with
  | [] => []
  | [only] => if kind = .file ∧ isDrive only then [only] else []
  | _ :: rest => rest

/-- Adds a segment to those read, in reverse: one point stays, two points go back. `closed`
tells whether a slash follows; where none does, a dot segment leaves an empty one behind. -/
def addSegment (kind : SchemeKind) (segments : List (List Char)) (segment : List Char)
    (closed : Bool) : List (List Char) :=
  let plain := pointed segment
  if plain = ['.', '.'] then
    let up := parent kind segments
    if closed then up else [] :: up
  else if plain = ['.'] then (if closed then segments else [] :: segments)
  else
    let segment :=
      match segment with
      | [c, '|'] => if kind = .file ∧ segments = [] ∧ c.isAlpha then [c, ':'] else segment
      | _ => segment
    Text.percentEncode escapedInPath segment :: segments

/-- Reads the segments of a path up to the query or the fragment. -/
def segments (kind : SchemeKind) (read : List (List Char)) (current : List Char) :
    List Char → List (List Char) × List Char
  | [] => (addSegment kind read current.reverse false, [])
  | c :: s =>
    if c = '?' ∨ c = '#' then (addSegment kind read current.reverse false, c :: s)
    else if isSlash (kind != .other) c then
      segments kind (addSegment kind read current.reverse true) [] s
    else segments kind read (c :: current) s

/-- A path of segments, after its first slash. -/
def path (kind : SchemeKind) (s : List Char) : List Char × List Char :=
  let (read, rest) := segments kind [] [] s
  (read.reverse.flatMap ('/' :: ·), rest)

/-- The path after an authority. Special schemes always have one. -/
def pathStart (kind : SchemeKind) (s : List Char) : List Char × List Char :=
  match s with
  | [] => if kind = .other then ([], []) else (['/'], [])
  | c :: rest =>
    if isSlash (kind != .other) c then path kind rest
    else if kind = .other ∧ (c = '?' ∨ c = '#') then ([], c :: rest)
    else path kind (c :: rest)

def opaquePath (s : List Char) : List Char × List Char :=
  let isPath (c : Char) : Bool := c != '?' && c != '#'
  (Text.percentEncode Host.isControl (s.takeWhile isPath), s.dropWhile isPath)

def tail (kind : SchemeKind) (s : List Char) : Option (List Char) × Option (List Char) :=
  let fragment (s : List Char) : Option (List Char) :=
    match s with
    | '#' :: s => some (Text.percentEncode escapedInFragment s)
    | _ => none
  match s with
  | '?' :: s =>
    let query := s.takeWhile (· != '#')
    (some (Text.percentEncode (escapedInQuery (kind != .other)) query),
      fragment (s.drop query.length))
  | s => (none, fragment s)

def whole (scheme : List Char) (authority : Option Authority) (read : List Char × List Char) :
    Url :=
  let (query, fragment) := tail (kindOf scheme) read.2
  ⟨scheme, authority, read.1, query, fragment⟩

def afterSlashes [Names] (scheme s : List Char) : Except UrlError Url := do
  let (authority, rest) ← authority scheme s
  .ok (whole scheme (some authority) (pathStart (kindOf scheme) rest))

/-- Reads the locator of a file, after the colon. A drive letter is no host, and the host of
the machine itself is left out. -/
def file [Names] (scheme s : List Char) : Except UrlError Url :=
  let local_ (read : List Char × List Char) : Url := whole scheme (some ⟨[], none, [], none⟩) read
  match s with
  | a :: b :: rest =>
    if isSlash true a && isSlash true b then
      let name := rest.takeWhile fun c => !endsAuthority true c
      if isDrive name then .ok (local_ (path .file rest))
      else if name.isEmpty then .ok (local_ (pathStart .file rest))
      else
        match Host.special name with
        | .error e => .error e
        | .ok host =>
          let host := if host = "localhost".toList then [] else host
          .ok (whole scheme (some ⟨[], none, host, none⟩)
            (pathStart .file (rest.drop name.length)))
    else if isSlash true a then .ok (local_ (path .file (b :: rest)))
    else .ok (local_ (path .file s))
  | [a] => .ok (local_ (path .file (if isSlash true a then [] else [a])))
  | [] => .ok (local_ (path .file []))

/-- Reads a locator of any length. -/
def absolute [Names] (text : String) : Except UrlError Url :=
  match scheme? (cleaned text.toList) with
  | none => .error .relative
  | some (scheme, rest) =>
    match kindOf scheme with
    | .special => afterSlashes scheme (rest.dropWhile (isSlash true))
    | .file => file scheme rest
    | .other =>
      match rest with
      | '/' :: '/' :: rest => afterSlashes scheme rest
      | '/' :: rest => .ok (whole scheme none (Reader.path .other rest))
      | rest => .ok (whole scheme none (opaquePath rest))

/-- How many octets of a locator stand in front of its last part. -/
def beforeLast (u : Url) : Nat :=
  if u.fragment.isSome then { u with fragment := none }.text.length
  else if u.query.isSome then { u with query := none }.text.length
  else { u with path := [] }.text.length

end Reader

/-- Reads a locator. All its parts have to begin within the first 2³² octets. -/
def ofText [Names] (text : String) : Except UrlError Url :=
  match Reader.absolute text with
  | .ok u => if Reader.beforeLast u < 4294967296 then .ok u else .error .overlong
  | .error e => .error e

instance [Names] : Locators := ⟨ofText⟩

example [Names] : (Url.ofText "HTTP://A:80/x/../b").toOption.map (fun u => String.ofList u.text) =
    some "http://a/b" := rfl
example [Names] : (Url.ofText "/b").toOption = none := rfl

end Almanac.Url
