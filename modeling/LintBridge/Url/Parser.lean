import LintBridge.Url.Basic

namespace LintBridge

namespace Url

/-- What of a text counts: the ends trimmed of controls and spaces, no tabs or line breaks. -/
def clean (cs : List Char) : List Char :=
  let low (c : Char) : Bool := c.toNat ≤ 0x20
  let body := ((cs.dropWhile low).reverse.dropWhile low).reverse
  body.filter fun c => c != '\t' && c != '\n' && c != '\r'

/-- A scheme and what follows its colon. -/
def scheme? (cs : List Char) : Option (String × List Char) :=
  let body (c : Char) : Bool := isAsciiLetter c || isAsciiDigit c || "+-.".toList.contains c
  match cs with
  | [] => none
  | first :: _ =>
    if isAsciiLetter first then
      match cs.dropWhile body with
      | ':' :: rest => some (String.ofList ((cs.takeWhile body).map lowerAscii), rest)
      | _ => none
    else none

/-- A text up to a mark, and what follows the mark if it is there. -/
def cutAt (mark : Char) (cs : List Char) : List Char × Option (List Char) :=
  match cs.dropWhile (· != mark) with
  | _ :: rest => (cs.takeWhile (· != mark), some rest)
  | [] => (cs, none)

/-- Whether a character parts path segments. -/
def isSeparator (special : Bool) (c : Char) : Bool := c == '/' || (special && c == '\\')

def splitPath (special : Bool) : List Char → List (List Char)
  | [] => [[]]
  | c :: rest =>
    if isSeparator special c then [] :: splitPath special rest
    else
      match splitPath special rest with
      | [] => [[c]]
      | piece :: pieces => (c :: piece) :: pieces

/-- A piece with its percent-encoded points written out, in lower case. -/
def plainDots : List Char → List Char
  | '%' :: '2' :: 'e' :: rest => '.' :: plainDots rest
  | '%' :: '2' :: 'E' :: rest => '.' :: plainDots rest
  | c :: rest => c :: plainDots rest
  | [] => []

/-- Whether a piece is `.` in one of its spellings. -/
def isDot (piece : List Char) : Bool := piece.length ≤ 3 && plainDots piece == ['.']

def isDotDot (piece : List Char) : Bool := piece.length ≤ 6 && plainDots piece == ['.', '.']

/-- Whether a piece is a letter and a colon or bar. -/
def isDrive : List Char → Bool
  | [c, m] => isAsciiLetter c && (m == ':' || m == '|')
  | _ => false

/-- The segments of a path behind its root. `kept` are those before, the last one first. -/
def followDots : List (List Char) → List (List Char) → List (List Char)
  | kept, [] => kept.reverse
  | kept, piece :: more =>
    if isDotDot piece then
      let kept := if isDrive (kept.headD []) then kept else kept.tail
      if more.isEmpty then followDots ([] :: kept) more else followDots kept more
    else if isDot piece then
      if more.isEmpty then followDots ([] :: kept) more else followDots kept more
    else followDots (Percent.encodeChars Percent.inPath piece :: kept) more

def rooted : List (List Char) → List Char
  | [] => []
  | segment :: more => '/' :: (segment ++ rooted more)

/-- Segments of a file URL: none empty in front, a drive letter with a colon. -/
def fileSegments (segments : List (List Char)) : List (List Char) :=
  let segments := match segments with
    | [c, m] :: more => if isDrive [c, m] then [c, ':'] :: more else segments
    | _ => segments
  match segments.dropWhile List.isEmpty with
  | [] => [[]]
  | kept => kept

def readPath (scheme : String) (cs : List Char) : String :=
  let special := isSpecial scheme
  let body := match cs with
    | c :: rest => if isSeparator special c then rest else cs
    | [] => []
  if cs.isEmpty && !special then ""
  else
    let segments := followDots [] (splitPath special body)
    String.ofList (rooted (if scheme == "file" then fileSegments segments else segments))

/-- The name and password in front of a host. -/
def readUser (cs : List Char) : String × Option String :=
  let encode (cs : List Char) : String := String.ofList (Percent.encodeChars Percent.inUserInfo cs)
  match cutAt ':' cs with
  | (name, some (c :: password)) => (encode name, some (encode (c :: password)))
  | (name, _) => (encode name, none)

/-- A text up to the last `@`, if there is one, and what follows. -/
def cutUser (cs : List Char) : Option (List Char) × List Char :=
  match cs.reverse.dropWhile (· != '@') with
  | _ :: front => (some front.reverse, (cs.reverse.takeWhile (· != '@')).reverse)
  | [] => (none, cs)

/-- The host part of an authority and what follows it: a colon inside brackets does not end it. -/
def cutHost : Bool → List Char → List Char × List Char
  | _, [] => ([], [])
  | inside, c :: rest =>
    if c == ':' && !inside then ([], c :: rest)
    else
      let inside := if c == '[' then true else if c == ']' then false else inside
      let (host, rest) := cutHost inside rest
      (c :: host, rest)

/-- A port, none where it is empty or the one the scheme implies. -/
def readPort (scheme : String) (cs : List Char) : Except UrlError (Option Nat) :=
  if cs.isEmpty then .ok none
  else
    match decimal? cs with
    | some n =>
      if 65535 < n then .error .port
      else .ok (if defaultPort? scheme = some n then none else some n)
    | none => .error .port

/-- The authority of a URL whose scheme is not `file`. -/
def readAuthority (scheme : String) (cs : List Char) : Except UrlError Authority := do
  let (user, rest) := cutUser cs
  let (username, password) := match user with
    | some user => readUser user
    | none => ("", none)
  if user = some [] ∧ rest.isEmpty then throw .emptyHost
  let (hostChars, behind) := cutHost false rest
  if isSpecial scheme then
    if hostChars.isEmpty then throw .emptyHost
    let host ← Host.parse? hostChars
    let port ← readPort scheme behind.tail
    pure ⟨username, password, some host, port⟩
  else
    let host ← Host.parseOther? hostChars
    if host = .domain "" then
      if !behind.isEmpty then throw .emptyHost
      if !username.isEmpty || password.isSome then throw .emptyHost
      pure ⟨username, password, none, none⟩
    else
      let port ← readPort scheme behind.tail
      pure ⟨username, password, some host, port⟩

/-- The authority of a file URL and the path behind it: a drive letter is no host, and neither
is the machine itself. -/
def readFileHost (cs : List Char) : Except UrlError (Option Host × List Char) :=
  let hostChars := cs.takeWhile fun c => !isSeparator true c
  let rest := cs.dropWhile fun c => !isSeparator true c
  if isDrive hostChars then .ok (none, cs)
  else if hostChars.isEmpty then .ok (none, rest)
  else do
    let host ← Host.parse? hostChars
    if host = .domain "localhost" then pure (none, rest)
    else
      match splitPath true rest.tail with
      | first :: _ => pure (if isDrive first then none else some host, rest)
      | [] => pure (some host, rest)

def readQuery (scheme : String) (cs : List Char) : String :=
  String.ofList (Percent.encodeChars
    (if isSpecial scheme then Percent.inSpecialQuery else Percent.inQuery) cs)

def readFragment (cs : List Char) : String :=
  String.ofList (Percent.encodeChars Percent.inFragment cs)

/-- Text behind a scheme's slashes, up to the path, and the path. -/
def cutAuthority (special : Bool) (cs : List Char) : List Char × List Char :=
  (cs.takeWhile fun c => !isSeparator special c, cs.dropWhile fun c => !isSeparator special c)

/-- A URL from the part between its scheme and its query. -/
def readBody (scheme : String) (cs : List Char) (query fragment : Option String) :
    Except UrlError Url := do
  if scheme == "file" then
    match cs with
    | a :: b :: rest =>
      if isSeparator true a && isSeparator true b then
        let (host, rest) ← readFileHost rest
        pure ⟨scheme, some (.ofHost host), false, readPath scheme rest, query, fragment⟩
      else pure ⟨scheme, some (.ofHost none), false, readPath scheme cs, query, fragment⟩
    | _ => pure ⟨scheme, some (.ofHost none), false, readPath scheme cs, query, fragment⟩
  else if isSpecial scheme then
    let (front, rest) := cutAuthority true (cs.dropWhile (isSeparator true))
    let authority ← readAuthority scheme front
    pure ⟨scheme, some authority, false, readPath scheme rest, query, fragment⟩
  else
    match cs with
    | '/' :: '/' :: rest =>
      let (front, rest) := cutAuthority false rest
      let authority ← readAuthority scheme front
      pure ⟨scheme, some authority, false, readPath scheme rest, query, fragment⟩
    | '/' :: rest =>
      pure ⟨scheme, none, false, readPath scheme ('/' :: rest), query, fragment⟩
    | cs =>
      pure ⟨scheme, none, true, String.ofList (Percent.encodeChars Percent.isPlain cs), query,
        fragment⟩

/-- A text without query and fragment, its query and its fragment. -/
def parts (cs : List Char) : List Char × Option (List Char) × Option (List Char) :=
  let (front, fragment) := cutAt '#' cs
  let (front, query) := cutAt '?' front
  (front, query, fragment)

def readRest (scheme : String) (cs : List Char) : Except UrlError Url :=
  let (body, query, fragment) := parts cs
  readBody scheme body (query.map (readQuery scheme)) (fragment.map readFragment)

def parse (s : String) : Except UrlError Url :=
  match scheme? (clean s.toList) with
  | some (scheme, rest) => readRest scheme rest
  | none => .error .relative

/-- The segments of a path without the last one, the last one first. -/
def keptSegments (path : String) : List (List Char) :=
  (splitPath false path.toList.tail).reverse.tail

/-- A URL from a text without a scheme, relative to one that has a root. -/
def joinBody (base : Url) (cs : List Char) : Except UrlError Url := do
  let (body, query, fragment) := parts cs
  let readFragment := fragment.map readFragment
  let readQuery := query.map (readQuery base.scheme)
  let special := isSpecial base.scheme
  match body with
  | [] =>
    if query.isNone then pure { base with fragment := readFragment }
    else pure { base with query := readQuery, fragment := readFragment }
  | c :: rest =>
    if isSeparator special c then
      match rest with
      | d :: more =>
        if isSeparator special d then
          let after := if c == '/' && d == '/' then more else rest.dropWhile (isSeparator special)
          let (front, path) := cutAuthority special after
          let authority ← readAuthority base.scheme front
          pure ⟨base.scheme, some authority, false, readPath base.scheme path, readQuery,
            readFragment⟩
        else
          pure { base with
            path := readPath base.scheme body, query := readQuery, fragment := readFragment }
      | [] =>
        pure { base with
          path := readPath base.scheme body, query := readQuery, fragment := readFragment }
    else
      let segments := followDots (keptSegments base.path) (splitPath special body)
      pure { base with
        path := String.ofList (rooted segments), query := readQuery, fragment := readFragment }

/-- The URL of a text relative to a base. -/
def join (base : Url) (s : String) : Except UrlError Url :=
  let cs := clean s.toList
  match scheme? cs with
  | some (scheme, rest) =>
    let slashes := (rest.takeWhile (isSeparator true)).length
    if isSpecial scheme && scheme != "file" && scheme == base.scheme && slashes < 2 then
      joinBody base rest
    else readRest scheme rest
  | none =>
    if base.rootless then
      match cs with
      | '#' :: fragment => .ok { base with fragment := some (readFragment fragment) }
      | _ => .error .rootlessBase
    else joinBody base cs

end Url

end LintBridge
