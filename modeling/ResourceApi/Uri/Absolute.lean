import ResourceApi.Uri.Host

/-!
Absolute URIs, as browsers take them: blanks around the text and tabs and line ends inside do not
count, and for the well-known schemes any number of slashes may stand in front of the host.
-/

namespace ResourceApi.Uri

/-- Kinds of schemes: of files, well known with a host, and all others. -/
inductive SchemeKind where
  | file
  | hosted
  | other
  deriving DecidableEq, Repr

namespace SchemeKind

def ofScheme (scheme : List Char) : SchemeKind :=
  match String.ofList (scheme.map Char.toLower) with
  | "file" => .file
  | "http" | "https" | "ws" | "wss" | "ftp" => .hosted
  | _ => .other

end SchemeKind

def isAsciiLetter (c : Char) : Bool := c.isAlpha

/-- The scheme in front of a colon, and what is behind it. -/
def scheme? (s : List Char) : Option (List Char × List Char) :=
  let isPart (c : Char) : Bool := c.isAlphanum || c = '+' || c = '-' || c = '.'
  match s with
  | [] => none
  | c :: _ =>
    if !isAsciiLetter c then none
    else match s.dropWhile isPart with
      | ':' :: rest => some (s.takeWhile isPart, rest)
      | _ => none

/-- Where the part with user, host and port ends. -/
def endsAuthority (special : Bool) (c : Char) : Bool :=
  c = '/' || c = '?' || c = '#' || (special && c = '\\')

/-- What is behind the last `@` of the part with user, host and port, or nothing if the host is
missing there. -/
def afterUser? (special : Bool) (s : List Char) : Option (Bool × List Char) :=
  let authority := s.takeWhile fun c => !endsAuthority special c
  let rest := s.dropWhile fun c => !endsAuthority special c
  let host := (authority.reverse.takeWhile (· ≠ '@')).reverse
  if host.length = authority.length then some (false, s)
  else
    let user := authority.take (authority.length - host.length - 1)
    if user.isEmpty then
      if host.isEmpty && !rest.isEmpty then none else some (false, host ++ rest)
    else some (user ≠ [':'], host ++ rest)

/-- The characters up to the colon of a port or the end of the host; a colon between brackets does
not count. -/
def hostLength (special : Bool) : Bool → List Char → Nat
  | _, [] => 0
  | inside, c :: rest =>
    if (c = ':' && !inside) || endsAuthority special c then 0
    else hostLength special (if c = '[' then true else if c = ']' then false else inside) rest + 1

/-- A port is empty or a number of 16 bits; what follows it is a path, a query or a fragment. -/
def isPort (s : List Char) : Bool :=
  let digits := s.takeWhile Char.isDigit
  let n := digits.foldl (fun n c => 10 * n + (c.toNat - '0'.toNat)) 0
  let ends := match (s.dropWhile Char.isDigit).head? with
    | none => true
    | some c => endsAuthority true c
  decide (n < Nat.pow 2 16) && ends

/-- Whether what stands behind the slashes names a host. Only schemes that are not well known may
leave the host empty, and then neither user nor port may be there. -/
def isAuthority (kind : SchemeKind) (s : List Char) : Bool :=
  let special : Bool := kind ≠ .other
  match afterUser? special s with
  | none => false
  | some (hasUser, s) =>
    let n := hostLength special false s
    let host := s.take n
    let port := match s.drop n with
      | ':' :: rest => some rest
      | _ => none
    let hostFits := if special then isHost host else isOpaqueHost host
    if host.isEmpty then !special && port.isNone && !hasUser
    else hostFits && (port.map isPort).getD true

/-- A letter and a colon or a bar name a drive, not a host. -/
def isDrive (s : List Char) : Bool :=
  match s with
  | [c, d] => isAsciiLetter c && (d = ':' || d = '|')
  | _ => false

/-- What stands behind the scheme of a file: a host is only there behind two slashes, and it may be
empty. -/
def isFile (s : List Char) : Bool :=
  let isSlash (c : Char) : Bool := c = '/' || c = '\\'
  match s with
  | c :: d :: rest =>
    if isSlash c && isSlash d then
      let host := rest.takeWhile fun c => !endsAuthority true c
      host.isEmpty || isDrive host || isHost host
    else true
  | _ => true

/-- Whether a text is a URI with a scheme. -/
def isAbsolute (text : String) : Bool :=
  let isOuter (c : Char) : Bool := c ≤ ' '
  let trimmed := ((text.toList.dropWhile isOuter).reverse.dropWhile isOuter).reverse
  let s := trimmed.filter fun c => !(c = '\t' || c = '\n' || c = '\r')
  match scheme? s with
  | none => false
  | some (scheme, rest) =>
    match SchemeKind.ofScheme scheme with
    | .file => isFile rest
    | .hosted => isAuthority .hosted (rest.dropWhile fun c => c = '/' || c = '\\')
    | .other =>
      match rest with
      | '/' :: '/' :: rest => isAuthority .other rest
      | _ => true

end ResourceApi.Uri
