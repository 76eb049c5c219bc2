import MemoHints.FilePath
import MemoHints.Uri.Host

/-!
# Addresses of documents

An address is a scheme, an authority if it has one, a path, a query and a fragment. Reading brings
each part to its normal form, so that two spellings of one document's address have one text. The
schemes of the web and `file` take a backslash for a slash and always have a path.
-/

namespace MemoHints

/-- The address of a document in normal form. -/
structure Uri where
  scheme : List Char
  /-- User, host and port as they are written. -/
  authority : Option (List Char)
  /-- The host, unless it is empty. -/
  host : Option (List Char)
  path : List Char
  query : Option (List Char)
  fragment : Option (List Char)
deriving DecidableEq

namespace Uri

/-! Characters that are encoded in each part -/

def fragmentMarks : List Char := [' ', '"', '<', '>', '\x60']

def pathMarks : List Char := fragmentMarks ++ ['#', '?', '\x7b', '\x7d']

def userMarks : List Char := pathMarks ++ ['/', ':', ';', '=', '@', '[', '\\', ']', '^', '|']

def queryMarks (special : Bool) : List Char :=
  [' ', '"', '#', '<', '>'] ++ if special then ['\''] else []

/-- How a scheme's addresses are read. -/
inductive SchemeKind where
  | file
  | web (port : Nat)
  | other

namespace SchemeKind

def ofScheme (scheme : List Char) : SchemeKind :=
  match String.ofList scheme with
  | "file" => .file
  | "http" | "ws" => .web 80
  | "https" | "wss" => .web 443
  | "ftp" => .web 21
  | _ => .other

def isSpecial : SchemeKind → Bool
  | .other => false
  | _ => true

def isFile : SchemeKind → Bool
  | .file => true
  | _ => false

/-- Whether a character divides the path. -/
def isSlash (kind : SchemeKind) (c : Char) : Bool := c == '/' || (kind.isSpecial && c == '\\')

/-- Whether a character ends the authority. -/
def endsAuthority (kind : SchemeKind) (c : Char) : Bool := kind.isSlash c || c == '?' || c == '#'

end SchemeKind

/-- The input without controls and spaces at its ends, and without tabs and line ends. -/
def clean (cs : List Char) : List Char :=
  let edge (c : Char) : Bool := c.toNat ≤ 0x20
  (((cs.dropWhile edge).reverse.dropWhile edge).reverse).filter fun c =>
    !(c == '\t' || c == '\n' || c == '\r')

/-- The scheme in lower case and what follows its colon. -/
def scheme? : List Char → Option (List Char × List Char)
  | [] => none
  | first :: rest =>
    if !first.isAlpha then none
    else
      let isPart (c : Char) : Bool := c.isAlphanum || c == '+' || c == '-' || c == '.'
      match rest.dropWhile isPart with
      | ':' :: after => some ((first :: rest.takeWhile isPart).map Char.toLower, after)
      | _ => none

/-- A letter and a colon or bar: a drive. -/
def isDrive : List Char → Bool
  | [c, mark] => c.isAlpha && (mark == ':' || mark == '|')
  | _ => false

def isSingleDot (s : List Char) : Bool :=
  [".", "%2e"].contains (String.ofList (s.map Char.toLower))

def isDoubleDot (s : List Char) : Bool :=
  ["..", ".%2e", "%2e.", "%2e%2e"].contains (String.ofList (s.map Char.toLower))

/-- Leaves the last segment, unless it is a drive. -/
def leave (done : List (List Char)) : List (List Char) :=
  match done.getLast? with
  | some last => if isDrive last then done else done.dropLast
  | none => done

/-- Segments with dots resolved; the ones in `done` come before. -/
def resolveDots (file : Bool) : List (List Char) → List (List Char) → List (List Char)
  | done, [] => done
  | done, s :: rest =>
    if isDoubleDot s then
      resolveDots file (leave done ++ if rest.isEmpty then [[]] else []) rest
    else if isSingleDot s then
      resolveDots file (done ++ if rest.isEmpty then [[]] else []) rest
    else
      let s := if file && done.isEmpty && isDrive s then s.take 1 ++ [':'] else s
      resolveDots file (done ++ [s]) rest

/-- The path of a file does not begin with empty segments, unless there are no others. -/
def withoutEmptyFront (segments : List (List Char)) : List (List Char) :=
  match segments.dropWhile List.isEmpty with
  | [] => [[]]
  | kept => kept

/-- The path made of the characters after its first slash. -/
def pathOf (kind : SchemeKind) (cs : List Char) : List Char :=
  let segments :=
    resolveDots kind.isFile [] ((Text.splitWhere kind.isSlash cs).map (Percent.encode pathMarks))
  (if kind.isFile then withoutEmptyFront segments else segments).flatMap ('/' :: ·)

/-- The path of a file, with or without its first slash. -/
def filePathOf : List Char → List Char
  | [] => pathOf .file []
  | c :: cs => pathOf .file (if SchemeKind.file.isSlash c then cs else c :: cs)

/-- Splits off what a mark begins. -/
def splitMark (mark : Char) (cs : List Char) : List Char × Option (List Char) :=
  match cs.dropWhile (· != mark) with
  | [] => (cs, none)
  | _ :: rest => (cs.takeWhile (· != mark), some rest)

/-- The path that stands after an authority. -/
def pathAfterAuthority (kind : SchemeKind) : List Char → List Char
  | [] => if kind.isSpecial then ['/'] else []
  | c :: rest => if kind.isSlash c then pathOf kind rest else pathOf kind (c :: rest)

/-- User and password before the last at sign, and the rest. The text keeps the sign when there is
anything before it. -/
def userInfo (kind : SchemeKind) (cs : List Char) : Except UriError (List Char × List Char) :=
  let front := cs.takeWhile (!kind.endsAuthority ·)
  if front.contains '@' then
    let user := ((front.reverse.dropWhile (· != '@')).drop 1).reverse
    let rest := cs.drop (user.length + 1)
    if user.isEmpty then
      match rest with
      | c :: _ => if kind.endsAuthority c then .error .emptyHost else .ok ([], rest)
      | [] => .ok ([], rest)
    else
      let (name, password) := splitMark ':' user
      let shown := Percent.encode userMarks name ++
        match password with
        | some (c :: more) => ':' :: Percent.encode userMarks (c :: more)
        | _ => []
      .ok (if shown.isEmpty then [] else shown ++ ['@'], rest)
  else .ok ([], cs)

/-- The characters of a host: up to a colon outside brackets, or the end of the authority. -/
def hostChars (kind : SchemeKind) : Bool → List Char → List Char
  | _, [] => []
  | inBrackets, c :: rest =>
    if (c == ':' && !inBrackets) || kind.endsAuthority c then []
    else c :: hostChars kind (c == '[' || (inBrackets && c != ']')) rest

/-- The port after a colon, unless it is the scheme's own, and the rest. -/
def portOf (kind : SchemeKind) (cs : List Char) : Except UriError (List Char × List Char) :=
  let digits := cs.takeWhile Char.isDigit
  let rest := cs.drop digits.length
  let fine := match rest with
    | [] => true
    | c :: _ => c == '/' || c == '\\' || c == '?' || c == '#'
  match if fine then digitsValue? 10 digits else none with
    | none => .error .badPort
    | some n =>
      if 65535 < n then .error .badPort
      else
        let own := match kind with
          | .web port => port == n
          | _ => false
        .ok (if digits.isEmpty || own then [] else ':' :: decimal n, rest)

/-- Path, query and fragment of an address whose front is read. -/
def finish (kind : SchemeKind) (scheme : List Char) (authority host : Option (List Char))
    (path : List Char → List Char) (cs : List Char) : Uri :=
  let (cs, fragment) := splitMark '#' cs
  let (cs, query) := splitMark '?' cs
  { scheme, authority, host
    path := path cs
    query := query.map (Percent.encode (queryMarks kind.isSpecial))
    fragment := fragment.map (Percent.encode fragmentMarks) }

/-- An address with an authority; the input stands after the two slashes. -/
def withAuthority (kind : SchemeKind) (scheme cs : List Char) : Except UriError Uri := do
  let (user, cs) ← userInfo kind cs
  let shown := hostChars kind false cs
  let rest := cs.drop shown.length
  let host ← if kind.isSpecial && shown.isEmpty then .error .emptyHost
    else if kind.isSpecial then specialHost shown
    else plainHost shown
  if host.isEmpty && (!user.isEmpty || rest.head? == some ':') then .error .emptyHost
  else
    let (port, rest) ← match rest with
      | ':' :: rest => portOf kind rest
      | rest => .ok ([], rest)
    return (finish kind scheme (some (user ++ host ++ port))
      (if host.isEmpty then none else some host) (pathAfterAuthority kind) rest)

/-- An address of a file; the input stands after the colon. -/
def ofFile (cs : List Char) : Except UriError Uri :=
  let kind := SchemeKind.file
  let scheme := "file".toList
  let whole (cs : List Char) : Uri := finish kind scheme (some []) none filePathOf cs
  match cs with
  | a :: b :: rest =>
    if kind.isSlash a && kind.isSlash b then
      let shown := rest.takeWhile (!kind.endsAuthority ·)
      let after := rest.drop shown.length
      if isDrive shown then .ok (whole rest)
      else if shown.isEmpty then .ok (whole after)
      else do
        let host ← specialHost shown
        let drive := match Text.splitWhere (kind.endsAuthority ·) (after.drop 1) with
          | s :: _ => isDrive s
          | [] => false
        if host == "localhost".toList || drive then return whole after
        else return finish kind scheme (some host) (some host) filePathOf after
    else .ok (whole (a :: b :: rest))
  | cs => .ok (whole cs)

/-- An address without an authority. -/
def plain (scheme : List Char) (cs : List Char) : Uri :=
  finish .other scheme none none (fun cs =>
    match cs with
    | '/' :: rest => pathOf .other rest
    | cs => Percent.encode [] cs) cs

/-- Reads an address. -/
def ofChars (cs : List Char) : Except UriError Uri :=
  match scheme? (clean cs) with
  | none => .error .noScheme
  | some (scheme, rest) =>
    match SchemeKind.ofScheme scheme, rest with
    | .file, rest => ofFile rest
    | .web port, rest =>
      withAuthority (.web port) scheme (rest.dropWhile (SchemeKind.web port).isSlash)
    | .other, '/' :: '/' :: rest => withAuthority .other scheme rest
    | .other, rest => .ok (plain scheme rest)

def ofString (s : String) : Except UriError Uri := ofChars s.toList

def ofString? (s : String) : Option Uri := (ofString s).toOption

/-- A part with the mark before it, if there is one. -/
def marked (mark : Char) (part : Option (List Char)) : List Char :=
  match part with
  | some cs => mark :: cs
  | none => []

/-- The address as a text. A path that begins with two slashes is kept apart from an authority. -/
def toChars (uri : Uri) : List Char :=
  uri.scheme ++ ':' ::
    (match uri.authority with
      | some authority => '/' :: '/' :: authority
      | none => if ['/', '/'].isPrefixOf uri.path then ['/', '.'] else []) ++
    uri.path ++ marked '?' uri.query ++ marked '#' uri.fragment

def toText (uri : Uri) : String := String.ofList uri.toChars

/-- Whether the last two bytes are a drive. -/
def endsWithDrive (bytes : List UInt8) : Bool :=
  match bytes.reverse with
  | mark :: letter :: _ :: _ =>
    (mark.toNat == 0x3A || mark.toNat == 0x7C) && (Char.ofNat letter.toNat).isAlpha
  | _ => false

/-- The path of the file that the address names: its host must be this one. -/
def filePath? (uri : Uri) : Option FilePath :=
  if uri.host.isSome && uri.host != some "localhost".toList then none
  else
    match uri.path with
    | '/' :: rest =>
      let segments := Text.splitWhere (· = '/') rest
      let bytes := segments.flatMap fun s => FilePath.slash :: Percent.decode s
      some ⟨if endsWithDrive bytes then bytes ++ [FilePath.slash] else bytes⟩
    | _ => none

/-- The name by which the compiler knows the document: the path of its file, or else the path of its
address. -/
def fileName (uri : Uri) : String :=
  match uri.filePath? with
  | some p => p.display
  | none => String.ofList uri.path

end Uri

end MemoHints
