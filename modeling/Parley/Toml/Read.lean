import Parley.Toml.Scalar

/-!
# Option (a × List Char) settings file

A file is a sequence of lines: headers of tables, assignments, comments. The functions here read
something in front of a text and answer it with what follows; the number they are given first
bounds how often they go on, and the length of the text is enough.
-/

namespace Parley.Toml

/-- Whether a character may stand in a comment or a string. -/
def isPlain (c : Char) : Bool :=
  c == '\t' || (0x20 ≤ c.toNat && c.toNat ≠ 0x7f)

/-- What follows blanks. -/
def skipBlanks (s : List Char) : List Char :=
  s.dropWhile fun c => c == ' ' || c == '\t'

/-- What follows a comment, if there is one. -/
def skipComment? (s : List Char) : Option (List Char) :=
  match s with
  | '#' :: s =>
    let (comment, rest) := s.span fun c => c != '\n' && c != '\r'
    if comment.all isPlain then some rest else none
  | s => some s

/-- What follows the end of a line. -/
def lineEnd? : List Char → Option (List Char)
  | '\n' :: rest | '\r' :: '\n' :: rest => some rest
  | _ => none

/-- What follows blanks, comments and line ends. -/
def skipLines? : Nat → List Char → Option (List Char)
  | 0, s => some s
  | fuel + 1, s =>
    match skipComment? (skipBlanks s) with
    | none => none
    | some s =>
      match lineEnd? s with
      | some s => skipLines? fuel s
      | none => some s

/-! ### Strings -/

/-- The character with a number written in so many hexadecimal digits. -/
def scalarValue? (width : Nat) (s : List Char) : Option (Char × List Char) :=
  let ds := s.take width
  let n := valueOf 16 ds
  if ds.length = width && ds.all isHexDigit && n.isValidChar then
    some (Char.ofNat n, s.drop width)
  else none

/-- The character that stands after a backslash. -/
def escape? : List Char → Option (Char × List Char)
  | 'b' :: s => some ('\x08', s)
  | 't' :: s => some ('\t', s)
  | 'n' :: s => some ('\n', s)
  | 'f' :: s => some ('\x0c', s)
  | 'r' :: s => some ('\r', s)
  | 'e' :: s => some ('\x1b', s)
  | '"' :: s => some ('"', s)
  | '\\' :: s => some ('\\', s)
  | 'x' :: s => scalarValue? 2 s
  | 'u' :: s => scalarValue? 4 s
  | 'U' :: s => scalarValue? 8 s
  | _ => none

/-- The characters up to the quotation mark that ends a string with escapes. -/
def quoted? : Nat → List Char → Option (List Char × List Char)
  | 0, _ | _, [] => none
  | _, '"' :: s => some ([], s)
  | fuel + 1, '\\' :: s => do
    let (c, s) ← escape? s
    let (cs, s) ← quoted? fuel s
    return (c :: cs, s)
  | fuel + 1, c :: s => do
    if isPlain c then
      let (cs, s) ← quoted? fuel s
      return (c :: cs, s)
    else none

/-- The characters up to the mark that ends a string without escapes. -/
def literal? (s : List Char) : Option (List Char × List Char) :=
  let (cs, rest) := s.span (· != '\'')
  match rest with
  | '\'' :: rest => if cs.all isPlain then some (cs, rest) else none
  | _ => none

/-- What follows the three marks that end a string of several lines. Two more marks in front of
    them belong to the string. -/
def closing (mark : Char) (s : List Char) : List Char :=
  match s with
  | c :: d :: rest =>
    if c = mark then if d = mark then rest else d :: rest else s
  | [c] => if c = mark then [] else s
  | [] => []

/-- What follows a string of several lines. -/
def skipLong? (mark : Char) : Nat → List Char → Option (List Char)
  | 0, _ | _, [] => none
  | fuel + 1, c :: s =>
    if c = mark then
      match s with
      | d :: e :: rest =>
        if d = mark && e = mark then some (closing mark rest) else skipLong? mark fuel s
      | _ => none
    else if c == '\\' && mark == '"' then
      match lineEnd? (skipBlanks s) with
      | some rest => skipLong? mark fuel (rest.dropWhile Char.isWhitespace)
      | none =>
        match escape? s with
        | some (_, rest) => skipLong? mark fuel rest
        | none => none
    else
      match lineEnd? (c :: s) with
      | some rest => skipLong? mark fuel rest
      | none => if isPlain c then skipLong? mark fuel s else none

/-! ### Keys -/

/-- Whether a character may stand in a key without quotation marks. -/
def isKeyChar (c : Char) : Bool :=
  c.isAlphanum || c == '_' || c == '-'

/-- A single key. -/
def simpleKey? (fuel : Nat) (s : List Char) : Option (String × List Char) :=
  match s with
  | '"' :: s => (quoted? fuel s).map fun (cs, s) => (String.ofList cs, s)
  | '\'' :: s => (literal? s).map fun (cs, s) => (String.ofList cs, s)
  | s =>
    let (cs, rest) := s.span isKeyChar
    if cs.isEmpty then none else some (String.ofList cs, rest)

/-- A dotted key: the keys before the last, and the last. -/
def key? : Nat → List Char → Option ((List String × String) × List Char)
  | 0, _ => none
  | fuel + 1, s => do
    let (k, s) ← simpleKey? (s.length + 1) (skipBlanks s)
    match skipBlanks s with
    | '.' :: s =>
      let ((path, last), s) ← key? fuel s
      return ((k :: path, last), s)
    | s => return (([], k), s)

/-! ### Values -/

/-- The characters of a value without marks around it. A time may follow a date after a blank. -/
def bareValue (s : List Char) : List Char × List Char :=
  let isInner (c : Char) := !(" \t\r\n,]\x7d#=".toList.contains c)
  let (token, rest) := s.span isInner
  match rest with
  | ' ' :: c :: more =>
    if date? token == some [] && c.isDigit then
      let (time, rest) := (c :: more).span isInner
      (token ++ ' ' :: time, rest)
    else (token, rest)
  | rest => (token, rest)

mutual

/-- A value. -/
def value? : Nat → List Char → Option (Entry × List Char)
  | 0, _ => none
  | fuel + 1, s =>
    match s with
    | '"' :: '"' :: '"' :: s => (skipLong? '"' (s.length + 1) s).map fun s => (.text, s)
    | '\'' :: '\'' :: '\'' :: s => (skipLong? '\'' (s.length + 1) s).map fun s => (.text, s)
    | '"' :: s => (quoted? (s.length + 1) s).map fun (_, s) => (.text, s)
    | '\'' :: s => (literal? s).map fun (_, s) => (.text, s)
    | '[' :: s => (elements? fuel s).map fun s => (.list, s)
    | '\x7b' :: s => (fields? fuel .braces [] s).map fun (entries, s) => (.table .braces entries, s)
    | s =>
      let (token, rest) := bareValue s
      (scalar? token).map fun e => (e, rest)

/-- What follows the elements of a list and its end. -/
def elements? : Nat → List Char → Option (List Char)
  | 0, _ => none
  | fuel + 1, s => do
    match ← skipLines? (s.length + 1) s with
    | ']' :: s => some s
    | s =>
      let (_, s) ← value? fuel s
      match ← skipLines? (s.length + 1) s with
      | ',' :: s => elements? fuel s
      | ']' :: s => some s
      | _ => none

/-- The entries of a table in braces, after those so far. -/
def fields? : Nat → Origin → Entries → List Char → Option (Entries × List Char)
  | 0, _, _, _ => none
  | fuel + 1, origin, entries, s => do
    match ← skipLines? (s.length + 1) s with
    | '\x7d' :: s => some (entries, s)
    | s =>
      let ((path, last), s) ← key? (s.length + 1) s
      let s ← after? '=' (skipBlanks s)
      let (e, s) ← value? fuel (skipBlanks s)
      let (origin, entries) ← assign path last e origin entries
      match ← skipLines? (s.length + 1) s with
      | ',' :: s => fields? fuel origin entries s
      | '\x7d' :: s => some (entries, s)
      | _ => none

end

/-! ### Lines -/

/-- What follows the rest of a line, in which only a comment may stand. -/
def restOfLine? (s : List Char) : Option (List Char) := do
  match ← skipComment? (skipBlanks s) with
  | [] => some []
  | s => lineEnd? s

/-- Reads the lines of a file. The table of the last header is given by its path, and the root
    by its entries. -/
def lines? : Nat → List String → Entries → List Char → Option Entries
  | 0, _, _, _ => none
  | fuel + 1, path, root, s => do
    match skipBlanks s with
    | [] => some root
    | '#' :: s => lines? fuel path root (← restOfLine? ('#' :: s))
    | '\r' :: s => lines? fuel path root (← lineEnd? ('\r' :: s))
    | '\n' :: s => lines? fuel path root s
    | '[' :: '[' :: s =>
      let ((before, last), s) ← key? (s.length + 1) s
      let s ← after? ']' (← after? ']' (skipBlanks s))
      let root ← openElement before last root
      lines? fuel (before ++ [last]) root (← restOfLine? s)
    | '[' :: s =>
      let ((before, last), s) ← key? (s.length + 1) s
      let s ← after? ']' (skipBlanks s)
      let root ← openTable before last root
      lines? fuel (before ++ [last]) root (← restOfLine? s)
    | s =>
      let ((before, last), s) ← key? (s.length + 1) s
      let s ← after? '=' (skipBlanks s)
      let (e, s) ← value? (s.length + 1) (skipBlanks s)
      let (_, root) ← change false path (assign before last e) .header root
      lines? fuel path root (← restOfLine? s)

/-- The table that a settings file is; none if it is not well formed. -/
def read? (text : String) : Option Entries :=
  let s := text.toList
  lines? (s.length + 1) [] [] s

end Parley.Toml
