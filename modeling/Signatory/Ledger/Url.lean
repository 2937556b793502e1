import Signatory.Bytes
import Signatory.Text.Unsigned

/-!
# Web addresses

What a client asks a server for, given the address of a service: the path, with dot segments taken
out, and the query. A character that may not stand there is written as the bytes of its UTF-8 form,
each as a percent sign and two digits. Spaces and controls around an address do not belong to it,
and what follows a number sign stays with the client.
-/

namespace Signatory.Ledger.Url

/-- A byte as a percent sign and two digits. -/
def percent (b : UInt8) : List Char :=
  ['%', (Text.digit (b.toNat / 16)).toUpper, (Text.digit (b.toNat % 16)).toUpper]

/-- The visible characters that may not stand in a path. -/
def pathReserved : List Char :=
  ['\x22', '#', '<', '>', '?', '\x60', '\x7b', '\x7d']

/-- The visible characters that may not stand in a query. -/
def queryReserved : List Char :=
  ['\x22', '#', '<', '>', '\x27']

/-- A text without reserved characters, blanks, controls and characters beyond ASCII. -/
def encode (reserved text : List Char) : List Char :=
  text.flatMap fun c ↦
    if c ≤ ' ' ∨ '\x7f' ≤ c ∨ c ∈ reserved then (String.utf8EncodeChar c).flatMap percent else [c]

/-- Whether a character stands between the segments of a path. -/
def isSeparator (c : Char) : Bool :=
  c = '/' || c = '\\'

/-- The segments of a path. -/
def segments (path : List Char) : List (List Char) :=
  let (first, others) := path.foldr next ([], [])
  first :: others
where
  /-- Put one more character in front of the segments of what follows it. -/
  next (c : Char) (st : List Char × List (List Char)) : List Char × List (List Char) :=
    if isSeparator c then ([], st.1 :: st.2) else (c :: st.1, st.2)

/-- A segment whose dots are written as dots. -/
def spellDots : List Char → List Char
  | '%' :: '2' :: 'e' :: rest | '%' :: '2' :: 'E' :: rest => '.' :: spellDots rest
  | c :: rest => c :: spellDots rest
  | [] => []

/-- Follow the segments of a path, those done last first: one dot stays where it is, two dots go
back, and at the end either leaves an empty segment. -/
def follow : (done : List (List Char)) → List (List Char) → List (List Char)
  | done, [] => done.reverse
  | done, s :: rest =>
    let land (done : List (List Char)) := if rest.isEmpty then [] :: done else done
    if spellDots s = ['.', '.'] then follow (land done.tail) rest
    else if spellDots s = ['.'] then follow (land done) rest
    else follow (encode pathReserved s :: done) rest

/-- The characters that count in an address. -/
def essential (url : String) : List Char :=
  let text := url.toList.dropWhile (· ≤ ' ')
  let text := (text.reverse.dropWhile (· ≤ ' ')).reverse
  (text.filter fun c ↦ c ≠ '\t' ∧ c ≠ '\n' ∧ c ≠ '\r').takeWhile (· ≠ '#')

/-- The path and the query that an address asks for. -/
def target (url : String) : String :=
  let authority := ((essential url).dropWhile (· ≠ ':')).drop 3
  let rest := authority.dropWhile fun c ↦ !isSeparator c && c ≠ '?'
  let path := (rest.takeWhile (· ≠ '?')).drop 1
  let query := rest.dropWhile (· ≠ '?')
  String.ofList ((follow [] (segments path)).flatMap ('/' :: ·) ++
    query.take 1 ++ encode queryReserved (query.drop 1))

end Signatory.Ledger.Url
