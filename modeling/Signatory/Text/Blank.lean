/-!
# Blank characters

The characters with the Unicode property White_Space, the removal of blanks around a text, and the
division of a text into the words between its blanks.
-/

namespace Signatory.Text

/-- The code point ranges with the property White_Space, ends included. -/
def blankRanges : List (Nat × Nat) :=
  [(0x09, 0x0D), (0x20, 0x20), (0x85, 0x85), (0xA0, 0xA0), (0x1680, 0x1680), (0x2000, 0x200A),
    (0x2028, 0x2029), (0x202F, 0x202F), (0x205F, 0x205F), (0x3000, 0x3000)]

/-- Whether a character is white space. -/
def isBlank (c : Char) : Bool :=
  blankRanges.any fun r ↦ r.1 ≤ c.toNat && c.toNat ≤ r.2

/-- A text without the blanks at its start. -/
def trimStart (s : List Char) : List Char :=
  s.dropWhile isBlank

/-- A text without the blanks at its end. -/
def trimEnd (s : List Char) : List Char :=
  (s.reverse.dropWhile isBlank).reverse

/-- A text without the blanks around it. -/
def trim (s : List Char) : List Char :=
  trimEnd (trimStart s)

/-- The words of a text are its longest runs of non-blank characters, in order. -/
def words (s : List Char) : List (List Char) :=
  close (s.foldr next ([], []))
where
  /-- Put one more character in front of the word that is being gathered. -/
  next (c : Char) (st : List Char × List (List Char)) : List Char × List (List Char) :=
    if isBlank c then ([], close st) else (c :: st.1, st.2)
  /-- Count the word that is being gathered, unless it is empty. -/
  close (st : List Char × List (List Char)) : List (List Char) :=
    if st.1.isEmpty then st.2 else st.1 :: st.2

end Signatory.Text
