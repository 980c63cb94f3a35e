namespace Blockwork.Text

structure CharSet where
  ranges : List (Nat × Nat)

def CharSet.contains (set : CharSet) (c : Char) : Bool :=
  set.ranges.any fun range => decide (range.1 ≤ c.toNat) && decide (c.toNat ≤ range.2)

-- Blanks are the characters of the Unicode property White_Space. The zero width
-- space and the byte order mark are not among them.
def whiteSpace : CharSet where
  ranges := [(0x9, 0xd), (0x20, 0x20), (0x85, 0x85), (0xa0, 0xa0), (0x1680, 0x1680), (0x2000, 0x200a),
    (0x2028, 0x2029), (0x202f, 0x202f), (0x205f, 0x205f), (0x3000, 0x3000)]

def isBlank (c : Char) : Bool := whiteSpace.contains c

def trimRight (cs : List Char) : List Char := (cs.reverse.dropWhile isBlank).reverse

def trimBoth (cs : List Char) : List Char := trimRight (cs.dropWhile isBlank)

def trim (s : String) : String := String.ofList (trimBoth s.toList)

def trimEnd (s : String) : String := String.ofList (trimRight s.toList)

def allBlank (s : String) : Bool := s.toList.all isBlank

-- Cutting a text into its lines. A line ends with a line feed, and a carriage
-- return directly before it belongs to the ending. What follows the last line
-- feed is a line if it is not empty, and keeps all its characters.
def dropReturn : List Char → List Char
  | '\r' :: rest => rest
  | cs => cs

-- Lines of a text whose first line has been read up to `line`, which is reversed.
def linesFrom (line : List Char) : List Char → List (List Char)
  | [] => if line.isEmpty then [] else [line.reverse]
  | c :: rest =>
    if c = '\n' then (dropReturn line).reverse :: linesFrom [] rest else linesFrom (c :: line) rest

def lines (s : String) : List String := (linesFrom [] s.toList).map String.ofList

end Blockwork.Text
