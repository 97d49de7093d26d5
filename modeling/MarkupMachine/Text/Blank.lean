/-! White space in the sense of Unicode, trimming, and the words between blanks. -/

namespace MarkupMachine.Text

/-- The characters with the property White_Space; the set has not changed since Unicode 6.3. -/
def isBlank (c : Char) : Bool :=
  let n := c.toNat
  (0x9 ≤ n && n ≤ 0xd) || n == 0x20 || n == 0x85 || n == 0xa0 || n == 0x1680 ||
    (0x2000 ≤ n && n ≤ 0x200a) || n == 0x2028 || n == 0x2029 || n == 0x202f || n == 0x205f ||
    n == 0x3000

def trimmed (cs : List Char) : List Char :=
  ((cs.dropWhile isBlank).reverse.dropWhile isBlank).reverse

def trim (s : String) : String := String.ofList (trimmed s.toList)

def extend (c : Char) (words : List (List Char)) (open? : Bool) : List (List Char) :=
  match open?, words with
  | true, word :: rest => (c :: word) :: rest
  | _, words => [c] :: words

/-- The maximal runs of characters that are not blank, with a mark whether the first of them
starts at the very beginning. -/
def split : List Char → List (List Char) × Bool
  | [] => ([], false)
  | c :: rest =>
    let (words, open?) := split rest
    if isBlank c then (words, false) else (extend c words open?, true)

def words (s : String) : List String := (split s.toList).1.map String.ofList

end MarkupMachine.Text
