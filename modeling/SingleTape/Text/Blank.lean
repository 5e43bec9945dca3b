/-!
White space and the ways text is cut at it: trimming, lines and words. Blank characters are those
with the Unicode property White_Space.
-/

namespace SingleTape.Text

def isBlank (c : Char) : Bool :=
  let n := c.toNat
  (0x09 ≤ n && n ≤ 0x0D) || n == 0x20 || n == 0x85 || n == 0xA0 || n == 0x1680 ||
    (0x2000 ≤ n && n ≤ 0x200A) || n == 0x2028 || n == 0x2029 || n == 0x202F || n == 0x205F ||
    n == 0x3000

def trim (cs : List Char) : List Char :=
  ((cs.dropWhile isBlank).reverse.dropWhile isBlank).reverse

def pieces (sep : Char → Bool) (cs : List Char) : List (List Char) :=
  cs.foldr
    (fun c rest =>
      if sep c then [] :: rest
      else match rest with
        | [] => [[c]]
        | p :: ps => (c :: p) :: ps)
    [[]]

/-- Lines end at a line feed. A carriage return before it is blank and stays with its line. -/
def lines (cs : List Char) : List (List Char) :=
  pieces (· == '\n') cs

def words (cs : List Char) : List (List Char) :=
  (pieces isBlank cs).filter (· ≠ [])

@[simp] theorem pieces_nil (sep : Char → Bool) : pieces sep [] = [[]] := rfl

theorem pieces_cons_sep {sep : Char → Bool} {c : Char} (h : sep c = true) (cs : List Char) :
    pieces sep (c :: cs) = [] :: pieces sep cs := by
  simp [pieces, h]

theorem pieces_ne_nil (sep : Char → Bool) (cs : List Char) : pieces sep cs ≠ [] := by
  cases cs with
  | nil => simp
  | cons c cs =>
    rw [pieces, List.foldr_cons]
    split
    · simp
    · split <;> simp

end SingleTape.Text
