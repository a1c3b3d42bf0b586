/-!
# StagePlay.Text.Blank

Blank characters: the 25 characters with the Unicode property White_Space. Everything a person
types (console lines, field values, settings) is trimmed and split by this one class.

* `isBlank_of_isWhitespace`: the class extends the six ASCII blanks that core knows.
* `trim_eq_self`: trimming leaves a text alone that neither starts nor ends with a blank.
-/

namespace StagePlay.Text

/-- The characters with the property White_Space. -/
def isBlank (c : Char) : Bool :=
  let n := c.toNat
  (0x9 ≤ n && n ≤ 0xD) || n == 0x20 || n == 0x85 || n == 0xA0 || n == 0x1680 ||
    (0x2000 ≤ n && n ≤ 0x200A) || n == 0x2028 || n == 0x2029 || n == 0x202F || n == 0x205F ||
    n == 0x3000

def trimLeft (cs : List Char) : List Char := cs.dropWhile isBlank

def trimRight (cs : List Char) : List Char := (cs.reverse.dropWhile isBlank).reverse

def trim (cs : List Char) : List Char := trimRight (trimLeft cs)

/-- Splits at the first blank, which belongs to neither part; `none` if there is no blank. -/
def splitAtBlank? (cs : List Char) : Option (List Char × List Char) :=
  match cs.dropWhile (!isBlank ·) with
  | [] => none
  | _ :: tail => some (cs.takeWhile (!isBlank ·), tail)

/-- Every blank of core's `Char.isWhitespace` is blank. -/
theorem isBlank_of_isWhitespace {c : Char} (h : c.isWhitespace = true) : isBlank c = true := by
  simp only [Char.isWhitespace, Bool.or_eq_true, decide_eq_true_eq] at h
  rcases h with ((h | h) | h) | h <;> subst h <;> decide

/-- A text without a blank at either end is its own trimming. -/
theorem trim_eq_self {cs : List Char} (first : ∀ c ∈ cs.head?, isBlank c = false)
    (last : ∀ c ∈ cs.getLast?, isBlank c = false) : trim cs = cs := by
  have left : trimLeft cs = cs := by
    cases cs with
    | nil => rfl
    | cons c r => simp [trimLeft, List.dropWhile, first c (by simp)]
  have right : trimRight cs = cs := by
    unfold trimRight
    rcases List.eq_nil_or_concat cs with rfl | ⟨r, c, rfl⟩
    · rfl
    · simp [last c (by simp)]
  rw [trim, left, right]

end StagePlay.Text
