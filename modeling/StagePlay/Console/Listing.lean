import StagePlay.Script.Command

/-!
# StagePlay.Console.Listing

Scripts as the console lists them: one line per block in reading order, the outermost blocks with
their index and the others indented by four blanks for each loop around them.

* `length_listing`: every block has one line.
-/

namespace StagePlay.Console

/-- The line of a block: `index` is that of the outermost block that it belongs to. -/
def entry (index : Nat) : Nat × Command → String
  | (0, c) => toString index ++ ": " ++ c.label
  | (depth + 1, c) => String.ofList (List.replicate (4 * (depth + 1)) ' ') ++ c.label

/-- The lines of a script whose first block has this index. -/
def listingFrom (index : Nat) : Script → List String
  | [] => []
  | c :: rest => (c.outlineAt 0).map (entry index) ++ listingFrom (index + 1) rest

def listing (s : Script) : List String := listingFrom 0 s

theorem length_listing (s : Script) : (listing s).length = s.outline.length := by
  have go (index : Nat) (s : Script) :
      (listingFrom index s).length = (Script.outlineAt 0 s).length := by
    induction s generalizing index with
    | nil => rfl
    | cons c rest ih => simp [listingFrom, Script.outlineAt, ih]
  exact go 0 s

end StagePlay.Console
