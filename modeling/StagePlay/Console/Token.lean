import StagePlay.Text.Blank

/-!
# StagePlay.Console.Token

The words of a console line. Blanks separate words; inside double quotes they belong to the word,
and the quotes themselves never do. A pair of quotes is a word, or part of one, even if nothing
stands between them.
-/

namespace StagePlay.Console

inductive TokenError where
  | unterminated
  deriving DecidableEq, Repr

def TokenError.message : TokenError → String
  | .unterminated => "unterminated quoted string"

/-- The words of the rest of a line. `word` is what has been read of a word that is under way, the
    last character in front. -/
def wordsFrom (quoted : Bool) (word : Option (List Char)) :
    List Char → Except TokenError (List String)
  | [] =>
    if quoted then .error .unterminated
    else .ok (word.map fun w => String.ofList w.reverse).toList
  | c :: rest =>
    if c = '"' then wordsFrom (!quoted) (some (word.getD [])) rest
    else if Text.isBlank c && !quoted then
      (wordsFrom false none rest).map ((word.map fun w => String.ofList w.reverse).toList ++ ·)
    else wordsFrom quoted (some (c :: word.getD [])) rest

def words (line : List Char) : Except TokenError (List String) := wordsFrom false none line

end StagePlay.Console
