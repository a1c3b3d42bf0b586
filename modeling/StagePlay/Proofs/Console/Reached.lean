import StagePlay.Proofs.Console.Registered
import StagePlay.Proofs.Console.Words

/-!
# StagePlay.Proofs.Console.Reached

Which commands of a registry a line can reach.

A line begins with the name of its command, which ends at the first blank; and what begins like a
comment is none. So a command is reached by its name if this has no blank and does not begin like a
comment, and otherwise by no line at all. `Registry.register` does not ask for either.

* `line_set_of_not_nameable`: nobody can tell what a command does that has no such name.
* `commands_reached`: which commands are reached, after any calls.
* `not_reached_spaced`: commands that are registered and cannot be reached.
-/

namespace StagePlay.Console

open Text (isBlank trim)

variable {r r' : Registry} {s : Spec} {i : Nat}

/-- The name that a line begins with can stand for a command. -/
theorem nameable_splitName {c : Char} {cs line : List Char} (h : trim line = c :: cs)
    (hhash : c ≠ '#') : Nameable (Registry.splitName (c :: cs)).1.toList := by
  have hfirst : isBlank c = false := by
    obtain ⟨-, -, -, -, -, hnil | hsolid⟩ := exists_trim line
    · rw [h] at hnil
      cases hnil
    · rw [h] at hsolid
      exact hsolid.first c rfl
  have hname : (Registry.splitName (c :: cs)).1 =
      String.ofList ((c :: cs).takeWhile (!isBlank ·)) := by
    have hwhole : (c :: cs).takeWhile (!isBlank ·) ++ (c :: cs).dropWhile (!isBlank ·) = c :: cs :=
      List.takeWhile_append_dropWhile
    unfold Registry.splitName Text.splitAtBlank?
    cases hrest : (c :: cs).dropWhile (!isBlank ·) with
    | nil =>
      rw [hrest, List.append_nil] at hwhole
      rw [hwhole]
    | cons d rest => rfl
  have hcons : (c :: cs).takeWhile (!isBlank ·) = c :: cs.takeWhile (!isBlank ·) :=
    List.takeWhile_cons_of_pos (by rw [hfirst, Bool.not_false])
  rw [hname, String.toList_ofList]
  refine ⟨?_, fun d hd => ?_, ?_⟩
  · rw [hcons]
    exact List.cons_ne_nil _ _
  · have hkeep := List.all_eq_true.mp (List.all_takeWhile (p := (!isBlank ·))) d hd
    rwa [Bool.not_eq_true'] at hkeep
  · rw [hcons]
    rintro ⟨⟩
    exact hhash rfl

/-- What a line says depends on the commands that it can name. -/
theorem line_congr (h : ∀ name : String, Nameable name.toList → r'.lookup? name = r.lookup? name)
    (raw : String) : r'.line raw = r.line raw := by
  rw [Registry.line, Registry.line]
  cases htrim : trim raw.toList with
  | nil => rfl
  | cons c cs =>
    by_cases hhash : c = '#'
    · simp only [hhash, ↓reduceIte]
    · simp only [hhash, ↓reduceIte, h _ (nameable_splitName htrim hhash)]

/-- Whatever a command does whose name cannot begin a line, all lines say the same. -/
theorem line_set_of_not_nameable (h : r.Indexed) (hs : r.specs[i]? = some s)
    (hname : ¬ Nameable s.name.toList) (t : Spec) (raw : String) :
    ({ r with specs := r.specs.set i t } : Registry).line raw = r.line raw := by
  refine line_congr (fun name hnameable => ?_) raw
  show (r.place? name).bind ((r.specs.set i t)[·]?) = (r.place? name).bind (r.specs[·]?)
  cases hplace : r.place? name with
  | none => rfl
  | some j =>
    -- the only name that leads to this place begins no line
    have hij : i ≠ j := by
      rintro rfl
      obtain ⟨t, ht, hfolded⟩ := (h _ _).mp hplace
      rw [hs] at ht
      cases ht
      exact hname ((nameable_congr hfolded).mpr hnameable)
    exact List.getElem?_set_ne hij

/-- The rest of a line is the arguments of a command if it takes it as it stands, or if its quotes
    are balanced. -/
theorem exists_arguments {row : List Char} (h : s.rawTail = true ∨ Even (row.count '"')) :
    ∃ args, Registry.arguments s (trim row) = .ok args := by
  cases hraw : s.rawTail with
  | true => exact ⟨_, by rw [Registry.arguments, hraw, if_pos rfl]⟩
  | false =>
    rw [Registry.arguments, hraw, if_neg Bool.false_ne_true, exists_words_iff, count_quote_trim]
    exact h.resolve_left (by rw [hraw]; exact Bool.false_ne_true)

/-- **Which commands are reached.** Take any command of a registry after any calls. If its name has
no blank and does not begin like a comment, then each line that begins with this name, in any case
of its letters and alone or followed by a blank, is handed to this command: what the line says is
what the command reads in its arguments, which are the rest of the line as it stands for a command
that takes it so, and otherwise its words, as long as the quotes are balanced. If the name has a
blank or begins like a comment, no line is handed to the command: whatever it makes of its
arguments, every line says the same. -/
theorem commands_reached {start : Registry} (hstart : start = .empty ∨ start = .builtin)
    (calls : List Spec) {i : Nat} {s : Spec}
    (hs : (calls.foldl Registry.attempt start).specs[i]? = some s) :
    let r := calls.foldl Registry.attempt start
    ((∀ c ∈ s.name.toList, isBlank c = false) → s.name.toList.head? ≠ some '#' →
      ∀ before typed row : List Char, Blanks before →
        folded (String.ofList typed) = folded s.name → (∀ c ∈ row.head?, isBlank c = true) →
        (s.rawTail = true ∨ Even (row.count '"')) →
        ∃ args, Registry.arguments s (trim row) = .ok args ∧
          r.line (String.ofList (before ++ typed ++ row)) = s.answer args) ∧
    ((∃ c ∈ s.name.toList, isBlank c = true) ∨ s.name.toList.head? = some '#' →
      ∀ (read : ArgumentReader) (raw : String),
        ({ r with specs := r.specs.set i { s with read := read } } : Registry).line raw =
          r.line raw) := by
  intro r
  have hindexed : r.Indexed := Registry.Start.indexed hstart calls
  have hmem : s ∈ r.specs := List.mem_of_getElem? hs
  constructor
  · intro hbare hfirst before typed row hbefore htyped hrow hquotes
    have hnonempty : s.name.toList ≠ [] := by
      intro hnil
      refine Registry.Start.named hstart calls s hmem ?_
      rw [hnil]
      rfl
    have hname : Nameable typed := by
      have := (nameable_congr htyped).mpr ⟨hnonempty, hbare, hfirst⟩
      rwa [String.toList_ofList] at this
    have hlookup : r.lookup? (String.ofList typed) = some s :=
      hindexed.lookup?_eq_some_iff.mpr ⟨hmem, htyped.symm⟩
    obtain ⟨args, hargs⟩ := exists_arguments hquotes
    exact ⟨args, hargs, line_named hbefore hname hrow hlookup hargs⟩
  · intro hbroken read raw
    refine line_set_of_not_nameable hindexed hs (fun hname => ?_) _ raw
    rcases hbroken with ⟨c, hc, hblank⟩ | hhash
    · rw [hname.bare c hc] at hblank
      cases hblank
    · exact hname.first hhash

/-- A command that says its arguments, with a hash and a quote in its name. -/
def shout : Spec :=
  ⟨"Sh#out\"é", "Say it", "<text...>", false, fun args => .ok (.echo (" ".intercalate args))⟩

theorem commands_reached_shout :
    let r := [shout].foldl Registry.attempt .builtin
    r.specs[19]? = some shout ∧ folded "sH#OUT\"é" = folded shout.name ∧
      r.line " sH#OUT\"é\t\"big  cat\" 2 " = .request (.echo "big  cat 2") := by
  intro r
  have hs : r.specs[19]? = some shout := rfl
  have hname : Nameable shout.name.toList := nameable_of_all (by simp [shout]) rfl (by decide)
  have htyped : folded "sH#OUT\"é" = folded shout.name := by decide +kernel
  refine ⟨hs, htyped, ?_⟩
  have heven : Even ("\t\"big  cat\" 2 ".toList.count '"') := by decide
  have hrow : ∀ c ∈ "\t\"big  cat\" 2 ".toList.head?, isBlank c = true := by
    rintro c ⟨⟩
    rfl
  obtain ⟨args, hargs, hline⟩ := (commands_reached (.inr rfl) [shout] hs).1 hname.bare hname.first
    [' '] "sH#OUT\"é".toList _ (List.forall_mem_singleton.mpr rfl) htyped hrow (.inr heven)
  have hwords : Registry.arguments shout (trim "\t\"big  cat\" 2 ".toList) =
      .ok ["big  cat", "2"] := rfl
  rw [hwords] at hargs
  cases hargs
  exact hline

/-- A command whose name has a blank. -/
def spaced : Spec := { shout with name := "two words" }

/-- A command whose name begins like a comment. -/
def hashed : Spec := { shout with name := "#note" }

/-- Both are registered, and their own names do not reach them. -/
theorem not_reached_spaced :
    let r := [spaced, hashed].foldl Registry.attempt .empty
    r.names = ["two words", "#note"] ∧
      spaced.answer ["hello"] = .request (.echo "hello") ∧
      r.line "two words hello" = .refused (.unknownCommand "two") ∧
      hashed.answer ["hello"] = .request (.echo "hello") ∧
      r.line "#note hello" = .empty :=
  ⟨rfl, rfl, rfl, rfl, rfl⟩

end StagePlay.Console
