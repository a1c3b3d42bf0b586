import Mathlib.Algebra.Ring.Parity
import StagePlay.Proofs.Console.Words

/-!
# StagePlay.Proofs.Console.Token

Which words a line has, for lines of any shape.

`Shows` says how a line can be written for given words: every word in double quotes, or bare if it
is one piece, with blanks around and between them. `kept` is what a line is without the double
quotes and without the blanks outside of them.

* `words_shown`: a line that shows words without quotes has these words, and all words are such.
* `words_composed`: a line with an odd number of quotes has no words, a line is read piece by piece
  wherever a blank stands outside of quotes, and its words are made of what it keeps.
-/

namespace StagePlay.Console

open Text (isBlank)

/-- A word as it stands in a line: in double quotes, or bare if it is one piece. -/
inductive Stands : String → List Char → Prop where
  | quoted (word : String) : Stands word (quotedText word)
  | bare {word : String} : word.toList ≠ [] → (∀ c ∈ word.toList, isBlank c = false) →
      Stands word word.toList

/-- A line that shows some words, with blanks between them, and before and after them too if there
    are any. -/
inductive Shows : List String → List Char → Prop where
  | nil {gap : List Char} : Blanks gap → Shows [] gap
  | last {word : String} {gap text : List Char} : Blanks gap → Stands word text →
      Shows [word] (gap ++ text)
  | cons {word : String} {words : List String} {gap text gap' row : List Char} :
      Blanks gap → Stands word text → Blanks gap' → gap' ≠ [] → Shows words row →
      Shows (word :: words) (gap ++ text ++ gap' ++ row)

def NoQuote (word : String) : Prop := '"' ∉ word.toList

instance : DecidablePred NoQuote := fun word => inferInstanceAs (Decidable ('"' ∉ word.toList))

/-- What a line keeps: no quotes, and blanks only where the number of quotes before is odd. -/
def kept (line : List Char) : List Char :=
  (line.zipIdx.filter fun p =>
    p.1 ≠ '"' && (!isBlank p.1 || (line.take p.2).count '"' % 2 = 1)).map Prod.fst

/-! ## Lines for given words -/

theorem Stands.readAs {word : String} {text : List Char} (h : Stands word text)
    (hword : NoQuote word) : ReadAs text word := by
  cases h with
  | quoted => exact readAs_quoted hword
  | bare hne hblank =>
    have hbare := readAs_bare hne fun c hc => ⟨fun hquote => hword (hquote ▸ hc), hblank c hc⟩
    rwa [String.ofList_toList] at hbare

theorem blanks_of_all {gap : List Char} (h : gap.all isBlank = true) : Blanks gap := by
  intro c hc
  exact List.all_eq_true.mp h c hc

theorem ends_of_blanks {gap : List Char} (h : Blanks gap) (hne : gap ≠ []) (row : List Char) :
    Ends (gap ++ row) := by
  intro c hc
  rw [List.head?_append_of_ne_nil _ hne] at hc
  exact h c (List.mem_of_head? hc)

theorem words_of_shows {ws : List String} {line : List Char} (h : Shows ws line)
    (hws : ∀ w ∈ ws, NoQuote w) : words line = .ok ws := by
  induction h with
  | @nil gap hgap =>
    have hblanks := wordsFrom_blanks hgap []
    rw [List.append_nil] at hblanks
    exact hblanks
  | @last word gap text hgap hstands =>
    have hread := hstands.readAs (hws word (by simp))
    have htext := hread.reads [] (by intro c hc; cases hc)
    rw [List.append_nil] at htext
    rw [words, wordsFrom_blanks hgap, htext]
    rfl
  | @cons word ws gap text gap' row hgap hstands hgap' hne _ ih =>
    have hread := hstands.readAs (hws word (by simp))
    have hrow := ih fun w hw => hws w (by simp [hw])
    rw [words] at hrow
    rw [words, List.append_assoc, List.append_assoc, wordsFrom_blanks hgap,
      hread.reads _ (ends_of_blanks hgap' hne row), wordsFrom_blanks hgap', hrow]
    rfl

theorem exists_shows (ws : List String) : ∃ line, Shows ws line := by
  induction ws with
  | nil => exact ⟨[], .nil (blanks_of_all rfl)⟩
  | cons w ws ih =>
    obtain ⟨row, hrow⟩ := ih
    have hspace : Blanks [' '] := blanks_of_all rfl
    exact ⟨_, .cons (List.forall_mem_nil _) (.quoted w) hspace (by simp) hrow⟩

/-! ## The words of any line -/

section Words

variable {quoted : Bool} {word : Option (List Char)} {cs : List Char} {ws : List String}

theorem noQuote_underWay (hword : ∀ cs ∈ word, '"' ∉ cs) :
    ∀ w ∈ (word.map fun cs => String.ofList cs.reverse).toList, NoQuote w := by
  intro w hw
  obtain ⟨cs, hcs, rfl⟩ := Option.map_eq_some_iff.mp (Option.mem_toList.mp hw)
  simpa [NoQuote] using hword cs hcs

/-- A quote is part of no word, as it is of no word that is under way. -/
theorem noQuote_of_wordsFrom (h : wordsFrom quoted word cs = .ok ws)
    (hword : ∀ cs ∈ word, '"' ∉ cs) : ∀ w ∈ ws, NoQuote w := by
  induction cs generalizing quoted word ws with
  | nil =>
    simp only [wordsFrom] at h
    split at h
    · cases h
    · cases h
      exact noQuote_underWay hword
  | cons c cs ih =>
    have hgetD : '"' ∉ word.getD [] := by
      cases word with
      | none => simp
      | some cs => exact hword cs rfl
    simp only [wordsFrom] at h
    split at h
    · exact ih h (by intro w hw; cases hw; exact hgetD)
    · rename_i hquote
      split at h
      · -- a blank outside of quotes ends the word
        cases hrest : wordsFrom false none cs with
        | error e => rw [hrest] at h; cases h
        | ok rest =>
          rw [hrest] at h
          cases h
          intro w hw
          rcases List.mem_append.mp hw with hw | hw
          · exact noQuote_underWay hword w hw
          · exact ih hrest (by intro w hw; cases hw) w hw
      · refine ih h ?_
        intro w hw
        cases hw
        simp only [List.mem_cons, not_or]
        exact ⟨Ne.symm hquote, hgetD⟩

theorem map_append_append {ε : Type} (x : Except ε (List String)) (us vs : List String) :
    (x.map (vs ++ ·)).map (us ++ ·) = x.map (us ++ vs ++ ·) := by
  cases x <;> simp [Except.map]

/-- What has been read up to a blank outside of quotes stays as it is. -/
theorem wordsFrom_composed (h : wordsFrom quoted word cs = .ok ws) {rest : List Char}
    (hrest : Ends rest) :
    wordsFrom quoted word (cs ++ rest) = (wordsFrom false none rest).map (ws ++ ·) := by
  induction cs generalizing quoted word ws with
  | nil =>
    simp only [wordsFrom] at h
    split at h
    · cases h
    · rename_i hclosed
      cases h
      rw [Bool.not_eq_true] at hclosed
      subst hclosed
      cases word with
      | none => cases hr : wordsFrom false none rest <;> simp [hr, Except.map]
      | some w => simpa using wordsFrom_ends hrest
  | cons c cs ih =>
    rw [List.cons_append]
    simp only [wordsFrom] at h ⊢
    split at h
    · rename_i hquote
      simp only [if_pos hquote]
      exact ih h
    · rename_i hquote
      simp only [if_neg hquote]
      split at h
      · rename_i hends
        simp only [if_pos hends]
        cases hread : wordsFrom false none cs with
        | error e => rw [hread] at h; cases h
        | ok ws' =>
          rw [hread] at h
          cases h
          rw [ih hread, map_append_append]
      · rename_i hgoes
        simp only [if_neg hgoes]
        exact ih h

/-- What is kept of the rest of a line that so many quotes stand before. -/
def keptAfter (quotes : Nat) (cs : List Char) : List Char :=
  (cs.zipIdx.filter fun p =>
    p.1 ≠ '"' && (!isBlank p.1 || (quotes + (cs.take p.2).count '"') % 2 = 1)).map Prod.fst

theorem keptAfter_zero (cs : List Char) : keptAfter 0 cs = kept cs := by
  simp [keptAfter, kept]

theorem keptAfter_cons (quotes : Nat) (c : Char) (cs : List Char) :
    keptAfter quotes (c :: cs)
      = (if c ≠ '"' ∧ (isBlank c = false ∨ quotes % 2 = 1) then [c] else [])
        ++ keptAfter (quotes + if c = '"' then 1 else 0) cs := by
  have hcount : ∀ i, quotes + (c :: cs.take i).count '"'
      = quotes + (if c = '"' then 1 else 0) + (cs.take i).count '"' := by
    intro i
    rw [List.count_cons]
    simp only [beq_iff_eq]
    omega
  rw [keptAfter, keptAfter, List.zipIdx_cons, List.zipIdx_succ, List.filter_cons, List.filter_map]
  by_cases hkept : c ≠ '"' ∧ (isBlank c = false ∨ quotes % 2 = 1)
  · simp [Function.comp_def, hkept]
  · simp [Function.comp_def, hcount, hkept]

theorem flatten_of_wordsFrom {quotes : Nat} (h : wordsFrom quoted word cs = .ok ws)
    (hquotes : quoted = decide (quotes % 2 = 1)) :
    (ws.map String.toList).flatten = (word.getD []).reverse ++ keptAfter quotes cs := by
  induction cs generalizing quoted word ws quotes with
  | nil =>
    simp only [wordsFrom] at h
    split at h
    · cases h
    · cases h
      cases word <;> simp [keptAfter]
  | cons c cs ih =>
    rw [keptAfter_cons]
    simp only [wordsFrom] at h
    split at h
    · rename_i hquote
      have hflip : (!quoted) = decide ((quotes + 1) % 2 = 1) := by
        subst hquotes
        rw [← decide_not]
        exact decide_eq_decide.mpr (by omega)
      rw [ih h hflip]
      simp [hquote]
    · rename_i hquote
      split at h
      · rename_i hends
        obtain ⟨hblank, hopen⟩ := Bool.and_eq_true_iff.mp hends
        rw [Bool.not_eq_true'] at hopen
        subst hopen
        cases hrest : wordsFrom false none cs with
        | error e => rw [hrest] at h; cases h
        | ok rest =>
          rw [hrest] at h
          cases h
          have htail := ih hrest hquotes
          have heven : quotes % 2 ≠ 1 := by simpa using hquotes.symm
          cases word <;> simp [htail, hquote, hblank, heven]
      · rename_i hgoes
        rw [ih h hquotes]
        have hstays : isBlank c = false ∨ quotes % 2 = 1 := by
          cases hb : isBlank c with
          | false => exact .inl rfl
          | true =>
            right
            rw [hb, Bool.true_and, Bool.not_eq_true', Bool.not_eq_false] at hgoes
            rw [hgoes] at hquotes
            exact of_decide_eq_true hquotes.symm
        simp [hquote, hstays]

end Words

/-- **The words of a line.** A line that shows words of which none has a double quote is read as
these words, and no line is read as others: some words are those of a line exactly if none of them
has a double quote. -/
theorem words_shown :
    (∀ ws line, (∀ w ∈ ws, NoQuote w) → Shows ws line → words line = .ok ws) ∧
    (∀ line ws, words line = .ok ws → ∀ w ∈ ws, NoQuote w) ∧
    ∀ ws, (∃ line, words line = .ok ws) ↔ ∀ w ∈ ws, NoQuote w := by
  have hnone : ∀ line ws, words line = .ok ws → ∀ w ∈ ws, NoQuote w := by
    intro line ws h
    exact noQuote_of_wordsFrom h (by intro w hw; cases hw)
  refine ⟨?_, hnone, ?_⟩
  · intro ws line hws hline
    exact words_of_shows hline hws
  · intro ws
    constructor
    · rintro ⟨line, h⟩
      exact hnone line ws h
    · intro hws
      obtain ⟨line, hline⟩ := exists_shows ws
      exact ⟨line, words_of_shows hline hws⟩

/-- A line that shows three words, the second of which is empty, with a wide blank in it. -/
theorem words_shown_wide :
    words " \"big cat\"\u3000\"\"\t1".toList = .ok ["big cat", "", "1"] := by
  have hbare : ∀ c ∈ "1".toList, isBlank c = false := by
    intro c hc
    cases List.mem_singleton.mp hc
    rfl
  have hlast : Shows ["1"] "1".toList := .last (List.forall_mem_nil _) (.bare (by decide) hbare)
  have htab : Blanks ['\t'] := blanks_of_all rfl
  have hwide : Blanks ['\u3000'] := blanks_of_all rfl
  have hspace : Blanks [' '] := blanks_of_all rfl
  have hempty : Shows ["", "1"] "\"\"\t1".toList :=
    .cons (List.forall_mem_nil _) (.quoted "") htab (by simp) hlast
  have hline := Shows.cons hspace (.quoted "big cat") hwide (by simp) hempty
  exact words_shown.1 _ _ (by decide) hline

/-- **Lines in pieces.** A line has no words if a quote in it is left open. A blank outside of
quotes takes a line apart: the words before it come first, and the others are those of the rest.
Put together, the words are what the line keeps. -/
theorem words_composed :
    (∀ line, words line = .error .unterminated ↔ Odd (line.count '"')) ∧
    (∀ line gap rest, Even (line.count '"') → Blanks gap → gap ≠ [] →
      ∃ ws, words line = .ok ws ∧ words (line ++ gap ++ rest) = (words rest).map (ws ++ ·)) ∧
    ∀ line ws, words line = .ok ws → (ws.map String.toList).flatten = kept line := by
  refine ⟨?_, ?_, ?_⟩
  · intro line
    rw [← Nat.not_even_iff_odd, ← exists_words_iff]
    cases words line with
    | error e => cases e; simp
    | ok ws => simp
  · intro line gap rest heven hgap hne
    obtain ⟨ws, hws⟩ := exists_words_iff.mpr heven
    refine ⟨ws, hws, ?_⟩
    rw [words, List.append_assoc, wordsFrom_composed hws (ends_of_blanks hgap hne rest),
      wordsFrom_blanks hgap]
    rfl
  · intro line ws h
    rw [← keptAfter_zero]
    exact flatten_of_wordsFrom h (by simp)

/-- A line that a blank takes apart: behind the blank a quote is left open, or none is. -/
theorem words_composed_sample :
    words "say \"a b\" \"".toList = .error .unterminated ∧
    words "say \"a b\" c".toList = .ok ["say", "a b", "c"] ∧
    kept "say \"a b\" c".toList = "saya bc".toList := by
  obtain ⟨hopen, hpieces, hkept⟩ := words_composed
  obtain ⟨ws, hws, hline⟩ :=
    hpieces "say \"a b\"".toList [' '] ['c'] (by decide) (blanks_of_all rfl) (by simp)
  have hfirst : words "say \"a b\"".toList = .ok ["say", "a b"] := by decide
  rw [hfirst] at hws
  cases hws
  refine ⟨(hopen _).mpr (by decide), hline, ?_⟩
  exact (hkept _ _ hline).symm

end StagePlay.Console
