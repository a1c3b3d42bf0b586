import Mathlib.Algebra.Group.Nat.Even
import Mathlib.Data.List.Forall2
import Mathlib.Data.List.TakeWhile
import StagePlay.Console.Registry

/-!
# StagePlay.Proofs.Console.Words

How a line falls into a command name and its arguments.

`Spaced` says in which ways some texts can stand behind a name. Each of them is read as one word
(`ReadAs`), whatever blanks are between them.

* `exists_trim`: what trimming takes away.
* `readAs_bare`, `readAs_quoted`: what can stand for a word.
* `words_spaced`: texts behind a name are read one by one.
* `exists_words_iff`: a line can be read if its quotes are balanced.
* `nameable_congr`: the case of its letters does not matter to a name.
* `line_named`: a line with a name in front is handed to the command of this name.
* `line_spaced`: a line with blanks around it asks for what its name and its arguments say.
-/

namespace StagePlay.Console

open Text (isBlank trim trimLeft trimRight)

def Blanks (cs : List Char) : Prop := ∀ c ∈ cs, isBlank c = true

/-- A text that loses nothing when a line is trimmed. -/
structure Solid (cs : List Char) : Prop where
  nonempty : cs ≠ []
  first : ∀ c ∈ cs.head?, isBlank c = false
  last : ∀ c ∈ cs.getLast?, isBlank c = false

theorem solid_of_ends {first last : Char} (hfirst : isBlank first = false)
    (hlast : isBlank last = false) (middle : List Char) :
    Solid (first :: (middle ++ [last])) where
  nonempty := List.cons_ne_nil _ _
  first := by
    rintro c ⟨⟩
    exact hfirst
  last := by
    rw [← List.cons_append, List.getLast?_concat]
    rintro c ⟨⟩
    exact hlast

/-- Texts with blanks before each of them. -/
inductive Spaced : List (List Char) → List Char → Prop where
  | nil : Spaced [] []
  | cons {gap text rest : List Char} {texts : List (List Char)} :
      Blanks gap → gap ≠ [] → Spaced texts rest → Spaced (text :: texts) (gap ++ text ++ rest)

/-! ## Trimming -/

theorem Blanks.reverse {cs : List Char} (h : Blanks cs) : Blanks cs.reverse :=
  fun c hc => h c (List.mem_reverse.mp hc)

theorem trimLeft_blanks {gap : List Char} (h : Blanks gap) (rest : List Char) :
    trimLeft (gap ++ rest) = trimLeft rest := List.dropWhile_append_of_pos h

theorem trimLeft_solid {cs : List Char} (h : Solid cs) (rest : List Char) :
    trimLeft (cs ++ rest) = cs ++ rest := by
  obtain ⟨c, cs, rfl⟩ := List.exists_cons_of_ne_nil h.nonempty
  have hfirst := h.first c rfl
  simp [trimLeft, hfirst]

theorem trimLeft_row {gap text : List Char} (hgap : Blanks gap) (h : Solid text)
    (rest : List Char) : trimLeft (gap ++ text ++ rest) = text ++ rest := by
  rw [List.append_assoc, trimLeft_blanks hgap, trimLeft_solid h]

theorem trim_solid {before cs after : List Char} (hbefore : Blanks before) (h : Solid cs)
    (hafter : Blanks after) : trim (before ++ cs ++ after) = cs := by
  have hright : trimRight (cs ++ after) = trimRight cs := by
    rw [trimRight, List.reverse_append, List.dropWhile_append_of_pos hafter.reverse]
    rfl
  have hself := Text.trim_eq_self h.first h.last
  have hleft := trimLeft_solid h []
  rw [List.append_nil] at hleft
  rw [trim, hleft] at hself
  rw [trim, List.append_assoc, trimLeft_blanks hbefore, trimLeft_solid h, hright, hself]

theorem trimLeft_first {cs : List Char} {c : Char} (h : c ∈ (trimLeft cs).head?) :
    isBlank c = false := by
  have hnot := List.head?_dropWhile_not isBlank cs
  rw [show (cs.dropWhile isBlank).head? = some c from h] at hnot
  exact hnot

theorem trimRight_last {cs : List Char} {c : Char} (h : c ∈ (trimRight cs).getLast?) :
    isBlank c = false := by
  rw [trimRight, List.getLast?_reverse] at h
  exact trimLeft_first h

/-- What trimming takes away is blanks. -/
theorem exists_trim (cs : List Char) :
    ∃ before after, Blanks before ∧ Blanks after ∧ cs = before ++ trim cs ++ after ∧
      (trim cs = [] ∨ Solid (trim cs)) := by
  have htaken : ∀ cs : List Char, Blanks (cs.takeWhile isBlank) :=
    fun _ _ hc => List.mem_takeWhile_imp hc
  have hleft : cs = cs.takeWhile isBlank ++ trimLeft cs := List.takeWhile_append_dropWhile.symm
  have hright : trimLeft cs = trim cs ++ ((trimLeft cs).reverse.takeWhile isBlank).reverse := by
    rw [trim, trimRight, ← List.reverse_append, List.takeWhile_append_dropWhile,
      List.reverse_reverse]
  refine ⟨_, _, htaken cs, (htaken (trimLeft cs).reverse).reverse, ?_, ?_⟩
  · rw [List.append_assoc, ← hright, ← hleft]
  · by_cases hne : trim cs = []
    · exact .inl hne
    · refine .inr ⟨hne, fun c hc => ?_, fun c hc => trimRight_last hc⟩
      have hfirst : c ∈ (trimLeft cs).head? := by
        rwa [hright, List.head?_append_of_ne_nil _ hne]
      exact trimLeft_first hfirst

/-! ## Texts in a row -/

theorem Solid.join {as bs : List Char} (ha : Solid as) (gap : List Char) (hb : Solid bs) :
    Solid (as ++ (gap ++ bs)) where
  nonempty := List.append_ne_nil_of_left_ne_nil ha.nonempty _
  first := by
    obtain ⟨a, as, rfl⟩ := List.exists_cons_of_ne_nil ha.nonempty
    exact ha.first
  last := by
    intro c hc
    rw [List.getLast?_append, List.getLast?_append, List.getLast?_eq_some_getLast hb.nonempty] at hc
    exact hb.last c (by rw [List.getLast?_eq_some_getLast hb.nonempty]; exact hc)

theorem Spaced.solid {texts : List (List Char)} {row : List Char} (h : Spaced texts row)
    (hsolid : ∀ text ∈ texts, Solid text) {first : List Char} (hfirst : Solid first) :
    Solid (first ++ row) := by
  induction h generalizing first with
  | nil =>
    rw [List.append_nil]
    exact hfirst
  | @cons gap text rest texts _ _ _ ih =>
    obtain ⟨htext, htexts⟩ := List.forall_mem_cons.mp hsolid
    rw [← List.append_assoc]
    exact ih htexts (hfirst.join gap htext)

/-- What stands behind a text ends it. -/
def Ends (rest : List Char) : Prop := ∀ c ∈ rest.head?, isBlank c = true

theorem Spaced.ends {texts : List (List Char)} {row : List Char} (h : Spaced texts row) :
    Ends row := by
  cases h with
  | nil => exact fun c hc => nomatch hc
  | @cons gap text rest _ hgap hne _ =>
    obtain ⟨c, gap, rfl⟩ := List.exists_cons_of_ne_nil hne
    rintro _ ⟨⟩
    exact hgap c List.mem_cons_self

/-! ## Words -/

section Words

variable {quoted : Bool} {word cs rest : List Char}

theorem ne_quote_of_isBlank {c : Char} (h : isBlank c = true) : c ≠ '"' := by
  rintro rfl
  cases h

theorem wordsFrom_blanks (h : Blanks cs) (rest : List Char) :
    wordsFrom false none (cs ++ rest) = wordsFrom false none rest := by
  induction cs with
  | nil => rfl
  | cons c cs ih =>
    obtain ⟨hc, hcs⟩ := List.forall_mem_cons.mp h
    rw [List.cons_append, wordsFrom, if_neg (ne_quote_of_isBlank hc)]
    simp only [hc, Bool.not_false, Bool.and_self, ↓reduceIte, ih hcs]
    cases wordsFrom false none rest <;> rfl

theorem words_trimLeft (cs : List Char) : words (trimLeft cs) = words cs := by
  have hgap : Blanks (cs.takeWhile isBlank) := fun c hc => List.mem_takeWhile_imp hc
  have h := wordsFrom_blanks hgap (trimLeft cs)
  rw [trimLeft, List.takeWhile_append_dropWhile] at h
  exact h.symm

/-- A word that is under way is complete before a blank and at the end. -/
theorem wordsFrom_ends (h : Ends rest) : wordsFrom false (some word) rest =
    (wordsFrom false none rest).map (String.ofList word.reverse :: ·) := by
  cases rest with
  | nil => rfl
  | cons c rest =>
    have hc := h c rfl
    simp only [wordsFrom, if_neg (ne_quote_of_isBlank hc), hc, Bool.not_false, Bool.and_self,
      ↓reduceIte]
    cases wordsFrom false none rest <;> rfl

/-- Characters that go on with a word: inside quotes all but a quote, and outside no blanks. -/
theorem wordsFrom_append (h : ∀ c ∈ cs, c ≠ '"' ∧ (quoted = false → isBlank c = false))
    (rest : List Char) : wordsFrom quoted (some word) (cs ++ rest) =
      wordsFrom quoted (some (cs.reverse ++ word)) rest := by
  induction cs generalizing word with
  | nil => rfl
  | cons c cs ih =>
    obtain ⟨⟨hquote, hblank⟩, hcs⟩ := List.forall_mem_cons.mp h
    have hgoes : (isBlank c && !quoted) = false := by
      cases quoted with
      | true => exact Bool.and_false _
      | false => rw [hblank rfl, Bool.false_and]
    rw [List.cons_append, wordsFrom, if_neg hquote, hgoes, if_neg Bool.false_ne_true, ih hcs]
    simp

/-- A text that a line shows in one piece, and that is read as this word. -/
structure ReadAs (text : List Char) (word : String) : Prop where
  solid : Solid text
  reads : ∀ rest, Ends rest →
    wordsFrom false none (text ++ rest) = (wordsFrom false none rest).map (word :: ·)

/-- Without blanks and quotes a text is a word as it stands. -/
theorem readAs_bare (hne : cs ≠ []) (h : ∀ c ∈ cs, c ≠ '"' ∧ isBlank c = false) :
    ReadAs cs (String.ofList cs) where
  solid := ⟨hne, fun c hc => (h c (List.mem_of_head? hc)).2,
    fun c hc => (h c (List.mem_of_getLast? hc)).2⟩
  reads := by
    intro rest hrest
    obtain ⟨c, cs, rfl⟩ := List.exists_cons_of_ne_nil hne
    obtain ⟨⟨hquote, hblank⟩, hcs⟩ := List.forall_mem_cons.mp h
    rw [List.cons_append, wordsFrom, if_neg hquote, hblank, Bool.false_and,
      if_neg Bool.false_ne_true, wordsFrom_append fun d hd => ⟨(hcs d hd).1, fun _ => (hcs d hd).2⟩,
      wordsFrom_ends hrest]
    simp

/-- A text in double quotes. -/
def quotedText (text : String) : List Char := '"' :: (text.toList ++ ['"'])

/-- In quotes any text is a word that has none itself, blanks or not. -/
theorem readAs_quoted {text : String} (h : '"' ∉ text.toList) : ReadAs (quotedText text) text where
  solid := solid_of_ends rfl rfl text.toList
  reads := by
    intro rest hrest
    have hinside : ∀ c ∈ text.toList, c ≠ '"' ∧ (true = false → isBlank c = false) := by
      intro c hc
      refine ⟨?_, fun hquoted => nomatch hquoted⟩
      rintro rfl
      exact h hc
    have hopen : wordsFrom false none (quotedText text ++ rest) =
        wordsFrom true (some []) (text.toList ++ ('"' :: rest)) := by
      simp [quotedText, wordsFrom]
    have hclose : wordsFrom true (some (text.toList.reverse ++ [])) ('"' :: rest) =
        wordsFrom false (some text.toList.reverse) rest := by
      simp [wordsFrom]
    rw [hopen, wordsFrom_append hinside, hclose, wordsFrom_ends hrest, List.reverse_reverse,
      String.ofList_toList]

theorem words_spaced {texts : List (List Char)} {row : List Char} {ws : List String}
    (h : Spaced texts row) (hreads : List.Forall₂ ReadAs texts ws) : words row = .ok ws := by
  induction h generalizing ws with
  | nil =>
    cases hreads
    rfl
  | @cons gap text rest texts hgap _ hspaced ih =>
    cases hreads with
    | cons hread hreads =>
      rw [words, List.append_assoc, wordsFrom_blanks hgap, hread.reads rest hspaced.ends]
      have hrest := ih hreads
      rw [words] at hrest
      rw [hrest]
      rfl

/-- A line can be read if every quote is closed. -/
theorem exists_wordsFrom_iff {word : Option (List Char)} :
    (∃ ws, wordsFrom quoted word cs = .ok ws) ↔ Even (cs.count '"' + quoted.toNat) := by
  induction cs generalizing quoted word with
  | nil => cases quoted <;> simp [wordsFrom]
  | cons c cs ih =>
    rw [wordsFrom]
    split
    · rename_i hquote
      rw [ih, hquote, List.count_cons_self, Nat.even_iff, Nat.even_iff]
      cases quoted <;> simp only [Bool.toNat_true, Bool.toNat_false, Bool.not_true, Bool.not_false]
      all_goals omega
    · rename_i hquote
      rw [List.count_cons_of_ne hquote]
      split
      · rename_i hends
        obtain ⟨-, hopen⟩ := Bool.and_eq_true_iff.mp hends
        rw [Bool.not_eq_true'] at hopen
        rw [hopen, ← @ih false none]
        cases wordsFrom false none cs <;> simp [Except.map]
      · exact ih

theorem exists_words_iff : (∃ ws, words cs = .ok ws) ↔ Even (cs.count '"') :=
  exists_wordsFrom_iff

theorem Blanks.count_quote {cs : List Char} (h : Blanks cs) : cs.count '"' = 0 :=
  List.count_eq_zero_of_not_mem fun hc => ne_quote_of_isBlank (h _ hc) rfl

theorem count_quote_trim (cs : List Char) : (trim cs).count '"' = cs.count '"' := by
  obtain ⟨before, after, hbefore, hafter, hcs, -⟩ := exists_trim cs
  conv_rhs => rw [hcs]
  rw [List.count_append, List.count_append, hbefore.count_quote, hafter.count_quote, Nat.zero_add,
    Nat.add_zero]

end Words

/-! ## Names and arguments -/

/-- A text that can stand for a command name: no blank breaks it, and it does not begin like a
    comment. -/
structure Nameable (cs : List Char) : Prop where
  nonempty : cs ≠ []
  bare : ∀ c ∈ cs, isBlank c = false
  first : cs.head? ≠ some '#'

theorem nameable_of_all {cs : List Char} (hne : cs ≠ []) (hbare : (cs.all (!isBlank ·)) = true)
    (hfirst : cs.head? ≠ some '#') : Nameable cs where
  nonempty := hne
  bare := fun c hc => (Bool.not_eq_true' _).mp (List.all_eq_true.mp hbare c hc)
  first := hfirst

theorem Nameable.solid {cs : List Char} (h : Nameable cs) : Solid cs where
  nonempty := h.nonempty
  first := fun c hc => h.bare c (List.mem_of_head? hc)
  last := fun c hc => h.bare c (List.mem_of_getLast? hc)

section Case

theorem isBlank_of_letter {c : Char} (hlow : 65 ≤ c.toNat) (hhigh : c.toNat ≤ 122) :
    isBlank c = false := by
  simp only [isBlank, Bool.or_eq_false_iff, Bool.and_eq_false_iff, decide_eq_false_iff_not,
    beq_eq_false_iff_ne]
  omega

/-- Only capitals have another case. -/
theorem toLower_cases (c : Char) : c.toLower = c ∨
    (65 ≤ c.toNat ∧ c.toNat ≤ 90 ∧ c.toLower.toNat = c.toNat + 32) := by
  by_cases hupper : c.val ≥ 'A'.val ∧ c.val ≤ 'Z'.val
  · have hlow : 65 ≤ c.toNat := hupper.1
    have hhigh : c.toNat ≤ 90 := hupper.2
    have hlower : c.toLower.toNat = (c.val + 32).toNat := congrArg Char.toNat (dif_pos hupper)
    have hsmall : c.val.toNat + 32 < 2 ^ 32 := by
      change c.toNat + 32 < 2 ^ 32
      omega
    rw [UInt32.toNat_add, UInt32.toNat_ofNat, Nat.mod_eq_of_lt hsmall] at hlower
    exact .inr ⟨hlow, hhigh, hlower⟩
  · exact .inl (dif_neg hupper)

theorem isBlank_toLower (c : Char) : isBlank c.toLower = isBlank c := by
  rcases toLower_cases c with h | ⟨hlow, hhigh, h⟩
  · rw [h]
  · rw [isBlank_of_letter hlow (by omega), isBlank_of_letter (by omega) (by omega)]

theorem toLower_eq_hash_iff {c : Char} : c.toLower = '#' ↔ c = '#' := by
  rcases toLower_cases c with h | ⟨hlow, hhigh, h⟩
  · rw [h]
  · constructor
    · intro hc
      rw [hc] at h
      exact absurd h (by rw [show '#'.toNat = 35 from rfl]; omega)
    · rintro rfl
      rfl

/-- The case of its letters does not matter to a name. -/
theorem nameable_map_toLower {cs : List Char} : Nameable (cs.map Char.toLower) ↔ Nameable cs := by
  have hfirst : (cs.map Char.toLower).head? = some '#' ↔ cs.head? = some '#' := by
    rw [List.head?_map, Option.map_eq_some_iff]
    simp only [toLower_eq_hash_iff, exists_eq_right]
  constructor
  · intro h
    refine ⟨fun hnil => h.nonempty (by rw [hnil]; rfl), fun c hc => ?_, fun hc => ?_⟩
    · rw [← isBlank_toLower]
      exact h.bare _ (List.mem_map_of_mem hc)
    · exact h.first (hfirst.mpr hc)
  · intro h
    refine ⟨fun hnil => h.nonempty (List.map_eq_nil_iff.mp hnil), ?_, fun hc => ?_⟩
    · rw [List.forall_mem_map]
      intro c hc
      rw [isBlank_toLower, h.bare c hc]
    · exact h.first (hfirst.mp hc)

theorem nameable_congr {name name' : String} (h : folded name = folded name') :
    Nameable name.toList ↔ Nameable name'.toList := by
  calc Nameable name.toList
      ↔ Nameable (name.toList.map Char.toLower) := nameable_map_toLower.symm
    _ ↔ Nameable (name'.toList.map Char.toLower) := Iff.of_eq (congrArg Nameable h)
    _ ↔ Nameable name'.toList := nameable_map_toLower

theorem lookup?_congr (r : Registry) {name name' : String} (h : folded name = folded name') :
    r.lookup? name = r.lookup? name' := by
  simp only [Registry.lookup?, Registry.place?, h]

end Case

theorem splitName_append {name row : List Char} (hbare : ∀ c ∈ name, isBlank c = false)
    (h : Ends row) : Registry.splitName (name ++ row) = (String.ofList name, trim row) := by
  have hkeep : ∀ c ∈ name, (!isBlank c) = true := by
    intro c hc
    rw [hbare c hc, Bool.not_false]
  unfold Registry.splitName Text.splitAtBlank?
  rw [List.dropWhile_append_of_pos hkeep, List.takeWhile_append_of_pos hkeep]
  cases row with
  | nil =>
    rw [List.append_nil]
    rfl
  | cons c row =>
    have hc : isBlank c = true := h c rfl
    have htrim : trim (c :: row) = trim row := by
      rw [trim, trim, trimLeft, List.dropWhile_cons_of_pos hc]
      rfl
    simp [hc, htrim]

/-- Trimming a line leaves its name, and of what stands behind it all but the blanks. -/
theorem trim_named {before name row : List Char} (hbefore : Blanks before) (hname : Nameable name)
    (h : Ends row) :
    ∃ row', trim (before ++ name ++ row) = name ++ row' ∧ Ends row' ∧ trim row' = trim row := by
  obtain ⟨gap, after, hgap, hafter, hrow, hcore⟩ := exists_trim row
  rcases hcore with hnil | hsolid
  · have hblanks : Blanks row := by
      rw [hrow, hnil, List.append_nil]
      exact List.forall_mem_append.mpr ⟨hgap, hafter⟩
    refine ⟨[], ?_, (fun c hc => nomatch hc), hnil.symm⟩
    rw [List.append_nil, trim_solid hbefore hname.solid hblanks]
  · refine ⟨gap ++ trim row, ?_, ?_, ?_⟩
    · have := trim_solid hbefore (hname.solid.join gap hsolid) hafter
      conv_lhs => rw [hrow]
      simpa only [List.append_assoc] using this
    · intro c hc
      refine h c ?_
      rwa [hrow,
        List.head?_append_of_ne_nil _ (List.append_ne_nil_of_right_ne_nil _ hsolid.nonempty)]
    · have := trim_solid hgap hsolid (List.forall_mem_nil _)
      rwa [List.append_nil] at this

/-- What a command answers to its arguments. -/
def Spec.answer (s : Spec) (args : List String) : Line :=
  match s.read args with
  | .error e => .refused (.usage e)
  | .ok request => .request request

/-- A line with a name in front is handed to the command of this name. -/
theorem line_named {r : Registry} {before name row : List Char} (hbefore : Blanks before)
    (hname : Nameable name) (h : Ends row) {s : Spec} {args : List String}
    (hlookup : r.lookup? (String.ofList name) = some s)
    (hargs : Registry.arguments s (trim row) = .ok args) :
    r.line (String.ofList (before ++ name ++ row)) = s.answer args := by
  obtain ⟨row', htrim, hends, hrow⟩ := trim_named hbefore hname h
  have hsplit := splitName_append hname.bare hends
  obtain ⟨c, name, rfl⟩ := List.exists_cons_of_ne_nil hname.nonempty
  have hhash : c ≠ '#' := fun hc => hname.first (congrArg some hc)
  rw [Registry.line, String.toList_ofList, htrim]
  rw [hrow, List.cons_append] at hsplit
  rw [List.cons_append]
  simp only [hhash, ↓reduceIte, hsplit, hlookup, hargs]
  rfl

/-- Behind a name, blanks and texts of which none is blank. -/
theorem Spaced.trim_row {texts : List (List Char)} {row after : List Char} (h : Spaced texts row)
    (hsolid : ∀ text ∈ texts, Solid text) (hafter : Blanks after) :
    Ends (row ++ after) ∧ trim (row ++ after) = trimLeft row := by
  cases h with
  | nil =>
    have hnothing := trimLeft_blanks hafter []
    rw [List.append_nil] at hnothing
    exact ⟨fun c hc => hafter c (List.mem_of_head? hc), congrArg trimRight hnothing⟩
  | @cons gap text rest texts hgap hne hspaced =>
    obtain ⟨htext, htexts⟩ := List.forall_mem_cons.mp hsolid
    have hcore := trim_solid hgap (hspaced.solid htexts htext) hafter
    refine ⟨fun c hc => hgap c (List.mem_of_head? ?_), ?_⟩
    · rwa [List.append_assoc, List.append_assoc, List.head?_append_of_ne_nil _ hne] at hc
    · rw [trimLeft_row hgap htext, List.append_assoc gap, hcore]

/-- A command that takes the rest of its line takes it as it stands. -/
theorem arguments_raw {s : Spec} (hraw : s.rawTail = true) {gap cs : List Char}
    (hgap : Blanks gap) (h : Solid cs) :
    Registry.arguments s (trimLeft (gap ++ cs ++ [])) = .ok [String.ofList cs] := by
  rw [trimLeft_row hgap h, List.append_nil, Registry.arguments, hraw, if_pos rfl,
    if_neg h.nonempty]

/-- What a line asks for that has a name, arguments, and blanks around them. -/
theorem line_spaced {r : Registry} {before name row after : List Char} {texts : List (List Char)}
    (hbefore : Blanks before) (hname : Nameable name) (h : Spaced texts row)
    (hsolid : ∀ text ∈ texts, Solid text) (hafter : Blanks after) {s : Spec} {args : List String}
    {request : Request} (hlookup : r.lookup? (String.ofList name) = some s)
    (hargs : Registry.arguments s (trimLeft row) = .ok args) (hread : s.read args = .ok request) :
    r.line (String.ofList (before ++ (name ++ row) ++ after)) = .request request := by
  obtain ⟨hends, htrim⟩ := h.trim_row hsolid hafter
  rw [← htrim] at hargs
  have hline := line_named hbefore hname hends hlookup hargs
  rw [Spec.answer, hread] at hline
  rwa [← List.append_assoc before, List.append_assoc]

end StagePlay.Console
