import StagePlay.Json.Reading

/-!
# StagePlay.Proofs.Json.Nesting

How deep a text nests, told by its brackets.

`nesting` counts the brackets that are open at once in a text, without those that stand in its
strings. The count says how many containers a reader has open, so that a reader with room for all
of them never comes to the end of its room.

* `Reading.keeps_step`: behind every character that is taken a reader stands where the count says,
  or in an escape that it is going to refuse.
* `Reading.step_of_room`: what a step does depends on the limit only if the step would exceed it.
-/

namespace StagePlay.Json

/-- Where a character stands: outside of the strings of a text, in one of them, or behind a
    backslash in one of them. -/
inductive Place where
  | outside
  | inside
  | escaped
  deriving DecidableEq, Repr

namespace Place

def after : Place → Char → Place
  | .outside, c => if c = '"' then .inside else .outside
  | .inside, c => if c = '"' then .outside else if c = '\\' then .escaped else .inside
  | .escaped, _ => .inside

/-- How many brackets are open behind a character, with `n` of them before it. -/
def opened (p : Place) (n : Nat) (c : Char) : Nat :=
  match p with
  | .outside => if c = '[' ∨ c = '{' then n + 1 else if c = ']' ∨ c = '}' then n - 1 else n
  | .inside | .escaped => n

end Place

/-- How many brackets are open at once, at most, from a place on with `n` brackets open. -/
def nestingFrom (p : Place) (n : Nat) : List Char → Nat
  | [] => n
  | c :: rest => max n (nestingFrom (p.after c) (p.opened n c) rest)

/-- How many arrays and objects are nested in a text. -/
def nesting (text : List Char) : Nat := nestingFrom .outside 0 text

theorem le_nestingFrom (p : Place) (n : Nat) (cs : List Char) : n ≤ nestingFrom p n cs := by
  cases cs with
  | nil => exact Nat.le_refl n
  | cons c rest => exact Nat.le_max_left ..

theorem nestingFrom_le_cons (p : Place) (n : Nat) (c : Char) (rest : List Char) :
    nestingFrom (p.after c) (p.opened n c) rest ≤ nestingFrom p n (c :: rest) :=
  Nat.le_max_right ..

/-- A character that outside of strings is neither a quote nor a bracket. -/
def Neutral (c : Char) : Prop := c ≠ '"' ∧ c ≠ '[' ∧ c ≠ '{' ∧ c ≠ ']' ∧ c ≠ '}'

instance : DecidablePred Neutral := fun _ => inferInstanceAs (Decidable (_ ∧ _))

theorem Neutral.after {c : Char} (h : Neutral c) : Place.outside.after c = .outside := by
  simp [Place.after, h.1]

theorem Neutral.opened {c : Char} (h : Neutral c) (n : Nat) : Place.outside.opened n c = n := by
  obtain ⟨-, hbracket, hbrace, hbracket', hbrace'⟩ := h
  simp [Place.opened, hbracket, hbrace, hbracket', hbrace']

theorem neutral_of_isBlank {c : Char} (h : isBlank c = true) : Neutral c := by
  simp only [isBlank, Bool.or_eq_true, decide_eq_true_eq] at h
  rcases h with ((rfl | rfl) | rfl) | rfl <;> decide

theorem neutral_of_isAlphanum {c : Char} (h : c.isAlphanum = true) : Neutral c := by
  refine ⟨?_, ?_, ?_, ?_, ?_⟩ <;> rintro rfl <;> cases h

/-- The letters of a word are neutral. -/
theorem neutral_of_letters {cs : List Char} (h : cs.all Char.isAlphanum = true) :
    ∀ c ∈ cs, Neutral c := by
  intro c hc
  exact neutral_of_isAlphanum (List.all_eq_true.mp h c hc)

theorem neutral_of_isDigit {c : Char} (h : c.isDigit = true) : Neutral c :=
  neutral_of_isAlphanum (by simp [Char.isAlphanum, h])

/-! ## Numbers -/

namespace NumberReading

/-- A number goes on with neutral characters, and no character is its last one. -/
def Goes (c : Char) : Step Cause NumberReading Number → Prop
  | .more _ => Neutral c
  | .ended _ => False
  | .before _ | .refused _ => True

variable {c : Char}

theorem goes_takeExponent (r : NumberReading) (h : c.isDigit = true) :
    Goes c (r.takeExponent c) := by
  simp only [takeExponent]
  split
  · trivial
  · exact neutral_of_isDigit h

theorem neutral_of_start? {first : NumberReading} (h : start? c = some first) : Neutral c := by
  refine ⟨?_, ?_, ?_, ?_, ?_⟩ <;> rintro rfl <;> cases h

variable [Rounding]

theorem goes_conclude (r : NumberReading) (c : Char) : Goes c r.conclude := by
  unfold conclude
  split <;> trivial

theorem goes_afterDigits (r : NumberReading) (pointAllowed : Bool) (c : Char) :
    Goes c (r.afterDigits pointAllowed c) := by
  unfold afterDigits
  split
  · rename_i h
    show Neutral c
    rw [h.1]
    decide
  · split
    · rename_i h
      show Neutral c
      rcases h with rfl | rfl <;> decide
    · exact goes_conclude r c

theorem goes_step (r : NumberReading) (c : Char) : Goes c (r.step c) := by
  cases hphase : r.phase with
  | sign =>
    simp only [step, hphase]
    split
    · rename_i h
      show Neutral c
      rw [h]
      decide
    · split
      · rename_i h
        exact neutral_of_isDigit h
      · trivial
  | zero =>
    simp only [step, hphase]
    split
    · trivial
    · exact goes_afterDigits r true c
  | whole =>
    simp only [step, hphase]
    split
    · rename_i h
      exact neutral_of_isDigit h
    · exact goes_afterDigits r true c
  | point =>
    simp only [step, hphase]
    split
    · rename_i h
      exact neutral_of_isDigit h
    · trivial
  | places =>
    simp only [step, hphase]
    split
    · rename_i h
      exact neutral_of_isDigit h
    · exact goes_afterDigits r false c
  | mark =>
    simp only [step, hphase]
    split
    · rename_i h
      show Neutral c
      rcases h with rfl | rfl <;> decide
    · split
      · rename_i h
        exact goes_takeExponent r h
      · trivial
  | markSign =>
    simp only [step, hphase]
    split
    · rename_i h
      exact goes_takeExponent r h
    · trivial
  | exponent =>
    simp only [step, hphase]
    split
    · rename_i h
      exact goes_takeExponent r h
    · exact goes_conclude r c

end NumberReading

/-! ## Strings -/

namespace TextReading

/-- Where a string stands that is being read. -/
def place (t : TextReading) : Place :=
  match t.phase with
  | .escape | .pairMark _ => .escaped
  | .plain | .hex _ _ _ | .pairSlash _ => .inside

theorem opened_place (t : TextReading) (n : Nat) (c : Char) : t.place.opened n c = n := by
  unfold place
  split <;> rfl

/-- Inside a code unit with a character that is no digit, which is refused in the end. -/
def Doomed (t : TextReading) : Prop := ∃ high seen, t.phase = .hex high seen none

/-- What a character in a string at this place does. -/
def Goes (p : Place) (c : Char) : Step Cause TextReading (List Char) → Prop
  | .more t => t.Doomed ∨ t.place = p.after c
  | .ended _ => p.after c = .outside
  | .before _ => False
  | .refused _ => True

theorem after_of_hexValue? {c : Char} {d : Nat} (h : hexValue? c = some d) :
    Place.inside.after c = .inside := by
  have hquote : c ≠ '"' := by rintro rfl; cases h
  have hslash : c ≠ '\\' := by rintro rfl; cases h
  simp [Place.after, hquote, hslash]

theorem goes_takeUnit (t : TextReading) (high : Option Nat) (unit : Nat) {p : Place} {c : Char}
    (h : p.after c = .inside) : Goes p c (t.takeUnit high unit) := by
  cases high with
  | none =>
    simp only [takeUnit]
    split
    · trivial
    · split
      · exact .inr h.symm
      · exact .inr h.symm
  | some high =>
    simp only [takeUnit]
    split
    · exact .inr h.symm
    · trivial

theorem goes_takeHex (t : TextReading) (high : Option Nat) (seen : Nat) (value : Option Nat)
    (c : Char) : Goes .inside c (t.takeHex high seen value c) := by
  cases hv : value with
  | none =>
    simp only [takeHex]
    split
    · exact .inl ⟨_, _, rfl⟩
    · trivial
  | some v =>
    cases hd : hexValue? c with
    | none =>
      simp only [takeHex, hd]
      split
      · exact .inl ⟨_, _, rfl⟩
      · trivial
    | some d =>
      have hinside := after_of_hexValue? hd
      simp only [takeHex, hd]
      split
      · exact .inr hinside.symm
      · exact goes_takeUnit t high _ hinside

theorem goes_step (t : TextReading) (c : Char) : Goes t.place c (t.step c) := by
  cases hphase : t.phase with
  | plain =>
    simp only [step, place, hphase]
    split
    · rename_i h
      show Place.inside.after c = .outside
      rw [h]
      rfl
    · rename_i hquote
      split
      · rename_i h
        right
        rw [h]
        rfl
      · rename_i hslash
        split
        · trivial
        · right
          simp [Place.after, hquote, hslash, push, place]
  | escape =>
    simp only [step, place, hphase]
    split
    · exact .inr rfl
    · split
      · exact .inr rfl
      · trivial
  | hex high seen value =>
    simp only [step, place, hphase]
    exact goes_takeHex t high seen value c
  | pairSlash high =>
    simp only [step, place, hphase]
    split
    · rename_i h
      right
      rw [h]
      rfl
    · trivial
  | pairMark high =>
    simp only [step, place, hphase]
    split
    · exact .inr rfl
    · trivial

/-- An escape with a character in it that is no digit comes to nothing. -/
theorem doomed_step {t : TextReading} (h : t.Doomed) (c : Char) :
    (∃ t', t.step c = .more t' ∧ t'.Doomed) ∨ ∃ f, t.step c = .refused f := by
  obtain ⟨high, seen, hphase⟩ := h
  simp only [step, hphase, takeHex]
  split
  · exact .inl ⟨_, rfl, _, _, rfl⟩
  · exact .inr ⟨_, rfl⟩

end TextReading

/-! ## Values -/

namespace Expectation

def place : Expectation → Place
  | .text t | .key t => t.place
  | _ => .outside

def Doomed : Expectation → Prop
  | .text t | .key t => t.Doomed
  | _ => False

/-- Words are spelled without quotes and brackets. -/
def Neutral : Expectation → Prop
  | .word letter rest _ => ∀ c ∈ letter :: rest, Json.Neutral c
  | _ => True

end Expectation

namespace Reading

/-- A reader at this place of a text, with so many containers open. -/
structure Stands (p : Place) (n : Nat) (r : Reading) : Prop where
  place : r.expects.place = p
  height : r.stack.length = n
  neutral : r.expects.Neutral

/-- Where a step leads to, if the reading goes on. -/
def Keeps (p : Place) (n : Nat) : Step Cause Reading Value → Prop
  | .more r => r.expects.Doomed ∨ r.Stands p n
  | .ended _ | .before _ | .refused _ => True

variable {limit limit' n : Nat} {stack : List Frame} {v : Value} {c : Char} {p : Place}

theorem stands_start : start.Stands .outside 0 := ⟨rfl, rfl, trivial⟩

theorem keeps_deliver (stack : List Frame) (v : Value) :
    Keeps .outside stack.length (deliver stack v) := by
  unfold deliver
  split
  · trivial
  all_goals exact .inr ⟨rfl, rfl, trivial⟩

/-- A complete value is the result, or it is put into a container that stays open. -/
theorem deliver_cases (stack : List Frame) (v : Value) :
    deliver stack v = .ended v ∨
      ∃ next, deliver stack v = .more next ∧ next.stack.length = stack.length := by
  unfold deliver
  split
  · exact .inl rfl
  all_goals exact .inr ⟨_, rfl, rfl⟩

theorem keeps_close (stack : List Frame) :
    Keeps .outside (stack.length - 1) (close stack) := by
  unfold close
  split
  · exact keeps_deliver _ _
  · exact keeps_deliver _ _
  · trivial

theorem keeps_openFrame {frame : Frame} {e : Expectation} (he : e.place = .outside)
    (hneutral : e.Neutral) :
    Keeps .outside (stack.length + 1) (openFrame limit stack frame e) := by
  unfold openFrame
  split
  · exact .inr ⟨he, rfl, hneutral⟩
  · trivial

/-- A step at a neutral character outside of strings, which leaves the containers as they are. -/
theorem Keeps.neutral {s : Step Cause Reading Value} (h : Keeps .outside n s) (hc : Neutral c) :
    Keeps (Place.outside.after c) (Place.outside.opened n c) s := by
  rw [hc.after, hc.opened]
  exact h

theorem keeps_more {e : Expectation} (he : e.place = .outside) (hneutral : e.Neutral) :
    Keeps .outside stack.length (.more ⟨stack, e⟩) := .inr ⟨he, rfl, hneutral⟩

theorem keeps_blank {e : Expectation} (hc : isBlank c = true) (he : e.place = .outside)
    (hneutral : e.Neutral) :
    Keeps (Place.outside.after c) (Place.outside.opened stack.length c) (.more ⟨stack, e⟩) :=
  (keeps_more he hneutral).neutral (neutral_of_isBlank hc)

theorem keeps_startValue (stack : List Frame) (c : Char) :
    Keeps (Place.outside.after c) (Place.outside.opened stack.length c)
      (startValue limit stack c) := by
  unfold startValue
  split
  · exact .inr ⟨rfl, rfl, neutral_of_letters rfl⟩
  · exact .inr ⟨rfl, rfl, neutral_of_letters rfl⟩
  · exact .inr ⟨rfl, rfl, neutral_of_letters rfl⟩
  · exact .inr ⟨rfl, rfl, trivial⟩
  · exact keeps_openFrame rfl trivial
  · exact keeps_openFrame rfl trivial
  · split
    · rename_i first hfirst
      exact (@keeps_more stack (.number first) rfl trivial).neutral
        (NumberReading.neutral_of_start? hfirst)
    · trivial

theorem keeps_afterValue (stack : List Frame) (c : Char) :
    Keeps (Place.outside.after c) (Place.outside.opened stack.length c) (afterValue stack c) := by
  unfold afterValue
  split
  · split
    · rename_i hblank
      exact keeps_blank hblank rfl trivial
    · split
      · rename_i hcomma
        subst hcomma
        exact keeps_more rfl trivial
      · split
        · rename_i hbracket
          subst hbracket
          exact keeps_close _
        · trivial
  · split
    · rename_i hblank
      exact keeps_blank hblank rfl trivial
    · split
      · rename_i hcomma
        subst hcomma
        exact keeps_more rfl trivial
      · split
        · rename_i hbrace
          subst hbrace
          exact keeps_close _
        · trivial
  · trivial

variable [Rounding]

theorem keeps_word {letter : Char} {rest : List Char} (value : Value)
    (hneutral : ∀ d ∈ letter :: rest, Json.Neutral d) (c : Char) :
    Keeps (Place.outside.after c) (Place.outside.opened stack.length c)
      (step limit ⟨stack, .word letter rest value⟩ c) := by
  obtain ⟨hletter, hrest⟩ := List.forall_mem_cons.mp hneutral
  simp only [step]
  split
  · rename_i hc
    subst hc
    cases rest with
    | nil => exact (keeps_deliver stack value).neutral hletter
    | cons d ds => exact (@keeps_more stack (.word d ds value) rfl hrest).neutral hletter
  · trivial

theorem keeps_number (stack : List Frame) (n : NumberReading) (c : Char) :
    Keeps (Place.outside.after c) (Place.outside.opened stack.length c)
      (step limit ⟨stack, .number n⟩ c) := by
  have hgoes := NumberReading.goes_step n c
  simp only [step]
  split
  · rename_i n' hs
    rw [hs] at hgoes
    exact (@keeps_more stack (.number n') rfl trivial).neutral hgoes
  · rename_i v hs
    rw [hs] at hgoes
    exact hgoes.elim
  · -- the number ends before this character, which its container takes then
    rename_i v hs
    rcases deliver_cases stack (.number v) with hended | ⟨next, hnext, hheight⟩
    · rw [hended]
      trivial
    · simp only [hnext]
      rw [← hheight]
      exact keeps_afterValue next.stack c
  · trivial

theorem keeps_step {r : Reading} (h : r.Stands p n) (c : Char) :
    Keeps (p.after c) (p.opened n c) (r.step limit c) := by
  obtain ⟨stack, e⟩ := r
  obtain ⟨rfl, rfl, hneutral⟩ := h
  cases e with
  | value =>
    simp only [step]
    split
    · rename_i hblank
      exact keeps_blank hblank rfl trivial
    · exact keeps_startValue stack c
  | firstItem =>
    simp only [step]
    split
    · rename_i hblank
      exact keeps_blank hblank rfl trivial
    · split
      · rename_i hbracket
        subst hbracket
        exact keeps_close stack
      · exact keeps_startValue stack c
  | nextItem =>
    simp only [step]
    split
    · rename_i hblank
      exact keeps_blank hblank rfl trivial
    · split
      · trivial
      · exact keeps_startValue stack c
  | itemEnd => exact keeps_afterValue stack c
  | memberEnd => exact keeps_afterValue stack c
  | firstKey =>
    simp only [step]
    split
    · rename_i hblank
      exact keeps_blank hblank rfl trivial
    · split
      · rename_i hbrace
        subst hbrace
        exact keeps_close stack
      · split
        · rename_i hquote
          subst hquote
          exact .inr ⟨rfl, rfl, trivial⟩
        · trivial
  | nextKey =>
    simp only [step]
    split
    · rename_i hblank
      exact keeps_blank hblank rfl trivial
    · split
      · trivial
      · split
        · rename_i hquote
          subst hquote
          exact .inr ⟨rfl, rfl, trivial⟩
        · trivial
  | colon =>
    simp only [step]
    split
    · rename_i hblank
      exact keeps_blank hblank rfl trivial
    · split
      · rename_i hcolon
        subst hcolon
        exact keeps_more rfl trivial
      · trivial
  | word letter rest value => exact keeps_word value hneutral c
  | number n => exact keeps_number stack n c
  | text t =>
    have hgoes := TextReading.goes_step t c
    simp only [step, Expectation.place, t.opened_place]
    split
    · rename_i t' hs
      rw [hs] at hgoes
      exact hgoes.imp_right fun hplace => ⟨hplace, rfl, trivial⟩
    · rename_i cs hs
      rw [hs] at hgoes
      rw [show t.place.after c = .outside from hgoes]
      exact keeps_deliver stack _
    · rename_i cs hs
      rw [hs] at hgoes
      exact hgoes.elim
    · trivial
  | key t =>
    have hgoes := TextReading.goes_step t c
    simp only [step, Expectation.place, t.opened_place]
    split
    · rename_i t' hs
      rw [hs] at hgoes
      exact hgoes.imp_right fun hplace => ⟨hplace, rfl, trivial⟩
    · rename_i cs hs
      rw [hs] at hgoes
      rw [show t.place.after c = .outside from hgoes]
      split
      · exact .inr ⟨rfl, rfl, trivial⟩
      · trivial
    · rename_i cs hs
      rw [hs] at hgoes
      exact hgoes.elim
    · trivial

/-- A doomed string is read on as such until it is refused. -/
theorem doomed_step {r : Reading} (h : r.expects.Doomed) (c : Char) :
    (∃ r', r.step limit c = .more r' ∧ r'.expects.Doomed) ∨ ∃ f, r.step limit c = .refused f := by
  obtain ⟨stack, e⟩ := r
  cases e with
  | text t =>
    rcases TextReading.doomed_step h c with ⟨t', hs, ht'⟩ | ⟨f, hs⟩
    · exact .inl ⟨⟨stack, .text t'⟩, by simp only [step, hs], ht'⟩
    · exact .inr ⟨_, by simp only [step, hs]; rfl⟩
  | key t =>
    rcases TextReading.doomed_step h c with ⟨t', hs, ht'⟩ | ⟨f, hs⟩
    · exact .inl ⟨⟨stack, .key t'⟩, by simp only [step, hs], ht'⟩
    · exact .inr ⟨_, by simp only [step, hs]; rfl⟩
  | value | firstItem | nextItem | itemEnd | firstKey | nextKey | colon | memberEnd | word _ _ _
  | number _ => exact h.elim

theorem doomed_finish {r : Reading} (h : r.expects.Doomed) : ∃ f, r.finish = .error f := by
  obtain ⟨stack, e⟩ := r
  cases e with
  | text t => exact ⟨_, rfl⟩
  | key t => exact ⟨_, rfl⟩
  | value | firstItem | nextItem | itemEnd | firstKey | nextKey | colon | memberEnd | word _ _ _
  | number _ => exact h.elim

/-! ## Room for containers -/

omit [Rounding] in
theorem openFrame_of_room {frame : Frame} {e : Expectation}
    (h : ∀ f, openFrame limit stack frame e ≠ .refused f)
    (hroom : ∀ r, openFrame limit stack frame e = .more r → r.stack.length ≤ limit') :
    openFrame limit' stack frame e = openFrame limit stack frame e := by
  unfold openFrame at h hroom ⊢
  by_cases hlt : stack.length < limit
  · rw [if_pos hlt] at hroom ⊢
    have hlt' : stack.length < limit' := hroom _ rfl
    rw [if_pos hlt']
  · rw [if_neg hlt] at h
    exact absurd rfl (h _)

omit [Rounding] in
theorem startValue_of_room (h : ∀ f, startValue limit stack c ≠ .refused f)
    (hroom : ∀ r, startValue limit stack c = .more r → r.stack.length ≤ limit') :
    startValue limit' stack c = startValue limit stack c := by
  unfold startValue at h hroom ⊢
  split
  · rfl
  · rfl
  · rfl
  · rfl
  · exact openFrame_of_room h hroom
  · exact openFrame_of_room h hroom
  · rfl

/-- With room for what is open behind a character, the character is taken under either limit
    alike. -/
theorem step_of_room {r : Reading} (h : ∀ f, r.step limit c ≠ .refused f)
    (hroom : ∀ r', r.step limit c = .more r' → r'.stack.length ≤ limit') :
    r.step limit' c = r.step limit c := by
  obtain ⟨stack, e⟩ := r
  cases e with
  | value =>
    simp only [step] at h hroom ⊢
    by_cases hblank : isBlank c = true
    · simp only [if_pos hblank]
    · simp only [if_neg hblank] at h hroom ⊢
      exact startValue_of_room h hroom
  | firstItem | nextItem =>
    simp only [step] at h hroom ⊢
    by_cases hblank : isBlank c = true
    · simp only [if_pos hblank]
    · simp only [if_neg hblank] at h hroom ⊢
      by_cases hbracket : c = ']'
      · simp only [if_pos hbracket]
      · simp only [if_neg hbracket] at h hroom ⊢
        exact startValue_of_room h hroom
  | itemEnd | memberEnd | firstKey | nextKey | colon | word _ _ _ | number _ | text _ | key _ => rfl

end Reading

end StagePlay.Json
