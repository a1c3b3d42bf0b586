import StagePlay.Proofs.Json.Container
import StagePlay.Proofs.Json.Grammar
import StagePlay.Proofs.Json.Written

/-!
# StagePlay.Proofs.Json.Completeness

What the grammar derives, the reader reads.

* `Literal.spells`: a number is read as the number that is written.
* `TextReading.consume_spelling`: a string is read as the characters it stands for.
* `Reading.readable_of_written`: within the depth limit every part of a value is read, by induction
  over its derivation.
-/

namespace StagePlay.Json

open Numeral (Digits valueFrom)

/-! ## Numbers -/

namespace Literal

open NumberReading (Begins Spells begins_whole spells_real step_end)

variable [Rounding] {l : Literal} {n : Number}

/-- Where the digits of a number are read up to: before the places or after them. -/
def DigitsPhase (l : Literal) (phase : NumberPhase) : Prop :=
  (l.places = [] ∧ (phase = .zero ∨ phase = .whole)) ∨ (l.places ≠ [] ∧ phase = .places)

theorem begins_digits (h : l.Valid) :
    ∃ phase, l.DigitsPhase phase ∧
      Begins (NumberReading.signed l.negative l.whole ++ l.fraction)
        ⟨phase, l.negative, l.coefficient, l.places.length, false, 0⟩ := by
  obtain ⟨phase, hphase, hbegins⟩ := begins_whole l.negative h.whole h.lead
  by_cases hnil : l.places = []
  · refine ⟨phase, .inl ⟨hnil, hphase⟩, ?_⟩
    rw [fraction, if_pos hnil, List.append_nil, coefficient, hnil]
    exact hbegins
  · refine ⟨.places, .inr ⟨hnil, rfl⟩, ?_⟩
    rw [fraction, if_neg hnil]
    exact hbegins.fraction hphase h.places hnil

/-- With places or an exponent a number is a double. -/
theorem exists_of_real (h : l.places ≠ [] ∨ l.exponent ≠ none) (hn : l.number? = some n) :
    l.exceeds = false ∧ ∃ x, Rounding.double? l.figure = some x ∧ n = .real x := by
  have hnone : l.integer? = none := by
    unfold integer?
    rw [if_neg]
    rintro ⟨hplaces, hexponent⟩
    rcases h with h | h
    · exact h hplaces
    · exact h (Option.isNone_iff_eq_none.mp hexponent)
  simp only [number?, hnone] at hn
  split at hn
  · cases hn
  · rename_i hexceeds
    obtain ⟨x, hx, rfl⟩ := Option.map_eq_some_iff.mp hn
    exact ⟨Bool.eq_false_of_not_eq_true hexceeds, x, hx, rfl⟩

theorem number?_of_whole {r : NumberReading} (hphase : r.phase = .zero ∨ r.phase = .whole)
    (hplaces : l.places = []) (he : l.exponent = none) (hfigure : r.figure = l.figure) :
    r.number? = l.number? := by
  have hnumber : r.number? =
      if r.negative then
        if r.coefficient ≠ 0 ∧ r.coefficient ≤ Numeral.capacity 63 then
          some (.integer (-(r.coefficient : Int)))
        else r.real?
      else if r.coefficient < Numeral.capacity 64 then some (.integer r.coefficient)
      else r.real? := by
    unfold NumberReading.number?
    rcases hphase with h | h <;> rw [h]
  have hnegative : r.negative = l.negative := congrArg Figure.negative hfigure
  have hcoefficient : r.coefficient = l.coefficient := congrArg Figure.coefficient hfigure
  have hwhole : l.places = [] ∧ l.exponent.isNone = true := ⟨hplaces, by rw [he]; rfl⟩
  have hexceeds : l.exceeds = false := by rw [exceeds, he]; rfl
  rw [hnumber, NumberReading.real?, hfigure, hnegative, hcoefficient]
  simp only [number?, integer?, if_pos hwhole, hexceeds]
  cases l.negative with
  | true =>
    simp only [↓reduceIte]
    split <;> rfl
  | false =>
    simp only [Bool.false_eq_true, ↓reduceIte]
    split <;> rfl

/-- A number is read as the number that is written. -/
theorem spells (h : l.Valid) (hn : l.number? = some n) : Spells l.text n := by
  obtain ⟨phase, hphase, hbegins⟩ := begins_digits h
  cases he : l.exponent with
  | some e =>
    obtain ⟨hexceeds, x, hx, rfl⟩ := exists_of_real (.inr (by simp [he])) hn
    have hvalid := h.exponent e he
    have hsign : e.sign = [if e.lowered then '-' else '+'] ∨
        (e.sign = [] ∧ e.lowered = false) := by
      rcases hvalid.sign with hs | hs | hs <;> simp [Exponent.lowered, hs]
    have hany : phase = .zero ∨ phase = .whole ∨ phase = .places := by
      rcases hphase with ⟨-, rfl | rfl⟩ | ⟨-, rfl⟩ <;> simp
    have hsmall : e.lowered = true ∨ l.coefficient = 0 ∨
        valueFrom 0 e.digits < Numeral.capacity 31 := by
      simp only [exceeds, he, Option.any_some, Bool.and_eq_false_iff, Bool.not_eq_false',
        decide_eq_false_iff_not, ne_eq, not_not, Nat.not_le, or_assoc] at hexceeds
      exact hexceeds
    have hexponent := hbegins.exponent hany hvalid.mark hsign hvalid.digits hvalid.nonempty hsmall
    have htext : l.text = NumberReading.signed l.negative l.whole ++ l.fraction ++ e.text := by
      simp [text, scale, he]
    have hfigure : l.figure = NumberReading.figure ⟨.exponent, l.negative, l.coefficient,
        l.places.length, e.lowered, valueFrom 0 e.digits⟩ := by
      simp [figure, NumberReading.figure, he, Exponent.value, Exponent.magnitude]
    rw [htext]
    exact spells_real hexponent (.inr rfl) (hfigure ▸ hx)
  | none =>
    have htext : l.text = NumberReading.signed l.negative l.whole ++ l.fraction := by
      simp [text, scale, he]
    have hfigure : NumberReading.figure
        ⟨phase, l.negative, l.coefficient, l.places.length, false, 0⟩ = l.figure := by
      simp [figure, NumberReading.figure, he]
    rw [htext]
    rcases hphase with ⟨hnil, hwhole⟩ | ⟨hne, rfl⟩
    · refine ⟨_, hbegins, fun c hc => step_end ?_ hc ?_⟩
      · exact hwhole.elim .inl fun h => .inr (.inl h)
      · rw [number?_of_whole hwhole hnil he hfigure, hn]
    · obtain ⟨-, x, hx, rfl⟩ := exists_of_real (.inl hne) hn
      exact spells_real hbegins (.inl rfl) (hfigure ▸ hx)

end Literal

/-! ## Strings -/

theorem TextReading.consume_spelling (content : List Char) {t s : List Char}
    (h : Spelling t s) :
    consume step ⟨content, .plain⟩ t = .more ⟨s.reverse ++ content, .plain⟩ := by
  induction h generalizing content with
  | nil => rfl
  | @plain c t s hquote hslash hcontrol _ ih =>
    have hs : step ⟨content, .plain⟩ c = .more ⟨c :: content, .plain⟩ := by
      simp [step, hquote, hslash, Nat.not_lt.mpr hcontrol, push]
    rw [consume_cons hs, ih]
    simp
  | @escape c d t s hc _ ih =>
    have hs : step ⟨content, .escape⟩ c = .more ⟨d :: content, .plain⟩ := by
      simp [step, hc, push]
    rw [consume_cons (t := ⟨content, .escape⟩) rfl, consume_cons hs, ih]
    simp
  | @unit ds t s u hu hplain _ ih =>
    have hunit := consume_hex content none hu
    rw [takeUnit_plain hplain] at hunit
    rw [consume_cons (t := ⟨content, .escape⟩) rfl,
      consume_cons (t := ⟨content, .hex none 0 (some 0)⟩) rfl, consume_append _ hunit, ih]
    simp
  | @pair ds es t s high low hhigh hrange hlow hrange' _ ih =>
    have hfirst := consume_hex content none hhigh
    have hsecond := consume_hex content (some high) hlow
    rw [takeUnit_high hrange] at hfirst
    rw [takeUnit_low hrange'] at hsecond
    rw [consume_cons (t := ⟨content, .escape⟩) rfl,
      consume_cons (t := ⟨content, .hex none 0 (some 0)⟩) rfl, consume_append _ hfirst,
      consume_cons (t := ⟨content, .pairMark high⟩) rfl,
      consume_cons (t := ⟨content, .hex (some high) 0 (some 0)⟩) rfl, consume_append _ hsecond, ih]
    simp

/-! ## Values -/

theorem closes_of_isBlank {c : Char} (h : isBlank c = true) : Closes c := by
  simp only [isBlank, Bool.or_eq_true, decide_eq_true_eq] at h
  rcases h with ((rfl | rfl) | rfl) | rfl <;> decide

/-- A reader that passes over one blank passes over all of them. -/
theorem consume_blanks {κ σ α : Type} {step : σ → Char → Step κ σ α} {r : σ} {w : List Char}
    (hstep : ∀ c, isBlank c = true → step r c = .more r) (hw : Blanks w) :
    consume step r w = .more r := by
  induction w with
  | nil => rfl
  | cons c w ih =>
    obtain ⟨hc, hrest⟩ := List.forall_mem_cons.mp hw
    rw [consume_cons (hstep c hc)]
    exact ih hrest

namespace Reading

variable [Rounding] {limit : Nat} {stack : List Frame} {e : Expectation} {next : Reading}
  {v : Value} {t w : List Char} {c : Char}

/-- Where a value may start, its first character is taken alike. -/
theorem step_starts (he : Starts e) (hblank : isBlank c = false) (hbracket : c ≠ ']') :
    step limit ⟨stack, e⟩ c = step limit ⟨stack, .value⟩ c := by
  rcases he with rfl | rfl | rfl <;> simp [step, hblank, hbracket]

theorem consume_starts (he : Starts e) (ht : ∃ c rest, t = c :: rest ∧ isBlank c = false ∧ c ≠ ']')
    (more : List Char) :
    consume (step limit) ⟨stack, e⟩ (t ++ more)
      = consume (step limit) ⟨stack, .value⟩ (t ++ more) := by
  obtain ⟨c, rest, rfl, hblank, hbracket⟩ := ht
  rw [List.cons_append, consume, consume, step_starts he hblank hbracket]

theorem step_blank_starts (he : Starts e) (h : isBlank c = true) :
    step limit ⟨stack, e⟩ c = .more ⟨stack, e⟩ := by
  rcases he with rfl | rfl | rfl <;> simp [step, h]

/-- A text is read as a value. A number is complete only with the character after it. -/
def Completes (limit : Nat) (stack : List Frame) (t : List Char) (v : Value) : Prop :=
  consume (step limit) ⟨stack, .value⟩ t = deliver stack v ∨
  ∃ n r, v = .number n ∧ consume (step limit) ⟨stack, .value⟩ t = .more ⟨stack, .number r⟩ ∧
    ∀ c, Closes c → r.step c = .before n

theorem Completes.followed (h : Completes limit stack t v) (hnext : deliver stack v = .more next)
    (hc : Closes c) :
    consume (step limit) ⟨stack, .value⟩ (t ++ [c]) = afterValue next.stack c := by
  rcases h with h | ⟨n, r, rfl, hread, hend⟩
  · rw [hnext] at h
    rw [consume_append _ h, consume_singleton, step_delivered hnext]
  · rw [consume_append _ hread, consume_singleton]
    simp only [step, hend c hc, hnext]

omit [Rounding] in
theorem afterValue_blank (hnext : deliver stack v = .more next) (h : isBlank c = true) :
    afterValue next.stack c = .more next := by
  unfold deliver at hnext
  split at hnext <;> cases hnext <;> simp [afterValue, h]

/-- Blanks between a value and what comes after it change nothing. -/
theorem Completes.followed_blanks (h : Completes limit stack t v)
    (hnext : deliver stack v = .more next) (hw : Blanks w) (hc : Closes c) :
    consume (step limit) ⟨stack, .value⟩ (t ++ (w ++ [c])) = afterValue next.stack c := by
  cases w with
  | nil => exact h.followed hnext hc
  | cons b w =>
    obtain ⟨hb, hrest⟩ := List.forall_mem_cons.mp hw
    have hfirst := h.followed hnext (closes_of_isBlank hb)
    rw [afterValue_blank hnext hb] at hfirst
    have hblanks : consume (step limit) next w = .more next :=
      consume_blanks (fun b hb => by rw [step_delivered hnext, afterValue_blank hnext hb]) hrest
    have hsplit : t ++ (b :: w ++ [c]) = t ++ [b] ++ (w ++ [c]) := by simp
    rw [hsplit, consume_append _ hfirst, consume_append _ hblanks, consume_singleton,
      step_delivered hnext]

/-- What it is for a text to be read as a part of a value, with up to so many containers open. -/
def Readable (limit : Nat) : Part → List Char → Prop
  | .value v, t => ∀ stack, stack.length + v.depth ≤ limit → Completes limit stack t v
  | .item v, t => ∀ stack next e c, Starts e → stack.length + v.depth ≤ limit →
    deliver stack v = .more next → Closes c →
    consume (step limit) ⟨stack, e⟩ (t ++ [c]) = afterValue next.stack c
  | .items vs, t => ∀ stack done e, e = .firstItem ∨ (e = .nextItem ∧ vs ≠ []) →
    stack.length + 1 + itemsDepth vs ≤ limit →
    consume (step limit) ⟨.array done :: stack, e⟩ (t ++ [']'])
      = deliver stack (.array (done.reverse ++ vs))
  | .member name v, t => ∀ stack done e c, e = .firstKey ∨ e = .nextKey →
    stack.length + 1 + v.depth ≤ limit → Closes c →
    consume (step limit) ⟨.object done none :: stack, e⟩ (t ++ [c])
      = afterValue (.object ((name, v) :: done) none :: stack) c
  | .members ms, t => ∀ stack done e, e = .firstKey ∨ (e = .nextKey ∧ ms ≠ []) →
    stack.length + 1 + membersDepth ms ≤ limit →
    consume (step limit) ⟨.object done none :: stack, e⟩ (t ++ ['}'])
      = deliver stack (.object (done.reverse ++ ms))

theorem completes_word {letter : Char} {rest : List Char}
    (h : step limit ⟨stack, .value⟩ c = .more ⟨stack, .word letter rest v⟩) :
    Completes limit stack (c :: letter :: rest) v := by
  left
  rw [consume_cons h]
  clear h
  induction rest generalizing letter with
  | nil => simp [step]
  | cons d ds ih =>
    have hs : step limit ⟨stack, .word letter (d :: ds) v⟩ letter
        = .more ⟨stack, .word d ds v⟩ := by simp [step]
    rw [consume_cons hs]
    exact ih

theorem completes_number {l : Literal} {n : Number} (h : l.Valid) (hn : l.number? = some n) :
    Completes limit stack l.text (.number n) := by
  obtain ⟨r, ⟨d, ds, first, htext, hstart, hds⟩, hend⟩ := Literal.spells h hn
  have hlift : consume (step limit) ⟨stack, .number first⟩ ds = .more ⟨stack, .number r⟩ :=
    consume_lift (fun n => (⟨stack, .number n⟩ : Reading)) (fun _ _ _ => step_number) hds
  refine .inr ⟨n, r, rfl, ?_, hend⟩
  rw [htext, consume_cons (step_start hstart), hlift]

theorem completes_text {s : List Char} (h : Spelling t s) :
    Completes limit stack ('"' :: (t ++ ['"'])) (.text (String.ofList s)) := by
  have hread := TextReading.consume_spelling [] h
  rw [List.append_nil] at hread
  left
  rw [consume_cons (t := ⟨stack, .text .start⟩) rfl, consume_text hread]

/-! ### One lemma for each way to put a text together -/

section

variable {vs : List Value} {name : String} {ms : List (String × Value)} {t' w' : List Char}

theorem readable_array (h : Readable limit (.items vs) t) :
    Readable limit (.value (.array vs)) ('[' :: (t ++ [']'])) := by
  intro stack hdepth
  rw [Value.depth] at hdepth
  have hopen : step limit ⟨stack, .value⟩ '[' = .more ⟨.array [] :: stack, .firstItem⟩ :=
    step_bracket (by omega)
  left
  rw [consume_cons hopen, h stack [] .firstItem (.inl rfl) (by omega)]
  rfl

theorem readable_object (h : Readable limit (.members ms) t) :
    Readable limit (.value (.object ms)) ('{' :: (t ++ ['}'])) := by
  intro stack hdepth
  rw [Value.depth] at hdepth
  have hopen : step limit ⟨stack, .value⟩ '{' = .more ⟨.object [] none :: stack, .firstKey⟩ :=
    step_brace (.inl rfl) (by omega)
  left
  rw [consume_cons hopen, h stack [] .firstKey (.inl rfl) (by omega)]
  rfl

theorem readable_item (hw : Blanks w) (hwritten : Written (.value v) t) (hw' : Blanks w')
    (h : Readable limit (.value v) t) : Readable limit (.item v) (w ++ t ++ w') := by
  intro stack next e c he hdepth hnext hc
  have hblanks : consume (step limit) ⟨stack, e⟩ w = .more ⟨stack, e⟩ :=
    consume_blanks (fun b hb => step_blank_starts he hb) hw
  rw [List.append_assoc, List.append_assoc, consume_append _ hblanks,
    consume_starts he hwritten.head_value]
  exact (h stack hdepth).followed_blanks hnext hw' hc

theorem readable_noItems (hw : Blanks w) : Readable limit (.items []) w := by
  intro stack done e he _
  have hfirst : e = .firstItem := he.resolve_right fun h => h.2 rfl
  subst hfirst
  have hblanks : consume (step limit) ⟨.array done :: stack, .firstItem⟩ w
      = .more ⟨.array done :: stack, .firstItem⟩ :=
    consume_blanks (fun b hb => step_blank_starts (.inr (.inl rfl)) hb) hw
  rw [consume_append _ hblanks, consume_singleton, List.append_nil]
  rfl

theorem readable_lastItem (h : Readable limit (.item v) t) : Readable limit (.items [v]) t := by
  intro stack done e he hdepth
  have hstarts : Starts e := he.elim (fun h => .inr (.inl h)) fun h => .inr (.inr h.1)
  rw [h (.array done :: stack) ⟨.array (v :: done) :: stack, .itemEnd⟩ e ']' hstarts
    (by simp only [itemsDepth, List.length_cons] at hdepth ⊢; omega) rfl (by decide)]
  simp [afterValue, isBlank, close]

theorem readable_moreItems (h : Readable limit (.item v) t) (hne : vs ≠ [])
    (hrest : Readable limit (.items vs) t') :
    Readable limit (.items (v :: vs)) (t ++ ',' :: t') := by
  intro stack done e he hdepth
  have hstarts : Starts e := he.elim (fun h => .inr (.inl h)) fun h => .inr (.inr h.1)
  have hfirst := h (.array done :: stack) ⟨.array (v :: done) :: stack, .itemEnd⟩ e ',' hstarts
    (by simp only [itemsDepth, List.length_cons] at hdepth ⊢; omega) rfl (by decide)
  have hcomma : afterValue (.array (v :: done) :: stack) ','
      = .more ⟨.array (v :: done) :: stack, .nextItem⟩ := rfl
  have hsplit : t ++ ',' :: t' ++ [']'] = t ++ [','] ++ (t' ++ [']']) := by simp
  rw [hsplit, consume_append _ (hfirst.trans hcomma),
    hrest stack (v :: done) .nextItem (.inr ⟨rfl, hne⟩)
      (by simp only [itemsDepth] at hdepth; omega)]
  simp

theorem readable_member {k s : List Char} (hw : Blanks w) (hk : Spelling k s) (hw' : Blanks w')
    (h : Readable limit (.item v) t) :
    Readable limit (.member (String.ofList s) v)
      (w ++ '"' :: (k ++ '"' :: (w' ++ ':' :: t))) := by
  intro stack done e c he hdepth hc
  have hblanks : consume (step limit) ⟨.object done none :: stack, e⟩ w
      = .more ⟨.object done none :: stack, e⟩ :=
    consume_blanks (fun b hb => by rcases he with rfl | rfl <;> simp [step, hb]) hw
  have hread := TextReading.consume_spelling [] hk
  rw [List.append_nil] at hread
  have hkey : consume (step limit) ⟨.object done none :: stack, e⟩ ('"' :: (k ++ ['"']))
      = .more ⟨.object done (some (String.ofList s)) :: stack, .colon⟩ := consume_key he hread
  have hblanks' : consume (step limit) ⟨.object done (some (String.ofList s)) :: stack, .colon⟩
      w' = .more ⟨.object done (some (String.ofList s)) :: stack, .colon⟩ :=
    consume_blanks (fun b hb => by simp [step, hb]) hw'
  have hcolon : step limit ⟨.object done (some (String.ofList s)) :: stack, .colon⟩ ':'
      = .more ⟨.object done (some (String.ofList s)) :: stack, .value⟩ := rfl
  have hsplit : w ++ '"' :: (k ++ '"' :: (w' ++ ':' :: t)) ++ [c]
      = w ++ ('"' :: (k ++ ['"']) ++ (w' ++ ':' :: (t ++ [c]))) := by simp
  rw [hsplit, consume_append _ hblanks, consume_append _ hkey, consume_append _ hblanks',
    consume_cons hcolon]
  exact h _ ⟨.object ((String.ofList s, v) :: done) none :: stack, .memberEnd⟩ .value c
    (.inl rfl) hdepth rfl hc

theorem readable_noMembers (hw : Blanks w) : Readable limit (.members []) w := by
  intro stack done e he _
  have hfirst : e = .firstKey := he.resolve_right fun h => h.2 rfl
  subst hfirst
  have hblanks : consume (step limit) ⟨.object done none :: stack, .firstKey⟩ w
      = .more ⟨.object done none :: stack, .firstKey⟩ :=
    consume_blanks (fun b hb => by simp [step, hb]) hw
  rw [consume_append _ hblanks, consume_singleton, List.append_nil]
  rfl

theorem readable_lastMember (h : Readable limit (.member name v) t) :
    Readable limit (.members [(name, v)]) t := by
  intro stack done e he hdepth
  have hkey : e = .firstKey ∨ e = .nextKey := he.imp_right fun h => h.1
  rw [h stack done e '}' hkey (by simp only [membersDepth] at hdepth; omega) (by decide)]
  simp [afterValue, isBlank, close]

theorem readable_moreMembers (h : Readable limit (.member name v) t) (hne : ms ≠ [])
    (hrest : Readable limit (.members ms) t') :
    Readable limit (.members ((name, v) :: ms)) (t ++ ',' :: t') := by
  intro stack done e he hdepth
  have hkey : e = .firstKey ∨ e = .nextKey := he.imp_right fun h => h.1
  have hfirst := h stack done e ',' hkey (by simp only [membersDepth] at hdepth; omega)
    (by decide)
  have hcomma : afterValue (.object ((name, v) :: done) none :: stack) ','
      = .more ⟨.object ((name, v) :: done) none :: stack, .nextKey⟩ := rfl
  have hsplit : t ++ ',' :: t' ++ ['}'] = t ++ [','] ++ (t' ++ ['}']) := by simp
  rw [hsplit, consume_append _ (hfirst.trans hcomma),
    hrest stack ((name, v) :: done) .nextKey (.inr ⟨rfl, hne⟩)
      (by simp only [membersDepth] at hdepth; omega)]
  simp

end

/-- Within the depth limit every part of a value is read. -/
theorem readable_of_written {p : Part} (h : Written p t) : Readable limit p t := by
  induction h with
  | wordNull | wordTrue | wordFalse =>
    intro stack _
    exact completes_word rfl
  | number hv hr =>
    intro stack _
    exact completes_number hv hr
  | text hs =>
    intro stack _
    exact completes_text hs
  | array _ ih => exact readable_array ih
  | object _ ih => exact readable_object ih
  | item hw hwritten hw' ih => exact readable_item hw hwritten hw' ih
  | noItems hw => exact readable_noItems hw
  | lastItem _ ih => exact readable_lastItem ih
  | moreItems _ hne _ ih ih' => exact readable_moreItems ih hne ih'
  | member hw hk hw' _ ih => exact readable_member hw hk hw' ih
  | noMembers hw => exact readable_noMembers hw
  | lastMember _ ih => exact readable_lastMember ih
  | moreMembers _ hne _ ih ih' => exact readable_moreMembers ih hne ih'

end Reading

end StagePlay.Json
