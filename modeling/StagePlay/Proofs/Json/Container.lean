import StagePlay.Json.Reading
import StagePlay.Proofs.Json.Number
import StagePlay.Proofs.Json.Text

/-!
# StagePlay.Proofs.Json.Container

How the texts of values are read inside containers that are open.

* `reads_number`, `reads_quoted`: numbers and strings as items and members.
* `consume_members`: the members of an object up to its closing brace.
-/

namespace StagePlay.Json.Reading

variable [Rounding] {limit depth : Nat} {stack rest : List Frame} {next : Reading} {v : Value}

/-- With this many containers open a text is read as this value, before any character that is no
    part of a number. -/
def Reads (limit depth : Nat) (text : List Char) (v : Value) : Prop :=
  ∀ stack next c, stack.length = depth → deliver stack v = .more next → Closes c →
    consume (step limit) ⟨stack, .value⟩ (text ++ [c]) = afterValue next.stack c

theorem step_delivered (h : deliver stack v = .more next) (c : Char) :
    step limit next c = afterValue next.stack c := by
  unfold deliver at h
  split at h <;> cases h <;> rfl

theorem reads_of_deliver {text : List Char}
    (h : ∀ stack, stack.length = depth →
      consume (step limit) ⟨stack, .value⟩ text = deliver stack v) :
    Reads limit depth text v := by
  intro stack next c hdepth hnext _
  have htext := h stack hdepth
  rw [hnext] at htext
  rw [consume_append _ htext, consume_singleton, step_delivered hnext]

theorem reads_null : Reads limit depth "null".toList .null :=
  reads_of_deliver fun stack _ => by
    show consume (step limit) ⟨stack, .value⟩ ['n', 'u', 'l', 'l'] = _
    rw [consume_cons (t := ⟨stack, .word 'u' ['l', 'l'] .null⟩) rfl,
      consume_cons (t := ⟨stack, .word 'l' ['l'] .null⟩) rfl,
      consume_cons (t := ⟨stack, .word 'l' [] .null⟩) rfl, consume_singleton]
    rfl

/-- The first character of a number starts a number. -/
theorem step_start {c : Char} {first : NumberReading} (h : NumberReading.start? c = some first) :
    step limit ⟨stack, .value⟩ c = .more ⟨stack, .number first⟩ := by
  have hblank : ¬ isBlank c = true := by
    intro hb
    simp only [isBlank, Bool.or_eq_true, decide_eq_true_eq] at hb
    rcases hb with ((rfl | rfl) | rfl) | rfl <;> cases h
  simp only [step]
  rw [if_neg hblank]
  unfold startValue
  split
  all_goals first
    | cases h
    | rw [h]

theorem step_number {r r' : NumberReading} {c : Char} (h : r.step c = .more r') :
    step limit ⟨stack, .number r⟩ c = .more ⟨stack, .number r'⟩ := by
  simp only [step, h]

theorem reads_number {text : List Char} {n : Number} (h : NumberReading.Spells text n) :
    Reads limit depth text (.number n) := by
  intro stack next c _ hnext hc
  obtain ⟨r, ⟨d, ds, first, rfl, hstart, hds⟩, hend⟩ := h
  have hlift : consume (step limit) ⟨stack, .number first⟩ ds = .more ⟨stack, .number r⟩ :=
    consume_lift (fun n => (⟨stack, .number n⟩ : Reading)) (fun _ _ _ => step_number) hds
  rw [List.cons_append, consume_cons (step_start hstart), consume_append _ hlift,
    consume_singleton]
  simp only [step, hend c hc, hnext]

theorem consume_text {t cs : List Char}
    (h : consume TextReading.step .start t = .more ⟨cs.reverse, .plain⟩) :
    consume (step limit) ⟨stack, .text .start⟩ (t ++ ['"'])
      = deliver stack (.text (String.ofList cs)) := by
  have hlift : consume (step limit) ⟨stack, .text .start⟩ t
      = .more ⟨stack, .text ⟨cs.reverse, .plain⟩⟩ :=
    consume_lift (fun t => (⟨stack, .text t⟩ : Reading))
      (fun t c t' hs => by simp only [step, hs]) h
  rw [consume_append _ hlift, consume_singleton]
  simp only [step, TextReading.step_quote]

theorem reads_quoted (s : String) : Reads limit depth (quoted s) (.text s) :=
  reads_of_deliver fun stack _ => by
    rw [quoted, List.cons_append, consume_cons (t := ⟨stack, .text .start⟩) rfl,
      consume_text (TextReading.consume_string s), String.ofList_toList]

theorem consume_key {members : List (String × Value)} {e : Expectation} {t cs : List Char}
    (he : e = .firstKey ∨ e = .nextKey)
    (h : consume TextReading.step .start t = .more ⟨cs.reverse, .plain⟩) :
    consume (step limit) ⟨.object members none :: rest, e⟩ ('"' :: (t ++ ['"']))
      = .more ⟨.object members (some (String.ofList cs)) :: rest, .colon⟩ := by
  have hopen : step limit ⟨.object members none :: rest, e⟩ '"'
      = .more ⟨.object members none :: rest, .key .start⟩ := by
    rcases he with rfl | rfl <;> rfl
  have hlift : consume (step limit) ⟨.object members none :: rest, .key .start⟩ t
      = .more ⟨.object members none :: rest, .key ⟨cs.reverse, .plain⟩⟩ :=
    consume_lift (fun t => (⟨.object members none :: rest, .key t⟩ : Reading))
      (fun t c t' hs => by simp only [step, hs]) h
  rw [consume_cons hopen, consume_append _ hlift, consume_singleton]
  simp only [step, TextReading.step_quote]

theorem consume_name {members : List (String × Value)} {e : Expectation}
    (he : e = .firstKey ∨ e = .nextKey) (name : String) :
    consume (step limit) ⟨.object members none :: rest, e⟩ (quoted name ++ [':'])
      = .more ⟨.object members (some name) :: rest, .value⟩ := by
  have hkey := @consume_key _ limit rest members e _ _ he (TextReading.consume_string name)
  rw [String.ofList_toList] at hkey
  have hquoted : quoted name = '"' :: (name.toList.flatMap escape ++ ['"']) := rfl
  rw [hquoted, consume_append _ hkey, consume_singleton]
  rfl

theorem consume_member {members : List (String × Value)} {e : Expectation} {name : String}
    {text : List Char} {c : Char} (he : e = .firstKey ∨ e = .nextKey)
    (h : Reads limit (rest.length + 1) text v) (hc : Closes c) :
    consume (step limit) ⟨.object members none :: rest, e⟩ (quoted name ++ ':' :: text ++ [c])
      = afterValue (.object ((name, v) :: members) none :: rest) c := by
  have htext : quoted name ++ ':' :: text ++ [c] = quoted name ++ [':'] ++ (text ++ [c]) := by
    simp
  rw [htext, consume_append _ (consume_name he name)]
  exact h _ ⟨.object ((name, v) :: members) none :: rest, .memberEnd⟩ c rfl rfl hc

/-- A member of an object as it is written and as it is read. -/
structure Member where
  name : String
  text : List Char
  value : Value

theorem consume_members {members : List (String × Value)} {e : Expectation} {m : Member}
    {ms : List Member} (he : e = .firstKey ∨ e = .nextKey)
    (h : ∀ m' ∈ m :: ms, Reads limit (rest.length + 1) m'.text m'.value) :
    consume (step limit) ⟨.object members none :: rest, e⟩
        (List.intercalate [','] ((m :: ms).map fun m => quoted m.name ++ ':' :: m.text) ++ ['}'])
      = deliver rest (.object (members.reverse ++ (m :: ms).map fun m => (m.name, m.value))) := by
  induction ms generalizing members e m with
  | nil =>
    have hlast : consume (step limit) ⟨.object members none :: rest, e⟩
        (quoted m.name ++ ':' :: m.text ++ ['}'])
        = deliver rest (.object ((m.name, m.value) :: members).reverse) :=
      consume_member he (h m (List.mem_cons_self ..)) (by decide)
    rw [List.map_singleton, List.intercalate_singleton, hlast]
    simp
  | cons m' ms ih =>
    have hfirst : consume (step limit) ⟨.object members none :: rest, e⟩
        (quoted m.name ++ ':' :: m.text ++ [','])
        = .more ⟨.object ((m.name, m.value) :: members) none :: rest, .nextKey⟩ :=
      consume_member he (h m (List.mem_cons_self ..)) (by decide)
    have hrest := @ih ((m.name, m.value) :: members) .nextKey m' (.inr rfl)
      fun x hx => h x (List.mem_cons_of_mem _ hx)
    rw [List.map_cons, List.map_cons, List.intercalate_cons_cons, List.append_assoc,
      consume_append _ hfirst]
    simpa using hrest

def Starts (e : Expectation) : Prop := e = .value ∨ e = .firstItem ∨ e = .nextItem

variable {e : Expectation}

theorem step_brace (he : Starts e) (h : stack.length < limit) :
    step limit ⟨stack, e⟩ '{' = .more ⟨.object [] none :: stack, .firstKey⟩ := by
  rcases he with rfl | rfl | rfl <;> simp [step, startValue, openFrame, h, isBlank]

/-- One container too many is refused at its opening brace. -/
theorem step_brace_refused (he : Starts e) (h : limit ≤ stack.length) :
    step limit ⟨stack, e⟩ '{' = .refused ⟨.nestedTooDeeply, pathOf stack, 1⟩ := by
  rcases he with rfl | rfl | rfl <;>
    simp [step, startValue, openFrame, Nat.not_lt.mpr h, isBlank, refuseIn]

theorem step_bracket (h : stack.length < limit) :
    step limit ⟨stack, .value⟩ '[' = .more ⟨.array [] :: stack, .firstItem⟩ := by
  simp [step, startValue, openFrame, h, isBlank]

end StagePlay.Json.Reading
