import StagePlay.Proofs.Console.Words
import StagePlay.Proofs.Decimal.Bits
import StagePlay.Proofs.Decimal.Digits
import StagePlay.Settings.Environment

/-!
# StagePlay.Proofs.Settings.Environment

Settings from any environment: variables that are not set, are no text, or hold any text at all.

`Variable.Spells` says which value a variable spells, with blanks around it. `Heeded` says what a
variable does to its setting and to the warnings.

* `Environment.heeded_value`: a variable is heeded, whatever its setting is.
* `Environment.settings_usable`: so are the three variables, and what they give can be used.
-/

namespace StagePlay

open Console (Blanks Solid)
open Numeral (Digits valueFrom)

/-- A number of milliseconds: digits with or without a plus sign, in 64 bits. -/
def SpellsMillis (cs : List Char) (d : Duration) : Prop :=
  ∃ ds, (cs = ds ∨ cs = '+' :: ds) ∧ ds ≠ [] ∧ Digits ds ∧ valueFrom 0 ds < 2 ^ 64 ∧
    d.nanoseconds = valueFrom 0 ds * 1000000

/-- A distance: a numeral that is read as a finite double, which is not negative. -/
def SpellsDistance (cs : List Char) (x : Float) : Prop :=
  Numeral.float? cs = some x ∧ x.isFinite = true ∧ 0 ≤ x

/-- The variable holds a text that spells this value, and nothing else but blanks around it. -/
inductive Variable.Spells {α : Type} (spells : List Char → α → Prop) : Variable → α → Prop where
  | text {before cs after : List Char} {a : α} : Blanks before → Solid cs → Blanks after →
      spells cs a → Spells spells (.text (String.ofList (before ++ cs ++ after))) a

def Warning.name : Warning → String
  | .invalid name _ | .unreadable name _ => name

/-- A warning is recorded as one, first of all with the variable that it is about. -/
theorem Warning.record_eq (w : Warning) :
    w.record.level = .warn ∧ w.record.details.head? = some ("env_var", .words w.name) := by
  cases w <;> exact ⟨rfl, rfl⟩

/-- The warning about a variable that is set. -/
def Variable.complaints (name : String) : Variable → List Warning
  | .unset => []
  | .text value => [.invalid name value]
  | .notText shown => [.unreadable name shown]

/-- A variable gives the setting if it spells a value, and no warning then. If it spells none, the
setting is the default, and there is one warning if the variable is set. -/
structure Heeded {α : Type} (spells : List Char → α → Prop) (default : α) (v : Variable)
    (name : String) (a : α) (warnings : List Warning) : Prop where
  spelled : ∀ b, v.Spells spells b → a = b ∧ warnings.filter (·.name = name) = []
  otherwise : (∀ b, ¬ v.Spells spells b) →
    a = default ∧ warnings.filter (·.name = name) = v.complaints name

/-! ## Texts -/

theorem nat?_eq_some_iff {cs : List Char} {n : Nat} :
    Numeral.nat? 64 cs = some n ↔
      ∃ ds, (cs = ds ∨ cs = '+' :: ds) ∧ ds ≠ [] ∧ Digits ds ∧ valueFrom 0 ds < 2 ^ 64 ∧
        n = valueFrom 0 ds := by
  have hdigits : ∀ ds : List Char,
      (if ds ≠ [] ∧ ds.all Char.isDigit = true then
        (if valueFrom 0 ds < Numeral.capacity 64 then some (valueFrom 0 ds) else none)
      else none) = some n ↔
        ds ≠ [] ∧ Digits ds ∧ valueFrom 0 ds < 2 ^ 64 ∧ n = valueFrom 0 ds := by
    intro ds
    have hall : ds.all Char.isDigit = true ↔ Digits ds := List.all_eq_true
    have hcapacity : Numeral.capacity 64 = 2 ^ 64 := by decide
    simp only [hall, hcapacity, Option.ite_none_right_eq_some, Option.some.injEq]
    constructor
    · rintro ⟨⟨hne, hds⟩, hlt, rfl⟩
      exact ⟨hne, hds, hlt, rfl⟩
    · rintro ⟨hne, hds, hlt, rfl⟩
      exact ⟨⟨hne, hds⟩, hlt, rfl⟩
  by_cases hplus : ∃ rest, cs = '+' :: rest
  · obtain ⟨rest, rfl⟩ := hplus
    refine (hdigits rest).trans ⟨fun h => ⟨rest, .inr rfl, h⟩, ?_⟩
    rintro ⟨ds, rfl | hds, h⟩
    · cases h.2.1 '+' List.mem_cons_self
    · cases hds
      exact h
  · rw [Numeral.nat?.eq_2 64 cs fun rest h => hplus ⟨rest, h⟩]
    refine (hdigits cs).trans ⟨fun h => ⟨cs, .inl rfl, h⟩, ?_⟩
    rintro ⟨ds, rfl | rfl, h⟩
    · exact h
    · exact absurd ⟨ds, rfl⟩ hplus

theorem millis?_eq_some_iff {cs : List Char} {d : Duration} :
    Environment.millis? cs = some d ↔ SpellsMillis cs d := by
  rw [Environment.millis?, Option.map_eq_some_iff]
  constructor
  · rintro ⟨n, hn, rfl⟩
    obtain ⟨ds, hcs, hne, hds, hlt, rfl⟩ := nat?_eq_some_iff.mp hn
    exact ⟨ds, hcs, hne, hds, hlt, rfl⟩
  · rintro ⟨ds, hcs, hne, hds, hlt, hd⟩
    exact ⟨_, nat?_eq_some_iff.mpr ⟨ds, hcs, hne, hds, hlt, rfl⟩, congrArg Duration.mk hd.symm⟩

theorem distance?_eq_some_iff {cs : List Char} {x : Float} :
    Environment.distance? cs = some x ↔ SpellsDistance cs x := by
  rw [Environment.distance?, Option.filter_eq_some_iff, Bool.and_eq_true, decide_eq_true_iff]
  rfl

section Value

variable {α : Type} {spells : List Char → α → Prop} {read? : List Char → Option α}

/-- What a variable spells is what its trimmed text is read as. -/
theorem Variable.spells_text_iff (hread : ∀ cs a, read? cs = some a ↔ spells cs a)
    (hnil : read? [] = none) {raw : String} {a : α} :
    (Variable.text raw).Spells spells a ↔ read? (Text.trim raw.toList) = some a := by
  constructor
  · intro h
    cases h with
    | text hbefore hcs hafter hspells =>
      rw [String.toList_ofList, Console.trim_solid hbefore hcs hafter]
      exact (hread _ a).mpr hspells
  · intro h
    obtain ⟨before, after, hbefore, hafter, hraw, hempty | hsolid⟩ :=
      Console.exists_trim raw.toList
    · rw [hempty, hnil] at h
      cases h
    · rw [← String.ofList_toList (s := raw), hraw]
      exact .text hbefore hsolid hafter ((hread _ a).mp h)

namespace Environment

variable (env : Environment) (name : String) (default : α)

/-- All warnings about one variable name it. -/
theorem name_of_mem_value {w : Warning} (h : w ∈ (env.value name default read?).2) :
    w.name = name := by
  unfold value at h
  split at h
  · cases h
  · cases List.mem_singleton.mp h
    rfl
  · split at h
    · cases h
    · cases List.mem_singleton.mp h
      rfl

theorem filter_value (name' : String) :
    (env.value name default read?).2.filter (·.name = name') =
      if name = name' then (env.value name default read?).2 else [] := by
  split
  next hname =>
    rw [List.filter_eq_self]
    intro w hw
    simp [env.name_of_mem_value name default hw, hname]
  next hname =>
    rw [List.filter_eq_nil_iff]
    intro w hw
    simp [env.name_of_mem_value name default hw, hname]

/-- A variable is heeded by the warnings that name it. -/
theorem heeded_value (hread : ∀ cs a, read? cs = some a ↔ spells cs a) (hnil : read? [] = none)
    {warnings : List Warning}
    (hown : warnings.filter (·.name = name) = (env.value name default read?).2) :
    Heeded spells default (env name) name (env.value name default read?).1 warnings := by
  constructor
  · intro b hb
    rw [hown, value]
    split
    next hunset =>
      rw [hunset] at hb
      cases hb
    next hbytes =>
      rw [hbytes] at hb
      cases hb
    next raw htext =>
      rw [htext, Variable.spells_text_iff hread hnil] at hb
      rw [hb]
      exact ⟨rfl, rfl⟩
  · intro hno
    rw [hown, value]
    split
    next hunset =>
      rw [hunset]
      exact ⟨rfl, rfl⟩
    next hbytes =>
      rw [hbytes]
      exact ⟨rfl, rfl⟩
    next raw htext =>
      rw [htext] at hno ⊢
      have hnone : read? (Text.trim raw.toList) = none := by
        rw [Option.eq_none_iff_forall_ne_some]
        intro b hb
        exact hno b ((Variable.spells_text_iff hread hnil).mpr hb)
      rw [hnone]
      exact ⟨rfl, rfl⟩

end Environment

end Value

namespace Environment

theorem value_congr {α : Type} {env env' : Environment} {name : String} (h : env' name = env name)
    (default : α) (read? : List Char → Option α) :
    env'.value name default read? = env.value name default read? := by
  rw [value, value, h]

/-- The distance that an environment gives needs no replacing. -/
theorem distance_usable (env : Environment) :
    (env.value distanceVariable Settings.defaultDistance distance?).1.isFinite = true ∧
      0 ≤ (env.value distanceVariable Settings.defaultDistance distance?).1 := by
  have hdefault : Settings.defaultDistance.isFinite = true ∧ 0 ≤ Settings.defaultDistance := by
    decide +kernel
  unfold value
  split
  · exact hdefault
  · exact hdefault
  · split
    next x hx => exact (distance?_eq_some_iff.mp hx).2
    next => exact hdefault

/-- What normalizing settings looks for is already so. -/
theorem settings_fst (env : Environment) :
    env.settings.1 =
      { step := (env.value stepVariable Settings.defaultStep millis?).1
        speech := (env.value speechVariable Settings.defaultSpeech millis?).1
        collisionDistance := (env.value distanceVariable Settings.defaultDistance distance?).1
        spawnPoint := Settings.defaultSpawnPoint } := by
  obtain ⟨hfinite, hsign⟩ := env.distance_usable
  have hplace : (!Settings.defaultSpawnPoint.x.isFinite ||
      !Settings.defaultSpawnPoint.y.isFinite) = false := by
    decide +kernel
  have hdistance := Binary64.not_lt_zero hsign
  simp only [settings, Settings.initial, Settings.normalized, hfinite, hdistance, hplace,
    Bool.not_true, Bool.false_or, decide_false, Bool.false_eq_true, if_false]

theorem settings_snd (env : Environment) :
    env.settings.2 = (env.value stepVariable Settings.defaultStep millis?).2 ++
      (env.value speechVariable Settings.defaultSpeech millis?).2 ++
      (env.value distanceVariable Settings.defaultDistance distance?).2 := rfl

/-- **Settings from any environment** can be used as they are. Each of the three variables gives its
own setting and no other: the value that it spells, or else the default. There is exactly one
warning for each variable that is set and spells nothing, which names it, and no other warning. -/
theorem settings_usable (env : Environment) :
    (env.settings.1.normalized = env.settings.1 ∧
      env.settings.1.collisionDistance.isFinite = true ∧ 0 ≤ env.settings.1.collisionDistance ∧
      env.settings.1.spawnPoint = Settings.defaultSpawnPoint) ∧
    (Heeded SpellsMillis (.ofMillis 500) (env stepVariable) stepVariable env.settings.1.step
        env.settings.2 ∧
      Heeded SpellsMillis (.ofMillis 2000) (env speechVariable) speechVariable env.settings.1.speech
        env.settings.2 ∧
      Heeded SpellsDistance 50 (env distanceVariable) distanceVariable
        env.settings.1.collisionDistance env.settings.2) ∧
    (∀ w ∈ env.settings.2, w.name ∈ [stepVariable, speechVariable, distanceVariable] ∧
      w.record.level = .warn ∧ w.record.details.head? = some ("env_var", .words w.name)) ∧
    ∀ env' : Environment,
      (env' stepVariable = env stepVariable →
        env'.settings.1.step = env.settings.1.step) ∧
      (env' speechVariable = env speechVariable →
        env'.settings.1.speech = env.settings.1.speech) ∧
      (env' distanceVariable = env distanceVariable →
        env'.settings.1.collisionDistance = env.settings.1.collisionDistance) := by
  have hnames : stepVariable ≠ speechVariable ∧ stepVariable ≠ distanceVariable ∧
      speechVariable ≠ distanceVariable := by decide
  have hmillis := fun cs d => @millis?_eq_some_iff cs d
  have hdistance := fun cs x => @distance?_eq_some_iff cs x
  refine ⟨⟨Settings.normalized_idem _, ?_⟩, ?_, fun w hw => ⟨?_, w.record_eq⟩,
    fun env' => ⟨?_, ?_, ?_⟩⟩
  · rw [settings_fst]
    exact ⟨env.distance_usable.1, env.distance_usable.2, rfl⟩
  · rw [settings_fst, settings_snd]
    refine ⟨heeded_value _ _ Settings.defaultStep hmillis rfl ?_,
      heeded_value _ _ Settings.defaultSpeech hmillis rfl ?_,
      heeded_value _ _ Settings.defaultDistance hdistance rfl ?_⟩
    all_goals simp [filter_value, hnames, hnames.1.symm, hnames.2.1.symm, hnames.2.2.symm]
  · simp only [settings_snd, List.mem_append] at hw
    rcases hw with (hw | hw) | hw
    all_goals simp [name_of_mem_value _ _ _ hw]
  · intro h
    rw [settings_fst, settings_fst, value_congr h]
  · intro h
    rw [settings_fst, settings_fst, value_congr h]
  · intro h
    rw [settings_fst, settings_fst, value_congr h]

/-- A step with blanks and a plus sign, a bubble that is no text, and a distance that is not
    finite. -/
def mixed : Environment := fun name =>
  if name = stepVariable then .text "\t+20 "
  else if name = speechVariable then .notText "\"\uFFFD\""
  else if name = distanceVariable then .text " inf"
  else .unset

theorem settings_usable_mixed :
    mixed.settings.1.step = .ofMillis 20 ∧ mixed.settings.1.speech = .ofMillis 2000 ∧
      mixed.settings.1.collisionDistance = 50 ∧
      mixed.settings.2.filter (·.name = stepVariable) = [] ∧
      mixed.settings.2.filter (·.name = speechVariable)
        = [.unreadable speechVariable "\"\uFFFD\""] ∧
      mixed.settings.2.filter (·.name = distanceVariable) = [.invalid distanceVariable " inf"] ∧
      (settings fun _ => mixed stepVariable).1.step = .ofMillis 20 := by
  obtain ⟨-, ⟨hstep, hspeech, hdistance⟩, -, hsame⟩ := settings_usable mixed
  have htwenty : (mixed stepVariable).Spells SpellsMillis (.ofMillis 20) := by
    refine (Variable.spells_text_iff (fun cs d => @millis?_eq_some_iff cs d) rfl).mpr ?_
    decide
  have hbytes : ∀ n, ¬ (mixed speechVariable).Spells SpellsMillis n := by
    rintro n ⟨⟩
  have hinfinite : ∀ x, ¬ (mixed distanceVariable).Spells SpellsDistance x := by
    intro x hx
    have hread := (Variable.spells_text_iff (fun cs x => @distance?_eq_some_iff cs x) rfl).mp hx
    have hnone : distance? (Text.trim " inf".toList) = none := by decide +kernel
    rw [hnone] at hread
    cases hread
  have hother := (hsame fun _ => mixed stepVariable).1 rfl
  obtain ⟨htime, hquiet⟩ := hstep.spelled _ htwenty
  obtain ⟨hpause, hunreadable⟩ := hspeech.otherwise hbytes
  obtain ⟨hreach, hinvalid⟩ := hdistance.otherwise hinfinite
  exact ⟨htime, hpause, hreach, hquiet, hunreadable, hinvalid, hother.trans htime⟩

end Environment

end StagePlay
