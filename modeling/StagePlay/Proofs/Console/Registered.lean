import Mathlib.Data.List.Basic
import StagePlay.Console.Registry

/-!
# StagePlay.Proofs.Console.Registered

What a registry is after any calls, some of which are refused.

A registry keeps its commands twice: in a list, and in a table that leads from a name without its
case to a place in the list. `Indexed` says that the two are in step. Each call keeps them so, and
everything that is looked up follows from it.

* `Indexed.add`, `Indexed.attempt`: a call keeps the table in step.
* `Indexed.lookup?_eq_some_iff`: who is looked up is the command of this name.
* `registered_commands`: the commands of every console are all accepted.
* `registered`: what holds after any calls.
-/

namespace StagePlay.Console

namespace Registry

/-- The table leads from the name of each command to the place of this command, and from nothing
    else. -/
def Indexed (r : Registry) : Prop :=
  ∀ key i, r.places.lookup key = some i ↔ ∃ s, r.specs[i]? = some s ∧ folded s.name = key

/-- The commands that are registered when these are tried one after the other. -/
def accepted (r : Registry) : List Spec → List Spec
  | [] => []
  | s :: calls =>
    match r.register s with
    | .ok r' => s :: r'.accepted calls
    | .error _ => r.accepted calls

variable {r r' : Registry} {s t : Spec} {calls : List Spec} {name : String}

/-! ## One call -/

theorem attempt_of_error {e : RegisterError} (h : r.register s = .error e) : r.attempt s = r := by
  rw [attempt, h]
  rfl

theorem attempt_of_ok (h : r.register s = .ok r') : r.attempt s = r' := by
  rw [attempt, h]
  rfl

theorem accepted_of_error {e : RegisterError} (h : r.register s = .error e) (calls : List Spec) :
    r.accepted (s :: calls) = r.accepted calls := by rw [accepted, h]

theorem accepted_of_ok (h : r.register s = .ok r') (calls : List Spec) :
    r.accepted (s :: calls) = s :: r'.accepted calls := by rw [accepted, h]

/-- A call is refused, or puts a command with a new name last. -/
theorem register_cases (r : Registry) (s : Spec) :
    (∃ e, r.register s = .error e) ∨
      (Text.trim s.name.toList ≠ [] ∧ r.place? s.name = none ∧ r.register s = .ok (r.add s)) := by
  by_cases hblank : Text.trim s.name.toList = []
  · exact .inl ⟨_, register_blank hblank⟩
  · cases hplace : r.place? s.name with
    | some i => exact .inl ⟨_, register_taken hblank hplace⟩
    | none => exact .inr ⟨hblank, rfl, register_free hblank hplace⟩

theorem indexed_empty : Indexed empty := by
  intro key i
  simp [empty]

theorem Indexed.place?_eq_none_iff (h : Indexed r) :
    r.place? name = none ↔ ∀ t ∈ r.specs, folded t.name ≠ folded name := by
  constructor
  · intro hnone t ht hname
    obtain ⟨i, hi⟩ := List.getElem?_of_mem ht
    have := (h (folded name) i).mpr ⟨t, hi, hname⟩
    rw [place?, this] at hnone
    cases hnone
  · intro hfree
    cases hplace : r.place? name with
    | none => rfl
    | some i =>
      obtain ⟨t, hi, hname⟩ := (h _ _).mp hplace
      exact absurd hname (hfree t (List.mem_of_getElem? hi))

theorem getElem?_specs_add {i : Nat} : (r.add s).specs[i]? = some t ↔
    r.specs[i]? = some t ∨ (i = r.specs.length ∧ s = t) := by
  rw [Registry.add, List.getElem?_append]
  split
  · rename_i hi
    simp [Nat.ne_of_lt hi]
  · rename_i hi
    rw [List.getElem?_eq_none (Nat.le_of_not_lt hi), List.getElem?_singleton]
    split <;> simp <;> omega

theorem Indexed.add (h : Indexed r) (hfree : r.place? s.name = none) : Indexed (r.add s) := by
  intro key i
  simp only [getElem?_specs_add]
  by_cases hkey : key = folded s.name
  · have hlast : (r.add s).places.lookup key = some r.specs.length := by
      rw [hkey]
      exact List.lookup_cons_self
    rw [hlast, Option.some.injEq]
    constructor
    · rintro rfl
      exact ⟨s, .inr ⟨rfl, rfl⟩, hkey.symm⟩
    · rintro ⟨t, ht | ⟨rfl, -⟩, hname⟩
      · exact absurd (hname.trans hkey) (h.place?_eq_none_iff.mp hfree t (List.mem_of_getElem? ht))
      · rfl
  · have hearlier : (r.add s).places.lookup key = r.places.lookup key := by
      rw [Registry.add, List.lookup_cons, beq_false_of_ne hkey]
    rw [hearlier, h key i]
    constructor
    · rintro ⟨t, ht, hname⟩
      exact ⟨t, .inl ht, hname⟩
    · rintro ⟨t, ht | ⟨-, rfl⟩, hname⟩
      · exact ⟨t, ht, hname⟩
      · exact absurd hname.symm hkey

theorem Indexed.attempt (h : Indexed r) (s : Spec) : Indexed (r.attempt s) := by
  rcases register_cases r s with ⟨e, hrefused⟩ | ⟨-, hfree, hadd⟩
  · rwa [attempt_of_error hrefused]
  · rw [attempt_of_ok hadd]
    exact h.add hfree

theorem Indexed.attempts (h : Indexed r) (calls : List Spec) :
    Indexed (calls.foldl Registry.attempt r) := by
  induction calls generalizing r with
  | nil => exact h
  | cons s calls ih => exact ih (h.attempt s)

theorem named_attempts (h : ∀ s ∈ r.specs, Text.trim s.name.toList ≠ []) (calls : List Spec) :
    ∀ s ∈ (calls.foldl attempt r).specs, Text.trim s.name.toList ≠ [] := by
  induction calls generalizing r with
  | nil => exact h
  | cons s calls ih =>
    refine ih ?_
    rcases register_cases r s with ⟨e, hrefused⟩ | ⟨hname, -, hadd⟩
    · rwa [attempt_of_error hrefused]
    · rw [attempt_of_ok hadd]
      exact List.forall_mem_append.mpr ⟨h, List.forall_mem_singleton.mpr hname⟩

theorem Indexed.lookup?_eq_some_iff (h : Indexed r) :
    r.lookup? name = some s ↔ s ∈ r.specs ∧ folded s.name = folded name := by
  rw [lookup?, Option.bind_eq_some_iff]
  constructor
  · rintro ⟨i, hplace, hs⟩
    obtain ⟨t, ht, hname⟩ := (h _ _).mp hplace
    rw [hs] at ht
    cases ht
    exact ⟨List.mem_of_getElem? hs, hname⟩
  · rintro ⟨hs, hname⟩
    obtain ⟨i, hi⟩ := List.getElem?_of_mem hs
    exact ⟨i, (h _ _).mpr ⟨s, hi, hname⟩, hi⟩

theorem Indexed.lookup?_eq_none_iff (h : Indexed r) :
    r.lookup? name = none ↔ ∀ s ∈ r.specs, folded s.name ≠ folded name := by
  rw [Option.eq_none_iff_forall_ne_some]
  constructor
  · intro hnone s hs hname
    exact hnone s (h.lookup?_eq_some_iff.mpr ⟨hs, hname⟩)
  · intro hfree s hs
    obtain ⟨hmem, hname⟩ := h.lookup?_eq_some_iff.mp hs
    exact hfree s hmem hname

/-- A name leads to one place only. -/
theorem Indexed.pairwise (h : Indexed r) :
    r.specs.Pairwise fun s t => folded s.name ≠ folded t.name := by
  rw [List.pairwise_iff_getElem]
  intro i j hi hj hij hname
  have hfirst := (h _ i).mpr ⟨_, List.getElem?_eq_getElem hi, hname⟩
  have hsecond := (h _ j).mpr ⟨_, List.getElem?_eq_getElem hj, rfl⟩
  rw [hfirst, Option.some.injEq] at hsecond
  omega

theorem Indexed.register_eq_error_iff (h : Indexed r) {e : RegisterError} :
    r.register s = .error e ↔
      (Text.trim s.name.toList = [] ∧ e = .blankName) ∨
      (Text.trim s.name.toList ≠ [] ∧ (∃ t ∈ r.specs, folded t.name = folded s.name) ∧
        e = .duplicate s.name) := by
  by_cases hblank : Text.trim s.name.toList = []
  · simp [register_blank hblank, hblank, eq_comm]
  · cases hplace : r.place? s.name with
    | some i =>
      obtain ⟨t, ht, hname⟩ := (h _ _).mp hplace
      rw [register_taken hblank hplace, Except.error.injEq]
      constructor
      · rintro rfl
        exact .inr ⟨hblank, ⟨t, List.mem_of_getElem? ht, hname⟩, rfl⟩
      · rintro (⟨hnil, -⟩ | ⟨-, -, rfl⟩)
        · exact absurd hnil hblank
        · rfl
    | none =>
      have hfree := h.place?_eq_none_iff.mp hplace
      rw [register_free hblank hplace]
      constructor
      · intro hok
        cases hok
      · rintro (⟨hnil, -⟩ | ⟨-, ⟨t, ht, hname⟩, -⟩)
        · exact absurd hnil hblank
        · exact absurd hname (hfree t ht)

/-! ## Any calls -/

theorem specs_attempts (r : Registry) (calls : List Spec) :
    (calls.foldl attempt r).specs = r.specs ++ r.accepted calls := by
  induction calls generalizing r with
  | nil => simp [accepted]
  | cons s calls ih =>
    rw [List.foldl_cons, ih]
    rcases register_cases r s with ⟨e, hrefused⟩ | ⟨-, -, hadd⟩
    · rw [attempt_of_error hrefused, accepted_of_error hrefused]
    · rw [attempt_of_ok hadd, accepted_of_ok hadd, Registry.add, List.append_assoc]
      rfl

/-- Commands whose names are new to a registry and to each other are all accepted. -/
theorem Indexed.attempts_free (h : Indexed r) {specs : List Spec}
    (hnames : ∀ s ∈ specs, Text.trim s.name.toList ≠ [])
    (hfree : (r.specs ++ specs).Pairwise fun s t => folded s.name ≠ folded t.name) :
    specs.foldl Registry.attempt r = specs.foldl Registry.add r ∧ r.accepted specs = specs := by
  induction specs generalizing r with
  | nil => exact ⟨rfl, rfl⟩
  | cons s rest ih =>
    obtain ⟨hname, hnames⟩ := List.forall_mem_cons.mp hnames
    have hplace : r.place? s.name = none :=
      h.place?_eq_none_iff.mpr fun t ht =>
        (List.pairwise_append.mp hfree).2.2 t ht s List.mem_cons_self
    have hadd := register_free hname hplace
    have hrest : ((r.add s).specs ++ rest).Pairwise fun s t => folded s.name ≠ folded t.name := by
      rwa [Registry.add, List.append_assoc]
    obtain ⟨hall, haccepted⟩ := ih (h.add hplace) hnames hrest
    rw [List.foldl_cons, List.foldl_cons, attempt_of_ok hadd, accepted_of_ok hadd, hall, haccepted]
    exact ⟨rfl, rfl⟩

theorem named_commands : ∀ s ∈ commands, Text.trim s.name.toList ≠ [] := by decide +kernel

theorem registered_commands :
    commands.foldl attempt empty = builtin ∧ empty.accepted commands = commands := by
  have hfree : commands.Pairwise fun s t => folded s.name ≠ folded t.name := by decide +kernel
  exact indexed_empty.attempts_free named_commands hfree

/-- With what a registry begins. -/
def Start (r : Registry) : Prop := r = empty ∨ r = builtin

theorem Start.indexed (h : Start r) (calls : List Spec) : Indexed (calls.foldl attempt r) := by
  refine Indexed.attempts ?_ calls
  rcases h with rfl | rfl
  · exact indexed_empty
  · rw [← registered_commands.1]
    exact indexed_empty.attempts commands

/-- No command of a registry has a blank name. -/
theorem Start.named (h : Start r) (calls : List Spec) :
    ∀ s ∈ (calls.foldl attempt r).specs, Text.trim s.name.toList ≠ [] := by
  refine named_attempts ?_ calls
  rcases h with rfl | rfl
  · exact List.forall_mem_nil _
  · exact named_commands

/-- **What a registry is after any calls.** It begins without commands, or with those of every
console, which are what registering them one by one leaves. A call is refused if its name is blank,
or is taken in any case of its letters, and only then; a refused call changes nothing, and an
accepted one puts its command last. So no two names differ in the case of their letters only, a name
in any case leads to the command of this name if there is one, and the help has one line for each
accepted call, in order. The table of places leads from the name of each command to its place among
the commands, and from nothing else. -/
theorem registered {start : Registry} (hstart : start = empty ∨ start = builtin)
    (calls : List Spec) :
    let r := calls.foldl attempt start
    (∀ s e, r.register s = .error e ↔
      (Text.trim s.name.toList = [] ∧ e = .blankName) ∨
      (Text.trim s.name.toList ≠ [] ∧ (∃ t ∈ r.specs, folded t.name = folded s.name) ∧
        e = .duplicate s.name)) ∧
    (∀ s e, r.register s = .error e → (calls ++ [s]).foldl attempt start = r) ∧
    (∀ s r', r.register s = .ok r' → (calls ++ [s]).foldl attempt start = r' ∧
      r'.specs = r.specs ++ [s]) ∧
    r.specs.Pairwise (fun s t => folded s.name ≠ folded t.name) ∧
    (∀ name s, r.lookup? name = some s ↔ s ∈ r.specs ∧ folded s.name = folded name) ∧
    (∀ name, r.lookup? name = none ↔ ∀ s ∈ r.specs, folded s.name ≠ folded name) ∧
    r.specs = start.specs ++ start.accepted calls ∧
    r.help = start.help ++ (start.accepted calls).map Spec.helpLine ∧
    (∀ key i, r.places.lookup key = some i ↔ ∃ s, r.specs[i]? = some s ∧ folded s.name = key) ∧
    commands.foldl attempt empty = builtin ∧ empty.accepted commands = commands := by
  intro r
  have hindexed : Indexed r := Start.indexed hstart calls
  have hspecs : r.specs = start.specs ++ start.accepted calls := specs_attempts start calls
  have hnext : ∀ s, (calls ++ [s]).foldl attempt start = r.attempt s := fun s => by
    rw [List.foldl_append]
    rfl
  refine ⟨fun s e => hindexed.register_eq_error_iff, fun s e h => ?_, fun s r' h => ?_,
    hindexed.pairwise, fun name s => hindexed.lookup?_eq_some_iff,
    fun name => hindexed.lookup?_eq_none_iff, hspecs, ?_, hindexed, registered_commands⟩
  · rw [hnext, attempt_of_error h]
  · rw [hnext, attempt_of_ok h]
    rcases register_cases r s with ⟨e, hrefused⟩ | ⟨-, -, hadd⟩
    · rw [hrefused] at h
      cases h
    · rw [hadd] at h
      cases h
      exact ⟨rfl, rfl⟩
  · rw [help, hspecs, List.map_append]
    rfl

def greet : Spec := ⟨"Greet", "Say hello", "[name]", false, fun _ => .ok (.echo "hello")⟩

theorem registered_greet :
    let calls := [greet, { greet with name := "GREET" }, { greet with name := "\t" },
      { greet with name := "pLAY" }]
    let r := calls.foldl attempt builtin
    r.help = builtin.help ++ ["Greet [name] - Say hello"] ∧
    r.lookup? "greeT" = some greet ∧ r.lookup? "greeting" = none ∧
    r.register { greet with name := "Status" } = .error (.duplicate "Status") := by
  intro calls r
  have haccepted : builtin.accepted calls = [greet] := rfl
  obtain ⟨herror, -, -, -, hsome, hnone, hspecs, hhelp, -⟩ := registered (.inr rfl) calls
  rw [haccepted, specs_builtin] at hspecs
  rw [haccepted] at hhelp
  refine ⟨hhelp, (hsome _ _).mpr ⟨?_, rfl⟩, (hnone _).mpr ?_, (herror _ _).mpr (.inr ⟨?_, ?_, rfl⟩)⟩
  · rw [hspecs]
    exact List.mem_append_right _ (List.mem_singleton_self greet)
  · rw [hspecs]
    decide +kernel
  · decide
  · rw [hspecs]
    decide +kernel

end Registry

end StagePlay.Console
