import StagePlay.Proofs.Console.Words
import StagePlay.Proofs.Decimal.Plain

/-!
# StagePlay.Proofs.Console.Typed

Every request can be typed.

The command of a request is named in any case of its letters. Numbers are typed as they are shown,
names, paths and other texts in double quotes, and the JSON of a script as it stands.

* `readAs_natural`, `readAs_real`: numbers are words.
* `nameable_of_folded`: what can stand for the name of a command.
* `line_typed`: a line that types a request asks for it.
-/

namespace StagePlay.Console

open Text (isBlank trimLeft)
open Numeral (Digits capacity)

namespace Request

/-- The name of the command that asks for it. -/
def name : Request → String
  | .help => "help"
  | .echo _ => "echo"
  | .quit => "quit"
  | .actors => "actors"
  | .addActor _ => "add_actor"
  | .removeActor _ => "remove_actor"
  | .select _ => "select"
  | .place _ _ _ => "place"
  | .palette => "palette"
  | .setPalette _ _ _ => "palette_set"
  | .drag _ => "drag"
  | .drop _ => "drop"
  | .setBlock _ _ _ => "set_block"
  | .script => "script"
  | .assign _ => "assign"
  | .load _ => "load"
  | .play => "play"
  | .wait => "wait"
  | .status => "status"

end Request

/-- An argument of a command. -/
inductive Argument where
  | natural (bits n : Nat)
  | real (x : Float)
  | text (s : String)
  /-- A script, as the rest of the line. -/
  | json (s : String)

namespace Argument

def typed : Argument → List Char
  | .natural _ n => Nat.toDigits 10 n
  | .real x => NumberStyle.plain.write x
  | .text s => quotedText s
  | .json s => s.toList

def word : Argument → String
  | .natural _ n => String.ofList (Nat.toDigits 10 n)
  | .real x => String.ofList (NumberStyle.plain.write x)
  | .text s | .json s => s

/-- Numbers fit and are numbers, texts have no double quotes, and the JSON of a script is neither
    empty nor surrounded by blanks. -/
def Typeable : Argument → Prop
  | .natural bits n => n < capacity bits
  | .real x => x.isNaN = false
  | .text s => '"' ∉ s.toList
  | .json s => Solid s.toList

end Argument

namespace Request

def arguments : Request → List Argument
  | .echo text => [.text text]
  | .addActor name => name.toList.map .text
  | .removeActor id | .select id => [.natural 64 id.number]
  | .place id x y => [.natural 64 id.number, .real x, .real y]
  | .setPalette slot field value => [.natural 32 slot, .text field, .text value]
  | .drag slot => [.natural 32 slot]
  | .drop index => [.natural 64 index]
  | .setBlock index field value => [.natural 64 index, .text field, .text value]
  | .assign json => [.json json]
  | .load path => [.text path]
  | .help | .quit | .actors | .palette | .script | .play | .wait | .status => []

def Typeable (r : Request) : Prop := ∀ a ∈ r.arguments, a.Typeable

/-- Whether the rest of the line is the only argument. -/
def isRaw : Request → Bool
  | .assign _ => true
  | _ => false

end Request

/-- A line that types a request: the name of its command in any case, its arguments behind blanks,
    and blanks around it all. -/
inductive Typed (r : Request) : String → Prop where
  | of {before name row after : List Char} :
      Blanks before → folded (String.ofList name) = folded r.name →
      Spaced (r.arguments.map Argument.typed) row → Blanks after →
      Typed r (String.ofList (before ++ (name ++ row) ++ after))

/-! ## Arguments -/

/-- A character of a number, or of the name of one. -/
def isNumeric (c : Char) : Bool := c.isDigit || ['.', '-', 'i', 'n', 'f'].contains c

theorem bare_of_isNumeric {c : Char} (h : isNumeric c = true) : c ≠ '"' ∧ isBlank c = false := by
  refine ⟨?_, ?_⟩
  · rintro rfl
    cases h
  · rw [← Bool.not_eq_true]
    intro hblank
    simp only [isNumeric, Char.isDigit, Bool.or_eq_true, Bool.and_eq_true, decide_eq_true_eq,
      List.contains_cons, List.contains_nil, Bool.false_eq_true, or_false, beq_iff_eq] at h
    rcases h with hdigit | h
    · have hlow : 48 ≤ c.toNat := hdigit.1
      have hhigh : c.toNat ≤ 57 := hdigit.2
      simp only [isBlank, Bool.or_eq_true, Bool.and_eq_true, decide_eq_true_eq, beq_iff_eq]
        at hblank
      omega
    · rcases h with rfl | rfl | rfl | rfl | rfl <;> cases hblank

theorem isNumeric_of_isDigit {c : Char} (h : c.isDigit = true) : isNumeric c = true := by
  rw [isNumeric, h, Bool.true_or]

theorem readAs_natural (n : Nat) :
    ReadAs (Nat.toDigits 10 n) (String.ofList (Nat.toDigits 10 n)) :=
  readAs_bare Nat.toDigits_ne_nil fun c hc =>
    bare_of_isNumeric (isNumeric_of_isDigit (Numeral.digits_toDigits n c hc))

theorem readAs_signed (negative : Bool) {cs : List Char} (hne : cs ≠ [])
    (h : ∀ c ∈ cs, isNumeric c = true) :
    ReadAs (Numeral.signed negative cs) (String.ofList (Numeral.signed negative cs)) := by
  cases negative with
  | false => exact readAs_bare hne fun c hc => bare_of_isNumeric (h c hc)
  | true =>
    refine readAs_bare (List.cons_ne_nil _ _) (List.forall_mem_cons.mpr ⟨?_, fun c hc => ?_⟩)
    · exact bare_of_isNumeric rfl
    · exact bare_of_isNumeric (h c hc)

theorem readAs_real {x : Float} (h : x.isNaN = false) :
    ReadAs (NumberStyle.plain.write x) (String.ofList (NumberStyle.plain.write x)) := by
  rcases NumberStyle.write_cases h with ⟨-, htext⟩ | ⟨whole, part, htext, hwhole, hne, hpart, -⟩
  · rw [htext]
    exact readAs_signed _ (by simp) (List.all_eq_true.mp rfl)
  · rw [htext]
    refine readAs_signed _ (List.append_ne_nil_of_left_ne_nil hne _) fun c hc => ?_
    rcases List.mem_append.mp hc with hc | hc
    · exact isNumeric_of_isDigit (hwhole c hc)
    · split at hc
      · cases hc
      · rcases List.mem_cons.mp hc with rfl | hc
        · rfl
        · exact isNumeric_of_isDigit (hpart c hc)

/-- An argument is one word, unless it is the rest of the line. -/
theorem Argument.readAs {a : Argument} (h : a.Typeable) (hword : ∀ s, a ≠ .json s) :
    ReadAs a.typed a.word := by
  cases a with
  | natural bits n => exact readAs_natural n
  | real x => exact readAs_real h
  | text s => exact readAs_quoted h
  | json s => exact absurd rfl (hword s)

theorem Argument.solid {a : Argument} (h : a.Typeable) : Solid a.typed := by
  cases a with
  | natural bits n => exact (readAs_natural n).solid
  | real x => exact (readAs_real h).solid
  | text s => exact (readAs_quoted h).solid
  | json s => exact h

/-! ## Names -/

theorem name_mem_names (r : Request) : r.name ∈ Registry.builtin.names := by
  cases r <;> simp [Request.name, Registry.names, Registry.specs_builtin, Registry.commands]

theorem nameable_of_mem_names {name : String} (h : name ∈ Registry.builtin.names) :
    Nameable name.toList := by
  have hall : Registry.builtin.names.all (fun name => !name.toList.isEmpty &&
      name.toList.all (!isBlank ·) && name.toList.head? != some '#') = true := rfl
  have hname := List.all_eq_true.mp hall name h
  simp only [Bool.and_eq_true, Bool.not_eq_true', List.isEmpty_eq_false_iff, bne_iff_ne] at hname
  exact nameable_of_all hname.1.1 hname.1.2 hname.2

/-- A name of a command in any case of its letters. -/
theorem nameable_of_folded {name : List Char} {r : Request}
    (h : folded (String.ofList name) = folded r.name) : Nameable name := by
  have hname := nameable_of_mem_names (name_mem_names r)
  rwa [← nameable_congr h, String.toList_ofList] at hname

/-! ## Requests -/

theorem natural_word (usage what kind : String) {bits n : Nat}
    (h : (Argument.natural bits n).Typeable) :
    ArgumentReader.natural usage what kind bits (Argument.natural bits n).word = .ok n := by
  rw [ArgumentReader.natural, Argument.word, String.toList_ofList, Numeral.nat?_toDigits h]

theorem actorId_word (usage : String) {id : ActorId}
    (h : (Argument.natural 64 id.number).Typeable) :
    ArgumentReader.actorId usage (Argument.natural 64 id.number).word = .ok id := by
  rw [ArgumentReader.actorId, natural_word _ _ _ h]
  rfl

theorem coordinate_word (usage what : String) {x : Float} (h : (Argument.real x).Typeable) :
    ArgumentReader.coordinate usage what (Argument.real x).word = .ok x := by
  rw [ArgumentReader.coordinate, Argument.word, String.toList_ofList, NumberStyle.float?_write h]

theorem exists_of_isRaw {r : Request} (h : r.isRaw = true) : ∃ json, r = .assign json := by
  cases r with
  | assign json => exact ⟨json, rfl⟩
  | _ => cases h

theorem isRaw_of_json {r : Request} {json : String} (h : .json json ∈ r.arguments) :
    r.isRaw = true := by
  cases r with
  | assign json => rfl
  | _ => simp [Request.arguments] at h

/-- The command of a request makes the request of its arguments. -/
theorem exists_spec {r : Request} (h : r.Typeable) :
    ∃ s, Registry.builtin.lookup? r.name = some s ∧ s.rawTail = r.isRaw ∧
      s.read (r.arguments.map Argument.word) = .ok r := by
  cases r with
  | help | quit | actors | palette | script | play | wait | status => exact ⟨_, rfl, rfl, rfl⟩
  | echo text => exact ⟨_, show Registry.builtin.lookup? "echo" = _ from rfl, rfl, rfl⟩
  | assign json => exact ⟨_, show Registry.builtin.lookup? "assign" = _ from rfl, rfl, rfl⟩
  | load path => exact ⟨_, show Registry.builtin.lookup? "load" = _ from rfl, rfl, rfl⟩
  | addActor name =>
    refine ⟨_, show Registry.builtin.lookup? "add_actor" = _ from rfl, rfl, ?_⟩
    cases name <;> rfl
  | removeActor id =>
    refine ⟨_, show Registry.builtin.lookup? "remove_actor" = _ from rfl, rfl, ?_⟩
    show (ArgumentReader.actorId _ _).map _ = _
    rw [actorId_word _ (h _ List.mem_cons_self)]
    rfl
  | select id =>
    refine ⟨_, show Registry.builtin.lookup? "select" = _ from rfl, rfl, ?_⟩
    show (ArgumentReader.actorId _ _).map _ = _
    rw [actorId_word _ (h _ List.mem_cons_self)]
    rfl
  | place id x y =>
    refine ⟨_, show Registry.builtin.lookup? "place" = _ from rfl, rfl, ?_⟩
    obtain ⟨hid, hrest⟩ := List.forall_mem_cons.mp h
    obtain ⟨hx, hrest⟩ := List.forall_mem_cons.mp hrest
    obtain ⟨hy, -⟩ := List.forall_mem_cons.mp hrest
    simp only [Request.arguments, List.map_cons, List.map_nil, ArgumentReader.three,
      actorId_word _ hid, coordinate_word _ _ hx, coordinate_word _ _ hy]
    rfl
  | setPalette slot field value =>
    refine ⟨_, show Registry.builtin.lookup? "palette_set" = _ from rfl, rfl, ?_⟩
    show (ArgumentReader.slot _ _).map _ = _
    rw [ArgumentReader.slot, natural_word _ _ _ (h _ List.mem_cons_self)]
    rfl
  | drag slot =>
    refine ⟨_, show Registry.builtin.lookup? "drag" = _ from rfl, rfl, ?_⟩
    show (ArgumentReader.slot _ _).map _ = _
    rw [ArgumentReader.slot, natural_word _ _ _ (h _ List.mem_cons_self)]
    rfl
  | drop index =>
    refine ⟨_, show Registry.builtin.lookup? "drop" = _ from rfl, rfl, ?_⟩
    show (ArgumentReader.index _ _).map _ = _
    rw [ArgumentReader.index, natural_word _ _ _ (h _ List.mem_cons_self)]
    rfl
  | setBlock index field value =>
    refine ⟨_, show Registry.builtin.lookup? "set_block" = _ from rfl, rfl, ?_⟩
    show (ArgumentReader.index _ _).map _ = _
    rw [ArgumentReader.index, natural_word _ _ _ (h _ List.mem_cons_self)]
    rfl

theorem arguments_typed {r : Request} (h : r.Typeable) {row : List Char}
    (hrow : Spaced (r.arguments.map Argument.typed) row) {s : Spec} (hraw : s.rawTail = r.isRaw) :
    Registry.arguments s (trimLeft row) = .ok (r.arguments.map Argument.word) := by
  cases hr : r.isRaw with
  | true =>
    obtain ⟨json, rfl⟩ := exists_of_isRaw hr
    cases hrow with
    | cons hgap hne hrest =>
      cases hrest
      have hjson : Solid json.toList := h _ List.mem_cons_self
      have hargs := arguments_raw (hraw.trans hr) hgap hjson
      rwa [String.ofList_toList] at hargs
  | false =>
    have hreads : List.Forall₂ ReadAs (r.arguments.map Argument.typed)
        (r.arguments.map Argument.word) := by
      rw [List.forall₂_map_left_iff, List.forall₂_map_right_iff]
      refine List.forall₂_same.mpr fun a ha => Argument.readAs (h a ha) ?_
      rintro json rfl
      rw [isRaw_of_json ha] at hr
      cases hr
    rw [Registry.arguments, hraw, hr, if_neg Bool.false_ne_true, words_trimLeft,
      words_spaced hrow hreads]

/-- **Every request can be typed.** A line names the command of a request, in any case of its
letters, and gives the arguments behind it: numbers as they are shown, texts in double quotes, the
JSON of a script as it stands. There may be any blanks between and around them, and in the texts.
Then the line asks for just this request: each number is read back, each text is kept to the last
blank, and an empty one is an argument too. -/
theorem line_typed {r : Request} (h : r.Typeable) {line : String} (hline : Typed r line) :
    Registry.builtin.line line = .request r := by
  obtain ⟨s, hlookup, hraw, hread⟩ := exists_spec h
  cases hline with
  | of hbefore hname hrow hafter =>
    have hsolid : ∀ text ∈ r.arguments.map Argument.typed, Solid text := by
      rw [List.forall_mem_map]
      exact fun a ha => Argument.solid (h a ha)
    have hargs := arguments_typed h hrow hraw
    rw [← lookup?_congr _ hname] at hlookup
    exact line_spaced hbefore (nameable_of_folded hname) hrow hsolid hafter hlookup hargs hread

/-- A place infinitely far to the right, in capitals. -/
def distant : Request := .place ⟨7⟩ (-2.5) (Binary64.ofPattern false Binary64.infinity)

theorem typed_distant : Typed distant "  PLACE 7\t-2.5  inf" := by
  have hx : NumberStyle.plain.write (-2.5) = "-2.5".toList := by decide +kernel
  have hy : NumberStyle.plain.write (Binary64.ofPattern false Binary64.infinity) =
      "inf".toList := by decide +kernel
  have hrow : Spaced (distant.arguments.map Argument.typed) " 7\t-2.5  inf".toList := by
    simp only [distant, Request.arguments, List.map_cons, List.map_nil, Argument.typed, hx, hy]
    have hinf : Spaced ["inf".toList] "  inf".toList :=
      @Spaced.cons [' ', ' '] _ [] _ (List.all_eq_true.mp rfl) (List.cons_ne_nil _ _) .nil
    have hnumbers : Spaced ["-2.5".toList, "inf".toList] "\t-2.5  inf".toList :=
      @Spaced.cons ['\t'] _ _ _ (List.all_eq_true.mp rfl) (List.cons_ne_nil _ _) hinf
    exact @Spaced.cons [' '] _ _ _ (List.all_eq_true.mp rfl) (List.cons_ne_nil _ _) hnumbers
  have hname : folded (String.ofList "PLACE".toList) = folded distant.name := by decide +kernel
  exact @Typed.of distant [' ', ' '] "PLACE".toList _ [] (List.all_eq_true.mp rfl) hname hrow
    (List.forall_mem_nil _)

theorem line_typed_distant :
    distant.Typeable ∧ Typed distant "  PLACE 7\t-2.5  inf" ∧
      Registry.builtin.line "  PLACE 7\t-2.5  inf" = .request distant := by
  have hid : 7 < capacity 64 := by decide
  have hx : (-2.5 : Float).isNaN = false := by decide +kernel
  have hy : (Binary64.ofPattern false Binary64.infinity).isNaN = false := by decide +kernel
  have htypeable : distant.Typeable := by
    simp only [Request.Typeable, distant, Request.arguments, List.forall_mem_cons]
    exact ⟨hid, hx, hy, List.forall_mem_nil _⟩
  exact ⟨htypeable, typed_distant, line_typed htypeable typed_distant⟩

end StagePlay.Console
