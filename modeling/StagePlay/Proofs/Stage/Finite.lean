import StagePlay.Proofs.Decimal.Signed
import StagePlay.Proofs.Script.Meaning
import StagePlay.Proofs.Script.Text
import StagePlay.Proofs.Stage.Frame

/-!
# StagePlay.Proofs.Stage.Finite

Actors at finite places.

* `Point.isNaN_distance`: the distance of two finite places is a number, so that it can be compared
  with the collision distance.
* `Snapshot.Sound.legible`: an actor at a finite place is shown with the numbers of its place and
  of its heading, and not with `null`.
* `Stage.Sound`: everybody on a stage is at a finite place, and so will be who is put on it.
-/

namespace StagePlay

open Json (Value consume)
open Json.Reading (Reads Member step)

structure Point.Finite (p : Point) : Prop where
  x : p.x.isFinite = true
  y : p.y.isFinite = true

structure Motion.Finite (m : Motion) : Prop where
  place : m.place.Finite
  heading : m.heading.isFinite = true

theorem Motion.Finite.moveTo {m : Motion} (hm : m.Finite) {p : Point} (hp : p.Finite) :
    (m.moveTo p).Finite := ⟨⟨hp.x, hp.y⟩, hm.heading⟩

/-- The distance of two finite places may be infinite, but it is a number. -/
theorem Point.isNaN_distance {a b : Point} (ha : a.Finite) (hb : b.Finite) :
    (a.distance b).isNaN = false := by
  obtain ⟨sx, hx⟩ := Binary64.signed_sub ha.x hb.x
  obtain ⟨sy, hy⟩ := Binary64.signed_sub ha.y hb.y
  have hsum := Binary64.signed_add (Binary64.signed_mul_self hx) (Binary64.signed_mul_self hy)
  exact Binary64.isNaN_of_signed (Binary64.signed_sqrt hsum)

/-! ## What is shown of an actor -/

namespace Json.Reading

variable [Rounding] {limit depth : Nat}

theorem reads_bool (b : Bool) :
    Reads limit depth (if b then "true".toList else "false".toList) (.bool b) := by
  refine reads_of_deliver fun stack _ => ?_
  cases b with
  | true =>
    show consume (step limit) ⟨stack, .value⟩ ['t', 'r', 'u', 'e'] = _
    rw [consume_cons (t := ⟨stack, .word 'r' ['u', 'e'] (.bool true)⟩) rfl,
      consume_cons (t := ⟨stack, .word 'u' ['e'] (.bool true)⟩) rfl,
      consume_cons (t := ⟨stack, .word 'e' [] (.bool true)⟩) rfl, consume_singleton]
    rfl
  | false =>
    show consume (step limit) ⟨stack, .value⟩ ['f', 'a', 'l', 's', 'e'] = _
    rw [consume_cons (t := ⟨stack, .word 'a' ['l', 's', 'e'] (.bool false)⟩) rfl,
      consume_cons (t := ⟨stack, .word 'l' ['s', 'e'] (.bool false)⟩) rfl,
      consume_cons (t := ⟨stack, .word 's' ['e'] (.bool false)⟩) rfl,
      consume_cons (t := ⟨stack, .word 'e' [] (.bool false)⟩) rfl, consume_singleton]
    rfl

/-- An object of which all members are read, at the start of a value. -/
theorem consume_object {stack : List Frame} {m : Member} {ms : List Member}
    (hroom : stack.length < limit)
    (h : ∀ m' ∈ m :: ms, Reads limit (stack.length + 1) m'.text m'.value) :
    consume (step limit) ⟨stack, .value⟩
        ('{' :: List.intercalate [','] ((m :: ms).map fun m => memberText m.name m.text) ++ ['}'])
      = deliver stack (.object ((m :: ms).map fun m => (m.name, m.value))) := by
  rw [List.cons_append, consume_cons (step_brace (.inl rfl) hroom)]
  exact consume_members (.inl rfl) h

end Json.Reading

namespace Snapshot

open scoped Json.ClosestRounding
open Json.ClosestRounding (readsClosest)

theorem reads_placeText {limit depth : Nat} (hroom : depth < limit) (p : Point) :
    Reads limit depth (placeText p) (.object [("x", numberValue p.x), ("y", numberValue p.y)]) := by
  refine Json.Reading.reads_of_deliver fun stack hs => ?_
  subst hs
  have hmembers : ∀ m ∈ [(⟨"x", numberText p.x, numberValue p.x⟩ : Member),
      ⟨"y", numberText p.y, numberValue p.y⟩], Reads limit (stack.length + 1) m.text m.value := by
    simp [reads_numberText _ _ (readsClosest _)]
  simpa [placeText] using Json.Reading.consume_object hroom hmembers

def speechValue : Option Speech → Value
  | none => .null
  | some s => .object [("kind", .text s.kind.name), ("text", .text s.text)]

theorem reads_speechText {limit depth : Nat} (hroom : depth < limit) (s : Option Speech) :
    Reads limit depth (speechText s) (speechValue s) := by
  cases s with
  | none => exact Json.Reading.reads_null
  | some s =>
    refine Json.Reading.reads_of_deliver fun stack hs => ?_
    subst hs
    have hmembers : ∀ m ∈ [(⟨"kind", Json.quoted s.kind.name, .text s.kind.name⟩ : Member),
        ⟨"text", Json.quoted s.text, .text s.text⟩],
        Reads limit (stack.length + 1) m.text m.value := by
      simp [Json.Reading.reads_quoted]
    simpa [speechText, speechValue] using Json.Reading.consume_object hroom hmembers

/-- The members of the text of an actor. -/
def members (s : Snapshot) : List Member :=
  [⟨"id", Nat.toDigits 10 s.id.number, .number (.integer s.id.number)⟩,
    ⟨"name", Json.quoted s.name, .text s.name⟩,
    ⟨"position", placeText s.motion.place,
      .object [("x", numberValue s.motion.x), ("y", numberValue s.motion.y)]⟩,
    ⟨"heading", numberText s.motion.heading, numberValue s.motion.heading⟩,
    ⟨"visible", if s.visible then "true".toList else "false".toList, .bool s.visible⟩,
    ⟨"speech", speechText s.speech, speechValue s.speech⟩]

/-- A number that is given out, and a finite motion. -/
structure Sound (s : Snapshot) : Prop where
  number : s.id.number ≤ Stage.numberLimit
  motion : s.motion.Finite

theorem text_eq (s : Snapshot) :
    s.text = '{' :: List.intercalate [','] (s.members.map fun m => memberText m.name m.text)
      ++ ['}'] := by
  rw [text, members]
  rfl

theorem consume_text {s : Snapshot} {limit : Nat} (h : s.id.number ≤ Stage.numberLimit)
    (hlimit : 2 ≤ limit) :
    consume (step limit) .start s.text
      = .ended (.object (s.members.map fun m => (m.name, m.value))) := by
  have hnumber : s.id.number < Numeral.capacity 64 := Nat.lt_of_le_of_lt h (by decide)
  have hroom : ([] : List Json.Frame).length < limit := Nat.lt_of_lt_of_le Nat.two_pos hlimit
  have hmembers : ∀ m ∈ s.members, Reads limit 1 m.text m.value := by
    simp only [members, List.forall_mem_cons]
    exact ⟨Json.Reading.reads_number (Json.NumberReading.spells_natural hnumber),
      Json.Reading.reads_quoted _, reads_placeText hlimit _, reads_numberText _ _ (readsClosest _),
      Json.Reading.reads_bool _, reads_speechText hlimit _, List.forall_mem_nil _⟩
  rw [text_eq]
  exact Json.Reading.consume_object hroom hmembers

/-- The text of an actor is that of a value in which its place and its heading are numbers, its
    numbers taken for the closest doubles. -/
def Legible (s : Snapshot) : Prop :=
  ∃ v, consume (step Json.depthLimit) .start s.text = .ended v ∧
    v.field? "position"
      = some (.object [("x", .number (.real s.motion.x)), ("y", .number (.real s.motion.y))]) ∧
    v.field? "heading" = some (.number (.real s.motion.heading))

theorem Sound.legible {s : Snapshot} (h : s.Sound) : s.Legible := by
  refine ⟨_, consume_text h.number (by decide), ?_, ?_⟩
  · have hx : numberValue s.motion.x = .number (.real s.motion.x) := if_pos h.motion.place.x
    have hy : numberValue s.motion.y = .number (.real s.motion.y) := if_pos h.motion.place.y
    simp [members, Value.field?, Json.member?, hx, hy]
  · have hheading : numberValue s.motion.heading = .number (.real s.motion.heading) :=
      if_pos h.motion.heading
    simp [members, Value.field?, Json.member?, hheading]

end Snapshot

/-! ## Stages -/

namespace Stage

/-- Everybody is at a finite place, and so will be who appears. -/
structure Sound (s : Stage) : Prop where
  spawnPoint : s.spawnPoint.Finite
  actors : ∀ a ∈ s.actors, a.toSnapshot.Sound

/-- Whatever two actors meet, their distance can be compared with this one. -/
structure Comparable (distance : Float) (s : Stage) : Prop where
  limit : distance.isNaN = false
  places : ∀ a ∈ s.actors, ∀ b ∈ s.actors,
    (a.motion.place.distance b.motion.place).isNaN = false

variable {s t : Stage} {id : ActorId} {snap : Snapshot}

theorem Sound.comparable (h : s.Sound) {distance : Float} (hd : distance.isFinite = true) :
    s.Comparable distance where
  limit := by simpa using Binary64.not_isNaN hd
  places := fun a ha b hb =>
    Point.isNaN_distance (h.actors a ha).motion.place (h.actors b hb).motion.place

theorem Sound.congr (h : s.Sound) (hpoint : t.spawnPoint = s.spawnPoint)
    (hsame : t.snapshots = s.snapshots) : t.Sound where
  spawnPoint := hpoint ▸ h.spawnPoint
  actors := by
    have hs : ∀ a ∈ s.snapshots, a.Sound := List.forall_mem_map.mpr h.actors
    rw [← hsame] at hs
    exact List.forall_mem_map.mp hs

theorem Sound.collide (h : s.Sound) (distance : Float) : (s.collide distance).1.Sound :=
  h.congr rfl (snapshots_collide s distance)

theorem Sound.write? {f : Actor → Actor} (h : s.Sound) (hw : s.write? id f = some (t, snap))
    (hsnap : snap.Sound) : t.Sound := by
  simp only [Stage.write?, Option.map_eq_some_iff, Prod.mk.injEq] at hw
  obtain ⟨a, -, rfl, rfl⟩ := hw
  refine ⟨h.spawnPoint, fun b hb => ?_⟩
  rcases List.mem_or_eq_of_mem_set hb with hb | rfl
  · exact h.actors b hb
  · exact hsnap

/-- If what is published is sound, so is the stage. -/
theorem Sound.written? {w : Write} (h : s.Sound) (hw : s.written? id w = some (t, snap))
    (hsnap : snap.Sound) : t.Sound := by
  cases w with
  | motion m => exact h.write? (f := fun a => { a with motion := m }) hw hsnap
  | visible v => exact h.write? (f := fun a => { a with visible := v }) hw hsnap
  | speech sp => exact h.write? (f := fun a => { a with speech := sp }) hw hsnap

theorem Sound.snapshot {f : Actor → Actor} (h : s.Sound)
    (hf : ∀ a : Actor, a.toSnapshot.Sound → (f a).toSnapshot.Sound)
    (hw : s.write? id f = some (t, snap)) : snap.Sound := by
  simp only [Stage.write?, Option.map_eq_some_iff, Prod.mk.injEq] at hw
  obtain ⟨a, ha, -, rfl⟩ := hw
  exact hf a (h.actors a (List.mem_of_find?_eq_some ha))

theorem Sound.published {w : Write} (h : s.Sound) (hm : ∀ m, w = .motion m → m.Finite)
    (hw : s.written? id w = some (t, snap)) : snap.Sound := by
  cases w with
  | motion m =>
    exact h.snapshot (f := fun a => { a with motion := m }) (fun a ha => ⟨ha.number, hm m rfl⟩) hw
  | visible v =>
    exact h.snapshot (f := fun a => { a with visible := v })
      (fun a ha => ⟨ha.number, ha.motion⟩) hw
  | speech sp =>
    exact h.snapshot (f := fun a => { a with speech := sp })
      (fun a ha => ⟨ha.number, ha.motion⟩) hw

theorem Sound.place? {p : Point} (h : s.Sound) (hp : p.Finite)
    (hw : s.place? id p = some (t, snap)) : t.Sound ∧ snap.Sound := by
  have hsnap : snap.Sound := h.snapshot (f := fun a => { a with motion := a.motion.moveTo p })
    (fun _ ha => ⟨ha.number, ha.motion.moveTo hp⟩) hw
  exact ⟨h.write? (f := fun a => { a with motion := a.motion.moveTo p }) hw hsnap, hsnap⟩

theorem Sound.spawn (h : s.Sound) (name : Option String) : (s.spawn name).1.Sound where
  spawnPoint := h.spawnPoint
  actors := by
    have hahead : (0 : Float).isFinite = true := by decide
    intro a ha
    rcases List.mem_append.mp ha with ha | ha
    · exact h.actors a ha
    · obtain rfl := List.mem_singleton.mp ha
      exact ⟨Nat.min_le_right .., ⟨h.spawnPoint.x, h.spawnPoint.y⟩, hahead⟩

theorem Sound.remove? (h : s.Sound) (hr : s.remove? id = some t) : t.Sound := by
  unfold Stage.remove? at hr
  split at hr
  · cases hr
    exact ⟨h.spawnPoint, fun a ha => h.actors a (List.mem_filter.mp ha).1⟩
  · cases hr

/-- Editing a script moves nobody. -/
theorem Sound.editScript {α : Type} {f : Script → Except StageError (Script × α)} {answer : α}
    (h : s.Sound) (he : s.editScript id f = .ok (t, answer)) : t.Sound := by
  unfold Stage.editScript at he
  split at he
  · cases he
  · rename_i a ha
    split at he
    · cases he
    · cases he
      exact h.congr rfl (map_update ha rfl)

end Stage

end StagePlay
