import StagePlay.Script.Field

/-!
# StagePlay.Script.Palette

The palette: one template block per numbered slot, from which blocks are copied into scripts.

* `slots_setField`: an edit changes neither the slots nor their order.
-/

namespace StagePlay

/-- A template and the number of its slot. -/
structure Template where
  slot : Nat
  command : Command

/-- The templates in the order they are shown. -/
structure Palette where
  templates : List Template

inductive PaletteError where
  | unknownSlot (slot : Nat)
  | field (e : FieldError)
  deriving DecidableEq, Repr

def PaletteError.message : PaletteError → String
  | .unknownSlot slot => "palette has no block in slot " ++ toString slot
  | .field e => e.message

namespace Palette

/-- One template of each kind, with the defaults of its fields, in slots from 1. -/
def initial : Palette where
  templates :=
    [⟨1, .ofSteps Default.steps⟩, ⟨2, .ofDegrees Default.degrees⟩,
      ⟨3, .ofPlace Default.coordinate Default.coordinate⟩, ⟨4, .loop Default.times []⟩,
      ⟨5, .ofSeconds Default.seconds⟩, ⟨6, .speak .say (Default.text .say)⟩,
      ⟨7, .speak .think (Default.text .think)⟩, ⟨8, .appear true⟩, ⟨9, .appear false⟩]

def slots (p : Palette) : List Nat := p.templates.map Template.slot

/-- The block in a slot, to look at or to copy into a script. -/
def block (p : Palette) (slot : Nat) : Except PaletteError Command :=
  match p.templates.find? (·.slot == slot) with
  | some t => .ok t.command
  | none => .error (.unknownSlot slot)

def put (p : Palette) (slot : Nat) (c : Command) : Palette where
  templates := p.templates.map fun t => if t.slot = slot then { t with command := c } else t

def setField (p : Palette) (slot : Nat) (field raw : String) : Except PaletteError Palette :=
  match p.block slot with
  | .error e => .error e
  | .ok c =>
    match c.setField field raw with
    | .error e => .error (.field e)
    | .ok c' => .ok (p.put slot c')

theorem slots_put (p : Palette) (slot : Nat) (c : Command) : (p.put slot c).slots = p.slots := by
  simp only [slots, put, List.map_map]
  apply List.map_congr_left
  intro t _
  simp only [Function.comp]
  split <;> rfl

theorem slots_setField {p p' : Palette} {slot : Nat} {field raw : String}
    (h : p.setField slot field raw = .ok p') : p'.slots = p.slots := by
  unfold setField at h
  split at h
  · simp at h
  · split at h
    · simp at h
    · cases h; exact slots_put ..

end Palette

end StagePlay
