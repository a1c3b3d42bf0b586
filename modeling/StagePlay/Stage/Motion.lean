import StagePlay.Decimal.NumberStyle

/-!
# StagePlay.Stage.Motion

Places, headings, and the three ways a block changes them.

Headings are degrees: 0 faces along x and 90 along y. Coordinates and headings are doubles, and
each change rounds as doubles do.
-/

namespace StagePlay

structure Point where
  x : Float
  y : Float
  deriving DecidableEq

/-- The Euclidean distance, rounded at each of its five operations. -/
def Point.distance (a b : Point) : Float :=
  let dx := a.x - b.x
  let dy := a.y - b.y
  Float.sqrt (dx * dx + dy * dy)

/-- Where an actor is and which way it faces. -/
structure Motion where
  x : Float
  y : Float
  heading : Float
  deriving DecidableEq

inductive Steering where
  | advance (steps : Float)
  /-- Degrees added to the heading, which is not brought back into one turn. -/
  | turn (degrees : Float)
  /-- A place, whatever the heading. -/
  | goTo (x y : Float)

namespace Motion

def place (m : Motion) : Point := ⟨m.x, m.y⟩

/-- The same heading at another place. -/
def moveTo (m : Motion) (p : Point) : Motion := { m with x := p.x, y := p.y }

def radians (degrees : Float) : Float := degrees * 0.017453292519943295

def steer (m : Motion) : Steering → Motion
  | .advance steps =>
    { m with
      x := m.x + Float.cos (radians m.heading) * steps
      y := m.y + Float.sin (radians m.heading) * steps }
  | .turn degrees => { m with heading := m.heading + degrees }
  | .goTo x y => { m with x := x, y := y }

end Motion

end StagePlay
