import StagePlay.Stage.Basic

/-!
# StagePlay.Stage.Collision

Collisions. Two actors that are closer than the collision distance exchange their scripts.

A pass visits every pair once: the first actor with each later one in order, then the second with
each later one, and so on. Exchanges happen at once, so that a later pair of the same pass sees
scripts that have been exchanged already. Nothing but scripts changes hands.

* `length_meet`: nobody joins or leaves while an actor meets the ones after it.
-/

namespace StagePlay

structure Swap where
  first : ActorId
  firstName : String
  second : ActorId
  secondName : String
  deriving DecidableEq, Repr

namespace Collision

/-- Whether two actors are closer than the distance. At exactly that distance they are not. -/
def inRange (distance : Float) (a b : Actor) : Bool :=
  a.motion.place.distance b.motion.place < distance

/-- An actor meets the ones after it, in order. -/
def meet (distance : Float) (a : Actor) : List Actor → Actor × List Actor × List Swap
  | [] => (a, [], [])
  | b :: rest =>
    if inRange distance a b then
      let (a', rest', swaps) := meet distance { a with script := b.script } rest
      (a', { b with script := a.script } :: rest', ⟨a.id, a.name, b.id, b.name⟩ :: swaps)
    else
      let (a', rest', swaps) := meet distance a rest
      (a', b :: rest', swaps)

theorem length_meet (distance : Float) (a : Actor) (actors : List Actor) :
    (meet distance a actors).2.1.length = actors.length := by
  induction actors generalizing a with
  | nil => rfl
  | cons b rest ih =>
    rw [meet]
    split <;> simp [ih]

def pass (distance : Float) : List Actor → List Actor × List Swap
  | [] => ([], [])
  | a :: rest =>
    let met := meet distance a rest
    let later := pass distance met.2.1
    (met.1 :: later.1, met.2.2 ++ later.2)
termination_by actors => actors.length
decreasing_by simp [length_meet]

end Collision

def Stage.collide (s : Stage) (distance : Float) : Stage × List Swap :=
  let (actors, swaps) := Collision.pass distance s.actors
  ({ s with actors := actors }, swaps)

end StagePlay
