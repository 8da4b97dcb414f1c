/-!
# Schedules

A rule runs in some phases of the game, and a symmetric rule is also applied for the rival.
-/

namespace ChessEval

inductive Phase where
  | opening
  | midgame
  | endgame
deriving DecidableEq, Repr

namespace Phase

def all : List Phase :=
  [.opening, .midgame, .endgame]

def tag : Phase → String
  | .opening => "opening"
  | .midgame => "midgame"
  | .endgame => "endgame"

def ofTag? (tag : String) : Option Phase :=
  all.find? fun phase => phase.tag == tag

end Phase

/-- When a rule runs. -/
structure Schedule where
  phases : List Phase
  symmetric : Bool
deriving DecidableEq, Repr

namespace Schedule

/-- The schedule for the phases that a rule names. A rule that names none runs in all of them. -/
def ofPhases (phases : List Phase) (symmetric : Bool) : Schedule :=
  if phases.isEmpty then ⟨Phase.all, symmetric⟩
  else ⟨Phase.all.filter fun phase => phases.contains phase, symmetric⟩

def runsIn (s : Schedule) (phase : Phase) : Bool :=
  s.phases.contains phase

end Schedule

/-- A rule that has been declared. -/
structure RuleEntry where
  name : String
  schedule : Schedule
  line : Nat
deriving DecidableEq, Repr

end ChessEval
