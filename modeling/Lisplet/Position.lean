/-! Places in a source text, counted from line 1 and column 1. -/
namespace Lisplet

structure Position where
  line : Int
  column : Int
  deriving DecidableEq, Repr

namespace Position

/-- The place of whatever was not read from a source. -/
def nowhere : Position := ⟨0, 0⟩

def start : Position := ⟨1, 1⟩

/-- The place after `c`. Only a line feed starts a line. -/
def next (p : Position) (c : Char) : Position :=
  if c = '\n' then ⟨p.line + 1, 1⟩ else ⟨p.line, p.column + 1⟩

def advance (p : Position) (cs : List Char) : Position := cs.foldl next p

def text (p : Position) : String := toString p.line ++ ":" ++ toString p.column

end Position

end Lisplet
