/-!
# Palettes

How a piece of a report is painted on a terminal: a control sequence before it
and the one that resets everything after it. Where no colors are wanted a
piece is left as it is.
-/

namespace MissionText

/-- How a piece of a report looks. -/
inductive Paint where
  | dim
  | bold
  | red
  | green
  | yellow
  | blue
  | cyan
  | gray
  deriving DecidableEq, Repr

/-- The number of a look in a control sequence. -/
def Paint.code : Paint → String
  | dim => "2"
  | bold => "1"
  | red => "31"
  | green => "32"
  | yellow => "33"
  | blue => "34"
  | cyan => "36"
  | gray => "90"

/-- Whether reports are painted. -/
structure Palette where
  enabled : Bool
  deriving DecidableEq, Repr

/-- A piece of a report as it is painted. -/
def Palette.paint (palette : Palette) (paint : Paint) (piece : String) : String :=
  if palette.enabled then "\x1b[" ++ paint.code ++ "m" ++ piece ++ "\x1b[0m" else piece

end MissionText
