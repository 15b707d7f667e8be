/-!
# Diagnostics

Everything that can be wrong with a mission line. A line is checked as a whole
and all that is wrong with it is reported together, in the order in which it
was found.
-/

namespace MissionText

/-- One thing that is wrong with a mission line. -/
inductive Diagnostic where
  | syntaxError
  | timeSpecifiedMultipleTimes
  | invalidTimeLimit
  | strikeLimitSpecifiedMultipleTimes
  | invalidStrikeLimit
  | invalidWidgetCount
  | invalidNeedyActivationTime
  | factorySpecifiedMultipleTimes
  | factoryNotEnabled
  | invalidFactoryMode
  | invalidPoolCount
  | unknownProfile (name : String)
  | emptyProfile (name : String)
  | unknownModule (id : String)
  | disabledModule (id : String)
  | noSolvableModules
  | tooManyModules (count max : Nat)
  deriving DecidableEq, Repr

/-- The message shown for a diagnostic. -/
def Diagnostic.message : Diagnostic → String
  | syntaxError => "Syntax error"
  | timeSpecifiedMultipleTimes => "Time specified multiple times"
  | invalidTimeLimit => "Invalid time limit"
  | strikeLimitSpecifiedMultipleTimes => "Strike limit specified multiple times"
  | invalidStrikeLimit => "Invalid strike limit"
  | invalidWidgetCount => "Invalid widget count"
  | invalidNeedyActivationTime => "Invalid needy activation time"
  | factorySpecifiedMultipleTimes => "Factory mode specified multiple times"
  | factoryNotEnabled => "Factory does not seem to be enabled"
  | invalidFactoryMode => "Invalid factory mode"
  | invalidPoolCount => "Invalid module pool count"
  | unknownProfile name => "No profile named '" ++ name ++ "' was found."
  | emptyProfile name => "Profile '" ++ name ++ "' enables no valid modules."
  | unknownModule id => "'" ++ id ++ "' is an unknown module ID."
  | disabledModule id => "'" ++ id ++ "' is disabled."
  | noSolvableModules => "No regular modules"
  | tooManyModules count max =>
    "Too many modules for any bomb casing (" ++ toString count ++ " > " ++ toString max ++ ")."

/-- The messages of some diagnostics, one to a line. -/
def Diagnostic.report (diagnostics : List Diagnostic) : String :=
  "\n".intercalate (diagnostics.map message)

end MissionText
