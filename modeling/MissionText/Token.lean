import MissionText.Text.Lowercase
import MissionText.Text.Offset
import MissionText.Text.Quote

/-!
# Tokens

A mission line is a list of tokens with blanks between them. Each token is one
of four things: a time limit, a strike limit, a setting, or a pool of modules
to draw from. Anything that is not one of the first three is a pool, so every
line has tokens, and whatever is wrong with it is found out later.
-/

namespace MissionText

/-- A stretch of a mission line, in bytes. -/
structure Span where
  start : Nat
  length : Nat
  deriving DecidableEq, Repr

/-- The offset at which a stretch ends. -/
def Span.stop (span : Span) : Nat := span.start + span.length

/-- A time limit, written `hours:minutes:seconds` or `minutes:seconds`. -/
structure TimeToken where
  hours : Option Nat
  minutes : Nat
  seconds : Nat
  deriving DecidableEq, Repr

/-- A time limit in seconds. -/
def TimeToken.total (time : TimeToken) : Nat :=
  time.hours.getD 0 * 3600 + time.minutes * 60 + time.seconds

/-- What a setting sets. -/
inductive SettingName where
  | strikes
  | needyActivationTime
  | widgets
  | noPacing
  | frontOnly
  | factory
  deriving DecidableEq, Repr

namespace SettingName

/-- The names of the settings in the order in which they are listed. -/
def all : List SettingName :=
  [strikes, needyActivationTime, widgets, noPacing, frontOnly, factory]

/-- The keyword of a setting. -/
def keyword : SettingName → String
  | strikes => "strikes"
  | needyActivationTime => "needyactivationtime"
  | widgets => "widgets"
  | noPacing => "nopacing"
  | frontOnly => "frontonly"
  | factory => "factory"

/-- The setting with a keyword, in any ASCII case. -/
def ofKeyword? (keyword : String) : Option SettingName :=
  all.find? fun name => Text.sameKeyword name.keyword.toList keyword.toList

/-- Every setting is found by its keyword. -/
@[simp] theorem ofKeyword?_keyword (name : SettingName) :
    ofKeyword? name.keyword = some name := by
  cases name <;> decide

end SettingName

/-- A setting, written as its keyword or as `keyword:value`. -/
structure SettingToken where
  name : SettingName
  /-- The keyword as typed. -/
  rawName : String
  /-- The text after the colon, if there is one. -/
  rawValue : Option String
  deriving DecidableEq, Repr

/-- The value of a setting. Nothing after the colon is no value. -/
def SettingToken.value? (setting : SettingToken) : Option String :=
  setting.rawValue.filter (· ≠ "")

/-- A pool of modules, written as a list of identifiers with a count before it
or without one. -/
structure PoolToken where
  count : Option Nat
  /-- The list as typed, with its quotes and separators. -/
  idList : String
  /-- The offset of the list in the line. -/
  idListStart : Nat
  deriving DecidableEq, Repr

namespace PoolToken

/-- The list up to its last separator and the identifier after it, which is
the one being typed when the line ends there. -/
def lastId (pool : PoolToken) : List Char × List Char :=
  Text.splitAfterLast Text.isSeparator pool.idList.toList

/-- The offset in the list at which the last identifier starts. -/
def lastIdOffset (pool : PoolToken) : Nat := Text.width pool.lastId.1

/-- The last identifier without its quotes. -/
def stub (pool : PoolToken) : String := String.ofList (Text.unquoted pool.lastId.2)

/-- The offset at which the list ends. -/
def stop (pool : PoolToken) : Nat := pool.idListStart + Text.width pool.idList.toList

end PoolToken

/-- What a token says. -/
inductive TokenKind where
  | time (time : TimeToken)
  | strikes (count : Nat)
  | setting (setting : SettingToken)
  | pool (pool : PoolToken)
  deriving DecidableEq, Repr

/-- A token and where it stands. -/
structure Token where
  span : Span
  kind : TokenKind
  deriving DecidableEq, Repr

/-- The pool that a token is, if it is one. -/
def Token.pool? (token : Token) : Option PoolToken :=
  match token.kind with
  | .pool pool => some pool
  | _ => none

end MissionText
