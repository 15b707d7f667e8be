import MissionText.Checked.Scan
import MissionText.Mission.Draft
/-!
# Checked parsing

A line is scanned, and its tokens are taken into a draft. Of a pool, the name
of a profile is cut off after the keyword before it, once the keyword has been
looked at in a beginning of the list that exists.
-/

namespace MissionText

/-- Take in a pool whose list stands for something. -/
def Draft.addResolved (draft : Draft) (token : PoolToken) (resolution : Resolution) : Draft :=
  let count := token.count.getD 1
  let counted := draft.reportIf (count == 0) .invalidPoolCount
  { counted with
    problems := counted.problems ++ resolution.problems
    pools := counted.pools ++ [⟨count, resolution.contents⟩]
    anySolvable := counted.anySolvable || resolution.solvable }

namespace Checked

/-- The text after a keyword, if the text begins with it in any ASCII case. -/
def afterKeyword (keyword : String) (list : List Char) : Checked (Option (List Char)) :=
  match Text.cut? list (Text.width keyword.toList) with
  | none => return none
  | some (head, _) =>
    if Text.sameKeyword keyword.toList head then
      some <$> after list (Text.width keyword.toList)
    else return none

/-- The kind and the name in a reference to a profile. -/
def profileReference (list : List Char) : Checked (Option (ModuleKind × String)) := do
  match ← afterKeyword ModuleKind.solvable.profileKeyword list with
  | some name => return some (.solvable, String.ofList name)
  | none =>
    let name ← afterKeyword ModuleKind.needy.profileKeyword list
    return name.map fun name => (.needy, String.ofList name)

/-- What the list of a pool stands for. -/
def resolveList (context : Context) (list : List Char) : Checked Resolution :=
  match Category.ofId? (String.ofList list) with
  | some category => return ⟨.category category, [], category.kind == .solvable⟩
  | none => do
    match ← profileReference list with
    | some (kind, name) => return context.resolveProfile kind name
    | none => return context.resolveIds (identifiersOf list)

/-- Take in a token. -/
def add (context : Context) (draft : Draft) (token : Token) : Checked Draft :=
  match token.kind with
  | .time time => return draft.addTime time.total
  | .strikes count => return draft.addStrikes count
  | .setting setting => return draft.addSetting context setting
  | .pool pool => do
    let resolution ← resolveList context pool.list
    return draft.addResolved pool resolution

/-- The mission that a line describes, or all that is wrong with it. -/
def parse (matcher : Matcher) (context : Context) (text : String) :
    Checked (Except (List Diagnostic) Mission) := do
  let scan ← scan matcher text.toList
  if scan.covers text then
    let draft ← scan.tokens.foldlM (add context) {}
    return draft.finish context
  else return .error [.syntaxError]

end Checked

end MissionText
