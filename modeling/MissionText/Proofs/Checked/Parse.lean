import MissionText.Checked.Parse
import MissionText.Proofs.Checked.Scan
import MissionText.Proofs.Text.Casing
/-!
# Checked parsing succeeds

A keyword and a text that it is equal to in any ASCII case are equally wide,
as an ASCII letter takes one byte in either case. So a text is cut after the
keyword where it is cut after as many characters.
-/

namespace MissionText.Checked

open Text

variable {keyword : String} {as bs : List Char}

/-! ## Keywords -/

/-- **Texts that are one keyword** are equally long and equally wide. -/
theorem width_eq_of_sameKeyword (h : sameKeyword as bs = true) :
    bs.length = as.length ∧ width bs = width as := by
  have hmap : as.map Char.toLower = bs.map Char.toLower := beq_iff_eq.1 h
  constructor
  · rw [← List.length_map (f := Char.toLower), ← hmap, List.length_map]
  · rw [← width_map_of utf8Size_toLower, ← hmap, width_map_of utf8Size_toLower]

/-- **The text after a keyword** begins at a boundary. -/
theorem afterKeyword_eq (keyword : String) (list : List Char) :
    afterKeyword keyword list = .ok (afterKeyword? keyword list) := by
  rw [afterKeyword, afterKeyword?]
  have hlist := List.take_append_drop keyword.toList.length list
  cases hsame : sameKeyword keyword.toList (list.take keyword.toList.length) with
  | true =>
    obtain ⟨-, hwidth⟩ := width_eq_of_sameKeyword hsame
    have hcut : cut? list (width keyword.toList) = some (list.take keyword.toList.length,
        list.drop keyword.toList.length) := by
      conv_lhs => rw [← hlist, ← hwidth]
      exact cut?_append ..
    have hafter : after list (width keyword.toList) = .ok (list.drop keyword.toList.length) := by
      rw [after, cut, hcut]
      rfl
    simp only [hcut, hsame, hafter]
    rfl
  | false =>
    cases hcut : cut? list (width keyword.toList) with
    | none => rfl
    | some halves =>
      obtain ⟨head, tail⟩ := halves
      obtain ⟨rfl, -⟩ := append_of_cut? hcut
      -- the text before the cut is no keyword, or it would be as long as one
      have hhead : sameKeyword keyword.toList head = false := by
        refine Bool.eq_false_iff.2 fun hhead => ?_
        obtain ⟨hlength, -⟩ := width_eq_of_sameKeyword hhead
        rw [← hlength, List.take_left, hhead] at hsame
        cases hsame
      simp only [hhead]
      rfl

theorem profileReference_eq (list : List Char) :
    profileReference list = .ok (profileReference? list) := by
  rw [profileReference, profileReference?, afterKeyword_eq, ok_bind]
  cases hsolvable : afterKeyword? ModuleKind.solvable.profileKeyword list with
  | some name => simp only [hsolvable, Option.map_some, Option.some_or, pure_eq_ok]
  | none =>
    simp only [hsolvable, afterKeyword_eq, ok_bind, Option.map_none, Option.none_or, pure_eq_ok]

/-! ## Pools and lines -/

/-- A list stands for something. -/
theorem resolveList_eq (context : Context) (list : List Char) :
    resolveList context list = .ok (context.resolveList list) := by
  rw [resolveList, Context.resolveList]
  cases Category.ofId? (String.ofList list) with
  | some category => rfl
  | none =>
    simp only [profileReference_eq, ok_bind]
    cases profileReference? list <;> rfl

/-- **Every token is taken in.** -/
theorem add_eq (context : Context) (draft : Draft) (token : Token) :
    add context draft token = .ok (draft.add context token) := by
  obtain ⟨span, kind⟩ := token
  cases kind with
  | pool pool =>
    simp only [add, resolveList_eq, ok_bind]
    rfl
  | _ => rfl

/-- **All tokens are taken in.** -/
theorem foldlM_add (context : Context) (tokens : List Token) (draft : Draft) :
    tokens.foldlM (add context) draft = .ok (tokens.foldl (Draft.add context) draft) := by
  induction tokens generalizing draft with
  | nil => rfl
  | cons token tokens ih => rw [List.foldlM_cons, add_eq, ok_bind, ih, List.foldl_cons]

/-- **Checked parsing is parsing.** -/
theorem parse_eq (matcher : Matcher) (context : Context) (text : String) :
    parse matcher context text = .ok (Mission.parse context text) := by
  rw [parse, scan_eq, ok_bind, Mission.parse, Mission.read, ← Scan.ofText]
  simp only [foldlM_add, ok_bind, pure_eq_ok]
  split <;> rfl

end MissionText.Checked
