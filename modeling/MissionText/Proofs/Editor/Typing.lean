import MissionText.Proofs.Completion.Comma
/-!
# Typing — what a run of keys leaves in a line

Each character that is typed is put in at the cursor, and a comma takes the
place of a space right before it. Character by character that looks back at
what was typed last, but a whole run has a closed form: every ` ,` in it becomes
`,`, from left to right, where a space that stood before the cursor counts as
the beginning of the run. Nothing else before the cursor is altered, and nothing
behind it.
-/

namespace MissionText

open Text

namespace Text

/-- The text with every ` ,` in it replaced by `,`, from left to right. -/
def closedUp : List Char → List Char
  | ' ' :: ',' :: cs => ',' :: closedUp cs
  | c :: cs => c :: closedUp cs
  | [] => []

variable {c : Char}

@[simp] theorem closedUp_nil : closedUp [] = [] := rfl

@[simp] theorem closedUp_comma (cs : List Char) :
    closedUp (' ' :: ',' :: cs) = ',' :: closedUp cs := rfl

/-- Only a space can go. -/
theorem closedUp_cons_of_ne (h : c ≠ ' ') (cs : List Char) :
    closedUp (c :: cs) = c :: closedUp cs := by
  rw [closedUp]
  rintro cs' rfl
  exact absurd rfl h

/-- A space goes only before a comma. -/
theorem closedUp_space (h : c ≠ ',') (cs : List Char) :
    closedUp (' ' :: c :: cs) = ' ' :: closedUp (c :: cs) := by
  rw [closedUp]
  rintro cs' - heq
  exact absurd (List.cons.inj heq).1 h

end Text

namespace Edit

variable {before front after : List Char} {c : Char}

/-- **Any other character is put in** and alters nothing. -/
theorem typeChar_of_ne (h : c = ',' → before.getLast? ≠ some ' ') :
    (ofParts before after).typeChar c = (ofParts (before ++ [c]) after, false) := by
  have hclose : closeUp? (ofParts (before ++ [c]) after).text
      (ofParts (before ++ [c]) after).cursor = none := by
    rw [closeUp?, ofParts, String.toList_ofList, cut_width_append]
    simp only [List.reverse_append, List.reverse_singleton, List.singleton_append]
    split
    · rename_i heq
      obtain ⟨rfl, hrest⟩ := List.cons.inj heq
      rw [List.reverse_eq_cons_iff] at hrest
      exact absurd (by rw [hrest, List.getLast?_concat]) (h rfl)
    · rfl
  rw [typeChar, ofParts, String.toList_ofList, cut_width_append]
  simp only [hclose]

/-- A run of keys is one key after another. -/
theorem type_fst (edit : Edit) (typed : List Char) :
    (edit.type typed).1 = typed.foldl (fun edit c => (edit.typeChar c).1) edit := by
  refine (List.foldl_hom Prod.fst fun run c => ?_).symm
  cases htyped : run.1.typeChar c
  simp only [htyped]

/-- **A run of keys closes up its own commas**, and the first of them behind a
space that stood before the cursor. -/
theorem type_ofParts (typed after : List Char) :
    (∀ before, before.getLast? ≠ some ' ' →
      ((ofParts before after).type typed).1 = ofParts (before ++ closedUp typed) after) ∧
    ∀ front, ((ofParts (front ++ [' ']) after).type typed).1 =
      ofParts (front ++ closedUp (' ' :: typed)) after := by
  simp only [type_fst]
  induction typed with
  | nil => exact ⟨fun before _ => by simp, fun front => rfl⟩
  | cons c typed ih =>
    obtain ⟨hplain, hspace⟩ := ih
    -- a character that is put in is the end of what stands before the cursor next
    have hput (before : List Char) (h : c = ',' → before.getLast? ≠ some ' ') :
        (c :: typed).foldl (fun edit c => (edit.typeChar c).1) (ofParts before after) =
          ofParts (before ++ closedUp (c :: typed)) after := by
      rw [List.foldl_cons, typeChar_of_ne h]
      by_cases hc : c = ' '
      · rw [hc, hspace]
      · rw [hplain _ (by simpa using hc), closedUp_cons_of_ne hc, List.append_assoc]
        rfl
    refine ⟨fun before hbefore => hput before fun _ => hbefore, fun front => ?_⟩
    by_cases hc : c = ','
    · rw [hc, List.foldl_cons, typeChar_comma, hplain _ (by simp), closedUp_comma,
        List.append_assoc]
      rfl
    · rw [hput _ fun hcomma => absurd hcomma hc, closedUp_space hc, List.append_assoc]
      rfl

/-- **Typing closes up what is typed.** With the cursor between two parts of a
text, a string that is typed there ends up before the cursor with every ` ,` in
it replaced by `,`. If a space stands right before the cursor, it is replaced
along with a comma that is typed first; nothing else that was there is altered. -/
theorem typing_closes_up (before after typed : String) :
    (before.toList.getLast? ≠ some ' ' →
      (type ⟨before ++ after, before.utf8ByteSize⟩ typed.toList).1 =
        ofParts (before.toList ++ closedUp typed.toList) after.toList) ∧
    ∀ front, before = front ++ " " →
      (type ⟨before ++ after, before.utf8ByteSize⟩ typed.toList).1 =
        ofParts (front.toList ++ closedUp (' ' :: typed.toList)) after.toList := by
  have hparts : (⟨before ++ after, before.utf8ByteSize⟩ : Edit) =
      ofParts before.toList after.toList := by
    rw [ofParts, width_toList, ← String.toList_append, String.ofList_toList]
  obtain ⟨hplain, hspace⟩ := type_ofParts typed.toList after.toList
  rw [hparts]
  refine ⟨hplain before.toList, fun front hfront => ?_⟩
  rw [hfront, String.toList_append]
  exact hspace front.toList

/-- Runs of spaces and commas behind a character of two bytes, and behind a space
that was there before. -/
theorem typing_closes_up_runs :
    (type ⟨"é 2:00", 2⟩ " , ,,  ,é".toList).1 = ⟨"é,,, ,é 2:00", 9⟩ ∧
      (type ⟨"Wires  2:00", 6⟩ ",,Ke ,".toList).1 = ⟨"Wires,,Ke, 2:00", 10⟩ := by
  have hletter := (typing_closes_up "é" " 2:00" " , ,,  ,é").1 (by decide)
  have hspace := (typing_closes_up "Wires " " 2:00" ",,Ke ,").2 "Wires" (by decide)
  exact ⟨hletter, hspace⟩

end Edit

end MissionText
