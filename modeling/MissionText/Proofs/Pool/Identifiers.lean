import MissionText.Proofs.Text.CommaList
/-!
# Identifiers — a list at its separators

A list falls into two at any separator (`identifiersOf_append`), and the blanks
around it belong to its first and last identifier, which lose theirs anyway
(`identifiersOf_trim`).
-/

namespace MissionText

open Text

variable {as bs cs gap : List Char} {c : Char}

theorem isSeparator_of_isBlank (h : isBlank c = true) : isSeparator c = false := by
  rw [Bool.eq_false_iff]
  intro hsep
  rcases isSeparator_iff.1 hsep with rfl | rfl <;> revert h <;> decide

/-! ## Blanks at the ends -/

theorem trim_blank_append (hgap : Blank gap) : trim (gap ++ cs) = trim cs := by
  rw [trim, trim, List.dropWhile_append_of_pos hgap]

theorem trim_append_blank (hgap : Blank gap) : trim (cs ++ gap) = trim cs := by
  have hreverse : ∀ d ∈ gap.reverse, isBlank d = true := fun d hd =>
    hgap d (List.mem_reverse.1 hd)
  rw [trim, trim, List.dropWhile_append]
  split
  · rename_i hnil
    have hcs : cs.dropWhile isBlank = [] := by simpa using hnil
    rw [hcs, List.dropWhile_eq_nil_iff.2 hgap]
  · rw [List.reverse_append, List.dropWhile_append_of_pos hreverse]

/-- A text is what trimming leaves of it, with blanks around. -/
theorem exists_trim_append (cs : List Char) :
    ∃ front back, Blank front ∧ Blank back ∧ cs = front ++ (trim cs ++ back) := by
  have hfront : cs = cs.takeWhile isBlank ++ cs.dropWhile isBlank :=
    List.takeWhile_append_dropWhile.symm
  have hback := List.takeWhile_append_dropWhile (p := isBlank)
    (l := (cs.dropWhile isBlank).reverse)
  have hreverse := congrArg List.reverse hback
  rw [List.reverse_append, List.reverse_reverse] at hreverse
  refine ⟨cs.takeWhile isBlank, ((cs.dropWhile isBlank).reverse.takeWhile isBlank).reverse,
    fun d hd => List.mem_takeWhile_imp hd,
    fun d hd => List.mem_takeWhile_imp (List.mem_reverse.1 hd), ?_⟩
  rw [trim, hreverse]
  exact hfront

/-! ## Separators -/

/-- **A list falls into two at a separator.** -/
theorem identifiersOf_append (hsep : isSeparator c = true) (as bs : List Char) :
    identifiersOf (as ++ c :: bs) = identifiersOf as ++ identifiersOf bs := by
  rw [identifiersOf, List.splitOnP_append_cons as bs hsep, List.map_append]
  rfl

/-- Without a separator a list is one identifier. -/
theorem identifiersOf_of_plain (h : ∀ c ∈ cs, isSeparator c = false) :
    identifiersOf cs = [String.ofList (trim cs)] := by
  rw [identifiersOf, List.splitOnP_eq_singleton h]
  rfl

theorem identifiersOf_blank_append (hgap : Blank gap) :
    identifiersOf (gap ++ cs) = identifiersOf cs := by
  have hcs := List.takeWhile_append_dropWhile (p := fun d => !isSeparator d) (l := cs)
  have hplain : ∀ d ∈ cs.takeWhile fun d => !isSeparator d, isSeparator d = false := by
    intro d hd
    simpa using List.mem_takeWhile_imp hd
  have hgapPlain : ∀ d ∈ gap ++ cs.takeWhile fun d => !isSeparator d, isSeparator d = false := by
    intro d hd
    rcases List.mem_append.1 hd with hd | hd
    · exact isSeparator_of_isBlank (hgap d hd)
    · exact hplain d hd
  -- the blanks are those of the first identifier
  have hhead := List.head?_dropWhile_not (fun d => !isSeparator d) cs
  cases hdrop : cs.dropWhile fun d => !isSeparator d with
  | nil =>
    rw [hdrop, List.append_nil] at hcs
    rw [hcs] at hplain hgapPlain
    rw [identifiersOf_of_plain hgapPlain, identifiersOf_of_plain hplain, trim_blank_append hgap]
  | cons sep rest =>
    rw [hdrop] at hcs hhead
    have hsep : isSeparator sep = true := by simpa using hhead
    rw [← hcs, ← List.append_assoc, identifiersOf_append hsep, identifiersOf_append hsep,
      identifiersOf_of_plain hgapPlain, identifiersOf_of_plain hplain, trim_blank_append hgap]

theorem identifiersOf_append_blank (hgap : Blank gap) :
    identifiersOf (cs ++ gap) = identifiersOf cs := by
  have hcs := splitAfterLast_append isSeparator cs
  have hplain := not_of_mem_splitAfterLast isSeparator cs
  have hseparated := getLast?_splitAfterLast isSeparator cs
  generalize splitAfterLast isSeparator cs = parts at *
  obtain ⟨front, last⟩ := parts
  simp only at hcs hplain hseparated
  have hgapPlain : ∀ d ∈ last ++ gap, isSeparator d = false := by
    intro d hd
    rcases List.mem_append.1 hd with hd | hd
    · exact hplain d hd
    · exact isSeparator_of_isBlank (hgap d hd)
  -- the blanks are those of the last identifier
  rcases List.eq_nil_or_concat front with rfl | ⟨more, sep, rfl⟩
  · rw [← hcs, List.nil_append, identifiersOf_of_plain hgapPlain, identifiersOf_of_plain hplain,
      trim_append_blank hgap]
  · have hsep : isSeparator sep = true := hseparated sep (by simp)
    have hassoc (tail : List Char) : more.concat sep ++ tail = more ++ sep :: tail := by simp
    rw [← hcs, List.append_assoc, hassoc, hassoc, identifiersOf_append hsep,
      identifiersOf_append hsep, identifiersOf_of_plain hgapPlain, identifiersOf_of_plain hplain,
      trim_append_blank hgap]

/-- **The blanks around a list do not matter.** -/
theorem identifiersOf_trim (cs : List Char) : identifiersOf (trim cs) = identifiersOf cs := by
  obtain ⟨front, back, hfront, hback, hcs⟩ := exists_trim_append cs
  calc identifiersOf (trim cs)
      = identifiersOf (trim cs ++ back) := (identifiersOf_append_blank hback).symm
    _ = identifiersOf (front ++ (trim cs ++ back)) := (identifiersOf_blank_append hfront).symm
    _ = identifiersOf cs := by rw [← hcs]

end MissionText
