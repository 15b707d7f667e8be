/-!
# Ordered lists

Sets and maps are kept as lists in strictly ascending order of a comparison,
so two of them hold the same values exactly when they are the same list, and
what is shown is shown in order. `Ordered.insert` puts a value in its place
and takes out the value that compares equal to it. The order survives every
insertion (`pairwise_insert`), and membership is what one expects
(`mem_insert`).
-/

namespace MissionText.Ordered

variable {α : Type} {cmp : α → α → Ordering}

/-- The list with `a` at its place, instead of the value equal to it if there
was one. -/
def insert (cmp : α → α → Ordering) (a : α) : List α → List α
  | [] => [a]
  | b :: bs =>
    match cmp a b with
    | .lt => a :: b :: bs
    | .eq => a :: bs
    | .gt => b :: insert cmp a bs

/-- The values of a list in order. Of values that compare equal the last
stays. -/
def ofList (cmp : α → α → Ordering) (as : List α) : List α :=
  as.foldl (fun held a => insert cmp a held) []

/-- Strictly ascending order. -/
def Ascending (cmp : α → α → Ordering) (as : List α) : Prop :=
  as.Pairwise fun a b => cmp a b = .lt

theorem mem_of_mem_insert {a x : α} {as : List α} (h : x ∈ insert cmp a as) :
    x = a ∨ x ∈ as := by
  induction as with
  | nil => simpa [insert] using h
  | cons b bs ih =>
    rw [insert] at h
    split at h
    · simpa using h
    · rcases List.mem_cons.1 h with rfl | h
      · exact .inl rfl
      · exact .inr (List.mem_cons_of_mem _ h)
    · rcases List.mem_cons.1 h with rfl | h
      · exact .inr List.mem_cons_self
      · exact (ih h).imp id (List.mem_cons_of_mem _)

/-- **Insertion keeps the order.** -/
theorem pairwise_insert [Std.TransCmp cmp] {as : List α} (h : Ascending cmp as) (a : α) :
    Ascending cmp (insert cmp a as) := by
  induction as with
  | nil => simp [insert, Ascending]
  | cons b bs ih =>
    obtain ⟨hb, hbs⟩ := List.pairwise_cons.1 h
    rw [insert]
    split
    · rename_i hab
      refine List.pairwise_cons.2 ⟨fun x hx => ?_, h⟩
      rcases List.mem_cons.1 hx with rfl | hx
      · exact hab
      · exact Std.TransCmp.lt_trans hab (hb x hx)
    · rename_i hab
      exact List.pairwise_cons.2 ⟨fun x hx => Std.TransCmp.lt_of_eq_of_lt hab (hb x hx), hbs⟩
    · rename_i hab
      refine List.pairwise_cons.2 ⟨fun x hx => ?_, ih hbs⟩
      rcases mem_of_mem_insert hx with rfl | hx
      · exact Std.OrientedCmp.lt_of_gt hab
      · exact hb x hx

theorem pairwise_foldl_insert [Std.TransCmp cmp] (as : List α) {held : List α}
    (h : Ascending cmp held) :
    Ascending cmp (as.foldl (fun held a => insert cmp a held) held) := by
  induction as generalizing held with
  | nil => exact h
  | cons a as ih => exact ih (pairwise_insert h a)

/-- A list put in order is in order. -/
theorem pairwise_ofList [Std.TransCmp cmp] (as : List α) : Ascending cmp (ofList cmp as) :=
  pairwise_foldl_insert as List.Pairwise.nil

/-- **Membership after an insertion:** the value itself, and every earlier one
that does not compare equal to it. -/
theorem mem_insert [Std.TransCmp cmp] {a x : α} {as : List α} (h : Ascending cmp as) :
    x ∈ insert cmp a as ↔ x = a ∨ x ∈ as ∧ cmp a x ≠ .eq := by
  induction as with
  | nil => simp [insert]
  | cons b bs ih =>
    obtain ⟨hb, hbs⟩ := List.pairwise_cons.1 h
    rw [insert]
    split
    · rename_i hab
      have hall : ∀ y ∈ b :: bs, cmp a y ≠ .eq := by
        intro y hy
        rcases List.mem_cons.1 hy with rfl | hy
        · simp [hab]
        · simp [Std.TransCmp.lt_trans hab (hb y hy)]
      simp only [List.mem_cons] at hall ⊢
      constructor
      · rintro (rfl | hx)
        · exact .inl rfl
        · exact .inr ⟨hx, hall x hx⟩
      · rintro (rfl | ⟨hx, -⟩)
        · exact .inl rfl
        · exact .inr hx
    · rename_i hab
      have hall : ∀ y ∈ bs, cmp a y ≠ .eq := fun y hy => by
        simp [Std.TransCmp.lt_of_eq_of_lt hab (hb y hy)]
      simp only [List.mem_cons]
      constructor
      · rintro (rfl | hx)
        · exact .inl rfl
        · exact .inr ⟨.inr hx, hall x hx⟩
      · rintro (rfl | ⟨rfl | hx, hne⟩)
        · exact .inl rfl
        · exact absurd hab hne
        · exact .inr hx
    · rename_i hab
      simp only [List.mem_cons, ih hbs]
      constructor
      · rintro (rfl | rfl | ⟨hx, hne⟩)
        · exact .inr ⟨.inl rfl, by simp [hab]⟩
        · exact .inl rfl
        · exact .inr ⟨.inr hx, hne⟩
      · rintro (rfl | ⟨rfl | hx, hne⟩)
        · exact .inr (.inl rfl)
        · exact .inl rfl
        · exact .inr (.inr ⟨hx, hne⟩)

theorem mem_of_mem_foldl_insert {x : α} {as held : List α}
    (h : x ∈ as.foldl (fun held a => insert cmp a held) held) : x ∈ held ∨ x ∈ as := by
  induction as generalizing held with
  | nil => exact .inl h
  | cons a as ih =>
    rcases ih h with hx | hx
    · rcases mem_of_mem_insert hx with rfl | hx
      · exact .inr List.mem_cons_self
      · exact .inl hx
    · exact .inr (List.mem_cons_of_mem _ hx)

/-- Nothing is put in order that was not there. -/
theorem mem_of_mem_ofList {x : α} {as : List α} (h : x ∈ ofList cmp as) : x ∈ as := by
  simpa using mem_of_mem_foldl_insert h

/-- Where only the same value compares equal, an insertion loses nothing. -/
theorem mem_insert_of_lawful [Std.TransCmp cmp] [Std.LawfulEqCmp cmp] {a x : α} {as : List α}
    (h : Ascending cmp as) : x ∈ insert cmp a as ↔ x = a ∨ x ∈ as := by
  rw [mem_insert h]
  constructor
  · exact Or.imp_right And.left
  · rintro (rfl | hx)
    · exact .inl rfl
    · by_cases heq : cmp a x = .eq
      · exact .inl (Std.LawfulEqCmp.eq_of_compare heq).symm
      · exact .inr ⟨hx, heq⟩

theorem mem_foldl_insert [Std.TransCmp cmp] [Std.LawfulEqCmp cmp] {x : α} (as : List α)
    {held : List α} (h : Ascending cmp held) :
    x ∈ as.foldl (fun held a => insert cmp a held) held ↔ x ∈ held ∨ x ∈ as := by
  induction as generalizing held with
  | nil => simp
  | cons a as ih =>
    rw [List.foldl_cons, ih (pairwise_insert h a), mem_insert_of_lawful h, List.mem_cons, or_assoc,
      or_left_comm]

/-- **Nothing is lost in putting values in order** if only the same value compares
equal. -/
theorem mem_ofList [Std.TransCmp cmp] [Std.LawfulEqCmp cmp] {x : α} {as : List α} :
    x ∈ ofList cmp as ↔ x ∈ as := by
  rw [ofList, mem_foldl_insert as List.Pairwise.nil]
  simp

theorem insert_ne_nil (a : α) (as : List α) : insert cmp a as ≠ [] := by
  cases as with
  | nil => simp [insert]
  | cons b bs =>
    rw [insert]
    split <;> simp

/-- Something is left of a list that is put in order. -/
theorem ofList_ne_nil {as : List α} (h : as ≠ []) : ofList cmp as ≠ [] := by
  rw [← List.dropLast_concat_getLast h, ofList, List.foldl_append]
  exact insert_ne_nil _ _

/-- The place of the greatest value is at the end. -/
theorem insert_of_forall_lt [Std.OrientedCmp cmp] {a : α} {as : List α}
    (h : ∀ b ∈ as, cmp b a = .lt) : insert cmp a as = as ++ [a] := by
  induction as with
  | nil => rfl
  | cons b bs ih =>
    have hgt : cmp a b = .gt := Std.OrientedCmp.gt_of_lt (h b List.mem_cons_self)
    rw [insert, hgt, ih fun c hc => h c (List.mem_cons_of_mem _ hc)]
    rfl

theorem foldl_insert_of_ascending [Std.OrientedCmp cmp] {as held : List α}
    (h : Ascending cmp (held ++ as)) :
    as.foldl (fun held a => insert cmp a held) held = held ++ as := by
  induction as generalizing held with
  | nil => simp
  | cons a as ih =>
    have hlt : ∀ b ∈ held, cmp b a = .lt := fun b hb =>
      (List.pairwise_append.1 h).2.2 b hb a List.mem_cons_self
    rw [List.foldl_cons, insert_of_forall_lt hlt, ih (by simpa using h)]
    simp

/-- **What is in order stays as it is.** -/
theorem ofList_of_ascending [Std.OrientedCmp cmp] {as : List α} (h : Ascending cmp as) :
    ofList cmp as = as := by
  rw [ofList, foldl_insert_of_ascending (by simpa using h), List.nil_append]

end MissionText.Ordered
