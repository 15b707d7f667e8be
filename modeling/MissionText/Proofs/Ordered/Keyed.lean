import Mathlib.Data.List.Nodup
import Mathlib.Data.String.Basic
import MissionText.Ordered
/-!
# Looking up by a key

Values that are kept in the order of a text are looked up by it. An insertion
decides what is found under the text of the inserted value and under no other
(`find?_insert`), so after a run of insertions the last value with a text is
the one that is found (`find?_foldl_insert`). Where every value has a text of its
own, nothing gives way to anything, and the order of the insertions makes no
difference (`ofList_eq_of_perm`).
-/

namespace MissionText.Ordered

variable {α : Type}

/-- **There is one way to put values in order.** -/
theorem eq_of_ascending {cmp : α → α → Ordering} [Std.TransCmp cmp] {as bs : List α}
    (has : Ascending cmp as) (hbs : Ascending cmp bs) (hmem : ∀ a, a ∈ as ↔ a ∈ bs) :
    as = bs := by
  have hnodup {cs : List α} (hcs : Ascending cmp cs) : cs.Nodup := by
    refine hcs.imp fun {a b} hlt heq => ?_
    have hself : cmp b b = .eq := Std.ReflCmp.compare_self
    rw [heq, hself] at hlt
    cases hlt
  refine List.Perm.eq_of_pairwise (fun a b _ _ hab hba => ?_) has hbs
    ((List.perm_ext_iff_of_nodup (hnodup has) (hnodup hbs)).2 hmem)
  rw [Std.OrientedCmp.gt_of_lt hba] at hab
  cases hab

variable (key : α → String)

/-- **What is found after an insertion.** -/
theorem find?_insert (a : α) (as : List α) (k : String) :
    (insert (compareOn key) a as).find? (key · == k) =
      if key a = k then some a else as.find? (key · == k) := by
  induction as with
  | nil => by_cases ha : key a = k <;> simp [insert, ha]
  | cons b bs ih =>
    rw [insert]
    split
    · by_cases ha : key a = k <;> simp [ha]
    · -- the value that gives way has the same text
      rename_i hab
      have hkey : key a = key b := Std.LawfulEqCmp.eq_of_compare hab
      by_cases ha : key a = k
      · simp [ha]
      · simp [ha, hkey ▸ ha]
    · rename_i hab
      have hkey : key a ≠ key b := by
        intro hkey
        have hself : compare (key b) (key b) = .eq := Std.ReflCmp.compare_self
        rw [compareOn, hkey, hself] at hab
        cases hab
      by_cases hb : key b = k
      · have ha : key a ≠ k := hb ▸ hkey
        simp [hb, ha]
      · rw [List.find?_cons_of_neg (by simpa using hb), ih,
          List.find?_cons_of_neg (by simpa using hb)]

/-- **The last value inserted under a text is found.** -/
theorem find?_foldl_insert (as held : List α) (k : String) :
    (as.foldl (fun held a => insert (compareOn key) a held) held).find? (key · == k) =
      (as.reverse.find? (key · == k)).or (held.find? (key · == k)) := by
  induction as generalizing held with
  | nil => rfl
  | cons a as ih =>
    rw [List.foldl_cons, ih, find?_insert, List.reverse_cons, List.find?_append, Option.or_assoc]
    by_cases ha : key a = k <;> simp [ha]

/-! ## Values with texts of their own -/

variable {key} {as bs held : List α} {a : α} {k : String}

/-- Nothing gives way where no text stands for two values. -/
theorem mem_foldl_insert_of_nodup (h : Ascending (compareOn key) held)
    (hnodup : (as.map key).Nodup) (hnew : ∀ b ∈ held, key b ∉ as.map key) :
    a ∈ as.foldl (fun held a => insert (compareOn key) a held) held ↔ a ∈ held ∨ a ∈ as := by
  induction as generalizing held with
  | nil => simp
  | cons c as ih =>
    rw [List.map_cons, List.nodup_cons] at hnodup
    have hinsert (b : α) : b ∈ insert (compareOn key) c held ↔ b = c ∨ b ∈ held := by
      rw [mem_insert h]
      refine or_congr_right (and_iff_left_of_imp fun hb heq => ?_)
      have hkey : key c = key b := Std.LawfulEqCmp.eq_of_compare heq
      exact hnew b hb (hkey ▸ List.mem_cons_self)
    have hnext : ∀ b ∈ insert (compareOn key) c held, key b ∉ as.map key := by
      intro b hb
      rcases (hinsert b).1 hb with rfl | hb
      · exact hnodup.1
      · exact fun hmem => hnew b hb (List.mem_cons_of_mem _ hmem)
    rw [List.foldl_cons, ih (pairwise_insert h c) hnodup.2 hnext, hinsert, List.mem_cons, or_assoc,
      or_left_comm]

theorem mem_ofList_of_nodup (hnodup : (as.map key).Nodup) :
    a ∈ ofList (compareOn key) as ↔ a ∈ as := by
  rw [ofList, mem_foldl_insert_of_nodup List.Pairwise.nil hnodup (List.forall_mem_nil _)]
  simp

/-- **The one value with a text is found.** -/
theorem find?_ofList_eq_some_iff (hnodup : (as.map key).Nodup) :
    (ofList (compareOn key) as).find? (key · == k) = some a ↔ a ∈ as ∧ key a = k := by
  constructor
  · intro h
    exact ⟨(mem_ofList_of_nodup hnodup).1 (List.mem_of_find?_eq_some h),
      by simpa using List.find?_some h⟩
  · rintro ⟨hmem, rfl⟩
    cases hfound : (ofList (compareOn key) as).find? (key · == key a) with
    | none =>
      have hnone := List.find?_eq_none.1 hfound a ((mem_ofList_of_nodup hnodup).2 hmem)
      simp at hnone
    | some b =>
      have hb := (mem_ofList_of_nodup hnodup).1 (List.mem_of_find?_eq_some hfound)
      have hkey : key b = key a := by simpa using List.find?_some hfound
      rw [List.inj_on_of_nodup_map hnodup hb hmem hkey]

/-- **The order of the insertions makes no difference** where every value has a
text of its own. -/
theorem ofList_eq_of_perm (hperm : as.Perm bs) (hnodup : (as.map key).Nodup) :
    ofList (compareOn key) as = ofList (compareOn key) bs := by
  refine eq_of_ascending (pairwise_ofList as) (pairwise_ofList bs) fun a => ?_
  rw [mem_ofList_of_nodup hnodup, mem_ofList_of_nodup ((hperm.map key).nodup_iff.1 hnodup),
    hperm.mem_iff]

end MissionText.Ordered
