import MissionText.Proofs.Pool.Identifiers
import MissionText.Text.Search
/-!
# Segments — a list between its separators

A segment of a list is a stretch that no separator interrupts and that cannot be
made longer (`Segment`). Splitting the list at its separators gives its segments
from left to right (`mem_segmentsOf_iff`), and since a quote is no separator,
taking the quotes out and splitting may be done in either order
(`splitOnP_unquoted`). So the identifiers that are read from a list without its
quotes are those that its segments hold (`identifiersOf_unquoted`).
-/

namespace MissionText

open Text

variable {list front before segment after head tail : List Char} {sep c : Char} {start n : Nat}

/-- **A segment of a list**: a stretch from a separator, or the start of the
list, up to the next separator, or the end. -/
structure Segment (list before segment after : List Char) : Prop where
  text : list = before ++ (segment ++ after)
  plain : ∀ c ∈ segment, isSeparator c = false
  /-- A separator stands before it, unless nothing does. -/
  opened : ∀ c ∈ before.getLast?, isSeparator c = true
  /-- A separator stands after it, unless nothing does. -/
  closed : ∀ c ∈ after.head?, isSeparator c = true

/-- A law of lists: what holds of a list without separators, and of a list in
which such a list and a separator come first if it holds of the rest, holds of
all lists. -/
@[elab_as_elim]
theorem separated_induction {P : List Char → Prop} (cs : List Char)
    (plain : ∀ front, (∀ c ∈ front, isSeparator c = false) → P front)
    (append : ∀ front sep rest, (∀ c ∈ front, isSeparator c = false) → isSeparator sep = true →
      P rest → P (front ++ sep :: rest)) : P cs := by
  induction hlen : cs.length using Nat.strongRecOn generalizing cs with
  | _ n ih =>
    subst hlen
    have hcs := List.takeWhile_append_dropWhile (p := fun d => !isSeparator d) (l := cs)
    have hhead := List.head?_dropWhile_not (fun d => !isSeparator d) cs
    have hfront : ∀ d ∈ cs.takeWhile fun d => !isSeparator d, isSeparator d = false := by
      intro d hd
      simpa using List.mem_takeWhile_imp hd
    cases hdrop : cs.dropWhile fun d => !isSeparator d with
    | nil =>
      rw [hdrop, List.append_nil] at hcs
      exact hcs ▸ plain _ hfront
    | cons sep rest =>
      rw [hdrop] at hcs hhead
      have hshort : rest.length < cs.length := by
        rw [← hcs]
        simp only [List.length_append, List.length_cons]
        omega
      have hrest := ih rest.length hshort rest rfl
      exact hcs ▸ append _ sep rest hfront (by simpa using hhead) hrest

/-- A stretch without separators is all that stands before the next one. -/
theorem takeWhile_segment_append (hplain : ∀ c ∈ segment, isSeparator c = false)
    (hafter : ∀ c ∈ after.head?, isSeparator c = true) :
    (segment ++ after).takeWhile (fun c => !isSeparator c) = segment := by
  rw [takeWhile_append_of_head (by simpa using hafter), List.takeWhile_eq_self_iff]
  simpa using hplain

/-! ## The segments of a list -/

/-- A list without separators is its own and only segment. -/
theorem segment_plain_iff (hlist : ∀ c ∈ list, isSeparator c = false) :
    Segment list before segment after ↔ before = [] ∧ segment = list ∧ after = [] := by
  constructor
  · intro h
    have hbefore : before = [] := by
      rcases List.eq_nil_or_concat before with hnil | ⟨more, d, rfl⟩
      · exact hnil
      · have hd := h.opened d (by simp)
        rw [hlist d (by simp [h.text])] at hd
        cases hd
    have hafter : after = [] := by
      rcases after with - | ⟨d, more⟩
      · rfl
      · have hd := h.closed d rfl
        rw [hlist d (by simp [h.text])] at hd
        cases hd
    refine ⟨hbefore, ?_, hafter⟩
    rw [h.text, hbefore, hafter, List.nil_append, List.append_nil]
  · rintro ⟨rfl, rfl, rfl⟩
    exact ⟨by simp, hlist, nofun, nofun⟩

/-- **The segments of a list are its first one and those of the rest.** -/
theorem segment_append_cons_iff {rest : List Char} (hfront : ∀ c ∈ front, isSeparator c = false)
    (hsep : isSeparator sep = true) :
    Segment (front ++ sep :: rest) before segment after ↔
      (before = [] ∧ segment = front ∧ after = sep :: rest) ∨
        ∃ more, before = front ++ sep :: more ∧ Segment rest more segment after := by
  constructor
  · intro h
    have htext := h.text
    rcases List.eq_nil_or_concat before with rfl | ⟨more, d, hbefore⟩
    · -- nothing stands before the segment, so it ends at the same separator
      left
      have hnext : ∀ c ∈ (sep :: rest).head?, isSeparator c = true := by simpa using hsep
      have hsame : front = segment := by
        rw [← takeWhile_segment_append hfront hnext, htext, List.nil_append,
          takeWhile_segment_append h.plain h.closed]
      refine ⟨rfl, hsame.symm, ?_⟩
      rw [List.nil_append, hsame] at htext
      exact (List.append_cancel_left htext).symm
    · -- the part before the segment ends with a separator, so it takes in the first one
      right
      have hd : isSeparator d = true := h.opened d (by simp [hbefore])
      have hlong : ¬ before.length ≤ front.length := by
        intro hle
        have hlead : before <+: front :=
          List.prefix_of_prefix_length_le ⟨_, htext.symm⟩ ⟨_, rfl⟩ hle
        have := hfront d (hlead.subset (by simp [hbefore]))
        rw [hd] at this
        cases this
      have hlead : front ++ [sep] <+: before :=
        List.prefix_of_prefix_length_le ⟨rest, by simp⟩ ⟨_, htext.symm⟩ (by simp; omega)
      obtain ⟨others, hothers⟩ := hlead
      have hbefore' : before = front ++ sep :: others := by rw [← hothers]; simp
      refine ⟨others, hbefore', ?_, h.plain, fun e he => h.opened e ?_, h.closed⟩
      · rw [hbefore'] at htext
        simpa using htext
      · rw [hbefore', List.getLast?_append, List.getLast?_cons, Option.mem_def.1 he]
        rfl
  · rintro (⟨rfl, rfl, rfl⟩ | ⟨more, rfl, h⟩)
    · exact ⟨rfl, hfront, nofun, by simpa using hsep⟩
    · refine ⟨by rw [h.text]; simp, h.plain, fun e he => ?_, h.closed⟩
      rw [List.getLast?_append, List.getLast?_cons] at he
      cases hlast : more.getLast? with
      | none =>
        rw [hlast] at he
        obtain rfl : sep = e := by simpa using he
        exact hsep
      | some last =>
        rw [hlast] at he
        obtain rfl : last = e := by simpa using he
        exact h.opened last hlast

/-- Pieces with one character between each two of them, and the offset at which
each starts. -/
def placed : Nat → List (List Char) → List (Nat × List Char)
  | _, [] => []
  | start, piece :: pieces => (start, piece) :: placed (start + width piece + 1) pieces

/-- The segments of a list from left to right, and the offset at which each
starts. -/
def segmentsOf (list : List Char) : List (Nat × List Char) :=
  placed 0 (list.splitOnP isSeparator)

theorem placed_map_snd (start : Nat) (pieces : List (List Char)) :
    (placed start pieces).map (·.2) = pieces := by
  induction pieces generalizing start with
  | nil => rfl
  | cons piece pieces ih => rw [placed, List.map_cons, ih]

theorem le_of_mem_placed {pieces : List (List Char)} :
    ∀ place ∈ placed start pieces, start ≤ place.1 := by
  induction pieces generalizing start with
  | nil => nofun
  | cons piece pieces ih =>
    intro place hplace
    rcases List.mem_cons.1 hplace with rfl | hplace
    · exact Nat.le_refl start
    · have := ih place hplace
      omega

/-- **Placed pieces stand in order and apart.** -/
theorem pairwise_placed (start : Nat) (pieces : List (List Char)) :
    (placed start pieces).Pairwise fun a b => a.1 + width a.2 < b.1 := by
  induction pieces generalizing start with
  | nil => exact .nil
  | cons piece pieces ih =>
    exact List.pairwise_cons.2 ⟨fun place hplace => le_of_mem_placed place hplace, ih _⟩

theorem mem_placed_splitOnP_iff : (n, segment) ∈ placed start (list.splitOnP isSeparator) ↔
    ∃ before after, Segment list before segment after ∧ start + width before = n := by
  induction list using separated_induction generalizing start with
  | plain front hfront =>
    simp only [List.splitOnP_eq_singleton hfront, placed, List.mem_singleton, Prod.mk.injEq,
      segment_plain_iff hfront]
    constructor
    · rintro ⟨rfl, rfl⟩
      exact ⟨[], [], ⟨rfl, rfl, rfl⟩, rfl⟩
    · rintro ⟨before, after, ⟨rfl, rfl, rfl⟩, rfl⟩
      exact ⟨rfl, rfl⟩
  | append front sep rest hfront hsep ih =>
    have hone := utf8Size_of_isSeparator hsep
    rw [List.splitOnP_append_cons_of_forall_mem hfront sep hsep, placed, List.mem_cons, ih]
    simp only [Prod.mk.injEq, segment_append_cons_iff hfront hsep]
    constructor
    · rintro (⟨rfl, rfl⟩ | ⟨before, after, hsegment, rfl⟩)
      · exact ⟨[], _, .inl ⟨rfl, rfl, rfl⟩, rfl⟩
      · refine ⟨_, after, .inr ⟨before, rfl, hsegment⟩, ?_⟩
        simp only [width_append, width_cons, hone]
        omega
    · rintro ⟨before, after, ⟨rfl, rfl, rfl⟩ | ⟨more, rfl, hsegment⟩, rfl⟩
      · exact .inl ⟨rfl, rfl⟩
      · refine .inr ⟨more, after, hsegment, ?_⟩
        simp only [width_append, width_cons, hone]
        omega

/-- **Splitting a list gives its segments.** -/
theorem mem_segmentsOf_iff : (n, segment) ∈ segmentsOf list ↔
    ∃ before after, Segment list before segment after ∧ width before = n := by
  simp only [segmentsOf, mem_placed_splitOnP_iff, Nat.zero_add]

/-! ## What the segments hold -/

/-- The identifier that a segment holds. -/
def idOf (segment : List Char) : String := String.ofList (trim (unquoted segment))

/-- **Quotes may be taken out before a list is split or after.** -/
theorem splitOnP_unquoted (list : List Char) :
    (unquoted list).splitOnP isSeparator = (list.splitOnP isSeparator).map unquoted := by
  have hplain {cs : List Char} (hcs : ∀ c ∈ cs, isSeparator c = false) :
      ∀ c ∈ unquoted cs, isSeparator c = false := fun c hc => hcs c (List.mem_filter.1 hc).1
  induction list using separated_induction with
  | plain front hfront =>
    rw [List.splitOnP_eq_singleton hfront, List.splitOnP_eq_singleton (hplain hfront)]
    rfl
  | append front sep rest hfront hsep ih =>
    have hquote : isQuote sep = false := by
      rcases isSeparator_iff.1 hsep with rfl | rfl <;> rfl
    have hkept : unquoted (sep :: rest) = sep :: unquoted rest := by simp [unquoted, hquote]
    rw [unquoted_append, hkept, List.splitOnP_append_cons_of_forall_mem (hplain hfront) sep hsep,
      List.splitOnP_append_cons_of_forall_mem hfront sep hsep, ih, List.map_cons]

/-- **The identifiers of a list without its quotes are what its segments
hold.** -/
theorem identifiersOf_unquoted (list : List Char) :
    identifiersOf (trim (unquoted list)) = (segmentsOf list).map fun place => idOf place.2 := by
  rw [identifiersOf_trim, identifiersOf, splitOnP_unquoted, List.map_map,
    ← placed_map_snd 0 (list.splitOnP isSeparator), List.map_map]
  rfl

/-- A text that is all quotes and blanks holds no identifier, and only such a
text. -/
theorem idOf_eq_empty_iff :
    idOf segment = "" ↔ ∀ c ∈ segment, isQuote c = true ∨ isBlank c = true := by
  obtain ⟨front, back, hfront, hback, hsplit⟩ := exists_trim_append (unquoted segment)
  rw [idOf, String.ofList_eq_empty_iff]
  constructor
  · intro hnil c hc
    by_contra hsolid
    simp only [not_or, Bool.not_eq_true] at hsolid
    have hmem : c ∈ unquoted segment := List.mem_filter.2 ⟨hc, by simp [hsolid.1]⟩
    rw [hsplit, hnil, List.nil_append] at hmem
    have hblank := (List.mem_append.1 hmem).elim (hfront c) (hback c)
    rw [hsolid.2] at hblank
    cases hblank
  · intro hall
    have hblank : Blank (unquoted segment) := by
      intro c hc
      obtain ⟨hc, hquote⟩ := List.mem_filter.1 hc
      exact (hall c hc).resolve_left (by simpa using hquote)
    rw [trim, List.dropWhile_eq_nil_iff.2 hblank]
    rfl

/-! ## The segment around a place -/

/-- The text up to a character with a property is split off where none is left
after it. -/
theorem splitAfterLast_eq {p : Char → Bool} (hbefore : ∀ c ∈ before.getLast?, p c = true)
    (hhead : ∀ c ∈ head, p c = false) : splitAfterLast p (before ++ head) = (before, head) := by
  induction before with
  | nil => exact splitAfterLast_of_plain hhead
  | cons c before ih =>
    have htail : ∀ d ∈ before.getLast?, p d = true := by
      intro d hd
      refine hbefore d ?_
      rw [List.getLast?_cons, Option.mem_def.1 hd]
      rfl
    rw [List.cons_append, splitAfterLast, ih htail]
    cases before with
    | nil => simp [hbefore c rfl]
    | cons d before => rfl

/-- **At every place of a list there is a segment**, from the last separator before
it to the next one after it. -/
theorem segment_around (front rest : List Char) :
    Segment (front ++ rest) (splitAfterLast isSeparator front).1
      ((splitAfterLast isSeparator front).2 ++ rest.takeWhile fun d => !isSeparator d)
      (rest.dropWhile fun d => !isSeparator d) := by
  refine ⟨?_, fun d hd => ?_, getLast?_splitAfterLast isSeparator front, fun d hd => ?_⟩
  · rw [List.append_assoc, List.takeWhile_append_dropWhile, ← List.append_assoc,
      splitAfterLast_append]
  · rcases List.mem_append.1 hd with hd | hd
    · exact not_of_mem_splitAfterLast isSeparator front d hd
    · simpa using List.mem_takeWhile_imp hd
  · have hdrop := List.head?_dropWhile_not (fun d => !isSeparator d) rest
    rw [Option.mem_def.1 hd] at hdrop
    simpa using hdrop

/-- The segment around a character is the one in which it stands. -/
theorem Segment.around (h : Segment list before (head ++ c :: tail) after) :
    (splitAfterLast isSeparator (before ++ head)).1 = before ∧
      (splitAfterLast isSeparator (before ++ head)).2 = head ∧
      (c :: (tail ++ after)).takeWhile (fun d => !isSeparator d) = c :: tail := by
  have hhead : ∀ d ∈ head, isSeparator d = false := fun d hd =>
    h.plain d (List.mem_append_left _ hd)
  have htail : ∀ d ∈ c :: tail, isSeparator d = false := fun d hd =>
    h.plain d (List.mem_append_right _ hd)
  rw [splitAfterLast_eq h.opened hhead, ← List.cons_append, takeWhile_segment_append htail h.closed]
  exact ⟨rfl, rfl, rfl⟩

end MissionText
