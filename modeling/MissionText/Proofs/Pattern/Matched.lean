import MissionText.Proofs.Pattern.Ways
import MissionText.Proofs.Text.Casing
import MissionText.Proofs.Text.CommaList
import MissionText.Proofs.Token.Grammar
import MissionText.Token.Shape
/-!
# Matched — what the patterns of the shapes match

For each shape there are two things to show. Whatever its pattern matches is
written as the shape has it (`WrittenTime` and so on). And the first match on a
text that is so written up to a boundary is the whole of it, so that no shorter
match that comes before it hides it. A list is matched item by item, and the
items that are matched first are those of a quoted run (`exists_head?_listItem`).
-/

namespace MissionText

open Text Token

variable {isWord : Char → Bool} {cs ds raw read rest text : List Char} {c d : Char}
  {n index : Nat} {groups : List (Nat × Held)} {found later : Match} {f : Match → List Match}

namespace Pattern

/-! ## Characters in any case -/

/-- A character that is no letter has no case. -/
theorem caseFold_eq_self (h : c.toNat < 65 ∨ 90 < c.toNat) (hlong : c.toNat ≠ 0x17F)
    (hkelvin : c.toNat ≠ 0x212A) : caseFold c = c := by
  have hlower : c.toLower = c := (toLower_cases c).resolve_right (by omega)
  rw [caseFold, if_neg hlong, if_neg hkelvin, hlower]

theorem caseFold_of_isBlank (h : isBlank c = true) : caseFold c = c := by
  simp only [isBlank, blankRanges, List.any_cons, List.any_nil, Bool.or_false, Bool.or_eq_true,
    Bool.and_eq_true, decide_eq_true_eq] at h
  exact caseFold_eq_self (by omega) (by omega) (by omega)

theorem caseFold_of_isDigit (h : c.isDigit = true) : caseFold c = c := by
  have := toNat_le_of_isDigit h
  exact caseFold_eq_self (by omega) (by omega) (by omega)

/-- A text that folds to a keyword. -/
theorem map_caseFold_of_isKeyword {name : SettingName} (h : IsKeyword name raw) :
    raw.map caseFold = name.keyword.toList := by
  rw [← h]
  refine List.map_congr_left fun c hc => ?_
  have hmem : c.toLower ∈ name.keyword.toList := h ▸ List.mem_map_of_mem hc
  -- the two characters that fold to a letter of their own are no letters of a keyword
  have hplain : ∀ d ∈ name.keyword.toList, d ≠ Char.ofNat 0x17F ∧ d ≠ Char.ofNat 0x212A := by
    have hall : name.keyword.toList.all
        (fun d => d != Char.ofNat 0x17F && d != Char.ofNat 0x212A) = true := by
      cases name <;> decide
    simpa using hall
  rw [caseFold]
  split
  · rename_i hlong
    obtain rfl : c = Char.ofNat 0x17F := by rw [← hlong, Char.ofNat_toNat]
    exact absurd rfl (hplain _ hmem).1
  · split
    · rename_i hkelvin
      obtain rfl : c = Char.ofNat 0x212A := by rw [← hkelvin, Char.ofNat_toNat]
      exact absurd rfl (hplain _ hmem).2
    · rfl

/-- What folds to a keyword holds no blank. -/
theorem isBlank_of_map_caseFold {name : SettingName} (h : raw.map caseFold = name.keyword.toList) :
    ∀ c ∈ raw, isBlank c = false := by
  intro c hc
  rw [Bool.eq_false_iff]
  intro hblank
  have hmem : caseFold c ∈ name.keyword.toList := h ▸ List.mem_map_of_mem hc
  rw [caseFold_of_isBlank hblank] at hmem
  rw [(name.keyword_plain c hmem).1] at hblank
  cases hblank

/-! ## Fields -/

theorem mem_ways_field :
    later ∈ ways isWord field found ↔
      ∃ ds rest, found.rest = ds ++ rest ∧ IsField ds ∧ later = found.extend ds rest := by
  rw [field, mem_ways_both]
  constructor
  · rintro ⟨between, hfirst, hlast⟩
    obtain ⟨d, rest, hrest, hd, rfl⟩ := mem_ways_one.1 hfirst
    obtain ⟨ds, rest', hrest', hlength, hds, rfl⟩ := mem_rounds_one.1 hlast
    obtain rfl : rest = ds ++ rest' := hrest'
    exact ⟨d :: ds, rest', hrest, ⟨by simp, Nat.succ_le_succ hlength, by simpa using ⟨hd, hds⟩⟩,
      by simp [Match.extend]⟩
  · rintro ⟨ds, rest, hrest, hds, rfl⟩
    obtain ⟨d, ds, rfl⟩ := List.exists_cons_of_ne_nil hds.ne_nil
    refine ⟨found.extend [d] (ds ++ rest),
      mem_ways_one.2 ⟨d, _, hrest, hds.isDigit d (by simp), rfl⟩,
      mem_rounds_one.2 ⟨ds, rest, rfl, hds.length_tail_le,
        fun e he => hds.isDigit e (by simp [he]), ?_⟩⟩
    simp [Match.extend]

theorem mem_ways_group_field :
    later ∈ ways isWord (group index field) found ↔
      ∃ ds rest, found.rest = ds ++ rest ∧ IsField ds ∧
        later = ⟨found.read ++ ds, rest, (index, ⟨found.read, ds⟩) :: found.groups⟩ := by
  simp only [mem_ways_group, mem_ways_field]
  constructor
  · rintro ⟨_, ⟨ds, rest, hrest, hds, rfl⟩, rfl⟩
    exact ⟨ds, rest, hrest, hds, Match.hold_extend ..⟩
  · rintro ⟨ds, rest, hrest, hds, rfl⟩
    exact ⟨_, ⟨ds, rest, hrest, hds, rfl⟩, (Match.hold_extend ..).symm⟩

/-- A field is matched whole if it is followed by something else. -/
theorem head?_ways_group_field (hds : IsField ds) (hrest : ∀ c ∈ rest.head?, c.isDigit = false) :
    (ways isWord (group index field) ⟨read, ds ++ rest, groups⟩).head? =
      some ⟨read ++ ds, rest, (index, ⟨read, ds⟩) :: groups⟩ := by
  obtain ⟨d, ds, rfl⟩ := List.exists_cons_of_ne_nil hds.ne_nil
  have hone : (ways isWord (one Char.isDigit) ⟨read, d :: (ds ++ rest), groups⟩).head? =
      some ⟨read ++ [d], ds ++ rest, groups⟩ := by
    rw [ways_one_cons (hds.isDigit d (by simp))]
    rfl
  have hmore : (ways isWord (upTo 8 (one Char.isDigit))
      ⟨read ++ [d], ds ++ rest, groups⟩).head? = some ⟨read ++ [d] ++ ds, rest, groups⟩ :=
    head?_rounds_one (fun e he => hds.isDigit e (by simp [he])) hrest
      hds.length_tail_le
  rw [ways, List.head?_map, field, ways, List.cons_append,
    head?_flatMap_of_head? hone hmore, Option.map_some]
  simp [Match.hold]

/-- **Before what refuses digits, a field has one way**, which reads all the
digits there are. -/
theorem flatMap_group_field
    (hf : ∀ read c rest groups, c.isDigit = true → f ⟨read, c :: rest, groups⟩ = [])
    (hds : IsField ds) (hrest : ∀ c ∈ rest.head?, c.isDigit = false) :
    (ways isWord (group index field) ⟨read, ds ++ rest, groups⟩).flatMap f =
      f ⟨read ++ ds, rest, (index, ⟨read, ds⟩) :: groups⟩ := by
  obtain ⟨d, ds, rfl⟩ := List.exists_cons_of_ne_nil hds.ne_nil
  have hdigits : ∀ e ∈ ds, e.isDigit = true := fun e he => hds.isDigit e (by simp [he])
  have hd := hds.isDigit d (by simp)
  rw [ways, field, ways, List.cons_append, ways_one_cons hd, List.flatMap_cons, List.flatMap_nil,
    List.append_nil, List.flatMap_map]
  have hhold : ∀ (later : List Char) (c : Char) (left : List Char), c.isDigit = true →
      f (Match.hold index ⟨read, d :: (ds ++ rest), groups⟩ ⟨later, c :: left, groups⟩) = [] :=
    fun later c left hc => hf later c left _ hc
  refine (flatMap_rounds_one hhold hdigits hrest).trans ?_
  rw [if_pos hds.length_tail_le]
  simp [Match.hold]

/-- A pattern that begins with a character refuses other ones. -/
theorem ways_both_one_of_head {p : Char → Bool} {body : Pattern}
    (h : ∀ c ∈ rest.head?, p c = false) :
    ways isWord (both (one p) body) ⟨read, rest, groups⟩ = [] := by
  rw [ways, ways_one_of_head h]
  rfl

theorem ways_both_one_cons {p : Char → Bool} {body : Pattern} (h : p c = true) :
    ways isWord (both (one p) body) ⟨read, c :: rest, groups⟩ =
      ways isWord body ⟨read ++ [c], rest, groups⟩ := by
  rw [ways, ways_one_cons h]
  simp

/-! ## Times -/

theorem ways_time :
    ways isWord time found =
      (ways isWord (group 1 field) found).flatMap
          (fun hours => (ways isWord (mark ':') hours).flatMap (ways isWord clock)) ++
        ways isWord clock found := by
  rw [time, ways, ways_optional, hours, ways, List.flatMap_append, List.flatMap_assoc,
    List.flatMap_singleton]

theorem read_of_mem_ways_clock (h : later ∈ ways isWord clock found) :
    ∃ ms ss, IsField ms ∧ IsField ss ∧ later.read = found.read ++ (ms ++ ':' :: ss) := by
  obtain ⟨minutes, hminutes, hseconds⟩ := mem_ways_both.1 h
  obtain ⟨ms, rest, -, hms, rfl⟩ := mem_ways_group_field.1 hminutes
  obtain ⟨between, hcolon, hseconds⟩ := mem_ways_both.1 hseconds
  obtain ⟨c, rest, -, hc, rfl⟩ := mem_ways_one.1 hcolon
  obtain rfl : c = ':' := by simpa using hc
  obtain ⟨ss, rest, -, hss, rfl⟩ := mem_ways_group_field.1 hseconds
  exact ⟨ms, ss, hms, hss, by simp [Match.extend]⟩

/-- **What the pattern of a time matches is written as a time.** -/
theorem exists_writtenTime (h : found ∈ ways isWord time (.atStart text)) :
    ∃ time, WrittenTime found.read time := by
  rw [ways_time, List.mem_append, List.mem_flatMap] at h
  rcases h with ⟨hours, hhours, h⟩ | h
  · obtain ⟨between, hcolon, hclock⟩ := List.mem_flatMap.1 h
    obtain ⟨hs, rest, -, hhs, rfl⟩ := mem_ways_group_field.1 hhours
    obtain ⟨c, rest, -, hc, rfl⟩ := mem_ways_one.1 hcolon
    obtain rfl : c = ':' := by simpa using hc
    obtain ⟨ms, ss, hms, hss, hread⟩ := read_of_mem_ways_clock hclock
    have hfound : found.read = hs ++ ':' :: (ms ++ ':' :: ss) := by
      simp [hread, Match.extend, Match.atStart]
    rw [hfound]
    exact ⟨_, .long hhs hms hss⟩
  · obtain ⟨ms, ss, hms, hss, hread⟩ := read_of_mem_ways_clock h
    have hfound : found.read = ms ++ ':' :: ss := hread
    rw [hfound]
    exact ⟨_, .short hms hss⟩

/-- There is no colon at a boundary. -/
theorem colon_refuses_boundary (hrest : AtBoundary rest) :
    ∀ c ∈ rest.head?, (c == ':') = false := by
  intro c hc
  rw [beq_eq_false_iff_ne]
  rintro rfl
  cases hrest ':' hc

/-- There is no colon where there is a digit. -/
theorem mark_colon_refuses (isWord : Char → Bool) (body : Pattern) (read : List Char) (c : Char)
    (rest : List Char) (groups : List (Nat × Held)) (hc : c.isDigit = true) :
    ways isWord (both (mark ':') body) ⟨read, c :: rest, groups⟩ = [] := by
  refine ways_both_one_of_head ?_
  rintro _ ⟨⟩
  rw [beq_eq_false_iff_ne]
  rintro rfl
  cases hc

section

variable {hs ms ss : List Char} (hms : IsField ms) (hss : IsField ss) (hrest : AtBoundary rest)
  (isWord : Char → Bool) (read : List Char) (groups : List (Nat × Held))

theorem isDigit_colon_head (rest : List Char) :
    ∀ c ∈ (':' :: rest).head?, c.isDigit = false := by
  rintro _ ⟨⟩
  rfl

include hss hrest in
/-- A field before no colon is no clock. -/
theorem ways_clock_eq_nil : ways isWord clock ⟨read, ss ++ rest, groups⟩ = [] := by
  rw [clock, ways, flatMap_group_field (mark_colon_refuses isWord _) hss hrest.isDigit_head]
  exact ways_both_one_of_head (colon_refuses_boundary hrest)

/-- The hours of a time are a field before a colon. -/
theorem ways_time_field {hs tail : List Char} (hhs : IsField hs) :
    ways isWord time (.atStart (hs ++ ':' :: tail)) =
      ways isWord clock ⟨hs ++ [':'], tail, [(1, ⟨[], hs⟩)]⟩ ++
        ways isWord clock ⟨[], hs ++ ':' :: tail, []⟩ := by
  have hrefuse (read : List Char) (c : Char) (rest : List Char) (groups : List (Nat × Held))
      (hc : c.isDigit = true) :
      (ways isWord (mark ':') ⟨read, c :: rest, groups⟩).flatMap (ways isWord clock) = [] :=
    mark_colon_refuses isWord clock read c rest groups hc
  rw [ways_time, Match.atStart, flatMap_group_field hrefuse hhs (isDigit_colon_head _), mark,
    ways_one_cons rfl]
  simp

include hms hss hrest

theorem head?_ways_clock :
    (ways isWord clock ⟨read, ms ++ ':' :: (ss ++ rest), groups⟩).head? =
      some ⟨read ++ (ms ++ ':' :: ss), rest,
        (3, ⟨read ++ ms ++ [':'], ss⟩) :: (2, ⟨read, ms⟩) :: groups⟩ := by
  rw [clock, ways, flatMap_group_field (mark_colon_refuses isWord _) hms (isDigit_colon_head _),
    mark, ways_both_one_cons rfl, head?_ways_group_field hss hrest.isDigit_head]
  simp

/-- **The first match of a short time is the whole of it.** -/
theorem first?_time_short :
    time.first? isWord (ms ++ ':' :: ss ++ rest) =
      some ⟨ms ++ ':' :: ss, rest, [(3, ⟨ms ++ [':'], ss⟩), (2, ⟨[], ms⟩)]⟩ := by
  have hclock := head?_ways_clock hms hss hrest isWord [] []
  rw [first?, List.append_assoc, List.cons_append, ways_time_field isWord hms]
  simpa [ways_clock_eq_nil hss hrest] using hclock

/-- **The first match of a long time is the whole of it.** -/
theorem first?_time_long (hhs : IsField hs) :
    time.first? isWord (hs ++ ':' :: (ms ++ ':' :: ss) ++ rest) =
      some ⟨hs ++ ':' :: (ms ++ ':' :: ss), rest,
        [(3, ⟨hs ++ [':'] ++ ms ++ [':'], ss⟩), (2, ⟨hs ++ [':'], ms⟩), (1, ⟨[], hs⟩)]⟩ := by
  have hclock := head?_ways_clock hms hss hrest isWord (hs ++ [':']) [(1, ⟨[], hs⟩)]
  rw [first?, List.append_assoc, List.cons_append, List.append_assoc, List.cons_append,
    ways_time_field isWord hhs, List.head?_append, hclock]
  simp

end

/-! ## Strike limits -/

theorem eq_x_of_caseFold (h : caseFold c = 'x') : c = 'x' ∨ c = 'X' := by
  rw [caseFold] at h
  split at h
  · cases h
  · split at h
    · cases h
    · by_cases hupper : c.val ≥ 'A'.val ∧ c.val ≤ 'Z'.val
      · have hval := (val_toLower hupper).symm.trans (congrArg Char.val h)
        exact .inr (Char.ext ((UInt32.add_left_inj _).1 hval))
      · exact .inl ((toLower_eq_self hupper).symm.trans h)

theorem ways_letter_cons {body : Pattern} (h : caseFold c = d) :
    ways isWord (both (letter d) body) ⟨read, c :: rest, groups⟩ =
      ways isWord body ⟨read ++ [c], rest, groups⟩ :=
  ways_both_one_cons (by simpa using h)

/-- **What the pattern of a strike limit matches is written as one.** -/
theorem exists_writtenStrikes (h : found ∈ ways isWord strikes (.atStart text)) :
    ∃ n, WrittenStrikes found.read n := by
  obtain ⟨between, hfield, h⟩ := mem_ways_both.1 h
  obtain ⟨ds, rest, -, hds, rfl⟩ := mem_ways_group_field.1 hfield
  obtain ⟨later, hletter, hedge⟩ := mem_ways_both.1 h
  obtain ⟨c, rest, -, hc, rfl⟩ := mem_ways_one.1 hletter
  rw [ways] at hedge
  split at hedge
  · cases hedge
  · obtain rfl := List.mem_singleton.1 hedge
    exact ⟨_, .field hds (eq_x_of_caseFold (by simpa using hc))⟩

/-- **The first match of a strike limit is the whole of it.** -/
theorem first?_strikes (matcher : Matcher) (hds : IsField ds) (hc : c = 'x' ∨ c = 'X')
    (hrest : AtBoundary rest) :
    strikes.first? matcher.isWord (ds ++ [c] ++ rest) =
      some ⟨ds ++ [c], rest, [(1, ⟨[], ds⟩)]⟩ := by
  have hfold : caseFold c = 'x' := by rcases hc with rfl | rfl <;> rfl
  have hdigit : ∀ e ∈ (c :: rest).head?, e.isDigit = false := by
    rintro _ ⟨⟩
    rcases hc with rfl | rfl <;> rfl
  have hrefuse (read : List Char) (e : Char) (rest : List Char) (groups : List (Nat × Held))
      (he : e.isDigit = true) :
      ways matcher.isWord (both (letter 'x') edge) ⟨read, e :: rest, groups⟩ = [] := by
    refine ways_both_one_of_head ?_
    rintro _ ⟨⟩
    rw [caseFold_of_isDigit he, beq_eq_false_iff_ne]
    rintro rfl
    cases he
  -- the letter is in a word, and what follows is not
  have hword : matcher.isWord c = true := by
    refine matcher.isWord_of_isAlpha c ?_
    rcases hc with rfl | rfl <;> rfl
  have hedge : rest.head?.any matcher.isWord = false := by
    cases rest with
    | nil => rfl
    | cons e rest => exact matcher.isWord_of_isBlank e (hrest e rfl)
  rw [first?, strikes, ways, Match.atStart, List.append_assoc, List.singleton_append,
    flatMap_group_field hrefuse hds hdigit, ways_letter_cons hfold]
  simp [ways, hword, hedge]

/-! ## Settings -/

theorem mem_ways_word :
    later ∈ ways isWord (word cs) found ↔
      ∃ raw rest, found.rest = raw ++ rest ∧ raw.map caseFold = cs ∧
        later = found.extend raw rest := by
  induction cs generalizing found with
  | nil =>
    constructor
    · intro h
      obtain rfl : later = found := by simpa [word, each, ways] using h
      exact ⟨[], later.rest, rfl, rfl, by simp [Match.extend]⟩
    · rintro ⟨raw, rest, hrest, hraw, rfl⟩
      obtain rfl := List.map_eq_nil_iff.1 hraw
      rw [List.nil_append] at hrest
      simp [word, each, ways, Match.extend, ← hrest]
  | cons c cs ih =>
    have hcons : word (c :: cs) = both (letter c) (word cs) := rfl
    rw [hcons, mem_ways_both]
    constructor
    · rintro ⟨between, hletter, hword⟩
      obtain ⟨d, rest, hrest, hd, rfl⟩ := mem_ways_one.1 hletter
      obtain ⟨raw, rest', hrest', hraw, rfl⟩ := ih.1 hword
      obtain rfl : rest = raw ++ rest' := hrest'
      exact ⟨d :: raw, rest', hrest, by simpa [hraw] using hd, by simp [Match.extend]⟩
    · rintro ⟨raw, rest, hrest, hraw, rfl⟩
      obtain ⟨d, raw, rfl, hd, hraw⟩ := List.map_eq_cons_iff.1 hraw
      refine ⟨found.extend [d] (raw ++ rest), mem_ways_one.2 ⟨d, _, hrest, by simpa using hd, rfl⟩,
        ih.2 ⟨raw, rest, rfl, hraw, ?_⟩⟩
      simp [Match.extend]

theorem mem_ways_anyOf {patterns : List Pattern} :
    later ∈ ways isWord (anyOf patterns) found ↔
      ∃ pattern ∈ patterns, later ∈ ways isWord pattern found := by
  induction patterns with
  | nil => simp [anyOf, mem_ways_one]
  | cons pattern patterns ih => simp [anyOf, mem_ways_either, ih]

theorem mem_ways_keyword :
    later ∈ ways isWord keyword found ↔
      ∃ (name : SettingName) (raw rest : List Char), found.rest = raw ++ rest ∧
        raw.map caseFold = name.keyword.toList ∧
        later = ⟨found.read ++ raw, rest, (1, ⟨found.read, raw⟩) :: found.groups⟩ := by
  have hall (name : SettingName) : name ∈ SettingName.all := by cases name <;> decide
  rw [keyword, mem_ways_group]
  constructor
  · rintro ⟨inner, hinner, rfl⟩
    obtain ⟨pattern, hpattern, hword⟩ := mem_ways_anyOf.1 hinner
    obtain ⟨name, -, rfl⟩ := List.mem_map.1 hpattern
    obtain ⟨raw, rest, hrest, hraw, rfl⟩ := mem_ways_word.1 hword
    exact ⟨name, raw, rest, hrest, hraw, Match.hold_extend ..⟩
  · rintro ⟨name, raw, rest, hrest, hraw, rfl⟩
    exact ⟨_, mem_ways_anyOf.2 ⟨_, List.mem_map.2 ⟨name, hall name, rfl⟩,
      mem_ways_word.2 ⟨raw, rest, hrest, hraw, rfl⟩⟩, (Match.hold_extend ..).symm⟩

/-- **A keyword is matched in one way**, since none is the beginning of
another. -/
theorem head?_ways_keyword {name : SettingName} (hraw : raw.map caseFold = name.keyword.toList) :
    (ways isWord keyword ⟨read, raw ++ rest, groups⟩).head? =
      some ⟨read ++ raw, rest, (1, ⟨read, raw⟩) :: groups⟩ := by
  have hmem : (⟨read ++ raw, rest, (1, ⟨read, raw⟩) :: groups⟩ : Match) ∈
      ways isWord keyword ⟨read, raw ++ rest, groups⟩ :=
    mem_ways_keyword.2 ⟨name, raw, rest, rfl, hraw, rfl⟩
  obtain ⟨first, hfirst⟩ := Option.ne_none_iff_exists'.1
    (mt List.head?_eq_none_iff.1 (List.ne_nil_of_mem hmem))
  obtain ⟨name', raw', rest', hrest', hraw', rfl⟩ := mem_ways_keyword.1 (List.mem_of_head? hfirst)
  -- one of the two keywords is the beginning of the other, so they are the same
  have hname : name = name' := by
    rcases List.prefix_or_prefix_of_prefix (List.prefix_append raw rest)
        (hrest' ▸ List.prefix_append raw' rest') with hprefix | hprefix
    · exact SettingName.eq_of_keyword_prefix (hraw ▸ hraw' ▸ hprefix.map caseFold)
    · exact (SettingName.eq_of_keyword_prefix (hraw ▸ hraw' ▸ hprefix.map caseFold)).symm
  have hlength : raw.length = raw'.length := by
    have := congrArg List.length (hraw.trans (hname ▸ hraw'.symm))
    simpa using this
  obtain ⟨rfl, rfl⟩ := List.append_inj hrest' hlength
  exact hfirst

/-- **What the pattern of a setting matches** is a keyword in any case, or one
with a value. -/
theorem read_of_mem_ways_setting (h : found ∈ ways isWord setting (.atStart text)) :
    ∃ (name : SettingName) (raw : List Char), raw.map caseFold = name.keyword.toList ∧
      found.group? 1 = some ⟨[], raw⟩ ∧
      (found.read = raw ∨ ∃ value, found.read = raw ++ ':' :: value ∧
        ∀ c ∈ value, isBlank c = false) := by
  rw [setting, mem_ways_both] at h
  obtain ⟨between, hkeyword, h⟩ := h
  obtain ⟨name, raw, rest, -, hraw, rfl⟩ := mem_ways_keyword.1 hkeyword
  refine ⟨name, raw, hraw, ?_⟩
  rw [ways_optional, List.mem_append, List.mem_singleton] at h
  rcases h with h | rfl
  · obtain ⟨later, hcolon, h⟩ := mem_ways_both.1 h
    obtain ⟨c, rest, -, hc, rfl⟩ := mem_ways_one.1 hcolon
    obtain rfl : c = ':' := by simpa using hc
    obtain ⟨inner, hinner, rfl⟩ := mem_ways_group.1 h
    obtain ⟨value, rest, -, -, hvalue, rfl⟩ := mem_rounds_one.1 hinner
    refine ⟨rfl, .inr ⟨value, by simp [Match.hold, Match.extend, Match.atStart], ?_⟩⟩
    simpa using hvalue
  · exact ⟨rfl, .inl rfl⟩

/-- **The first match of a keyword before a boundary is the keyword.** -/
theorem first?_setting_bare {name : SettingName} (hraw : IsKeyword name raw)
    (hrest : AtBoundary rest) (isWord : Char → Bool) :
    setting.first? isWord (raw ++ rest) = some ⟨raw, rest, [(1, ⟨[], raw⟩)]⟩ := by
  rw [first?, setting, ways, Match.atStart]
  refine head?_flatMap_of_head? (head?_ways_keyword (map_caseFold_of_isKeyword hraw)) ?_
  rw [ways_optional, value, mark, ways_both_one_of_head (colon_refuses_boundary hrest)]
  rfl

/-- **The first match of a keyword with a value is the whole of it.** -/
theorem first?_setting_valued {name : SettingName} {value : List Char} (hraw : IsKeyword name raw)
    (hvalue : ∀ c ∈ value, isBlank c = false) (hrest : AtBoundary rest) (isWord : Char → Bool) :
    setting.first? isWord (raw ++ ':' :: value ++ rest) =
      some ⟨raw ++ ':' :: value, rest, [(2, ⟨raw ++ [':'], value⟩), (1, ⟨[], raw⟩)]⟩ := by
  rw [first?, setting, ways, Match.atStart, List.append_assoc]
  refine head?_flatMap_of_head? (head?_ways_keyword (map_caseFold_of_isKeyword hraw)) ?_
  have hmany : (ways isWord (many (one isInk))
      ⟨raw ++ [':'], value ++ rest, [(1, ⟨[], raw⟩)]⟩).head? =
      some ⟨raw ++ [':'] ++ value, rest, [(1, ⟨[], raw⟩)]⟩ :=
    head?_rounds_one (by simpa using hvalue) hrest.isInk_head (by simp)
  rw [ways_optional, Pattern.value, mark, List.cons_append, ways_both_one_cons rfl, ways,
    List.nil_append, List.head?_append, List.head?_map, hmany]
  simp [Match.hold]

/-! ## Pools -/

/-- An item of a list begins with ink. -/
theorem isBlank_of_mem_ways_listItem (h : later ∈ ways isWord listItem found) :
    ∃ c cs, found.rest = c :: cs ∧ isBlank c = false := by
  rcases mem_ways_either.1 h with h | h
  · obtain ⟨c, rest, hrest, hc, -⟩ := mem_ways_one.1 h
    refine ⟨c, rest, hrest, ?_⟩
    simpa using (Bool.and_eq_true_iff.1 hc).1
  · obtain ⟨between, hquote, -⟩ := mem_ways_both.1 h
    obtain ⟨c, rest, hrest, hc, -⟩ := mem_ways_one.1 hquote
    obtain rfl : c = '"' := by simpa using hc
    exact ⟨'"', rest, hrest, by decide⟩

theorem ways_listItem_of_atBoundary (h : AtBoundary found.rest) :
    ways isWord listItem found = [] := by
  refine List.eq_nil_iff_forall_not_mem.2 fun later hlater => ?_
  obtain ⟨c, cs, hrest, hink⟩ := isBlank_of_mem_ways_listItem hlater
  rw [h c (by rw [hrest]; rfl)] at hink
  cases hink

/-- A quotation is read to its end first: to the next quote, or to the end of
the text. -/
theorem exists_head?_quotation (isWord : Char → Bool) (read cs : List Char)
    (groups : List (Nat × Held)) :
    ∃ piece rest, cs = piece ++ rest ∧
      (ways isWord quotation ⟨read, '"' :: cs, groups⟩).head? =
        some ⟨read ++ '"' :: piece, rest, groups⟩ ∧
      quotedRun true cs = (piece ++ (quotedRun false rest).1, (quotedRun false rest).2) := by
  have hplain : ∀ c ∈ cs.takeWhile (fun c => !isQuote c), isQuote c = false := fun c hc => by
    simpa using List.mem_takeWhile_imp hc
  have hstop := List.head?_dropWhile_not (fun c => !isQuote c) cs
  have hcs : cs.takeWhile (fun c => !isQuote c) ++ cs.dropWhile (fun c => !isQuote c) = cs :=
    List.takeWhile_append_dropWhile
  generalize cs.takeWhile (fun c => !isQuote c) = inner at hplain hcs
  generalize cs.dropWhile (fun c => !isQuote c) = rest at hstop hcs
  subst hcs
  have hmany (hrest : ∀ c ∈ rest.head?, (!isQuote c) = false) :
      (ways isWord (many (one fun c => !isQuote c)) ⟨read ++ ['"'], inner ++ rest, groups⟩).head? =
        some ⟨read ++ ['"'] ++ inner, rest, groups⟩ :=
    head?_rounds_one (by simpa using hplain) hrest (by simp)
  have hrun : quotedRun true (inner ++ rest) =
      (inner ++ (quotedRun true rest).1, (quotedRun true rest).2) := by
    rw [quotedRun_append_of_unbroken (unbroken_of_plain hplain), quotedAfter_of_plain hplain]
  cases rest with
  | nil =>
    -- the quote is never closed
    refine ⟨inner, [], rfl, ?_, ?_⟩
    · rw [quotation, mark, ways_both_one_cons rfl, ways]
      refine head?_flatMap_of_head? (hmany (by simp)) ?_
      simp [ways]
    · rw [hrun]
      simp [quotedRun]
  | cons c rest =>
    obtain rfl : c = '"' := by simpa [isQuote] using hstop
    refine ⟨inner ++ ['"'], rest, by simp, ?_, ?_⟩
    · rw [quotation, mark, ways_both_one_cons rfl, ways]
      refine head?_flatMap_of_head? (hmany (by simp [isQuote])) ?_
      simp [ways]
    · rw [hrun]
      simp [quotedRun, isQuote]

/-- **A list is matched as a quoted run is read**: the item that is matched first
is a beginning of the run, and the run goes on after it as a list does. -/
theorem exists_head?_listItem (isWord : Char → Bool) (read cs : List Char)
    (groups : List (Nat × Held)) (hink : isBlank c = false) :
    ∃ item rest, c :: cs = item ++ rest ∧ item ≠ [] ∧
      (ways isWord listItem ⟨read, c :: cs, groups⟩).head? = some ⟨read ++ item, rest, groups⟩ ∧
      quotedRun false (c :: cs) =
        (item ++ (quotedRun false rest).1, (quotedRun false rest).2) := by
  by_cases hquote : isQuote c = true
  · obtain rfl : c = '"' := by simpa [isQuote] using hquote
    obtain ⟨piece, rest, rfl, hhead, hrun⟩ := exists_head?_quotation isWord read cs groups
    refine ⟨'"' :: piece, rest, rfl, by simp, ?_, ?_⟩
    · rw [listItem, ways, ways_one_of_head (by simp [isQuote]), List.nil_append, hhead]
    · rw [quotedRun, hink, Bool.false_and, if_neg (by simp)]
      simp [isQuote, hrun]
  · have hplain : isQuote c = false := by simpa using hquote
    refine ⟨[c], cs, rfl, by simp, ?_, ?_⟩
    · rw [listItem, ways, ways_one_cons (by simp [hink, hplain])]
      rfl
    · rw [quotedRun, hink, Bool.false_and, if_neg (by simp), hplain]
      rfl

/-- Rounds of items read a quoted run. -/
theorem head?_rounds_listItem (hlength : cs.length ≤ n) (read : List Char)
    (groups : List (Nat × Held)) :
    (rounds (ways isWord listItem) n ⟨read, cs, groups⟩).head? =
      some ⟨read ++ (quotedRun false cs).1, (quotedRun false cs).2, groups⟩ := by
  induction n generalizing cs read with
  | zero =>
    obtain rfl := List.length_eq_zero_iff.1 (Nat.le_zero.1 hlength)
    simp [rounds, quotedRun]
  | succ n ih =>
    by_cases hend : AtBoundary cs
    · rw [head?_rounds_of_eq_nil (ways_listItem_of_atBoundary hend), quotedRun_of_atBoundary hend,
        List.append_nil]
    · obtain ⟨c, cs, rfl⟩ : ∃ c tail, cs = c :: tail := by
        refine List.exists_cons_of_ne_nil ?_
        rintro rfl
        exact hend atBoundary_nil
      have hink : isBlank c = false := by simpa using hend
      obtain ⟨item, rest, hsplit, hne, hhead, hrun⟩ := exists_head?_listItem isWord read cs
        groups hink
      have hshorter : rest.length ≤ n := by
        have hsum := congrArg List.length hsplit
        have hpos := List.length_pos_iff.2 hne
        simp only [List.length_append, List.length_cons] at hsum hlength
        omega
      rw [head?_rounds_succ hhead, ih hshorter, hrun, List.append_assoc]

theorem head?_ways_list (hink : isBlank c = false) (read : List Char)
    (groups : List (Nat × Held)) :
    (ways isWord list ⟨read, c :: cs, groups⟩).head? =
      some ⟨read ++ (quotedRun false (c :: cs)).1, (quotedRun false (c :: cs)).2,
        (2, ⟨read, (quotedRun false (c :: cs)).1⟩) :: groups⟩ := by
  obtain ⟨item, rest, -, -, hhead, hrun⟩ := exists_head?_listItem isWord read cs groups hink
  have hmore : (ways isWord (many listItem) ⟨read ++ item, rest, groups⟩).head? = _ :=
    head?_rounds_listItem (Nat.le_refl rest.length) _ _
  rw [list, ways, List.head?_map, atLeastOne, ways, head?_flatMap_of_head? hhead hmore, hrun]
  simp [Match.hold]

theorem ways_pool :
    ways isWord pool found =
      (ways isWord (group 1 field) found).flatMap
          (fun count => (ways isWord (one fun c => c == ';' || c == '*') count).flatMap
            (ways isWord list)) ++
        ways isWord list found := by
  rw [pool, ways, ways_optional, poolCount, ways, List.flatMap_append, List.flatMap_assoc,
    List.flatMap_singleton]

/-- **The first match of a pool without a count is its list.** -/
theorem first?_pool_plain (hcount : ¬ Counted (c :: cs)) (hink : isBlank c = false)
    (isWord : Char → Bool) :
    pool.first? isWord (c :: cs) =
      some ⟨(quotedRun false (c :: cs)).1, (quotedRun false (c :: cs)).2,
        [(2, ⟨[], (quotedRun false (c :: cs)).1⟩)]⟩ := by
  have hnone : (ways isWord (group 1 field) (.atStart (c :: cs))).flatMap
      (fun count => (ways isWord (one fun c => c == ';' || c == '*') count).flatMap
        (ways isWord list)) = [] := by
    refine List.eq_nil_iff_forall_not_mem.2 fun found hfound => hcount ?_
    obtain ⟨between, hfield, hfound⟩ := List.mem_flatMap.1 hfound
    obtain ⟨later, hmark, hlist⟩ := List.mem_flatMap.1 hfound
    obtain ⟨ds, rest, hrest, hds, rfl⟩ := mem_ways_group_field.1 hfield
    obtain ⟨sep, rest', hrest', hsep, rfl⟩ := mem_ways_one.1 hmark
    obtain rfl : rest = sep :: rest' := hrest'
    obtain ⟨inner, hinner, -⟩ := mem_ways_group.1 hlist
    obtain ⟨item, hitem, -⟩ := mem_ways_both.1 hinner
    obtain ⟨d, tail, htail, hd⟩ := isBlank_of_mem_ways_listItem hitem
    obtain rfl : rest' = d :: tail := htail
    have hcs : c :: cs = ds ++ sep :: d :: tail := hrest
    rw [hcs]
    exact .field hds (by simpa using hsep) hd
  rw [first?, ways_pool, hnone, List.nil_append, Match.atStart, head?_ways_list hink]
  rfl

/-- **The first match of a pool with a count is the count and the list.** -/
theorem first?_pool_counted {sep : Char} (hds : IsField ds) (hsep : sep = ';' ∨ sep = '*')
    (hink : isBlank c = false) (isWord : Char → Bool) :
    pool.first? isWord (ds ++ sep :: c :: cs) =
      some ⟨ds ++ sep :: (quotedRun false (c :: cs)).1, (quotedRun false (c :: cs)).2,
        [(2, ⟨ds ++ [sep], (quotedRun false (c :: cs)).1⟩), (1, ⟨[], ds⟩)]⟩ := by
  have hdigit : ∀ e ∈ (sep :: c :: cs).head?, e.isDigit = false := by
    rintro _ ⟨⟩
    rcases hsep with rfl | rfl <;> rfl
  have hrefuse (read : List Char) (e : Char) (rest : List Char) (groups : List (Nat × Held))
      (he : e.isDigit = true) :
      (ways isWord (one fun c => c == ';' || c == '*') ⟨read, e :: rest, groups⟩).flatMap
        (ways isWord list) = [] := by
    refine ways_both_one_of_head ?_
    rintro _ ⟨⟩
    rw [Bool.or_eq_false_iff, beq_eq_false_iff_ne, beq_eq_false_iff_ne]
    constructor <;> rintro rfl <;> cases he
  have hmark : (sep == ';' || sep == '*') = true := by simpa using hsep
  rw [first?, ways_pool, Match.atStart, flatMap_group_field hrefuse hds hdigit,
    ways_one_cons hmark, List.flatMap_singleton, List.head?_append, head?_ways_list hink]
  simp

end Pattern

end MissionText
