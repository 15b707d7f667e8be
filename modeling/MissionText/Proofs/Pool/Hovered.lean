import Mathlib.Data.List.Pairwise
import MissionText.Proofs.Checked.Hover
import MissionText.Proofs.Pool.Resolution
import MissionText.Proofs.Pool.Segments
import MissionText.Proofs.Scan.Tiling
/-!
# Hovers — the identifiers of a pool

A pointer on a character of a pool's list that is no separator points at the
segment of the list around it (`PointsAt`), and what is shown there hangs on the
segment alone: its text without quotes and outer blanks, unless nothing is left
of it. The list of a pool is resolved the other way round, without its quotes
and outer blanks first and split afterwards; both ways come to the same
identifiers (`hovers_are_identifiers`).
-/

namespace MissionText

open Text Token Scan

variable {context : Context} {text : String} {token : Token} {pool : PoolToken} {hover : Hover}
  {list segment : List Char} {offset other start n : Nat}

/-! ## The list under an offset -/

/-- **The list of a pool stands in the text** at the end of its token. -/
theorem Scan.exists_list (hmem : token ∈ (ofText text).tokens) (hkind : token.kind = .pool pool) :
    token.span.start ≤ pool.idListStart ∧ token.span.stop = pool.stop ∧
      ∃ front back, text.toList = front ++ (pool.idList.toList ++ back) ∧
        width front = pool.idListStart := by
  obtain ⟨lead, piece, after, prior, later, haround⟩ := (laid_ofChars _).exists_around hmem
  rw [haround.read] at hkind
  have hstop := Checked.stop_of_pool hkind
  rw [← haround.read] at hstop
  rw [haround.isPiece.ofPiece_pool (ofRun?_eq_none_of_kind hkind)] at hkind
  obtain ⟨head, hpiece, hhead⟩ := PoolToken.exists_readCount_append piece
  obtain rfl := TokenKind.pool.inj hkind
  refine ⟨?_, hstop, lead ++ head, after, ?_, ?_⟩
  · rw [haround.span_start]
    exact Nat.le_add_right _ _
  · rw [haround.text, String.toList_ofList, List.append_assoc, ← List.append_assoc head, ← hpiece]
  · simp only [width_append, hhead, Nat.zero_add]

/-- Tokens stand apart, so no two of them hold the same offset. -/
theorem Scan.eq_of_shared {token' : Token} (hmem : token ∈ (ofText text).tokens)
    (hmem' : token' ∈ (ofText text).tokens) (hstart : token.span.start ≤ offset)
    (hstop : offset < token.span.stop) (hstart' : token'.span.start ≤ offset)
    (hstop' : offset < token'.span.stop) : token = token' := by
  by_contra hne
  have hsymm : Std.Symm fun a b : Token =>
      a.span.stop < b.span.start ∨ b.span.stop < a.span.start := ⟨fun _ _ => Or.symm⟩
  have hapart : (ofText text).tokens.Pairwise fun a b =>
      a.span.stop < b.span.start ∨ b.span.stop < a.span.start :=
    (tiles_ofChars text.toList).apart.imp .inl
  have := hapart.forall hmem hmem' hne
  omega

/-- **The pool at an offset** is the only one in whose list the offset lies. -/
theorem Scan.poolAt?_eq_some_iff : (ofText text).poolAt? offset = some pool ↔
    (∃ token ∈ (ofText text).tokens, token.kind = .pool pool) ∧
      pool.idListStart ≤ offset ∧ offset < pool.stop := by
  have hpools {found : PoolToken} : found ∈ (ofText text).pools ↔
      ∃ token ∈ (ofText text).tokens, token.kind = .pool found := by
    simp only [pools, List.mem_filterMap, pool?_eq_some_iff]
  constructor
  · intro h
    have hin := List.find?_some h
    simp only [Bool.and_eq_true, decide_eq_true_eq] at hin
    exact ⟨hpools.1 (List.mem_of_find?_eq_some h), hin⟩
  · rintro ⟨⟨token, hmem, hkind⟩, hin⟩
    cases hfound : (ofText text).poolAt? offset with
    | none =>
      have hnone := List.find?_eq_none.1 hfound pool (hpools.2 ⟨token, hmem, hkind⟩)
      simp only [Bool.and_eq_true, decide_eq_true_eq] at hnone
      exact absurd hin hnone
    | some found =>
      have hin' := List.find?_some hfound
      simp only [Bool.and_eq_true, decide_eq_true_eq] at hin'
      obtain ⟨token', hmem', hkind'⟩ := hpools.1 (List.mem_of_find?_eq_some hfound)
      obtain ⟨hstart, hstop, -⟩ := exists_list hmem hkind
      obtain ⟨hstart', hstop', -⟩ := exists_list hmem' hkind'
      have hsame : token = token' :=
        eq_of_shared hmem hmem' (hstart.trans hin.1) (hstop ▸ hin.2) (hstart'.trans hin'.1)
          (hstop' ▸ hin'.2)
      rw [hsame, hkind'] at hkind
      rw [TokenKind.pool.inj hkind]

/-- **The piece around an offset is the segment in which a character begins
there.** -/
theorem pieceAt?_eq_some_iff : pieceAt? list n = some (start, segment) ↔
    ∃ before after head c tail, Segment list before segment after ∧ width before = start ∧
      segment = head ++ c :: tail ∧ start + width head = n := by
  constructor
  · intro h
    cases hcut : cut? list n with
    | none => simp [pieceAt?, hcut] at h
    | some halves =>
      obtain ⟨front, rest⟩ := halves
      obtain ⟨rfl, rfl⟩ := append_of_cut? hcut
      cases rest with
      | nil =>
        rw [pieceAt?, hcut] at h
        cases h
      | cons c rest =>
        rw [Checked.pieceAt?_of_cut? hcut] at h
        split at h
        · cases h
        · rename_i hsep
          obtain ⟨rfl, rfl⟩ := Prod.mk.inj (Option.some.inj h)
          have hwidth := congrArg width (splitAfterLast_append isSeparator front)
          rw [width_append] at hwidth
          refine ⟨_, _, _, c, rest.takeWhile fun d => !isSeparator d,
            segment_around front (c :: rest), rfl, ?_, hwidth⟩
          rw [List.takeWhile_cons, if_pos (by simpa using hsep)]
  · rintro ⟨before, after, head, c, tail, hsegment, rfl, rfl, rfl⟩
    have hc : isSeparator c = false := hsegment.plain c (by simp)
    have htext : list = (before ++ head) ++ c :: (tail ++ after) := by
      rw [hsegment.text]
      simp
    have hcut := cut?_append (before ++ head) (c :: (tail ++ after))
    rw [← htext, width_append] at hcut
    obtain ⟨hbefore, hhead, htail⟩ := hsegment.around
    rw [Checked.pieceAt?_of_cut? hcut, hc, hbefore, hhead, htail]
    rfl

/-! ## Pointing -/

/-- **What an offset points at**: the segment of a pool's list around a character
that is no separator. -/
structure PointsAt (text : String) (offset : Nat) (pool : PoolToken) (start : Nat)
    (segment : List Char) : Prop where
  isPool : ∃ token ∈ (ofText text).tokens, token.kind = .pool pool
  /-- A character of the list begins at the offset, and it is no separator. -/
  character : ∃ front c rest, pool.idList.toList = front ++ c :: rest ∧
    pool.idListStart + width front = offset ∧ isSeparator c = false
  around : ∃ before after, Segment pool.idList.toList before segment after ∧ width before = start
  start_le : pool.idListStart + start ≤ offset
  lt_stop : offset < pool.idListStart + start + width segment

/-- Two splits of a text, one of them in a part of the other. -/
theorem exists_inner_split {front before after rest : List Char} {c : Char}
    (h : front ++ c :: rest = before ++ (segment ++ after)) (hle : width before ≤ width front)
    (hlt : width front < width before + width segment) :
    ∃ head tail, segment = head ++ c :: tail ∧ front = before ++ head := by
  have hprefix : before <+: front := by
    rcases List.prefix_or_prefix_of_prefix ⟨_, h.symm⟩ ⟨_, rfl⟩ with hpre | ⟨more, rfl⟩
    · exact hpre
    · obtain rfl : more = [] := Checked.width_eq_zero_iff.1 (by rw [width_append] at hle; omega)
      simp
  obtain ⟨head, rfl⟩ := hprefix
  rw [List.append_assoc] at h
  have htail := List.append_cancel_left h
  rcases List.append_eq_append_iff.1 htail with ⟨more, hsegment, hrest⟩ | ⟨more, rfl, hrest⟩
  · cases more with
    | nil =>
      rw [hsegment, width_append] at hlt
      simp at hlt
    | cons d more =>
      obtain ⟨rfl, -⟩ := List.cons.inj hrest
      exact ⟨head, more, hsegment, rfl⟩
  · rw [width_append, width_append] at hlt
    omega

/-- An offset points at the piece around it. -/
theorem pointsAt_iff : PointsAt text offset pool start segment ↔
    (ofText text).poolAt? offset = some pool ∧
      pieceAt? pool.idList.toList (offset - pool.idListStart) = some (start, segment) := by
  rw [poolAt?_eq_some_iff, pieceAt?_eq_some_iff]
  constructor
  · intro h
    obtain ⟨front, c, rest, hlist, rfl, -⟩ := h.character
    obtain ⟨before, after, hsegment, rfl⟩ := h.around
    have hle := h.start_le
    have hlt := h.lt_stop
    obtain ⟨head, tail, hparts, rfl⟩ := exists_inner_split (hlist.symm.trans hsegment.text)
      (by omega) (by omega)
    have hpos := c.utf8Size_pos
    refine ⟨⟨h.isPool, by omega, ?_⟩, before, after, head, c, tail, hsegment, rfl, hparts, ?_⟩
    · rw [PoolToken.stop, hlist, width_append _ (c :: rest), width_cons]
      omega
    · rw [width_append]
      omega
  · rintro ⟨⟨hpool, hle, hlt⟩, before, after, head, c, tail, hsegment, rfl, rfl, hoffset⟩
    have hpos := c.utf8Size_pos
    refine ⟨hpool, ⟨before ++ head, c, tail ++ after, ?_, ?_, hsegment.plain c (by simp)⟩,
      ⟨before, after, hsegment, rfl⟩, by omega, ?_⟩
    · rw [hsegment.text]
      simp
    · rw [width_append]
      omega
    · rw [width_append, width_cons]
      omega

/-- **Every character of a list that is no separator is pointed at.** -/
theorem exists_pointsAt (hmem : token ∈ (ofText text).tokens) (hkind : token.kind = .pool pool)
    {front rest : List Char} {c : Char} (hlist : pool.idList.toList = front ++ c :: rest)
    (hc : isSeparator c = false) :
    ∃ start segment, PointsAt text (pool.idListStart + width front) pool start segment := by
  have hsegment := segment_around front (c :: rest)
  rw [← hlist] at hsegment
  have hwidth := congrArg width (splitAfterLast_append isSeparator front)
  have hpos := c.utf8Size_pos
  rw [width_append] at hwidth
  refine ⟨_, _, ⟨token, hmem, hkind⟩, ⟨front, c, rest, hlist, rfl, hc⟩, ⟨_, _, hsegment, rfl⟩,
    by omega, ?_⟩
  rw [width_append, List.takeWhile_cons, if_pos (by simp [hc]), width_cons]
  omega

/-- A segment that is pointed at stands in the text. -/
theorem PointsAt.slice? (h : PointsAt text offset pool start segment) :
    slice? text.toList (pool.idListStart + start) (pool.idListStart + start + width segment) =
      some segment := by
  obtain ⟨token, hmem, hkind⟩ := h.isPool
  obtain ⟨-, -, front, back, htext, hfront⟩ := exists_list hmem hkind
  obtain ⟨before, after, hsegment, rfl⟩ := h.around
  have hslice := slice?_append (front ++ before) segment (after ++ back)
  rw [width_append, hfront] at hslice
  rw [htext, hsegment.text]
  simpa using hslice

/-! ## What is shown -/

/-- What is shown for a segment of a pool's list, unless nothing is left of it. -/
def hoverOf (context : Context) (pool : PoolToken) (place : Nat × List Char) : Option Hover :=
  if (idOf place.2).isEmpty then none
  else some ⟨idOf place.2, context.displayName? (idOf place.2),
    ⟨pool.idListStart + place.1, width place.2⟩⟩

/-- **What is shown hangs on the segment alone.** -/
theorem PointsAt.hover?_eq (h : PointsAt text offset pool start segment) :
    context.hover? text offset = hoverOf context pool (start, segment) := by
  obtain ⟨hpool, hpiece⟩ := pointsAt_iff.1 h
  simp only [Context.hover?, hpool, hpiece, Option.bind_eq_bind, Option.bind_some]
  rfl

theorem hover?_eq_some_iff : context.hover? text offset = some hover ↔
    ∃ pool start segment, PointsAt text offset pool start segment ∧
      hoverOf context pool (start, segment) = some hover := by
  constructor
  · intro h
    have hshown := h
    simp only [Context.hover?, Option.bind_eq_bind, Option.bind_eq_some_iff, Prod.exists] at h
    obtain ⟨pool, hpool, start, segment, hpiece, -⟩ := h
    have hpoints := pointsAt_iff.2 ⟨hpool, hpiece⟩
    exact ⟨pool, start, segment, hpoints, hpoints.hover?_eq.symm.trans hshown⟩
  · rintro ⟨pool, start, segment, hpoints, hshown⟩
    rw [hpoints.hover?_eq, hshown]

theorem hoverOf_eq_some_iff : hoverOf context pool (start, segment) = some hover ↔
    (∃ c ∈ segment, isQuote c = false ∧ isBlank c = false) ∧
      hover = ⟨idOf segment, context.displayName? (idOf segment),
        ⟨pool.idListStart + start, width segment⟩⟩ := by
  have hsolid : ¬ (idOf segment).isEmpty = true ↔
      ∃ c ∈ segment, isQuote c = false ∧ isBlank c = false := by
    rw [String.isEmpty_iff, idOf_eq_empty_iff]
    push Not
    simp
  rw [← hsolid, hoverOf]
  split
  · rename_i hempty
    simp [hempty]
  · rename_i hne
    simp [hne, eq_comm]

/-! ## All that is shown for a list -/

/-- What is shown for the segments of a pool's list, from left to right. -/
def hoversOf (context : Context) (pool : PoolToken) : List Hover :=
  (segmentsOf pool.idList.toList).filterMap (hoverOf context pool)

/-- What is shown for a segment is shown where the segment starts. -/
theorem exists_pointsAt_of_hoverOf (hmem : token ∈ (ofText text).tokens)
    (hkind : token.kind = .pool pool) (hplace : (start, segment) ∈ segmentsOf pool.idList.toList)
    (hshown : hoverOf context pool (start, segment) = some hover) :
    PointsAt text (pool.idListStart + start) pool start segment := by
  obtain ⟨before, after, hsegment, rfl⟩ := mem_segmentsOf_iff.1 hplace
  obtain ⟨⟨c, hc, -⟩, -⟩ := hoverOf_eq_some_iff.1 hshown
  obtain ⟨d, rest, rfl⟩ := List.exists_cons_of_ne_nil (List.ne_nil_of_mem hc)
  have hpos := d.utf8Size_pos
  refine ⟨⟨token, hmem, hkind⟩, ⟨before, d, rest ++ after, hsegment.text, rfl,
    hsegment.plain d List.mem_cons_self⟩, ⟨before, after, hsegment, rfl⟩, Nat.le_refl _, ?_⟩
  rw [width_cons]
  omega

/-- **All that is shown somewhere in a list.** -/
theorem mem_hoversOf_iff (hmem : token ∈ (ofText text).tokens) (hkind : token.kind = .pool pool) :
    hover ∈ hoversOf context pool ↔
      ∃ offset, pool.idListStart ≤ offset ∧ offset < pool.stop ∧
        context.hover? text offset = some hover := by
  simp only [hoversOf, List.mem_filterMap, Prod.exists]
  constructor
  · rintro ⟨start, segment, hplace, hshown⟩
    have hpoints := exists_pointsAt_of_hoverOf hmem hkind hplace hshown
    have hin := poolAt?_eq_some_iff.1 (pointsAt_iff.1 hpoints).1
    exact ⟨_, hin.2.1, hin.2.2, hpoints.hover?_eq.trans hshown⟩
  · rintro ⟨offset, hle, hlt, hshown⟩
    obtain ⟨found, start, segment, hpoints, hhover⟩ := hover?_eq_some_iff.1 hshown
    -- the offset lies in the list of one pool only
    have hsame := poolAt?_eq_some_iff.2 ⟨⟨token, hmem, hkind⟩, hle, hlt⟩
    rw [(pointsAt_iff.1 hpoints).1] at hsame
    obtain rfl := Option.some.inj hsame
    obtain ⟨before, after, hsegment, hstart⟩ := hpoints.around
    exact ⟨start, segment, mem_segmentsOf_iff.2 ⟨before, after, hsegment, hstart⟩, hhover⟩

/-- What is shown for a list stands in order and apart. -/
theorem pairwise_hoversOf (context : Context) (pool : PoolToken) :
    (hoversOf context pool).Pairwise fun a b => a.span.stop < b.span.start := by
  refine List.pairwise_filterMap.2 ((pairwise_placed 0 _).imp ?_)
  rintro ⟨start, segment⟩ ⟨start', segment'⟩ hapart hover hshown hover' hshown'
  obtain ⟨-, rfl⟩ := hoverOf_eq_some_iff.1 hshown
  obtain ⟨-, rfl⟩ := hoverOf_eq_some_iff.1 hshown'
  simp only [Span.stop] at hapart ⊢
  omega

/-- **What is shown for a list are its identifiers**, without the empty ones. -/
theorem hoversOf_map_id (context : Context) (pool : PoolToken) :
    (hoversOf context pool).map (·.id) = (identifiersOf pool.list).filter (· ≠ "") := by
  rw [PoolToken.list, identifiersOf_unquoted, hoversOf]
  induction segmentsOf pool.idList.toList with
  | nil => rfl
  | cons place places ih =>
    rw [List.filterMap_cons, hoverOf, List.map_cons, List.filter_cons]
    by_cases hempty : idOf place.2 = ""
    · simpa [hempty] using ih
    · simpa [hempty] using ih

/-- **What is shown under a pointer are the identifiers of a pool.** Something is
shown exactly on the characters of a pool's list that are no separators and stand
in a segment with more than quotes and blanks; it is the segment without its
quotes and outer blanks, the same all over the segment, and stands where the
segment does. For a list that is neither the identifier of a category nor a
reference to a profile, all that is shown, from left to right, are the
identifiers that are looked up for the pool, but for the empty ones. -/
theorem hovers_are_identifiers (context : Context) (text : String) :
    (∀ offset hover, context.hover? text offset = some hover ↔
      ∃ pool start segment, PointsAt text offset pool start segment ∧
        (∃ c ∈ segment, isQuote c = false ∧ isBlank c = false) ∧
        hover = ⟨String.ofList (trim (unquoted segment)),
          context.displayName? (String.ofList (trim (unquoted segment))),
          ⟨pool.idListStart + start, width segment⟩⟩) ∧
    (∀ offset other pool start segment, PointsAt text offset pool start segment →
      PointsAt text other pool start segment →
        context.hover? text offset = context.hover? text other ∧
        slice? text.toList (pool.idListStart + start) (pool.idListStart + start + width segment) =
          some segment) ∧
    ∀ token ∈ (ofText text).tokens, ∀ pool, token.kind = .pool pool →
      (∀ front c rest, pool.idList.toList = front ++ c :: rest → isSeparator c = false →
        ∃ start segment, PointsAt text (pool.idListStart + width front) pool start segment) ∧
      ((∀ drawn : Category, pool.list ≠ drawn.id.toList) → profileReference? pool.list = none →
        context.resolvePool pool = context.resolveIds (identifiersOf pool.list) ∧
        ∃ hovers : List Hover,
          (∀ hover, hover ∈ hovers ↔ ∃ offset, pool.idListStart ≤ offset ∧ offset < pool.stop ∧
            context.hover? text offset = some hover) ∧
          hovers.Pairwise (fun a b => a.span.stop < b.span.start) ∧
          hovers.map (·.id) = (identifiersOf pool.list).filter (· ≠ "")) := by
  refine ⟨fun offset hover => ?_, fun offset other pool start segment h h' => ⟨?_, h.slice?⟩,
    fun token hmem pool hkind => ⟨fun front c rest => exists_pointsAt hmem hkind,
      fun hcategory href => ⟨?_, hoversOf context pool, ?_, ?_, ?_⟩⟩⟩
  · simp only [hover?_eq_some_iff, hoverOf_eq_some_iff, idOf]
  · rw [h.hover?_eq, h'.hover?_eq]
  · exact Context.resolveList_listed hcategory href
  · exact fun hover => mem_hoversOf_iff hmem hkind
  · exact pairwise_hoversOf context pool
  · exact hoversOf_map_id context pool

/-- A pool with a quoted identifier, an empty one, and one after it: the same is
shown at both ends of the quotes. -/
theorem hovers_are_identifiers_quoted :
    (ofText "1:00 3*\" Wires\",+Keypad").tokens.getLast? =
        some ⟨⟨5, 18⟩, .pool ⟨some 3, "\" Wires\",+Keypad", 7⟩⟩ ∧
      ({} : Context).hover? "1:00 3*\" Wires\",+Keypad" 7 =
        ({} : Context).hover? "1:00 3*\" Wires\",+Keypad" 14 ∧
      ∃ hovers : List Hover,
        (∀ hover, hover ∈ hovers ↔ ∃ offset, 7 ≤ offset ∧ offset < 23 ∧
          ({} : Context).hover? "1:00 3*\" Wires\",+Keypad" offset = some hover) ∧
        hovers.map (·.id) = ["Wires", "Keypad"] := by
  have hlast : (ofText "1:00 3*\" Wires\",+Keypad").tokens.getLast? =
      some ⟨⟨5, 18⟩, .pool ⟨some 3, "\" Wires\",+Keypad", 7⟩⟩ := by
    decide +kernel
  have hmem := List.mem_of_mem_getLast? (Option.mem_def.2 hlast)
  have hcategory : ∀ drawn : Category,
      PoolToken.list ⟨some 3, "\" Wires\",+Keypad", 7⟩ ≠ drawn.id.toList := by
    intro drawn
    cases drawn <;> decide
  have href : profileReference? (PoolToken.list ⟨some 3, "\" Wires\",+Keypad", 7⟩) = none := by
    decide
  have hids : (identifiersOf (PoolToken.list ⟨some 3, "\" Wires\",+Keypad", 7⟩)).filter (· ≠ "") =
      ["Wires", "Keypad"] := by
    decide +kernel
  -- both ends of the quotes are characters of the first segment
  have hsegment : Segment "\" Wires\",+Keypad".toList [] "\" Wires\"".toList ",+Keypad".toList :=
    ⟨by decide, not_of_all (by decide), nofun, by rintro c ⟨⟩; rfl⟩
  have hopen : PointsAt "1:00 3*\" Wires\",+Keypad" 7 ⟨some 3, "\" Wires\",+Keypad", 7⟩ 0
      "\" Wires\"".toList :=
    ⟨⟨_, hmem, rfl⟩, ⟨[], '"', " Wires\",+Keypad".toList, by decide, rfl, rfl⟩,
      ⟨_, _, hsegment, rfl⟩, by decide, by decide⟩
  have hclose : PointsAt "1:00 3*\" Wires\",+Keypad" 14 ⟨some 3, "\" Wires\",+Keypad", 7⟩ 0
      "\" Wires\"".toList :=
    ⟨⟨_, hmem, rfl⟩, ⟨"\" Wires".toList, '"', ",+Keypad".toList, by decide, by decide, rfl⟩,
      ⟨_, _, hsegment, rfl⟩, by decide, by decide⟩
  obtain ⟨-, hsame, hlist⟩ := hovers_are_identifiers {} "1:00 3*\" Wires\",+Keypad"
  obtain ⟨-, hovers, hall, -, hmap⟩ := (hlist _ hmem _ rfl).2 hcategory href
  rw [hids] at hmap
  exact ⟨hlast, (hsame _ _ _ _ _ hopen hclose).1, hovers, hall, hmap⟩

end MissionText
