import Mathlib.Data.List.Basic
import MissionText.Checked.Hover
import MissionText.Proofs.Checked.Scan
import MissionText.Proofs.Scan.Junction
/-!
# Checked hovers succeed

A pool ends where its token ends, so an offset in its list is not past the end
of the list. The piece around such an offset starts after the last separator
before it, which takes one byte, and ends before the first one after it.
-/

namespace MissionText.Checked

open Text Token Scan

variable {matcher : Matcher} {cs list before after : List Char} {token : Token}
  {pool : PoolToken} {offset start n : Nat}

/-! ## The pool at an offset -/

/-- **A pool ends where its token ends.** -/
theorem stop_of_pool (h : (ofPiece start cs).kind = .pool pool) :
    (ofPiece start cs).span.stop = pool.stop := by
  have hrun := ofRun?_eq_none_of_kind h
  rw [ofPiece, read_of_ofRun?_eq_none hrun] at h ⊢
  obtain rfl : (PoolToken.read start cs).1 = pool := TokenKind.pool.inj h
  have hstart : start ≤ (PoolToken.read start cs).1.stop := by
    rw [PoolToken.stop, PoolToken.read_eq]
    simp only
    omega
  simp only [Span.stop]
  omega

/-- The pool at an offset is the one in whose list the offset lies. -/
theorem findSome?_poolAt? (cs : List Char) (offset : Nat) :
    (ofChars cs).tokens.findSome? (poolAt? offset) = (ofChars cs).poolAt? offset := by
  have htoken : ∀ token ∈ (ofChars cs).tokens, poolAt? offset token =
      token.pool?.filter fun pool => pool.idListStart ≤ offset && offset < pool.stop := by
    intro token hmem
    obtain ⟨lead, piece, after, prior, later, haround⟩ := (laid_ofChars cs).exists_around hmem
    rw [poolAt?, haround.read]
    cases hkind : (ofPiece (0 + width lead) piece).kind with
    | pool pool => rw [stop_of_pool hkind, Token.pool?, hkind]; rfl
    | _ => simp only [Token.pool?, hkind]; rfl
  rw [Scan.poolAt?, Scan.pools, ← List.head?_filter, List.filter_filterMap,
    ← List.head?_filterMap, List.filterMap_congr htoken]

/-! ## The piece around an offset -/

/-- The piece around an offset, which is on a separator or on something else. -/
theorem pieceAt?_of_cut? {c : Char} {tail : List Char}
    (hcut : cut? list n = some (before, c :: tail)) :
    pieceAt? list n =
      if isSeparator c then none
      else some (width (splitAfterLast isSeparator before).1,
        (splitAfterLast isSeparator before).2 ++
          (c :: tail).takeWhile fun c => !isSeparator c) := by
  cases hsep : isSeparator c <;> simp [pieceAt?, hcut, hsep]

/-- The piece ends before the first separator after it. -/
theorem elim_firstOffset? (before after : List Char) :
    (firstOffset? isSeparator after).elim (width (before ++ after)) (width before + ·) =
      width before + width (after.takeWhile fun c => !isSeparator c) := by
  rw [firstOffset?_eq]
  split_ifs with hdrop
  · have htake : after.takeWhile (fun c => !isSeparator c) = after := by
      have := List.takeWhile_append_dropWhile (p := fun c => !isSeparator c) (l := after)
      rwa [hdrop, List.append_nil] at this
    rw [htake, width_append]
    rfl
  · rfl

/-- **The piece stands between its offsets.** -/
theorem between_piece (before after : List Char) :
    between (before ++ after) (width (splitAfterLast isSeparator before).1)
      (width before + width (after.takeWhile fun c => !isSeparator c)) =
        .ok ((splitAfterLast isSeparator before).2 ++
          after.takeWhile fun c => !isSeparator c) := by
  have hbefore := splitAfterLast_append isSeparator before
  have hafter := List.takeWhile_append_dropWhile (p := fun c => !isSeparator c) (l := after)
  generalize (splitAfterLast isSeparator before).1 = earlier at hbefore ⊢
  generalize (splitAfterLast isSeparator before).2 = head at hbefore ⊢
  generalize after.takeWhile (fun c => !isSeparator c) = tail at hafter ⊢
  rw [← hbefore, ← hafter, width_append, Nat.add_assoc, ← width_append, List.append_assoc,
    ← List.append_assoc head, between_append]

theorem difference_piece (before after : List Char) :
    difference (width before + width (after.takeWhile fun c => !isSeparator c))
      (width (splitAfterLast isSeparator before).1) =
        .ok (width ((splitAfterLast isSeparator before).2 ++
          after.takeWhile fun c => !isSeparator c)) := by
  have hbefore := congrArg width (splitAfterLast_append isSeparator before)
  rw [width_append] at hbefore
  rw [← hbefore, Nat.add_assoc, difference_add_left, width_append]

/-- **A checked hover is the hover.** -/
theorem hover_eq (matcher : Matcher) (context : Context) (text : String) (offset : Nat) :
    hover matcher context text offset = .ok (context.hover? text offset) := by
  rw [hover, scan_eq, ok_bind, Context.hover?, findSome?_poolAt?, ← Scan.ofText]
  cases hpool : (ofText text).poolAt? offset with
  | none => rfl
  | some pool =>
    have hin := List.find?_some hpool
    simp only [Bool.and_eq_true, decide_eq_true_eq] at hin
    obtain ⟨place, rfl⟩ := Nat.exists_eq_add_of_le hin.1
    have hplace : place < width pool.idList.toList := Nat.lt_of_add_lt_add_left hin.2
    simp only [difference_add_left, ok_bind, Option.bind_eq_bind, Option.bind_some,
      Nat.add_sub_cancel_left]
    cases hcut : cut? pool.idList.toList place with
    | none => simp [isBoundary, pieceAt?, hcut]
    | some halves =>
      obtain ⟨before, after⟩ := halves
      obtain ⟨hlist, rfl⟩ := append_of_cut? hcut
      rw [← hlist] at hplace hcut ⊢
      -- the offset is not past the list, so a character follows it
      have hafter : after ≠ [] := by
        rintro rfl
        simp at hplace
      obtain ⟨c, tail, rfl⟩ := List.exists_cons_of_ne_nil hafter
      rw [pieceAt?_of_cut? hcut]
      simp only [isBoundary_append, after_append, before_append, ok_bind, elim_firstOffset?]
      simp only [← width_splitAfterLast (p := isSeparator) fun _ => utf8Size_of_isSeparator,
        between_piece, difference_piece]
      cases hsep : isSeparator c with
      | true => simp [hsep]
      | false =>
        simp only [List.head?_cons, Option.any_some, hsep, ok_bind, pure_eq_ok, Bool.not_true,
          Bool.false_eq_true, if_false, Option.bind_some]
        split <;> rfl

end MissionText.Checked
