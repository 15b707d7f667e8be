import MissionText.Proofs.Scan.Layout
/-!
# Tilings — tokens cover a text but for blanks

What a scan promises about its text, in terms of spans and slices alone: every
span is a slice of the text that begins with ink, the spans stand in order and
apart, and wherever the tokens are divided in two, the text between the two
parts is blank (`Tiles`). A layout keeps the promise (`Laid.tiles`), so every
scan does (`tiles_ofChars`).
-/

namespace MissionText.Scan

open Text Token

variable {start : Nat} {cs before : List Char} {tokens : List Token} {token : Token}

/-- Where some tokens stop that begin at an offset or later. -/
def stopOf (start : Nat) (tokens : List Token) : Nat :=
  (tokens.getLast?.map (·.span.stop)).getD start

/-- Where some tokens start that end at an offset or earlier. -/
def startOf (stop : Nat) (tokens : List Token) : Nat :=
  (tokens.head?.map (·.span.start)).getD stop

@[simp] theorem stopOf_nil : stopOf start [] = start := rfl

@[simp] theorem stopOf_cons :
    stopOf start (token :: tokens) = stopOf token.span.stop tokens := by
  rw [stopOf, stopOf, List.getLast?_cons]
  cases tokens.getLast? <;> rfl

@[simp] theorem startOf_nil : startOf start [] = start := rfl

@[simp] theorem startOf_cons : startOf start (token :: tokens) = token.span.start := rfl

/-- Between two offsets of a text there are only blanks. -/
def BlankBetween (text : List Char) (start stop : Nat) : Prop :=
  ∃ gap, slice? text start stop = some gap ∧ Blank gap

/-- **The tokens cover the text** from an offset on, but for blanks. -/
structure Tiles (start : Nat) (text : List Char) (tokens : List Token) : Prop where
  /-- A span stands on character boundaries, and begins with ink. -/
  inked : ∀ token ∈ tokens, ∃ c cs,
    slice? text token.span.start token.span.stop = some (c :: cs) ∧ isBlank c = false
  /-- The spans stand in order, and no two of them touch. -/
  apart : tokens.Pairwise fun earlier later => earlier.span.stop < later.span.start
  /-- The text before, between and after the tokens is blank. -/
  blank : ∀ earlier later, earlier ++ later = tokens →
    BlankBetween text (stopOf start earlier) (startOf (width text) later)

/-- **A layout covers its text.** The text it is a part of may begin earlier. -/
theorem Laid.tiles (h : Laid start cs tokens) (hbefore : width before = start) :
    Tiles start (before ++ cs) tokens := by
  induction h generalizing before with
  | @blank start gap hgap =>
    refine ⟨by simp, .nil, fun earlier later hsplit => ⟨gap, ?_, hgap⟩⟩
    obtain ⟨rfl, rfl⟩ := List.append_eq_nil_iff.1 hsplit
    have hslice := slice?_append before gap []
    rwa [List.append_nil, ← width_append, hbefore] at hslice
  | @token start gap piece rest tokens hgap hpiece hrest hopen hlaid ih =>
    subst hbefore
    have hspan := hpiece.span_ofPiece (width before + width gap)
    have hstop := hpiece.stop_ofPiece (width before + width gap)
    -- the rest of the tokens, seen from the end of the piece
    have htail : Tiles (width before + width gap + width piece)
        (before ++ (gap ++ (piece ++ rest))) tokens := by
      have hwidth : width (before ++ (gap ++ piece)) = width before + width gap + width piece := by
        simp [Nat.add_assoc]
      simpa using ih hwidth
    refine ⟨fun token htoken => ?_, List.pairwise_cons.2 ⟨fun later hlater => ?_, htail.apart⟩,
      fun earlier later hsplit => ?_⟩
    · rcases List.mem_cons.1 htoken with rfl | htoken
      · obtain ⟨c, tail, rfl, hink⟩ := hpiece.exists_cons
        refine ⟨c, tail, ?_, hink⟩
        have hslice := slice?_append (before ++ gap) (c :: tail) rest
        rw [hstop, hspan, ← width_append]
        simpa using hslice
      · exact htail.inked token htoken
    · rw [hstop]
      exact hlaid.start_lt hrest later hlater
    · cases earlier with
      | nil =>
        refine ⟨gap, ?_, hgap⟩
        rw [List.nil_append] at hsplit
        rw [hsplit, startOf_cons, stopOf_nil, hspan]
        exact slice?_append before gap (piece ++ rest)
      | cons token earlier =>
        obtain ⟨rfl, htokens⟩ := List.cons.inj hsplit
        rw [stopOf_cons, hstop]
        exact htail.blank earlier later htokens

/-- **A scan covers its text.** -/
theorem tiles_ofChars (cs : List Char) : Tiles 0 cs (ofChars cs).tokens :=
  (laid_ofChars cs).tiles width_nil

/-- **A scan that finds tokens accounts for the whole line.** -/
theorem covers_ofText (text : String) :
    (ofText text).covers text = !(ofText text).tokens.isEmpty := by
  have hstop : (ofText text).stop = text.utf8ByteSize := by
    rw [ofText, ofChars_stop, width_toList]
  rw [covers, hstop]
  simp

end MissionText.Scan
