import MissionText.Command.Report
import MissionText.Proofs.Completion.Offered
import MissionText.Text.Search
/-!
# What is highlighted

A highlight is two numbers of bytes, and what they mean depends on the string in
which they stand: the explanation of a token, an identifier or a label. Whatever
is offered, they cut a piece out of that string between two characters
(`Candidate.Marks`), so a report can paint the piece. For an identifier this is
as much of the entry as is typed, although the characters that are typed may be
wider or narrower than those that are shown.
-/

namespace MissionText

open Text

variable {context : Context} {candidate : Candidate} {pool : PoolToken} {setting : SettingToken}
  {entry : Entry} {token : Token} {before head marked tail typed found : List Char}
  {id label : String}

namespace Candidate

/-- **A candidate marks a piece** of the string that its highlight is about: the
piece starts where the highlight does and is as wide. -/
structure Marks (candidate : Candidate) (head marked tail : List Char) : Prop where
  text : candidate.highlighted.toList = head ++ (marked ++ tail)
  start : width head = candidate.highlight.start
  length : width marked = candidate.highlight.length

/-- A row that explains a token marks the meaning. -/
theorem marks_explaining (title meaning : String) :
    (explaining title meaning).Marks title.toList meaning.toList [] where
  text := by simp [explaining, highlighted]
  start := width_toList title
  length := width_toList meaning

/-- The beginning of an identifier is marked. -/
theorem marks_byId (h : id.toList = marked ++ tail) (label : String) :
    (byId id label (width marked)).Marks [] marked tail where
  text := h
  start := rfl
  length := rfl

/-- The beginning of a label is marked. -/
theorem marks_byLabel (h : label.toList = marked ++ tail) (id : String) :
    (byLabel id label (width marked)).Marks [] marked tail where
  text := h
  start := rfl
  length := rfl

namespace Marks

variable (h : candidate.Marks head marked tail)

include h

/-- The end of the highlight. -/
theorem width_eq :
    candidate.highlight.start + candidate.highlight.length = width (head ++ marked) := by
  rw [width_append, h.start, h.length]

/-- A highlight starts at a boundary. -/
theorem isBoundary_start :
    isBoundary candidate.highlighted.toList candidate.highlight.start = true := by
  rw [h.text, ← h.start]
  exact isBoundary_append head (marked ++ tail)

/-- It ends at one. -/
theorem isBoundary_stop :
    isBoundary candidate.highlighted.toList
      (candidate.highlight.start + candidate.highlight.length) = true := by
  rw [h.text, h.width_eq, ← List.append_assoc]
  exact isBoundary_append (head ++ marked) tail

/-- **The marked piece is painted**, and what stands around it stays as it is. -/
theorem emphasized_eq (palette : Palette) :
    palette.emphasized candidate.highlighted candidate.highlight =
      String.ofList head ++ palette.paint .bold (palette.paint .green (String.ofList marked)) ++
        String.ofList tail := by
  -- a highlight that ends inside its string is not cut short at the end of it
  have hstop : min (candidate.highlight.start + candidate.highlight.length)
      candidate.highlighted.utf8ByteSize = width head + width marked := by
    rw [Nat.min_eq_left (le_of_isBoundary h.isBoundary_stop), h.width_eq, width_append]
  have hcut : cut? (head ++ (marked ++ tail)) (width head + width marked) =
      some (head ++ marked, tail) := by
    rw [← width_append, ← List.append_assoc, cut?_append]
  rw [Palette.emphasized]
  simp only [hstop]
  simp only [h.text, ← h.start, cut?_append, slice?_append, hcut]
  rfl

end Marks

end Candidate

/-! ## What each row marks -/

/-- What a number may become marks the number. -/
theorem exists_marks_of_mem_suggestNumber {digits : String}
    (h : candidate ∈ suggestNumber digits) :
    ∃ tail, candidate.Marks [] digits.toList tail := by
  simp only [suggestNumber, ← width_toList, List.mem_cons, List.not_mem_nil, or_false] at h
  rcases h with rfl | rfl | rfl <;>
    exact ⟨_, Candidate.marks_byId String.toList_append _⟩

/-- **The candidate for an entry marks what is typed** in its identifier or in its
label, in the case in which it is shown. -/
theorem exists_marks_of_candidateOf? (h : candidateOf? typed entry = some candidate) :
    ∃ marked tail, candidate.Marks [] marked tail ∧
      marked.map lowercase = typed.map lowercase := by
  rw [candidateOf?] at h
  split at h
  · rename_i found hfound
    obtain ⟨⟨tail, htail⟩, hlower⟩ := matched?_eq_some_iff.1 hfound
    cases h
    exact ⟨found, tail, Candidate.marks_byId htail.symm _, hlower⟩
  · simp only [Option.map_eq_some_iff] at h
    obtain ⟨found, hfound, rfl⟩ := h
    obtain ⟨⟨tail, htail⟩, hlower⟩ := matched?_eq_some_iff.1 hfound
    exact ⟨found, tail, Candidate.marks_byLabel htail.symm _, hlower⟩

/-- A candidate for an identifier marks a beginning that is what is typed, up to
case. -/
theorem exists_marks_of_mem_suggestPool (h : candidate ∈ context.suggestPool pool) :
    ∃ marked tail, candidate.Marks [] marked tail ∧
      marked.map lowercase = pool.stub.toList.map lowercase := by
  rcases Context.mem_suggestPool h with hnumber | ⟨entry, -, hentry⟩
  · obtain ⟨tail, hmarks⟩ := exists_marks_of_mem_suggestNumber hnumber
    exact ⟨_, tail, hmarks, rfl⟩
  · exact exists_marks_of_candidateOf? hentry

/-- A candidate for a factory mode marks the keyword and as much of the mode as is
typed. -/
theorem exists_marks_of_mem_suggestModes {value : String} (h : candidate ∈ suggestModes value) :
    ∃ (mode : FactoryMode) (found tail : List Char),
      candidate.id = "factory:" ++ mode.id ∧ candidate.highlight.target = .id ∧
      candidate.Marks [] ("factory:".toList ++ found) tail ∧
      found <+: mode.id.toList ∧ found.map lowercase = value.toList.map lowercase := by
  simp only [suggestModes, List.mem_filterMap, Option.map_eq_some_iff] at h
  obtain ⟨mode, -, found, hfound, rfl⟩ := h
  obtain ⟨⟨tail, htail⟩, hlower⟩ := matched?_eq_some_iff.1 hfound
  have hid : ("factory:" ++ mode.id).toList = "factory:".toList ++ found ++ tail := by
    rw [String.toList_append, ← htail, List.append_assoc]
  have hwidth : "factory:".utf8ByteSize + width found = width ("factory:".toList ++ found) := by
    rw [width_append, width_toList]
  refine ⟨mode, found, tail, rfl, rfl, ?_, ⟨tail, htail⟩, hlower⟩
  rw [hwidth]
  exact Candidate.marks_byId hid _

/-- Whatever is offered for a setting marks a piece. -/
theorem exists_marks_of_mem_suggestSetting (h : candidate ∈ context.suggestSetting setting) :
    ∃ head marked tail, candidate.Marks head marked tail := by
  rw [Context.suggestSetting] at h
  split at h
  · obtain rfl := List.mem_singleton.1 h
    exact ⟨_, _, _, Candidate.marks_explaining _ _⟩
  · split at h
    · obtain rfl := List.mem_singleton.1 h
      refine ⟨[], _, [], ⟨(List.append_nil _).symm, rfl, width_toList _⟩⟩
    · obtain ⟨mode, found, tail, -, -, hmarks, -, -⟩ := exists_marks_of_mem_suggestModes h
      exact ⟨_, _, _, hmarks⟩

/-! ## Whatever is offered -/

/-- **What the marked piece has to do with what is typed.** For an identifier it
is the beginning of what is shown, as long as what is typed and the same in
lowercase. For a factory mode it is the keyword, a colon and such a beginning of
the mode. -/
structure Context.MarksTyped (context : Context) (token : Token) (candidate : Candidate)
    (head marked : List Char) : Prop where
  identifier : ∀ pool, token.kind = .pool pool →
    head = [] ∧ marked.length = pool.stub.toList.length ∧
      marked.map lowercase = pool.stub.toList.map lowercase
  mode : ∀ setting, token.kind = .setting setting → setting.name = .factory →
    context.factoryEnabled = true →
    ∃ (mode : FactoryMode) (found : List Char),
      candidate.id = "factory:" ++ mode.id ∧ candidate.highlight.target = .id ∧ head = [] ∧
      marked = "factory:".toList ++ found ∧ found <+: mode.id.toList ∧
      found.map lowercase = (setting.rawValue.getD "").toList.map lowercase

/-- Whatever is offered for a token marks a piece. -/
theorem exists_marks_of_mem_suggestAfter (htoken : inProgress? before = some token)
    (h : candidate ∈ context.suggestAfter before) :
    ∃ head marked tail, candidate.Marks head marked tail ∧
      context.MarksTyped token candidate head marked := by
  rw [Context.suggestAfter, htoken] at h
  obtain ⟨span, kind⟩ := token
  cases kind with
  | time time =>
    obtain rfl := List.mem_singleton.1 h
    exact ⟨_, _, _, Candidate.marks_explaining _ _, by rintro _ ⟨⟩, by rintro _ ⟨⟩⟩
  | strikes count =>
    obtain rfl := List.mem_singleton.1 h
    exact ⟨_, _, _, Candidate.marks_explaining _ _, by rintro _ ⟨⟩, by rintro _ ⟨⟩⟩
  | setting setting =>
    by_cases hmode : setting.name = .factory ∧ context.factoryEnabled = true
    · have hmem : candidate ∈ suggestModes (setting.rawValue.getD "") := by
        simpa [Context.suggestSetting, hmode] using h
      obtain ⟨mode, found, tail, hid, htarget, hmarks, hpre, hlower⟩ :=
        exists_marks_of_mem_suggestModes hmem
      refine ⟨_, _, tail, hmarks, by rintro _ ⟨⟩, ?_⟩
      rintro _ ⟨⟩ - -
      exact ⟨mode, found, hid, htarget, rfl, rfl, hpre, hlower⟩
    · obtain ⟨head, marked, tail, hmarks⟩ := exists_marks_of_mem_suggestSetting h
      refine ⟨head, marked, tail, hmarks, by rintro _ ⟨⟩, ?_⟩
      rintro _ ⟨⟩ hname henabled
      exact absurd ⟨hname, henabled⟩ hmode
  | pool pool =>
    obtain ⟨marked, tail, hmarks, hlower⟩ := exists_marks_of_mem_suggestPool h
    refine ⟨[], marked, tail, hmarks, ?_, by rintro _ ⟨⟩⟩
    rintro _ ⟨⟩
    exact ⟨rfl, by simpa using congrArg List.length hlower, hlower⟩

/-- **A highlight is a piece of what is shown.** Whatever is offered, its highlight
stays inside the string that it is about, starts and ends at a boundary, and so
splits it into three parts, of which a report paints the second. -/
theorem highlights_are_pieces (context : Context) (text : String) (cursor : Nat) :
    ∀ candidate ∈ context.suggest text cursor,
      ∃ token head marked tail, inProgress? (cut text.toList cursor).1 = some token ∧
        candidate.Marks head marked tail ∧ context.MarksTyped token candidate head marked ∧
        candidate.highlight.start + candidate.highlight.length ≤
          candidate.highlighted.utf8ByteSize ∧
        isBoundary candidate.highlighted.toList candidate.highlight.start = true ∧
        isBoundary candidate.highlighted.toList
          (candidate.highlight.start + candidate.highlight.length) = true ∧
        ∀ palette : Palette,
          palette.emphasized candidate.highlighted candidate.highlight =
            String.ofList head ++
              palette.paint .bold (palette.paint .green (String.ofList marked)) ++
              String.ofList tail := by
  intro candidate hcandidate
  rw [Context.suggest] at hcandidate
  cases htoken : inProgress? (cut text.toList cursor).1 with
  | none =>
    rw [Context.suggestAfter, htoken] at hcandidate
    cases hcandidate
  | some token =>
    obtain ⟨head, marked, tail, hmarks, htyped⟩ :=
      exists_marks_of_mem_suggestAfter htoken hcandidate
    exact ⟨token, head, marked, tail, rfl, hmarks, htyped, le_of_isBoundary hmarks.isBoundary_stop,
      hmarks.isBoundary_start, hmarks.isBoundary_stop, hmarks.emphasized_eq⟩

/-- An identifier that is typed with the sign for kelvins, which is three bytes
wide and a `k` in lowercase. -/
theorem highlights_are_pieces_kelvin :
    Candidate.byId "Keypad" "Keypad" 3 ∈ ({} : Context).suggest "\u212aey" 5 ∧
      ∃ head marked tail, (Candidate.byId "Keypad" "Keypad" 3).Marks head marked tail ∧
        head = [] ∧ marked.length = 3 ∧
        marked.map lowercase = "\u212aey".toList.map lowercase := by
  have hoffered : Candidate.byId "Keypad" "Keypad" 3 ∈ ({} : Context).suggest "\u212aey" 5 := by
    decide +kernel
  have htoken : inProgress? (cut "\u212aey".toList 5).1 =
      some ⟨⟨0, 5⟩, .pool ⟨none, "\u212aey", 0⟩⟩ := by
    decide +kernel
  obtain ⟨token, head, marked, tail, hprogress, hmarks, htyped, -⟩ :=
    highlights_are_pieces {} _ _ _ hoffered
  rw [htoken] at hprogress
  obtain rfl := Option.some.inj hprogress
  obtain ⟨hhead, hlength, hlower⟩ := htyped.identifier _ rfl
  exact ⟨hoffered, head, marked, tail, hmarks, hhead, hlength, hlower⟩

end MissionText
