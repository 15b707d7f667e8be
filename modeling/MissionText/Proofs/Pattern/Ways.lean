import MissionText.Pattern
/-!
# Ways — how a pattern goes on from a match

What every way has in common is that it reads on: what it has read and what is
left are one text (`Reads`, one case for each kind of pattern). For the
patterns that tokens are made of, two things are needed beyond that. Which ways
there are at all is told by membership (`mem_ways_one`, `mem_rounds_one`); and
which of them comes first is told by the first element, which for a repetition
is got by going on as long as one can (`head?_rounds`). A repetition before a
pattern that refuses what the repetition takes has one way to go on, if any:
`flatMap_rounds_one`.
-/

namespace MissionText

namespace Match

/-- The match after some more text is read. -/
def extend (found : Match) (text rest : List Char) : Match :=
  ⟨found.read ++ text, rest, found.groups⟩

/-- **One match goes on from another**: it has read more of the same text. -/
def Reads (found later : Match) : Prop :=
  ∃ text, later.read = found.read ++ text ∧ found.rest = text ++ later.rest

theorem Reads.refl (found : Match) : Reads found found := ⟨[], by simp⟩

theorem Reads.trans {first second third : Match} (h : Reads first second)
    (h' : Reads second third) : Reads first third := by
  obtain ⟨text, hread, hrest⟩ := h
  obtain ⟨text', hread', hrest'⟩ := h'
  exact ⟨text ++ text', by rw [hread', hread, List.append_assoc],
    by rw [hrest, hrest', List.append_assoc]⟩

/-- A match from the start of a text cuts the text in two. -/
theorem Reads.append_eq {text : List Char} {found : Match} (h : Reads (atStart text) found) :
    found.read ++ found.rest = text := by
  obtain ⟨piece, hread, hrest⟩ := h
  rw [hread, atStart, List.nil_append]
  exact hrest.symm

@[simp] theorem hold_extend (found : Match) (index : Nat) (text rest : List Char) :
    hold index found (found.extend text rest) =
      ⟨found.read ++ text, rest, (index, ⟨found.read, text⟩) :: found.groups⟩ := by
  simp [hold, extend]

end Match

namespace Pattern

variable {isWord : Char → Bool} {pattern first second body : Pattern} {found later : Match}
  {p : Char → Bool} {f : Match → List Match} {read rest cs tail : List Char} {c : Char} {n : Nat}
  {groups : List (Nat × Held)}

/-! ## Which ways there are -/

theorem mem_ways_one :
    later ∈ ways isWord (one p) found ↔
      ∃ c rest, found.rest = c :: rest ∧ p c = true ∧ later = found.extend [c] rest := by
  rw [ways]
  cases found.rest with
  | nil => simp
  | cons c rest =>
    simp only [List.cons.injEq, Match.extend]
    split
    · rename_i hc
      rw [List.mem_singleton]
      constructor
      · exact fun h => ⟨c, rest, ⟨rfl, rfl⟩, hc, h⟩
      · rintro ⟨_, _, ⟨rfl, rfl⟩, -, h⟩
        exact h
    · rename_i hc
      simp only [List.not_mem_nil, false_iff]
      rintro ⟨_, _, ⟨rfl, rfl⟩, hd, -⟩
      exact hc hd

theorem mem_ways_both :
    later ∈ ways isWord (both first second) found ↔
      ∃ between ∈ ways isWord first found, later ∈ ways isWord second between := by
  rw [ways, List.mem_flatMap]

theorem mem_ways_either :
    later ∈ ways isWord (either first second) found ↔
      later ∈ ways isWord first found ∨ later ∈ ways isWord second found := by
  rw [ways, List.mem_append]

theorem mem_ways_group {index : Nat} :
    later ∈ ways isWord (group index body) found ↔
      ∃ inner ∈ ways isWord body found, later = Match.hold index found inner := by
  rw [ways, List.mem_map]
  exact exists_congr fun _ => and_congr_right fun _ => eq_comm

theorem ways_optional :
    ways isWord (optional body) found = ways isWord body found ++ [found] := by
  simp [optional, ways, rounds]

/-- Every round reads on, so all of them together do. -/
theorem reads_of_mem_rounds (hround : ∀ found, ∀ later ∈ f found, found.Reads later)
    (h : later ∈ rounds f n found) : found.Reads later := by
  induction n generalizing found with
  | zero =>
    obtain rfl : later = found := by simpa [rounds] using h
    exact .refl _
  | succ n ih =>
    rw [rounds, List.mem_append, List.mem_flatMap, List.mem_singleton] at h
    obtain ⟨between, hfirst, hlast⟩ | rfl := h
    · exact (hround _ _ hfirst).trans (ih hlast)
    · exact .refl _

/-- **Every way reads on.** -/
theorem reads_of_mem_ways (h : later ∈ ways isWord pattern found) : found.Reads later := by
  induction pattern generalizing found later with
  | empty =>
    obtain rfl : later = found := by simpa [ways] using h
    exact .refl _
  | one p =>
    obtain ⟨c, rest, hrest, -, rfl⟩ := mem_ways_one.1 h
    exact ⟨[c], rfl, hrest⟩
  | finish =>
    rw [ways] at h
    split at h
    · obtain rfl : later = found := by simpa using h
      exact .refl _
    · cases h
  | edge =>
    rw [ways] at h
    split at h
    · cases h
    · obtain rfl : later = found := by simpa using h
      exact .refl _
  | both first second ihfirst ihsecond =>
    obtain ⟨between, hfirst, hsecond⟩ := mem_ways_both.1 h
    exact (ihfirst hfirst).trans (ihsecond hsecond)
  | either first second ihfirst ihsecond => exact (mem_ways_either.1 h).elim ihfirst ihsecond
  | upTo most round ih => exact reads_of_mem_rounds (fun _ _ => ih) h
  | many round ih => exact reads_of_mem_rounds (fun _ _ => ih) h
  | group index body ih =>
    obtain ⟨inner, hinner, rfl⟩ := mem_ways_group.1 h
    obtain ⟨text, hread, hrest⟩ := ih hinner
    exact ⟨text, hread, hrest⟩

/-- **A match cuts its text in two.** -/
theorem append_eq_of_first? {text : List Char} (h : pattern.first? isWord text = some found) :
    found.read ++ found.rest = text :=
  (reads_of_mem_ways (List.mem_of_head? h)).append_eq

/-! ## Rounds of one character -/

/-- Rounds of one character read some of these characters. -/
theorem mem_rounds_one :
    later ∈ rounds (ways isWord (one p)) n found ↔
      ∃ cs rest, found.rest = cs ++ rest ∧ cs.length ≤ n ∧ (∀ c ∈ cs, p c = true) ∧
        later = found.extend cs rest := by
  induction n generalizing found with
  | zero =>
    simp only [rounds, List.mem_singleton, Nat.le_zero, List.length_eq_zero_iff]
    constructor
    · rintro rfl
      exact ⟨[], _, rfl, rfl, by simp, by simp [Match.extend]⟩
    · rintro ⟨cs, rest, hrest, rfl, -, rfl⟩
      rw [List.nil_append] at hrest
      simp [Match.extend, ← hrest]
  | succ n ih =>
    rw [rounds, List.mem_append, List.mem_flatMap, List.mem_singleton]
    constructor
    · rintro (⟨between, hfirst, hlast⟩ | rfl)
      · obtain ⟨c, rest, hrest, hc, rfl⟩ := mem_ways_one.1 hfirst
        obtain ⟨cs, rest', hrest', hlength, hcs, rfl⟩ := ih.1 hlast
        obtain rfl : rest = cs ++ rest' := hrest'
        exact ⟨c :: cs, rest', hrest, by simpa using hlength, by simpa using ⟨hc, hcs⟩,
          by simp [Match.extend]⟩
      · exact ⟨[], _, rfl, by simp, by simp, by simp [Match.extend]⟩
    · rintro ⟨cs, rest, hrest, hlength, hcs, rfl⟩
      cases cs with
      | nil =>
        right
        rw [List.nil_append] at hrest
        simp [Match.extend, ← hrest]
      | cons c cs =>
        left
        refine ⟨found.extend [c] (cs ++ rest), mem_ways_one.2 ⟨c, _, hrest, by simp [hcs], rfl⟩,
          ih.2 ⟨cs, rest, rfl, by simpa using hlength, fun d hd => hcs d (by simp [hd]), ?_⟩⟩
        simp [Match.extend]

/-! ## Which way comes first -/

/-- If the first way of the first pattern goes on, that is the first way of
both. -/
theorem head?_flatMap_of_head? {between : Match} {l : List Match} (hfirst : l.head? = some between)
    (hsecond : (f between).head? = some later) : (l.flatMap f).head? = some later := by
  obtain ⟨l, rfl⟩ := List.head?_eq_some_iff.1 hfirst
  rw [List.flatMap_cons, List.head?_append, hsecond]
  rfl

/-- There is always a way to stop. -/
theorem exists_head?_rounds (f : Match → List Match) (n : Nat) (found : Match) :
    ∃ later, (rounds f n found).head? = some later := by
  cases n with
  | zero => exact ⟨found, rfl⟩
  | succ n =>
    rw [rounds, List.head?_append]
    cases ((f found).flatMap (rounds f n)).head? with
    | none => exact ⟨found, rfl⟩
    | some later => exact ⟨later, rfl⟩

/-- **A repetition goes on as long as it can**, each time the first way there
is. -/
theorem head?_rounds_succ {between : Match} (h : (f found).head? = some between) :
    (rounds f (n + 1) found).head? = (rounds f n between).head? := by
  obtain ⟨later, hlater⟩ := exists_head?_rounds f n between
  rw [rounds, List.head?_append, head?_flatMap_of_head? h hlater, hlater]
  rfl

/-- It stops where it cannot go on. -/
theorem head?_rounds_of_eq_nil (h : f found = []) : (rounds f n found).head? = some found := by
  cases n with
  | zero => rfl
  | succ n => simp [rounds, h]

theorem ways_one_cons (hc : p c = true) :
    ways isWord (one p) ⟨read, c :: rest, groups⟩ = [⟨read ++ [c], rest, groups⟩] := by
  simp [ways, hc]

theorem ways_one_of_head (h : ∀ c ∈ rest.head?, p c = false) :
    ways isWord (one p) ⟨read, rest, groups⟩ = [] := by
  cases rest with
  | nil => rfl
  | cons c rest => simp [ways, h c rfl]

/-- Rounds of one character read as many of these characters as they may. -/
theorem head?_rounds_one (hcs : ∀ c ∈ cs, p c = true) (hrest : ∀ c ∈ rest.head?, p c = false)
    (hlength : cs.length ≤ n) :
    (rounds (ways isWord (one p)) n ⟨read, cs ++ rest, groups⟩).head? =
      some ⟨read ++ cs, rest, groups⟩ := by
  induction cs generalizing read n with
  | nil => simpa using head?_rounds_of_eq_nil (ways_one_of_head hrest)
  | cons c cs ih =>
    obtain ⟨n, rfl⟩ : ∃ m, n = m + 1 := ⟨n - 1, by simp at hlength; omega⟩
    rw [List.cons_append, head?_rounds_succ (by rw [ways_one_cons (hcs c (by simp))]; rfl),
      ih (fun d hd => hcs d (by simp [hd])) (by simpa using hlength), List.append_assoc]
    rfl

/-- **Before what refuses them, rounds of one character have one way.** If what
follows cannot begin with these characters, it follows all of them, and there
must not be more of them than rounds. -/
theorem flatMap_rounds_one (hf : ∀ read c rest, p c = true → f ⟨read, c :: rest, groups⟩ = [])
    (hcs : ∀ c ∈ cs, p c = true) (hrest : ∀ c ∈ rest.head?, p c = false) :
    (rounds (ways isWord (one p)) n ⟨read, cs ++ rest, groups⟩).flatMap f =
      if cs.length ≤ n then f ⟨read ++ cs, rest, groups⟩ else [] := by
  induction n generalizing cs read with
  | zero =>
    cases cs with
    | nil => simp [rounds]
    | cons c cs => simp [rounds, hf _ c _ (hcs c (by simp))]
  | succ n ih =>
    cases cs with
    | nil => simp [rounds, ways_one_of_head hrest]
    | cons c cs =>
      have hc := hcs c (by simp)
      simp only [List.cons_append, rounds, ways_one_cons hc, List.flatMap_cons, List.flatMap_nil,
        List.append_nil, List.flatMap_append, hf _ c _ hc, List.length_cons,
        Nat.add_le_add_iff_right]
      rw [ih fun d hd => hcs d (by simp [hd]), List.append_assoc]
      rfl

end Pattern

end MissionText
