import MissionText.Proofs.Completion.Listed
import MissionText.Proofs.Completion.Picking
import MissionText.Proofs.Draft.Exchange
import MissionText.Proofs.Pool.Resolution
import MissionText.Proofs.Token.Grammar
/-!
# References — a completed profile is the profile

A reference to a profile is a keyword and the name of the profile. The name may
hold anything that a list gives a meaning to, blanks and separators and further
colons, and still the reference is read back: with a blank in it it is put in
quotes, the quotes are taken out again, and what is left is looked at for a
keyword before it is looked at for separators. Only a quote in the name, or a
blank at its end, would be lost on the way.
-/

namespace MissionText

open Text Token Scan

variable {context : Context} {kind : ModuleKind} {name : String} {profile : Profile}
  {before lead head kept typed : List Char} {prior : List Token} {token : Token}
  {pool : PoolToken} {candidate : Candidate}

/-! ## What a reference says -/

/-- What is written for a profile. -/
def ModuleKind.reference (kind : ModuleKind) (name : String) : String :=
  kind.profileKeyword ++ name

theorem id_profileEntry (name : String) (kind : ModuleKind) :
    (profileEntry name kind).id = kind.reference name := by
  cases kind <;> rfl

/-- A keyword is found where it stands. -/
theorem afterKeyword?_append (keyword : String) (cs : List Char) :
    afterKeyword? keyword (keyword.toList ++ cs) = some cs := by
  simp [afterKeyword?, sameKeyword]

/-- **A reference is read as it is written.** -/
theorem profileReference?_reference (kind : ModuleKind) (name : String) :
    profileReference? (kind.reference name).toList = some (kind, name) := by
  have hafter : afterKeyword? kind.profileKeyword (kind.reference name).toList =
      some name.toList := by
    rw [ModuleKind.reference, String.toList_append, afterKeyword?_append]
  cases kind with
  | solvable => simp [profileReference?, hafter]
  | needy =>
    -- the longer keyword does not begin like the shorter one
    have hother : afterKeyword? ModuleKind.solvable.profileKeyword
        (ModuleKind.needy.reference name).toList = none := by
      rw [ModuleKind.reference, String.toList_append]
      rfl
    simp [profileReference?, hafter, hother]

/-- No reference is the identifier of a category. -/
theorem reference_ne_category (kind : ModuleKind) (name : String) (drawn : Category) :
    (kind.reference name).toList ≠ drawn.id.toList := by
  intro heq
  have href := profileReference?_reference kind name
  have hnone : profileReference? drawn.id.toList = none := by
    cases drawn <;> decide
  rw [heq, hnone] at href
  cases href

/-- What a reference to a known profile stands for: what the profile leaves
enabled, which should be something. -/
theorem resolveProfile_known (hprofile : context.profiles.get? name = some profile) :
    (context.resolveProfile kind name).contents =
        .named (context.catalog.resolve profile kind) ∧
      (context.resolveProfile kind name).problems =
        if context.catalog.resolve profile kind = [] then [.emptyProfile name] else [] := by
  cases hids : context.catalog.resolve profile kind with
  | nil => simp [Context.resolveProfile, hprofile, hids]
  | cons id ids => simp [Context.resolveProfile, hprofile, hids]

/-! ## A reference in a line -/

/-- **A run that begins neither with a digit nor with the keyword of a setting is
a pool.** -/
theorem TokenKind.ofRun?_of_head {c : Char} {run : List Char} (hc : c.isDigit = false)
    (hname : SettingName.ofKeyword? (String.ofList ((c :: run).takeWhile (· ≠ ':'))) = none) :
    ofRun? (c :: run) = none := by
  have hhead {ds tail : List Char} (hds : IsField ds) (hrun : ds ++ tail = c :: run) : False := by
    obtain ⟨d, ds, rfl⟩ := List.exists_cons_of_ne_nil hds.ne_nil
    obtain ⟨rfl, -⟩ := List.cons.inj hrun
    rw [hds.isDigit d List.mem_cons_self] at hc
    cases hc
  have htime : ∀ time, ¬ WrittenTime (c :: run) time := by
    intro time h
    generalize hrun : c :: run = cs at h
    rcases h with ⟨hms, -⟩ | ⟨hhs, -, -⟩
    · exact hhead hms hrun.symm
    · exact hhead hhs hrun.symm
  have hstrikes : ∀ n, ¬ WrittenStrikes (c :: run) n := by
    intro n h
    generalize hrun : c :: run = cs at h
    obtain ⟨hds, -⟩ := h
    exact hhead hds hrun.symm
  have hsetting : SettingToken.ofRun? (c :: run) = none := by
    rw [SettingToken.ofRun?, hname]
    rfl
  exact ofRun?_of_none htime hstrikes (SettingToken.ofRun?_eq_none_iff.1 hsetting)

/-- A reference begins with a letter. -/
theorem exists_head_reference (kind : ModuleKind) (name : String) :
    ∃ c tail, (kind.reference name).toList = c :: tail ∧ c.isDigit = false ∧
      isBlank c = false := by
  rw [ModuleKind.reference, String.toList_append]
  cases kind
  · exact ⟨'p', _, rfl, rfl, by decide⟩
  · exact ⟨'n', _, rfl, rfl, by decide⟩

/-- **A reference that stands alone is a pool**, in its quotes or without them. -/
theorem reference_reads_alone (kind : ModuleKind) (name : String) :
    TokenKind.ofRun? ((Edit.inserted true (kind.reference name) false).takeWhile isInk) = none ∧
      PoolToken.readCount (Edit.inserted true (kind.reference name) false) =
        (none, 0, Edit.inserted true (kind.reference name) false) := by
  rw [Edit.inserted_unspaced, Bool.true_and]
  split
  · exact ⟨TokenKind.ofRun?_quote, PoolToken.readCount_of_head rfl⟩
  · rename_i hblank
    obtain ⟨c, tail, hcs, hc, -⟩ := exists_head_reference kind name
    have hink : (kind.reference name).toList.takeWhile isInk = (kind.reference name).toList :=
      List.takeWhile_eq_self_iff.2 (by simpa [hasBlank] using hblank)
    have hname : SettingName.ofKeyword? (String.ofList
        ((kind.reference name).toList.takeWhile (· ≠ ':'))) = none := by
      rw [ModuleKind.reference, String.toList_append]
      cases kind with
      | solvable =>
        have htake : (ModuleKind.solvable.profileKeyword.toList ++ name.toList).takeWhile
            (· ≠ ':') = "profile".toList := rfl
        rw [htake]
        decide
      | needy =>
        have htake : (ModuleKind.needy.profileKeyword.toList ++ name.toList).takeWhile (· ≠ ':') =
            "needyprofile".toList := rfl
        rw [htake]
        decide
    rw [hink]
    rw [hcs] at hname ⊢
    exact ⟨TokenKind.ofRun?_of_head hc hname, PoolToken.readCount_of_head hc⟩

/-- What is inserted for a reference begins with ink. -/
theorem head_inserted_reference (kind : ModuleKind) (name : String) (quotable : Bool) :
    ∃ c ∈ (Edit.inserted quotable (kind.reference name) false).head?, isBlank c = false := by
  rw [Edit.inserted_unspaced]
  split
  · exact ⟨'"', rfl, by decide⟩
  · obtain ⟨c, tail, hcs, -, hink⟩ := exists_head_reference kind name
    exact ⟨c, by rw [hcs]; rfl, hink⟩

section Plain

variable (hname : ∀ c ∈ name.toList, isQuote c = false)

include hname

theorem isQuote_reference (kind : ModuleKind) :
    ∀ c ∈ (kind.reference name).toList, isQuote c = false := by
  rw [ModuleKind.reference]
  refine isQuote_append ?_ hname
  cases kind <;> exact not_of_all (by decide)

/-- **The list of a pool with a reference in it is the reference.** -/
theorem list_reference (hlast : ∀ c ∈ name.toList.getLast?, isBlank c = false)
    (hpool : pool.idList = String.ofList (Edit.inserted true (kind.reference name) false)) :
    pool.list = (kind.reference name).toList := by
  rw [PoolToken.list, hpool, String.toList_ofList,
    Edit.unquoted_inserted (isQuote_reference hname kind), trim_eq_self_iff]
  obtain ⟨c, tail, hcs, -, hink⟩ := exists_head_reference kind name
  refine ⟨by simpa [hcs] using hink, fun d hd => ?_⟩
  rw [ModuleKind.reference, String.toList_append, List.getLast?_append] at hd
  cases hname : name.toList.getLast? with
  | some last =>
    rw [hname] at hd
    obtain rfl : last = d := by simpa using hd
    exact hlast last hname
  | none =>
    -- without a name the keyword is all there is, and it ends with a colon
    rw [hname] at hd
    obtain rfl : ':' = d := by cases kind <;> simpa [ModuleKind.profileKeyword] using hd
    decide

end Plain

/-- **A draft takes in a reference to a known profile** as what the profile leaves
enabled. -/
theorem add_reference (hprofile : context.profiles.get? name = some profile)
    (hkind : token.kind = .pool pool) (hlist : pool.list = (kind.reference name).toList)
    (draft : Draft) :
    (Draft.add context draft token).problems = draft.problems ++
        ((if pool.count = some 0 then [.invalidPoolCount] else []) ++
          if context.catalog.resolve profile kind = [] then [.emptyProfile name] else []) ∧
      (Draft.add context draft token).pools = draft.pools ++
        [⟨pool.count.getD 1, .named (context.catalog.resolve profile kind)⟩] := by
  have hpool := Token.pool?_eq_some_iff.2 hkind
  have hgroup : token.group = .pool := by rw [Token.group, hkind]
  have hknown : _ ∧ (context.resolveProfile kind name).problems = _ := resolveProfile_known hprofile
  have hresolve : context.resolvePool pool = context.resolveProfile kind name := by
    rw [Context.resolvePool, hlist]
    exact Context.resolveList_reference (reference_ne_category kind name)
      (profileReference?_reference kind name)
  rw [Draft.add_eq, Draft.complaints_of_pool hgroup]
  simp [Draft.poolComplaints, Draft.fill, Draft.poolOf, hpool, hresolve, hknown.1, hknown.2]

/-- Without a separator in its list a pool has one identifier, the one being
typed. -/
theorem TypedPool.kept_eq_nil (h : TypedPool before lead head kept typed prior token pool)
    (hplain : ∀ c ∈ pool.idList.toList, isSeparator c = false) : kept = [] := by
  rcases List.eq_nil_or_concat kept with hnil | ⟨more, sep, rfl⟩
  · exact hnil
  · have hsep := hplain sep (by simp [h.list])
    rw [h.separated sep (by simp)] at hsep
    cases hsep

/-- **A reference takes the place of the list** where nothing of the list is kept:
the token is a pool with the same count, and no quote is open after it. -/
theorem TypedPool.isPiece_reference (h : TypedPool before lead head [] typed prior token pool)
    (hname : ∀ c ∈ name.toList, isQuote c = false) (kind : ModuleKind) :
    IsPiece (head ++ Edit.inserted true (kind.reference name) false) ∧
      (∀ start, (ofPiece start (head ++ Edit.inserted true (kind.reference name) false)).kind =
        .pool ⟨pool.count, String.ofList (Edit.inserted true (kind.reference name) false),
          start + width head⟩) ∧
      (ofPiece 0 (head ++ Edit.inserted true (kind.reference name) false)).isOpen = false := by
  have hquoted : Unbroken false (Edit.inserted true (kind.reference name) false) ∧
      quotedAfter false (Edit.inserted true (kind.reference name) false) = false :=
    Edit.unbroken_inserted (isQuote_reference hname kind)
  obtain ⟨hpiece, hkind⟩ := h.isPiece_replaced hquoted.1 (head_inserted_reference kind name true)
    fun _ => reference_reads_alone kind name
  rw [List.nil_append] at hpiece hkind
  refine ⟨hpiece, hkind, ?_⟩
  rw [isOpen, hkind 0]
  simpa using hquoted.2

/-- **A completed reference stands for its profile.** At the end of a line, where
nothing but the identifier being typed stands in the list of a pool, the entry
for a profile is picked: the last token is then a pool that starts at the same
offset and has the same count, and its list is a reference to the profile, for
modules of the kind that was offered. The profile is found, and a draft takes in
what it leaves enabled, and complains only if that is nothing. -/
theorem completed_reference_resolves {text : String} (htoken : inProgress? text.toList = some token)
    (hpool : token.kind = .pool pool) (hplain : ∀ c ∈ pool.idList.toList, isSeparator c = false)
    (hcandidate : candidate ∈ context.suggest text text.utf8ByteSize)
    (hentry : candidate.toEntry = profileEntry name kind)
    (hprofile : context.profiles.get? name = some profile)
    (hname : ∀ c ∈ name.toList, isQuote c = false)
    (hlast : ∀ c ∈ name.toList.getLast?, isBlank c = false) :
    ∃ completed list,
      (ofText (Edit.pick text text.utf8ByteSize candidate).text).tokens.getLast? =
        some completed ∧
      completed.kind = .pool list ∧ completed.span.start = token.span.start ∧
      list.count = pool.count ∧ (∀ drawn : Category, list.list ≠ drawn.id.toList) ∧
      profileReference? list.list = some (kind, name) ∧
      ∀ draft : Draft,
        (Draft.add context draft completed).problems = draft.problems ++
          ((if pool.count = some 0 then [.invalidPoolCount] else []) ++
            if context.catalog.resolve profile kind = [] then [.emptyProfile name] else []) ∧
        (Draft.add context draft completed).pools = draft.pools ++
          [⟨pool.count.getD 1, .named (context.catalog.resolve profile kind)⟩] := by
  obtain ⟨lead, head, kept, typed, prior, htyped⟩ := exists_typedPool htoken hpool
  obtain rfl := htyped.kept_eq_nil hplain
  have hid : candidate.id = kind.reference name := by
    rw [← id_profileEntry, ← hentry]
    rfl
  have hedit := Edit.pick_eq (cut_end text)
    (selectable_of_inProgress (cut_end text) htoken hpool hcandidate)
  rw [htyped.stub, hid, Edit.inserted_append_space, quotedAfter_nil, Bool.not_false] at hedit
  obtain ⟨hpiece, hkind, hclosed⟩ := htyped.isPiece_reference hname kind
  have hlist (start : Nat) : PoolToken.list ⟨pool.count,
      String.ofList (Edit.inserted true (kind.reference name) false), start⟩ =
        (kind.reference name).toList := list_reference hname hlast rfl
  generalize Edit.inserted true (kind.reference name) false = shown at *
  have hspace : Blank (if (!candidate.expectsMore) = true then [' '] else []) := by
    split
    · exact List.forall_mem_singleton.2 (by decide)
    · exact List.forall_mem_nil _
  have htokens := htyped.around.tokens_of_replace hpiece hclosed hspace
  have hadd := add_reference hprofile (hkind (width lead)) (hlist _)
  refine ⟨_, ⟨pool.count, String.ofList shown, width lead + width head⟩, ?_, hkind (width lead),
    ?_, rfl, fun drawn => ?_, ?_, hadd⟩
  · rw [hedit, Edit.ofParts, ofText, String.toList_ofList]
    simp only [List.append_nil, List.append_assoc] at htokens ⊢
    rw [htokens, List.getLast?_concat]
  · rw [hpiece.span_ofPiece, htyped.around.span_start, Nat.zero_add]
  · rw [hlist]
    exact reference_ne_category kind name drawn
  · rw [hlist, profileReference?_reference]

/-- A profile with a blank and a comma in its name, after a count. -/
theorem completed_reference_resolves_spaced :
    ∃ completed list,
      (ofText (Edit.pick "3*profile:o" 11 (.byId "profile:Odd, one"
          "Odd, one (solvable modules enabled by profile)" 9)).text).tokens.getLast? =
        some completed ∧
      completed.kind = .pool list ∧ list.count = some 3 ∧
      profileReference? list.list = some (.solvable, "Odd, one") ∧
      (Draft.add { profiles := .ofList [("Odd, one", ⟨.defuser, ["Wires"]⟩)] } {}
        completed).problems = [] := by
  have htoken : inProgress? "3*profile:o".toList =
      some ⟨⟨0, 11⟩, .pool ⟨some 3, "profile:o", 2⟩⟩ := by decide +kernel
  have hcandidate : Candidate.byId "profile:Odd, one"
      "Odd, one (solvable modules enabled by profile)" 9 ∈
        Context.suggest { profiles := .ofList [("Odd, one", ⟨.defuser, ["Wires"]⟩)] }
          "3*profile:o" 11 := by
    decide +kernel
  have hprofile : (Profiles.ofList [("Odd, one", ⟨.defuser, ["Wires"]⟩)]).get? "Odd, one" =
      some ⟨.defuser, ["Wires"]⟩ := by
    decide
  have hleft : Catalog.vanilla.resolve ⟨.defuser, ["Wires"]⟩ .solvable ≠ [] := by
    decide +kernel
  have hentry : (Candidate.byId "profile:Odd, one"
      "Odd, one (solvable modules enabled by profile)" 9).toEntry =
        profileEntry "Odd, one" .solvable := rfl
  have hink : ∀ c ∈ "Odd, one".toList.getLast?, isBlank c = false := by
    rintro c ⟨⟩
    decide
  obtain ⟨completed, list, hlast, hkind, -, hcount, -, href, hadd⟩ :=
    completed_reference_resolves htoken rfl (not_of_all (by decide)) hcandidate hentry hprofile
      (not_of_all (by decide)) hink
  refine ⟨completed, list, hlast, hkind, hcount, href, ?_⟩
  rw [(hadd {}).1, if_neg (by decide), if_neg hleft]
  rfl

end MissionText
