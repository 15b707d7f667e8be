import MissionText.Host.Loading
import MissionText.Proofs.Ordered.Keyed
/-!
# Directories of profiles

A file holds a profile if it is named after it, with the extension of profile
files, and its content is the text of one (`HoldsProfile`); every other entry of
a directory is passed over (`PassedOver`). The name of a file is put together
from its stem and its extension in one way only, so no two files hold profiles
of one name, and the order in which a system lists a directory does not matter.
None of this hangs on how a text describes a profile, which is left to a
function `decode`.
-/

namespace MissionText

open Text

variable {text : String} {name other : String} {profile : Profile} {fileName : FileName}
  {content : Except ReadFailure ByteArray} {listing before after : Listing}
  {entry : FileName × Except ReadFailure ByteArray} {bs stem extension : List UInt8}
  {decode : String → Option Profile}

/-! ## File names -/

namespace FileName

/-- A name without a dot has no last one. -/
theorem lastDot?_eq_none_iff : lastDot? bs = none ↔ dot ∉ bs := by
  induction bs with
  | nil => simp [lastDot?]
  | cons byte bs ih =>
    rw [lastDot?, List.mem_cons, not_or]
    cases hrest : lastDot? bs with
    | some halves =>
      have hmem : ¬ dot ∉ bs := fun hnot => by rw [ih.2 hnot] at hrest; cases hrest
      simp [hmem]
    | none => simp [ih.1 hrest, eq_comm]

/-- **The last dot** is the one after which there is none. -/
theorem lastDot?_append (stem : List UInt8) (h : dot ∉ extension) :
    lastDot? (stem ++ dot :: extension) = some (stem, extension) := by
  induction stem with
  | nil => rw [List.nil_append, lastDot?, lastDot?_eq_none_iff.2 h]; rfl
  | cons byte stem ih => rw [List.cons_append, lastDot?, ih]

theorem append_of_lastDot? (h : lastDot? bs = some (stem, extension)) :
    bs = stem ++ dot :: extension ∧ dot ∉ extension := by
  induction bs generalizing stem with
  | nil => cases h
  | cons byte bs ih =>
    rw [lastDot?] at h
    split at h
    · rename_i hrest
      cases h
      obtain ⟨rfl, hnot⟩ := ih hrest
      exact ⟨rfl, hnot⟩
    · rename_i hrest
      obtain ⟨rfl, heq⟩ := Option.ite_none_right_eq_some.1 h
      cases heq
      exact ⟨rfl, lastDot?_eq_none_iff.1 hrest⟩

/-- **A name is put together from its parts in one way only**: the stem is not
empty, and the extension holds no dot. -/
theorem parts_eq_iff : fileName.parts = (stem, some extension) ↔
    fileName.bytes = stem ++ dot :: extension ∧ stem ≠ [] ∧ dot ∉ extension := by
  constructor
  · intro h
    rw [parts] at h
    split at h
    · rename_i hlast
      cases h
      obtain ⟨happ, hnot⟩ := append_of_lastDot? hlast
      exact ⟨happ, List.cons_ne_nil _ _, hnot⟩
    · cases h
    · cases h
  · rintro ⟨happ, hne, hnot⟩
    obtain ⟨byte, rest, rfl⟩ := List.exists_cons_of_ne_nil hne
    rw [parts, happ, lastDot?_append _ hnot]

end FileName

/-! ## Profile files -/

/-- The extension of profile files holds no dot. -/
theorem dot_notMem_profileExtension : FileName.dot ∉ bytes profileExtension := by decide

/-- **A file is named after a profile** if its name is that of the profile with the
extension, and the profile has a name. -/
theorem profileName?_eq_some_iff :
    profileName? fileName = some name ↔ name ≠ "" ∧ fileName = .ofText (name ++ ".json") := by
  have hbytes : bytes (name ++ ".json") = bytes name ++ FileName.dot :: bytes profileExtension := by
    rw [bytes_append]
    rfl
  have hempty : bytes name = [] ↔ name = "" := by
    rw [← bytes_inj]
    rfl
  have hparts : profileName? fileName = some name ↔
      fileName.parts = (bytes name, some (bytes profileExtension)) := by
    rw [profileName?, Option.ite_none_right_eq_some, Option.bind_eq_some_iff]
    simp only [ofBytes?_eq_some_iff, exists_eq_right, Prod.ext_iff]
    exact and_comm
  rw [hparts, FileName.parts_eq_iff, ← hbytes, ne_eq, hempty]
  constructor
  · rintro ⟨hname, hne, -⟩
    exact ⟨hne, congrArg FileName.mk hname⟩
  · rintro ⟨hne, rfl⟩
    exact ⟨rfl, hne, dot_notMem_profileExtension⟩

/-- **An entry holds a profile**: it is a file of the profile's name, which is not
empty, with the extension of profile files, and its content is the text of the
profile. -/
structure HoldsProfile (decode : String → Option Profile)
    (entry : FileName × Except ReadFailure ByteArray) (name : String) (profile : Profile) :
    Prop where
  named : name ≠ "" ∧ entry.1 = .ofText (name ++ ".json")
  described : ∃ text : String, entry.2 = .ok text.toUTF8 ∧ decode text = some profile

/-- **An entry is passed over** if it is called anything else, cannot be read (as
a directory cannot), is no text, or is not the text of a profile. -/
inductive PassedOver (decode : String → Option Profile) :
    FileName × Except ReadFailure ByteArray → Prop where
  | other (fileName : FileName) (content : Except ReadFailure ByteArray)
      (h : ∀ name, name ≠ "" → fileName ≠ .ofText (name ++ ".json")) :
      PassedOver decode (fileName, content)
  | unreadable (fileName : FileName) (failure : ReadFailure) :
      PassedOver decode (fileName, .error failure)
  | noText (fileName : FileName) (content : ByteArray)
      (h : ∀ text : String, content ≠ text.toUTF8) :
      PassedOver decode (fileName, .ok content)
  | noProfile (fileName : FileName) (text : String) (h : decode text = none) :
      PassedOver decode (fileName, .ok text.toUTF8)

theorem toOption_eq_some_iff {α β : Type} {result : Except α β} {b : β} :
    result.toOption = some b ↔ result = .ok b := by
  cases result <;> simp [Except.toOption]

theorem unicodeText_eq_ok_iff {bytes : ByteArray} :
    unicodeText bytes = .ok text ↔ bytes = text.toUTF8 := by
  rw [unicodeText, ← fromUTF8?_eq_some_iff]
  cases String.fromUTF8? bytes <;> simp

/-- **What is read from an entry is the profile that it holds.** -/
theorem inFile?_eq_some_iff :
    Profile.inFile? decode entry.1 entry.2 = some (name, profile) ↔
      HoldsProfile decode entry name profile := by
  simp only [Profile.inFile?, Option.bind_eq_bind, Option.bind_eq_some_iff,
    profileName?_eq_some_iff, toOption_eq_some_iff, unicodeText_eq_ok_iff, Option.pure_def,
    Option.some.injEq, Prod.mk.injEq]
  constructor
  · rintro ⟨_, hnamed, _, hcontent, text, rfl, _, hprofile, rfl, rfl⟩
    exact ⟨hnamed, text, hcontent, hprofile⟩
  · rintro ⟨hnamed, text, hcontent, hprofile⟩
    exact ⟨name, hnamed, _, hcontent, text, rfl, profile, hprofile, rfl, rfl⟩

/-- Nothing is read from an entry that is passed over. -/
theorem inFile?_of_passedOver (h : PassedOver decode entry) :
    Profile.inFile? decode entry.1 entry.2 = none := by
  rw [Option.eq_none_iff_forall_ne_some]
  rintro ⟨name, profile⟩ hread
  obtain ⟨⟨hne, hname⟩, text, hcontent, hprofile⟩ := inFile?_eq_some_iff.1 hread
  cases h with
  | other fileName content h => exact h name hne hname
  | unreadable => cases hcontent
  | noText fileName content h => exact h text (Except.ok.inj hcontent)
  | noProfile fileName other h =>
    have htext : other = text :=
      String.toByteArray_inj.1 (Except.ok.inj hcontent)
    rw [← htext, h] at hprofile
    cases hprofile

/-- **Every entry holds a profile or is passed over.** -/
theorem holdsProfile_or_passedOver (decode : String → Option Profile)
    (entry : FileName × Except ReadFailure ByteArray) :
    (∃ name profile, HoldsProfile decode entry name profile) ∨ PassedOver decode entry := by
  obtain ⟨fileName, content⟩ := entry
  by_cases hname : ∃ name, name ≠ "" ∧ fileName = .ofText (name ++ ".json")
  · obtain ⟨name, hnamed⟩ := hname
    cases content with
    | error failure => exact .inr (.unreadable fileName failure)
    | ok bytes =>
      by_cases htext : ∃ text : String, bytes = text.toUTF8
      · obtain ⟨text, rfl⟩ := htext
        cases hprofile : decode text with
        | none => exact .inr (.noProfile fileName text hprofile)
        | some profile => exact .inl ⟨name, profile, hnamed, text, rfl, hprofile⟩
      · exact .inr (.noText fileName bytes (not_exists.1 htext))
  · exact .inr (.other fileName content fun name hne heq => hname ⟨name, hne, heq⟩)

/-! ## Directories -/

namespace Profiles

/-- The profiles that the entries of a directory hold, with their names. -/
def held (decode : String → Option Profile) (listing : Listing) : List (String × Profile) :=
  listing.filterMap fun entry => Profile.inFile? decode entry.1 entry.2

theorem mem_held_iff :
    (name, profile) ∈ held decode listing ↔
      ∃ entry ∈ listing, HoldsProfile decode entry name profile := by
  simp only [held, List.mem_filterMap, ← inFile?_eq_some_iff]

/-- **No two files hold profiles of one name.** -/
theorem nodup_held (h : (listing.map Prod.fst).Nodup) :
    ((held decode listing).map Prod.fst).Nodup := by
  rw [List.Nodup, List.pairwise_map] at *
  rw [held, List.pairwise_filterMap]
  refine h.imp fun {entry other} hne named hnamed again hagain heq => hne ?_
  obtain ⟨name, profile⟩ := named
  obtain ⟨name', profile'⟩ := again
  obtain rfl : name = name' := heq
  rw [(inFile?_eq_some_iff.1 hnamed).named.2, (inFile?_eq_some_iff.1 hagain).named.2]

theorem get?_ofListing_eq_some_iff (h : (listing.map Prod.fst).Nodup) :
    (ofListing decode listing).get? name = some profile ↔
      ∃ entry ∈ listing, HoldsProfile decode entry name profile := by
  have hget : (ofListing decode listing).get? name =
      ((Ordered.ofList nameOrder (held decode listing)).find? (·.1 == name)).map (·.2) := rfl
  rw [hget, Option.map_eq_some_iff, ← mem_held_iff]
  simp only [nameOrder, Ordered.find?_ofList_eq_some_iff (nodup_held h), Prod.exists]
  simp

/-- A directory that is there is loaded, whatever is in it. -/
theorem loadWith_listed (decode : String → Option Profile) (path : String) (listing : Listing) :
    loadWith decode (some ⟨path, .ok listing⟩) = .ok (ofListing decode listing) := rfl

/-- **The order in which a directory is listed does not matter.** -/
theorem ofListing_eq_of_perm {order : Listing} (hperm : order.Perm listing)
    (h : (listing.map Prod.fst).Nodup) : ofListing decode order = ofListing decode listing :=
  congrArg mk (Ordered.ofList_eq_of_perm (hperm.filterMap _)
    (nodup_held ((hperm.map Prod.fst).nodup_iff.2 h)))

/-- An entry that is passed over makes no difference. -/
theorem ofListing_of_passedOver (h : PassedOver decode entry) (before after : Listing) :
    ofListing decode (before ++ entry :: after) = ofListing decode (before ++ after) := by
  have hheld : held decode (before ++ entry :: after) = held decode (before ++ after) := by
    rw [held, held, List.filterMap_append, List.filterMap_append, List.filterMap_cons,
      inFile?_of_passedOver h]
  exact congrArg ofList hheld

/-- **Where a directory lists a profile, there is none of its name yet.** -/
theorem get?_ofListing_before (h : ((before ++ entry :: after).map Prod.fst).Nodup)
    (hentry : HoldsProfile decode entry name profile) :
    (ofListing decode before).get? name = .none := by
  rw [List.map_append, List.nodup_append] at h
  rw [Option.eq_none_iff_forall_ne_some]
  intro other hother
  obtain ⟨earlier, hearlier, hholds⟩ := (get?_ofListing_eq_some_iff h.1).1 hother
  refine h.2.2 earlier.1 (List.mem_map_of_mem hearlier) entry.1 (by simp) ?_
  rw [hholds.named.2, hentry.named.2]

/-- **Loading a directory of profiles**, in whatever way a text describes one.
However the system lists the directory, the same profiles are loaded, and loading
them does not fail. There is a profile of a name exactly if a file of that name
with the extension of profile files holds it. No profile takes the place of
another one that was listed before, and an entry that is passed over could as
well not be there. -/
theorem load_directory (decode : String → Option Profile) (path : String)
    (hnames : (listing.map Prod.fst).Nodup) :
    ∃ profiles : Profiles,
      (∀ order : Listing, order.Perm listing →
        loadWith decode (some ⟨path, .ok order⟩) = .ok profiles) ∧
      (∀ name profile, profiles.get? name = some profile ↔
        ∃ entry ∈ listing, HoldsProfile decode entry name profile) ∧
      (∀ before entry after name profile, (before ++ entry :: after).Perm listing →
        HoldsProfile decode entry name profile → (ofListing decode before).get? name = .none) ∧
      ∀ before entry after, (before ++ entry :: after).Perm listing → PassedOver decode entry →
        loadWith decode (some ⟨path, .ok (before ++ after)⟩) = .ok profiles := by
  have horder (order : Listing) (hperm : order.Perm listing) :
      ofListing decode order = ofListing decode listing := ofListing_eq_of_perm hperm hnames
  refine ⟨ofListing decode listing, fun order hperm => ?_, fun name profile =>
    get?_ofListing_eq_some_iff hnames, fun before entry after name profile hperm hentry =>
      get?_ofListing_before ((hperm.map Prod.fst).nodup_iff.2 hnames) hentry,
      fun before entry after hperm hentry => ?_⟩
  · rw [loadWith_listed, horder order hperm]
  · rw [loadWith_listed, ← ofListing_of_passedOver hentry, horder _ hperm]

/-- The entries of a directory that holds two profiles. Of the others, one has
nothing before its extension, one has its extension in other letters, one is a
directory, and the name of one is no text. -/
def mixedListing : Listing :=
  [(.ofText "a.b.json", .ok "\x7b\x7d".toUTF8), (.ofText ".json", .ok "\x7b\x7d".toUTF8),
    (.ofText "..json", .ok "\x7b\"Operation\":1\x7d".toUTF8),
    (.ofText "a.JSON", .ok "\x7b\x7d".toUTF8), (.ofText "c.json", .error .isDirectory),
    (⟨[255, 46, 106, 115, 111, 110]⟩, .ok "\x7b\x7d".toUTF8)]

/-- The two profiles of a directory that is listed backwards, and without the
entry that is a directory. -/
theorem load_directory_mixed :
    (mixedListing.map Prod.fst).Nodup ∧
      ∃ profiles : Profiles,
        load (some ⟨"profiles", .ok mixedListing.reverse⟩) = .ok profiles ∧
        load (some ⟨"profiles", .ok (mixedListing.take 4 ++ mixedListing.drop 5)⟩) =
          .ok profiles ∧
        profiles.get? "a.b" = some ⟨.expert, []⟩ ∧ profiles.get? "." = some ⟨.defuser, []⟩ := by
  have hnames : (mixedListing.map Prod.fst).Nodup := by decide
  obtain ⟨profiles, horder, hget, -, hpassed⟩ :=
    load_directory Profile.ofFile? "profiles" hnames
  have hexpert : HoldsProfile Profile.ofFile? (.ofText "a.b.json", .ok "\x7b\x7d".toUTF8) "a.b"
      ⟨.expert, []⟩ :=
    ⟨⟨by decide, rfl⟩, _, rfl, by decide +kernel⟩
  have hdefuser : HoldsProfile Profile.ofFile?
      (.ofText "..json", .ok "\x7b\"Operation\":1\x7d".toUTF8) "." ⟨.defuser, []⟩ :=
    ⟨⟨by decide, rfl⟩, _, rfl, by decide +kernel⟩
  exact ⟨hnames, profiles, horder _ (List.reverse_perm _),
    hpassed (mixedListing.take 4) (.ofText "c.json", .error .isDirectory) _ (by rfl)
      (.unreadable _ _),
    (hget _ _).2 ⟨_, List.mem_cons_self, hexpert⟩,
    (hget _ _).2 ⟨_, List.mem_cons_of_mem _ (List.mem_cons_of_mem _ List.mem_cons_self), hdefuser⟩⟩

end Profiles

end MissionText
