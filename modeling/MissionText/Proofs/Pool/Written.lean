import MissionText.Mission.Written
import MissionText.Proofs.Pool.Profile
import MissionText.Proofs.Text.CommaList
/-!
# Written lists — the list of a pool stands for what was written

An identifier is writable if nothing in it means something in the list of a
pool. A list of writable identifiers, written with commas between them and
quotes where there are blanks, is balanced (`balanced_written`), and without
its quotes it is the comma list of the identifiers (`unquoted_written`), which
stands for them (`draws_written`). It is no category and refers to no profile,
since neither does any of its identifiers and no keyword holds a comma.
-/

namespace MissionText

open Text Ordered

variable {context : Context} {contents : Contents} {id : String} {ids : List String}
  {as bs : List Char} {kind : ModuleKind}

/-! ## Writable identifiers -/

/-- **Nothing in the identifier means something in a list.** -/
structure Writable (id : String) : Prop where
  nonempty : id ≠ ""
  /-- Neither end is blank. -/
  trimmed : trim id.toList = id.toList
  /-- There are no quotes and no separators. -/
  plain : ∀ c ∈ id.toList, isQuote c = false ∧ isSeparator c = false
  /-- It is not the identifier of a category. -/
  notCategory : ∀ drawn : Category, id ≠ drawn.id
  /-- It does not begin like a reference to a profile. -/
  notReference : profileReference? id.toList = none

theorem Component.plain_id (component : Component) :
    ∀ c ∈ component.id.toList, isQuote c = false ∧ isSeparator c = false := by
  have hall : component.id.toList.all (fun c => !isQuote c && !isSeparator c) = true := by
    cases component <;> decide
  simpa using hall

theorem Component.writable (component : Component) : Writable component.id := by
  refine ⟨?_, ?_, component.plain_id, ?_, ?_⟩
  · cases component <;> decide
  · cases component <;> decide
  · intro drawn
    cases component <;> cases drawn <;> decide
  · cases component <;> decide

namespace Context

/-- The identifiers of all enabled modules are writable. -/
def IdsWritable (context : Context) : Prop :=
  ∀ known ∈ context.catalog.modules, known.enabled = true → Writable known.id

theorem idsWritable_of_catalog {added : List BombModule}
    (hcatalog : context.catalog = Catalog.ofModules added)
    (h : ∀ known ∈ added, Writable known.id) : context.IdsWritable := by
  intro known hknown _
  rw [hcatalog] at hknown
  rcases Catalog.mem_of_mem_ofModules hknown with hadded | ⟨component, rfl⟩
  · exact h known hadded
  · exact component.writable

/-- Then every identifier that names a module is. -/
theorem Names.writable (h : context.Names id kind) (hids : context.IdsWritable) : Writable id := by
  cases h with
  | component component hid => exact hid ▸ component.writable
  | known known hbase hknown henabled =>
    obtain ⟨hmem, rfl⟩ := Catalog.mem_of_get? hknown
    exact hids known hmem henabled

end Context

namespace Writable

variable (h : Writable id)

include h

theorem toList_ne_nil : id.toList ≠ [] := by
  simpa using h.nonempty

theorem trimmed_toList : Trimmed id.toList := trim_eq_self_iff.1 h.trimmed

/-- A written identifier is the identifier, but for quotes. -/
theorem unquoted_writtenId : unquoted (writtenId id).toList = id.toList := by
  have hplain : ∀ c ∈ id.toList, isQuote c = false := fun c hc => (h.plain c hc).1
  rw [writtenId]
  split
  · rw [String.toList_append, String.toList_append, unquoted_append, unquoted_append,
      unquoted_of_plain hplain]
    simp [unquoted, isQuote]
  · exact unquoted_of_plain hplain

theorem balanced_writtenId : Balanced (writtenId id).toList := by
  have hplain : ∀ c ∈ id.toList, isQuote c = false := fun c hc => (h.plain c hc).1
  rw [writtenId]
  split
  · simpa using balanced_quote hplain
  · rename_i hink
    refine balanced_of_ink (fun c hc => ?_) hplain
    rw [Bool.not_eq_true, hasBlank, List.any_eq_false] at hink
    simpa using hink c hc

theorem head_writtenId : ∃ c ∈ (writtenId id).toList.head?, isBlank c = false := by
  rw [writtenId]
  split
  · exact ⟨'"', by simp, by decide⟩
  · obtain ⟨c, cs, hcs⟩ := List.exists_cons_of_ne_nil h.toList_ne_nil
    exact ⟨c, by simp [hcs], h.trimmed_toList.head c (by simp [hcs])⟩

end Writable

/-! ## References and categories -/

/-- A comma after some text does not make a keyword of it. -/
theorem afterKeyword?_append_comma {keyword : String}
    (hkeyword : ∀ c ∈ keyword.toList, c.toLower ≠ ',') (h : afterKeyword? keyword as = none) :
    afterKeyword? keyword (as ++ ',' :: bs) = none := by
  simp only [afterKeyword?, ite_eq_right_iff, reduceCtorEq, imp_false] at h ⊢
  intro hsame
  rcases Nat.lt_or_ge as.length keyword.toList.length with hlt | hge
  · -- the comma would stand in the keyword
    rw [sameKeyword, beq_iff_eq] at hsame
    have hmem : ','.toLower ∈ keyword.toList.map Char.toLower := by
      rw [hsame]
      refine List.mem_map_of_mem (List.mem_iff_getElem.2 ⟨as.length, by simp; omega, by simp⟩)
    obtain ⟨c, hc, heq⟩ := List.mem_map.1 hmem
    exact hkeyword c hc heq
  · rw [List.take_append_of_le_length hge] at hsame
    exact h hsame

theorem profileReference?_eq_none_iff :
    profileReference? as = none ↔
      ∀ kind : ModuleKind, afterKeyword? kind.profileKeyword as = none := by
  rw [profileReference?]
  simp only [Option.or_eq_none_iff, Option.map_eq_none_iff]
  constructor
  · rintro ⟨hsolvable, hneedy⟩ (_ | _)
    · exact hsolvable
    · exact hneedy
  · exact fun h => ⟨h .solvable, h .needy⟩

theorem profileReference?_append_comma (h : profileReference? as = none) :
    profileReference? (as ++ ',' :: bs) = none := by
  rw [profileReference?_eq_none_iff] at h ⊢
  refine fun kind => afterKeyword?_append_comma ?_ (h kind)
  have hall : kind.profileKeyword.toList.all (fun c => c.toLower != ',') = true := by
    cases kind <;> decide
  simpa using hall

theorem Category.comma_notMem_id (drawn : Category) : ',' ∉ drawn.id.toList := by
  cases drawn <;> decide

/-! ## Comma lists of identifiers -/

/-- Identifiers with commas between them, without any quotes. -/
def commaIds (ids : List String) : List Char := commaList (ids.map String.toList)

section CommaLists

variable (hne : ids ≠ []) (hids : ∀ id ∈ ids, Writable id)

include hne hids

theorem identifiersOf_commaIds : identifiersOf (commaIds ids) = ids := by
  have hpieces : ∀ piece ∈ ids.map String.toList, ∀ c ∈ piece, isSeparator c = false := by
    intro piece hpiece c hc
    obtain ⟨id, hid, rfl⟩ := List.mem_map.1 hpiece
    exact ((hids id hid).plain c hc).2
  rw [identifiersOf, commaIds, splitOnP_commaList (by simpa using hne) hpieces, List.map_map]
  refine (List.map_congr_left fun id hid => ?_).trans (List.map_id ids)
  simp [(hids id hid).trimmed]

theorem trim_commaIds : trim (commaIds ids) = commaIds ids := by
  refine trim_eq_self_iff.2 (commaList_induction (by simpa using hne) ?_ fun _ _ => .append_comma)
  intro piece hpiece
  obtain ⟨id, hid, rfl⟩ := List.mem_map.1 hpiece
  exact (hids id hid).trimmed_toList

theorem commaIds_ne_category (drawn : Category) : commaIds ids ≠ drawn.id.toList := by
  -- one identifier is no category by itself, and of several a comma tells
  rcases ids with - | ⟨first, - | ⟨second, ids⟩⟩
  · exact absurd rfl hne
  · intro heq
    refine (hids first List.mem_cons_self).notCategory drawn (String.toList_inj.1 ?_)
    simpa [commaIds] using heq
  · intro heq
    refine drawn.comma_notMem_id ?_
    rw [← heq]
    simp [commaIds]

theorem profileReference?_commaIds : profileReference? (commaIds ids) = none := by
  rcases ids with - | ⟨first, - | ⟨second, ids⟩⟩
  · exact absurd rfl hne
  · simpa [commaIds] using (hids first List.mem_cons_self).notReference
  · have hfirst := (hids first List.mem_cons_self).notReference
    simpa [commaIds] using profileReference?_append_comma hfirst

end CommaLists

/-! ## What is written for a pool -/

theorem toList_written (ids : List String) :
    (Contents.named ids).written.toList = commaList (ids.map fun id => (writtenId id).toList) := by
  simp [Contents.written, commaList, Function.comp_def]

/-- **The written list without its quotes is the comma list.** -/
theorem unquoted_written (hids : ∀ id ∈ ids, Writable id) :
    unquoted (Contents.named ids).written.toList = commaIds ids := by
  rw [toList_written, unquoted_commaList, commaIds, List.map_map]
  congr 1
  exact List.map_congr_left fun id hid => (hids id hid).unquoted_writtenId

theorem Category.plain_id (drawn : Category) :
    ∀ c ∈ drawn.id.toList, isBlank c = false ∧ isQuote c = false := by
  have hall : drawn.id.toList.all (fun c => !isBlank c && !isQuote c) = true := by
    cases drawn <;> decide
  simpa using hall

namespace Contents

/-- What a pool can draw from: a category, or modules that there are, in order
and at least one. -/
def Sound (context : Context) : Contents → Prop
  | .category _ => True
  | .named ids => ids ≠ [] ∧ Ascending idOrder ids ∧ ∀ id ∈ ids, ∃ kind, context.Names id kind

/-- Whether only modules to be solved are drawn. -/
def AllSolvable (context : Context) : Contents → Prop
  | .category drawn => drawn.kind = .solvable
  | .named ids => ∀ id ∈ ids, ¬ context.Names id .needy

/-- The list of a pool that was written for a category. -/
theorem list_category {pool : PoolToken} {drawn : Category}
    (hpool : pool.idList = (category drawn).written) : pool.list = drawn.id.toList := by
  rw [PoolToken.list, hpool]
  cases drawn <;> decide

/-- The list of a pool that was written for identifiers. -/
theorem list_named {pool : PoolToken} (hne : ids ≠ []) (hwritable : ∀ id ∈ ids, Writable id)
    (hpool : pool.idList = (named ids).written) : pool.list = commaIds ids := by
  rw [PoolToken.list, hpool, unquoted_written hwritable, trim_commaIds hne hwritable]

/-- Everything that is named is writable. -/
def IdsWritable : Contents → Prop
  | .category _ => True
  | .named ids => ∀ id ∈ ids, Writable id

theorem Sound.idsWritable (h : contents.Sound context) (hids : context.IdsWritable) :
    contents.IdsWritable := by
  cases contents with
  | category drawn => trivial
  | named ids =>
    intro id hid
    obtain ⟨kind, hkind⟩ := h.2.2 id hid
    exact hkind.writable hids

variable (h : contents.Sound context) (hids : contents.IdsWritable)

include h hids

theorem Sound.balanced_written : Balanced contents.written.toList := by
  cases contents with
  | category drawn =>
    exact balanced_of_ink (fun c hc => (drawn.plain_id c hc).1) fun c hc => (drawn.plain_id c hc).2
  | named ids =>
    rw [toList_written]
    -- the list is joined at commas, and a comma keeps the balance
    refine commaList_induction (by simpa using h.1) (fun piece hpiece => ?_)
      fun _ _ => balanced_comma
    obtain ⟨id, hid, rfl⟩ := List.mem_map.1 hpiece
    exact (hids id hid).balanced_writtenId

theorem Sound.head_written : ∃ c ∈ contents.written.toList.head?, isBlank c = false := by
  cases contents with
  | category drawn => cases drawn <;> exact ⟨'A', rfl, by decide⟩
  | named ids =>
    obtain ⟨first, rest, rfl⟩ := List.exists_cons_of_ne_nil h.1
    obtain ⟨c, hc, hink⟩ := (hids first List.mem_cons_self).head_writtenId
    refine ⟨c, ?_, hink⟩
    rw [toList_written]
    cases rest with
    | nil => simpa using hc
    | cons second rest =>
      rw [List.map_cons, List.map_cons, commaList_cons_cons, List.head?_append, Option.mem_def.1 hc]
      rfl

/-- **The written list stands for what was written.** -/
theorem Sound.draws_written {pool : PoolToken} (hpool : pool.idList = contents.written) :
    context.Draws pool.list contents := by
  cases contents with
  | category drawn => exact .category drawn (list_category hpool)
  | named ids =>
    obtain ⟨hne, hascending, hnames⟩ := h
    have hlisted := identifiersOf_commaIds hne hids
    have horder : ofList idOrder ids = ids :=
      have := transCmp_idOrder
      ofList_of_ascending hascending
    -- the list is none of the other two things that a list can be
    have hdraws : context.Draws (commaIds ids)
        (.named (ofList idOrder (identifiersOf (commaIds ids)))) := by
      refine .listed (commaIds_ne_category hne hids) (profileReference?_commaIds hne hids) ?_
      rwa [hlisted]
    rw [hlisted, horder] at hdraws
    rwa [list_named hne hids hpool]

/-- **The written list yields only modules to be solved exactly if that is all
that was drawn.** -/
theorem Sound.drawsSolvable_written_iff {pool : PoolToken}
    (hpool : pool.idList = contents.written) :
    context.DrawsSolvable pool.list ↔ contents.AllSolvable context := by
  cases contents with
  | category drawn =>
    rw [list_category hpool, Context.drawsSolvable_iff, Context.resolveList_category]
    exact beq_iff_eq
  | named ids =>
    obtain ⟨hne, -, hnames⟩ := h
    have hcategory := commaIds_ne_category hne hids
    have href := profileReference?_commaIds hne hids
    have hlisted := identifiersOf_commaIds hne hids
    obtain ⟨first, hfirst⟩ := List.exists_mem_of_ne_nil ids hne
    rw [list_named hne hids hpool, Context.drawsSolvable_iff,
      Context.resolveList_listed hcategory href, Context.resolveIds_solvable_iff, hlisted]
    exact and_iff_right ⟨first, hfirst, hnames first hfirst⟩

end Contents

end MissionText
