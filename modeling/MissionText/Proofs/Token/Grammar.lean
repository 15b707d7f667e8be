import Mathlib.Data.List.Induction
import MissionText.Proofs.Token.Written
/-!
# The grammar of tokens

What is said about tokens in words, as predicates on the text from where a
token starts: which runs are times, strike limits and settings, where a list
ends, and when a count stands before it. A token is a time if it can be, else a
strike limit, else a setting, else a pool (`Classified`). Reading does what the
grammar says and nothing else (`classified_iff`), with one law for each of the
four ways in which a token is written.
-/

namespace MissionText

open Text Token

variable {cs run raw value ids rest before tail ds : List Char} {c sep : Char} {start n : Nat}
  {time : TimeToken} {setting : SettingToken} {name : SettingName} {pool : PoolToken}
  {token : Token}

/-! ## What is written -/

/-- One to nine digits. -/
structure IsField (ds : List Char) : Prop where
  ne_nil : ds ≠ []
  length_le : ds.length ≤ 9
  isDigit : ∀ c ∈ ds, c.isDigit = true

/-- A time is two or three fields with colons between them. -/
inductive WrittenTime : List Char → TimeToken → Prop
  | short {ms ss : List Char} (hms : IsField ms) (hss : IsField ss) :
      WrittenTime (ms ++ ':' :: ss) ⟨none, digitsValue ms, digitsValue ss⟩
  | long {hs ms ss : List Char} (hhs : IsField hs) (hms : IsField ms) (hss : IsField ss) :
      WrittenTime (hs ++ ':' :: (ms ++ ':' :: ss))
        ⟨some (digitsValue hs), digitsValue ms, digitsValue ss⟩

/-- A strike limit is a field with an `x` or an `X` after it. -/
inductive WrittenStrikes : List Char → Nat → Prop
  | field {ds : List Char} {c : Char} (hds : IsField ds) (hc : c = 'x' ∨ c = 'X') :
      WrittenStrikes (ds ++ [c]) (digitsValue ds)

/-- A keyword in any ASCII case. -/
def IsKeyword (name : SettingName) (raw : List Char) : Prop :=
  raw.map Char.toLower = name.keyword.toList

/-- A setting is a keyword, or a keyword, a colon and any text. -/
inductive WrittenSetting : List Char → SettingToken → Prop
  | bare {name : SettingName} {raw : List Char} (hraw : IsKeyword name raw) :
      WrittenSetting raw ⟨name, String.ofList raw, none⟩
  | valued {name : SettingName} {raw : List Char} (hraw : IsKeyword name raw)
      (value : List Char) :
      WrittenSetting (raw ++ ':' :: value) ⟨name, String.ofList raw, some (String.ofList value)⟩

/-- **Where a list ends**: before the first blank outside quotes, or at the end
of the text. A blank is inside quotes if the quotes before it do not come in
pairs. -/
structure ListEnds (ids rest : List Char) : Prop where
  inside : ∀ before c after, ids = before ++ c :: after → isBlank c = true →
    before.count '"' % 2 = 1
  stop : rest = [] ∨ AtBoundary rest ∧ ids.count '"' % 2 = 0

/-- A text that begins with a count: a field, a `;` or `*`, and no blank after
it. -/
inductive Counted : List Char → Prop
  | field {ds tail : List Char} {sep c : Char} (hds : IsField ds) (hsep : sep = ';' ∨ sep = '*')
      (hink : isBlank c = false) : Counted (ds ++ sep :: c :: tail)

/-- A pool is a list with a count before it, or without one if there is none. -/
inductive WrittenPool (start : Nat) : List Char → PoolToken → Prop
  | counted {ds ids rest : List Char} {sep : Char} (hcount : Counted (ds ++ sep :: (ids ++ rest)))
      (hds : IsField ds) (hsep : sep = ';' ∨ sep = '*') (hends : ListEnds ids rest) :
      WrittenPool start (ds ++ sep :: (ids ++ rest))
        ⟨some (digitsValue ds), String.ofList ids, start + (width ds + 1)⟩
  | plain {ids rest : List Char} (hcount : ¬ Counted (ids ++ rest)) (hends : ListEnds ids rest) :
      WrittenPool start (ids ++ rest) ⟨none, String.ofList ids, start⟩

/-- **The token at an offset**, as the grammar has it. The text from there on is
given; a time, a strike limit or a setting takes up the whole run to the next
blank, and a pool goes from the offset to the end of its list. -/
inductive Classified (start : Nat) (cs : List Char) : Token → Prop
  | time {time : TimeToken} (htime : WrittenTime (cs.takeWhile isInk) time) :
      Classified start cs ⟨⟨start, width (cs.takeWhile isInk)⟩, .time time⟩
  | strikes {count : Nat} (htime : ∀ time, ¬ WrittenTime (cs.takeWhile isInk) time)
      (hstrikes : WrittenStrikes (cs.takeWhile isInk) count) :
      Classified start cs ⟨⟨start, width (cs.takeWhile isInk)⟩, .strikes count⟩
  | setting {setting : SettingToken} (htime : ∀ time, ¬ WrittenTime (cs.takeWhile isInk) time)
      (hstrikes : ∀ count, ¬ WrittenStrikes (cs.takeWhile isInk) count)
      (hsetting : WrittenSetting (cs.takeWhile isInk) setting) :
      Classified start cs ⟨⟨start, width (cs.takeWhile isInk)⟩, .setting setting⟩
  | pool {pool : PoolToken} (htime : ∀ time, ¬ WrittenTime (cs.takeWhile isInk) time)
      (hstrikes : ∀ count, ¬ WrittenStrikes (cs.takeWhile isInk) count)
      (hsetting : ∀ setting, ¬ WrittenSetting (cs.takeWhile isInk) setting)
      (hpool : WrittenPool start cs pool) :
      Classified start cs ⟨⟨start, pool.stop - start⟩, .pool pool⟩

/-! ## Fields -/

theorem field?_eq_some_iff_isField : field? ds = some n ↔ IsField ds ∧ digitsValue ds = n := by
  rw [field?_eq_some_iff]
  exact and_congr_left' ⟨fun ⟨hne, hlength, hdigits⟩ => ⟨hne, hlength, hdigits⟩,
    fun h => ⟨h.ne_nil, h.length_le, h.isDigit⟩⟩

theorem IsField.field? (h : IsField ds) : Text.field? ds = some (digitsValue ds) :=
  field?_eq_some_iff_isField.2 ⟨h, rfl⟩

/-- After its first digit a field has eight more at most. -/
theorem IsField.length_tail_le (h : IsField (c :: ds)) : ds.length ≤ 8 :=
  Nat.le_of_succ_le_succ h.length_le

theorem IsField.colon_notMem (h : IsField ds) : ':' ∉ ds := colon_notMem_of_field? h.field?

/-! ## Times -/

/-- **Times are read as they are written.** -/
theorem TimeToken.ofRun?_eq_some_iff : ofRun? run = some time ↔ WrittenTime run time := by
  constructor
  · intro h
    have hrun : [':'].intercalate (run.splitOn ':') = run := List.intercalate_splitOn ':'
    rw [ofRun?] at h
    split at h
    · rename_i minutes seconds hfields
      obtain ⟨ms, fields, hsplit, hminutes, hfields⟩ := List.map_eq_cons_iff.1 hfields
      obtain ⟨ss, fields, rfl, hseconds, hfields⟩ := List.map_eq_cons_iff.1 hfields
      obtain rfl := List.map_eq_nil_iff.1 hfields
      obtain ⟨hms, rfl⟩ := field?_eq_some_iff_isField.1 hminutes
      obtain ⟨hss, rfl⟩ := field?_eq_some_iff_isField.1 hseconds
      obtain rfl := Option.some.inj h
      rw [← hrun, hsplit]
      simpa [List.intercalate] using WrittenTime.short hms hss
    · rename_i hours minutes seconds hfields
      obtain ⟨hs, fields, hsplit, hhours, hfields⟩ := List.map_eq_cons_iff.1 hfields
      obtain ⟨ms, fields, rfl, hminutes, hfields⟩ := List.map_eq_cons_iff.1 hfields
      obtain ⟨ss, fields, rfl, hseconds, hfields⟩ := List.map_eq_cons_iff.1 hfields
      obtain rfl := List.map_eq_nil_iff.1 hfields
      obtain ⟨hhs, rfl⟩ := field?_eq_some_iff_isField.1 hhours
      obtain ⟨hms, rfl⟩ := field?_eq_some_iff_isField.1 hminutes
      obtain ⟨hss, rfl⟩ := field?_eq_some_iff_isField.1 hseconds
      obtain rfl := Option.some.inj h
      rw [← hrun, hsplit]
      simpa [List.intercalate] using WrittenTime.long hhs hms hss
    · cases h
  · rintro (⟨hms, hss⟩ | ⟨hhs, hms, hss⟩)
    · rw [ofRun?, List.splitOn_append_cons_self_of_not_mem hms.colon_notMem,
        List.splitOn_eq_singleton hss.colon_notMem]
      simp [hms.field?, hss.field?]
    · rw [ofRun?, List.splitOn_append_cons_self_of_not_mem hhs.colon_notMem,
        List.splitOn_append_cons_self_of_not_mem hms.colon_notMem,
        List.splitOn_eq_singleton hss.colon_notMem]
      simp [hhs.field?, hms.field?, hss.field?]

/-! ## Strike limits -/

/-- **Strike limits are read as they are written.** -/
theorem strikesOfRun?_eq_some_iff : strikesOfRun? run = some n ↔ WrittenStrikes run n := by
  constructor
  · intro h
    have hrun : run.takeWhile Char.isDigit ++ run.dropWhile Char.isDigit = run :=
      List.takeWhile_append_dropWhile
    rw [strikesOfRun?] at h
    split at h
    · rename_i mark hmark
      rw [hmark] at hrun
      split at h
      · rename_i hx
        obtain ⟨hfield, rfl⟩ := field?_eq_some_iff_isField.1 h
        rw [← hrun, takeWhile_isDigit_mark hfield.isDigit (by rcases hx with rfl | rfl <;> rfl)]
        exact .field hfield hx
      · cases h
    · cases h
  · rintro ⟨hds, hc⟩
    rename_i ds c
    have hmark : c.isDigit = false := by rcases hc with rfl | rfl <;> rfl
    rw [strikesOfRun?, dropWhile_isDigit_mark hds.isDigit hmark,
      takeWhile_isDigit_mark hds.isDigit hmark]
    simp [hc, hds.field?]

/-! ## Settings -/

theorem SettingName.map_toLower_keyword (name : SettingName) :
    name.keyword.toList.map Char.toLower = name.keyword.toList := by
  cases name <;> decide

/-- No keyword is the beginning of another one. -/
theorem SettingName.eq_of_keyword_prefix {name name' : SettingName}
    (h : name.keyword.toList <+: name'.keyword.toList) : name = name' := by
  cases name <;> cases name' <;> first | rfl | exact absurd h (by decide)

/-- No two settings have the same keyword. -/
theorem IsKeyword.eq {name' : SettingName} (h : IsKeyword name raw) (h' : IsKeyword name' raw) :
    name = name' := by
  have hkeyword : name.keyword.toList = name'.keyword.toList := h.symm.trans h'
  exact SettingName.eq_of_keyword_prefix (hkeyword ▸ List.prefix_refl _)

/-- **A name is found by its keyword alone.** -/
theorem SettingName.ofKeyword?_eq_some_iff :
    ofKeyword? (String.ofList raw) = some name ↔ IsKeyword name raw := by
  have hsame (other : SettingName) :
      sameKeyword other.keyword.toList (String.ofList raw).toList = true ↔ IsKeyword other raw := by
    rw [sameKeyword, beq_iff_eq, map_toLower_keyword, String.toList_ofList, IsKeyword, eq_comm]
  rw [ofKeyword?]
  constructor
  · intro h
    have hname := List.find?_some h
    exact (hsame name).1 hname
  · intro h
    cases hfind : all.find? fun other =>
        sameKeyword other.keyword.toList (String.ofList raw).toList with
    | none =>
      refine absurd ((hsame name).2 h) (List.find?_eq_none.1 hfind name ?_)
      cases name <;> decide
    | some other =>
      have hother := List.find?_some hfind
      rw [((hsame other).1 hother).eq h]

/-- A keyword holds no colon. -/
theorem IsKeyword.ne_colon (h : IsKeyword name raw) : ∀ c ∈ raw, c ≠ ':' := by
  rintro _ hc rfl
  have hmem : ':' ∈ name.keyword.toList := h ▸ List.mem_map_of_mem (f := Char.toLower) hc
  exact (name.keyword_plain ':' hmem).2 rfl

/-- **Settings are read as they are written.** -/
theorem SettingToken.ofRun?_eq_some_iff :
    ofRun? run = some setting ↔ WrittenSetting run setting := by
  constructor
  · intro h
    have hrun : run.takeWhile (· ≠ ':') ++ run.dropWhile (· ≠ ':') = run :=
      List.takeWhile_append_dropWhile
    have hhead := List.head?_dropWhile_not (· ≠ ':') run
    rw [ofRun?, Option.map_eq_some_iff] at h
    obtain ⟨name, hname, rfl⟩ := h
    have hraw := SettingName.ofKeyword?_eq_some_iff.1 hname
    cases hvalue : run.dropWhile (· ≠ ':') with
    | nil =>
      rw [hvalue, List.append_nil] at hrun
      rw [hrun] at hraw ⊢
      exact .bare hraw
    | cons c value =>
      rw [hvalue] at hrun hhead
      obtain rfl : c = ':' := by simpa using hhead
      exact Eq.subst (motive := fun run' => WrittenSetting run' _) hrun (.valued hraw value)
  · rintro (⟨hraw⟩ | ⟨hraw, value⟩)
    · have hplain : ∀ c ∈ run, decide (c ≠ ':') = true := fun c hc =>
        decide_eq_true (hraw.ne_colon c hc)
      rw [ofRun?, List.takeWhile_eq_self_iff.2 hplain, List.dropWhile_eq_nil_iff.2 hplain,
        SettingName.ofKeyword?_eq_some_iff.2 hraw]
      rfl
    · rename_i name raw
      have hplain : ∀ c ∈ raw, decide (c ≠ ':') = true := fun c hc =>
        decide_eq_true (hraw.ne_colon c hc)
      have hhead : ∀ c ∈ (':' :: value).head?, decide (c ≠ ':') = false := by simp
      rw [ofRun?, takeWhile_append_of_head hhead, dropWhile_append_of_head hhead,
        List.takeWhile_eq_self_iff.2 hplain, List.dropWhile_eq_nil_iff.2 hplain,
        SettingName.ofKeyword?_eq_some_iff.2 hraw]
      rfl

/-! ## Pools -/

/-- No blank stands outside quotes if the quotes before each of them do not come
in pairs. -/
theorem unbroken_iff :
    Unbroken false ids ↔ ∀ before c after, ids = before ++ c :: after → isBlank c = true →
      before.count '"' % 2 = 1 := by
  have hodd (before : List Char) :
      quotedAfter false before = true ↔ before.count '"' % 2 = 1 := by
    rw [← Bool.not_eq_false, quotedAfter_eq_false_iff]
    omega
  constructor
  · rintro h before c after rfl hblank
    exact (hodd before).1 ((unbroken_cons.1 (unbroken_append.1 h).2).1 hblank)
  · intro h
    induction ids using List.reverseRecOn with
    | nil => exact unbroken_nil
    | append_singleton ids c ih =>
      have hids : Unbroken false ids := ih fun before d after hsplit hblank =>
        h before d (after ++ [c]) (by simp [hsplit]) hblank
      exact unbroken_append.2 ⟨hids, unbroken_cons.2
        ⟨fun hblank => (hodd ids).2 (h ids c [] rfl hblank), unbroken_nil⟩⟩

/-- **A quoted run is a list that ends where it should.** -/
theorem quotedRun_eq_iff :
    quotedRun false cs = (ids, rest) ↔ cs = ids ++ rest ∧ ListEnds ids rest := by
  constructor
  · intro h
    have happ := quotedRun_append false cs
    have hunbroken := unbroken_quotedRun false cs
    have hstop := quotedRun_stop false cs
    rw [h] at happ hunbroken hstop
    exact ⟨happ.symm, unbroken_iff.1 hunbroken,
      hstop.imp_right fun ⟨hrest, hclosed⟩ => ⟨hrest, quotedAfter_eq_false_iff.1 hclosed⟩⟩
  · rintro ⟨rfl, hinside, hstop⟩
    rw [quotedRun_append_of_unbroken (unbroken_iff.2 hinside)]
    rcases hstop with rfl | ⟨hrest, hclosed⟩
    · simp [quotedRun]
    · rw [quotedAfter_eq_false_iff.2 hclosed, quotedRun_of_atBoundary hrest, List.append_nil]

/-- Where there is no count, none is read. -/
theorem PoolToken.readCount_of_not_counted (h : ¬ Counted cs) : readCount cs = (none, 0, cs) := by
  refine (readCount_eq_none_or cs).resolve_right ?_
  rintro ⟨ds, sep, c, tail, count, rfl, hfield, hsep, hink⟩
  exact h (.field (field?_eq_some_iff_isField.1 hfield).1 hsep hink)

/-- Where there is a count, it is read. -/
theorem PoolToken.readCount_of_counted (h : Counted (ds ++ sep :: tail)) (hds : IsField ds)
    (hsep : sep = ';' ∨ sep = '*') :
    readCount (ds ++ sep :: tail) = (some (digitsValue ds), width ds + 1, tail) := by
  -- the digits before the sign are all there are
  have hunique {es tail' : List Char} {sep' : Char} (hes : IsField es)
      (hsep' : sep' = ';' ∨ sep' = '*') (heq : es ++ sep' :: tail' = ds ++ sep :: tail) :
      tail' = tail := by
    have hmark : sep.isDigit = false := by rcases hsep with rfl | rfl <;> rfl
    have hmark' : sep'.isDigit = false := by rcases hsep' with rfl | rfl <;> rfl
    have hdrop := congrArg (List.dropWhile Char.isDigit) heq
    rw [dropWhile_isDigit_mark hes.isDigit hmark',
      dropWhile_isDigit_mark hds.isDigit hmark] at hdrop
    exact (List.cons.inj hdrop).2
  generalize hcs : ds ++ sep :: tail = cs at h
  obtain ⟨hes, hsep', hink⟩ := h
  rename_i es tail' sep' c
  obtain rfl := hunique hes hsep' hcs.symm
  rw [← hcs, readCount_counted hds.field? hsep hink]

/-- **Pools are read as they are written.** -/
theorem PoolToken.read_eq_iff : (read start cs).1 = pool ↔ WrittenPool start cs pool := by
  constructor
  · rintro rfl
    obtain ⟨ids, rest, hrun⟩ : ∃ ids rest, quotedRun false (readCount cs).2.2 = (ids, rest) :=
      ⟨_, _, rfl⟩
    obtain ⟨hlist, hends⟩ := quotedRun_eq_iff.1 hrun
    rw [read_eq, hrun]
    by_cases hcount : Counted cs
    · obtain ⟨hds, hsep, hink⟩ := hcount
      rename_i ds tail sep c
      have hcounted : Counted (ds ++ sep :: c :: tail) := .field hds hsep hink
      rw [readCount_of_counted hcounted hds hsep] at hlist ⊢
      simp only at hlist
      rw [hlist] at hcounted ⊢
      exact .counted hcounted hds hsep hends
    · rw [readCount_of_not_counted hcount] at hlist ⊢
      simp only at hlist
      rw [hlist] at hcount ⊢
      exact .plain hcount hends
  · rintro (⟨hcount, hds, hsep, hends⟩ | ⟨hcount, hends⟩)
    · rw [read_eq, readCount_of_counted hcount hds hsep, quotedRun_eq_iff.2 ⟨rfl, hends⟩]
    · rw [read_eq, readCount_of_not_counted hcount, quotedRun_eq_iff.2 ⟨rfl, hends⟩]
      rfl

/-! ## Tokens -/

theorem TimeToken.ofRun?_eq_none_iff : ofRun? run = none ↔ ∀ time, ¬ WrittenTime run time := by
  simp only [Option.eq_none_iff_forall_ne_some, ne_eq, ofRun?_eq_some_iff]

theorem strikesOfRun?_eq_none_iff : strikesOfRun? run = none ↔ ∀ n, ¬ WrittenStrikes run n := by
  simp only [Option.eq_none_iff_forall_ne_some, ne_eq, strikesOfRun?_eq_some_iff]

theorem SettingToken.ofRun?_eq_none_iff :
    ofRun? run = none ↔ ∀ setting, ¬ WrittenSetting run setting := by
  simp only [Option.eq_none_iff_forall_ne_some, ne_eq, ofRun?_eq_some_iff]

namespace TokenKind

theorem ofRun?_of_time (h : WrittenTime run time) : ofRun? run = some (.time time) := by
  simp [ofRun?, TimeToken.ofRun?_eq_some_iff.2 h]

variable (htime : ∀ time, ¬ WrittenTime run time)

include htime

theorem ofRun?_of_strikes (h : WrittenStrikes run n) : ofRun? run = some (.strikes n) := by
  simp [ofRun?, TimeToken.ofRun?_eq_none_iff.2 htime, strikesOfRun?_eq_some_iff.2 h]

variable (hstrikes : ∀ n, ¬ WrittenStrikes run n)

include hstrikes

theorem ofRun?_of_setting (h : WrittenSetting run setting) :
    ofRun? run = some (.setting setting) := by
  simp [ofRun?, TimeToken.ofRun?_eq_none_iff.2 htime, strikesOfRun?_eq_none_iff.2 hstrikes,
    SettingToken.ofRun?_eq_some_iff.2 h]

theorem ofRun?_of_none (h : ∀ setting, ¬ WrittenSetting run setting) : ofRun? run = none := by
  simp [ofRun?, TimeToken.ofRun?_eq_none_iff.2 htime, strikesOfRun?_eq_none_iff.2 hstrikes,
    SettingToken.ofRun?_eq_none_iff.2 h]

end TokenKind

/-- The grammar has one token at an offset, and it is the one that is read. -/
theorem Classified.eq_read (h : Classified start cs token) : token = (read start cs).1 := by
  cases h with
  | time htime => rw [read_of_ofRun?_eq_some (TokenKind.ofRun?_of_time htime)]
  | strikes htime hstrikes =>
    rw [read_of_ofRun?_eq_some (TokenKind.ofRun?_of_strikes htime hstrikes)]
  | setting htime hstrikes hsetting =>
    rw [read_of_ofRun?_eq_some (TokenKind.ofRun?_of_setting htime hstrikes hsetting)]
  | pool htime hstrikes hsetting hpool =>
    rw [read_of_ofRun?_eq_none (TokenKind.ofRun?_of_none htime hstrikes hsetting),
      PoolToken.read_eq_iff.2 hpool]

/-- The grammar has a token at every offset. -/
theorem exists_classified (start : Nat) (cs : List Char) : ∃ token, Classified start cs token := by
  by_cases htime : ∃ time, WrittenTime (cs.takeWhile isInk) time
  · obtain ⟨time, htime⟩ := htime
    exact ⟨_, .time htime⟩
  by_cases hstrikes : ∃ n, WrittenStrikes (cs.takeWhile isInk) n
  · obtain ⟨n, hstrikes⟩ := hstrikes
    exact ⟨_, .strikes (not_exists.1 htime) hstrikes⟩
  by_cases hsetting : ∃ setting, WrittenSetting (cs.takeWhile isInk) setting
  · obtain ⟨setting, hsetting⟩ := hsetting
    exact ⟨_, .setting (not_exists.1 htime) (not_exists.1 hstrikes) hsetting⟩
  · exact ⟨_, .pool (not_exists.1 htime) (not_exists.1 hstrikes) (not_exists.1 hsetting)
      (PoolToken.read_eq_iff.1 rfl)⟩

/-- **Reading does what the grammar says.** -/
theorem classified_iff : Classified start cs token ↔ token = (read start cs).1 := by
  refine ⟨Classified.eq_read, ?_⟩
  rintro rfl
  obtain ⟨token, htoken⟩ := exists_classified start cs
  rwa [← htoken.eq_read]

end MissionText
