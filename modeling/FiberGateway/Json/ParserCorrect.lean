import FiberGateway.Json.Numbers

/-!
The recursive descent reads a text exactly when the grammar derives it, and returns the value it denotes.
-/

namespace FiberGateway.Json

open List

section

variable {F : Type}

def insertEntry (entries : List (GcString × Tree F)) (entry : GcString × Tree F) : List (GcString × Tree F) :=
  OrderedTable.insert stringEquals entry.1 entry.2 entries

theorem ofUnits_inj {units units' : List UInt16} : GcString.ofUnits units = .ofUnits units' ↔ units = units' :=
  ⟨fun same => congrArg GcString.units same, fun same => by rw [same]⟩

variable {key other : GcString} {blank first second : List UInt8}

theorem mem_firstKeys {keys : List GcString} : key ∈ firstKeys keys ↔ key ∈ keys := by
  induction keys with
  | nil => rfl
  | cons first rest ih =>
    simp only [firstKeys, mem_cons, mem_filter, ih, decide_eq_true_eq]
    tauto

theorem firstKeys_concat (keys : List GcString) (key : GcString) :
    firstKeys (keys ++ [key]) = if key ∈ keys then firstKeys keys else firstKeys keys ++ [key] := by
  induction keys with
  | nil => rfl
  | cons first rest ih =>
    rw [cons_append, firstKeys, ih, firstKeys]
    by_cases same : first = key
    · subst same
      rw [if_pos mem_cons_self]
      split
      · rfl
      · rw [filter_append]
        simp
    · by_cases member : key ∈ rest
      · rw [if_pos member, if_pos (mem_cons_of_mem _ member)]
      · rw [if_neg member, if_neg (by simp [member, Ne.symm same]), filter_append]
        simp [Ne.symm same]

theorem nodup_firstKeys (keys : List GcString) : (firstKeys keys).Nodup := by
  induction keys with
  | nil => exact nodup_nil
  | cons first rest ih => exact nodup_cons.mpr ⟨by simp, ih.filter _⟩

theorem lastValue_concat (entries : List (GcString × Tree F)) (entry : GcString × Tree F) (key : GcString) :
    lastValue (entries ++ [entry]) key = if entry.1 = key then some entry.2 else lastValue entries key := by
  unfold lastValue
  rw [filter_append]
  by_cases same : entry.1 = key <;> simp [same]

theorem lastValue_of_mem {entries : List (GcString × Tree F)} (member : key ∈ entries.map Prod.fst) :
    ∃ value, lastValue entries key = some value := by
  obtain ⟨entry, inside, rfl⟩ := mem_map.mp member
  have nonempty : entries.filter (·.1 = entry.1) ≠ [] :=
    ne_nil_of_mem (mem_filter.mpr ⟨inside, decide_eq_true rfl⟩)
  exact ⟨_, by rw [lastValue, List.getLast?_eq_some_getLast nonempty, Option.map_some]⟩

theorem objectOf_eq (entries : List (GcString × Tree F)) :
    objectOf entries = (firstKeys (entries.map Prod.fst)).map fun key => (key, (lastValue entries key).getD .undefined) := by
  refine (filterMap_congr fun key member => ?_).trans (congrFun filterMap_eq_map _)
  obtain ⟨value, found⟩ := lastValue_of_mem (mem_firstKeys.mp member)
  simp [found]

theorem eq_of_mem_firstKeys {keys : List GcString} (canonical : ∀ key ∈ keys, ∃ units, key = .ofUnits units)
    (canonical' : ∃ units, key = .ofUnits units) (member : other ∈ firstKeys keys)
    (same : other.units = key.units) : other = key := by
  obtain ⟨units, rfl⟩ := canonical other (mem_firstKeys.mp member)
  obtain ⟨units', rfl⟩ := canonical'
  exact ofUnits_inj.mpr same

theorem insertEntry_map {keys : List GcString} (f : GcString → Tree F) (distinct : keys.Nodup)
    (names : ∀ {other}, other ∈ keys → other.units = key.units → other = key) (value : Tree F) :
    insertEntry (keys.map fun other => (other, f other)) (key, value) =
      (if key ∈ keys then keys else keys ++ [key]).map fun other => (other, if other = key then value else f other) := by
  induction keys with
  | nil => simp [insertEntry, OrderedTable.insert]
  | cons first rest ih =>
    obtain ⟨new, distinct⟩ := nodup_cons.mp distinct
    have later := ih distinct fun member => names (mem_cons_of_mem _ member)
    rw [insertEntry] at later ⊢
    rw [map_cons, OrderedTable.insert]
    by_cases same : first = key
    · subst same
      have others : (rest.map fun other => (other, if other = first then value else f other)) =
          rest.map fun other => (other, f other) :=
        map_congr_left fun other member => by rw [if_neg (ne_of_mem_of_not_mem member new)]
      simp [stringEquals, others]
    · have apart : ¬ stringEquals first key = true := fun equal =>
        same (names mem_cons_self ((stringEquals_iff _ _).mp equal))
      rw [if_neg apart, later]
      by_cases known : key ∈ rest <;> simp [known, same, Ne.symm same]

/-- Storing the members one after the other makes the object of all of them. -/
theorem objectOf_concat (entries : List (GcString × Tree F)) (entry : GcString × Tree F)
    (canonical : ∀ entry ∈ entries, ∃ units, entry.1 = .ofUnits units) (canonical' : ∃ units, entry.1 = .ofUnits units) :
    objectOf (entries ++ [entry]) = insertEntry (objectOf entries) entry := by
  obtain ⟨key, value⟩ := entry
  rw [objectOf_eq, objectOf_eq, insertEntry_map _ (nodup_firstKeys _)
    (eq_of_mem_firstKeys (by simpa using canonical) canonical'), map_append]
  rw [show [(key, value)].map Prod.fst = [key] from rfl, firstKeys_concat]
  simp only [mem_firstKeys, lastValue_concat]
  refine map_congr_left fun other _ => ?_
  by_cases same : other = key
  · simp [same]
  · rw [if_neg same, if_neg (Ne.symm same)]

theorem foldl_insertEntry (entries : List (GcString × Tree F)) (canonical : ∀ entry ∈ entries, ∃ units, entry.1 = .ofUnits units) :
    entries.foldl insertEntry [] = objectOf entries := by
  induction entries using List.reverseRecOn with
  | nil => rfl
  | append_singleton entries entry ih =>
    rw [foldl_append, ih fun entry member => canonical entry (mem_append_left _ member),
      objectOf_concat entries entry (fun entry member => canonical entry (mem_append_left _ member))
        (canonical entry (mem_append_right _ mem_cons_self))]
    rfl

theorem commaSeparated_singleton (text : List UInt8) : commaSeparated [text] = text := by
  simp [commaSeparated]

theorem commaSeparated_cons (text : List UInt8) {texts : List (List UInt8)} (nonempty : texts ≠ []) :
    commaSeparated (text :: texts) = text ++ 0x2C :: commaSeparated texts := by
  cases texts with
  | nil => exact absurd rfl nonempty
  | cons next rest => simp [commaSeparated]

theorem commaSeparated_pad (blank text : List UInt8) (texts : List (List UInt8)) :
    commaSeparated ((blank ++ text) :: texts) = blank ++ commaSeparated (text :: texts) := by
  cases texts with
  | nil => rw [commaSeparated_singleton, commaSeparated_singleton]
  | cons next rest => simp [commaSeparated]

theorem Blank.append (blank : Blank first) (blank' : Blank second) : Blank (first ++ second) :=
  fun ch member => (mem_append.mp member).elim (blank ch) (blank' ch)

/-- More blanks in front. -/
def Item.pad (item : Item F) (blank : List UInt8) (isBlank : Blank blank) : Item F :=
  { item with before := blank ++ item.before, blankBefore := isBlank.append item.blankBefore }

def Member.pad (member : Member F) (blank : List UInt8) (isBlank : Blank blank) : Member F :=
  { member with lead := blank ++ member.lead, blankLead := isBlank.append member.blankLead }

theorem Item.bytes_pad (item : Item F) (isBlank : Blank blank) :
    (item.pad blank isBlank).bytes = blank ++ item.bytes := by
  simp [Item.bytes, Item.pad]

theorem Member.bytes_pad (member : Member F) (isBlank : Blank blank) :
    (member.pad blank isBlank).bytes = blank ++ member.bytes := by
  simp [Member.bytes, Member.pad]

end

namespace ParserImpl

variable {F : Type} {strtod : List UInt8 → StrtodResult F} {c c' : Cursor}

variable {value value' : Tree F} {obj obj' : ObjectTable (Tree F)} {entries : List (GcString × Tree F)} {fuel pos : Nat}
  {ch mark : UInt8} {text : List UInt8}

variable {body data blank before literal lead gap : List UInt8} {key : DecodedString} {items : List (Item F)}
  {units : List UInt16} {members : List (Member F)} {close : UInt8}

theorem parseLiteral_ok (run : parseLiteral literal value c = .ok (value', c')) :
    value' = value ∧ c.Reads literal c' := by
  unfold parseLiteral at run
  split at run
  · rename_i found
    obtain ⟨rest, split⟩ := isPrefixOf_iff_prefix.mp found
    cases run
    refine ⟨rfl, ⟨?_, rfl⟩⟩
    rw [Cursor.advance, ← split, drop_left]
  · cases run

theorem parseLiteral_of_reads (reads : c.Reads literal c') : parseLiteral literal value c = .ok (value, c') := by
  have found := isPrefixOf_iff_prefix.mpr ⟨_, reads.rest.symm⟩
  rw [parseLiteral, if_pos found, reads.advance]

theorem parseKey_ok (run : parseKey c = .ok (key, c')) :
    ∃ lead body units gap, Blank lead ∧ Blank gap ∧ StringBody body units ∧ makeGcString key = .ofUnits units ∧
      c.Reads (lead ++ 0x22 :: body ++ 0x22 :: gap ++ [0x3A]) c' := by
  obtain ⟨lead, isBlank, reads₁, -⟩ := c.skipWs_reads
  unfold parseKey at run
  dsimp only at run
  split at run
  · cases run
  split at run
  · cases run
  rw [bind_ok] at run
  obtain ⟨⟨key', c₁⟩, parsed, run⟩ := run
  obtain ⟨body, units, valid, reads₂, made⟩ := parseString_ok parsed
  dsimp only at run
  split at run
  · cases run
  rename_i colon
  cases run
  obtain ⟨gap, isBlank', reads₃, -⟩ := c₁.skipWs_reads
  obtain ⟨ch, rest, here, equal⟩ := Cursor.at_cases (not_not.mp colon)
  cases of_decide_eq_true equal
  refine ⟨lead, body, units, gap, isBlank, isBlank', valid, made, ?_⟩
  simpa using ((reads₁.trans reads₂).trans reads₃).trans (Cursor.reads_cons here)

/-- What the recursion relies on at a smaller depth. -/
def ValueSound (strtod : List UInt8 → StrtodResult F) (fuel : Nat) : Prop :=
  ∀ ⦃c value c'⦄, parseValue strtod fuel c = .ok (value, c') →
    ∃ before text, Blank before ∧ Value strtod text value ∧ c.Reads (before ++ text) c'

def MembersSound (strtod : List UInt8 → StrtodResult F) (fuel : Nat) : Prop :=
  ∀ ⦃obj : ObjectTable (Tree F)⦄ ⦃entries c value c'⦄, obj.Holds entries →
    parseMembers strtod fuel obj c = .ok (value, c') →
    ∃ members : List (Member F), members ≠ [] ∧ (∀ member ∈ members, Value strtod member.text member.value) ∧
      value = .object ((members.map Member.entry).foldl insertEntry entries) ∧
      c.Reads (commaSeparated (members.map Member.bytes) ++ [0x7D]) c'

def ElementsSound (strtod : List UInt8 → StrtodResult F) (fuel : Nat) : Prop :=
  ∀ ⦃elems c value c'⦄, parseElements strtod fuel elems c = .ok (value, c') →
    ∃ items : List (Item F), items ≠ [] ∧ (∀ item ∈ items, Value strtod item.text item.value) ∧
      value = .array (elems ++ items.map Item.value) ∧ c.Reads (commaSeparated (items.map Item.bytes) ++ [0x5D]) c'

theorem storeEntry_ok (holds : obj.Holds entries)
    (run : storeEntry obj key value pos = .ok obj') : obj'.Holds (insertEntry entries (makeGcString key, value)) := by
  obtain ⟨obj'', done, holds'⟩ := ObjectTable.gcObjectSet_holds holds (makeGcString key) value
  rw [storeEntry, done] at run
  cases run
  exact holds'

theorem elementsSound_succ (values : ValueSound strtod fuel) (later : ElementsSound strtod fuel) :
    ElementsSound strtod (fuel + 1) := by
  intro elems c value c' run
  rw [parseElements, bind_ok] at run
  obtain ⟨⟨first, c₁⟩, parsed, run⟩ := run
  obtain ⟨before, text, blankBefore, derived, reads₁⟩ := values parsed
  obtain ⟨after, blankAfter, reads₂, -⟩ := c₁.skipWs_reads
  let item : Item F := ⟨before, text, after, first, blankBefore, blankAfter⟩
  have reads : c.Reads item.bytes c₁.skipWs := reads₁.trans reads₂
  dsimp only at run
  split at run
  · cases run
  rename_i ch rest here
  have mark := Cursor.reads_cons here
  split at run
  · rename_i comma
    subst comma
    obtain ⟨items, nonempty, derived', rfl, reads'⟩ := later run
    refine ⟨item :: items, cons_ne_nil _ _, ?_, ?_, ?_⟩
    · rintro item' (member | ⟨_, member⟩)
      · exact derived
      · exact derived' item' member
    · simp [item]
    · rw [map_cons, commaSeparated_cons _ (by simpa using nonempty)]
      simpa using (reads.trans mark).trans reads'
  · split at run
    · rename_i close
      subst close
      cases run
      refine ⟨[item], cons_ne_nil _ _, ?_, by simp [item], ?_⟩
      · rintro item' (member | ⟨_, member⟩)
        · exact derived
        · cases member
      · rw [map_singleton, commaSeparated_singleton]
        exact reads.trans mark
    · cases run

theorem membersSound_succ (values : ValueSound strtod fuel) (later : MembersSound strtod fuel) :
    MembersSound strtod (fuel + 1) := by
  intro obj entries c value c' holds run
  rw [parseMembers, bind_ok] at run
  obtain ⟨⟨key, c₁⟩, parsedKey, run⟩ := run
  obtain ⟨lead, body, units, gap, blankLead, blankGap, named, made, readsKey⟩ := parseKey_ok parsedKey
  dsimp only at run
  rw [bind_ok] at run
  obtain ⟨⟨first, c₂⟩, parsed, run⟩ := run
  obtain ⟨before, text, blankBefore, derived, reads₁⟩ := values parsed
  dsimp only at run
  rw [bind_ok] at run
  obtain ⟨obj', stored, run⟩ := run
  have holds' := storeEntry_ok holds stored
  obtain ⟨after, blankAfter, reads₂, -⟩ := c₂.skipWs_reads
  let member : Member F :=
    ⟨⟨before, text, after, first, blankBefore, blankAfter⟩, lead, body, units, gap, blankLead, blankGap, named⟩
  have entry : (makeGcString key, first) = member.entry := by rw [made]; rfl
  rw [entry] at holds'
  have reads : c.Reads member.bytes c₂.skipWs := by
    simpa [Member.bytes, Item.bytes, member] using (readsKey.trans reads₁).trans reads₂
  split at run
  · cases run
  rename_i ch rest here
  have mark := Cursor.reads_cons here
  split at run
  · rename_i comma
    subst comma
    obtain ⟨members, nonempty, derived', rfl, reads'⟩ := later holds' run
    refine ⟨member :: members, cons_ne_nil _ _, ?_, rfl, ?_⟩
    · rintro member' (same | ⟨_, inside⟩)
      · exact derived
      · exact derived' member' inside
    · rw [map_cons, commaSeparated_cons _ (by simpa using nonempty)]
      simpa using (reads.trans mark).trans reads'
  · split at run
    · rename_i close
      subst close
      rw [bind_ok] at run
      obtain ⟨value', listed, run⟩ := run
      rw [entriesOf, holds'.toList] at listed
      cases listed
      cases run
      refine ⟨[member], cons_ne_nil _ _, ?_, rfl, ?_⟩
      · rintro member' (same | ⟨_, inside⟩)
        · exact derived
        · cases inside
      · rw [map_singleton, commaSeparated_singleton]
        exact reads.trans mark
    · cases run

theorem valueSound_succ (members : MembersSound strtod fuel) (elements : ElementsSound strtod fuel) :
    ValueSound strtod (fuel + 1) := by
  intro c value c' run
  obtain ⟨before, blankBefore, reads₀, -⟩ := c.skipWs_reads
  suffices ∃ text, Value strtod text value ∧ c.skipWs.Reads text c' by
    obtain ⟨text, derived, reads⟩ := this
    exact ⟨before, text, blankBefore, derived, reads₀.trans reads⟩
  rw [parseValue] at run
  dsimp only at run
  split at run
  · cases run
  rename_i ch rest here
  have mark := Cursor.reads_cons here
  split at run
  · rw [bind_ok] at run
    obtain ⟨⟨decoded, c₁⟩, parsed, run⟩ := run
    cases run
    obtain ⟨body, units, valid, reads, made⟩ := parseString_ok parsed
    exact ⟨_, made ▸ .string valid, reads⟩
  split at run
  · rename_i brace
    subst brace
    obtain ⟨blank, isBlank, reads₁, -⟩ := (c.skipWs.advance 1).skipWs_reads
    split at run
    · rename_i close
      cases run
      obtain ⟨ch, rest, here', equal⟩ := Cursor.at_cases close
      cases of_decide_eq_true equal
      exact ⟨_, .emptyObject isBlank, by simpa using (mark.trans reads₁).trans (Cursor.reads_cons here')⟩
    obtain ⟨members', nonempty, derived, rfl, reads₂⟩ := members (ObjectTable.gcNewObject_holds _) run
    obtain ⟨member, rest', rfl⟩ := exists_cons_of_ne_nil nonempty
    have canonical (entry : GcString × Tree F) (inside : entry ∈ (member :: rest').map Member.entry) :
        ∃ units, entry.1 = .ofUnits units := by
      obtain ⟨member', -, rfl⟩ := mem_map.mp inside
      exact ⟨_, rfl⟩
    have object : Value strtod _ _ := .object (member.pad blank isBlank :: rest') (cons_ne_nil _ _) (by
      rintro member' (same | ⟨_, inside⟩)
      · exact derived member mem_cons_self
      · exact derived member' (mem_cons_of_mem _ inside))
    rw [foldl_insertEntry _ canonical]
    refine ⟨_, object, ?_⟩
    rw [map_cons, Member.bytes_pad, commaSeparated_pad]
    simpa using (mark.trans reads₁).trans reads₂
  split at run
  · rename_i bracket
    subst bracket
    obtain ⟨blank, isBlank, reads₁, -⟩ := (c.skipWs.advance 1).skipWs_reads
    split at run
    · rename_i close
      cases run
      obtain ⟨ch, rest, here', equal⟩ := Cursor.at_cases close
      cases of_decide_eq_true equal
      exact ⟨_, .emptyArray isBlank, by simpa using (mark.trans reads₁).trans (Cursor.reads_cons here')⟩
    · obtain ⟨items, nonempty, derived, rfl, reads₂⟩ := elements run
      obtain ⟨item, rest', rfl⟩ := exists_cons_of_ne_nil nonempty
      have array : Value strtod _ _ := .array (item.pad blank isBlank :: rest') (cons_ne_nil _ _) (by
        rintro item' (same | ⟨_, inside⟩)
        · exact derived item mem_cons_self
        · exact derived item' (mem_cons_of_mem _ inside))
      refine ⟨_, array, ?_⟩
      rw [map_cons, Item.bytes_pad, commaSeparated_pad]
      simpa using (mark.trans reads₁).trans reads₂
  split at run
  · obtain ⟨rfl, reads⟩ := parseLiteral_ok run
    exact ⟨_, .trueLiteral, reads⟩
  split at run
  · obtain ⟨rfl, reads⟩ := parseLiteral_ok run
    exact ⟨_, .falseLiteral, reads⟩
  split at run
  · obtain ⟨rfl, reads⟩ := parseLiteral_ok run
    exact ⟨_, .nullLiteral, reads⟩
  split at run
  · exact parseNumber_ok run
  · cases run

theorem sound (fuel : Nat) : ValueSound strtod fuel ∧ MembersSound strtod fuel ∧ ElementsSound strtod fuel := by
  induction fuel with
  | zero => exact ⟨nofun, nofun, nofun⟩
  | succ fuel ih =>
    obtain ⟨values, members, elements⟩ := ih
    exact ⟨valueSound_succ members elements, membersSound_succ values members, elementsSound_succ values elements⟩

theorem denotes_of_parse (run : Parser.parse strtod data = .ok value) : Denotes strtod data value := by
  rw [Parser.parse, parse, bind_ok] at run
  obtain ⟨⟨value', c'⟩, parsed, run⟩ := run
  obtain ⟨before, text, blankBefore, derived, reads₁⟩ := (sound _).1 parsed
  obtain ⟨lead, blankLead, reads₀, -⟩ := (⟨0, data⟩ : Cursor).skipWs_reads
  obtain ⟨after, blankAfter, reads₂, -⟩ := c'.skipWs_reads
  dsimp only at run
  split at run
  · cases run
  rename_i finished
  cases run
  have whole := ((reads₀.trans reads₁).trans reads₂).rest
  rw [not_not.mp finished] at whole
  exact ⟨lead ++ before, text, after, by simpa using whole, blankLead.append blankBefore, blankAfter, derived⟩

/-! The converse: every text that the grammar derives is read to its end. -/

theorem number_head (number : NumberText) :
    ∃ ch rest, number.bytes = ch :: rest ∧ (ch = 0x2D ∨ isDigit ch = true) := by
  obtain ⟨negative, whole, fraction, exponent, wholeValid, noLeadingZero, fractionValid⟩ := number
  cases negative with
  | true => exact ⟨0x2D, _, rfl, .inl rfl⟩
  | false =>
    obtain ⟨ch, rest, rfl⟩ := exists_cons_of_ne_nil wholeValid.1
    exact ⟨ch, _, rfl, .inr ((isDigit_iff ch).mpr (wholeValid.2 ch mem_cons_self))⟩

/-- The first byte of a number is none that begins something else. -/
theorem number_first (first : ch = 0x2D ∨ isDigit ch = true) :
    isWs ch = false ∧ ch ≠ 0x5D ∧ ch ≠ 0x22 ∧ ch ≠ 0x7B ∧ ch ≠ 0x5B ∧ ch ≠ 0x74 ∧ ch ≠ 0x66 ∧ ch ≠ 0x6E :=
  Unicode.forall_byte (P := fun ch => (ch = 0x2D ∨ isDigit ch = true) →
    isWs ch = false ∧ ch ≠ 0x5D ∧ ch ≠ 0x22 ∧ ch ≠ 0x7B ∧ ch ≠ 0x5B ∧ ch ≠ 0x74 ∧ ch ≠ 0x66 ∧ ch ≠ 0x6E)
    (by decide +kernel) ch first

/-- The first byte of a value tells it from a blank and from a closing bracket. -/
theorem value_head (derived : Value strtod text value) :
    ∃ ch rest, text = ch :: rest ∧ isWs ch = false ∧ ch ≠ 0x5D := by
  have number (number : NumberText) : ∃ ch rest, number.bytes = ch :: rest ∧ isWs ch = false ∧ ch ≠ 0x5D := by
    obtain ⟨ch, rest, bytes, first⟩ := number_head number
    exact ⟨ch, rest, bytes, (number_first first).1, (number_first first).2.1⟩
  cases derived with
  | nullLiteral | trueLiteral | falseLiteral => exact ⟨_, _, rfl, rfl, by decide⟩
  | integer text _ _ => exact number text
  | float text _ _ _ => exact number text
  | string _ | emptyArray _ | emptyObject _ => exact ⟨_, _, rfl, rfl, by decide⟩
  | array _ _ _ | object _ _ _ => exact ⟨_, _, rfl, rfl, by decide⟩

/-- A text is read to its end when a delimiter follows. -/
def Complete (strtod : List UInt8 → StrtodResult F) (text : List UInt8) (value : Tree F) : Prop :=
  ∀ ⦃fuel before c c'⦄, 2 * text.length < fuel → Blank before → c.Reads (before ++ text) c' → Delimited c' →
    parseValue strtod fuel c = .ok (value, c')

theorem Delimited.before_blank (delimited : Delimited c') (isBlank : Blank blank) (reads : c.Reads blank c') :
    Delimited c := by
  unfold Delimited at *
  rw [reads.rest]
  cases blank with
  | nil => exact delimited
  | cons ch rest =>
    change delimits ch = true
    rw [delimits, (isWs_iff ch).mpr (isBlank ch mem_cons_self)]
    rfl

theorem stops_of_reads (reads : c.Reads (ch :: text) c') {p : UInt8 → Bool} (other : p ch = false) : c.Stops p :=
  (reads.at_cons p).trans other

theorem delimited_of_reads (reads : c.Reads (ch :: text) c') (found : delimits ch = true) : Delimited c := by
  rw [Delimited, reads.rest]
  exact found

/-- A value inside an array or an object, up to the mark behind it. -/
theorem Complete.item {item : Item F} (complete : Complete strtod item.text item.value)
    (enough : 2 * item.text.length < fuel) (isMark : delimits mark = true) (notWs : isWs mark = false)
    (reads : c.Reads (item.bytes ++ [mark]) c') :
    ∃ c₁, parseValue strtod fuel c = .ok (item.value, c₁) ∧ c₁.skipWs.Reads [mark] c' := by
  obtain ⟨c₂, readsItem, reads₃⟩ := reads.split
  obtain ⟨c₁, reads₁, reads₂⟩ := readsItem.split
  have delimited := (delimited_of_reads reads₃ isMark).before_blank item.blankAfter reads₂
  refine ⟨c₁, complete enough item.blankBefore reads₁ delimited, ?_⟩
  rw [reads₂.skipWs item.blankAfter (stops_of_reads reads₃ notWs)]
  exact reads₃

theorem parseElements_of_items (nonempty : items ≠ [])
    (complete : ∀ item ∈ items, Complete strtod item.text item.value) {elems : List (Tree F)}
    (enough : 2 * (commaSeparated (items.map Item.bytes)).length + 1 < fuel)
    (reads : c.Reads (commaSeparated (items.map Item.bytes) ++ [0x5D]) c') :
    parseElements strtod fuel elems c = .ok (.array (elems ++ items.map Item.value), c') := by
  induction items generalizing fuel elems c with
  | nil => exact absurd rfl nonempty
  | cons item rest ih =>
    obtain _ | fuel := fuel
    · cases enough
    have first := complete item mem_cons_self
    have length : item.text.length ≤ item.bytes.length := by simp [Item.bytes]; omega
    rw [parseElements]
    cases rest with
    | nil =>
      rw [map_singleton, commaSeparated_singleton] at enough reads
      have room : 2 * item.text.length < fuel := by omega
      obtain ⟨c₁, run, reads₁⟩ := first.item room rfl rfl reads
      obtain ⟨rest', here⟩ := reads₁.rest_cons
      rw [bind_of_ok run]
      simp only [here, reads₁.advance_one]
      rfl
    | cons next rest =>
      rw [map_cons, commaSeparated_cons _ (by simp)] at enough reads
      rw [length_append, length_cons] at enough
      have room : 2 * item.text.length < fuel := by omega
      have whole : c.Reads ((item.bytes ++ [0x2C]) ++ (commaSeparated ((next :: rest).map Item.bytes) ++ [0x5D])) c' := by
        simpa using reads
      obtain ⟨c₂, readsItem, readsRest⟩ := whole.split
      obtain ⟨c₁, run, reads₁⟩ := first.item room rfl rfl readsItem
      obtain ⟨rest', here⟩ := reads₁.rest_cons
      have room' : 2 * (commaSeparated ((next :: rest).map Item.bytes)).length + 1 < fuel := by omega
      have later : parseElements strtod fuel (elems ++ [item.value]) c₂ = _ :=
        ih (cons_ne_nil _ _) (fun item member => complete item (mem_cons_of_mem _ member)) room' readsRest
      rw [bind_of_ok run]
      simp only [here, reads₁.advance_one, if_true, later]
      simp

theorem parseKey_of_body (blankLead : Blank lead) (blankGap : Blank gap)
    (valid : StringBody body units) (reads : c.Reads (lead ++ (0x22 :: body ++ [0x22]) ++ gap ++ [0x3A]) c') :
    ∃ key, parseKey c = .ok (key, c') ∧ makeGcString key = .ofUnits units := by
  obtain ⟨c₃, reads, reads₄⟩ := reads.split
  obtain ⟨c₂, reads, reads₃⟩ := reads.split
  obtain ⟨c₁, reads₁, reads₂⟩ := reads.split
  obtain ⟨key, run, made⟩ := parseString_of_body valid reads₂
  obtain ⟨rest, here⟩ := Cursor.Reads.rest_cons reads₂
  have colon : c₃.at (· = 0x3A) = true := (reads₄.at_cons _).trans rfl
  refine ⟨key, ?_, made⟩
  have started := reads₁.skipWs blankLead (stops_of_reads reads₂ rfl)
  have passed := reads₃.skipWs blankGap (stops_of_reads reads₄ rfl)
  simp only [parseKey, started, here, ne_eq, not_true_eq_false, if_false]
  rw [bind_of_ok run]
  simp only [passed, colon, not_true_eq_false, if_false, reads₄.advance_one]
  rfl

theorem storeEntry_holds (holds : obj.Holds entries) (key : DecodedString) (value : Tree F) (pos : Nat) :
    ∃ obj', storeEntry obj key value pos = .ok obj' ∧ obj'.Holds (insertEntry entries (makeGcString key, value)) := by
  obtain ⟨obj', done, holds'⟩ := ObjectTable.gcObjectSet_holds holds (makeGcString key) value
  exact ⟨obj', by rw [storeEntry, done], holds'⟩

/-- One member is read and stored, up to the mark behind it. -/
theorem parseMembers_member {member : Member F} (complete : Complete strtod member.text member.value)
    (holds : obj.Holds entries) (enough : 2 * member.bytes.length < fuel) (isMark : delimits mark = true)
    (notWs : isWs mark = false) (reads : c.Reads (member.bytes ++ [mark]) c') :
    ∃ obj', obj'.Holds (insertEntry entries member.entry) ∧ parseMembers strtod (fuel + 1) obj c =
      if mark = 0x2C then parseMembers strtod fuel obj' c'
      else if mark = 0x7D then (do
        let value ← entriesOf obj'
        return (value, c'))
      else setError "expected ',' or '\x7d' after object value" (c'.pos - 1) := by
  have whole : c.Reads ((member.lead ++ (0x22 :: member.key ++ [0x22]) ++ member.gap ++ [0x3A]) ++
      (member.toItem.bytes ++ [mark])) c' := by simpa [Member.bytes] using reads
  have length : member.text.length ≤ member.bytes.length := by
    simp [Member.bytes, Item.bytes]
    omega
  have room : 2 * member.text.length < fuel := by omega
  obtain ⟨c₁, readsKey, readsItem⟩ := whole.split
  obtain ⟨key, parsedKey, made⟩ := parseKey_of_body member.blankLead member.blankGap member.named readsKey
  obtain ⟨c₂, run, reads₂⟩ := Complete.item complete room isMark notWs readsItem
  obtain ⟨obj', stored, holds'⟩ := storeEntry_holds holds key member.value c₂.pos
  obtain ⟨rest, here⟩ := reads₂.rest_cons
  rw [made] at holds'
  refine ⟨obj', holds', ?_⟩
  rw [parseMembers, bind_of_ok parsedKey]
  dsimp only
  rw [bind_of_ok run]
  dsimp only
  rw [bind_of_ok stored]
  have pos : c'.pos - 1 = c₂.skipWs.pos := by rw [reads₂.pos]; rfl
  simp only [here, reads₂.advance_one, pos]

theorem parseMembers_of_members (nonempty : members ≠ [])
    (complete : ∀ member ∈ members, Complete strtod member.text member.value) (holds : obj.Holds entries)
    (enough : 2 * (commaSeparated (members.map Member.bytes)).length + 1 < fuel)
    (reads : c.Reads (commaSeparated (members.map Member.bytes) ++ [0x7D]) c') :
    parseMembers strtod fuel obj c = .ok (.object ((members.map Member.entry).foldl insertEntry entries), c') := by
  induction members generalizing fuel obj entries c with
  | nil => exact absurd rfl nonempty
  | cons member rest ih =>
    obtain _ | fuel := fuel
    · cases enough
    have first := complete member mem_cons_self
    cases rest with
    | nil =>
      rw [map_singleton, commaSeparated_singleton] at enough reads
      have room : 2 * member.bytes.length < fuel := by omega
      obtain ⟨obj', holds', step⟩ := parseMembers_member first holds room rfl rfl reads
      rw [step, if_neg (by decide), if_pos rfl, entriesOf, holds'.toList]
      rfl
    | cons next rest =>
      rw [map_cons, commaSeparated_cons _ (by simp)] at enough reads
      rw [length_append, length_cons] at enough
      have room : 2 * member.bytes.length < fuel := by omega
      have whole : c.Reads ((member.bytes ++ [0x2C]) ++
          (commaSeparated ((next :: rest).map Member.bytes) ++ [0x7D])) c' := by simpa using reads
      obtain ⟨c₂, readsMember, readsRest⟩ := whole.split
      obtain ⟨obj', holds', step⟩ := parseMembers_member first holds room rfl rfl readsMember
      have room' : 2 * (commaSeparated ((next :: rest).map Member.bytes)).length + 1 < fuel := by omega
      rw [step, if_pos rfl]
      exact ih (cons_ne_nil _ _) (fun member inside => complete member (mem_cons_of_mem _ inside)) holds' room'
        readsRest

/-- The blanks are passed over, and the first byte says how to go on. -/
theorem parseValue_start (isBlank : Blank before) (notWs : isWs ch = false)
    (reads : c.Reads (before ++ ch :: text) c') :
    ∃ c₁ rest, c.skipWs = c₁ ∧ c₁.rest = ch :: rest ∧ c₁.Reads (ch :: text) c' := by
  obtain ⟨c₁, reads₁, reads₂⟩ := reads.split
  obtain ⟨rest, here⟩ := reads₂.rest_cons
  exact ⟨c₁, rest, reads₁.skipWs isBlank (stops_of_reads reads₂ notWs), here, reads₂⟩

theorem complete_number {number : NumberText}
    (converted : ∀ start, convertNumber strtod start number.isFloat number.bytes = .ok value) :
    Complete strtod number.bytes value := by
  intro fuel before c c' enough isBlank reads delimited
  obtain _ | fuel := fuel
  · cases enough
  obtain ⟨ch, text, bytes, first⟩ := number_head number
  obtain ⟨notWs, -, quote, brace, bracket, t, f, n⟩ := number_first first
  rw [bytes] at reads
  obtain ⟨c₁, rest, started, here, reads₁⟩ := parseValue_start isBlank notWs reads
  rw [← bytes] at reads₁
  simp only [parseValue, started, here, if_neg quote, if_neg brace, if_neg bracket, if_neg t, if_neg f, if_neg n,
    if_pos first]
  exact parseNumber_of_number reads₁ delimited (converted _)

theorem complete_string (valid : StringBody body units) :
    Complete strtod (0x22 :: body ++ [0x22]) (.heapString (.ofUnits units)) := by
  intro fuel before c c' enough isBlank reads delimited
  obtain _ | fuel := fuel
  · cases enough
  obtain ⟨c₁, rest, started, here, reads₁⟩ := parseValue_start isBlank rfl reads
  obtain ⟨out, run, made⟩ := parseString_of_body valid reads₁
  simp only [parseValue, started, here, if_true]
  rw [bind_of_ok run, ← made]
  rfl

/-- An opening bracket with what stands between it and the closing one. -/
theorem open_reads (isBlank : Blank before) (notWs : isWs mark = false)
    (reads : c.Reads (before ++ (mark :: text ++ [close])) c') :
    ∃ c₁ c₂ rest, c.skipWs = c₁ ∧ c₁.rest = mark :: rest ∧ c₁.advance 1 = c₂ ∧ c₂.Reads (text ++ [close]) c' := by
  obtain ⟨c₁, rest, started, here, reads₁⟩ := parseValue_start isBlank notWs reads
  obtain ⟨c₂, opened, reads₂⟩ := Cursor.Reads.uncons reads₁
  exact ⟨c₁, c₂, rest, started, here, opened.advance_one, reads₂⟩

theorem complete_array (nonempty : items ≠ []) (derived : ∀ item ∈ items, Value strtod item.text item.value)
    (values : ∀ item ∈ items, Complete strtod item.text item.value) :
    Complete strtod (0x5B :: commaSeparated (items.map Item.bytes) ++ [0x5D]) (.array (items.map Item.value)) := by
  intro fuel before c c' enough isBlank reads delimited
  obtain _ | fuel := fuel
  · cases enough
  obtain ⟨c₁, c₂, rest, started, here, opened, reads₂⟩ := open_reads isBlank rfl reads
  obtain ⟨item, items, rfl⟩ := exists_cons_of_ne_nil nonempty
  -- the blanks behind the bracket are passed over before the first element
  let bare : Item F := { item with before := [], blankBefore := nofun }
  have bytes : item.bytes = item.before ++ bare.bytes := by simp [Item.bytes, bare]
  rw [map_cons, bytes, commaSeparated_pad] at enough reads₂
  rw [append_assoc] at reads₂
  obtain ⟨c₃, readsBlank, reads₃⟩ := reads₂.split
  obtain ⟨ch, text, head, notWs, notClose⟩ := value_head (derived item mem_cons_self)
  obtain ⟨tail, joined⟩ : ∃ tail, commaSeparated (bare.bytes :: items.map Item.bytes) ++ [0x5D] = ch :: tail := by
    have front : bare.bytes = ch :: (text ++ bare.after) := by simp [Item.bytes, bare, head]
    rw [front]
    cases items with
    | nil => exact ⟨_, by rw [map_nil, commaSeparated_singleton]; rfl⟩
    | cons next rest => exact ⟨_, by rw [commaSeparated_cons _ (by simp)]; rfl⟩
  have first := joined ▸ reads₃
  have passed := readsBlank.skipWs item.blankBefore (stops_of_reads first notWs)
  have notEmpty : c₃.at (· = 0x5D) = false := (first.at_cons _).trans (decide_eq_false notClose)
  have room : 2 * (commaSeparated ((bare :: items).map Item.bytes)).length + 1 < fuel := by
    simp only [length_append, length_cons, map_cons] at enough ⊢
    omega
  have complete : ∀ item' ∈ bare :: items, Complete strtod item'.text item'.value := by
    rintro item' (member | ⟨_, member⟩)
    · exact values item mem_cons_self
    · exact values item' (mem_cons_of_mem _ member)
  have run : parseElements strtod fuel [] c₃ = _ := parseElements_of_items (cons_ne_nil _ _) complete room reads₃
  simp only [parseValue, started, here, opened, passed, notEmpty]
  exact run

theorem complete_object (nonempty : members ≠ [])
    (values : ∀ member ∈ members, Complete strtod member.text member.value) :
    Complete strtod (0x7B :: commaSeparated (members.map Member.bytes) ++ [0x7D])
      (.object (objectOf (members.map Member.entry))) := by
  intro fuel before c c' enough isBlank reads delimited
  obtain _ | fuel := fuel
  · cases enough
  obtain ⟨c₁, c₂, rest, started, here, opened, reads₂⟩ := open_reads isBlank rfl reads
  obtain ⟨member, members, rfl⟩ := exists_cons_of_ne_nil nonempty
  let bare : Member F := { member with lead := [], blankLead := nofun }
  have bytes : member.bytes = member.lead ++ bare.bytes := by simp [Member.bytes, bare]
  rw [map_cons, bytes, commaSeparated_pad] at enough reads₂
  rw [append_assoc] at reads₂
  obtain ⟨c₃, readsBlank, reads₃⟩ := reads₂.split
  obtain ⟨tail, joined⟩ : ∃ tail, commaSeparated (bare.bytes :: members.map Member.bytes) ++ [0x7D] = 0x22 :: tail := by
    have front : ∃ text, bare.bytes = 0x22 :: text := ⟨_, rfl⟩
    obtain ⟨text, front⟩ := front
    rw [front]
    cases members with
    | nil => exact ⟨_, by rw [map_nil, commaSeparated_singleton]; rfl⟩
    | cons next rest => exact ⟨_, by rw [commaSeparated_cons _ (by simp)]; rfl⟩
  have first := joined ▸ reads₃
  have passed := readsBlank.skipWs member.blankLead (stops_of_reads first rfl)
  have notEmpty : c₃.at (· = 0x7D) = false := (first.at_cons _).trans rfl
  have room : 2 * (commaSeparated ((bare :: members).map Member.bytes)).length + 1 < fuel := by
    simp only [length_append, length_cons, map_cons] at enough ⊢
    omega
  have complete : ∀ member' ∈ bare :: members, Complete strtod member'.text member'.value := by
    rintro member' (same | ⟨_, inside⟩)
    · exact values member mem_cons_self
    · exact values member' (mem_cons_of_mem _ inside)
  have canonical (entry : GcString × Tree F) (inside : entry ∈ (member :: members).map Member.entry) :
      ∃ units, entry.1 = .ofUnits units := by
    obtain ⟨member', -, rfl⟩ := mem_map.mp inside
    exact ⟨_, rfl⟩
  have run := parseMembers_of_members (cons_ne_nil _ _) complete
    (ObjectTable.gcNewObject_holds kInitialContainerCapacity) room reads₃
  rw [← foldl_insertEntry _ canonical]
  simp only [parseValue, started, here, opened, passed, notEmpty]
  exact run

theorem complete_empty (isBlank : Blank blank) (notWs : isWs mark = false) (notWs' : isWs close = false)
    (closes : ∀ ⦃fuel : Nat⦄ ⦃c c₁ c₂ rest⦄, c.skipWs = c₁ → c₁.rest = mark :: rest → (c₁.advance 1).skipWs = c₂ → c₂.at (· = close) = true → parseValue strtod (fuel + 1) c = .ok (value, c₂.advance 1)) :
    Complete strtod (mark :: blank ++ [close]) value := by
  intro fuel before c c' enough isBlank' reads delimited
  obtain _ | fuel := fuel
  · cases enough
  obtain ⟨c₁, c₂, rest, started, here, opened, reads₂⟩ := open_reads isBlank' notWs reads
  obtain ⟨c₃, readsBlank, reads₃⟩ := reads₂.split
  have passed : (c₁.advance 1).skipWs = c₃ := by
    rw [opened]
    exact readsBlank.skipWs isBlank (stops_of_reads reads₃ notWs')
  rw [closes started here passed ((reads₃.at_cons _).trans (decide_eq_true rfl)), reads₃.advance_one]

theorem complete_literal (notWs : isWs mark = false)
    (literal : ∀ ⦃fuel : Nat⦄ ⦃c c₁ rest⦄, c.skipWs = c₁ → c₁.rest = mark :: rest → parseValue strtod (fuel + 1) c = parseLiteral (mark :: text) value c₁) :
    Complete strtod (mark :: text) value := by
  intro fuel before c c' enough isBlank reads delimited
  obtain _ | fuel := fuel
  · cases enough
  obtain ⟨c₁, rest, started, here, reads₁⟩ := parseValue_start isBlank notWs reads
  rw [literal started here, parseLiteral_of_reads reads₁]

theorem complete (derived : Value strtod text value) : Complete strtod text value := by
  induction derived with
  | nullLiteral | trueLiteral | falseLiteral =>
    refine complete_literal rfl fun fuel c c₁ rest started here => ?_
    simp only [parseValue, started, here]
    rfl
  | integer number plain fits =>
    exact complete_number fun start => convertNumber_ok.mpr (.inr ⟨plain, fits.1, fits.2, rfl⟩)
  | float number isFloat inRange accepted =>
    exact complete_number fun start => convertNumber_ok.mpr (.inl ⟨isFloat, inRange, accepted, rfl⟩)
  | string valid => exact complete_string valid
  | emptyArray isBlank | emptyObject isBlank =>
    refine complete_empty isBlank rfl rfl fun fuel c c₁ c₂ rest started here passed close => ?_
    simp only [parseValue, started, here, passed, close]
    rfl
  | array items nonempty derived values => exact complete_array nonempty derived values
  | object members nonempty derived values => exact complete_object nonempty values

theorem parse_of_denotes (denotes : Denotes strtod data value) : Parser.parse strtod data = .ok value := by
  obtain ⟨before, text, after, rfl, blankBefore, blankAfter, derived⟩ := denotes
  obtain ⟨ch, rest, rfl, notWs, -⟩ := value_head derived
  let finish : Cursor := ⟨(before ++ ch :: rest ++ after).length, []⟩
  have reads : (⟨0, before ++ ch :: rest ++ after⟩ : Cursor).Reads (before ++ (ch :: rest ++ after)) finish :=
    ⟨by simp [finish], by simp [finish]⟩
  obtain ⟨c₁, reads₁, later⟩ := reads.split
  obtain ⟨c₂, reads₂, reads₃⟩ := Cursor.Reads.split later
  have ended : Delimited finish := rfl
  have started := reads₁.skipWs blankBefore (stops_of_reads reads₂ notWs)
  have room : 2 * (ch :: rest).length < 2 * (before ++ ch :: rest ++ after).length + 2 := by
    simp only [length_append]
    omega
  have run := complete derived room (nofun : Blank []) reads₂ (ended.before_blank blankAfter reads₃)
  have passed := reads₃.skipWs blankAfter rfl
  rw [Parser.parse, parse, started, bind_of_ok run]
  dsimp only
  rw [passed, if_neg (not_not.mpr rfl)]
  rfl

end ParserImpl

/-- The parser accepts exactly the JSON texts, and returns the value they denote. -/
theorem parse_iff_denotes {F : Type} (strtod : List UInt8 → StrtodResult F) (data : List UInt8) (value : Tree F) :
    Parser.parse strtod data = .ok value ↔ Denotes strtod data value :=
  ⟨ParserImpl.denotes_of_parse, ParserImpl.parse_of_denotes⟩

end FiberGateway.Json
