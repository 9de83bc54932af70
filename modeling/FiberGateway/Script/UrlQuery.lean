import FiberGateway.Json.ObjectMap
import FiberGateway.Json.ParserCorrect
import FiberGateway.Json.Utf
import FiberGateway.Script.StdLibraryFuncs

/-!
`URL.parseQuery` and `URL.buildQuery`. Allocations succeed; a `none` around a result is an access outside the arrays of
an object.
-/

namespace FiberGateway.Script

open Json Unicode
open List hiding lookup lookup_cons
open Json.ObjectTable (lookup lookup_cons gcNewObject gcObjectSet gcObjectGet)

abbrev ScriptValue (F : Type) := Json.Tree F

abbrev Entries (F : Type) := List (GcString × ScriptValue F)

variable {F : Type}

def getUtf8String : ScriptValue F → Option (List UInt8)
  | .nativeString ns => if utf8Validate ns then some ns else none
  | .heapString str => gcStringToUtf8 str
  | _ => none

def latin (s : String) : List UInt8 := s.toList.map char

/-- How a double is printed is left to the stream. -/
def jsonutilToString (doubleToString : F → List UInt8) : ScriptValue F → List UInt8
  | .undefined => latin "<nil>"
  | .null => latin "null"
  | .boolean b => latin (if b then "true" else "false")
  | .integer i => latin (toString i)
  | .float f => doubleToString f
  | .array _ | .iterator => latin "<ArrayNode>"
  | .object _ | .exception .. => latin "<ObjectNode>"
  | .nativeBinary data | .heapBinary data => data
  | .heapString str => (getUtf8String (F := F) (.heapString str)).getD (latin "<nil>")
  | .nativeString ns => (getUtf8String (F := F) (.nativeString ns)).getD (latin "<nil>")

def makeHeapStringValue (text : List UInt8) : Except String (ScriptValue F) :=
  match gcNewString text with
  | some str => .ok (.heapString str)
  | none => .error "out of memory"

/-- The value of a key with one more pushed to it. An array is pushed to where the object refers to it. -/
def grown (value : ScriptValue F) : Option (ScriptValue F) → ScriptValue F
  | none => value
  | some (.array elems) => .array (elems ++ [value])
  | some existing => .array [existing, value]

def parsePart (obj : ObjectTable (ScriptValue F)) (part : List UInt8) :
    Option (Except String (ObjectTable (ScriptValue F))) :=
  if part = [] then some (.ok obj)
  else match urlDecode (part.takeWhile (· ≠ char '=')), urlDecode ((part.dropWhile (· ≠ char '=')).drop 1) with
    | some key, some value =>
      if key = [] then some (.ok obj)
      else match gcNewString key, makeHeapStringValue value with
        | some keyStr, .ok valueVal => do
          let existing ← gcObjectGet obj keyStr
          match ← gcObjectSet {} obj keyStr (grown valueVal existing) with
          | (true, obj) => return .ok obj
          | (false, _) => return .error "out of memory"
        | _, _ => some (.error "out of memory")
    | _, _ => some (.error "parse query invalid encoding")

def parseParts (obj : ObjectTable (ScriptValue F)) : List (List UInt8) → Option (Except String (ScriptValue F))
  | [] => obj.toList.map fun entries => .ok (.object entries)
  | part :: parts => do
    match ← parsePart obj part with
    | .ok obj => parseParts obj parts
    | .error message => return .error message

def parseQuery : List (ScriptValue F) → Option (Except String (ScriptValue F))
  | [] => some (.error "parse query require at least one argument")
  | arg :: _ =>
    match getUtf8String arg with
    | none => some (.error "parse query require text value")
    | some input => if input = [] then some (.ok (.object [])) else parseParts (gcNewObject 0) (input.splitOn (char '&'))

def elements : ScriptValue F → List (ScriptValue F)
  | .array elems => elems
  | value => [value]

def buildPair (key value : List UInt8) : List UInt8 := urlEncode key ++ char '=' :: urlEncode value

def buildEntry (doubleToString : F → List UInt8) (entry : GcString × ScriptValue F) : List UInt8 :=
  match gcStringToUtf8 entry.1 with
  | none => []
  | some key => (elements entry.2).flatMap fun elem => buildPair key (jsonutilToString doubleToString elem) ++ [char '&']

def buildQuery (doubleToString : F → List UInt8) : List (ScriptValue F) → Option (Except String (ScriptValue F))
  | [] => some (.error "build query require at least one argument")
  | .undefined :: _ => some (.ok .undefined)
  | .null :: _ => some (.ok .null)
  | .object entries :: _ =>
    let out := entries.flatMap (buildEntry doubleToString)
    some (makeHeapStringValue (if out.getLast? = some (char '&') then out.dropLast else out))
  | _ => some (.error "build query require object value")

/-- A well-formed text, by its code points. -/
abbrev Text := {codes : List Nat // ∀ code ∈ codes, IsScalar code}

def Text.bytes (t : Text) : List UInt8 := t.1.flatMap utf8

def Text.units (t : Text) : List UInt16 := t.1.flatMap utf16

/-- A string of these code units; none of them is large where it is kept in bytes. -/
inductive Spells : ScriptValue F → List UInt16 → Prop
  | heap {str : GcString} (narrow : str.encoding = .byte → ∀ unit ∈ str.units, unit ≤ 0xFF) :
      Spells (.heapString str) str.units
  | native {ns : List UInt8} {codes : List Nat} (decodes : Decodes ns codes) :
      Spells (.nativeString ns) (codes.flatMap utf16)

inductive DeepEqual : ScriptValue F → ScriptValue F → Prop
  | string {value value' : ScriptValue F} {units : List UInt16} (left : Spells value units) (right : Spells value' units) :
      DeepEqual value value'
  | array {elems elems' : List (ScriptValue F)} (each : Forall₂ DeepEqual elems elems') :
      DeepEqual (.array elems) (.array elems')
  | object {entries entries' : Entries F} (keys : entries.map (·.1.units) = entries'.map (·.1.units))
      (each : Forall₂ DeepEqual (entries.map Prod.snd) (entries'.map Prod.snd)) :
      DeepEqual (.object entries) (.object entries')

/-- A key that comes once has its value, and one that comes again the array of all of them. -/
def single : List (ScriptValue F) → ScriptValue F
  | [value] => value
  | values => .array values

def valuesOf (entries : Entries F) (key : GcString) : List (ScriptValue F) := (entries.filter (·.1 = key)).map Prod.snd

def grouped (entries : Entries F) : Entries F :=
  (firstKeys (entries.map Prod.fst)).map fun key => (key, single (valuesOf entries key))

def pairText (pair : Text × Text) : List UInt8 := buildPair pair.1.bytes pair.2.bytes

def queryText (pairs : List (Text × Text)) : List UInt8 := [char '&'].intercalate (pairs.map pairText)

def pairEntry (pair : Text × Text) : GcString × ScriptValue F := (.ofUnits pair.1.units, .heapString (.ofUnits pair.2.units))

/-- A string, or an array of at least two, with the texts in it. -/
inductive QueryValue : ScriptValue F → List Text → Prop
  | string {value : ScriptValue F} {text : Text} (spells : Spells value text.units) : QueryValue value [text]
  | array {elems : List (ScriptValue F)} {texts : List Text} (several : 2 ≤ texts.length)
      (each : Forall₂ (fun elem text => Spells elem text.units) elems texts) : QueryValue (.array elems) texts

theorem urlEncode_plain (data : List UInt8) {ch : UInt8} (member : ch ∈ urlEncode data) :
    ch ≠ char '&' ∧ ch ≠ char '=' ∧ ch.toNat < 0x80 := by
  obtain ⟨b, -, member⟩ := mem_flatMap.mp member
  refine forall_byte (P := fun b => ∀ ch ∈ urlEncode [b], ch ≠ char '&' ∧ ch ≠ char '=' ∧ ch.toNat < 0x80)
    (by decide +kernel) b ch ?_
  simpa [urlEncode] using member

theorem gcNewString_text (t : Text) : gcNewString t.bytes = some (.ofUnits t.units) := gcNewString_eq ⟨t.2, rfl⟩

theorem bytes_ne_nil {t : Text} (nonempty : t.1 ≠ []) : t.bytes ≠ [] := by
  obtain ⟨code, member⟩ := exists_mem_of_ne_nil _ nonempty
  obtain ⟨b, inside⟩ := exists_mem_of_length_pos (utf8_length_pos code)
  exact ne_nil_of_mem (mem_flatMap.mpr ⟨code, member, inside⟩)

section

variable {obj : ObjectTable (ScriptValue F)} {entries rest : Entries F} {entry : GcString × ScriptValue F} {key : GcString}
  {keys : List GcString} {value : ScriptValue F} {values : List (ScriptValue F)} {pairs : List (Text × Text)}
  {t : Text} {texts : List Text} {str : GcString} {units : List UInt16}

def storePair (entries : Entries F) (pair : Text × Text) : Entries F :=
  insertEntry entries (.ofUnits pair.1.units,
    grown (.heapString (.ofUnits pair.2.units)) (lookup (.ofUnits pair.1.units) entries))

theorem parsePart_pair (holds : obj.Holds entries) (pair : Text × Text) (nonempty : pair.1.1 ≠ []) :
    ∃ obj', parsePart obj (pairText pair) = some (.ok obj') ∧ obj'.Holds (storePair entries pair) := by
  have key (ch : UInt8) (member : ch ∈ urlEncode pair.1.bytes) := (urlEncode_plain _ member).2.1
  have front : (pairText pair).takeWhile (· ≠ char '=') = urlEncode pair.1.bytes := by
    rw [pairText, buildPair, takeWhile_append_of_pos (by simpa using key)]
    simp
  have back : ((pairText pair).dropWhile (· ≠ char '=')).drop 1 = urlEncode pair.2.bytes := by
    rw [pairText, buildPair, dropWhile_append_of_pos (by simpa using key)]
    simp
  obtain ⟨obj', done, holds'⟩ := ObjectTable.gcObjectSet_holds holds (.ofUnits pair.1.units)
    (grown (.heapString (.ofUnits pair.2.units)) (lookup (.ofUnits pair.1.units) entries))
  refine ⟨obj', ?_, holds'⟩
  rw [parsePart, if_neg (by simp [pairText, buildPair]), front, back, urlDecode_encode, urlDecode_encode]
  simp only [if_neg (bytes_ne_nil nonempty), makeHeapStringValue, gcNewString_text, ObjectTable.gcObjectGet_holds holds,
    Option.bind_eq_bind, Option.bind_some, done]
  rfl

theorem lookup_map (f : GcString → ScriptValue F) (names : ∀ {other}, other ∈ keys → other.units = key.units → other = key) :
    lookup key (keys.map fun other => (other, f other)) = if key ∈ keys then some (f key) else none := by
  induction keys with
  | nil => rfl
  | cons first rest ih =>
    rw [map_cons, lookup_cons, ih fun member => names (mem_cons_of_mem _ member)]
    by_cases same : first = key
    · simp [same, stringEquals]
    · have apart : ¬ stringEquals first key = true := fun equal =>
        same (names mem_cons_self ((stringEquals_iff _ _).mp equal))
      rw [if_neg apart]
      simp [Ne.symm same]

theorem grown_single (strings : ∀ value ∈ values, ∃ str, value = .heapString str) (value : ScriptValue F) :
    grown value (if values = [] then none else some (single values)) = single (values ++ [value]) := by
  match values with
  | [] => rfl
  | [first] =>
    obtain ⟨str, rfl⟩ := strings first mem_cons_self
    rfl
  | _ :: _ :: _ => rfl

theorem valuesOf_concat (entries : Entries F) (entry : GcString × ScriptValue F) (key : GcString) :
    valuesOf (entries ++ [entry]) key = valuesOf entries key ++ if entry.1 = key then [entry.2] else [] := by
  rw [valuesOf, filter_append, map_append, valuesOf]
  by_cases same : entry.1 = key <;> simp [same]

theorem valuesOf_eq_nil : valuesOf entries key = [] ↔ key ∉ entries.map Prod.fst := by
  simp only [valuesOf, map_eq_nil_iff, filter_eq_nil_iff, mem_map]
  grind

theorem grouped_concat (pairs : List (Text × Text)) (pair : Text × Text) :
    grouped ((pairs ++ [pair]).map pairEntry) = storePair (grouped (pairs.map pairEntry) : Entries F) pair := by
  have names {other : GcString} : other ∈ firstKeys ((pairs.map pairEntry : Entries F).map Prod.fst) →
      other.units = (GcString.ofUnits pair.1.units).units → other = .ofUnits pair.1.units :=
    eq_of_mem_firstKeys (by simp only [map_map, mem_map]; rintro _ ⟨other, -, rfl⟩; exact ⟨_, rfl⟩) ⟨_, rfl⟩
  have strings (key : GcString) : ∀ value ∈ valuesOf (pairs.map pairEntry : Entries F) key, ∃ str, value = .heapString str := by
    simp only [valuesOf, mem_map, mem_filter]
    rintro _ ⟨_, ⟨⟨other, -, rfl⟩, -⟩, rfl⟩
    exact ⟨_, rfl⟩
  rw [storePair, grouped, grouped, lookup_map _ names, insertEntry_map _ (nodup_firstKeys _) names, map_append, map_append]
  rw [show [pair].map pairEntry = [(pairEntry pair : GcString × ScriptValue F)] from rfl,
    show [(pairEntry pair : GcString × ScriptValue F)].map Prod.fst = [.ofUnits pair.1.units] from rfl, firstKeys_concat]
  simp only [mem_firstKeys, valuesOf_concat]
  refine map_congr_left fun other _ => ?_
  rw [show (pairEntry pair : GcString × ScriptValue F).1 = .ofUnits pair.1.units from rfl]
  by_cases same : other = .ofUnits pair.1.units
  · rw [if_pos same.symm, if_pos same, same, ← grown_single (strings _)]
    simp only [valuesOf_eq_nil, ite_not]
    rfl
  · rw [if_neg (Ne.symm same), if_neg same, append_nil]

theorem parseParts_pairs (nonempty : ∀ pair ∈ pairs, pair.1.1 ≠ []) (before : List (Text × Text))
    (holds : obj.Holds (grouped (before.map pairEntry))) :
    parseParts obj (pairs.map pairText) = some (.ok (.object (grouped ((before ++ pairs).map pairEntry)))) := by
  induction pairs generalizing obj before with
  | nil => rw [append_nil, map_nil, parseParts, holds.toList, Option.map_some]
  | cons pair pairs ih =>
    obtain ⟨obj', done, holds'⟩ := parsePart_pair holds pair (nonempty pair mem_cons_self)
    rw [← grouped_concat] at holds'
    rw [map_cons, parseParts, done, Option.bind_eq_bind, Option.bind_some]
    exact (ih (fun pair member => nonempty pair (mem_cons_of_mem _ member)) _ holds').trans (by rw [append_assoc]; rfl)

theorem parseQuery_pairs (nonempty : ∀ pair ∈ pairs, pair.1.1 ≠ []) (text : getUtf8String value = some (queryText pairs))
    (more : List (ScriptValue F)) :
    parseQuery (value :: more) = some (.ok (.object (grouped (pairs.map pairEntry)))) := by
  rw [parseQuery, text]
  obtain _ | ⟨pair, pairs⟩ := pairs
  · rfl
  have apart : ∀ part ∈ (pair :: pairs).map pairText, char '&' ∉ part := by
    simp only [mem_map, pairText, buildPair]
    rintro _ ⟨pair, -, rfl⟩ member
    rcases mem_append.mp member with inside | inside
    · exact (urlEncode_plain _ inside).1 rfl
    · exact (urlEncode_plain _ (mem_of_ne_of_mem (by decide) inside)).1 rfl
  have split := splitOn_intercalate (char '&') apart (by simp)
  rw [← queryText] at split
  dsimp only
  rw [if_neg fun empty => by simp [empty, pairText, buildPair] at split, split]
  exact parseParts_pairs nonempty [] (ObjectTable.gcNewObject_holds 0)

theorem spells_ofUnits (t : Text) : Spells (.heapString (.ofUnits t.units) : ScriptValue F) t.units := by
  refine @Spells.heap F (.ofUnits t.units) fun byte unit member => ?_
  unfold GcString.ofUnits at byte
  split at byte
  · rename_i narrow
    exact of_decide_eq_true (all_eq_true.mp narrow unit member)
  · cases byte

theorem Spells.units_eq (spells : Spells (.heapString str : ScriptValue F) units) : str.units = units := by
  cases spells
  rfl

theorem getUtf8String_spells (spells : Spells value t.units) : getUtf8String value = some t.bytes := by
  have made := gcStringToUtf8_ofUnits t.2
  generalize same : t.units = units at spells
  rw [← Text.units, same] at made
  cases spells with
  | @heap str narrow =>
    obtain ⟨encoding, units⟩ := str
    obtain rfl : t.units = units := same
    cases encoding with
    | byte =>
      rw [GcString.ofUnits, if_pos (by simpa using narrow rfl)] at made
      exact made
    | utf16 =>
      simp only [getUtf8String, gcStringToUtf8, Text.units, utf8Length_utf16 t.2, utf16ToUtf8_utf16 t.2, Option.bind_eq_bind,
        Option.bind_some, fill_exact]
      rfl
  | @native ns codes decodes =>
    have valid : utf8Validate ns = true := by
      simp only [utf8Validate, Option.isSome_iff_exists, utf8Scan_iff]
      exact ⟨_, codes, decodes, rfl⟩
    rw [gcStringToUtf8_ofUnits decodes.1, ← decodes.2] at made
    rw [getUtf8String, if_pos valid]
    exact made

theorem jsonutilToString_spells (spells : Spells value t.units) (doubleToString : F → List UInt8) :
    jsonutilToString doubleToString value = t.bytes := by
  have text := getUtf8String_spells spells
  generalize t.units = units at spells
  cases spells <;> rw [jsonutilToString, text, Option.getD_some]

def sentPair (pair : Text × Text) : List UInt8 := pairText pair ++ [char '&']

theorem buildPair_texts {elems : List (ScriptValue F)} (each : Forall₂ (fun elem text => Spells elem text.units) elems texts)
    (key : Text) (doubleToString : F → List UInt8) :
    (elems.flatMap fun elem => buildPair key.bytes (jsonutilToString doubleToString elem) ++ [char '&']) =
      (texts.map (key, ·)).flatMap sentPair := by
  induction each with
  | nil => rfl
  | cons spells _ ih => rw [flatMap_cons, ih, jsonutilToString_spells spells, map_cons, flatMap_cons, sentPair, pairText]

/-- What one entry sends, and that what comes back for it is the same. -/
theorem buildEntry_pairs {key : Text} (named : Spells (.heapString entry.1 : ScriptValue F) key.units)
    (valued : QueryValue entry.2 texts) (doubleToString : F → List UInt8) : texts ≠ [] ∧
      buildEntry doubleToString entry = (texts.map (key, ·)).flatMap sentPair ∧
      DeepEqual entry.2 (single (texts.map fun text => .heapString (.ofUnits text.units))) := by
  have text : gcStringToUtf8 entry.1 = some key.bytes := getUtf8String_spells named
  rw [buildEntry, text]
  obtain ⟨name, value⟩ := entry
  cases valued with
  | @string _ text spells =>
    have alone : elements value = [value] := by
      generalize text.units = units at spells
      cases spells <;> rfl
    refine ⟨by simp, ?_, .string spells (spells_ofUnits text)⟩
    rw [← buildPair_texts (.cons spells .nil) key doubleToString, ← alone]
  | @array elems _ several each =>
    have back : Forall₂ DeepEqual elems (texts.map fun text => .heapString (.ofUnits text.units)) :=
      forall₂_map_right_iff.mpr (each.imp fun _ text spells => .string spells (spells_ofUnits text))
    have sent := buildPair_texts each key doubleToString
    match texts, several, back, sent with
    | _ :: _ :: _, _, back, sent => exact ⟨by simp, sent, .array back⟩

theorem firstKeys_append (count : Nat) (apart : key ∉ keys) :
    firstKeys (replicate (count + 1) key ++ keys) = key :: firstKeys keys := by
  have rest : (firstKeys keys).filter (· ≠ key) = firstKeys keys :=
    filter_eq_self.mpr fun other member => decide_eq_true fun same => apart (same ▸ mem_firstKeys.mp member)
  induction count with
  | zero => rw [replicate_one, singleton_append, firstKeys, rest]
  | succ count ih => rw [replicate_succ, cons_append, firstKeys, ih, filter_cons_of_neg (by simp), rest]

theorem grouped_append (values : List (ScriptValue F)) (filled : values ≠ []) (apart : key ∉ rest.map Prod.fst) :
    grouped (values.map (key, ·) ++ rest) = (key, single values) :: grouped rest := by
  have count := Nat.sub_add_cancel (length_pos_iff.mpr filled)
  have keys : (values.map (key, ·)).map Prod.fst = replicate (values.length - 1 + 1) key := by
    rw [count, map_map]
    exact map_const' ..
  have own : valuesOf (values.map (key, ·) ++ rest) key = values := by
    have others := valuesOf_eq_nil.mpr apart
    rw [valuesOf, map_eq_nil_iff] at others
    simp [valuesOf, others, filter_map, Function.comp_def]
  have others (other : GcString) (member : other ∈ firstKeys (rest.map Prod.fst)) :
      valuesOf (values.map (key, ·) ++ rest) other = valuesOf rest other := by
    have differ : key ≠ other := fun same => apart (same ▸ mem_firstKeys.mp member)
    simp [valuesOf, filter_map, Function.comp_def, differ]
  rw [grouped, map_append, keys, firstKeys_append _ apart, map_cons, grouped, own,
    map_congr_left fun other member => by rw [others other member]]

theorem buildEntries (doubleToString : F → List UInt8) (distinct : (entries.map (·.1.units)).Nodup)
    (query : ∀ entry ∈ entries, ∃ (key : Text) (texts : List Text), key.1 ≠ [] ∧
      Spells (.heapString entry.1 : ScriptValue F) key.units ∧ QueryValue entry.2 texts) :
    ∃ pairs : List (Text × Text), (∀ pair ∈ pairs, pair.1.1 ≠ [] ∧ pair.1.units ∈ entries.map (·.1.units)) ∧
      entries.flatMap (buildEntry doubleToString) = pairs.flatMap sentPair ∧
      entries.map (·.1.units) = (grouped (pairs.map pairEntry) : Entries F).map (·.1.units) ∧
      Forall₂ DeepEqual (entries.map Prod.snd) ((grouped (pairs.map pairEntry)).map Prod.snd) := by
  induction entries with
  | nil => exact ⟨[], by simp, rfl, rfl, .nil⟩
  | cons entry entries ih =>
    obtain ⟨new, distinct⟩ := nodup_cons.mp distinct
    obtain ⟨key, texts, filled, named, valued⟩ := query entry mem_cons_self
    obtain ⟨nonempty, sent, same⟩ := buildEntry_pairs named valued doubleToString
    obtain ⟨pairs, inside, later, names, each⟩ := ih distinct fun entry member => query entry (mem_cons_of_mem _ member)
    have apart : GcString.ofUnits key.units ∉ (pairs.map pairEntry : Entries F).map Prod.fst := by
      simp only [map_map, mem_map]
      rintro ⟨pair, member, here⟩
      have same := named.units_eq.trans (ofUnits_inj.mp here).symm
      exact new (same ▸ (inside pair member).2 : entry.1.units ∈ _)
    have groups := grouped_append (texts.map fun text => .heapString (.ofUnits text.units)) (by simpa using nonempty) apart
    refine ⟨texts.map (key, ·) ++ pairs, fun pair member => ?_, ?_, ?_⟩
    · obtain member | member := mem_append.mp member
      · obtain ⟨text, -, rfl⟩ := mem_map.mp member
        exact ⟨filled, mem_cons.mpr (.inl named.units_eq.symm)⟩
      · exact ⟨(inside pair member).1, mem_cons_of_mem _ (inside pair member).2⟩
    · rw [flatMap_cons, sent, later, flatMap_append]
    · rw [map_map] at groups
      rw [map_append, map_map, show pairEntry ∘ (key, ·) = (GcString.ofUnits key.units, ·) ∘ _ from rfl, groups]
      exact ⟨congrArg₂ cons named.units_eq names, .cons same each⟩

theorem sentPairs_eq (filled : pairs ≠ []) : pairs.flatMap sentPair = queryText pairs ++ [char '&'] := by
  induction pairs with
  | nil => exact absurd rfl filled
  | cons pair rest ih =>
    obtain _ | ⟨next, rest⟩ := rest
    · simp [queryText, sentPair]
    · rw [flatMap_cons, ih (cons_ne_nil next rest)]
      simp [queryText, sentPair, intercalate_cons_cons]

theorem queryText_ascii (pairs : List (Text × Text)) : ∃ t : Text, t.bytes = queryText pairs := by
  have ascii : ∀ ch ∈ queryText pairs, ch.toNat < 0x80 := fun ch member => by
    obtain rfl | filled := eq_or_ne pairs []
    · cases member
    have sent := mem_append_left [char '&'] member
    rw [← sentPairs_eq filled] at sent
    obtain ⟨pair, -, inside⟩ := mem_flatMap.mp sent
    simp only [sentPair, pairText, buildPair, mem_append, mem_cons, not_mem_nil, or_false] at inside
    obtain (inside | rfl | inside) | rfl := inside
    · exact (urlEncode_plain _ inside).2.2
    · decide
    · exact (urlEncode_plain _ inside).2.2
    · decide
  refine ⟨⟨(queryText pairs).map (·.toNat), fun code member => ?_⟩, ?_⟩
  · obtain ⟨ch, inside, rfl⟩ := mem_map.mp member
    exact .inl (lt_trans (ascii ch inside) (by decide))
  · rw [Text.bytes, flatMap_map]
    refine (flatMap_congr fun ch inside => ?_).trans (flatMap_singleton' _)
    rw [utf8, if_pos (ascii ch inside), UInt8.ofNat_toNat]

theorem parseQuery_built {doubleToString : F → List UInt8} (nonempty : ∀ pair ∈ pairs, pair.1.1 ≠ [])
    (sent : entries.flatMap (buildEntry doubleToString) = pairs.flatMap sentPair) (more : List (ScriptValue F)) :
    ∃ text, buildQuery doubleToString (.object entries :: more) = some (.ok text) ∧
      parseQuery [text] = some (.ok (.object (grouped (pairs.map pairEntry)))) := by
  obtain ⟨t, ascii⟩ := queryText_ascii pairs
  have built : (if (pairs.flatMap sentPair).getLast? = some (char '&') then (pairs.flatMap sentPair).dropLast
      else pairs.flatMap sentPair) = t.bytes := by
    obtain rfl | filled := eq_or_ne pairs []
    · exact ascii.symm
    · rw [sentPairs_eq filled, getLast?_concat, if_pos rfl, dropLast_concat, ascii]
  refine ⟨.heapString (.ofUnits t.units), ?_, parseQuery_pairs nonempty ?_ []⟩
  · rw [buildQuery, sent, built, makeHeapStringValue, gcNewString_text]
  · rw [← ascii]
    exact getUtf8String_spells (spells_ofUnits t)

end

/-- Parsing the text of pairs groups their values, and gives back every object of strings that was built into a text. -/
theorem query_roundtrip (doubleToString : F → List UInt8) :
    (∀ (pairs : List (Text × Text)) (arg : ScriptValue F) (more : List (ScriptValue F)), (∀ pair ∈ pairs, pair.1.1 ≠ []) →
      getUtf8String arg = some (queryText pairs) →
      parseQuery (arg :: more) = some (.ok (.object (grouped (pairs.map pairEntry))))) ∧
    (∀ (entries : Entries F) (more : List (ScriptValue F)), (entries.map (·.1.units)).Nodup →
      (∀ entry ∈ entries, ∃ (key : Text) (texts : List Text), key.1 ≠ [] ∧
        Spells (.heapString entry.1 : ScriptValue F) key.units ∧ QueryValue entry.2 texts) →
      ∃ text value, buildQuery doubleToString (.object entries :: more) = some (.ok text) ∧
        parseQuery [text] = some (.ok value) ∧ DeepEqual (.object entries) value) := by
  refine ⟨fun pairs arg more nonempty text => parseQuery_pairs nonempty text more, fun entries more distinct query => ?_⟩
  obtain ⟨pairs, inside, sent, names, each⟩ := buildEntries doubleToString distinct query
  obtain ⟨text, built, parsed⟩ := parseQuery_built (fun pair member => (inside pair member).1) sent more
  exact ⟨text, _, built, parsed, .object names each⟩

def loneSurrogate : Entries Empty := [(.ofUnits [97], .heapString (.ofUnits [0xD800]))]

/-- The pair `a=<nil>`. -/
def nilPair : Text × Text := (⟨[97], by decide⟩, ⟨[60, 110, 105, 108, 62], by decide⟩)

theorem loneSurrogate_lost : ∃ text value, buildQuery (fun _ => []) [.object loneSurrogate] = some (.ok text) ∧
    parseQuery [text] = some (.ok value) ∧ ¬ DeepEqual (.object loneSurrogate) value := by
  have sent : loneSurrogate.flatMap (buildEntry fun _ => []) = [nilPair].flatMap sentPair := by decide +kernel
  obtain ⟨text, built, parsed⟩ := parseQuery_built (by decide) sent []
  refine ⟨text, _, built, parsed, fun equal => ?_⟩
  cases equal with
  | string left _ => cases left
  | object _ each =>
    obtain ⟨same, -⟩ := forall₂_cons.mp each
    cases same with
    | string left right => exact absurd (left.units_eq.trans right.units_eq.symm) (by decide +kernel)

end FiberGateway.Script
