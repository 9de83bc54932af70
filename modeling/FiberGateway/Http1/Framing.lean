import FiberGateway.Http1.Connection

/-!
What the header handlers leave of a request's framing, over a whole list of fields and over its permutations.
-/

namespace FiberGateway.Http1

open List

/-- What the handlers write of an exchange. -/
structure Framing where
  chunked : Bool := false
  contentLengthSet : Bool := false
  contentLength : Nat := 0
  close : Bool := false
  keepAlive : Bool := false
  deriving DecidableEq, Repr

def Request.framing (request : Request) : Framing :=
  ⟨request.chunked, request.contentLengthSet, request.contentLength, request.close, request.keepAlive⟩

/-- The handler of a field, as `parse_request` runs it. -/
def handleField (request : Request) (field : HeaderField) : Option Request :=
  match headerHandler field.lowcaseName field.nameHash with
  | none => some request
  | some handler => handler request field.value.text

/-- The fields of a request that has its request line, one after the other. -/
def handleFields (line : RequestLineState) (data : List UInt8) (block : Nat) (fields : List HeaderField) :
    Option Framing :=
  (fields.foldlM handleField (describeRequest line data block {})).map Request.framing

inductive HandlerKind
  | contentLength | transferEncoding | connection
  deriving DecidableEq, Repr

def HandlerKind.name : HandlerKind → List UInt8
  | .contentLength => "content-length".toList.map byte
  | .transferEncoding => "transfer-encoding".toList.map byte
  | .connection => "connection".toList.map byte

def HandlerKind.handle : HandlerKind → Request → List UInt8 → Option Request
  | .contentLength => handleContentLength
  | .transferEncoding => handleTransferEncoding
  | .connection => handleConnection

/-- Which handler a field is given to. -/
def HeaderField.kind (field : HeaderField) : Option HandlerKind :=
  [HandlerKind.contentLength, .transferEncoding, .connection].find? fun kind =>
    hashName kind.name = field.nameHash ∧ equalsAsciiCi kind.name field.lowcaseName

theorem headerHandler_kind (field : HeaderField) :
    headerHandler field.lowcaseName field.nameHash = field.kind.map HandlerKind.handle := by
  have handlers : headerHandlers =
      [HandlerKind.contentLength, .transferEncoding, .connection].map fun kind => (kind.name, kind.handle) := rfl
  rw [headerHandler, handlers, List.find?_map, Option.map_map]
  rfl

def listsToken (value : List UInt8) (token : String) : Bool :=
  (tokens value).any (equalsAsciiCi · (token.toList.map byte))

/-- What a field does to the framing. -/
inductive FramingEffect
  | length (value : Option Nat)
  | chunked
  | connection (close keepAlive : Bool)
  | nothing
  deriving DecidableEq, Repr

def HeaderField.effect (field : HeaderField) : FramingEffect :=
  match field.kind with
  | some .contentLength => .length (fromChars field.value.text)
  | some .transferEncoding => if listsToken field.value.text "chunked" then .chunked else .nothing
  | some .connection =>
    .connection (listsToken field.value.text "close")
      ((tokens field.value.text).any fun token =>
        ! equalsAsciiCi token ("close".toList.map byte) && equalsAsciiCi token ("keep-alive".toList.map byte))
  | none => .nothing

def FramingEffect.apply (framing : Framing) : FramingEffect → Option Framing
  | .length none => none
  | .length (some value) =>
    if framing.contentLengthSet ∧ framing.contentLength ≠ value then none
    else if framing.chunked then some framing
    else some { framing with contentLengthSet := true, contentLength := value }
  | .chunked => some { framing with chunked := true, contentLengthSet := false, contentLength := 0 }
  | .connection close keepAlive =>
    some { framing with close := framing.close || close, keepAlive := framing.keepAlive || keepAlive }
  | .nothing => some framing

theorem handleConnection_framing (request : Request) (value : List UInt8) :
    (handleConnection request value).map Request.framing = FramingEffect.apply request.framing
      (.connection (listsToken value "close") ((tokens value).any fun token =>
        ! equalsAsciiCi token ("close".toList.map byte) && equalsAsciiCi token ("keep-alive".toList.map byte))) := by
  rw [handleConnection, listsToken, FramingEffect.apply, Option.map_some, Option.some_inj]
  generalize "close".toList.map byte = close
  generalize "keep-alive".toList.map byte = keepAlive
  induction tokens value generalizing request with
  | nil => simp [Request.framing]
  | cons token rest ih =>
    rw [foldl_cons, ih]
    by_cases closes : equalsAsciiCi token close = true
    · simp [closes, Request.framing]
    by_cases keeps : equalsAsciiCi token keepAlive = true
    · simp [closes, keeps, Request.framing]
    · simp [closes, keeps, Request.framing]

theorem handleField_framing (request : Request) (field : HeaderField) :
    (handleField request field).map Request.framing = field.effect.apply request.framing := by
  rw [handleField, headerHandler_kind, HeaderField.effect]
  cases field.kind with
  | none => rfl
  | some kind =>
    cases kind with
    | contentLength =>
      simp only [Option.map_some, HandlerKind.handle, handleContentLength]
      cases fromChars field.value.text with
      | none => rfl
      | some length =>
        simp only [FramingEffect.apply, apply_ite (Option.map Request.framing), Option.map_none, Option.map_some]
        rfl
    | transferEncoding =>
      simp only [Option.map_some, HandlerKind.handle, handleTransferEncoding]
      change Option.map _ (if listsToken field.value.text "chunked" = true then _ else _) = _
      split
      · rfl
      · rfl
    | connection => exact handleConnection_framing request field.value.text

/-- The handlers see nothing of a request but its framing. -/
theorem handleFields_eq (line : RequestLineState) (data : List UInt8) (block : Nat) (fields : List HeaderField) :
    handleFields line data block fields = (fields.map HeaderField.effect).foldlM FramingEffect.apply {} := by
  have run (request : Request) : (fields.foldlM handleField request).map Request.framing =
      (fields.map HeaderField.effect).foldlM FramingEffect.apply request.framing := by
    induction fields generalizing request with
    | nil => rfl
    | cons field rest ih =>
      rw [foldlM_cons, map_cons, foldlM_cons, ← handleField_framing]
      cases handleField request field with
      | none => rfl
      | some request' => exact ih request'
  exact run _

namespace FramingEffect

def isLength : FramingEffect → Bool
  | .length _ => true
  | _ => false

def closes : FramingEffect → Bool
  | .connection close _ => close
  | _ => false

def keepsAlive : FramingEffect → Bool
  | .connection _ keepAlive => keepAlive
  | _ => false

/-- What a list of effects leaves of a framing when all its lengths are `value`. -/
def settle (value : Nat) (framing : Framing) (effects : List FramingEffect) : Framing :=
  let chunked := framing.chunked || effects.any (· == .chunked)
  let contentLengthSet := !chunked && (framing.contentLengthSet || effects.any isLength)
  { chunked, contentLengthSet
    contentLength := if contentLengthSet then value else 0
    close := framing.close || effects.any closes
    keepAlive := framing.keepAlive || effects.any keepsAlive }

/-- The framings that a run whose lengths are all `value` goes through. -/
structure Consistent (value : Nat) (framing : Framing) : Prop where
  length : framing.contentLength = if framing.contentLengthSet then value else 0
  plain : framing.chunked → framing.contentLengthSet = false

variable {value : Nat} {framing framing' : Framing} {effect : FramingEffect} {effects effects' : List FramingEffect}

theorem consistent_empty (value : Nat) : Consistent value {} :=
  ⟨rfl, fun _ => rfl⟩

theorem consistent_settle (value : Nat) (framing : Framing) (effects : List FramingEffect) :
    Consistent value (settle value framing effects) := by
  constructor
  case length => rfl
  case plain =>
    intro chunked
    simp only [settle] at chunked ⊢
    rw [chunked]
    rfl

theorem settle_nil (consistent : Consistent value framing) : settle value framing [] = framing := by
  obtain ⟨length, plain⟩ := consistent
  cases framing with
  | mk chunked contentLengthSet contentLength close keepAlive =>
    cases chunked <;> simp_all [settle]

theorem settle_settle (value : Nat) (framing : Framing) (effect : FramingEffect) (rest : List FramingEffect) :
    settle value (settle value framing [effect]) rest = settle value framing (effect :: rest) := by
  by_cases given : framing.chunked = true
  · simp [settle, given, Bool.or_assoc]
  by_cases here : effect = .chunked
  · simp [settle, given, here, Bool.or_assoc]
  · have other := beq_false_of_ne here
    simp [settle, given, other, Bool.or_assoc]

theorem settle_perm (same : effects.Perm effects') (value : Nat) (framing : Framing) :
    settle value framing effects = settle value framing effects' := by
  simp only [settle, same.any_eq]

theorem apply_settle (consistent : Consistent value framing) (agrees : ∀ v, effect = .length v → v = some value) :
    effect.apply framing = some (settle value framing [effect]) := by
  have unchanged := settle_nil consistent
  obtain ⟨length, plain⟩ := consistent
  cases effect with
  | length v =>
    cases agrees v rfl
    cases chunked : framing.chunked <;> cases given : framing.contentLengthSet <;>
      simp_all [apply, settle, isLength, closes, keepsAlive]
    all_goals cases framing; simp_all
  | chunked => simp [apply, settle, isLength, closes, keepsAlive]
  | connection close keepAlive =>
    have other : (connection close keepAlive == chunked) = false := rfl
    nth_rewrite 1 [← unchanged]
    simp [apply, settle, isLength, closes, keepsAlive, other]
  | nothing =>
    nth_rewrite 1 [← unchanged]
    rfl

/-- Lengths that are all the same are accepted, and then only what there is counts, not its order. -/
theorem foldlM_settle (consistent : Consistent value framing)
    (agree : ∀ v, .length v ∈ effects → v = some value) :
    effects.foldlM apply framing = some (settle value framing effects) := by
  induction effects generalizing framing with
  | nil => rw [settle_nil consistent]; rfl
  | cons effect rest ih =>
    have first := apply_settle consistent fun v same => agree v (same ▸ mem_cons_self)
    rw [foldlM_cons, first]
    refine (ih (consistent_settle value framing [effect]) ?_).trans ?_
    · intro v member
      exact agree v (mem_cons_of_mem effect member)
    · rw [settle_settle]

/-- A Content-Length that is no number is rejected wherever it stands. -/
theorem foldlM_of_invalid (invalid : .length none ∈ effects) (framing : Framing) :
    effects.foldlM apply framing = none := by
  induction effects generalizing framing with
  | nil => cases invalid
  | cons effect rest ih =>
    rw [foldlM_cons]
    rcases mem_cons.mp invalid with rfl | later
    · rfl
    cases effect.apply framing with
    | none => rfl
    | some framing' => exact ih later framing'

theorem apply_unchunked (unchunked : effect ≠ .chunked) (plain : framing.chunked = false)
    (accepted : effect.apply framing = some framing') : framing'.chunked = false := by
  cases effect with
  | length v =>
    cases v with
    | none => cases accepted
    | some value =>
      simp only [apply, plain] at accepted
      split at accepted
      · cases accepted
      · cases accepted
        rfl
  | chunked => exact absurd rfl unchunked
  | connection close keepAlive => cases accepted; exact plain
  | nothing => cases accepted; exact plain

/-- A length that is set stays the length, as long as nothing chunked comes. -/
theorem apply_length (unchunked : effect ≠ .chunked) (given : framing.contentLengthSet = true)
    (accepted : effect.apply framing = some framing') :
    framing'.contentLengthSet = true ∧ framing'.contentLength = framing.contentLength := by
  cases effect with
  | length v =>
    cases v with
    | none => cases accepted
    | some value =>
      simp only [apply, given, true_and] at accepted
      split at accepted
      · cases accepted
      rename_i same
      rw [not_not] at same
      split at accepted
      · cases accepted
        exact ⟨given, rfl⟩
      · cases accepted
        exact ⟨rfl, same.symm⟩
  | chunked => exact absurd rfl unchunked
  | connection close keepAlive => cases accepted; exact ⟨given, rfl⟩
  | nothing => cases accepted; exact ⟨given, rfl⟩

theorem foldlM_length (unchunked : .chunked ∉ effects) (given : framing.contentLengthSet = true)
    (accepted : effects.foldlM apply framing = some framing') :
    framing'.contentLengthSet = true ∧ framing'.contentLength = framing.contentLength := by
  induction effects generalizing framing with
  | nil => cases accepted; exact ⟨given, rfl⟩
  | cons effect rest ih =>
    rw [foldlM_cons] at accepted
    obtain ⟨next, step, later⟩ := Option.bind_eq_some_iff.mp accepted
    have here := apply_length (fun same => unchunked (same ▸ mem_cons_self)) given step
    have there := ih (fun member => unchunked (mem_cons_of_mem effect member)) here.1 later
    exact ⟨there.1, there.2.trans here.2⟩

/-- Without a chunked coding every length that is accepted is the one of the request. -/
theorem length_eq (unchunked : .chunked ∉ effects) (plain : framing.chunked = false)
    (accepted : effects.foldlM apply framing = some framing') {v : Option Nat} (member : .length v ∈ effects) :
    v = some framing'.contentLength := by
  induction effects generalizing framing with
  | nil => cases member
  | cons effect rest ih =>
    have first : effect ≠ .chunked := fun same => unchunked (same ▸ mem_cons_self)
    have others : .chunked ∉ rest := fun member => unchunked (mem_cons_of_mem effect member)
    rw [foldlM_cons] at accepted
    obtain ⟨next, step, later⟩ := Option.bind_eq_some_iff.mp accepted
    rcases mem_cons.mp member with rfl | member
    · cases v with
      | none => cases step
      | some value =>
        simp only [apply, plain] at step
        split at step
        · cases step
        · cases step
          rw [(foldlM_length others rfl later).2]
    · exact ih others (apply_unchunked first plain step) later member

/-- Some field says chunked, and of the lengths, which are all numbers, two differ. -/
def Conflict (effects : List FramingEffect) : Prop :=
  .chunked ∈ effects ∧ .length none ∉ effects ∧
    ∃ first second, .length (some first) ∈ effects ∧ .length (some second) ∈ effects ∧ first ≠ second

theorem foldlM_perm (free : ¬ Conflict effects) (same : effects'.Perm effects) :
    effects'.foldlM apply {} = effects.foldlM apply {} := by
  by_cases invalid : .length none ∈ effects
  · rw [foldlM_of_invalid invalid, foldlM_of_invalid (same.mem_iff.mpr invalid)]
  by_cases differ : ∃ first second, .length (some first) ∈ effects ∧ .length (some second) ∈ effects ∧ first ≠ second
  · -- two lengths that differ are rejected in both orders, as nothing is chunked
    have unchunked : .chunked ∉ effects := fun chunked => free ⟨chunked, invalid, differ⟩
    obtain ⟨first, second, left, right, ne⟩ := differ
    have rejects {list : List FramingEffect} (perm : list.Perm effects) : list.foldlM apply {} = none := by
      cases run : list.foldlM apply {} with
      | none => rfl
      | some framing =>
        have outside : .chunked ∉ list := fun chunked => unchunked (perm.mem_iff.mp chunked)
        have one := length_eq outside rfl run (perm.mem_iff.mpr left)
        have two := length_eq outside rfl run (perm.mem_iff.mpr right)
        exact absurd (Option.some.inj (one.trans two.symm)) ne
    rw [rejects same, rejects (List.Perm.refl effects)]
  · obtain ⟨value, agree⟩ : ∃ value, ∀ v, .length v ∈ effects → v = some value := by
      by_cases some_length : ∃ value, .length (some value) ∈ effects
      · obtain ⟨value, member⟩ := some_length
        refine ⟨value, fun v other => ?_⟩
        cases v with
        | none => exact absurd other invalid
        | some second =>
          by_contra ne
          exact differ ⟨second, value, other, member, fun same => ne (congrArg some same)⟩
      · refine ⟨0, fun v other => ?_⟩
        cases v with
        | none => exact absurd other invalid
        | some second => exact absurd ⟨second, other⟩ some_length
    rw [foldlM_settle (consistent_empty value) agree,
      foldlM_settle (consistent_empty value) fun v member => agree v (same.mem_iff.mp member),
      settle_perm same]

/-- A framing that is chunked takes every length that is a number. -/
theorem foldlM_of_chunked (chunked : framing.chunked = true) (unset : framing.contentLengthSet = false)
    (valid : .length none ∉ effects) : ∃ framing', effects.foldlM apply framing = some framing' := by
  induction effects generalizing framing with
  | nil => exact ⟨framing, rfl⟩
  | cons effect rest ih =>
    have others : .length none ∉ rest := fun member => valid (mem_cons_of_mem effect member)
    have first : effect ≠ .length none := fun same => valid (same ▸ mem_cons_self)
    rw [foldlM_cons]
    cases effect with
    | length v =>
      cases v with
      | none => exact absurd rfl first
      | some value =>
        have kept : apply framing (.length (some value)) = some framing := by
          simp [apply, chunked, unset]
        rw [kept]
        exact ih chunked unset others
    | chunked => exact ih rfl rfl others
    | connection close keepAlive => exact ih chunked unset others
    | nothing => exact ih chunked unset others

end FramingEffect

/-- Some Transfer-Encoding lists chunked, every Content-Length is a number and two of them differ. -/
def Conflict (fields : List HeaderField) : Prop :=
  (∃ field ∈ fields, field.kind = some .transferEncoding ∧ listsToken field.value.text "chunked") ∧
  (∀ field ∈ fields, field.kind = some .contentLength → (fromChars field.value.text).isSome) ∧
  ∃ first ∈ fields, ∃ second ∈ fields, first.kind = some .contentLength ∧ second.kind = some .contentLength ∧
    fromChars first.value.text ≠ fromChars second.value.text


theorem HeaderField.effect_chunked (field : HeaderField) :
    field.effect = .chunked ↔
      field.kind = some .transferEncoding ∧ listsToken field.value.text "chunked" = true := by
  rw [HeaderField.effect]
  split <;> rename_i kind <;> simp [kind]

theorem HeaderField.effect_length (field : HeaderField) (v : Option Nat) :
    field.effect = .length v ↔ field.kind = some .contentLength ∧ fromChars field.value.text = v := by
  rw [HeaderField.effect]
  split <;> rename_i kind <;> simp [kind]
  split <;> simp

theorem conflict_effects (fields : List HeaderField) :
    Conflict fields ↔ FramingEffect.Conflict (fields.map HeaderField.effect) := by
  simp only [Conflict, FramingEffect.Conflict, mem_map, HeaderField.effect_chunked, HeaderField.effect_length]
  refine and_congr_right fun _ => ?_
  constructor
  · rintro ⟨valid, first, left, second, right, one, two, ne⟩
    obtain ⟨x, parsed⟩ := Option.isSome_iff_exists.mp (valid first left one)
    obtain ⟨y, parsed'⟩ := Option.isSome_iff_exists.mp (valid second right two)
    refine ⟨?_, x, y, ⟨first, left, one, parsed⟩, ⟨second, right, two, parsed'⟩, ?_⟩
    · rintro ⟨field, member, kind, unparsed⟩
      have parses := valid field member kind
      rw [unparsed] at parses
      cases parses
    · intro same
      rw [parsed, parsed', same] at ne
      exact ne rfl
  · rintro ⟨valid, x, y, ⟨first, left, one, parsed⟩, ⟨second, right, two, parsed'⟩, ne⟩
    refine ⟨?_, first, left, second, right, one, two, ?_⟩
    · intro field member kind
      rw [← Option.ne_none_iff_isSome]
      intro unparsed
      exact valid ⟨field, member, kind, unparsed⟩
    · rw [parsed, parsed']
      intro same
      exact ne (Option.some.inj same)

namespace FramingEffect

variable {effects : List FramingEffect}

/-- The lengths first: two that differ meet before anything is chunked. -/
theorem lengths_first (conflict : Conflict effects) :
    (effects.filter isLength ++ effects.filter (! isLength ·)).foldlM apply {} = none := by
  obtain ⟨-, -, first, second, left, right, ne⟩ := conflict
  have unchunked : .chunked ∉ effects.filter isLength := by
    intro member
    cases (mem_filter.mp member).2
  rw [List.foldlM_append]
  cases run : (effects.filter isLength).foldlM apply {} with
  | none => rfl
  | some framing =>
    have one := length_eq unchunked rfl run (mem_filter.mpr ⟨left, rfl⟩)
    have two := length_eq unchunked rfl run (mem_filter.mpr ⟨right, rfl⟩)
    exact absurd (Option.some.inj (one.trans two.symm)) ne

/-- The lengths last: the request is chunked by then, and no length is compared with another. -/
theorem lengths_last (conflict : Conflict effects) :
    ∃ framing, (effects.filter (! isLength ·) ++ effects.filter isLength).foldlM apply {} = some framing := by
  obtain ⟨chunked, valid, -⟩ := conflict
  have others : ∀ v, .length v ∈ effects.filter (! isLength ·) → v = some 0 := by
    intro v member
    cases (mem_filter.mp member).2
  have found : (effects.filter (! isLength ·)).any (· == .chunked) = true :=
    any_eq_true.mpr ⟨.chunked, mem_filter.mpr ⟨chunked, rfl⟩, rfl⟩
  rw [List.foldlM_append, foldlM_settle (consistent_empty 0) others]
  refine foldlM_of_chunked ?_ ?_ fun member => valid (mem_filter.mp member).1
  · simp [settle, found]
  · simp [settle, found]

end FramingEffect

/-- The framing is the same in every order, unless lengths that differ stand beside a chunked coding. -/
theorem handleFields_perm_iff (line : RequestLineState) (data : List UInt8) (block : Nat)
    (fields : List HeaderField) :
    (∀ fields', fields'.Perm fields →
      handleFields line data block fields' = handleFields line data block fields) ↔ ¬ Conflict fields := by
  simp only [handleFields_eq, conflict_effects]
  constructor
  · intro ordered conflict
    have early := ordered _ (filter_append_perm (·.effect.isLength) fields)
    have late := ordered _ (perm_append_comm.trans (filter_append_perm (·.effect.isLength) fields))
    have filtered (p : FramingEffect → Bool) :
        (fields.filter fun field => p field.effect).map HeaderField.effect =
          (fields.map HeaderField.effect).filter p := by
      rw [filter_map]
      rfl
    have lengths := filtered FramingEffect.isLength
    have others := filtered (! FramingEffect.isLength ·)
    rw [map_append, lengths, others, FramingEffect.lengths_first conflict] at early
    obtain ⟨framing, accepted⟩ := FramingEffect.lengths_last conflict
    rw [map_append, lengths, others, accepted, ← early] at late
    cases late
  · intro free fields' same
    exact FramingEffect.foldlM_perm free (same.map HeaderField.effect)

def fieldNamed (name value : String) : HeaderField :=
  ⟨⟨some 0, name.toList.map byte⟩, ⟨some 0, value.toList.map byte⟩, name.toList.map byte,
    hashName (name.toList.map byte)⟩

/-- Two lengths around a chunked coding pass; the same fields with the coding last are rejected. -/
theorem lengths_around_chunked :
    let first := fieldNamed "content-length" "5"
    let coding := fieldNamed "transfer-encoding" "chunked"
    let second := fieldNamed "content-length" "6"
    [first, coding, second].Perm [first, second, coding] ∧
      handleFields {} [] 0 [first, coding, second] = some { chunked := true } ∧
      handleFields {} [] 0 [first, second, coding] = none := by
  intro first coding second
  refine ⟨(List.Perm.swap second coding []).cons first, ?_, ?_⟩
  · rw [handleFields_eq]
    decide +kernel
  · rw [handleFields_eq]
    decide +kernel

end FiberGateway.Http1
