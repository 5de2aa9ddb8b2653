import WkcBrowser.Network.LoadEnd

/-! The header blocks of one transfer. One response object is filled from all of them, so that a
field of an earlier block is still there when the last block is handed to the client, unless that
block sets it again. -/

namespace WkcBrowser.Network

open Wtf Lib.Interaction Program ResourceHandleManager

/-- A block with what curl tells at each of its lines and at the blank one. `reached` tells whether
the end of `headerCallback` is reached: the job is not cancelled and no challenge is answered. -/
structure HeaderBlock where
  lines : List (Info × List Byte)
  info : Info
  isSSL : Bool := false
  reached : Bool := true

section
variable (platform : Platform)

def receiveLines (response : ResourceResponse) (lines : List (Info × List Byte)) :
    ResourceResponse :=
  lines.foldl (fun response line => headerLine platform line.1 (widen line.2) response) response

/-- The response at the end of a block, as the client is handed it. -/
def completeBlock (response : ResourceResponse) (block : HeaderBlock) : ResourceResponse :=
  let response := { receiveLines platform response block.lines with
    url := block.info.effectiveURL
    httpStatusCode := block.info.responseCode }
  match blockCode block.isSSL block.info with
  | none => response
  | some httpCode => deriveResponse platform block.info httpCode response

/-- The block is a redirect. -/
def redirects (response : ResourceResponse) (block : HeaderBlock) : Prop :=
  ∃ httpCode ∈ blockCode block.isSSL block.info,
    (300 ≤ httpCode ∧ httpCode < 400) ∧ fieldText platform response "location" ≠ []

instance (response : ResourceResponse) (block : HeaderBlock) :
    Decidable (redirects platform response block) :=
  inferInstanceAs (Decidable (∃ httpCode ∈ blockCode block.isSSL block.info, _))

/-- The response when the next block begins. -/
def passBlock (response : ResourceResponse) (block : HeaderBlock) : ResourceResponse :=
  let response := completeBlock platform response block
  if (blockCode block.isSSL block.info).isNone ∨ block.reached = false then response
  else if redirects platform response block then clearRedirect platform response
  else { response with responseFired := true }

def passBlocks (response : ResourceResponse) (blocks : List HeaderBlock) : ResourceResponse :=
  blocks.foldl (passBlock platform) response

/-- The fields that a block sets. -/
def HeaderBlock.fields (block : HeaderBlock) : ResourceResponse :=
  receiveLines platform {} block.lines

def HeaderBlock.sets (block : HeaderBlock) (name : Text) : Prop :=
  (block.fields platform).httpHeaderField platform name ≠ none

/-- The response carries what is derived from the last block alone. -/
structure Isolated (response : ResourceResponse) (last : HeaderBlock) : Prop where
  fields : ∀ name, response.httpHeaderField platform name =
    (completeBlock platform {} last).httpHeaderField platform name
  status : response.httpStatusCode = (completeBlock platform {} last).httpStatusCode
  mimeType : response.mimeType = (completeBlock platform {} last).mimeType
  charset : response.textEncodingName = (completeBlock platform {} last).textEncodingName
  length : response.expectedContentLength =
    (completeBlock platform {} last).expectedContentLength

variable {platform}

theorem httpHeaderField_set (response : ResourceResponse) (name other : Text)
    (value : Option Text) :
    (response.setHTTPHeaderField platform name value).httpHeaderField platform other =
      if fold platform name = fold platform other then value
      else response.httpHeaderField platform other :=
  HTTPHeaderMap.get_set ..

/-- A line sets a field whatever the response held before. -/
theorem headerLine_field (info : Info) (header : Text) (response : ResourceResponse)
    (name : Text) :
    (headerLine platform info header response).httpHeaderField platform name =
      ((headerLine platform info header {}).httpHeaderField platform name).or
        (response.httpHeaderField platform name) := by
  have empty : ({} : ResourceResponse).httpHeaderField platform name = none := rfl
  unfold headerLine
  cases find [58] header with
  | some splitPos =>
    dsimp only
    split_ifs
    all_goals
      first
      | rw [httpHeaderField_set, httpHeaderField_set, empty]
        split <;> simp
      | simp [empty]
  | none =>
    dsimp only
    split
    · split <;> rfl
    · rfl

/-- The lines of a block set fields whatever the response held before. -/
theorem receiveLines_field (lines : List (Info × List Byte)) (response : ResourceResponse)
    (name : Text) :
    (receiveLines platform response lines).httpHeaderField platform name =
      ((receiveLines platform {} lines).httpHeaderField platform name).or
        (response.httpHeaderField platform name) := by
  induction lines using List.reverseRecOn with
  | nil => rfl
  | append_singleton lines line ih =>
    rw [receiveLines, receiveLines, List.foldl_append, List.foldl_append]
    simp only [List.foldl_cons, List.foldl_nil]
    rw [headerLine_field, headerLine_field line.1 (widen line.2) (List.foldl _ {} lines),
      Option.or_assoc, ← receiveLines, ← receiveLines, ih]

theorem completeBlock_fields (response : ResourceResponse) (block : HeaderBlock) :
    (completeBlock platform response block).httpHeaderFields =
      (receiveLines platform response block.lines).httpHeaderFields := by
  unfold completeBlock
  cases blockCode block.isSSL block.info <;> rfl

theorem completeBlock_field (response : ResourceResponse) (block : HeaderBlock) (name : Text) :
    (completeBlock platform response block).httpHeaderField platform name =
      ((block.fields platform).httpHeaderField platform name).or
        (response.httpHeaderField platform name) := by
  rw [ResourceResponse.httpHeaderField, completeBlock_fields]
  exact receiveLines_field block.lines response name

/-- The response of a block is isolated when its fields are, and its fields are when the block sets
again all that was set before. -/
theorem isolated_iff (before : ResourceResponse) {last : HeaderBlock}
    (announced : (blockCode last.isSSL last.info).isSome = true) :
    Isolated platform (completeBlock platform before last) last ↔
      ∀ name, before.httpHeaderField platform name ≠ none → last.sets platform name := by
  have fields : (∀ name, (completeBlock platform before last).httpHeaderField platform name =
      (completeBlock platform {} last).httpHeaderField platform name) ↔
      ∀ name, before.httpHeaderField platform name ≠ none → last.sets platform name := by
    apply forall_congr'
    intro name
    have empty : ({} : ResourceResponse).httpHeaderField platform name = none := rfl
    rw [completeBlock_field, completeBlock_field, empty, HeaderBlock.sets]
    cases (last.fields platform).httpHeaderField platform name <;>
      cases before.httpHeaderField platform name <;> simp
  constructor
  · exact fun isolated => fields.mp isolated.fields
  · intro again
    have same := fields.mpr again
    obtain ⟨httpCode, code⟩ := Option.isSome_iff_exists.mp announced
    have texts : ∀ name, fieldText platform (receiveLines platform before last.lines) name =
        fieldText platform (receiveLines platform {} last.lines) name := by
      intro name
      have equal := same (text name)
      rw [ResourceResponse.httpHeaderField, ResourceResponse.httpHeaderField,
        completeBlock_fields, completeBlock_fields] at equal
      exact congrArg (·.getD []) equal
    have texts' : ∀ (name : String) (url : Text) (status : Nat),
        fieldText platform { receiveLines platform before last.lines with
          url, httpStatusCode := status } name =
        fieldText platform { receiveLines platform {} last.lines with
          url, httpStatusCode := status } name :=
      fun name _ _ => texts name
    refine ⟨same, ?_, ?_, ?_, ?_⟩ <;>
      simp only [completeBlock, code, deriveResponse, texts']

/-- The fields that a redirect which is followed sets to null. -/
def Nulled (platform : Platform) (name : Text) : Prop :=
  fold platform (text "location") = fold platform name ∨
    fold platform (text "x-frame-options") = fold platform name

theorem clearRedirect_field (response : ResourceResponse) {name : Text}
    (kept : ¬Nulled platform name) :
    (clearRedirect platform response).httpHeaderField platform name =
      response.httpHeaderField platform name := by
  obtain ⟨location, frame⟩ := not_or.mp kept
  unfold clearRedirect
  dsimp only
  split
  · rw [httpHeaderField_set, if_neg frame, httpHeaderField_set, if_neg location]
  · rw [httpHeaderField_set, if_neg location]

theorem passBlock_field (response : ResourceResponse) (block : HeaderBlock) {name : Text}
    (kept : ¬Nulled platform name) :
    (passBlock platform response block).httpHeaderField platform name =
      ((block.fields platform).httpHeaderField platform name).or
        (response.httpHeaderField platform name) := by
  rw [← completeBlock_field]
  unfold passBlock
  dsimp only
  split_ifs
  · rfl
  · exact clearRedirect_field _ kept
  · rfl

/-- Other fields stay as long as the transfer lasts. -/
theorem passBlocks_field (response : ResourceResponse) (blocks : List HeaderBlock) {name : Text}
    (kept : ¬Nulled platform name) :
    (passBlocks platform response blocks).httpHeaderField platform name ≠ none ↔
      response.httpHeaderField platform name ≠ none ∨ ∃ block ∈ blocks, block.sets platform name := by
  induction blocks generalizing response with
  | nil => simp [passBlocks]
  | cons block blocks ih =>
    rw [passBlocks, List.foldl_cons, ← passBlocks, ih, passBlock_field response block kept]
    simp only [List.mem_cons, exists_eq_or_imp, HeaderBlock.sets, ne_eq, Option.or_eq_none_iff]
    tauto

/-- The response of the last block is isolated exactly when it sets again every field that an
earlier block set, those aside that a redirect has nulled since. -/
theorem response_isolated_iff (blocks : List HeaderBlock) {last : HeaderBlock}
    (announced : (blockCode last.isSSL last.info).isSome = true) :
    Isolated platform (completeBlock platform (passBlocks platform {} blocks) last) last ↔
      (∀ name, ¬Nulled platform name → (∃ block ∈ blocks, block.sets platform name) →
        last.sets platform name) ∧
      (∀ name, Nulled platform name →
        (passBlocks platform {} blocks).httpHeaderField platform name ≠ none →
        last.sets platform name) := by
  have empty : ∀ name, ({} : ResourceResponse).httpHeaderField platform name = none := fun _ => rfl
  rw [isolated_iff _ announced]
  constructor
  · intro again
    refine ⟨fun name kept earlier => again name ?_, fun name _ => again name⟩
    exact (passBlocks_field {} blocks kept).mpr (Or.inr earlier)
  · rintro ⟨others, nulled⟩ name held
    by_cases special : Nulled platform name
    · exact nulled name special held
    · apply others name special
      exact ((passBlocks_field {} blocks special).mp held).resolve_left (by simp [empty])

end

/-- A redirect that names a file. -/
def redirectBlock : HeaderBlock where
  lines := [({ responseCode := 302 }, ascii "Location: http://a/c\r\n"),
    ({ responseCode := 302 }, ascii "Content-Disposition: attachment; filename=x.exe\r\n")]
  info := { effectiveURL := text "http://a/b", responseCode := 302 }

def pageBlock : HeaderBlock where
  lines := [({ responseCode := 200 }, ascii "Content-Type: text/html\r\n")]
  info := { effectiveURL := text "http://a/c", responseCode := 200 }

theorem response_isolated_pageBlock : Isolated examplePlatform
    (completeBlock examplePlatform (passBlocks examplePlatform {} [pageBlock]) pageBlock)
      pageBlock := by
  refine (response_isolated_iff [pageBlock] (by decide)).mpr ⟨?_, ?_⟩
  · rintro name - ⟨block, member, sets⟩
    exact List.mem_singleton.mp member ▸ sets
  · rintro name (same | same) held
    · have absent : (passBlocks examplePlatform {} [pageBlock]).httpHeaderField examplePlatform
          (text "location") = none := by decide
      exact absurd ((HTTPHeaderMap.get_congr same _).symm.trans absent) held
    · have absent : (passBlocks examplePlatform {} [pageBlock]).httpHeaderField examplePlatform
          (text "x-frame-options") = none := by decide
      exact absurd ((HTTPHeaderMap.get_congr same _).symm.trans absent) held

theorem not_response_isolated_redirectBlock : ¬∀ blocks last,
    (blockCode last.isSSL last.info).isSome = true →
    Isolated examplePlatform (completeBlock examplePlatform
      (passBlocks examplePlatform {} blocks) last) last := by
  intro always
  have isolated := always [redirectBlock] pageBlock (by decide)
  have field := isolated.fields (text "Content-Disposition")
  revert field
  decide

end WkcBrowser.Network
