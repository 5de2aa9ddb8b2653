import WkcBrowser.Mhtml.ParsePart

/-! What holds of every run of the reader, on whatever bytes: no charset it hands on contains
`boundary=`, and the first resource it adds is the main resource of the archive. -/

namespace WkcBrowser.Mhtml
open Wtf Lib

section
variable {parsedURL : Text → Text}

/-- What every turn keeps holds of the state the reader returns. -/
theorem parsed_invariant (holds : ParseState → Prop)
    (turn : ∀ s s', holds s → parseTurn parsedURL s = .again s' → holds s') {data : List Byte}
    (start : holds { rest := data }) {final : ParseState}
    (found : parseRawDataRepresentation parsedURL data = some final) : holds final := by
  obtain ⟨verdict, run⟩ := parseRawDataRepresentation_total parsedURL data
  have post : ∀ s, verdict = some s → holds s := by
    refine Loop.run_invariant holds (fun verdict => ∀ s, verdict = some s → holds s) turn
      (fun s result kept ends t same => ?_) start run
    subst same
    unfold parseTurn at ends
    cases status : s.status with
    | parseHeader =>
      simp only [status] at ends
      split at ends
      · simp at ends
      · split at ends
        · split at ends <;> simp at ends
        · simp at ends
    | readContent =>
      simp only [status] at ends
      split at ends
      · simp at ends
      · split at ends <;> simp at ends
    | addResource =>
      simp only [status] at ends
      split at ends
      · simp at ends
      · split at ends <;> simp at ends
    | parseEnd =>
      simp only [status] at ends
      obtain rfl := Option.some.inj (Loop.Turn.done.inj ends)
      exact kept
  rw [parseRawDataRepresentation, run] at found
  exact post final found

/-- Nothing the reader takes for a charset contains `boundary=`. -/
def CharsetsApart (s : ParseState) : Prop :=
  (findIgnoringCase (widen (ascii "boundary=")) s.charset).isSome = false ∧
    ∀ resource ∈ s.added, KeepsCharset resource

theorem getQuotationString_within {sValue inner : Text}
    (quoted : getQuotationString sValue = some inner) : inner <:+: sValue := by
  unfold getQuotationString at quoted
  split at quoted
  · exact absurd quoted (by simp)
  · rename_i c rest skip
    split at quoted
    · obtain rfl := Option.some.inj quoted
      have tail : rest <:+ sValue :=
        (List.suffix_cons c rest).trans (skip ▸ List.dropWhile_suffix _)
      exact (List.takeWhile_prefix _).isInfix.trans tail.isInfix
    · exact absurd quoted (by simp)

theorem CharsetsApart.getHeaderInfo {s : ParseState} (apart : CharsetsApart s)
    (sName sValue : Text) : CharsetsApart (getHeaderInfo sName sValue s) := by
  unfold Mhtml.getHeaderInfo
  by_cases named : (!sName.isEmpty) = true
  · rw [if_pos named]
    split_ifs <;> exact apart
  · rw [if_neg named]
    by_cases boundary : (findIgnoringCase (widen (ascii "boundary=")) sValue).isSome = true
    · rw [if_pos boundary]
      split_ifs <;> exact apart
    · rw [if_neg boundary]
      split
      · refine ⟨?_, apart.2⟩
        dsimp only
        cases quoted : getQuotationString sValue with
        | none => decide
        | some inner =>
          rw [findIgnoringCase_isSome] at boundary
          rw [Option.getD_some, ← Bool.not_eq_true, findIgnoringCase_isSome]
          intro occurs
          exact boundary (occurs.trans ((getQuotationString_within quoted).map _))
      · exact apart

theorem CharsetsApart.finishResource {s : ParseState} (apart : CharsetsApart s) :
    CharsetsApart (finishResource parsedURL s) := by
  refine ⟨by rfl, ?_⟩
  unfold Mhtml.finishResource
  dsimp only
  split
  · intro resource member
    unfold addRawData at member
    dsimp only at member
    rcases List.mem_append.mp member with earlier | now
    · split_ifs at earlier <;> exact apart.2 resource earlier
    · rw [List.mem_singleton.mp now]
      unfold KeepsCharset
      split_ifs <;> exact apart.1
  · exact apart.2

theorem CharsetsApart.turn {s s' : ParseState} (apart : CharsetsApart s)
    (next : parseTurn parsedURL s = .again s') : CharsetsApart s' := by
  unfold parseTurn at next
  cases status : s.status with
  | parseHeader =>
    simp only [status] at next
    split at next
    · exact absurd next (by simp)
    · split at next
      · split at next
        · exact absurd next (by simp)
        · obtain rfl := Loop.Turn.again.inj next
          exact apart
      · obtain rfl := Loop.Turn.again.inj next
        unfold readHeaderField
        dsimp only
        split <;> exact CharsetsApart.getHeaderInfo (by exact apart) _ _
  | readContent =>
    simp only [status] at next
    split at next
    · obtain rfl := Loop.Turn.again.inj next
      exact apart
    · rw [appendLine_eq] at next
      split at next <;> obtain rfl := Loop.Turn.again.inj next <;> exact apart
  | addResource =>
    simp only [status] at next
    split at next
    · obtain rfl := Loop.Turn.again.inj next
      exact apart.finishResource
    · split at next
      · exact absurd next (by simp)
      · obtain rfl := Loop.Turn.again.inj next
        exact apart.finishResource
  | parseEnd =>
    simp only [status] at next
    exact absurd next (by simp)

/-- Whatever the reader is given, it never hands on a charset that contains `boundary=`. -/
theorem keepsCharset_of_parsed {data : List Byte} {final : ParseState}
    (found : parseRawDataRepresentation parsedURL data = some final) :
    ∀ resource ∈ final.added, KeepsCharset resource :=
  (parsed_invariant CharsetsApart (fun _ _ apart next => apart.turn next) ⟨by rfl, by simp⟩ found).2

/-- The type of the main resource is the type of the first resource added. -/
def MainFirst (s : ParseState) : Prop :=
  s.mainResourceType = s.added.head?.map (·.mimeType)

theorem MainFirst.finishResource {s : ParseState} (main : MainFirst s) :
    MainFirst (finishResource parsedURL s) := by
  unfold Mhtml.finishResource
  dsimp only
  split
  · unfold addRawData MainFirst at *
    dsimp only
    cases added : s.added with
    | nil =>
      rw [added] at main
      have unknown : s.mainResourceType.isNone = true := by rw [main]; rfl
      rw [if_pos unknown]
      split <;> simp
    | cons first rest =>
      rw [added] at main
      have known : ¬ s.mainResourceType.isNone = true := by rw [main]; simp
      rw [if_neg known, added, main]
      rfl
  · exact main

theorem readHeaderField_added (sName sValue : Text) (s : ParseState) :
    (readHeaderField sName sValue s).added = s.added ∧
      (readHeaderField sName sValue s).mainResourceType = s.mainResourceType := by
  unfold readHeaderField getHeaderInfo
  split_ifs <;> exact ⟨rfl, rfl⟩

theorem MainFirst.turn {s s' : ParseState} (main : MainFirst s)
    (next : parseTurn parsedURL s = .again s') : MainFirst s' := by
  unfold parseTurn at next
  cases status : s.status with
  | parseHeader =>
    simp only [status] at next
    split at next
    · exact absurd next (by simp)
    · split at next
      · split at next
        · exact absurd next (by simp)
        · obtain rfl := Loop.Turn.again.inj next
          exact main
      · obtain rfl := Loop.Turn.again.inj next
        unfold MainFirst
        rw [(readHeaderField_added _ _ _).1, (readHeaderField_added _ _ _).2]
        exact main
  | readContent =>
    simp only [status] at next
    split at next
    · obtain rfl := Loop.Turn.again.inj next
      exact main
    · rw [appendLine_eq] at next
      split at next <;> obtain rfl := Loop.Turn.again.inj next <;> exact main
  | addResource =>
    simp only [status] at next
    split at next
    · obtain rfl := Loop.Turn.again.inj next
      exact main.finishResource
    · split at next
      · exact absurd next (by simp)
      · obtain rfl := Loop.Turn.again.inj next
        exact main.finishResource
  | parseEnd =>
    simp only [status] at next
    exact absurd next (by simp)

/-- A resource that goes to an archive of its own once the main resource is there. -/
def isFrame (resource : ArchiveResource) : Bool :=
  decide (resource.mimeType = widen (ascii "text/html") ∨
    resource.mimeType = widen (ascii "application/xhtml+xml"))

theorem foldl_addMimeResource (mainResourceType : Option Text) (resources : List ArchiveResource)
    {archive : ParsedArchive} (main : archive.mainResource.isSome = true) :
    resources.foldl (addMimeResource mainResourceType) archive =
      { archive with
        subresources := archive.subresources ++ resources.filter (!isFrame ·)
        subframeArchives := archive.subframeArchives ++ resources.filter isFrame } := by
  have there : archive.mainResource.isNone = false := by
    cases known : archive.mainResource with
    | none => simp [known] at main
    | some resource => rfl
  induction resources generalizing archive with
  | nil => simp
  | cons resource rest ih =>
    rw [List.foldl_cons, addMimeResource, there]
    by_cases frame : resource.mimeType = widen (ascii "text/html") ∨
        resource.mimeType = widen (ascii "application/xhtml+xml")
    · have isFrame_ : isFrame resource = true := decide_eq_true frame
      rw [Bool.false_and, if_neg (by simp), if_pos frame, ih (by exact main) (by exact there)]
      simp [isFrame_]
    · have notFrame : isFrame resource = false := decide_eq_false frame
      rw [Bool.false_and, if_neg (by simp), if_neg frame, ih (by exact main) (by exact there)]
      simp [notFrame]

/-- In every archive read, the first resource added is the main one, and the others are kept in
their order, those that are pages as frames. -/
theorem archive_of_parsed (parsedURL : Text → Text) (data : List Byte) :
    (parseRawDataRepresentation parsedURL data).map ParseState.archive =
      (parseRawDataRepresentation parsedURL data).map fun final =>
        { mainResource := final.added.head?
          subresources := final.added.tail.filter (!isFrame ·)
          subframeArchives := final.added.tail.filter isFrame } := by
  refine Option.map_congr fun final found => ?_
  have main : MainFirst final :=
    parsed_invariant MainFirst (fun _ _ main next => main.turn next) rfl found
  unfold ParseState.archive
  cases added : final.added with
  | nil => rfl
  | cons first rest =>
    unfold MainFirst at main
    rw [added] at main
    rw [List.foldl_cons, addMimeResource, main]
    simp only [List.head?_cons, Option.map_some, Option.isNone_none, Bool.true_and, decide_true,
      if_true]
    rw [foldl_addMimeResource _ _ rfl]
    rfl

end

end WkcBrowser.Mhtml
