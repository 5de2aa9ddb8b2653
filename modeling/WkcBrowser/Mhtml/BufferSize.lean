import Mathlib.Algebra.GroupWithZero.Nat
import WkcBrowser.Mhtml.SerializeRun

/-! The size pass: `getOneItemSize`, `getItemsSize` and `getBufferSize`, and which resources it adds
up. Unlike the other two passes it remembers the URLs of empty resources, and it leaves out an
archive whose main URL it has seen. -/

namespace WkcBrowser.Mhtml
open Wtf Lib

/-- Returns nothing for `-1`. -/
def getOneItemSize (resource : ArchiveResource) (multipart : Bool) : Option Nat :=
  let size := if multipart then boundaryLineLength false else 0
  if partHeaderLength resource = 0 then none else
  some (size + partHeaderLength resource + resource.data.length)

/-- One turn of the loop of `getItemsSize` over the subresources, on the size so far and the set of
URLs. -/
def getResourceSize (multipart : Bool) (sized : Nat × List Text) (resource : ArchiveResource) :
    Option (Nat × List Text) :=
  if resource.url ∈ sized.2 then some sized
  else if resource.data.isEmpty then some (sized.1, resource.url :: sized.2)
  else (getOneItemSize resource multipart).map fun len =>
    (sized.1 + len, resource.url :: sized.2)

mutual

/-- On the size and the set of URLs so far; returns nothing for `-1`. -/
def getItemsSize : MHTMLWebArchive → Bool → Nat × List Text → Option (Nat × List Text)
  | .mk main subresources subframes, multipart, sized =>
    if main.url ∈ sized.2 then some sized else
    (getResourceSize multipart sized main).bind fun sized =>
    (subresources.foldlM (getResourceSize multipart) sized).bind fun sized =>
    getFramesSize subframes multipart sized

def getFramesSize : List MHTMLWebArchive → Bool → Nat × List Text → Option (Nat × List Text)
  | [], _, sized => some sized
  | archive :: rest, multipart, sized =>
    (getItemsSize archive multipart sized).bind fun sized => getFramesSize rest multipart sized

end

/-- What one resource adds to the list, and to the set of URLs. -/
def sizedResource (resource : ArchiveResource) (sized : List ArchiveResource × List Text) :
    List ArchiveResource × List Text :=
  if resource.url ∈ sized.2 then sized
  else (sized.1 ++ if resource.data.isEmpty then [] else [resource], resource.url :: sized.2)

mutual

def sizedArchive : MHTMLWebArchive → List ArchiveResource × List Text →
    List ArchiveResource × List Text
  | .mk main subresources subframes, sized =>
    if main.url ∈ sized.2 then sized else
    sizedFrames subframes
      (subresources.foldl (fun sized resource => sizedResource resource sized)
        (sizedResource main sized))

def sizedFrames : List MHTMLWebArchive → List ArchiveResource × List Text →
    List ArchiveResource × List Text
  | [], sized => sized
  | archive :: rest, sized => sizedFrames rest (sizedArchive archive sized)

end

def partsLength (multipart : Bool) (parts : List ArchiveResource) : Nat :=
  (parts.map fun part => (partText multipart part).length).sum

def AllLocated (parts : List ArchiveResource) : Prop := ∀ part ∈ parts, part.url ≠ []

instance (parts : List ArchiveResource) : Decidable (AllLocated parts) :=
  inferInstanceAs (Decidable (∀ part ∈ parts, _))

theorem partsLength_append (multipart : Bool) (front back : List ArchiveResource) :
    partsLength multipart (front ++ back) =
      partsLength multipart front + partsLength multipart back := by
  simp [partsLength]

theorem allLocated_append (front back : List ArchiveResource) :
    AllLocated (front ++ back) ↔ AllLocated front ∧ AllLocated back := by
  simp only [AllLocated, List.mem_append, or_imp, forall_and]

theorem getOneItemSize_eq (resource : ArchiveResource) (multipart : Bool) :
    getOneItemSize resource multipart =
      if resource.url = [] then none else some (partText multipart resource).length := by
  have header := makePartHeader_length resource
  have none_ := makePartHeader_eq_nil resource
  rw [← List.length_eq_zero_iff, header] at none_
  unfold getOneItemSize
  by_cases noUrl : resource.url = []
  · rw [if_pos noUrl, if_pos (none_.mpr noUrl)]
  · rw [if_neg noUrl, if_neg (fun zero => noUrl (none_.mp zero))]
    cases multipart <;> simp [partText, header, makeBoundary_length]
    omega

/-- The pass has added up the given parts, or met one without URL. -/
def Sized (multipart : Bool) (sized : List ArchiveResource × List Text)
    (result : Option (Nat × List Text)) : Prop :=
  result = if AllLocated sized.1 then some (partsLength multipart sized.1, sized.2) else none

theorem sizedResource_grows (resource : ArchiveResource)
    (sized : List ArchiveResource × List Text) : sized.1 <+: (sizedResource resource sized).1 := by
  unfold sizedResource
  split
  · exact List.prefix_rfl
  · exact List.prefix_append _ _

theorem AllLocated.of_leading {front parts : List ArchiveResource} (begins : front <+: parts)
    (located : AllLocated parts) : AllLocated front :=
  fun part member => located part (begins.subset member)

theorem getResourceSize_sized {multipart : Bool} {sized : List ArchiveResource × List Text}
    (located : AllLocated sized.1) (resource : ArchiveResource) :
    Sized multipart (sizedResource resource sized)
      (getResourceSize multipart (partsLength multipart sized.1, sized.2) resource) := by
  unfold Sized getResourceSize sizedResource
  dsimp only
  by_cases seen : resource.url ∈ sized.2
  · rw [if_pos seen, if_pos seen, if_pos located]
  · rw [if_neg seen, if_neg seen]
    by_cases nothing : resource.data.isEmpty = true
    · rw [if_pos nothing, if_pos nothing, List.append_nil, if_pos located]
    · rw [if_neg nothing, if_neg nothing, getOneItemSize_eq]
      dsimp only
      by_cases noUrl : resource.url = []
      · rw [if_pos noUrl, if_neg]
        · rfl
        · exact fun all => all resource (by simp) noUrl
      · have all : AllLocated (sized.1 ++ [resource]) :=
          (allLocated_append _ _).mpr ⟨located, by simpa [AllLocated] using noUrl⟩
        rw [if_neg noUrl, if_pos all, partsLength_append]
        simp [partsLength]

/-- Passes in a row: once a part has no URL the result stays `-1`. -/
theorem Sized.bind {multipart : Bool} {first second : List ArchiveResource × List Text}
    {result : Option (Nat × List Text)} {next : Nat × List Text → Option (Nat × List Text)}
    (sized : Sized multipart first result) (grows : first.1 <+: second.1)
    (continues : AllLocated first.1 →
      Sized multipart second (next (partsLength multipart first.1, first.2))) :
    Sized multipart second (result.bind next) := by
  unfold Sized at sized
  by_cases located : AllLocated first.1
  · rw [if_pos located] at sized
    rw [sized]
    exact continues located
  · rw [if_neg located] at sized
    rw [sized, Sized, if_neg (fun all => located (all.of_leading grows))]
    rfl

theorem foldl_sizedResource_grows (resources : List ArchiveResource)
    (sized : List ArchiveResource × List Text) :
    sized.1 <+: (resources.foldl (fun sized resource => sizedResource resource sized) sized).1 := by
  induction resources generalizing sized with
  | nil => exact List.prefix_rfl
  | cons resource rest ih => exact (sizedResource_grows resource sized).trans (ih _)

theorem foldlM_getResourceSize_sized {multipart : Bool} (resources : List ArchiveResource)
    {sized : List ArchiveResource × List Text} (located : AllLocated sized.1) :
    Sized multipart (resources.foldl (fun sized resource => sizedResource resource sized) sized)
      (resources.foldlM (getResourceSize multipart) (partsLength multipart sized.1, sized.2)) := by
  induction resources generalizing sized with
  | nil =>
    rw [List.foldl_nil, List.foldlM_nil, Sized, if_pos located]
    rfl
  | cons resource rest ih =>
    rw [List.foldl_cons, List.foldlM_cons]
    exact (getResourceSize_sized located resource).bind (foldl_sizedResource_grows _ _) ih

mutual

theorem sizedArchive_grows : ∀ (archive : MHTMLWebArchive)
    (sized : List ArchiveResource × List Text), sized.1 <+: (sizedArchive archive sized).1
  | .mk main subresources subframes, sized => by
    unfold sizedArchive
    split
    · exact List.prefix_rfl
    · exact (sizedResource_grows main sized).trans
        ((foldl_sizedResource_grows subresources _).trans (sizedFrames_grows subframes _))

theorem sizedFrames_grows : ∀ (archives : List MHTMLWebArchive)
    (sized : List ArchiveResource × List Text), sized.1 <+: (sizedFrames archives sized).1
  | [], _ => List.prefix_rfl
  | archive :: rest, sized =>
    (sizedArchive_grows archive sized).trans (sizedFrames_grows rest _)

end

mutual

theorem getItemsSize_sized {multipart : Bool} : ∀ (archive : MHTMLWebArchive)
    {sized : List ArchiveResource × List Text}, AllLocated sized.1 →
    Sized multipart (sizedArchive archive sized)
      (getItemsSize archive multipart (partsLength multipart sized.1, sized.2))
  | .mk main subresources subframes, sized, located => by
    unfold getItemsSize sizedArchive
    dsimp only
    by_cases seen : main.url ∈ sized.2
    · rw [if_pos seen, if_pos seen, Sized, if_pos located]
    · rw [if_neg seen, if_neg seen]
      refine (getResourceSize_sized located main).bind ?_ fun located => ?_
      · exact (foldl_sizedResource_grows _ _).trans (sizedFrames_grows _ _)
      · exact (foldlM_getResourceSize_sized subresources located).bind (sizedFrames_grows _ _)
          (getFramesSize_sized subframes)

theorem getFramesSize_sized {multipart : Bool} : ∀ (archives : List MHTMLWebArchive)
    {sized : List ArchiveResource × List Text}, AllLocated sized.1 →
    Sized multipart (sizedFrames archives sized)
      (getFramesSize archives multipart (partsLength multipart sized.1, sized.2))
  | [], sized, located => by
    rw [getFramesSize, sizedFrames, Sized, if_pos located]
  | archive :: rest, sized, located => by
    rw [getFramesSize, sizedFrames]
    exact (getItemsSize_sized archive located).bind (sizedFrames_grows _ _)
      (getFramesSize_sized rest)

end

end WkcBrowser.Mhtml
