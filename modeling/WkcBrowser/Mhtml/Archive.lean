import WkcBrowser.Wtf.StringImpl

/-! The saved page: `ArchiveResource`, the tree of `MHTMLWebArchive`, and the functions that lay out
the message header, the part headers and the boundaries of the MHTML file. -/

namespace WkcBrowser.Mhtml
open Wtf

/-- The fields the serializer and the parser read. `url` is `url().string()` and `data` the bytes
of the `SharedBuffer`. -/
structure ArchiveResource where
  url : Text
  mimeType : Text
  textEncoding : Text
  data : List Byte
deriving DecidableEq, Repr

/-- `Archive` with its main resource, subresources and subframe archives. -/
inductive MHTMLWebArchive where
  | mk (mainResource : ArchiveResource) (subresources : List ArchiveResource)
      (subframeArchives : List MHTMLWebArchive)

def MHTMLWebArchive.mainResource : MHTMLWebArchive → ArchiveResource
  | .mk main _ _ => main

mutual

/-- Every resource of the tree, in the order in which the walks visit them. -/
def MHTMLWebArchive.resources : MHTMLWebArchive → List ArchiveResource
  | .mk main subresources subframes => main :: (subresources ++ frameResources subframes)

def frameResources : List MHTMLWebArchive → List ArchiveResource
  | [] => []
  | archive :: rest => archive.resources ++ frameResources rest

end

/-- `PAGESAVE_BOUNDARY_STR` -/
def boundaryString : List Byte := ascii "--=WKC-PageSave-Boundary"

/-- `PAGESAVE_BOUNDARY_LEN` -/
def boundaryLength : Nat := 24

theorem boundaryString_length : boundaryString.length = boundaryLength := by decide

def makeMessageHeader (type : Text) (multipart : Bool) : List Byte :=
  ascii "Mime-Version: 1.0\r\n" ++
  (if multipart then
    ascii "Content-Type: multipart/related; \r\n" ++
    ascii "\tboundary=\"" ++
    boundaryString ++
    (if !type.isEmpty then
      ascii "\";\r\n" ++
      ascii "\ttype=\"" ++
      narrow type
    else []) ++
    ascii "\"\r\n\r\n" ++
    ascii "This is a multi-part message in MIME format.\r\n"
  else [])

/-- `makeMessageHeader` called without a result vector. -/
def messageHeaderLength (type : Text) (multipart : Bool) : Nat :=
  if multipart then
    boundaryLength + 116 + (if !type.isEmpty then type.length + 11 else 0)
  else 19

/-- Returns nothing for a resource without URL, which the callers take as an error. -/
def makePartHeader (resource : ArchiveResource) : List Byte :=
  if resource.url.isEmpty then [] else
  (if !resource.mimeType.isEmpty then
    ascii "Content-Type: " ++
    narrow resource.mimeType ++
    (if !resource.textEncoding.isEmpty then
      ascii ";\r\n" ++
      ascii "\tcharset=\"" ++
      narrow resource.textEncoding ++
      ascii "\""
    else []) ++
    ascii "\r\n"
  else []) ++
  ascii "Content-Location: " ++
  narrow resource.url ++
  ascii "\r\n" ++
  ascii "\r\n"

/-- `makePartHeader` called without a result vector. -/
def partHeaderLength (resource : ArchiveResource) : Nat :=
  if resource.url.isEmpty then 0 else
  (if !resource.mimeType.isEmpty then
    resource.mimeType.length + 16 +
    (if !resource.textEncoding.isEmpty then resource.textEncoding.length + 14 else 0)
  else 0) +
  (resource.url.length + 2) + 18 + 2

def makeBoundary (last : Bool) : List Byte :=
  ascii "\r\n--" ++
  boundaryString ++
  (if last then ascii "--" else []) ++
  ascii "\r\n"

/-- `makeBoundary` called without a result vector. -/
def boundaryLineLength (last : Bool) : Nat :=
  if last then boundaryLength + 8 else boundaryLength + 6

theorem makeMessageHeader_length (type : Text) (multipart : Bool) :
    (makeMessageHeader type multipart).length = messageHeaderLength type multipart := by
  have lengths : (ascii "Mime-Version: 1.0\r\n").length = 19 ∧
      (ascii "Content-Type: multipart/related; \r\n").length = 35 ∧
      (ascii "\tboundary=\"").length = 11 ∧ (ascii "\";\r\n").length = 4 ∧
      (ascii "\ttype=\"").length = 7 ∧ (ascii "\"\r\n\r\n").length = 5 ∧
      (ascii "This is a multi-part message in MIME format.\r\n").length = 46 := by decide
  unfold makeMessageHeader messageHeaderLength
  cases multipart <;> cases type <;>
    simp [boundaryString_length, lengths, boundaryLength]
  omega

theorem makePartHeader_length (resource : ArchiveResource) :
    (makePartHeader resource).length = partHeaderLength resource := by
  have lengths : (ascii "Content-Type: ").length = 14 ∧ (ascii ";\r\n").length = 3 ∧
      (ascii "\tcharset=\"").length = 10 ∧ (ascii "\"").length = 1 ∧
      (ascii "\r\n").length = 2 ∧ (ascii "Content-Location: ").length = 18 := by decide
  unfold makePartHeader partHeaderLength
  split
  · rfl
  · split <;> [split; skip] <;> simp [lengths] <;> omega

theorem makeBoundary_length (last : Bool) :
    (makeBoundary last).length = boundaryLineLength last := by
  cases last <;> decide

theorem makePartHeader_eq_nil (resource : ArchiveResource) :
    makePartHeader resource = [] ↔ resource.url = [] := by
  rw [← List.length_eq_zero_iff, makePartHeader_length]
  unfold partHeaderLength
  split <;> rename_i urlEmpty
  · simpa using urlEmpty
  · simp only [List.isEmpty_iff] at urlEmpty
    simp [urlEmpty]

end WkcBrowser.Mhtml
