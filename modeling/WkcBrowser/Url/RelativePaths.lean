import WkcBrowser.Url.BufferBounds
import WkcBrowser.Url.Canonical
import WkcBrowser.Url.PathSegments
import WkcBrowser.Url.SetterEffects

/-! A reference with a relative path, and the text of its base up to the last slash with the reference
behind it. -/

namespace WkcBrowser.Url

open Lib Wtf

/-! URLs that differ in their paths. -/

section
variable {parts : Parts} {x y : List Byte}

end

/-! The text before the path of a URL, with another path behind it. -/

namespace Parts

variable (parts : Parts)

/-- The authority as it stands in the canonical text. -/
def written : Authority :=
  { parts.authority with
    host :=
      if parts.isFile && parts.hostIsLocalHost && !parts.haveNonHostAuthorityPart then []
      else parts.authority.host }

variable {parts}

/-- The authority of a canonical text with its slashes. -/
def slashes (parts : Parts) : List Byte :=
  if parts.hasAuthority then 0x2f :: 0x2f :: parts.written.text else []

end Parts

section
variable {url : List Byte} {parts : Parts}

end

/-! The bytes before and in the path of a canonical text. -/

section
variable {url : List Byte} {parts : Parts}

end

/-! The directory of a base and a reference behind it. -/

/-- A text that a slash begins and ends. -/
structure Directory (directory : List Byte) : Prop where
  first : directory.head? = some 0x2f
  last : directory.getLast? = some 0x2f

section
variable {directory : List Byte}

/-- The segments of a directory are closed. -/
theorem Directory.splitOn (is : Directory directory) : ∃ segments : List Segment,
    ∀ reference, (directory ++ reference).tail.splitOn 0x2f = segments ++ reference.splitOn 0x2f := by
  obtain ⟨before, rfl⟩ := List.getLast?_eq_some_iff.mp is.last
  cases before with
  | nil => exact ⟨[], fun _ => rfl⟩
  | cons slash before =>
    refine ⟨before.splitOn 0x2f, fun reference => ?_⟩
    rw [List.append_assoc]
    show (before ++ (0x2f : Byte) :: reference).splitOn 0x2f = _
    rw [List.splitOn_append_cons_self]

end

/-- The path of a URL up to its last slash. -/
def KURL.directory (url : KURL) : List Byte :=
  ((narrow url.string).take url.pathAfterLastSlash).drop url.portEnd

section
variable {url : List Byte} {parts : Parts}

end

/-! The segments of a path without marks. -/

/-- What is left of segments without marks. -/
structure Left (stack : List Segment) (segment : Segment) : Prop where
  copied : Copied stack
  noDots : isDots segment = false
  unmarked : ∀ piece ∈ segment :: stack, Unmarked piece

theorem Left.plain {stack : List Segment} {segment : Segment} (left : Left stack segment) :
    ∀ c ∈ pathOf stack segment, c ≠ 0 ∧ c ≠ 0x3f ∧ c ≠ 0x23 := by
  intro c member
  have piece : ∀ piece ∈ segment :: stack, c ∈ piece → c ≠ 0 ∧ c ≠ 0x3f ∧ c ≠ 0x23 := by
    intro piece listed inside
    have unmarked := left.unmarked piece listed c inside
    refine ⟨?_, (endChar_facts unmarked).2⟩
    rintro rfl
    revert unmarked
    decide
  rw [pathOf_intercalate, List.mem_cons] at member
  cases member with
  | inl slash =>
    rw [slash]
    decide
  | inr inside =>
    cases Splitting.mem_of_mem_intercalate inside with
    | inl slash =>
      rw [slash]
      decide
    | inr inside =>
      obtain ⟨found, listed, inside⟩ := inside
      refine piece found ?_ inside
      cases List.mem_append.mp listed with
      | inl closed => exact List.mem_cons_of_mem _ (List.mem_reverse.mp closed)
      | inr last => exact List.mem_singleton.mp last ▸ List.mem_cons_self

theorem Left.count {stack : List Segment} {segment : Segment} (left : Left stack segment) :
    (pathOf stack segment).count 0x2f = stack.length + 1 :=
  count_pathOf left.copied.plain (left.unmarked segment List.mem_cons_self).plain

/-- The query and the fragment of a reference. -/
def afterPath (str : List Byte) : List Byte := str.dropWhile fun c => c ≠ 0x3f && c ≠ 0x23

section
variable (characters : Characters) {base : KURL} {relative : Text} {encoding : QueryEncoding}

end

namespace KURL

end KURL

section
variable {url : List Byte} {parts : Parts}

end

section
variable {url : List Byte} {parts : Parts} {str : List Byte}

end

end WkcBrowser.Url
