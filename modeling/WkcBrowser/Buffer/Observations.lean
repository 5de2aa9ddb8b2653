import WkcBrowser.Buffer.Appending

/-! Any number of shared buffers, copied from one another, refine as many byte vectors. -/

namespace WkcBrowser.Buffer

open Wtf Lib Lib.Chunks

/-- The buffers, and the bytes that each is to stand for. -/
structure Buffers where
  buffers : List SharedBuffer := []
  contents : List (List Byte) := []

def step (s : Buffers) (operation : Operation) : Buffers :=
  ⟨perform s.buffers operation, describe s.contents operation⟩

/-- Every buffer is observed to hold its bytes after the operation. -/
def ShowsAll (s : Buffers) (operation : Operation) : Prop :=
  List.Forall₂ Shows (step s operation).buffers (step s operation).contents

def RepresentsAll (s : Buffers) : Prop :=
  List.Forall₂ (fun b bytes => ∃ free, Represents b bytes free) s.buffers s.contents

theorem shows_of_represents (b : SharedBuffer) (bytes : List Byte)
    (represents : ∃ free, Represents b bytes free) : Shows b bytes := by
  obtain ⟨free, represents⟩ := represents
  exact represents.shows

theorem RepresentsAll.shows {s : Buffers} (all : RepresentsAll s) :
    List.Forall₂ Shows s.buffers s.contents :=
  List.Forall₂.imp shows_of_represents all

/-- The buffer at an index, with its bytes. -/
theorem RepresentsAll.get {s : Buffers} (all : RepresentsAll s) (index : Nat) :
    (s.buffers[index]? = none ∧ s.contents[index]? = none) ∨
      ∃ b bytes free, s.buffers[index]? = some b ∧ s.contents[index]? = some bytes ∧
        Represents b bytes free := by
  have lengths := all.length_eq
  by_cases inside : index < s.buffers.length
  · have left := List.getElem?_eq_getElem inside
    have right := List.getElem?_eq_getElem (lengths ▸ inside)
    obtain ⟨free, represents⟩ := forall₂_getElem? all left right
    exact .inr ⟨_, _, free, left, right, represents⟩
  · have left := List.getElem?_eq_none (Nat.not_lt.mp inside)
    have right := List.getElem?_eq_none (lengths ▸ Nat.not_lt.mp inside)
    exact .inl ⟨left, right⟩

/-- One buffer and its bytes are changed. -/
theorem RepresentsAll.modify {s : Buffers} (all : RepresentsAll s) (index : Nat)
    (f : SharedBuffer → SharedBuffer) (g : List Byte → List Byte) (condition : SharedBuffer → Prop)
    (shows : ∀ b bytes free, Represents b bytes free → (Shows (f b) (g bytes) ↔ condition b)) :
    List.Forall₂ Shows (s.buffers.modify index f) (s.contents.modify index g) ↔
      ∀ b ∈ s.buffers[index]?, condition b := by
  rw [forall₂_modify_iff all shows_of_represents]
  rcases all.get index with ⟨none_left, -⟩ | ⟨b, bytes, free, left, right, represents⟩
  · simp [none_left]
  · have here := shows b bytes free represents
    simp only [left, right, Option.some.injEq, Option.mem_def]
    constructor
    · rintro shown _ rfl
      exact here.mp (shown b bytes rfl rfl)
    · rintro good _ _ rfl rfl
      exact here.mpr (good b rfl)

theorem RepresentsAll.modified {s : Buffers} (all : RepresentsAll s) (index : Nat)
    (f : SharedBuffer → SharedBuffer) (g : List Byte → List Byte)
    (kept : ∀ b bytes free, s.buffers[index]? = some b → Represents b bytes free →
      ∃ free', Represents (f b) (g bytes) free') :
    RepresentsAll ⟨s.buffers.modify index f, s.contents.modify index g⟩ := by
  apply (forall₂_modify_iff all (fun _ _ represents => represents) index f g).mpr
  intro b bytes left right
  obtain ⟨free, represents⟩ := forall₂_getElem? all left right
  exact kept b bytes free left represents

/-- A buffer is added, or none. -/
theorem RepresentsAll.add {s : Buffers} (all : RepresentsAll s) {b : SharedBuffer}
    {bytes : List Byte} {free : Nat} (represents : Represents b bytes free) :
    RepresentsAll ⟨s.buffers ++ [b], s.contents ++ [bytes]⟩ :=
  List.rel_append all (.cons ⟨free, represents⟩ .nil)

theorem RepresentsAll.copy_shows_iff {s : Buffers} (all : RepresentsAll s) (index : Nat) :
    ShowsAll s (.copy index) ↔ ∀ b ∈ s.buffers[index]?, b.SegmentsFull := by
  simp only [ShowsAll, step, perform, describe]
  rcases all.get index with ⟨noBuffer, noBytes⟩ | ⟨b, bytes, free, left, right, represents⟩
  · simpa [noBuffer, noBytes] using all.shows
  · simp only [left, right, Option.map_some, Option.toList_some, Option.mem_def,
      Option.some.injEq, forall_eq']
    rw [← represents.copy_shows_iff]
    constructor
    · intro shows
      have last := List.forall₂_drop s.buffers.length shows
      rw [List.drop_left, List.drop_left' all.length_eq.symm] at last
      cases last with
      | cons shown _ => exact shown
    · intro shows
      exact List.rel_append all.shows (.cons shows .nil)

theorem RepresentsAll.merge {s : Buffers} (all : RepresentsAll s) (index : Nat) :
    RepresentsAll ⟨s.buffers.modify index SharedBuffer.buffer, s.contents⟩ := by
  have merged := all.modified index SharedBuffer.buffer id fun _ _ _ _ represents =>
    represents.merge
  rwa [List.modify_id] at merged

theorem RepresentsAll.clear {s : Buffers} (all : RepresentsAll s) (index : Nat) :
    RepresentsAll ⟨s.buffers.modify index (fun _ => {}), s.contents.modify index (fun _ => [])⟩ :=
  all.modified index _ _ fun _ _ _ _ _ => ⟨0, represents_empty⟩

/-- When every buffer is observed to hold its bytes after an operation. -/
theorem RepresentsAll.shows_iff {s : Buffers} (all : RepresentsAll s) (operation : Operation) :
    ShowsAll s operation ↔ Fits s.buffers operation := by
  cases operation with
  | create => exact iff_true_intro (all.add represents_empty).shows
  | append index data =>
    exact all.modify index _ _ _ fun b bytes free represents => represents.append_shows_iff data
  | buffer index => exact iff_true_intro (all.merge index).shows
  | data index => exact iff_true_intro (all.merge index).shows
  | getSomeData index position => exact iff_true_intro all.shows
  | copy index => exact all.copy_shows_iff index
  | clear index => exact iff_true_intro (all.clear index).shows

/-- What fits keeps every buffer a byte vector. -/
theorem RepresentsAll.step {s : Buffers} (all : RepresentsAll s) (operation : Operation)
    (fits : Fits s.buffers operation) : RepresentsAll (step s operation) := by
  cases operation with
  | create => exact all.add represents_empty
  | append index data =>
    apply all.modified index
    intro b bytes free found represents
    obtain ⟨range, last⟩ := fits b found
    exact represents.append data (represents.size ▸ range) last
  | buffer index => exact all.merge index
  | data index => exact all.merge index
  | getSomeData index position => exact all
  | copy index =>
    simp only [Buffer.step, perform, describe]
    rcases all.get index with ⟨noBuffer, noBytes⟩ | ⟨b, bytes, free, left, right, represents⟩
    · simpa [noBuffer, noBytes] using all
    · rw [left, right]
      exact all.add (represents.copy (fits b left))
  | clear index => exact all.clear index

/-- In a run from no buffers every buffer is observed to hold its bytes after every operation
exactly when every operation fits. -/
theorem shows_all_iff (operations : List Operation) :
    Along step ShowsAll {} operations ↔
      Along step (fun s operation => Fits s.buffers operation) {} operations := by
  have admitted : Along step (fun _ _ => True) {} operations :=
    along_of_forall (fun _ _ => trivial) _ operations
  apply along_iff RepresentsAll _ _ {} operations .nil admitted
  · exact fun s operation all _ => all.shows_iff operation
  · exact fun s operation all _ shows => all.step operation ((all.shows_iff operation).mp shows)

/-- A buffer of 5000 bytes is copied. -/
theorem not_shows_all_partialSegment :
    ¬∀ operations : List Operation, Along step ShowsAll {} operations := by
  intro all
  let data : List Byte := List.replicate 5000 0
  have length : data.length = 5000 := List.length_replicate
  obtain ⟨-, -, copied, -⟩ := all [.create, .append 0 data, .copy 0]
  have appended := represents_empty.append_large data (by simp [length])
    (by simp [length, segmentSize])
  obtain ⟨free, represents⟩ := represents_empty.append data (by simp [length])
    (fun _ last => last.1 rfl)
  have one : RepresentsAll ⟨[SharedBuffer.append {} data], [[] ++ data]⟩ :=
    .cons ⟨free, represents⟩ .nil
  have full := (one.copy_shows_iff 0).mp copied _ rfl
  rw [SharedBuffer.SegmentsFull, represents.size, appended] at full
  simp only [List.nil_append, length, List.length_nil, segmentSize] at full
  omega

end WkcBrowser.Buffer
