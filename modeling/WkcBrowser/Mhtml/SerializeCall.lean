import WkcBrowser.Mhtml.SerializeWalk

/-! One call of `contentSerializeProgress`. The call writes the next stretch of the text that is
left, unless a content ends with the buffer: then the part of that content stays pending as a
whole. -/

namespace WkcBrowser.Mhtml
open Wtf

namespace Serializer

/-- The text behind the content of pending part `i`. -/
def behind (multipart : Bool) (P : List ArchiveResource) (i : Nat) : List Byte :=
  partsText multipart (P.drop (i + 1)) ++ closingText multipart

/-- The walk over `all` would find the pending parts first. -/
def Pending (all P : List ArchiveResource) (s : Serializer) : Prop :=
  s.status = .stateEnd ∨
    P <+: newResources s.uniqueSubresources all ∧ newResources s.uniqueSubresources all ≠ []

/-- What the walk of one call does with the pending parts. -/
inductive CallOutcome (P : List ArchiveResource) (s : Serializer) : Serializer → Prop
  | clean (i : Nat) (within : i ≤ P.length) (s' : Serializer) (moves : Moves P s (P.drop i) s')
      (holds : Holds (P.drop i) s') (pending : ∀ all, Pending all P s → Pending all (P.drop i) s')
      (started : s'.status ≠ .makeMessageHeader) (stops : s'.bufferLen = 0 ∨ s'.status = .stateEnd)
      (passed : ∀ j < i, (left P s).length < s.bufferLen + (behind s.multipart P j).length)
      (ahead : ∀ j, i ≤ j → j < P.length →
        s.bufferLen + (behind s.multipart P j).length < (left P s).length)
      (urls : ∀ part ∈ P.take i, part.url ≠ []) : CallOutcome P s s'
  | cut (i : Nat) (within : i < P.length) (s' : Serializer)
      (exact_ : s.bufferLen + (behind s.multipart P i).length = (left P s).length)
      (buffer : s'.buffer = s.buffer ++ (left P s).take s.bufferLen)
      (regains : (left P s).length < s.bufferLen + (left (P.drop i) s').length)
      (items : s'.items = s.items) (holds : Holds (P.drop i) s')
      (pending : ∀ all, Pending all P s → Pending all (P.drop i) s')
      (started : s'.status ≠ .makeMessageHeader) : CallOutcome P s s'
  | failed (part : ArchiveResource) (member : part ∈ P) (noUrl : part.url = []) (s' : Serializer)
      (error : s'.status = .stateError) : CallOutcome P s s'

theorem behind_length_le (multipart : Bool) (P : List ArchiveResource) (i : Nat) :
    (behind multipart P i).length ≤ (behind multipart P 0).length := by
  have split_ : P.drop 1 = (P.drop 1).take i ++ P.drop (i + 1) := by
    rw [Nat.add_comm i 1, ← List.drop_drop, List.take_append_drop]
  simp only [behind, Nat.zero_add, List.length_append]
  rw [split_, partsText, partsText, List.flatMap_append, List.length_append]
  omega

theorem left_cons (resource : ArchiveResource) (more : List ArchiveResource) (s : Serializer) :
    left (resource :: more) s = s.todo resource ++ behind s.multipart (resource :: more) 0 :=
  rfl

theorem going_of_ready {resource : ArchiveResource} {more : List ArchiveResource} {s : Serializer}
    (holds : Holds (resource :: more) s) (room : 0 < s.bufferLen) : s.halted = false := by
  have ready := holds.2.1
  cases status : s.status <;> simp [Ready, status] at ready <;> simp [halted, status] <;> omega

theorem Pending.same {all P : List ArchiveResource} {resource : ArchiveResource}
    {more : List ArchiveResource} {s s' : Serializer} (holds : Holds (resource :: more) s)
    (unique : s'.uniqueSubresources = s.uniqueSubresources) (shorter : P <+: resource :: more)
    (pending : Pending all (resource :: more) s) : Pending all P s' := by
  rcases pending with ended | ⟨found, some_⟩
  · exact absurd holds.2.1 (by simp [Ready, ended])
  · rw [Pending, unique]
    exact .inr ⟨shorter.trans found, some_⟩

/-- A part that is finished is marked as written, and the others are found next. -/
theorem Pending.next {all : List ArchiveResource} {resource : ArchiveResource}
    {more : List ArchiveResource} {s s' : Serializer} (holds : Holds (resource :: more) s)
    (unique : s'.uniqueSubresources = resource.url :: s.uniqueSubresources) (others : more ≠ [])
    (pending : Pending all (resource :: more) s) : Pending all more s' := by
  rcases pending with ended | ⟨found, -⟩
  · exact absurd holds.2.1 (by simp [Ready, ended])
  · obtain ⟨later, found⟩ := found
    have next : newResources (resource.url :: s.uniqueSubresources) all = more ++ later :=
      newResources_insert found.symm
    rw [Pending, unique, next]
    exact .inr ⟨List.prefix_append more later, by simp [others]⟩

/-- What the walk does after the first pending part is what it does from that part on. -/
theorem CallOutcome.after {resource : ArchiveResource} {more : List ArchiveResource}
    {s t s' : Serializer} (moves : Moves (resource :: more) s more t)
    (long : (s.todo resource).length < s.bufferLen)
    (pending : ∀ all, Pending all (resource :: more) s → Pending all more t)
    (hasUrl : resource.url ≠ []) (outcome : CallOutcome more t s') :
    CallOutcome (resource :: more) s s' := by
  obtain ⟨written, buffer, room, text, items⟩ := id moves
  have same := multipart_eq_of_items items
  have lengths := congrArg List.length text
  rw [List.length_append] at lengths
  have shift : ∀ j, behind s.multipart (resource :: more) (j + 1) = behind t.multipart more j :=
    fun j => by rw [same, behind, behind, List.drop_succ_cons]
  cases outcome with
  | clean i within _ moves' holds pending' started stops passed ahead urls =>
    refine .clean (i + 1) (by simpa using within) s' (moves.trans moves') holds
      (fun all found => pending' all (pending all found)) started stops (fun j below => ?_)
      (fun j from_ below => ?_) (fun part member => ?_)
    · cases j with
      | zero =>
        have first := congrArg List.length (left_cons resource more s)
        rw [List.length_append] at first
        omega
      | succ j =>
        have before := passed j (by simpa using below)
        rw [shift]
        omega
    · obtain ⟨j, rfl⟩ : ∃ k, j = k + 1 := ⟨j - 1, by omega⟩
      have later := ahead j (by omega) (by simpa using below)
      rw [shift]
      omega
    · rw [List.take_succ_cons] at member
      rcases List.mem_cons.mp member with rfl | later
      · exact hasUrl
      · exact urls part later
  | cut i within _ exact_ buffer' regains items' holds pending' started =>
    refine .cut (i + 1) (by simpa using within) s' ?_ ?_ ?_ (items'.trans items) holds
      (fun all found => pending' all (pending all found)) started
    · rw [shift]
      omega
    · rw [buffer', buffer, text, room, List.append_assoc, List.take_length_add_append]
    · rw [List.drop_succ_cons]
      omega
  | failed part member noUrl _ error =>
    exact .failed part (List.mem_cons_of_mem _ member) noUrl s' error

theorem serializeResources_outcome (P : List ArchiveResource) {s : Serializer}
    {resources : List ArchiveResource} (some_ : P ≠ []) (holds : Holds P s) (room : 0 < s.bufferLen)
    (found : P <+: newResources s.uniqueSubresources resources) :
    CallOutcome P s (serializeResources resources s) := by
  induction P generalizing s resources with
  | nil => exact absurd rfl some_
  | cons resource more ih =>
    obtain ⟨others, found⟩ := found
    have going := going_of_ready holds room
    obtain ⟨rest, restFound, run⟩ := serializeResources_skip going found.symm
    have new := serializeResourceIfNew_new found.symm
    have outcome := serializeResource_outcome holds room
    have keeps := serializeResource_keeps resource s
    have first := congrArg List.length (left_cons resource more s)
    rw [List.length_append] at first
    rw [run, new]
    generalize serializeResource resource s = result at outcome keeps
    obtain ⟨flag, s'⟩ := result
    simp only at outcome keeps
    cases outcome with
    | paused _ short moves holds' full =>
      have stopped : s'.halted = true := by simp [halted, full]
      simp only [Bool.false_eq_true, if_false, stopped, if_true]
      refine .clean 0 (Nat.zero_le _) s' moves holds'
        (fun all => Pending.same holds keeps.1 List.prefix_rfl) keeps.2 (.inl full)
        (by simp) (fun j _ _ => ?_) (by simp)
      have least := behind_length_le s.multipart (resource :: more) j
      omega
    | cut _ exact_ buffer again unchanged items holds' full =>
      have stopped : s'.halted = true := by simp [halted, full]
      simp only [Bool.false_eq_true, if_false, stopped, if_true]
      refine .cut 0 (by simp) s' (by omega) ?_ ?_ items holds'
        (fun all => Pending.same holds keeps.1 List.prefix_rfl) keeps.2
      · rw [buffer, left_cons, exact_, List.take_left]
      · have content := List.length_pos_of_ne_nil
          (partText_ne_nil s.multipart (holds.2.2 resource (by simp)))
        have whole := congrArg List.length (left_cons resource more s')
        rw [List.length_append, unchanged] at whole
        simp only [todo, again, unchanged] at whole
        rw [List.drop_zero]
        omega
    | finished _ long moves holds' several roomAfter hasUrl =>
      obtain ⟨next, later, rfl⟩ := List.exists_cons_of_ne_nil several
      have open_ := going_of_ready (s := { s' with
        uniqueSubresources := resource.url :: s'.uniqueSubresources }) holds' roomAfter
      simp only [if_true, open_, Bool.false_eq_true, if_false]
      refine CallOutcome.after (t := { s' with
        uniqueSubresources := resource.url :: s'.uniqueSubresources }) moves long
        (fun all => Pending.next holds (congrArg _ keeps.1) several) hasUrl
        (ih several holds' roomAfter ?_)
      rw [keeps.1, restFound]
      exact List.prefix_append _ others
    | closed _ long moves holds' last stopped hasUrl =>
      subst last
      simp only [Bool.false_eq_true, if_false, stopped, if_true]
      refine .clean 1 (by simp) s' moves holds'
        (fun all => Pending.same holds keeps.1 (List.nil_prefix)) keeps.2 ?_ (fun j below => ?_)
        (fun j from_ below => ?_) (by simpa using hasUrl)
      · have notError : s'.status ≠ .stateError := by
          rcases holds'.2 with ⟨status, -⟩ | ⟨status, -⟩ <;> simp [status]
        simpa [halted, notError] using stopped
      · obtain rfl : j = 0 := by simpa using below
        omega
      · simp only [List.length_singleton] at below
        omega
    | failed _ noUrl error =>
      have stopped : s'.halted = true := by simp [halted, error]
      simp only [Bool.false_eq_true, if_false, stopped, if_true]
      exact .failed resource (by simp) noUrl s' error

/-- Once all parts are written the walk goes on with the closing boundary. -/
theorem serializeResources_closing {s : Serializer} (resources : List ArchiveResource)
    (holds : Holds [] s) (room : 0 < s.bufferLen) (pending : Pending resources [] s) :
    CallOutcome [] s (serializeResources resources s) := by
  rcases holds.2 with ⟨status, open_⟩ | ⟨status, data⟩
  · have going : s.halted = false := by
      simp only [halted, status]
      simp
      omega
    obtain ⟨-, some_⟩ := pending.resolve_left (by simp [status])
    obtain ⟨resource, more, found⟩ := List.exists_cons_of_ne_nil some_
    obtain ⟨rest, -, run⟩ := serializeResources_skip going found
    have new := serializeResourceIfNew_new found
    obtain ⟨result, s', call, moves, holds', stopped, stays⟩ :=
      serializeResource_closing resource holds
    have keeps := serializeResource_keeps resource s
    rw [run, new]
    rw [call] at keeps ⊢
    cases result with
    | true => rw [stays rfl, going] at stopped; contradiction
    | false =>
      simp only [Bool.false_eq_true, if_false, stopped, if_true]
      refine .clean 0 (Nat.le_refl _) s' moves holds' (fun all => ?_) keeps.2 ?_ (by simp)
        (by simp) (by simp)
      · rintro (ended | ⟨-, some_⟩)
        · simp [status] at ended
        · rw [Pending, keeps.1]
          exact .inr ⟨List.nil_prefix, some_⟩
      · have notError : s'.status ≠ .stateError := by
          rcases holds'.2 with ⟨status, -⟩ | ⟨status, -⟩ <;> simp [status]
        simpa [halted, notError] using stopped
  · obtain ⟨unique, run⟩ : ∃ unique, serializeResources resources s =
        { s with uniqueSubresources := unique } := by
      cases resources with
      | nil => exact ⟨_, rfl⟩
      | cons resource rest =>
        obtain ⟨unique, once⟩ : ∃ unique, serializeResourceIfNew resource s =
            { s with uniqueSubresources := unique } := by
          have ended : serializeResource resource s = (true, s) := by
            simp only [serializeResource, serializeStages, stage, status]
          simp only [serializeResourceIfNew, ended]
          split
          · exact ⟨s.uniqueSubresources, rfl⟩
          · split
            · exact ⟨s.uniqueSubresources, rfl⟩
            · exact ⟨_, rfl⟩
        refine ⟨unique, ?_⟩
        rw [serializeResources, once, if_pos (by simp [halted, status])]
    rw [run]
    exact .clean 0 (Nat.le_refl _) _ (.silent rfl rfl rfl rfl) holds
      (fun all _ => .inl status) (by simp [status]) (.inr status) (by simp) (by simp) (by simp)

end Serializer
end WkcBrowser.Mhtml
