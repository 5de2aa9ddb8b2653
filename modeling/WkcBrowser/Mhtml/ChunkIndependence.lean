import WkcBrowser.Mhtml.SerializeRun

/-! When the serialization does not depend on the buffers. It does not as long as no buffer ends
together with the content of a part. Where one does, the part is written a second time. -/

namespace WkcBrowser.Mhtml
open Wtf Lib Serializer

section
variable (archive : MHTMLWebArchive)

theorem contentEnd_add_behind (i : Nat) :
    contentEnd archive i + (behind (isMultipart archive) (writtenParts archive) i).length =
      (archiveText archive).length := by
  have parts := congrArg (fun P => (partsText (isMultipart archive) P).length)
    (List.take_append_drop (i + 1) (writtenParts archive))
  simp only [partsText, List.flatMap_append, List.length_append] at parts
  simp only [contentEnd, behind, archiveText, partsText, List.length_append]
  omega

theorem contentEnd_pos (i : Nat) : 0 < contentEnd archive i := by
  have header := makeMessageHeader_length archive.mainResource.mimeType (isMultipart archive)
  unfold messageHeaderLength at header
  rw [contentEnd, header]
  split <;> omega

/-- The state `contentSerializeStart` leaves when it succeeds. -/
def startState : Serializer := { items := (caculateItems archive (0, [])).1 }

theorem contentSerializeStart_true {isSupportedImageMIMEType : Text → Bool}
    (started : (contentSerializeStart isSupportedImageMIMEType archive).1 = true) :
    (contentSerializeStart isSupportedImageMIMEType archive).2 = startState archive ∧
      (caculateItems archive (0, [])).1 ≠ 0 := by
  unfold contentSerializeStart at started ⊢
  dsimp only at started ⊢
  split at started <;> rename_i some_
  · exact absurd started (by simp)
  · rw [if_neg some_]
    split at started <;> rename_i image
    · exact absurd started (by simp)
    · rw [if_neg image]
      exact ⟨rfl, some_⟩

theorem writtenParts_length :
    (writtenParts archive).length = (caculateItems archive (0, [])).1 := by
  rw [writtenParts, List.length_take]
  exact Nat.min_eq_left (caculateItems_le archive)

theorem writtenParts_start (some_ : (caculateItems archive (0, [])).1 ≠ 0) :
    ∃ more, writtenParts archive = archive.mainResource :: more := by
  obtain ⟨main, subresources, subframes⟩ := archive
  obtain ⟨items, counted⟩ := Nat.exists_eq_succ_of_ne_zero some_
  rw [writtenParts, newResources_of_items some_, counted]
  exact ⟨_, rfl⟩

theorem inRun_start (some_ : (caculateItems archive (0, [])).1 ≠ 0) :
    InRun archive (writtenParts archive) (startState archive) := by
  obtain ⟨more, parts⟩ := writtenParts_start archive some_
  have length := writtenParts_length archive
  have prefix_ : writtenParts archive <+: newResources [] archive.resources :=
    List.take_prefix _ _
  refine ⟨?_, .inr ⟨prefix_, ?_⟩, rfl, rfl⟩
  · rw [parts] at length prefix_ ⊢
    rw [List.length_cons] at length
    refine ⟨by rw [startState, ← length, Nat.add_comm], rfl, fun part member => ?_⟩
    exact newResources_data [] archive.resources part (prefix_.subset member)
  · intro none_
    rw [show (startState archive).uniqueSubresources = [] from rfl] at none_
    rw [none_, parts] at prefix_
    simp at prefix_

theorem left_start (some_ : (caculateItems archive (0, [])).1 ≠ 0) :
    (startState archive).left (writtenParts archive) = archiveText archive := by
  obtain ⟨more, parts⟩ := writtenParts_start archive some_
  have multi : (startState archive).multipart = isMultipart archive := rfl
  have status : (startState archive).status = .makeMessageHeader := rfl
  rw [archiveText, parts, left, partsText_cons, multi]
  simp only [todo, status, multi, List.append_assoc]

end

/-- A state in which as many bytes of the text as given are written, with nothing repeated, and the
first `done` parts are finished. -/
structure Reached (archive : MHTMLWebArchive) (written done : Nat) (s : Serializer) : Prop where
  run : InRun archive ((writtenParts archive).drop done) s
  text : s.left ((writtenParts archive).drop done) = (archiveText archive).drop written
  passed : ∀ i < done, contentEnd archive i < written

theorem reached_start {archive : MHTMLWebArchive} (some_ : (caculateItems archive (0, [])).1 ≠ 0) :
    Reached archive 0 0 (startState archive) :=
  ⟨inRun_start archive some_, by rw [List.drop_zero, left_start archive some_, List.drop_zero],
    by simp⟩

/-- A call either goes on with the text, past no content end, or ends with a content and then holds
more text than it should. -/
theorem Reached.step {archive : MHTMLWebArchive} {written done length : Nat} {s : Serializer}
    (reached : Reached archive written done s) (positive : 0 < length)
    (urls : ∀ part ∈ writtenParts archive, part.url ≠ []) :
    ((∃ done', Reached archive (written + length) done' (progress archive length s).2) ∧
      Drain.Clean (progress archive) (textLeft archive) length s ∧
      ∀ i < (writtenParts archive).length, written + length ≠ contentEnd archive i) ∨
    ((∃ i < (writtenParts archive).length, written + length = contentEnd archive i) ∧
      (textLeft archive s).length < (progress archive length s).1.length +
        (textLeft archive (progress archive length s).2).length) := by
  obtain ⟨run, text, passed⟩ := reached
  have remaining := congrArg List.length text
  rw [List.length_drop] at remaining
  have multi : s.multipart = isMultipart archive := congrArg (fun n => decide (1 < n)) run.counted
  have behindHere : ∀ j, contentEnd archive (done + j) +
      (behind s.multipart ((writtenParts archive).drop done) j).length =
      (archiveText archive).length := by
    intro j
    rw [← contentEnd_add_behind archive (done + j), multi, behind, behind, List.drop_drop,
      Nat.add_assoc]
  have outcome := progress_outcome run length positive
  cases outcome with
  | clean i within run' bytes text' ends passed' ahead urls' =>
    rw [List.drop_drop] at run' text'
    have soFar : ∀ j < done + i, contentEnd archive j < written + length := by
      intro j below
      rcases Nat.lt_or_ge j done with early | late
      · exact Nat.lt_add_right length (passed j early)
      · obtain ⟨j, rfl⟩ := Nat.exists_eq_add_of_le late
        have behind_ := passed' j (by omega)
        have sum := behindHere j
        omega
    refine .inl ⟨⟨done + i, run', ?_, soFar⟩, ⟨?_, ?_⟩, fun j below => ?_⟩
    · rw [text', text, List.drop_drop]
    · rw [bytes, run.text]
    · rw [run'.text, text', run.text]
    · rcases Nat.lt_or_ge j (done + i) with early | late
      · exact Nat.ne_of_gt (soFar j early)
      · obtain ⟨j, rfl⟩ := Nat.exists_eq_add_of_le (Nat.le_trans (Nat.le_add_right done i) late)
        have further := ahead j (by omega) (by rw [List.length_drop]; omega)
        have sum := behindHere j
        omega
  | cut i within run' exact_ bytes regains =>
    rw [List.length_drop] at within
    have sum := behindHere i
    refine .inr ⟨⟨done + i, by omega, by omega⟩, ?_⟩
    rw [run.text, run'.text, bytes, List.length_take]
    omega
  | failed part member noUrl error =>
    exact absurd noUrl (urls part (List.mem_of_mem_drop member))

/-- In every run no call loses text. -/
theorem inRun_step {archive : MHTMLWebArchive} {P : List ArchiveResource} {s : Serializer}
    {length : Nat} (run : InRun archive P s) (positive : 0 < length)
    (urls : ∀ part ∈ P, part.url ≠ []) :
    (∃ i, InRun archive (P.drop i) (progress archive length s).2) ∧
      (textLeft archive s).length ≤ (progress archive length s).1.length +
        (textLeft archive (progress archive length s).2).length := by
  cases progress_outcome run length positive with
  | clean i within run' bytes text' ends passed ahead urls' =>
    refine ⟨⟨i, run'⟩, ?_⟩
    rw [run.text, run'.text, text', bytes, List.length_take, List.length_drop]
    omega
  | cut i within run' exact_ bytes regains =>
    refine ⟨⟨i, run'⟩, ?_⟩
    rw [run.text, run'.text, bytes, List.length_take]
    omega
  | failed part member noUrl error => exact absurd noUrl (urls part member)

section
variable (isSupportedImageMIMEType : Text → Bool) (archive : MHTMLWebArchive) (lens : Nat → Nat)

/-- The calls with the given buffer lengths reach the end, and by then have returned what one large
enough buffer returns. -/
def ChunkIndependent : Prop :=
  ∃ calls,
    (Drain.after (progress archive) lens
      (contentSerializeStart isSupportedImageMIMEType archive).2 calls).status = .stateEnd ∧
    ∃ enough, ∀ length, enough ≤ length →
      (progress archive length
        (contentSerializeStart isSupportedImageMIMEType archive).2).2.status = .stateEnd ∧
      (progress archive length (contentSerializeStart isSupportedImageMIMEType archive).2).1 =
        Drain.sent (progress archive) lens
          (contentSerializeStart isSupportedImageMIMEType archive).2 calls

/-- Every part has a URL, and no number of buffers together ends with the content of a part. -/
def AvoidsContentEnds : Prop :=
  (∀ part ∈ writtenParts archive, part.url ≠ []) ∧
    ∀ k, ∀ i < (writtenParts archive).length, Drain.offered lens k ≠ contentEnd archive i

end

section
variable {isSupportedImageMIMEType : Text → Bool} {archive : MHTMLWebArchive} {lens : Nat → Nat}

theorem reached_after (some_ : (caculateItems archive (0, [])).1 ≠ 0)
    (positive : ∀ k, 0 < lens k) (urls : ∀ part ∈ writtenParts archive, part.url ≠ []) (k : Nat)
    (avoids : ∀ j ≤ k, ∀ i < (writtenParts archive).length,
      Drain.offered lens j ≠ contentEnd archive i) :
    ∃ done, Reached archive (Drain.offered lens k) done
      (Drain.after (progress archive) lens (startState archive) k) := by
  induction k with
  | zero => exact ⟨0, reached_start some_⟩
  | succ k ih =>
    obtain ⟨done, reached⟩ := ih (fun j below => avoids j (by omega))
    rw [Drain.offered_succ]
    rcases reached.step (positive k) urls with ⟨next, -, -⟩ | ⟨⟨i, within, hit⟩, -⟩
    · exact next
    · rw [← Drain.offered_succ] at hit
      exact absurd hit (avoids (k + 1) (Nat.le_refl _) i within)

theorem clean_of_avoids (some_ : (caculateItems archive (0, [])).1 ≠ 0)
    (positive : ∀ k, 0 < lens k) (urls : ∀ part ∈ writtenParts archive, part.url ≠ []) (k : Nat)
    (avoids : ∀ j ≤ k + 1, ∀ i < (writtenParts archive).length,
      Drain.offered lens j ≠ contentEnd archive i) :
    Drain.Clean (progress archive) (textLeft archive) (lens k)
      (Drain.after (progress archive) lens (startState archive) k) := by
  obtain ⟨done, reached⟩ :=
    reached_after some_ positive urls k (fun j below => avoids j (by omega))
  rcases reached.step (positive k) urls with ⟨-, clean, -⟩ | ⟨⟨i, within, hit⟩, -⟩
  · exact clean
  · rw [← Drain.offered_succ] at hit
    exact absurd hit (avoids (k + 1) (Nat.le_refl _) i within)

theorem textLeft_start (some_ : (caculateItems archive (0, [])).1 ≠ 0) :
    textLeft archive (startState archive) = archiveText archive := by
  rw [(inRun_start archive some_).text, left_start archive some_]

/-- One buffer longer than the text takes all of it if every part has a URL, and otherwise the call
fails. -/
theorem progress_large (some_ : (caculateItems archive (0, [])).1 ≠ 0) {length : Nat}
    (large : (archiveText archive).length < length) :
    ((progress archive length (startState archive)).2.status = .stateEnd ∧
      (progress archive length (startState archive)).1 = archiveText archive ∧
      ∀ part ∈ writtenParts archive, part.url ≠ []) ∨
    ((progress archive length (startState archive)).2.status = .stateError ∧
      ∃ part ∈ writtenParts archive, part.url = []) := by
  have text := left_start archive some_
  cases progress_outcome (inRun_start archive some_) length (by omega) with
  | clean i within run bytes remaining ends passed ahead urls =>
    have ended := ends (by rw [text]; exact large)
    have all := run.holds.nil_of_end ended
    refine .inl ⟨ended, ?_, ?_⟩
    · rw [bytes, text, List.take_of_length_le (Nat.le_of_lt large)]
    · rw [List.drop_eq_nil_iff] at all
      rw [List.take_of_length_le all] at urls
      exact urls
  | cut i within run exact_ bytes regains =>
    rw [text] at exact_
    omega
  | failed part member noUrl error => exact .inr ⟨error, part, member, noUrl⟩

theorem chunkIndependent_of_avoids
    (started : (contentSerializeStart isSupportedImageMIMEType archive).1 = true)
    (positive : ∀ k, 0 < lens k) (avoids : AvoidsContentEnds archive lens) :
    ChunkIndependent isSupportedImageMIMEType archive lens := by
  obtain ⟨start, some_⟩ := contentSerializeStart_true archive started
  obtain ⟨urls, apart⟩ := avoids
  have clean := fun k => clean_of_avoids some_ positive urls k (fun j _ => apart j)
  have drained := Drain.drained_of_clean (progress archive) (textLeft archive) lens
    (startState archive) positive clean
  rw [textLeft_start some_] at drained
  obtain ⟨done, reached⟩ := reached_after some_ positive urls (archiveText archive).length
    (fun j _ => apart j)
  refine ⟨(archiveText archive).length, ?_, (archiveText archive).length + 1, fun length large => ?_⟩
  · rw [start]
    refine reached.run.holds.end_of_left ?_
    rw [← reached.run.text]
    exact drained.2
  · rw [start, drained.1]
    rcases progress_large some_ large with ⟨ended, bytes, -⟩ | ⟨-, part, member, noUrl⟩
    · exact ⟨ended, bytes⟩
    · exact absurd noUrl (urls part member)

theorem inRun_after (some_ : (caculateItems archive (0, [])).1 ≠ 0)
    (positive : ∀ k, 0 < lens k) (urls : ∀ part ∈ writtenParts archive, part.url ≠ []) (k : Nat) :
    ∃ done, InRun archive ((writtenParts archive).drop done)
      (Drain.after (progress archive) lens (startState archive) k) := by
  induction k with
  | zero => exact ⟨0, inRun_start archive some_⟩
  | succ k ih =>
    obtain ⟨done, run⟩ := ih
    obtain ⟨⟨i, next⟩, -⟩ := inRun_step run (positive k)
      (fun part member => urls part (List.mem_of_mem_drop member))
    rw [List.drop_drop] at next
    exact ⟨done + i, next⟩

theorem avoids_of_chunkIndependent
    (started : (contentSerializeStart isSupportedImageMIMEType archive).1 = true)
    (positive : ∀ k, 0 < lens k)
    (independent : ChunkIndependent isSupportedImageMIMEType archive lens) :
    AvoidsContentEnds archive lens := by
  obtain ⟨start, some_⟩ := contentSerializeStart_true archive started
  obtain ⟨calls, ended, enough, whole⟩ := independent
  rw [start] at ended whole
  have large : (archiveText archive).length < max enough ((archiveText archive).length + 1) := by
    omega
  obtain ⟨oneEnded, oneBytes⟩ := whole _ (Nat.le_max_left enough ((archiveText archive).length + 1))
  obtain ⟨bytes, urls⟩ : Drain.sent (progress archive) lens (startState archive) calls =
      archiveText archive ∧ ∀ part ∈ writtenParts archive, part.url ≠ [] := by
    rcases progress_large some_ large with ⟨-, bytes, urls⟩ | ⟨error, -⟩
    · exact ⟨oneBytes.symm.trans bytes, urls⟩
    · rw [oneEnded] at error
      contradiction
  have nothingLeft : textLeft archive
      (Drain.after (progress archive) lens (startState archive) calls) = [] := by
    obtain ⟨done, run⟩ := inRun_after some_ positive urls calls
    have none_ := run.holds.nil_of_end ended
    rw [run.text]
    rw [none_] at run ⊢
    exact left_of_end run.holds ended
  refine ⟨urls, ?_⟩
  -- the first number of buffers that ends with a content: the call before it gives text back
  intro k
  induction k using Nat.strong_induction_on with
  | _ k earlier =>
    intro i within hit
    obtain ⟨j, rfl⟩ : ∃ j, k = j + 1 := by
      cases k with
      | zero =>
        have positive_ := contentEnd_pos archive i
        rw [← hit] at positive_
        exact absurd positive_ (by simp [Drain.offered])
      | succ j => exact ⟨j, rfl⟩
    rcases Nat.lt_or_ge j calls with before | after
    · obtain ⟨done, reached⟩ := reached_after some_ positive urls j
        (fun m below => earlier m (by omega))
      rcases reached.step (positive j) urls with ⟨-, -, apart⟩ | ⟨-, regains⟩
      · rw [← Drain.offered_succ] at apart
        exact apart i within hit
      · have longer := Drain.length_lt_of_regains (progress archive) (textLeft archive) lens
          (startState archive) j calls before (fun m below => by
            obtain ⟨done', run⟩ := inRun_after some_ positive urls m
            exact (inRun_step run (positive m)
              (fun part member => urls part (List.mem_of_mem_drop member))).2) regains
        rw [textLeft_start some_, nothingLeft, bytes] at longer
        simp at longer
    · have all := Drain.sent_of_clean (progress archive) (textLeft archive) lens
        (startState archive) calls (fun m below =>
          clean_of_avoids some_ positive urls m (fun n below' => earlier n (by omega)))
      have short := all.2
      rw [nothingLeft, textLeft_start some_, eq_comm, List.drop_eq_nil_iff] at short
      have sum := contentEnd_add_behind archive i
      have room := Drain.offered_mono lens after
      have more := positive j
      rw [Drain.offered_succ] at hit
      omega

/-- The serialization is independent of the buffers exactly when the buffers avoid the content
ends. -/
theorem chunkIndependent_iff
    (started : (contentSerializeStart isSupportedImageMIMEType archive).1 = true)
    (positive : ∀ k, 0 < lens k) :
    ChunkIndependent isSupportedImageMIMEType archive lens ↔ AvoidsContentEnds archive lens :=
  ⟨avoids_of_chunkIndependent started positive, chunkIndependent_of_avoids started positive⟩

end

/-- A page with one image. -/
def pageWithImage : MHTMLWebArchive :=
  .mk ⟨widen (ascii "http://a/"), widen (ascii "text/html"), widen (ascii "utf-8"), ascii "<p>"⟩
    [⟨widen (ascii "http://a/i"), widen (ascii "image/gif"), [], ascii "GIF"⟩] []

theorem chunkIndependent_pageWithImage :
    ChunkIndependent (fun _ => false) pageWithImage (fun _ => 1000) := by
  refine (chunkIndependent_iff (by decide) (by simp)).mpr ⟨by decide, fun k i within => ?_⟩
  have ends : ∀ i < 2, contentEnd pageWithImage i % 1000 ≠ 0 := by decide +kernel
  have apart := ends i within
  intro hit
  rw [← hit, Drain.offered, Finset.sum_const, Finset.card_range] at apart
  simp at apart

/-- Byte by byte the page is never done. -/
theorem not_chunkIndependent_pageWithImage :
    ¬ ChunkIndependent (fun _ => false) pageWithImage (fun _ => 1) := by
  intro independent
  have avoids := avoids_of_chunkIndependent (by decide) (by simp) independent
  exact avoids.2 (contentEnd pageWithImage 0) 0 (by decide) (by simp [Drain.offered])

end WkcBrowser.Mhtml
