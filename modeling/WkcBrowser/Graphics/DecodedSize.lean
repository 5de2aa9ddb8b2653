import WkcBrowser.Graphics.BitmapImage
import WkcBrowser.Lib.Along

/-! When the decoded size of a `BitmapImage` is what its frames hold, in every state of a run. -/

namespace WkcBrowser.Graphics

open Lib

namespace BitmapImage

/-- The bytes of the native images that some frames hold. -/
def heldBytes (frames : List FrameData) : Nat := (frames.map FrameData.heldBytes).sum

/-- The size of the image and what was reported of it come to some bytes. -/
structure Counts (image : BitmapImage) (bytes : Nat) : Prop where
  decodedSize : image.decodedSize.toNat = bytes
  reported : image.imageObserver.deltas.sum = bytes
  observed : image.imageObserver.decodedSize.toNat = bytes

/-- The size is what the frames hold, and no image was overwritten. -/
structure Tracks (image : BitmapImage) : Prop where
  counts : image.Counts (heldBytes image.frames)
  overwritten : image.overwritten = []

/-- Frames that hold an image have their metadata. -/
def Described (frames : List FrameData) : Prop :=
  ∀ data ∈ frames, data.frame.isSome = true → data.haveMetadata = true

variable {image : BitmapImage} {source : ImageSource} {frames : List FrameData} {bytes : Nat}

/-! Bytes. -/

theorem toNat_add_ofInt {size : BitVec 32} {delta : Int} {result : Nat}
    (sum : (size.toNat : Int) + delta = result) (small : result < 2 ^ 32) :
    (size + .ofInt 32 delta).toNat = result := by
  rw [BitVec.toNat_add, BitVec.toNat_ofInt]
  omega

theorem Counts.add (counts : image.Counts bytes) {delta : Int} {result : Nat}
    (sum : (bytes : Int) + delta = result) (small : result < 2 ^ 32) :
    ((image.addDecodedSize delta).notifyObserver delta).Counts result where
  decodedSize := toNat_add_ofInt (counts.decodedSize ▸ sum) small
  reported := by
    have reported := counts.reported
    simp only [notifyObserver, addDecodedSize, CachedImage.decodedSizeChanged, List.sum_append,
      List.sum_singleton]
    omega
  observed := toNat_add_ofInt (counts.observed ▸ sum) small

theorem bmod_of_small {n : Nat} (small : n < 2 ^ 31) : (n : Int).bmod (2 ^ 32) = n :=
  Int.bmod_eq_of_le (by omega) (by omega)

theorem Counts.destroyMetadataAndNotify (counts : image.Counts bytes) {cleared : Nat}
    (most : cleared ≤ bytes) (small : cleared < 2 ^ 31) :
    (image.destroyMetadataAndNotify cleared).Counts (bytes - cleared) := by
  have delta : (-(cleared : Int)).bmod (2 ^ 32) = -cleared :=
    Int.bmod_eq_of_le (by omega) (by omega)
  have bound := image.decodedSize.isLt
  have size := counts.decodedSize
  rw [BitmapImage.destroyMetadataAndNotify, delta]
  split
  · exact counts.add (by omega) (by omega)
  · next none =>
    have nothing : cleared = 0 := by omega
    subst nothing
    refine ⟨toNat_add_ofInt ?_ ?_, counts.reported, counts.observed⟩
    · rw [size]
      rfl
    · omega

theorem framesCleared_eq (size : IntSize) (frames : List FrameData) : framesCleared size frames =
    (frames.map fun data => frameBytes size data.frame).sum.bmod (2 ^ 32) := by
  induction frames with
  | nil => rfl
  | cons data rest ih =>
    have held : (if (data.clear false).2 then frameBytes size data.frame else 0) =
        frameBytes size data.frame := by
      cases frame : data.frame with
      | none => simp [FrameData.clear, frame, frameBytes]
      | some cached => simp [FrameData.clear, frame]
    rw [framesCleared, held, ih, Int.add_bmod_bmod, List.map_cons, List.sum_cons]

@[simp] theorem heldBytes_nil : heldBytes [] = 0 := rfl

@[simp] theorem heldBytes_cons (data : FrameData) (rest : List FrameData) :
    heldBytes (data :: rest) = data.heldBytes + heldBytes rest := rfl

@[simp] theorem heldBytes_append (front rest : List FrameData) :
    heldBytes (front ++ rest) = heldBytes front + heldBytes rest := by
  rw [heldBytes, List.map_append, List.sum_append]
  rfl

theorem heldBytes_eq_zero (none : ∀ data ∈ frames, data.frame = none) : heldBytes frames = 0 := by
  induction frames with
  | nil => rfl
  | cons data rest ih =>
    have here : data.heldBytes = 0 := by rw [FrameData.heldBytes, none data List.mem_cons_self]; rfl
    rw [heldBytes_cons, here, ih fun other member => none other (List.mem_cons_of_mem _ member)]

/-- The bytes change with one frame. -/
theorem heldBytes_modify {index : Nat} {data : FrameData} (change : FrameData → FrameData)
    (there : frames[index]? = some data) :
    heldBytes (frames.modify index change) + data.heldBytes =
      heldBytes frames + (change data).heldBytes := by
  induction frames generalizing index with
  | nil => cases there
  | cons first rest ih =>
    cases index with
    | zero =>
      cases there
      simp only [List.modify_zero_cons, heldBytes_cons]
      omega
    | succ index =>
      have later := ih there
      simp only [List.modify_succ_cons, heldBytes_cons]
      omega

/-! Clearing frames. -/

theorem destroyMetadataAndNotify_frames (image : BitmapImage) (cleared : Int) :
    (image.destroyMetadataAndNotify cleared).frames = image.frames ∧
      (image.destroyMetadataAndNotify cleared).overwritten = image.overwritten := by
  unfold destroyMetadataAndNotify
  dsimp only
  split
  · exact ⟨rfl, rfl⟩
  · exact ⟨rfl, rfl⟩

/-- At a size of the image some frames have as many bytes as they hold. -/
def ClearsAs (size : IntSize) (cleared : List FrameData) : Prop :=
  (cleared.map fun data => frameBytes size data.frame).sum = heldBytes cleared ∧
    heldBytes cleared < 2 ^ 31

theorem Tracks.clear (tracks : image.Tracks) {cleared : List FrameData}
    (parts : heldBytes frames + heldBytes cleared = heldBytes image.frames)
    (as : ClearsAs image.size cleared) :
    ({ image with frames }.destroyMetadataAndNotify (framesCleared image.size cleared)).Tracks := by
  obtain ⟨sum, small⟩ := as
  obtain ⟨sameFrames, sameOverwritten⟩ := destroyMetadataAndNotify_frames { image with frames }
    (framesCleared image.size cleared)
  have before : ({ image with frames } : BitmapImage).Counts (heldBytes image.frames) :=
    ⟨tracks.counts.decodedSize, tracks.counts.reported, tracks.counts.observed⟩
  have after := before.destroyMetadataAndNotify (Nat.le.intro ((Nat.add_comm _ _).trans parts)) small
  have left : heldBytes image.frames - heldBytes cleared = heldBytes frames := by omega
  refine ⟨?_, sameOverwritten.trans tracks.overwritten⟩
  rw [sameFrames, framesCleared_eq, sum, bmod_of_small small, ← left]
  exact after

structure Consistent (image : BitmapImage) : Prop where
  tracks : image.Tracks
  described : Described image.frames

def DestroysAs (image : BitmapImage) (destroyAll : Bool) : Prop :=
  if destroyAll then ClearsAs image.size image.frames
  else image.currentFrame ≤ image.frames.length ∧
    ClearsAs image.size (image.frames.take image.currentFrame)

theorem Consistent.destroyDecodedData (consistent : image.Consistent) {destroyAll : Bool}
    (as : image.DestroysAs destroyAll) : (image.destroyDecodedData destroyAll).Consistent := by
  have cleared : ClearsAs image.size
      (image.frames.take (if destroyAll then image.frames.length else image.currentFrame)) := by
    unfold DestroysAs at as
    cases destroyAll with
    | true =>
      rw [if_pos rfl] at as ⊢
      rwa [List.take_length]
    | false => exact as.2
  unfold BitmapImage.destroyDecodedData
  dsimp only
  generalize (if destroyAll = true then image.frames.length else image.currentFrame) = last
    at cleared ⊢
  have nothing : heldBytes ((image.frames.take last).map fun data => (data.clear false).1) = 0 := by
    refine heldBytes_eq_zero fun data member => ?_
    obtain ⟨old, -, rfl⟩ := List.mem_map.mp member
    rfl
  have whole : heldBytes (image.frames.take last) + heldBytes (image.frames.drop last) =
      heldBytes image.frames := by
    rw [← heldBytes_append, List.take_append_drop]
  refine ⟨consistent.tracks.clear ?_ cleared, ?_⟩
  · rw [heldBytes_append, nothing]
    omega
  · rw [(destroyMetadataAndNotify_frames _ _).1]
    intro data member held
    rcases List.mem_append.mp member with front | rest
    · obtain ⟨old, -, rfl⟩ := List.mem_map.mp front
      cases held
    · exact consistent.described data (List.mem_of_mem_drop rest) held

theorem Consistent.destroyDecodedDataIfNecessary (consistent : image.Consistent) {destroyAll : Bool}
    (as : image.isDestroyNecessary destroyAll = true → image.DestroysAs destroyAll) :
    (image.destroyDecodedDataIfNecessary destroyAll).Consistent := by
  rw [BitmapImage.destroyDecodedDataIfNecessary]
  split
  · next necessary => exact consistent.destroyDecodedData (as necessary)
  · exact consistent

theorem clearLast_eq (frames : List FrameData) :
    clearLast frames =
      frames.dropLast ++ (frames.getLast?.map fun data => (data.clear true).1).toList := by
  induction frames with
  | nil => rfl
  | cons data rest ih =>
    cases rest with
    | nil => rfl
    | cons next rest =>
      rw [clearLast, ih]
      · simp
      · exact List.cons_ne_nil next rest

theorem Consistent.of_same (consistent : image.Consistent) {image' : BitmapImage}
    (frames : image'.frames = image.frames) (decodedSize : image'.decodedSize = image.decodedSize)
    (imageObserver : image'.imageObserver = image.imageObserver)
    (overwritten : image'.overwritten = image.overwritten) : image'.Consistent := by
  obtain ⟨⟨⟨size, reported, observed⟩, none⟩, described⟩ := consistent
  rw [← frames] at size reported observed described
  refine ⟨⟨⟨?_, ?_, ?_⟩, overwritten.trans none⟩, described⟩
  · rw [decodedSize, size]
  · rw [imageObserver, reported]
  · rw [imageObserver, observed]

theorem Consistent.isSizeAvailable (consistent : image.Consistent) :
    (image.isSizeAvailable source).2.Consistent := by
  rw [BitmapImage.isSizeAvailable]
  split
  · exact consistent
  · exact consistent.of_same rfl rfl rfl rfl

/-- What `dataChanged` counts for the last frame. -/
theorem lastCleared_eq (size : IntSize) (last : Option FrameData) :
    (match last with
      | none => 0
      | some data => if (data.clear true).2 then frameBytes size data.frame else 0) =
      framesCleared size last.toList := by
  cases last with
  | none => rfl
  | some data =>
    rw [Option.toList_some, framesCleared, framesCleared, Int.add_zero]
    cases frame : data.frame with
    | none => simp [FrameData.clear, frame]
    | some cached => simp [FrameData.clear, frame, frameBytes]

theorem Consistent.dataChanged (consistent : image.Consistent) (allDataReceived : Bool)
    (as : ClearsAs image.size image.frames.getLast?.toList) :
    (image.dataChanged source allDataReceived).2.Consistent := by
  have bytes := lastCleared_eq image.size image.frames.getLast?
  have cleared : ({ image with frames := clearLast image.frames }.destroyMetadataAndNotify
      (framesCleared image.size image.frames.getLast?.toList)).Consistent := by
    refine ⟨consistent.tracks.clear ?_ as, ?_⟩
    · rw [clearLast_eq]
      cases last : image.frames.getLast? with
      | none => simp [List.getLast?_eq_none_iff.mp last]
      | some data =>
        obtain ⟨front, whole⟩ := List.getLast?_eq_some_iff.mp last
        simp [whole, FrameData.heldBytes, FrameData.clear]
    · rw [(destroyMetadataAndNotify_frames _ _).1, clearLast_eq]
      intro data member held
      rcases List.mem_append.mp member with front | last
      · exact consistent.described data (List.mem_of_mem_dropLast front) held
      · obtain ⟨old, -, rfl⟩ := Option.map_eq_some_iff.mp (Option.mem_toList.mp last)
        cases held
  rw [← bytes] at cleared
  rw [BitmapImage.dataChanged]
  refine Consistent.isSizeAvailable ?_
  exact cleared.of_same rfl rfl rfl rfl

/-! Counting frames. -/

/-- Native images that are created again have as many bytes as before. -/
def RecreatesAs (image : BitmapImage) (source : ImageSource) : Prop :=
  image.haveFrameCount = false → image.frameCount ≠ source.frameCount →
    ∀ index cached frame, image.frames[index]?.bind FrameData.frame = some cached →
      source.frameAtIndex index = some frame → frame.elim 0 NativeImage.bytes = cached.bytes

theorem heldBytes_mapIdx {change : Nat → FrameData → FrameData} (frames : List FrameData)
    (same : ∀ index data, frames[index]? = some data →
      (change index data).heldBytes = data.heldBytes) :
    heldBytes (frames.mapIdx change) = heldBytes frames := by
  induction frames generalizing change with
  | nil => rfl
  | cons data rest ih =>
    rw [List.mapIdx_cons, heldBytes_cons, heldBytes_cons, same 0 data rfl]
    exact congrArg _ (ih fun index other there => same (index + 1) other there)

theorem Consistent.countFrames (consistent : image.Consistent) (as : image.RecreatesAs source) :
    (image.countFrames source).Consistent := by
  rw [BitmapImage.countFrames]
  by_cases have' : image.haveFrameCount = true
  · rw [if_pos have']
    exact consistent
  · rw [if_neg have']
    dsimp only
    split
    · next changed =>
      have bytes : heldBytes (image.frames.mapIdx (syncFrameData source)) = heldBytes image.frames := by
        refine heldBytes_mapIdx _ fun index data there => ?_
        rw [syncFrameData]
        split
        · rfl
        · next held =>
          split
          · next frame found =>
            rw [FrameData.heldBytes, FrameData.heldBytes]
            cases is : data.frame with
            | none => exact absurd (by rw [is]; rfl) held
            | some cached =>
              have before : image.frames[index]?.bind FrameData.frame = some cached := by
                rw [there]
                exact is
              exact as (Bool.eq_false_of_not_eq_true have') changed index cached frame before found
          · rfl
      refine ⟨⟨?_, consistent.tracks.overwritten⟩, ?_⟩
      · rw [bytes]
        exact ⟨consistent.tracks.counts.decodedSize, consistent.tracks.counts.reported,
          consistent.tracks.counts.observed⟩
      · intro data member held
        obtain ⟨index, inside, rfl⟩ := List.mem_mapIdx.mp member
        have old := consistent.described (image.frames[index]) (List.getElem_mem inside)
        unfold syncFrameData at held ⊢
        split at held
        · next none =>
          rw [if_pos none]
          exact old held
        · next some =>
          rw [if_neg some]
          have described := old (by
            rw [Option.isSome_iff_ne_none]
            exact fun none => some (by rw [none]; rfl))
          split
          · exact described
          · exact described
    · exact consistent.of_same rfl rfl rfl rfl

theorem countFrames_haveFrameCount (image : BitmapImage) (source : ImageSource) :
    (image.countFrames source).haveFrameCount = true := by
  rw [BitmapImage.countFrames]
  split
  · next counted => exact counted
  · dsimp only
    split
    · rfl
    · rfl

/-! Caching frames. -/

theorem frameBytes_none (size : IntSize) : frameBytes size none = 0 := by
  simp [frameBytes]

theorem heldBytes_grow (image : BitmapImage) (numFrames : Nat) :
    heldBytes (image.grow numFrames).frames = heldBytes image.frames := by
  have nothing : heldBytes (List.replicate (numFrames - image.frames.length) ({} : FrameData)) = 0 := by
    refine heldBytes_eq_zero fun data member => ?_
    rw [List.eq_of_mem_replicate member]
  rw [grow, heldBytes_append, nothing, Nat.add_zero]

theorem Consistent.grow (consistent : image.Consistent) (numFrames : Nat) :
    (image.grow numFrames).Consistent := by
  refine ⟨⟨?_, consistent.tracks.overwritten⟩, ?_⟩
  · rw [heldBytes_grow]
    exact ⟨consistent.tracks.counts.decodedSize, consistent.tracks.counts.reported,
      consistent.tracks.counts.observed⟩
  · intro data member held
    rcases List.mem_append.mp member with old | new
    · exact consistent.described data old held
    · rw [List.eq_of_mem_replicate new] at held
      cases held

theorem ClearsAs.grow {size : IntSize} (as : ClearsAs size image.frames) (numFrames : Nat) :
    ClearsAs size (image.grow numFrames).frames := by
  obtain ⟨sum, small⟩ := as
  have nothing : ((List.replicate (numFrames - image.frames.length) ({} : FrameData)).map
      fun data => frameBytes size data.frame).sum = 0 := by
    rw [List.map_replicate, frameBytes_none]
    simp
  refine ⟨?_, by rwa [heldBytes_grow]⟩
  rw [heldBytes_grow, ← sum, BitmapImage.grow, List.map_append, List.sum_append, nothing,
    Int.add_zero]

/-- After the vector grew the frame is there, without an image when it had none. -/
theorem getElem?_grow {index numFrames : Nat} (inside : index < numFrames)
    (missing : image.frames[index]?.bind FrameData.frame = none) :
    ∃ data, (image.grow numFrames).frames[index]? = some data ∧ data.frame = none := by
  rw [BitmapImage.grow]
  dsimp only
  by_cases old : index < image.frames.length
  · rw [List.getElem?_append_left old]
    rw [List.getElem?_eq_getElem old] at missing ⊢
    exact ⟨_, rfl, missing⟩
  · refine ⟨{}, ?_, rfl⟩
    rw [List.getElem?_append_right (Nat.le_of_not_lt old), List.getElem?_replicate, if_pos (by omega)]

theorem modify_eq_of_same {index : Nat} {data : FrameData} {change : FrameData → FrameData}
    (there : frames[index]? = some data) (same : change data = data) :
    frames.modify index change = frames := by
  refine List.ext_getElem? fun i => ?_
  rw [List.getElem?_modify]
  by_cases here : index = i
  · subst here
    rw [there]
    simp [same]
  · simp [here]

/-- Only the metadata of the frame and the count of repetitions change. -/
theorem setMetadata_eq (image : BitmapImage) (source : ImageSource) (index : Nat) :
    ∃ change repetitionCount repetitionCountStatus,
      (∀ data, (change data).frame = data.frame ∧ (change data).haveMetadata = true) ∧
        image.setMetadata source index = { image with
          frames := image.frames.modify index change
          repetitionCount
          repetitionCountStatus } := by
  unfold setMetadata countRepetitions
  dsimp only
  split_ifs
  all_goals
    simp only [List.modify_modify_eq]
    refine ⟨_, _, _, ?_, rfl⟩
    exact fun data => ⟨rfl, rfl⟩

/-- A new native image has as many bytes as its frame at the size it is counted for. -/
def FitsAs (image : BitmapImage) (frameSize : IntSize) (cached : NativeImage) : Prop :=
  frameBytes frameSize cached = cached.bytes ∧ heldBytes image.frames + cached.bytes < 2 ^ 32

/-- What a frame that is cached comes to, or the clearing of all when there is no native image. -/
def CachesAs (image : BitmapImage) (source : ImageSource) (index : Nat) : Prop :=
  match source.createFrameAtIndex index with
  | none => ClearsAs image.size image.frames
  | some cached =>
    image.FitsAs (if index ≠ 0 then source.frameSizeAtIndex index else image.size) cached

theorem Consistent.addFrame (consistent : image.Consistent) {image' : BitmapImage} {index : Nat}
    {data : FrameData} {cached : NativeImage} {change : FrameData → FrameData}
    (there : image.frames[index]? = some data) (empty : data.frame = none)
    (frames : image'.frames = image.frames.modify index change)
    (decodedSize : image'.decodedSize = image.decodedSize)
    (imageObserver : image'.imageObserver = image.imageObserver)
    (overwritten : image'.overwritten = image.overwritten)
    (held : (change data).frame = some cached) (described : (change data).haveMetadata = true)
    (small : heldBytes image.frames + cached.bytes < 2 ^ 32) :
    ((image'.addDecodedSize cached.bytes).notifyObserver cached.bytes).Consistent := by
  have before : image'.Counts (heldBytes image.frames) := by
    have counts := consistent.tracks.counts
    refine ⟨?_, ?_, ?_⟩
    · rw [decodedSize, counts.decodedSize]
    · rw [imageObserver, counts.reported]
    · rw [imageObserver, counts.observed]
  have bytes : heldBytes image'.frames = heldBytes image.frames + cached.bytes := by
    have one := heldBytes_modify change there
    have old : data.heldBytes = 0 := by
      rw [FrameData.heldBytes, empty]
      rfl
    have new : (change data).heldBytes = cached.bytes := by
      rw [FrameData.heldBytes, held]
      rfl
    rw [frames]
    omega
  refine ⟨⟨?_, overwritten.trans consistent.tracks.overwritten⟩, ?_⟩
  · have after := before.add (Int.natCast_add _ _).symm small
    rw [← bytes] at after
    exact after
  · intro other member full
    have listed : other ∈ image.frames.modify index change := frames ▸ member
    obtain ⟨i, place⟩ := List.mem_iff_getElem?.mp listed
    rw [List.getElem?_modify] at place
    by_cases here : index = i
    · subst here
      rw [there] at place
      simp only [if_pos, Option.map_eq_map, Option.map_some, Option.some.injEq] at place
      rw [← place]
      exact described
    · simp only [if_neg here, id_map'] at place
      exact consistent.described other (List.mem_of_getElem? place) full

theorem Consistent.cacheFrame (consistent : image.Consistent) {index : Nat}
    (counted : image.haveFrameCount = true) (inside : index < image.frameCount)
    (missing : image.frames[index]?.bind FrameData.frame = none)
    (as : image.CachesAs source index) : (image.cacheFrame source index).Consistent := by
  obtain ⟨data, there, none⟩ := getElem?_grow inside missing
  have grown := consistent.grow image.frameCount
  have bytes := heldBytes_grow image image.frameCount
  have empty : ((image.grow image.frameCount).frames[index]?.bind FrameData.frame).toList = [] := by
    rw [there, Option.bind_some, none]
    rfl
  rw [CachesAs] at as
  rw [BitmapImage.cacheFrame, BitmapImage.countFrames, if_pos counted]
  dsimp only
  cases created : source.createFrameAtIndex index with
  | none =>
    rw [created] at as
    rw [if_pos Option.isNone_none]
    have same : (image.grow image.frameCount).setFrame index Option.none =
        image.grow image.frameCount := by
      rw [setFrame, empty, List.append_nil, modify_eq_of_same there (by rw [← none])]
    rw [same]
    exact grown.destroyDecodedData (as.grow image.frameCount)
  | some cached =>
    rw [created] at as
    obtain ⟨sized, small⟩ := as
    obtain ⟨change, repetitionCount, status, changed, metadata⟩ :=
      setMetadata_eq ((image.grow image.frameCount).setFrame index (some cached)) source index
    have present : ¬(some cached).isNone = true := Bool.false_ne_true
    rw [if_neg present, metadata]
    have size : ((image.grow image.frameCount).setFrame index (some cached)).size = image.size := rfl
    dsimp only
    rw [size]
    generalize (if index ≠ 0 then source.frameSizeAtIndex index else image.size) = frameSize
      at sized ⊢
    rw [sized]
    have one := changed { data with frame := some cached }
    have kept : ((image.grow image.frameCount).setFrame index (some cached)).overwritten =
        (image.grow image.frameCount).overwritten := by
      rw [setFrame, empty, List.append_nil]
    rw [← bytes] at small
    split
    · exact grown.addFrame there none (List.modify_modify_eq ..) rfl rfl kept one.1 one.2 small
    · exact grown.addFrame there none (List.modify_modify_eq ..) rfl rfl kept one.1 one.2 small

/-! Runs. -/

/-- What a query comes to. -/
def QueriesAs (image : BitmapImage) (source : ImageSource) (missing : FrameData → Bool)
    (index : Nat) : Prop :=
  image.RecreatesAs source ∧
    let image := image.countFrames source
    index < image.frameCount → image.frames[index]?.all missing = true → image.CachesAs source index

theorem Consistent.cacheWhen (consistent : image.Consistent) {missing : FrameData → Bool}
    {index : Nat}
    (empty : ∀ data ∈ (image.countFrames source).frames, missing data = true → data.frame = none)
    (as : image.QueriesAs source missing index) : (image.cacheWhen source missing index).Consistent := by
  obtain ⟨recreates, caches⟩ := as
  have counted := consistent.countFrames recreates
  rw [BitmapImage.cacheWhen]
  dsimp only at caches ⊢
  split
  · exact counted
  · next inside =>
    split
    · next lacking =>
      refine counted.cacheFrame (image.countFrames_haveFrameCount source) (by omega) ?_
        (caches (by omega) lacking)
      cases there : (image.countFrames source).frames[index]? with
      | none => rfl
      | some data =>
        rw [there] at lacking
        exact empty data (List.mem_of_getElem? there) lacking
    · exact counted

theorem Consistent.cacheFrameWhen (consistent : image.Consistent) {index : Nat}
    (as : image.QueriesAs source (fun data => data.frame.isNone) index) :
    (image.cacheWhen source (fun data => data.frame.isNone) index).Consistent :=
  consistent.cacheWhen (fun _ _ => Option.isNone_iff_eq_none.mp) as

/-- A frame without metadata holds no image, so that none is overwritten. -/
theorem Consistent.cacheMetadataWhen (consistent : image.Consistent) {index : Nat}
    (as : image.QueriesAs source (fun data => !data.haveMetadata) index) :
    (image.cacheWhen source (fun data => !data.haveMetadata) index).Consistent := by
  refine consistent.cacheWhen (fun data member missing => ?_) as
  have described := (consistent.countFrames as.1).described data member
  rw [Bool.not_eq_true'] at missing
  rw [missing] at described
  exact Option.not_isSome_iff_eq_none.mp fun held => Bool.false_ne_true (described held)

theorem countRepetitions_same (image : BitmapImage) (source : ImageSource) (known : Bool) :
    ∃ repetitionCount repetitionCountStatus, image.countRepetitions source known =
      { image with repetitionCount, repetitionCountStatus } := by
  rw [countRepetitions]
  split
  · exact ⟨_, _, rfl⟩
  · exact ⟨_, _, rfl⟩

theorem Consistent.advanceFrame (consistent : image.Consistent) (as : image.RecreatesAs source) :
    (image.advanceFrame source).2.2.Consistent := by
  have moved : ({ image with currentFrame := image.currentFrame + 1 } : BitmapImage).Consistent :=
    consistent.of_same rfl rfl rfl rfl
  have counted := moved.countFrames as
  rw [BitmapImage.advanceFrame]
  dsimp only
  obtain ⟨count, status, same⟩ := countRepetitions_same
    { ({ image with currentFrame := image.currentFrame + 1 } : BitmapImage).countFrames source with
      repetitionsComplete := (({ image with currentFrame := image.currentFrame + 1 } :
        BitmapImage).countFrames source).repetitionsComplete + 1 } source true
  rw [same]
  dsimp only
  split_ifs
  · exact counted.of_same rfl rfl rfl rfl
  · exact counted.of_same rfl rfl rfl rfl
  · exact counted

/-- Every native image that is cached fits the size it is counted for, native images that are created
again keep their bytes, and those that are cleared have the bytes of their size of the image. -/
def SizesFit (image : BitmapImage) : Event → Prop
  | .size _ | .currentFrameSize _ | .isSizeAvailable _ | .repetitionCount _ _ => True
  | .dataChanged _ _ => ClearsAs image.size image.frames.getLast?.toList
  | .frameCount source => image.RecreatesAs source
  | .frameAtIndex source index => image.QueriesAs source (fun data => data.frame.isNone) index
  | .frameIsCompleteAtIndex source index | .frameDurationAtIndex source index
  | .frameHasAlphaAtIndex source index =>
    image.QueriesAs source (fun data => !data.haveMetadata) index
  | .destroyDecodedData destroyAll => image.DestroysAs destroyAll
  | .resetAnimation =>
    image.isDestroyNecessary true = true → ClearsAs image.size image.frames
  | .internalAdvanceAnimation source skippingFrames paused =>
    (!skippingFrames && paused) = true ∨ image.RecreatesAs source ∧
      let (_, destroyAll, image) := image.advanceFrame source
      image.isDestroyNecessary destroyAll = true → image.DestroysAs destroyAll

theorem Consistent.step (consistent : image.Consistent) {event : Event}
    (fits : image.SizesFit event) : (image.step event).Consistent := by
  cases event with
  | size source =>
    rw [BitmapImage.step, takeSize]
    split
    · exact consistent.of_same rfl rfl rfl rfl
    · exact consistent
  | currentFrameSize source =>
    rw [BitmapImage.step, BitmapImage.currentFrameSize, takeSize]
    split_ifs
    · exact consistent.of_same rfl rfl rfl rfl
    · exact consistent
    · exact consistent
  | isSizeAvailable source => exact consistent.isSizeAvailable
  | dataChanged source allDataReceived => exact consistent.dataChanged allDataReceived fits
  | frameCount source => exact consistent.countFrames fits
  | frameAtIndex source index => exact consistent.cacheFrameWhen fits
  | frameIsCompleteAtIndex source index => exact consistent.cacheMetadataWhen fits
  | frameDurationAtIndex source index => exact consistent.cacheMetadataWhen fits
  | frameHasAlphaAtIndex source index => exact consistent.cacheMetadataWhen fits
  | repetitionCount source known =>
    obtain ⟨count, status, same⟩ := image.countRepetitions_same source known
    rw [BitmapImage.step, same]
    exact consistent.of_same rfl rfl rfl rfl
  | destroyDecodedData destroyAll => exact consistent.destroyDecodedData fits
  | resetAnimation =>
    have reset : ({ image with
        currentFrame := 0
        repetitionsComplete := 0
        animationFinished := false } : BitmapImage).Consistent :=
      consistent.of_same rfl rfl rfl rfl
    exact reset.destroyDecodedDataIfNecessary fits
  | internalAdvanceAnimation source skippingFrames paused =>
    rw [BitmapImage.step, BitmapImage.internalAdvanceAnimation]
    split
    · exact consistent
    · next goes =>
      obtain ⟨recreates, destroys⟩ := fits.resolve_left goes
      exact (consistent.advanceFrame recreates).destroyDecodedDataIfNecessary destroys

/-- In a run whose steps have sizes that fit, the decoded size and what was reported of it are in every
state what the frames hold, and no native image is overwritten. -/
theorem tracks_along (events : List Event)
    (fits : Along step (fun image event => image.SizesFit event) {} events) :
    Tracks {} ∧ Along step (fun image event => (image.step event).Tracks) {} events := by
  have start : Consistent {} := ⟨⟨⟨rfl, rfl, rfl⟩, rfl⟩, fun _ member => nomatch member⟩
  have all : Along step (fun _ _ => True) {} events := along_of_forall (fun _ _ => trivial) _ _
  have agree := along_iff Consistent
    (fun _ _ consistent fits => iff_true_intro (Consistent.step consistent fits).tracks)
    (fun _ _ consistent fits _ => Consistent.step consistent fits) _ _ start fits
  exact ⟨start.tracks, agree.mpr all⟩

end BitmapImage

/-- The decoder of an icon whose second frame is smaller than its first. -/
def icon : ImageSource where
  size := ⟨2, 2⟩
  frameCount := 2
  createFrameAtIndex index := some (if index = 0 then ⟨2, 2, .rgab5515, true⟩
    else ⟨1, 1, .rgab5515, true⟩)
  frameSizeAtIndex index := if index = 0 then ⟨2, 2⟩ else ⟨1, 1⟩

theorem tracks_along_icon : BitmapImage.Tracks {} ∧
    Along BitmapImage.step (fun image event => (image.step event).Tracks) {}
      [.dataChanged icon true, .size icon, .frameAtIndex icon 0, .frameAtIndex icon 1] := by
  have fits : ∀ image : BitmapImage, ∀ index, image.size = ⟨2, 2⟩ →
      BitmapImage.heldBytes image.frames ≤ 8 → image.CachesAs icon index := by
    intro image index size small
    cases index with
    | zero => exact ⟨by rw [size]; decide, by simp [NativeImage.bytes, NativeImage.bytesPerPixel]; omega⟩
    | succ index =>
      have later : index + 1 ≠ 0 := Nat.succ_ne_zero index
      have sized : icon.frameSizeAtIndex (index + 1) = ⟨1, 1⟩ := by simp [icon]
      refine ⟨?_, by simp [NativeImage.bytes, NativeImage.bytesPerPixel]; omega⟩
      rw [if_pos later, if_neg later, sized]
      decide
  refine BitmapImage.tracks_along _ ⟨⟨rfl, by decide⟩, trivial, ⟨?_, ?_⟩, ⟨?_, ?_⟩, trivial⟩
  · intro _ _ index cached frame held
    cases held
  · exact fun _ _ => fits _ _ rfl (by decide)
  · intro counted
    cases counted
  · exact fun _ _ => fits _ _ rfl (by decide)

/-- When its frames are cleared, the small one counts for as many bytes as the large one. -/
theorem not_tracks : ¬Along BitmapImage.step (fun image event => (image.step event).Tracks) {}
    [.dataChanged icon true, .size icon, .frameAtIndex icon 0, .frameAtIndex icon 1,
      .destroyDecodedData true] := by
  intro along
  have counted := along.2.2.2.2.1.counts.decodedSize
  revert counted
  decide

end WkcBrowser.Graphics
