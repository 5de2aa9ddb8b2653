import Mathlib.Data.BitVec
import Mathlib.Data.List.Basic

/-! WebCore's `BitmapImage`, its frames, and the size it reports to the `CachedImage` it is for. -/

namespace WkcBrowser.Graphics

structure IntSize where
  width : Int := 0
  height : Int := 0
deriving DecidableEq

inductive ColorType where
  | argb8888
  | rgab5515
  | rgab5515Mask
  | argb1232
deriving DecidableEq

/-- What an `ImageWKC` says of the buffer it is for. -/
structure NativeImage where
  width : Nat
  height : Nat
  type : ColorType
  hasBitmap : Bool := true
deriving DecidableEq

namespace NativeImage

variable (image : NativeImage)

def bytesPerPixel : Nat :=
  if image.hasBitmap then
    match image.type with
    | .argb8888 => 4
    | .rgab5515 => 2
    | .rgab5515Mask => 3
    | .argb1232 => 1
  else 0

def bytes : Nat := image.width * image.height * image.bytesPerPixel

end NativeImage

def frameBytes (frameSize : IntSize) (image : Option NativeImage) : Int :=
  let bpp : Nat := image.elim 0 NativeImage.bytesPerPixel
  (frameSize.width * frameSize.height * bpp).bmod (2 ^ 32)

structure FrameData where
  frame : Option NativeImage := none
  haveMetadata : Bool := false
  isComplete : Bool := false
  /-- In milliseconds. -/
  duration : Nat := 0
  hasAlpha : Bool := true
deriving DecidableEq

namespace FrameData

def clear (data : FrameData) (clearMetadata : Bool) : FrameData × Bool :=
  ({ data with
      frame := none
      haveMetadata := data.haveMetadata && !clearMetadata }, data.frame.isSome)

/-- The bytes of the image that is held. -/
def heldBytes (data : FrameData) : Nat := data.frame.elim 0 NativeImage.bytes

end FrameData

/-- What the decoder answers during one call. -/
structure ImageSource where
  isSizeAvailable : Bool := true
  size : IntSize := {}
  frameCount : Nat := 1
  repetitionCount : Int := -2
  createFrameAtIndex : Nat → Option NativeImage := fun _ => none
  /-- The native image of the buffer of a frame, when there is a buffer. -/
  frameAtIndex : Nat → Option (Option NativeImage) := fun _ => none
  frameSizeAtIndex : Nat → IntSize := fun _ => size
  frameIsCompleteAtIndex : Nat → Bool := fun _ => true
  frameDurationAtIndex : Nat → Nat := fun _ => 0
  frameHasAlphaAtIndex : Nat → Bool := fun _ => false

inductive RepetitionCountStatus where
  | unknown
  | uncertain
  | certain
deriving DecidableEq

def cAnimationNone : Int := -2

def cLargeAnimationCutoff : Nat := 5242880

/-- The `CachedImage` of an image with all it was told. -/
structure CachedImage where
  decodedSize : BitVec 32 := 0
  deltas : List Int := []
deriving DecidableEq

def CachedImage.decodedSizeChanged (observer : CachedImage) (delta : Int) : CachedImage where
  decodedSize := observer.decodedSize + .ofInt 32 delta
  deltas := observer.deltas ++ [delta]

structure BitmapImage where
  size : IntSize := {}
  currentFrame : Nat := 0
  frames : List FrameData := []
  repetitionCount : Int := cAnimationNone
  repetitionCountStatus : RepetitionCountStatus := .unknown
  repetitionsComplete : Int := 0
  animationFinished : Bool := false
  allDataReceived : Bool := false
  haveSize : Bool := false
  sizeAvailable : Bool := false
  hasUniformFrameSize : Bool := true
  decodedSize : BitVec 32 := 0
  haveFrameCount : Bool := false
  frameCount : Nat := 0
  imageObserver : CachedImage := {}
  /-- Native images that were overwritten and not deleted. -/
  overwritten : List NativeImage := []
deriving DecidableEq

namespace BitmapImage

variable (image : BitmapImage) (source : ImageSource)

def addDecodedSize (deltaBytes : Int) : BitmapImage :=
  { image with decodedSize := image.decodedSize + .ofInt 32 deltaBytes }

def notifyObserver (deltaBytes : Int) : BitmapImage :=
  { image with imageObserver := image.imageObserver.decodedSizeChanged deltaBytes }

def destroyMetadataAndNotify (framesCleared : Int) : BitmapImage :=
  let deltaBytes := (-framesCleared).bmod (2 ^ 32)
  let image := image.addDecodedSize deltaBytes
  if deltaBytes ≠ 0 then image.notifyObserver deltaBytes else image

/-- The bytes that some frames are counted for when they are cleared. -/
def framesCleared (size : IntSize) : List FrameData → Int
  | [] => 0
  | data :: rest =>
    let framesize := frameBytes size data.frame
    ((if (data.clear false).2 then framesize else 0) + framesCleared size rest).bmod (2 ^ 32)

def destroyDecodedData (destroyAll : Bool) : BitmapImage :=
  let clearBeforeFrame := if destroyAll then image.frames.length else image.currentFrame
  let cleared := image.frames.take clearBeforeFrame
  let frames := cleared.map fun data : FrameData => (data.clear false).1
  { image with frames := frames ++ image.frames.drop clearBeforeFrame }.destroyMetadataAndNotify
    (framesCleared image.size cleared)

def totalBytes (size : IntSize) : List FrameData → Int
  | [] => 0
  | data :: rest => (frameBytes size data.frame + totalBytes size rest).bmod (2 ^ 32)

/-- The animation is large, or its first frame is missing when it starts again. -/
def isDestroyNecessary (destroyAll : Bool) : Bool :=
  let total := totalBytes image.size image.frames
  (BitVec.ofInt 32 total).toNat > cLargeAnimationCutoff ||
    (destroyAll && image.frames.head?.any fun data => data.frame.isNone)

def destroyDecodedDataIfNecessary (destroyAll : Bool) : BitmapImage :=
  if image.isDestroyNecessary destroyAll then image.destroyDecodedData destroyAll else image

def syncFrameData (index : Nat) (data : FrameData) : FrameData :=
  if data.frame.isNone then data
  else
    match source.frameAtIndex index with
    | some frame => { data with frame }
    | none => data

/-- `frameCount`, after which the count is in the state. -/
def countFrames : BitmapImage :=
  if image.haveFrameCount then image
  else
    let old := image.frameCount
    let image := { image with haveFrameCount := true, frameCount := source.frameCount }
    if old ≠ image.frameCount then
      { image with frames := image.frames.mapIdx (syncFrameData source) }
    else image

/-- `repetitionCount`, after which the count is in the state. -/
def countRepetitions (imageKnownToBeComplete : Bool) : BitmapImage :=
  if image.repetitionCountStatus = .unknown ∨
      (image.repetitionCountStatus = .uncertain ∧ imageKnownToBeComplete) then
    { image with
      repetitionCount := source.repetitionCount
      repetitionCountStatus :=
        if imageKnownToBeComplete ∨ source.repetitionCount = cAnimationNone then .certain
        else .uncertain }
  else image

def grow (numFrames : Nat) : BitmapImage :=
  { image with frames := image.frames ++ .replicate (numFrames - image.frames.length) {} }

def setFrame (index : Nat) (frame : Option NativeImage) : BitmapImage :=
  { image with
    overwritten := image.overwritten ++ (image.frames[index]?.bind FrameData.frame).toList
    frames := image.frames.modify index fun data => { data with frame } }

def setMetadata (index : Nat) : BitmapImage :=
  let image := { image with
    frames := image.frames.modify index fun data =>
      { data with haveMetadata := true, isComplete := source.frameIsCompleteAtIndex index } }
  let image := image.countRepetitions source false
  let image := if image.repetitionCount ≠ cAnimationNone then
      { image with
        frames := image.frames.modify index fun data =>
          { data with duration := source.frameDurationAtIndex index } }
    else image
  { image with
    frames := image.frames.modify index fun data =>
      { data with hasAlpha := source.frameHasAlphaAtIndex index } }

def cacheFrame (index : Nat) : BitmapImage :=
  let image := image.countFrames source
  let image := image.grow image.frameCount
  let frame := source.createFrameAtIndex index
  let image := image.setFrame index frame
  if frame.isNone then image.destroyDecodedData true
  else
    let image := image.setMetadata source index
    let frameSize := if index ≠ 0 then source.frameSizeAtIndex index else image.size
    let image :=
      if frameSize ≠ image.size then { image with hasUniformFrameSize := false } else image
    let deltaBytes := frameBytes frameSize frame
    (image.addDecodedSize deltaBytes).notifyObserver deltaBytes

/-- `size`, after which the size is in the state. -/
def takeSize : BitmapImage :=
  if image.sizeAvailable ∧ ¬image.haveSize then
    { image with size := source.size, haveSize := true }
  else image

def currentFrameSize : IntSize × BitmapImage :=
  if image.currentFrame = 0 ∨ image.hasUniformFrameSize then
    ((image.takeSize source).size, image.takeSize source)
  else (source.frameSizeAtIndex image.currentFrame, image)

def isSizeAvailable : Bool × BitmapImage :=
  if image.sizeAvailable then (true, image)
  else (source.isSizeAvailable, { image with sizeAvailable := source.isSizeAvailable })

def clearLast : List FrameData → List FrameData
  | [] => []
  | [data] => [(data.clear true).1]
  | data :: rest => data :: clearLast rest

def dataChanged (allDataReceived : Bool) : Bool × BitmapImage :=
  let clearedBytes : Int :=
    match image.frames.getLast? with
    | none => 0
    | some data => if (data.clear true).2 then frameBytes image.size data.frame else 0
  let image := { image with frames := clearLast image.frames }.destroyMetadataAndNotify clearedBytes
  { image with
    allDataReceived
    haveFrameCount := false
    hasUniformFrameSize := true }.isSizeAvailable source

/-- A query for a frame, which caches it when `missing` says so. -/
def cacheWhen (missing : FrameData → Bool) (index : Nat) : BitmapImage :=
  let image := image.countFrames source
  if index ≥ image.frameCount then image
  else if image.frames[index]?.all missing then image.cacheFrame source index
  else image

def frameAtIndex (index : Nat) : Option NativeImage × BitmapImage :=
  let image := image.cacheWhen source (fun data => data.frame.isNone) index
  (if index ≥ image.frameCount then none else image.frames[index]?.bind FrameData.frame, image)

def frameIsCompleteAtIndex (index : Nat) : Bool × BitmapImage :=
  let image := image.cacheWhen source (fun data => !data.haveMetadata) index
  (if index ≥ image.frameCount then true else image.frames[index]?.any FrameData.isComplete, image)

def frameDurationAtIndex (index : Nat) : Nat × BitmapImage :=
  let image := image.cacheWhen source (fun data => !data.haveMetadata) index
  (if index ≥ image.frameCount then 0 else image.frames[index]?.elim 0 FrameData.duration, image)

def frameHasAlphaAtIndex (index : Nat) : Bool × BitmapImage :=
  let image := image.cacheWhen source (fun data => !data.haveMetadata) index
  (if index ≥ image.frameCount then true else image.frames[index]?.any FrameData.hasAlpha, image)

def resetAnimation : BitmapImage :=
  { image with
    currentFrame := 0
    repetitionsComplete := 0
    animationFinished := false }.destroyDecodedDataIfNecessary true

/-- Whether the animation advanced, and whether all frames are to go when there are too many. -/
def advanceFrame : Bool × Bool × BitmapImage :=
  let image := { image with currentFrame := image.currentFrame + 1 }
  let image := image.countFrames source
  if image.currentFrame ≥ image.frameCount then
    let image := { image with repetitionsComplete := image.repetitionsComplete + 1 }
    let image := image.countRepetitions source true
    if image.repetitionCount ≠ 0 ∧ image.repetitionsComplete ≥ image.repetitionCount then
      (false, false, { image with
        animationFinished := true
        currentFrame := image.currentFrame - 1 })
    else (true, true, { image with currentFrame := 0 })
  else (true, false, image)

/-- `paused` is what the observer answers to `shouldPauseAnimation`. -/
def internalAdvanceAnimation (skippingFrames paused : Bool) : Bool × BitmapImage :=
  if !skippingFrames && paused then (false, image)
  else
    let (advancedAnimation, destroyAll, image) := image.advanceFrame source
    (advancedAnimation, image.destroyDecodedDataIfNecessary destroyAll)

inductive Event where
  | size (source : ImageSource)
  | currentFrameSize (source : ImageSource)
  | isSizeAvailable (source : ImageSource)
  | dataChanged (source : ImageSource) (allDataReceived : Bool)
  | frameCount (source : ImageSource)
  | frameAtIndex (source : ImageSource) (index : Nat)
  | frameIsCompleteAtIndex (source : ImageSource) (index : Nat)
  | frameDurationAtIndex (source : ImageSource) (index : Nat)
  | frameHasAlphaAtIndex (source : ImageSource) (index : Nat)
  | repetitionCount (source : ImageSource) (imageKnownToBeComplete : Bool)
  | destroyDecodedData (destroyAll : Bool)
  | resetAnimation
  | internalAdvanceAnimation (source : ImageSource) (skippingFrames paused : Bool)

def step : Event → BitmapImage
  | .size source => image.takeSize source
  | .currentFrameSize source => (image.currentFrameSize source).2
  | .isSizeAvailable source => (image.isSizeAvailable source).2
  | .dataChanged source allDataReceived => (image.dataChanged source allDataReceived).2
  | .frameCount source => image.countFrames source
  | .frameAtIndex source index => (image.frameAtIndex source index).2
  | .frameIsCompleteAtIndex source index => (image.frameIsCompleteAtIndex source index).2
  | .frameDurationAtIndex source index => (image.frameDurationAtIndex source index).2
  | .frameHasAlphaAtIndex source index => (image.frameHasAlphaAtIndex source index).2
  | .repetitionCount source known => image.countRepetitions source known
  | .destroyDecodedData destroyAll => image.destroyDecodedData destroyAll
  | .resetAnimation => image.resetAnimation
  | .internalAdvanceAnimation source skippingFrames paused =>
    (image.internalAdvanceAnimation source skippingFrames paused).2

end BitmapImage

end WkcBrowser.Graphics
