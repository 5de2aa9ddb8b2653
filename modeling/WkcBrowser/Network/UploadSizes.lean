import Mathlib.Data.Int.ModEq
import WkcBrowser.Network.FormDataStream

/-! What `setupPUT` and `setupPOST` announce of the body of a request, and what curl gets of it. -/

namespace WkcBrowser.Network

open Lib.Delivery Wtf FormDataStream

/-- The sizes in bytes of `curl_off_t`: the one that is compiled in, and the one that curl has. -/
structure Curl where
  offT : Nat
  largeFile : Bool

def Curl.expectedSizeOfCurlOffT (curl : Curl) : Nat := if curl.largeFile then 8 else 4

def Curl.maxCurlOffT (curl : Curl) : Nat := 2 ^ (curl.expectedSizeOfCurlOffT * 8 - 1) - 1

/-- Where curl takes the body from. -/
inductive Body where
  | none
  | postFields (bytes : List Byte)
  | readFunction

def getFileSize (files : Files) (filename : Text) : Option Nat :=
  if filename = [] then none else (files filename).map (·.length)

namespace Upload

variable (upload : Upload) (curl : Curl)

/-- The loop over the elements. Without a size the transfer is chunked. -/
def totalSize : List FormDataElement → Option Nat
  | [] => some 0
  | .encodedFile filename :: rest =>
    match getFileSize upload.files filename with
    | some fileSizeResult =>
      if fileSizeResult > curl.maxCurlOffT then none else (totalSize rest).map (fileSizeResult + ·)
    | none => totalSize rest
  | .data bytes :: rest => (totalSize rest).map (bytes.length + ·)

/-- The byte blocks without the files. -/
def flatten : List Byte :=
  upload.elements.flatMap fun element =>
    match element with
    | .data bytes => bytes
    | .encodedFile _ => []

/-- The read callback is called as long as there are more elements, whatever a read returns. -/
def Hands (sizes : Nat → Nat) (whole : List Byte) : Body → Prop
  | .none => whole = []
  | .postFields bytes => whole = bytes
  | .readFunction => Delivers (read upload 1) (hasMoreElements upload) sizes {} whole

/-- The size of the body is one that can be announced. -/
def Fits (isPost : Bool) : Prop :=
  if isPost = true ∧ upload.elements.length = 1 then upload.body.length < 2 ^ 31
  else upload.totalSize curl upload.elements = none ∨
    upload.body.length < 2 ^ (8 * min curl.offT curl.expectedSizeOfCurlOffT - 1)

end Upload

namespace Upload

section
variable {upload : Upload} {curl : Curl}

end

end Upload

open Upload

end WkcBrowser.Network
