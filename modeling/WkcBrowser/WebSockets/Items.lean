import WkcBrowser.Lib.Incremental
import WkcBrowser.WebSockets.Handshakes
import WkcBrowser.WebSockets.WebSocketChannel

/-! What a server sends, as a reader of a growing input: the handshake, then the frames. What happens to the
client is the item; a failure ends the reading. -/

namespace WkcBrowser.WebSockets

open Wtf Lib.Incremental

inductive Phase where
  | handshake
  | frames
  | beyond
deriving DecidableEq

section
variable (side : ClientSide)

def handshakeItem (input : List Byte) : Option (List Happening × Phase × Nat) :=
  match ({} : WebSocketHandshake).readServerHandshake side input 0 with
  | none => none
  | some read =>
    if read.outside ∨ read.headerLength ≤ 0 then none
    else if read.handshake.mode = .connected then
      some ([.notified .didConnect], .frames, read.headerLength.toNat)
    else some ([.failed], .beyond, 0)

def messageItem : Option (List Byte) → List Happening
  | none => []
  | some bytes => [.notified (.didReceiveMessage (side.decode bytes))]

def frameItem : List Byte → Option (List Happening × Phase × Nat)
  | [] => none
  | frameByte :: p =>
    match readFrame 0 frameByte p with
    | .overflow => some ([.failed], .beyond, 0)
    | .frame message rest => some (messageItem side message, .frames, p.length + 1 - rest.length)
    | .wild | .incomplete => none

def nextItem : Reader Phase Byte (List Happening)
  | .handshake => handshakeItem side
  | .frames => frameItem side
  | .beyond => fun _ => none

theorem nextItem_frames (frameByte : Byte) (p : List Byte) :
    nextItem side .frames (frameByte :: p) =
      match readFrame 0 frameByte p with
      | .overflow => some ([.failed], .beyond, 0)
      | .frame message rest => some (messageItem side message, .frames, p.length + 1 - rest.length)
      | .wild | .incomplete => none := rfl

end

/-- The handshake is not there yet. -/
def Waits (side : ClientSide) (handshake : WebSocketHandshake) (buffer : List Byte) : Prop :=
  ∃ headerLength ≤ 0, ∃ message, ∀ beyond, handshake.readServerHandshake side buffer beyond =
    some ⟨{ handshake with mode := .incomplete }, headerLength, message, false⟩

/-- The handshake is there, and stays the same when more arrives. -/
def Settles (side : ClientSide) (handshake : WebSocketHandshake) (buffer : List Byte)
    (result : WebSocketHandshake) (taken : Nat) : Prop :=
  taken ≤ buffer.length ∧ ∀ more beyond, ∃ read,
    handshake.readServerHandshake side (buffer ++ more) beyond = some read ∧ read.outside = false ∧
    read.handshake = result ∧ 0 < read.headerLength ∧
    (result.mode = .connected → read.headerLength = taken)

section
variable {side : ClientSide} {handshake : WebSocketHandshake} {buffer : List Byte}

theorem extractResponseCode_append {code : List Byte} (more : List Byte)
    (read : extractResponseCode buffer = some code) :
    extractResponseCode (buffer ++ more) = some code := by
  unfold extractResponseCode at read ⊢
  by_cases line : lineFeed ∈ buffer
  · have ends : (buffer ++ more).takeWhile (fun c => decide (c ≠ lineFeed)) =
        buffer.takeWhile fun c => decide (c ≠ lineFeed) := by
      obtain ⟨before, after, rfl, clean⟩ := List.eq_append_cons_of_mem line
      have all : ∀ c ∈ before, decide (c ≠ lineFeed) = true :=
        fun c inside => decide_eq_true fun same => clean (same ▸ inside)
      rw [List.append_assoc, List.takeWhile_append_of_pos all, List.takeWhile_append_of_pos all,
        List.cons_append, List.takeWhile_cons_of_neg (by simp), List.takeWhile_cons_of_neg (by simp)]
    rw [if_neg (not_not.mpr line)] at read
    rw [if_neg (not_not.mpr (List.mem_append_left _ line)), ends]
    exact read
  · rw [if_pos line] at read
    cases read

/-- A handshake that is read inside the buffer is there or is not. -/
theorem waits_or_settles (handshake : WebSocketHandshake) (inside : HandshakeInside side buffer) :
    Waits side handshake buffer ∨ ∃ result taken, Settles side handshake buffer result taken := by
  by_cases switching : ∃ p, buffer = webSocketServerHandshakeHeader ++ p
  · obtain ⟨p, rfl⟩ := switching
    obtain short | ⟨q, rfl, short | ⟨fields, rfl, lines, waiting⟩⟩ := inside p rfl
    · refine .inl ⟨0, by decide, none, fun beyond => ?_⟩
      rw [WebSocketHandshake.readServerHandshake_switching, if_pos short]
    · refine .inl ⟨-1, by decide, none, fun beyond => ?_⟩
      have one_more : (q ++ [beyond]).length = q.length + 1 := by
        rw [List.length_append, List.length_singleton]
      rw [WebSocketHandshake.readServerHandshake_switching,
        if_neg (by rw [List.length_append]; omega), List.append_assoc, List.take_left,
        if_neg (by simp), List.drop_left]
      dsimp only
      rw [one_more, if_pos short, decide_eq_false (by rw [List.length_append]; omega)]
    · by_cases found : BlankLineIn fields
      · obtain ⟨headers, used, rest, rfl, all⟩ := WebSocketHandshake.readFields_read
          { handshake with mode := .incomplete } found (lines found)
        refine .inr ⟨((({ handshake with mode := .incomplete } : WebSocketHandshake).processHeaders
          headers).checkResponseHeaders side).1, (webSocketServerHandshakeHeader ++ (webSocketUpgradeHeader ++
          (webSocketConnectionHeader ++ used))).length, ?_, fun more beyond => ?_⟩
        · simp only [List.length_append]
          omega
        · have result := all (webSocketServerHandshakeHeader ++ (webSocketUpgradeHeader ++
            (webSocketConnectionHeader ++ (used ++ rest ++ more)))).length more beyond
          rw [← WebSocketHandshake.readServerHandshake_fields] at result
          simp only [List.append_assoc] at result ⊢
          refine ⟨_, result, rfl, rfl, ?_, fun _ => ?_⟩
          · dsimp only
            simp only [List.length_append]
            have some_ : 0 < webSocketServerHandshakeHeader.length := by decide
            omega
          · dsimp only
            simp only [List.length_append]
            omega
      · obtain ⟨some_, uncut⟩ := waiting found
        refine .inl ⟨-1, by decide, none, fun beyond => ?_⟩
        rw [WebSocketHandshake.readServerHandshake_fields]
        exact WebSocketHandshake.readFields_waits found some_ uncut _ beyond
  · by_cases short : buffer.length < webSocketServerHandshakeHeader.length
    · refine .inl ⟨-1, by decide, none, fun beyond => ?_⟩
      rw [WebSocketHandshake.readServerHandshake_other switching, if_pos short]
    · cases coded : extractResponseCode buffer with
      | none =>
        refine .inl ⟨-1, by decide, some (widen (ascii "Short server handshake: " ++ buffer)),
          fun beyond => ?_⟩
        rw [WebSocketHandshake.readServerHandshake_other switching, if_neg short,
          WebSocketHandshake.readResponseCode, coded]
      | some code =>
        refine .inr ⟨{ handshake with mode := .failed }, 0, Nat.zero_le _, fun more beyond => ?_⟩
        have other : ¬∃ p, buffer ++ more = webSocketServerHandshakeHeader ++ p := by
          rintro ⟨p, split⟩
          obtain ⟨q, whole, -⟩ | ⟨q, whole, -⟩ := List.append_eq_append_iff.mp split
          · rw [whole, List.length_append] at short
            obtain rfl : q = [] := List.eq_nil_of_length_eq_zero (by omega)
            exact switching ⟨[], by rw [whole, List.append_nil, List.append_nil]⟩
          · exact switching ⟨q, whole⟩
        rw [WebSocketHandshake.readServerHandshake_other other,
          if_neg (by rw [List.length_append]; omega), WebSocketHandshake.readResponseCode,
          extractResponseCode_append more coded]
        refine ⟨_, rfl, rfl, rfl, ?_, nofun⟩
        have some_ : 0 < webSocketServerHandshakeHeader.length := by decide
        dsimp only
        rw [List.length_append]
        omega

theorem handshakeItem_waits (waits : Waits side {} buffer) : handshakeItem side buffer = none := by
  obtain ⟨headerLength, short, message, all⟩ := waits
  unfold handshakeItem
  rw [all 0]
  exact if_pos (.inr short)

/-- The item of a handshake that is there. -/
theorem handshakeItem_settles {result : WebSocketHandshake} {taken : Nat}
    (settles : Settles side {} buffer result taken) (more : List Byte) :
    handshakeItem side (buffer ++ more) = some
      (if result.mode = .connected then ([.notified .didConnect], .frames, taken)
      else ([.failed], .beyond, 0)) := by
  obtain ⟨read, found, inside, handshake, long, length⟩ := settles.2 more 0
  unfold handshakeItem
  rw [found]
  dsimp only
  rw [if_neg (by
    rw [inside, not_or]
    exact ⟨Bool.false_ne_true, Int.not_le.mpr long⟩), handshake]
  by_cases connected : result.mode = .connected
  · rw [if_pos connected, if_pos connected, length connected]
    rfl
  · rw [if_neg connected, if_neg connected]

/-- A handshake that gives an item is read inside the buffer. -/
theorem settles_of_handshakeItem {item : List Happening × Phase × Nat}
    (found : handshakeItem side buffer = some item) :
    ∃ result taken, Settles side {} buffer result taken := by
  have inside : HandshakeInside side buffer := by
    rw [← WebSocketHandshake.readServerHandshake_iff {} buffer 0]
    unfold handshakeItem at found
    cases read : ({} : WebSocketHandshake).readServerHandshake side buffer 0 with
    | none =>
      rw [read] at found
      cases found
    | some result =>
      rw [read] at found
      dsimp only at found
      by_cases bad : result.outside = true ∨ result.headerLength ≤ 0
      · rw [if_pos bad] at found
        cases found
      · exact ⟨result, rfl, eq_false_of_ne_true fun outside => bad (.inl outside)⟩
  refine (waits_or_settles {} inside).resolve_left fun waits => ?_
  rw [handshakeItem_waits waits] at found
  cases found

end

/-! Frames. -/

/-- A length that ends before the data does. -/
theorem readLength_append {length length' : Nat} {p rest : List Byte} (more : List Byte)
    (read : readLength length p = some (length', rest)) (left : rest ≠ []) :
    readLength length (p ++ more) = some (length', rest ++ more) := by
  induction p generalizing length with
  | nil =>
    cases read
    exact absurd rfl left
  | cons msgByte p ih =>
    rw [List.cons_append]
    unfold readLength at read ⊢
    by_cases beyond : length > (2 ^ 31 - 1) / 128
    · rw [if_pos beyond] at read
      cases read
    · rw [if_neg beyond] at read ⊢
      dsimp only at read ⊢
      by_cases last : msgByte &&& 0x80 = 0
      · rw [if_pos last] at read ⊢
        cases read
        rfl
      · rw [if_neg last] at read ⊢
        exact ih read

theorem readLength_overflow {length : Nat} {p : List Byte} (more : List Byte)
    (read : readLength length p = none) : readLength length (p ++ more) = none := by
  induction p generalizing length with
  | nil => cases read
  | cons msgByte p ih =>
    rw [List.cons_append]
    unfold readLength at read ⊢
    by_cases beyond : length > (2 ^ 31 - 1) / 128
    · rw [if_pos beyond]
    · rw [if_neg beyond] at read ⊢
      dsimp only at read ⊢
      by_cases last : msgByte &&& 0x80 = 0
      · rw [if_pos last] at read
        cases read
      · rw [if_neg last] at read ⊢
        exact ih read

theorem low_bits_lt (msgByte : Byte) : (msgByte &&& 0x7f).toNat < 128 := by
  rw [UInt8.toNat_and]
  exact Nat.lt_of_le_of_lt Nat.and_le_right (by decide)

/-- Every length fits in an `int`. -/
theorem readLength_lt {length length' : Nat} {p rest : List Byte} (small : length < 2 ^ 31)
    (read : readLength length p = some (length', rest)) : length' < 2 ^ 31 := by
  induction p generalizing length with
  | nil =>
    cases read
    exact small
  | cons msgByte p ih =>
    unfold readLength at read
    by_cases beyond : length > (2 ^ 31 - 1) / 128
    · rw [if_pos beyond] at read
      cases read
    · rw [if_neg beyond] at read
      dsimp only at read
      have low := low_bits_lt msgByte
      have next : length * 128 + (msgByte &&& 0x7f).toNat < 2 ^ 31 := by omega
      by_cases last : msgByte &&& 0x80 = 0
      · rw [if_pos last] at read
        cases read
        exact next
      · rw [if_neg last] at read
        exact ih next read

/-- A length frame does not reach beyond the end of the address space. -/
def LengthFits (end_ : Nat) (frameByte : Byte) (p : List Byte) : Prop :=
  frameByte &&& 0x80 = 0x80 → ∀ length rest, readLength 0 p = some (length, rest) →
    end_ - rest.length + length < 2 ^ 32

theorem lengthFits_zero (frameByte : Byte) (p : List Byte) : LengthFits 0 frameByte p := by
  intro _ length rest read
  have small := readLength_lt (Nat.two_pow_pos 31) read
  omega

theorem readFrame_wild_iff {end_ : Nat} {frameByte : Byte} {p : List Byte} :
    readFrame end_ frameByte p = .wild ↔ ¬LengthFits end_ frameByte p := by
  unfold readFrame LengthFits
  by_cases counted : frameByte &&& 0x80 = 0x80
  · rw [if_pos counted]
    cases read : readLength 0 p with
    | none => simp [counted]
    | some pair =>
      obtain ⟨length, rest⟩ := pair
      dsimp only
      by_cases far : 2 ^ 32 ≤ end_ - rest.length + length
      · rw [if_pos far]
        refine iff_of_true rfl fun fits => ?_
        have near := fits counted length rest rfl
        omega
      · rw [if_neg far]
        refine iff_of_false (by split_ifs <;> rintro ⟨⟩) (not_not.mpr ?_)
        rintro _ _ _ ⟨⟩
        omega
  · rw [if_neg counted]
    refine iff_of_false (by split <;> rintro ⟨⟩) (not_not.mpr fun counted' => absurd counted' counted)

/-- The address of the end does not matter otherwise. -/
theorem readFrame_fits {end_ : Nat} {frameByte : Byte} {p : List Byte}
    (fits : LengthFits end_ frameByte p) : readFrame end_ frameByte p = readFrame 0 frameByte p := by
  unfold readFrame
  by_cases counted : frameByte &&& 0x80 = 0x80
  · rw [if_pos counted, if_pos counted]
    cases read : readLength 0 p with
    | none => rfl
    | some pair =>
      obtain ⟨length, rest⟩ := pair
      have near := fits counted length rest read
      have near' := lengthFits_zero frameByte p counted length rest read
      dsimp only
      rw [if_neg (Nat.not_le.mpr near), if_neg (Nat.not_le.mpr near')]
  · rw [if_neg counted, if_neg counted]

/-- A frame, or an overflow, does not change when more arrives. -/
theorem readFrame_append (frameByte : Byte) (p more : List Byte) :
    (readFrame 0 frameByte p = .overflow → readFrame 0 frameByte (p ++ more) = .overflow) ∧
      ∀ message rest, readFrame 0 frameByte p = .frame message rest →
        readFrame 0 frameByte (p ++ more) = .frame message (rest ++ more) := by
  unfold readFrame
  by_cases counted : frameByte &&& 0x80 = 0x80
  · simp only [if_pos counted]
    cases read : readLength 0 p with
    | none =>
      rw [readLength_overflow more read]
      refine ⟨fun _ => rfl, ?_⟩
      rintro _ _ ⟨⟩
    | some pair =>
      obtain ⟨length, p'⟩ := pair
      have near := lengthFits_zero frameByte p counted length p' read
      dsimp only
      rw [if_neg (Nat.not_le.mpr near)]
      by_cases whole : length < p'.length
      · rw [if_pos whole]
        have left : p' ≠ [] := by
          rintro rfl
          exact absurd whole (Nat.not_lt_zero _)
        rw [readLength_append more read left]
        dsimp only
        have small := readLength_lt (Nat.two_pow_pos 31) read
        rw [if_neg (by omega), if_pos (by rw [List.length_append]; omega),
          List.drop_append_of_le_length (Nat.le_of_lt whole)]
        constructor
        · rintro ⟨⟩
        · rintro message rest ⟨⟩
          rfl
      · rw [if_neg whole]
        constructor
        · rintro ⟨⟩
        · rintro _ _ ⟨⟩
  · simp only [if_neg counted]
    cases left : p.dropWhile fun c => decide (c ≠ 0xff) with
    | nil =>
      constructor
      · rintro ⟨⟩
      · rintro _ _ ⟨⟩
    | cons c rest =>
      have ends : 0xff ∈ p := by
        by_contra absent
        have all : ∀ c ∈ p, decide (c ≠ 0xff) = true :=
          fun c inside => decide_eq_true fun same => absent (same ▸ inside)
        rw [List.dropWhile_eq_nil_iff.mpr all] at left
        cases left
      obtain ⟨before, after, rfl, clean⟩ := List.eq_append_cons_of_mem ends
      have all : ∀ c ∈ before, decide (c ≠ 0xff) = true :=
        fun c inside => decide_eq_true fun same => clean (same ▸ inside)
      have dropped : ∀ q : List Byte,
          (before ++ 0xff :: q).dropWhile (fun c => decide (c ≠ 0xff)) = 0xff :: q := by
        intro q
        rw [List.dropWhile_append_of_pos all, List.dropWhile_cons_of_neg (by simp)]
      have taken : ∀ q : List Byte,
          (before ++ 0xff :: q).takeWhile (fun c => decide (c ≠ 0xff)) = before := by
        intro q
        rw [List.takeWhile_append_of_pos all, List.takeWhile_cons_of_neg (by simp), List.append_nil]
      rw [dropped] at left
      cases left
      rw [List.append_assoc, List.cons_append, dropped, taken, taken]
      constructor
      · rintro ⟨⟩
      · rintro message rest ⟨⟩
        rfl

variable {side : ClientSide}

theorem steady_nextItem : Steady (nextItem side) where
  within := by
    intro s input item s' taken found
    cases s with
    | handshake =>
      obtain ⟨result, taken', settles⟩ := settles_of_handshakeItem found
      have same := handshakeItem_settles settles []
      rw [List.append_nil] at same
      have pair := found.symm.trans same
      split_ifs at pair
      · cases pair
        exact settles.1
      · cases pair
        exact Nat.zero_le _
    | frames =>
      cases input with
      | nil => cases found
      | cons frameByte p =>
        change frameItem side (frameByte :: p) = _ at found
        unfold frameItem at found
        dsimp only at found
        cases read : readFrame 0 frameByte p with
        | overflow =>
          rw [read] at found
          cases found
          exact Nat.zero_le _
        | wild | incomplete =>
          rw [read] at found
          cases found
        | frame message rest =>
          rw [read] at found
          cases found
          exact Nat.sub_le _ _
    | beyond => cases found
  stable := by
    intro s input item s' taken found more
    cases s with
    | handshake =>
      obtain ⟨result, taken', settles⟩ := settles_of_handshakeItem found
      have same := handshakeItem_settles settles []
      rw [List.append_nil] at same
      rw [← found]
      exact (handshakeItem_settles settles more).trans same.symm
    | frames =>
      cases input with
      | nil => cases found
      | cons frameByte p =>
        change frameItem side (frameByte :: p) = _ at found
        change frameItem side (frameByte :: (p ++ more)) = _
        unfold frameItem at found ⊢
        dsimp only at found ⊢
        obtain ⟨overflows, frames⟩ := readFrame_append frameByte p more
        cases read : readFrame 0 frameByte p with
        | overflow =>
          rw [read] at found
          rw [overflows read]
          exact found
        | wild | incomplete =>
          rw [read] at found
          cases found
        | frame message rest =>
          rw [read] at found
          rw [frames message rest read, ← found]
          simp only [List.length_append]
          congr 3
          omega
    | beyond => cases found

end WkcBrowser.WebSockets
