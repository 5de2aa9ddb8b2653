import WkcBrowser.WebSockets.HandshakeReads

/-! Handshakes that are read inside the buffer, as a whole. -/

namespace WkcBrowser.WebSockets

open Wtf

section
variable (side : ClientSide)

/-- The header fields are read inside the buffer. -/
def FieldsInside (p : List Byte) : Prop :=
  (BlankLineIn p → HeaderLines side p) ∧ (¬BlankLineIn p → p ≠ [] ∧ ¬BlankLineCut p)

/-- The handshake is read inside the buffer: where the server switches protocols, neither of the other two
lines lacks just its last byte or differs, and the header fields are read inside. -/
def HandshakeInside (buffer : List Byte) : Prop :=
  ∀ p, buffer = webSocketServerHandshakeHeader ++ p →
    p.length + 1 < webSocketUpgradeHeader.length ∨ ∃ q, p = webSocketUpgradeHeader ++ q ∧
      (q.length + 1 < webSocketConnectionHeader.length ∨ ∃ fields,
        q = webSocketConnectionHeader ++ fields ∧ FieldsInside side fields)

variable {side} {handshake : WebSocketHandshake}

theorem headerLines_iff {p : List Byte} : HeaderLines side p ↔
    ∃ headers rest, readHTTPHeaders side [] (.name []) p = .read headers rest := by
  rw [readHTTPHeaders_iff, expected_name]

namespace WebSocketHandshake

/-- Whole headers are read alike with anything behind them. -/
theorem readFields_read (handshake : WebSocketHandshake) {p : List Byte} (found : BlankLineIn p) (lines : HeaderLines side p) :
    ∃ headers used rest, p = used ++ rest ∧ ∀ len more beyond,
      handshake.readFields side len (p ++ more ++ [beyond]) = some
        { handshake := ((handshake.processHeaders headers).checkResponseHeaders side).1
          headerLength := len + 1 - (rest.length + more.length + 1 : Nat)
          message := ((handshake.processHeaders headers).checkResponseHeaders side).2
          outside := false } := by
  obtain ⟨headers, rest, read⟩ := headerLines_iff.mp lines
  obtain ⟨used, split, all⟩ := readHTTPHeaders_used read
  refine ⟨headers, used, rest, split, fun len more beyond => ?_⟩
  obtain ⟨before, after, clean, whole⟩ := found
  have longer : BlankLineIn (p ++ more) :=
    ⟨before, after ++ more, clean, by rw [whole, List.append_assoc]⟩
  unfold readFields
  rw [(findBlankLine_spec (p ++ more) beyond).1 longer]
  dsimp only
  have read' : readHTTPHeaders side [] (.name []) (p ++ more ++ [beyond]) =
      .read headers (rest ++ more ++ [beyond]) := by
    rw [split, List.append_assoc, List.append_assoc, all, List.append_assoc]
  have more_left : (rest ++ more ++ [beyond]).isEmpty = false := by simp
  rw [read']
  dsimp only
  rw [more_left, List.length_append, List.length_append]
  rfl

theorem readFields_waits {p : List Byte} (unfound : ¬BlankLineIn p) (some_ : p ≠ [])
    (uncut : ¬BlankLineCut p) (len : Nat) (beyond : Byte) :
    handshake.readFields side len (p ++ [beyond]) = some
      { handshake := { handshake with mode := .incomplete }, headerLength := -1 } := by
  unfold readFields
  rw [(findBlankLine_spec p beyond).2.2 unfound some_ uncut]
  rfl

theorem readFields_iff (len : Nat) (p : List Byte) (beyond : Byte) :
    (∃ read, handshake.readFields side len (p ++ [beyond]) = some read ∧ read.outside = false) ↔
      FieldsInside side p := by
  by_cases found : BlankLineIn p
  · have searched := (findBlankLine_spec p beyond).1 found
    constructor
    · rintro ⟨read, result, inside⟩
      refine ⟨fun _ => headerLines_iff.mpr ?_, fun unfound => absurd found unfound⟩
      unfold readFields at result
      rw [searched] at result
      dsimp only at result
      cases headers : readHTTPHeaders side [] (.name []) (p ++ [beyond]) with
      | failed message =>
        rw [headers] at result
        cases result
        cases inside
      | nullName =>
        rw [headers] at result
        cases result
      | read headers' rest =>
        obtain ⟨before, after, -, whole⟩ := found
        obtain ⟨used, split, all⟩ := readHTTPHeaders_used headers
        have far : (after ++ [beyond]).length ≤ rest.length := by
          rw [whole, List.append_assoc] at headers
          exact readHTTPHeaders_blank headers
        rw [List.length_append, List.length_singleton] at far
        obtain ⟨rest', last, rfl⟩ := List.eq_nil_or_concat rest |>.resolve_left (by
          rintro rfl
          simp at far)
        rw [List.concat_eq_append, ← List.append_assoc] at split
        obtain ⟨whole', -⟩ := List.append_inj' split rfl
        refine ⟨headers', rest', ?_⟩
        rw [whole']
        exact all rest'
    · rintro ⟨lines, -⟩
      obtain ⟨headers, used, rest, -, all⟩ := readFields_read handshake found (lines found)
      have whole := all len [] beyond
      rw [List.append_nil] at whole
      exact ⟨_, whole, rfl⟩
  · by_cases inside : p ≠ [] ∧ ¬BlankLineCut p
    · refine iff_of_true ⟨_, readFields_waits found inside.1 inside.2 len beyond, rfl⟩ ?_
      exact ⟨fun here => absurd here found, fun _ => inside⟩
    · have cut : p = [] ∨ BlankLineCut p := by
        rw [not_and_or, not_not, not_not] at inside
        exact inside
      have outside := (findBlankLine_spec p beyond).2.1 found cut
      refine iff_of_false ?_ fun fields => inside (fields.2 found)
      rintro ⟨read, result, within⟩
      unfold readFields at result
      dsimp only at result
      split_ifs at result
      · cases result
        rw [outside] at within
        cases within
      · cases headers : readHTTPHeaders side [] (.name []) (p ++ [beyond]) with
        | failed message =>
          rw [headers] at result
          cases result
          cases within
        | nullName =>
          rw [headers] at result
          cases result
        | read headers' rest =>
          rw [headers] at result
          cases result
          rw [outside] at within
          cases within

theorem eq_append_of_take {line buffer : List Byte} (same : buffer.take line.length = line) :
    ∃ p, buffer = line ++ p := by
  refine ⟨buffer.drop line.length, ?_⟩
  calc buffer = buffer.take line.length ++ buffer.drop line.length := (List.take_append_drop ..).symm
    _ = line ++ buffer.drop line.length := by rw [same]

/-- A server that does not switch protocols, or has not yet said so. -/
theorem readServerHandshake_other {buffer : List Byte}
    (other : ¬∃ p, buffer = webSocketServerHandshakeHeader ++ p) (beyond : Byte) :
    handshake.readServerHandshake side buffer beyond = some
      (if buffer.length < webSocketServerHandshakeHeader.length then
        ⟨{ handshake with mode := .incomplete }, -1, none, false⟩
      else { handshake with mode := .incomplete }.readResponseCode buffer) := by
  unfold readServerHandshake
  dsimp only
  by_cases short : buffer.length < webSocketServerHandshakeHeader.length
  · rw [if_pos short, if_pos short]
  · rw [if_neg short, if_neg short, if_pos fun same => other (eq_append_of_take same)]

theorem readServerHandshake_switching (p : List Byte) (beyond : Byte) :
    handshake.readServerHandshake side (webSocketServerHandshakeHeader ++ p) beyond =
      if p.length + 1 < webSocketUpgradeHeader.length then
        some ⟨{ handshake with mode := .incomplete }, 0, none, false⟩
      else if (p ++ [beyond]).take webSocketUpgradeHeader.length ≠ webSocketUpgradeHeader then
        some ⟨{ handshake with mode := .failed },
          webSocketServerHandshakeHeader.length + webSocketUpgradeHeader.length,
          some (widen (ascii "Bad Upgrade header: " ++ (p ++ [beyond]))), true⟩
      else
        let outside := decide (p.length + 1 = webSocketUpgradeHeader.length)
        let q := (p ++ [beyond]).drop webSocketUpgradeHeader.length
        if q.length < webSocketConnectionHeader.length then
          some ⟨{ handshake with mode := .incomplete }, -1, none, outside⟩
        else if q.take webSocketConnectionHeader.length ≠ webSocketConnectionHeader then
          some ⟨{ handshake with mode := .failed },
            webSocketServerHandshakeHeader.length + webSocketUpgradeHeader.length +
              webSocketConnectionHeader.length,
            some (widen (ascii "Bad Connection header: " ++ q)), true⟩
        else
          let outside := outside || decide (q.length = webSocketConnectionHeader.length)
          (readFields side { handshake with mode := .incomplete }
            (webSocketServerHandshakeHeader.length + p.length)
            (q.drop webSocketConnectionHeader.length)).map fun read =>
              { read with outside := outside || read.outside } := by
  unfold readServerHandshake
  dsimp only
  rw [if_neg (by rw [List.length_append]; omega), List.take_left, if_neg (by simp),
    List.append_assoc, List.drop_left, List.length_append, List.length_append]
  rfl

/-- A line that is there with the byte behind the buffer but not without it lacks its last byte. -/
theorem length_of_cut {line p : List Byte} {beyond : Byte} (absent : ¬∃ q, p = line ++ q)
    (same : (p ++ [beyond]).take line.length = line) : p.length + 1 = line.length := by
  obtain ⟨q, split⟩ := eq_append_of_take same
  obtain rfl | ⟨q', last, rfl⟩ := List.eq_nil_or_concat q
  · have lengths := congrArg List.length split
    rw [List.length_append, List.length_singleton, List.append_nil] at lengths
    exact lengths
  · rw [List.concat_eq_append, ← List.append_assoc] at split
    obtain ⟨whole, -⟩ := List.append_inj' split rfl
    exact absurd ⟨q', whole⟩ absent

/-- The header fields behind the three lines. -/
theorem readServerHandshake_fields (p : List Byte) (beyond : Byte) :
    handshake.readServerHandshake side (webSocketServerHandshakeHeader ++
        (webSocketUpgradeHeader ++ (webSocketConnectionHeader ++ p))) beyond =
      readFields side { handshake with mode := .incomplete }
        (webSocketServerHandshakeHeader ++
          (webSocketUpgradeHeader ++ (webSocketConnectionHeader ++ p))).length (p ++ [beyond]) := by
  rw [readServerHandshake_switching, if_neg (by rw [List.length_append]; omega), List.append_assoc,
    List.take_left, if_neg (by simp), List.drop_left]
  dsimp only
  rw [if_neg (by simp only [List.length_append]; omega), List.append_assoc, List.take_left,
    if_neg (by simp), List.drop_left, List.length_append]
  have apart : decide (webSocketUpgradeHeader.length + (webSocketConnectionHeader ++ p).length + 1 =
      webSocketUpgradeHeader.length) = false := by
    rw [decide_eq_false_iff_not]
    omega
  have apart' : decide ((webSocketConnectionHeader ++ (p ++ [beyond])).length =
      webSocketConnectionHeader.length) = false := by
    rw [decide_eq_false_iff_not, List.length_append, List.length_append, List.length_singleton]
    omega
  rw [apart, apart']
  simp only [List.length_append]
  exact Option.map_id' ..

/-- Exactly these handshakes are read inside the buffer. -/
theorem readServerHandshake_iff (handshake : WebSocketHandshake) (buffer : List Byte) (beyond : Byte) :
    (∃ read, handshake.readServerHandshake side buffer beyond = some read ∧ read.outside = false) ↔
      HandshakeInside side buffer := by
  by_cases switching : ∃ p, buffer = webSocketServerHandshakeHeader ++ p
  · obtain ⟨p, rfl⟩ := switching
    have only : HandshakeInside side (webSocketServerHandshakeHeader ++ p) ↔
        p.length + 1 < webSocketUpgradeHeader.length ∨ ∃ q, p = webSocketUpgradeHeader ++ q ∧
          (q.length + 1 < webSocketConnectionHeader.length ∨ ∃ fields,
            q = webSocketConnectionHeader ++ fields ∧ FieldsInside side fields) := by
      constructor
      · exact fun inside => inside p rfl
      · intro inside p' split
        rw [← List.append_cancel_left split]
        exact inside
    rw [only]
    by_cases short : p.length + 1 < webSocketUpgradeHeader.length
    · rw [readServerHandshake_switching, if_pos short]
      exact iff_of_true ⟨_, rfl, rfl⟩ (.inl short)
    · by_cases upgrade : ∃ q, p = webSocketUpgradeHeader ++ q
      · obtain ⟨q, rfl⟩ := upgrade
        have one_more : (q ++ [beyond]).length = q.length + 1 := by
          rw [List.length_append, List.length_singleton]
        by_cases short' : q.length + 1 < webSocketConnectionHeader.length
        · rw [readServerHandshake_switching, if_neg short, List.append_assoc, List.take_left,
            if_neg (by simp), List.drop_left]
          dsimp only
          rw [one_more, if_pos short']
          refine iff_of_true ⟨_, rfl, ?_⟩ (.inr ⟨q, rfl, .inl short'⟩)
          rw [decide_eq_false_iff_not, List.length_append]
          omega
        · by_cases connection : ∃ fields, q = webSocketConnectionHeader ++ fields
          · obtain ⟨fields, rfl⟩ := connection
            rw [readServerHandshake_fields, readFields_iff]
            constructor
            · exact fun inside => .inr ⟨_, rfl, .inr ⟨fields, rfl, inside⟩⟩
            · rintro (short | ⟨q', split, short'' | ⟨fields', split', inside⟩⟩)
              · omega
              · rw [← List.append_cancel_left split] at short''
                exact absurd short'' short'
              · rw [← List.append_cancel_left split] at split'
                rw [List.append_cancel_left split']
                exact inside
          · refine iff_of_false ?_ ?_
            · rintro ⟨read, result, inside⟩
              rw [readServerHandshake_switching, if_neg short, List.append_assoc, List.take_left,
                if_neg (by simp), List.drop_left] at result
              dsimp only at result
              rw [one_more, if_neg short'] at result
              by_cases same : (q ++ [beyond]).take webSocketConnectionHeader.length =
                  webSocketConnectionHeader
              · have cut := length_of_cut connection same
                rw [if_neg (not_not.mpr same), decide_eq_true cut, Bool.or_true] at result
                obtain ⟨read', -, rfl⟩ := Option.map_eq_some_iff.mp result
                cases inside
              · rw [if_pos same] at result
                cases result
                cases inside
            · rintro (short | ⟨q', split, short'' | ⟨fields', split', inside⟩⟩)
              · omega
              · rw [← List.append_cancel_left split] at short''
                exact absurd short'' short'
              · rw [← List.append_cancel_left split] at split'
                exact connection ⟨fields', split'⟩
      · refine iff_of_false ?_ ?_
        · rintro ⟨read, result, inside⟩
          rw [readServerHandshake_switching, if_neg short] at result
          by_cases same : (p ++ [beyond]).take webSocketUpgradeHeader.length = webSocketUpgradeHeader
          · have cut := length_of_cut upgrade same
            rw [if_neg (not_not.mpr same)] at result
            dsimp only at result
            have dropped : (p ++ [beyond]).drop webSocketUpgradeHeader.length = [] := by
              rw [List.drop_eq_nil_iff, List.length_append, List.length_singleton]
              omega
            rw [dropped, if_pos (by decide)] at result
            cases result
            exact absurd cut (of_decide_eq_false inside)
          · rw [if_pos same] at result
            cases result
            cases inside
        · rintro (short' | ⟨q, split, -⟩)
          · exact short short'
          · exact upgrade ⟨q, split⟩
  · rw [readServerHandshake_other switching]
    refine iff_of_true ⟨_, rfl, ?_⟩ fun p split => absurd ⟨p, split⟩ switching
    unfold readResponseCode
    split_ifs
    · rfl
    · cases extractResponseCode buffer <;> rfl

end WebSocketHandshake

end

end WkcBrowser.WebSockets
