import WkcBrowser.PropertyList.Readback

/-! A serialized list decodes to the values that the client wrote. -/

namespace WkcBrowser.PropertyList

open Wtf Format

/-- The first half of the items of a dictionary are its keys. -/
def halves (items : List Plist) : Plist :=
  .dictionary (items.take (items.length / 2)) (items.drop (items.length / 2))

mutual

/-- The tree that a client writes. A C string stands for its bytes. -/
def Value.plist : Value → Plist
  | .booleanTrue => .boolean true
  | .integer n => .integer n
  | .string s | .uniqueString s => .string s
  | .integerArray integers => .array (integers.map .integer)
  | .uniqueCString s => .string (s.map UInt8.toUInt16)
  | .array items => .array (plists items)
  | .dictionary items => halves (plists items)

def plists : List Value → List Plist
  | [] => []
  | item :: items => item.plist :: plists items

end

mutual

/-- The C strings that the format can hold. -/
def Value.Ascii : Value → Prop
  | .uniqueCString s => s.length < 2 ^ 32 ∧ ∀ byte ∈ s, byte < 128
  | .array items | .dictionary items => AllAscii items
  | _ => True

def AllAscii : List Value → Prop
  | [] => True
  | item :: items => item.Ascii ∧ AllAscii items

end

/-- What a reader makes of a C string. -/
def decodedCString (s : List Byte) : Option Plist :=
  let characters := s.take (unsigned s.length)
  if characters.all (· < 128) then some (.string (characters.map UInt8.toUInt16)) else none

mutual

/-- What a reader makes of a value. -/
def Value.decoded : Value → Option Plist
  | .uniqueCString s => decodedCString s
  | .array items => do some (.array (← decodedAll items))
  | .dictionary items => do some (halves (← decodedAll items))
  | value => some value.plist

def decodedAll : List Value → Option (List Plist)
  | [] => some []
  | item :: items => do some ((← item.decoded) :: (← decodedAll items))

end

theorem decodedCString_iff (s : List Byte) :
    decodedCString s = some (.string (s.map UInt8.toUInt16)) ↔
      s.length < 2 ^ 32 ∧ ∀ byte ∈ s, byte < 128 := by
  have taken : (s.take (unsigned s.length)).length = unsigned s.length := by
    rw [List.length_take]
    exact Nat.min_eq_left (Nat.mod_le ..)
  unfold decodedCString
  constructor
  · intro same
    dsimp only at same
    split at same
    · rename_i ascii
      have characters := congrArg List.length (Plist.string.inj (Option.some.inj same))
      rw [List.length_map, List.length_map, taken] at characters
      have short : s.length < 2 ^ 32 := characters ▸ Nat.mod_lt _ (by decide)
      rw [characters, List.take_length] at ascii
      exact ⟨short, by simpa using ascii⟩
    · cases same
  · rintro ⟨short, ascii⟩
    have whole : unsigned s.length = s.length := Nat.mod_eq_of_lt short
    rw [whole, List.take_length, if_pos (by simpa using ascii)]

theorem halves_inj {xs ys : List Plist} (same : halves xs = halves ys) : xs = ys := by
  obtain ⟨keys, values⟩ := Plist.dictionary.inj same
  rw [← List.take_append_drop (xs.length / 2) xs, keys, values, List.take_append_drop]

mutual

theorem Value.decoded_iff : ∀ value : Value, value.decoded = some value.plist ↔ value.Ascii
  | .booleanTrue | .integer _ | .string _ | .uniqueString _ | .integerArray _ =>
    iff_of_true rfl trivial
  | .uniqueCString s => decodedCString_iff s
  | .array items => by
    have inner := decodedAll_iff items
    simp only [Value.decoded, Value.plist, Value.Ascii, ← inner, Option.bind_eq_bind,
      Option.bind_eq_some_iff, Option.some.injEq, Plist.array.injEq, exists_eq_right]
  | .dictionary items => by
    have inner := decodedAll_iff items
    simp only [Value.decoded, Value.plist, Value.Ascii, ← inner, Option.bind_eq_bind,
      Option.bind_eq_some_iff, Option.some.injEq]
    constructor
    · rintro ⟨all, decoded, same⟩
      rw [decoded, halves_inj same]
    · exact fun decoded => ⟨_, decoded, rfl⟩

theorem decodedAll_iff : ∀ items : List Value, decodedAll items = some (plists items) ↔ AllAscii items
  | [] => iff_of_true rfl trivial
  | item :: items => by
    have first := item.decoded_iff
    have rest := decodedAll_iff items
    simp only [decodedAll, plists, AllAscii, ← first, ← rest, Option.bind_eq_bind,
      Option.bind_eq_some_iff, Option.some.injEq, List.cons.injEq]
    constructor
    · rintro ⟨x, decoded, xs, decoded', rfl, rfl⟩
      exact ⟨decoded, decoded'⟩
    · exact fun ⟨decoded, decoded'⟩ => ⟨_, decoded, _, decoded', rfl, rfl⟩

end

/-- The objects of a list as its readers see them. -/
def nodes (all : List Object) (reference : Nat) : Option Node :=
  all[reference]?.bind (·.node all)

section
variable {all objects : List Object} {object : Object}

theorem nodes_of_leading (prefix_ : objects ++ [object] <+: all) :
    nodes all objects.length = object.node all := by
  obtain ⟨more, rfl⟩ := prefix_
  rw [nodes, List.getElem?_append_left (by simp), List.getElem?_concat_length]
  rfl

theorem getElem?_share (prefix_ : share object objects <+: all) :
    all[(share object objects).idxOf object]? = some object := by
  have member : object ∈ share object objects := mem_share
  have inside := List.idxOf_lt_length_iff.mpr member
  obtain ⟨more, rfl⟩ := prefix_
  rw [List.getElem?_append_left inside, List.getElem?_eq_getElem inside, List.getElem_idxOf]

theorem nodes_share (prefix_ : share object objects <+: all) :
    nodes all ((share object objects).idxOf object) = object.node all := by
  rw [nodes, getElem?_share prefix_]
  rfl

/-- The integers of an array are resolved in one more step. -/
theorem resolve_integers {steps : Nat} (integers : List Nat) (positive : 0 < steps)
    (members : ∀ n ∈ integers, .integer n ∈ all) :
    (integers.map fun n => all.idxOf (.integer n)).mapM (resolve (nodes all) steps) =
      some (integers.map .integer) := by
  obtain ⟨steps, rfl⟩ := Nat.exists_eq_succ_of_ne_zero positive.ne'
  induction integers with
  | nil => rfl
  | cons n integers ih =>
    rw [List.forall_mem_cons] at members
    have found : nodes all (all.idxOf (.integer n)) = some (.integer n) := by
      have inside := List.idxOf_lt_length_iff.mpr members.1
      rw [nodes, List.getElem?_eq_getElem inside, List.getElem_idxOf]
      rfl
    have first : resolve (nodes all) (steps + 1) (all.idxOf (.integer n)) =
        some (.integer n) := by
      rw [resolve, found]
      rfl
    rw [List.map_cons, List.mapM_cons, first, ih members.2]
    rfl

end

mutual

theorem Value.resolve_enlist {all : List Object} (listed : Listed all) : ∀ (value : Value)
    {objects : List Object} {steps : Nat}, value.WellFormed →
    (value.enlist objects).objects <+: all → (value.enlist objects).reference < steps →
    resolve (nodes all) steps (value.enlist objects).reference = value.decoded
  | .booleanTrue, objects, steps + 1, _, prefix_, _ => by
    rw [resolve]
    change (nodes all ((share .booleanTrue objects).idxOf .booleanTrue)).bind _ = _
    rw [nodes_share prefix_]
    rfl
  | .integer n, objects, steps + 1, _, prefix_, _ => by
    rw [resolve]
    change (nodes all ((share (.integer n) objects).idxOf (.integer n))).bind _ = _
    rw [nodes_share prefix_]
    rfl
  | .string s, objects, steps + 1, _, prefix_, _ => by
    rw [resolve]
    change (nodes all ((share (.string s) objects).idxOf (.string s))).bind _ = _
    rw [nodes_share prefix_]
    rfl
  | .integerArray integers, objects, steps + 1, ⟨some_, _⟩, prefix_, short => by
    rw [resolve]
    change (nodes all ((share (.integerArray integers) _).idxOf (.integerArray integers))).bind _ = _
    rw [nodes_share prefix_]
    have earlier := listed.references_lt (getElem?_share prefix_)
    obtain ⟨n, member⟩ := List.exists_mem_of_ne_nil integers some_
    have positive : 0 < steps :=
      Nat.lt_of_le_of_lt (Nat.zero_le _) (Nat.lt_of_lt_of_le
        (earlier _ (List.mem_map_of_mem member)) (Nat.le_of_lt_succ short))
    change Option.bind ((integers.map fun n => all.idxOf (Object.integer n)).mapM
      (resolve (nodes all) steps)) _ = _
    rw [resolve_integers integers positive (listed.integers (prefix_.subset mem_share))]
    rfl
  | .uniqueString s, objects, steps + 1, _, prefix_, _ => by
    rw [resolve]
    change (nodes all objects.length).bind _ = _
    rw [nodes_of_leading prefix_]
    rfl
  | .uniqueCString s, objects, steps + 1, _, prefix_, _ => by
    rw [resolve]
    change (nodes all objects.length).bind _ = _
    rw [nodes_of_leading prefix_]
    change (cStringNode s).bind _ = decodedCString s
    unfold cStringNode decodedCString
    dsimp only
    split <;> rfl
  | .array items, objects, steps + 1, ⟨some_, wellFormed⟩, prefix_, short => by
    rw [resolve]
    change (nodes all (enlistAll items objects).objects.length).bind _ = _
    rw [nodes_of_leading prefix_]
    have inner := resolve_enlistAll listed items wellFormed ((List.prefix_append ..).trans prefix_)
      (Nat.le_of_lt_succ short)
    change Option.bind ((enlistAll items objects).references.mapM (resolve (nodes all) steps)) _ = _
    rw [inner]
    rfl
  | .dictionary items, objects, steps + 1, ⟨some_, _, wellFormed⟩, prefix_, short => by
    rw [resolve]
    change (nodes all (enlistAll items objects).objects.length).bind _ = _
    rw [nodes_of_leading prefix_]
    have inner := resolve_enlistAll listed items wellFormed ((List.prefix_append ..).trans prefix_)
      (Nat.le_of_lt_succ short)
    change Option.bind ((enlistAll items objects).references.mapM (resolve (nodes all) steps)) _ = _
    rw [inner]
    rfl

theorem resolve_enlistAll {all : List Object} (listed : Listed all) : ∀ (items : List Value)
    {objects : List Object} {steps : Nat}, AllWellFormed items →
    (enlistAll items objects).objects <+: all → (enlistAll items objects).objects.length ≤ steps →
    (enlistAll items objects).references.mapM (resolve (nodes all) steps) = decodedAll items
  | [], _, _, _, _, _ => rfl
  | item :: items, objects, steps, ⟨wellFormed, rest⟩, prefix_, short => by
    have grown := prefix_enlistAll items (item.enlist objects).objects
    have first := item.resolve_enlist listed wellFormed (grown.trans prefix_)
      (Nat.lt_of_lt_of_le (Nat.lt_of_lt_of_le (item.reference_lt objects) grown.length_le) short)
    have others := resolve_enlistAll listed items rest prefix_ short
    change ((item.enlist objects).reference :: _).mapM _ = _
    rw [List.mapM_cons, first, others]
    rfl

end

/-- Reading a list back. -/
theorem decode_listBytes {target : Target} {client : Value} (wellFormed : client.WellFormed)
    (serializable : Serializable target client) :
    decode (listBytes target client.objects) = client.decoded := by
  have listed : Listed client.objects := Listed.enlist client wellFormed .nil
  have fits := serializable.fits
  have last : (client.enlist []).reference = client.objects.length - 1 := by
    cases client with
    | array items | dictionary items =>
      change (enlistAll items []).objects.length = (_ ++ [_]).length - 1
      rw [List.length_append, List.length_singleton, Nat.add_sub_cancel]
    | booleanTrue | integer | string | integerArray | uniqueString | uniqueCString =>
      cases serializable.aggregate
  have readers : nodeAt (listBytes target client.objects) (listTrailer target client.objects) =
      nodes client.objects := by
    funext reference
    exact nodeAt_listBytes listed fits _ reference
  have found := client.resolve_enlist listed wellFormed (List.prefix_refl _)
    (client.reference_lt [])
  rw [decode, decodeTrailer_listBytes (objects_ne_nil client) fits]
  simp only [Option.bind_eq_bind, Option.bind_some, readers]
  rw [last] at found
  exact found

/-- The serializer succeeds, and what it produces decodes to what was written. -/
def DecodesToWritten (target : Target) (client : Value) : Prop :=
  ∃ references bytes,
    (∀ fresh, binaryPropertyListSerializer target client fresh = some (references, bytes)) ∧
    decode bytes = some client.plist

theorem decodesToWritten_iff (target : Target) {client : Value} (wellFormed : client.WellFormed) :
    DecodesToWritten target client ↔ Serializable target client ∧ client.Ascii := by
  rw [← client.decoded_iff]
  constructor
  · rintro ⟨references, bytes, serialized, decoded⟩
    have serializable := serializable_of_some wellFormed (serialized fun _ => 0)
    obtain ⟨_, _, _, serialized'⟩ := serializer_eq wellFormed serializable
    have same := (serialized fun _ => 0).symm.trans (serialized' fun _ => 0)
    obtain ⟨-, rfl⟩ := Prod.mk.inj (Option.some.inj same)
    exact ⟨serializable, (decode_listBytes wellFormed serializable).symm.trans decoded⟩
  · rintro ⟨serializable, decoded⟩
    obtain ⟨_, _, _, serialized⟩ := serializer_eq wellFormed serializable
    exact ⟨_, _, serialized, (decode_listBytes wellFormed serializable).trans decoded⟩

theorem decodesToWritten_sharedIntegers :
    DecodesToWritten .lp64 (.array [.integer 1, .string [97], .integer 1]) := by
  have objects : (Value.array [.integer 1, .string [97], .integer 1]).objects =
      [.integer 1, .string [97], .array [0, 1, 0]] := by decide
  apply (decodesToWritten_iff .lp64 (by simp [Value.WellFormed, AllWellFormed])).mpr
  refine ⟨⟨rfl, by decide, ?_⟩, by simp [Value.Ascii, AllAscii]⟩
  intro integers member
  rw [objects] at member
  simp at member

theorem not_decodesToWritten_integer :
    ¬∀ target client, client.WellFormed → DecodesToWritten target client := by
  intro all
  obtain ⟨_, _, serialized, -⟩ := all .lp64 (.integer 1) (show 1 < 2 ^ 31 by decide)
  have failed : binaryPropertyListSerializer .lp64 (.integer 1) (fun _ => 0) = none := by decide
  rw [serialized fun _ => 0] at failed
  cases failed

end WkcBrowser.PropertyList
