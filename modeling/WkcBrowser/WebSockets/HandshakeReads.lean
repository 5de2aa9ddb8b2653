import WkcBrowser.WebSockets.WebSocketHandshake

/-! Which handshakes are read without the byte behind the buffer, and that more data does not change what
is read then. -/

namespace WkcBrowser.WebSockets

open Wtf

def blankLine : List Byte := [carriageReturn, lineFeed, carriageReturn, lineFeed]

/-- A blank line that is found: a null byte before it hides it. -/
def BlankLineIn (p : List Byte) : Prop :=
  ∃ before after, 0 ∉ before ∧ p = before ++ blankLine ++ after

/-- All but the last byte of a blank line is at the end. -/
def BlankLineCut (p : List Byte) : Prop :=
  0 ∉ p ∧ [carriageReturn, lineFeed, carriageReturn] <:+ p

theorem not_blankLineIn_of_short {p : List Byte} (short : p.length < 4) : ¬BlankLineIn p := by
  rintro ⟨before, after, -, rfl⟩
  simp only [List.length_append, blankLine, List.length_cons, List.length_nil] at short
  omega

theorem blankLineIn_cons {c : Byte} {p : List Byte} :
    BlankLineIn (c :: p) ↔ (∃ after, c :: p = blankLine ++ after) ∨ c ≠ 0 ∧ BlankLineIn p := by
  constructor
  · rintro ⟨before, after, clean, split⟩
    cases before with
    | nil => exact .inl ⟨after, split⟩
    | cons b before =>
      obtain ⟨rfl, rfl⟩ := List.cons.inj split
      rw [List.mem_cons, not_or] at clean
      exact .inr ⟨Ne.symm clean.1, before, after, clean.2, rfl⟩
  · rintro (⟨after, split⟩ | ⟨some_, before, after, clean, rfl⟩)
    · exact ⟨[], after, List.not_mem_nil, split⟩
    · refine ⟨c :: before, after, ?_, rfl⟩
      rw [List.mem_cons, not_or]
      exact ⟨Ne.symm some_, clean⟩

theorem blankLineCut_cons {c : Byte} {p : List Byte} (long : 3 ≤ p.length) :
    BlankLineCut (c :: p) ↔ c ≠ 0 ∧ BlankLineCut p := by
  unfold BlankLineCut
  rw [List.mem_cons, not_or, List.suffix_cons_iff]
  constructor
  · rintro ⟨⟨some_, clean⟩, same | suffix⟩
    · have lengths := congrArg List.length same
      simp only [List.length_cons, List.length_nil] at lengths
      omega
    · exact ⟨Ne.symm some_, clean, suffix⟩
  · rintro ⟨some_, clean, suffix⟩
    exact ⟨⟨Ne.symm some_, clean⟩, .inr suffix⟩

theorem blankLineCut_three {a b c : Byte} :
    BlankLineCut [a, b, c] ↔ a = carriageReturn ∧ b = lineFeed ∧ c = carriageReturn := by
  unfold BlankLineCut
  constructor
  · rintro ⟨-, suffix⟩
    have same := suffix.eq_of_length rfl
    simp only [List.cons.injEq, and_true] at same
    exact ⟨same.1.symm, same.2.1.symm, same.2.2.symm⟩
  · rintro ⟨rfl, rfl, rfl⟩
    exact ⟨by decide, List.suffix_refl _⟩

theorem not_blankLineCut_of_short {p : List Byte} (short : p.length < 3) : ¬BlankLineCut p :=
  fun cut => absurd cut.2.length_le (Nat.not_le.mpr short)

/-- What `strnstr` finds in a buffer and the byte behind it. -/
theorem findBlankLine_spec (p : List Byte) (beyond : Byte) :
    (BlankLineIn p → findBlankLine (p ++ [beyond]) = ⟨true, false⟩) ∧
      (¬BlankLineIn p → p = [] ∨ BlankLineCut p → (findBlankLine (p ++ [beyond])).outside = true) ∧
      (¬BlankLineIn p → p ≠ [] → ¬BlankLineCut p → findBlankLine (p ++ [beyond]) = ⟨false, false⟩) := by
  induction p with
  | nil =>
    refine ⟨fun found => absurd found (not_blankLineIn_of_short (by decide)), fun _ _ => ?_,
      fun _ some_ => absurd rfl some_⟩
    rw [List.nil_append]
    unfold findBlankLine
    split_ifs <;> rfl
  | cons c p ih =>
    by_cases null : c = 0
    · -- The search stops at a null byte.
      have stop : findBlankLine (c :: p ++ [beyond]) = ⟨false, false⟩ := by
        rw [List.cons_append]
        unfold findBlankLine
        rw [if_pos null]
        cases p <;> rfl
      have unfound : ¬BlankLineIn (c :: p) := by
        rw [blankLineIn_cons, not_or]
        refine ⟨?_, fun both => both.1 null⟩
        rintro ⟨after, split⟩
        rw [null] at split
        cases split
      refine ⟨fun found => absurd found unfound, fun _ cut => ?_, fun _ _ _ => stop⟩
      obtain empty | cut := cut
      · cases empty
      · exact absurd (null ▸ List.mem_cons_self) cut.1
    · obtain ⟨ihFound, ihCut, ihNot⟩ := ih
      match p with
      | [] | [_] =>
        have stop : ∀ q : List Byte, q.length < 3 → q ≠ [] →
            findBlankLine (c :: q) = ⟨false, false⟩ := by
          intro q short some_
          unfold findBlankLine
          rw [if_neg null]
          match q with
          | [] => exact absurd rfl some_
          | [_] | [_, _] => rfl
        refine ⟨fun found => absurd found (not_blankLineIn_of_short (by simp)),
          fun _ cut => ?_, fun _ _ _ => stop _ (by simp) (by simp)⟩
        obtain empty | cut := cut
        · cases empty
        · exact absurd cut (not_blankLineCut_of_short (by simp))
      | [c₁, c₂] =>
        have unfound : ¬BlankLineIn [c, c₁, c₂] := not_blankLineIn_of_short (by simp)
        refine ⟨fun found => absurd found unfound, fun _ cut => ?_, fun _ _ uncut => ?_⟩
        · obtain empty | cut := cut
          · cases empty
          · rw [blankLineCut_three] at cut
            change (findBlankLine [c, c₁, c₂, beyond]).outside = true
            unfold findBlankLine
            rw [if_neg null]
            dsimp only
            rw [if_pos cut]
            by_cases ends : beyond = lineFeed
            · rw [if_pos ends]
              rfl
            · rw [if_neg ends, if_pos rfl]
        · rw [blankLineCut_three] at uncut
          change findBlankLine [c, c₁, c₂, beyond] = _
          unfold findBlankLine
          rw [if_neg null]
          dsimp only
          rw [if_neg uncut]
          unfold findBlankLine
          split_ifs <;> rfl
      | c₁ :: c₂ :: c₃ :: p' =>
        have turn : findBlankLine (c :: c₁ :: c₂ :: c₃ :: p' ++ [beyond]) =
            if c = carriageReturn ∧ c₁ = lineFeed ∧ c₂ = carriageReturn ∧ c₃ = lineFeed then
              ⟨true, false⟩
            else findBlankLine (c₁ :: c₂ :: c₃ :: p' ++ [beyond]) := by
          simp only [List.cons_append]
          rw [findBlankLine, if_neg null]
          have more : (p' ++ [beyond]).isEmpty = false := by cases p' <;> rfl
          have more' : p' ++ [beyond] ≠ [] := by simp
          by_cases three : c = carriageReturn ∧ c₁ = lineFeed ∧ c₂ = carriageReturn
          · by_cases fourth : c₃ = lineFeed
            · rw [if_pos three, if_pos fourth, if_pos ⟨three.1, three.2.1, three.2.2, fourth⟩, more]
            · rw [if_pos three, if_neg fourth, if_neg more', if_neg fun all => fourth all.2.2.2]
          · rw [if_neg three, if_neg fun all => three ⟨all.1, all.2.1, all.2.2.1⟩]
        have starts : (∃ after, c :: c₁ :: c₂ :: c₃ :: p' = blankLine ++ after) ↔
            c = carriageReturn ∧ c₁ = lineFeed ∧ c₂ = carriageReturn ∧ c₃ = lineFeed := by
          constructor
          · rintro ⟨after, split⟩
            cases split
            exact ⟨rfl, rfl, rfl, rfl⟩
          · rintro ⟨rfl, rfl, rfl, rfl⟩
            exact ⟨p', rfl⟩
        rw [blankLineIn_cons, starts, turn]
        by_cases here : c = carriageReturn ∧ c₁ = lineFeed ∧ c₂ = carriageReturn ∧ c₃ = lineFeed
        · rw [if_pos here]
          exact ⟨fun _ => rfl, fun unfound => absurd (.inl here) unfound,
            fun unfound => absurd (.inl here) unfound⟩
        · rw [if_neg here, blankLineCut_cons (by simp)]
          refine ⟨fun found => ihFound (found.resolve_left here).2, fun unfound cut => ?_,
            fun unfound _ uncut => ?_⟩
          · have later : ¬BlankLineIn (c₁ :: c₂ :: c₃ :: p') :=
              fun found => unfound (.inr ⟨null, found⟩)
            obtain empty | cut := cut
            · cases empty
            · exact ihCut later (.inr cut.2)
          · have later : ¬BlankLineIn (c₁ :: c₂ :: c₃ :: p') :=
              fun found => unfound (.inr ⟨null, found⟩)
            exact ihNot later (by simp) fun cut => uncut ⟨null, cut⟩

section
variable (side : ClientSide)

/-- Headers as they should be, up to the blank line. -/
inductive HeaderLines : List Byte → Prop
  | blank (rest : List Byte) : HeaderLines (carriageReturn :: lineFeed :: rest)
  | line {name value rest : List Byte}
      (name_clean : ∀ c ∈ name, c ≠ carriageReturn ∧ c ≠ lineFeed ∧ c ≠ colon)
      (named : side.fromUTF8 (name.map lowerName) ≠ none)
      (value_clean : ∀ c ∈ value, c ≠ carriageReturn ∧ c ≠ lineFeed)
      (lines : HeaderLines rest) :
      HeaderLines (name ++ colon :: (value ++ carriageReturn :: lineFeed :: rest))

/-- What has to follow at a place. -/
def Expected : HeaderPlace → List Byte → Prop
  | .name name, p => name = [] ∧ (∃ rest, p = carriageReturn :: lineFeed :: rest) ∨
      ∃ more value rest, p = more ++ colon :: (value ++ carriageReturn :: lineFeed :: rest) ∧
        (∀ c ∈ more, c ≠ carriageReturn ∧ c ≠ lineFeed ∧ c ≠ colon) ∧
        side.fromUTF8 (name ++ more.map lowerName) ≠ none ∧
        (∀ c ∈ value, c ≠ carriageReturn ∧ c ≠ lineFeed) ∧ HeaderLines side rest
  | .spaces name, p | .value name _, p =>
      ∃ value rest, p = value ++ carriageReturn :: lineFeed :: rest ∧ side.fromUTF8 name ≠ none ∧
        (∀ c ∈ value, c ≠ carriageReturn ∧ c ≠ lineFeed) ∧ HeaderLines side rest
  | .lineFeed name _, p =>
      ∃ rest, p = lineFeed :: rest ∧ side.fromUTF8 name ≠ none ∧ HeaderLines side rest

variable {side}

theorem expected_name {p : List Byte} : Expected side (.name []) p ↔ HeaderLines side p := by
  constructor
  · rintro (⟨-, rest, rfl⟩ | ⟨name, value, rest, rfl, clean, named, clean', lines⟩)
    · exact .blank rest
    · exact .line clean named clean' lines
  · intro lines
    cases lines with
    | blank rest => exact .inl ⟨rfl, rest, rfl⟩
    | line clean named clean' lines => exact .inr ⟨_, _, _, rfl, clean, named, clean', lines⟩

/-- The end of a value. -/
theorem expected_value {name value : List Byte} {c : Byte} {p : List Byte} :
    Expected side (.value name value) (c :: p) ↔
      c = carriageReturn ∧ Expected side (.lineFeed name value) p ∨
        c ≠ carriageReturn ∧ c ≠ lineFeed ∧ Expected side (.value name value) p := by
  constructor
  · rintro ⟨value', rest, split, named, clean, lines⟩
    cases value' with
    | nil =>
      obtain ⟨rfl, rfl⟩ := List.cons.inj split
      exact .inl ⟨rfl, rest, rfl, named, lines⟩
    | cons c' value' =>
      obtain ⟨rfl, rfl⟩ := List.cons.inj split
      obtain ⟨apart, apart'⟩ := clean _ List.mem_cons_self
      exact .inr ⟨apart, apart', value', rest, rfl, named,
        fun c inside => clean c (List.mem_cons_of_mem _ inside), lines⟩
  · rintro (⟨rfl, rest, rfl, named, lines⟩ | ⟨apart, apart', value', rest, rfl, named, clean, lines⟩)
    · exact ⟨[], rest, rfl, named, nofun, lines⟩
    · refine ⟨c :: value', rest, rfl, named, fun c' inside => ?_, lines⟩
      obtain rfl | inside := List.mem_cons.mp inside
      · exact ⟨apart, apart'⟩
      · exact clean c' inside

theorem readHTTPHeaders_name (headers : HTTPHeaderMap) (name : List Byte) (c : Byte) (p : List Byte) :
    readHTTPHeaders side headers (.name name) (c :: p) =
      if c = carriageReturn then
        if name = [] then
          match p with
          | [] => failAt "CR doesn't follow LF at " (c :: p)
          | next :: rest =>
            if next = lineFeed then .read headers rest
            else failAt "CR doesn't follow LF at " (c :: p)
        else failAt "Unexpected CR in name at " (c :: p)
      else if c = lineFeed then failAt "Unexpected LF in name at " (c :: p)
      else if c = colon then readHTTPHeaders side headers (.spaces name) p
      else readHTTPHeaders side headers (.name (name ++ [lowerName c])) p := by
  cases name <;> cases p <;> rfl

/-- The headers are read exactly when they are as expected. -/
theorem readHTTPHeaders_iff (p : List Byte) (headers : HTTPHeaderMap) (place : HeaderPlace) :
    (∃ headers' rest, readHTTPHeaders side headers place p = .read headers' rest) ↔
      Expected side place p := by
  induction p generalizing headers place with
  | nil =>
    refine iff_of_false ?_ ?_
    · rintro ⟨headers', rest, read⟩
      cases place with
      | name name => cases name <;> cases read
      | spaces | value | lineFeed => cases read
    · cases place with
      | name name =>
        rintro (⟨-, rest, split⟩ | ⟨more, value, rest, split, -⟩)
        · cases split
        · exact absurd split (by simp)
      | spaces | value =>
        rintro ⟨value, rest, split, -⟩
        exact absurd split (by simp)
      | lineFeed =>
        rintro ⟨rest, split, -⟩
        cases split
  | cons c p ih =>
    have stuck : ∀ message, ¬∃ headers' rest, failAt message (c :: p) = .read headers' rest := by
      rintro message ⟨headers', rest, read⟩
      cases read
    cases place with
    | name name =>
      have end_ : c = carriageReturn ∨ c = lineFeed → ¬∃ more value rest,
          c :: p = more ++ colon :: (value ++ carriageReturn :: lineFeed :: rest) ∧
          (∀ c ∈ more, c ≠ carriageReturn ∧ c ≠ lineFeed ∧ c ≠ colon) ∧
          side.fromUTF8 (name ++ more.map lowerName) ≠ none ∧
          (∀ c ∈ value, c ≠ carriageReturn ∧ c ≠ lineFeed) ∧ HeaderLines side rest := by
        rintro bad ⟨more, value, rest, split, clean, -⟩
        cases more with
        | nil =>
          obtain ⟨rfl, -⟩ := List.cons.inj split
          revert bad
          decide
        | cons c' more =>
          obtain ⟨rfl, -⟩ := List.cons.inj split
          obtain ⟨apart, apart', -⟩ := clean _ List.mem_cons_self
          exact bad.elim apart apart'
      rw [readHTTPHeaders_name]
      by_cases first : c = carriageReturn
      · rw [if_pos first]
        have no_line := end_ (.inl first)
        by_cases empty : name = []
        · rw [if_pos empty]
          cases p with
          | nil =>
            refine iff_of_false (stuck _) ?_
            rintro (⟨-, rest, split⟩ | line)
            · cases split
            · exact no_line line
          | cons next rest =>
            dsimp only
            by_cases blank : next = lineFeed
            · rw [if_pos blank]
              exact iff_of_true ⟨headers, rest, rfl⟩ (.inl ⟨empty, rest, by rw [first, blank]⟩)
            · rw [if_neg blank]
              refine iff_of_false (stuck _) ?_
              rintro (⟨-, rest, split⟩ | line)
              · cases split
                exact blank rfl
              · exact no_line line
        · rw [if_neg empty]
          refine iff_of_false (stuck _) ?_
          rintro (⟨none_, -⟩ | line)
          · exact empty none_
          · exact no_line line
      · rw [if_neg first]
        by_cases second : c = lineFeed
        · rw [if_pos second]
          refine iff_of_false (stuck _) ?_
          rintro (⟨-, rest, split⟩ | line)
          · exact first (List.cons.inj split).1
          · exact end_ (.inr second) line
        · rw [if_neg second]
          by_cases third : c = colon
          · rw [if_pos third, ih]
            constructor
            · rintro ⟨value, rest, rfl, named, clean, lines⟩
              refine .inr ⟨[], value, rest, by rw [third]; rfl, nofun, ?_, clean, lines⟩
              rw [List.map_nil, List.append_nil]
              exact named
            · rintro (⟨-, rest, split⟩ | ⟨more, value, rest, split, clean, named, clean', lines⟩)
              · exact absurd (List.cons.inj split).1 first
              · cases more with
                | nil =>
                  rw [List.map_nil, List.append_nil] at named
                  exact ⟨value, rest, (List.cons.inj split).2, named, clean', lines⟩
                | cons c' more =>
                  obtain ⟨rfl, -⟩ := List.cons.inj split
                  exact absurd third (clean _ List.mem_cons_self).2.2
          · rw [if_neg third, ih]
            constructor
            · rintro (⟨none_, -⟩ | ⟨more, value, rest, rfl, clean, named, clean', lines⟩)
              · exact absurd none_ (by simp)
              · refine .inr ⟨c :: more, value, rest, rfl, fun c' inside => ?_, ?_, clean', lines⟩
                · obtain rfl | inside := List.mem_cons.mp inside
                  · exact ⟨first, second, third⟩
                  · exact clean c' inside
                · rw [List.append_assoc] at named
                  exact named
            · rintro (⟨-, rest, split⟩ | ⟨more, value, rest, split, clean, named, clean', lines⟩)
              · exact absurd (List.cons.inj split).1 first
              · cases more with
                | nil => exact absurd (List.cons.inj split).1 third
                | cons c' more =>
                  obtain ⟨rfl, rfl⟩ := List.cons.inj split
                  refine .inr ⟨more, value, rest, rfl,
                    fun c' inside => clean c' (List.mem_cons_of_mem _ inside), ?_, clean', lines⟩
                  rw [List.append_assoc]
                  exact named
    | spaces name =>
      change _ ↔ Expected side (.value name []) (c :: p)
      rw [expected_value]
      rw [readHTTPHeaders]
      by_cases first : c = space
      · rw [if_pos first, ih]
        have apart : c ≠ carriageReturn ∧ c ≠ lineFeed := by
          rw [first]
          decide
        constructor
        · exact fun later => .inr ⟨apart.1, apart.2, later⟩
        · rintro (⟨here, -⟩ | ⟨-, -, later⟩)
          · exact absurd here apart.1
          · exact later
      · rw [if_neg first]
        by_cases second : c = carriageReturn
        · rw [if_pos second, ih]
          constructor
          · exact fun later => .inl ⟨second, later⟩
          · rintro (⟨-, later⟩ | ⟨apart, -⟩)
            · exact later
            · exact absurd second apart
        · rw [if_neg second]
          by_cases third : c = lineFeed
          · rw [if_pos third]
            refine iff_of_false (stuck _) ?_
            rintro (⟨here, -⟩ | ⟨-, apart, -⟩)
            · exact second here
            · exact apart third
          · rw [if_neg third, ih]
            constructor
            · exact fun later => .inr ⟨second, third, later⟩
            · rintro (⟨here, -⟩ | ⟨-, -, later⟩)
              · exact absurd here second
              · exact later
    | value name value =>
      rw [expected_value]
      rw [readHTTPHeaders]
      by_cases first : c = carriageReturn
      · rw [if_pos first, ih]
        constructor
        · exact fun later => .inl ⟨first, later⟩
        · rintro (⟨-, later⟩ | ⟨apart, -⟩)
          · exact later
          · exact absurd first apart
      · rw [if_neg first]
        by_cases second : c = lineFeed
        · rw [if_pos second]
          refine iff_of_false (stuck _) ?_
          rintro (⟨here, -⟩ | ⟨-, apart, -⟩)
          · exact first here
          · exact apart second
        · rw [if_neg second, ih]
          constructor
          · exact fun later => .inr ⟨first, second, later⟩
          · rintro (⟨here, -⟩ | ⟨-, -, later⟩)
            · exact absurd here first
            · exact later
    | lineFeed name value =>
      rw [readHTTPHeaders]
      by_cases first : c = lineFeed
      · rw [if_pos first]
        cases named : side.fromUTF8 name with
        | none =>
          refine iff_of_false (fun ⟨_, _, read⟩ => by cases read) ?_
          rintro ⟨rest, -, named', -⟩
          exact named' named
        | some nameStr =>
          dsimp only
          rw [ih, expected_name]
          constructor
          · exact fun lines => ⟨p, by rw [first], by simp [named], lines⟩
          · rintro ⟨rest, split, -, lines⟩
            cases split
            exact lines
      · rw [if_neg first]
        refine iff_of_false (stuck _) ?_
        rintro ⟨rest, split, -⟩
        exact first (List.cons.inj split).1

/-- Headers that are read end somewhere, and what follows them does not matter. -/
theorem readHTTPHeaders_used {p : List Byte} {headers headers' : HTTPHeaderMap} {place : HeaderPlace}
    {rest : List Byte} (read : readHTTPHeaders side headers place p = .read headers' rest) :
    ∃ used, p = used ++ rest ∧
      ∀ tail, readHTTPHeaders side headers place (used ++ tail) = .read headers' tail := by
  induction p generalizing headers place with
  | nil =>
    cases place with
    | name name => cases name <;> cases read
    | spaces | value | lineFeed => cases read
  | cons c p ih =>
    have further : ∀ {headers₁ place₁},
        readHTTPHeaders side headers₁ place₁ p = .read headers' rest →
        (∀ q, readHTTPHeaders side headers place (c :: q) = readHTTPHeaders side headers₁ place₁ q) →
        ∃ used, c :: p = used ++ rest ∧
          ∀ tail, readHTTPHeaders side headers place (used ++ tail) = .read headers' tail := by
      intro headers₁ place₁ later turn
      obtain ⟨used, split, all⟩ := ih later
      refine ⟨c :: used, by rw [split, List.cons_append], fun tail => ?_⟩
      rw [List.cons_append, turn]
      exact all tail
    cases place with
    | name name =>
      rw [readHTTPHeaders_name] at read
      by_cases first : c = carriageReturn
      · rw [if_pos first] at read
        by_cases empty : name = []
        · rw [if_pos empty] at read
          cases p with
          | nil => cases read
          | cons next p =>
            dsimp only at read
            by_cases blank : next = lineFeed
            · rw [if_pos blank] at read
              cases read
              refine ⟨[c, next], rfl, fun tail => ?_⟩
              change readHTTPHeaders side _ (.name name) (c :: next :: tail) = _
              rw [readHTTPHeaders_name, if_pos first, if_pos empty]
              exact if_pos blank
            · rw [if_neg blank] at read
              cases read
        · rw [if_neg empty] at read
          cases read
      · rw [if_neg first] at read
        by_cases second : c = lineFeed
        · rw [if_pos second] at read
          cases read
        · rw [if_neg second] at read
          by_cases third : c = colon
          · rw [if_pos third] at read
            refine further read fun q => ?_
            rw [readHTTPHeaders_name, if_neg first, if_neg second, if_pos third]
          · rw [if_neg third] at read
            refine further read fun q => ?_
            rw [readHTTPHeaders_name, if_neg first, if_neg second, if_neg third]
    | spaces name =>
      rw [readHTTPHeaders] at read
      split_ifs at read with first second third
      · exact further read fun q => by rw [readHTTPHeaders, if_pos first]
      · exact further read fun q => by rw [readHTTPHeaders, if_neg first, if_pos second]
      · cases read
      · exact further read fun q => by rw [readHTTPHeaders, if_neg first, if_neg second, if_neg third]
    | value name value =>
      rw [readHTTPHeaders] at read
      split_ifs at read with first second
      · exact further read fun q => by rw [readHTTPHeaders, if_pos first]
      · cases read
      · exact further read fun q => by rw [readHTTPHeaders, if_neg first, if_neg second]
    | lineFeed name value =>
      rw [readHTTPHeaders] at read
      split_ifs at read with first
      · cases named : side.fromUTF8 name with
        | none =>
          rw [named] at read
          cases read
        | some nameStr =>
          rw [named] at read
          refine further read fun q => ?_
          rw [readHTTPHeaders, if_pos first, named]
      · cases read

/-- A blank line ends the headers. -/
theorem readHTTPHeaders_blank {before after rest : List Byte} {headers headers' : HTTPHeaderMap}
    {place : HeaderPlace}
    (read : readHTTPHeaders side headers place (before ++ blankLine ++ after) = .read headers' rest) :
    after.length ≤ rest.length := by
  induction before generalizing headers place with
  | nil =>
    cases place with
    | name name =>
      change readHTTPHeaders side headers (.name name)
        (carriageReturn :: lineFeed :: carriageReturn :: lineFeed :: after) = _ at read
      rw [readHTTPHeaders_name, if_pos rfl] at read
      split_ifs at read
      · cases read
        simp only [List.length_cons]
        omega
      · cases read
    | spaces name | value name =>
      change readHTTPHeaders side headers _
        (carriageReturn :: lineFeed :: carriageReturn :: lineFeed :: after) = _ at read
      rw [readHTTPHeaders] at read
      first
        | rw [if_neg (by decide), if_pos rfl, readHTTPHeaders, if_pos rfl] at read
        | rw [if_pos rfl, readHTTPHeaders, if_pos rfl] at read
      cases named : side.fromUTF8 name with
      | none =>
        rw [named] at read
        cases read
      | some nameStr =>
        rw [named] at read
        dsimp only at read
        rw [readHTTPHeaders_name, if_pos rfl, if_pos rfl] at read
        cases read
        exact le_refl _
    | lineFeed name value =>
      change readHTTPHeaders side headers _
        (carriageReturn :: lineFeed :: carriageReturn :: lineFeed :: after) = _ at read
      rw [readHTTPHeaders, if_neg (by decide)] at read
      cases read
  | cons c before ih =>
    rw [List.cons_append, List.cons_append] at read
    cases place with
    | name name =>
      rw [readHTTPHeaders_name] at read
      by_cases first : c = carriageReturn
      · rw [if_pos first] at read
        split_ifs at read
        · cases before with
          | nil => cases read
          | cons next before =>
            rw [List.cons_append, List.cons_append] at read
            dsimp only at read
            split_ifs at read
            · cases read
              simp only [List.length_append]
              omega
            · cases read
        · cases read
      · rw [if_neg first] at read
        split_ifs at read
        · cases read
        · exact ih read
        · exact ih read
    | spaces name =>
      rw [readHTTPHeaders] at read
      split_ifs at read
      · exact ih read
      · exact ih read
      · cases read
      · exact ih read
    | value name value =>
      rw [readHTTPHeaders] at read
      split_ifs at read
      · exact ih read
      · cases read
      · exact ih read
    | lineFeed name value =>
      rw [readHTTPHeaders] at read
      split_ifs at read
      · cases named : side.fromUTF8 name with
        | none =>
          rw [named] at read
          cases read
        | some nameStr =>
          rw [named] at read
          exact ih read
      · cases read

end

end WkcBrowser.WebSockets
