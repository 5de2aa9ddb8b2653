import WkcBrowser.Url.Authorities
import WkcBrowser.Url.Resolution

/-! Parsing and resolution write inside their buffers, and the positions of a URL are in order. -/

namespace WkcBrowser.Url

open Lib Wtf

/-! What is written is the canonical text. -/

theorem escapeInto_before (p : Writer Byte) (text : List Byte) :
    (escapeInto p text).before.reverse = p.before.reverse ++ appendEscapingBadChars text := by
  induction text generalizing p with
  | nil => exact (List.append_nil _).symm
  | cons c rest ih =>
    rw [escapeInto, List.foldl_cons]
    refine (ih _).trans ?_
    rw [appendEscapingBadChars, appendEscapingBadChars, List.flatMap_cons, ← List.append_assoc]
    congr 1
    split_ifs <;> simp

theorem escapeInto_straight {p : Writer Byte} (straight : p.Straight) (text : List Byte) :
    (escapeInto p text).Straight := by
  induction text generalizing p with
  | nil => exact straight
  | cons c rest ih =>
    rw [escapeInto, List.foldl_cons]
    apply ih
    split_ifs
    · exact straight.put c
    · exact ((straight.put _).put _).put _
    · exact straight
    · exact straight.put c

theorem copySegmentsInto_before (skip : Nat) (dst : Writer Byte) (src : List Byte) :
    (copySegmentsInto skip dst src).before = copySegments skip dst.before src := by
  induction src generalizing skip dst with
  | nil => cases skip <;> rfl
  | cons c rest ih =>
    cases skip with
    | succ skip => exact ih skip dst
    | zero =>
      rw [copySegmentsInto, copySegments]
      split_ifs
      · exact ih _ _
      · exact ih _ _
      · exact ih _ _
      · exact ih _ _

theorem copyPathInto_before (path : List Byte) :
    (copyPathInto path).before.reverse = copyPathRemovingDots path := by
  cases path with
  | nil => rfl
  | cons slash rest =>
    show (copySegmentsInto 0 _ rest).before.reverse = (copySegments 0 [slash] rest).reverse
    rw [copySegmentsInto_before]
    rfl

theorem authorityInto_before (parts : Parts) :
    (authorityInto parts).before.reverse = parts.portEnd := by
  unfold authorityInto Parts.portEnd Parts.hostEnd Parts.hostStart Parts.passwordEnd Parts.userEnd
    Parts.userStart
  by_cases has : parts.hasAuthority = true
  · by_cases named : parts.authority.password = [] <;>
      by_cases noUser : parts.authority.user = [] <;>
      cases parts.authority.port <;>
      simp [has, named, noUser, Writer.before_puts, apply_ite Writer.before, apply_ite List.reverse]
    all_goals split_ifs <;> simp <;> omega
  · cases parts.authority.port <;> simp [has, Writer.before_puts]

theorem straight_ite {then_ else_ : Writer Byte} {condition : Prop} [Decidable condition]
    (positive : then_.Straight) (negative : else_.Straight) :
    (if condition then then_ else else_).Straight := by
  by_cases condition
  · rwa [if_pos ‹_›]
  · rwa [if_neg ‹_›]

theorem authorityInto_straight (parts : Parts) : (authorityInto parts).Straight := by
  have scheme := (Writer.straight_start.puts parts.scheme).put (0x3a : Byte)
  have named {p : Writer Byte} (straight : p.Straight) :
      (if parts.authority.password ≠ [] then (p.put 0x3a).puts parts.authority.password
        else p).Straight :=
    straight_ite ((straight.put 0x3a).puts _) straight
  have marked {p : Writer Byte} (straight : p.Straight) :
      (if p.before.length ≠ parts.userStart.length then p.put 0x40 else p).Straight :=
    straight_ite (straight.put 0x40) straight
  have hosted {p : Writer Byte} (straight : p.Straight) :
      (if !(parts.isFile && parts.hostIsLocalHost && !parts.haveNonHostAuthorityPart) then
        p.puts parts.authority.host else p).Straight :=
    straight_ite (straight.puts _) straight
  unfold authorityInto
  apply straight_ite _ scheme
  have host := hosted (marked (named (((scheme.put 0x2f).put 0x2f).puts parts.authority.user)))
  cases parts.authority.port with
  | none => exact host
  | some port => exact (host.put 0x3a).puts port

/-- What is in the buffer of the path is the path without its dots. -/
theorem pathBuffer_before (url : List Byte) (parts : Parts) :
    ((pathBuffer url parts).map (·.writer.before.reverse)).getD parts.path =
      if !parts.hierarchical || !hasSlashDotOrDotDot url then parts.path
      else copyPathRemovingDots parts.path := by
  unfold pathBuffer
  split_ifs
  · rfl
  · exact copyPathInto_before parts.path

theorem assembleInto_before (url : List Byte) (parts : Parts) :
    (assembleInto url parts).before.reverse = parts.fragmentEnd url := by
  unfold assembleInto Parts.fragmentEnd Parts.queryEnd Parts.pathEnd
  dsimp only
  rw [pathBuffer_before]
  by_cases slash : (parts.protocolInHTTPFamily && parts.hierarchical && parts.path = []) = true <;>
    by_cases noFragment : parts.fragment = [] <;>
    simp [slash, noFragment, escapeInto_before, authorityInto_before]

theorem assembleInto_straight (url : List Byte) (parts : Parts) :
    (assembleInto url parts).Straight := by
  have slash : (if parts.protocolInHTTPFamily && parts.hierarchical && parts.path = [] then
      (authorityInto parts).put 0x2f else authorityInto parts).Straight :=
    straight_ite ((authorityInto_straight parts).put 0x2f) (authorityInto_straight parts)
  have query := escapeInto_straight (escapeInto_straight slash
    (((pathBuffer url parts).map (·.writer.before.reverse)).getD parts.path)) parts.query
  exact straight_ite (escapeInto_straight (query.put 0x23) _) query

/-! The lengths of what is written. -/

theorem appendEscapingBadChars_length (text : List Byte) :
    (appendEscapingBadChars text).length ≤ 3 * text.length := by
  induction text with
  | nil => exact Nat.le_refl 0
  | cons c rest ih =>
    unfold appendEscapingBadChars at ih ⊢
    rw [List.flatMap_cons, List.length_append, List.length_cons]
    split_ifs <;> simp only [List.length_cons, List.length_nil] <;> omega

theorem dropSlashes_length (copied : List Byte) : (dropSlashes copied).length ≤ copied.length := by
  induction copied using dropSlashes.induct with
  | case1 next copied ih =>
    rw [dropSlashes, if_pos rfl]
    exact Nat.le_succ_of_le ih
  | case2 c next copied other => rw [dropSlashes, if_neg other]
  | case3 copied short =>
    rw [dropSlashes.eq_def]
    split
    · exact absurd rfl (short _ _ _)
    · exact Nat.le_refl _

theorem rewindSegment_length (copied : List Byte) :
    (rewindSegment copied).length ≤ copied.length := by
  have started : (if 1 < copied.length then copied.tail else copied).length ≤ copied.length := by
    split_ifs
    · exact (List.length_tail ▸ Nat.sub_le _ _)
    · exact Nat.le_refl _
  calc (rewindSegment copied).length
      ≤ (dropSlashes (if 1 < copied.length then copied.tail else copied)).length :=
        (List.dropWhile_sublist _).length_le
    _ ≤ (if 1 < copied.length then copied.tail else copied).length := dropSlashes_length _
    _ ≤ copied.length := started

theorem copySegmentsInto_below {dst : Writer Byte} {size : Nat} (below : dst.Below size) (skip : Nat)
    (src : List Byte) : (copySegmentsInto skip dst src).Below (size + src.length) := by
  induction src generalizing skip dst size with
  | nil => cases skip <;> exact below
  | cons c rest ih =>
    have more {w : Writer Byte} (inside : w.Below size) (skip : Nat) :
        (copySegmentsInto skip w rest).Below (size + (c :: rest).length) :=
      (ih inside skip).mono (Nat.add_le_add_left (Nat.le_succ _) _)
    have put : (copySegmentsInto 0 (dst.put c) rest).Below (size + (c :: rest).length) := by
      rw [List.length_cons, Nat.add_comm rest.length 1, ← Nat.add_assoc]
      exact ih (below.put c) 0
    cases skip with
    | succ skip => exact more below skip
    | zero =>
      rw [copySegmentsInto]
      split_ifs
      · exact more below 1
      · exact more (below.back (rewindSegment_length _)) 2
      · exact put
      · exact put

theorem copyPathInto_below (path : List Byte) : (copyPathInto path).Below (path.length + 1) := by
  cases path with
  | nil => exact Writer.below_start.terminate
  | cons slash rest =>
    have copied := copySegmentsInto_below (Writer.below_start.put slash) 0 rest
    rw [List.length_cons, Nat.add_comm rest.length 1, ← Nat.zero_add 1]
    exact copied.terminate

theorem copyPathRemovingDots_length (path : List Byte) :
    (copyPathRemovingDots path).length ≤ path.length := by
  cases path with
  | nil => exact Nat.le_refl 0
  | cons slash rest =>
    have copied := (copySegmentsInto_below (Writer.below_start.put slash) 0 rest).before
    rw [copySegmentsInto_before] at copied
    rw [copyPathRemovingDots, List.length_reverse, List.length_cons]
    exact Nat.le_trans copied (by omega)

/-- The length of the authority in the canonical text, after its slashes. -/
def Authority.length (authority : Authority) : Nat :=
  authority.user.length +
    (if authority.password ≠ [] then authority.password.length + 1 else 0) +
    (if authority.user ≠ [] ∨ authority.password ≠ [] then 1 else 0) + authority.host.length +
    (match authority.port with
      | some port => port.length + 1
      | none => 0)

theorem parseUserInfo_length {text user password rest : List Byte}
    (parsed : parseUserInfo text = some (user, password, rest)) :
    user.length + (if password ≠ [] then password.length + 1 else 0) +
      (if user ≠ [] ∨ password ≠ [] then 1 else 0) + rest.length ≤ text.length := by
  unfold parseUserInfo at parsed
  dsimp only at parsed
  have whole := congrArg List.length
    (List.takeWhile_append_dropWhile (p := isUserInfoChar) (l := text))
  rw [List.length_append] at whole
  split_ifs at parsed with marked ended
  · cases parsed
    obtain ⟨after, split⟩ := List.head?_eq_some_iff.mp marked
    have parts := congrArg List.length (List.takeWhile_append_dropWhile (p := fun c => decide (c ≠ 0x3a))
      (l := text.takeWhile isUserInfoChar))
    rw [List.length_append] at parts
    have colon : (if ((text.takeWhile isUserInfoChar).dropWhile fun c => decide (c ≠ 0x3a)).tail ≠ []
        then ((text.takeWhile isUserInfoChar).dropWhile fun c => decide (c ≠ 0x3a)).tail.length + 1
        else 0) ≤ ((text.takeWhile isUserInfoChar).dropWhile fun c => decide (c ≠ 0x3a)).length := by
      split_ifs with some
      · have long := List.length_pos_iff.mpr some
        rw [List.length_tail] at long ⊢
        omega
      · exact Nat.zero_le _
    rw [split, List.length_cons] at whole
    rw [split, List.tail_cons]
    split_ifs at colon ⊢ <;> omega
  · cases parsed
    simp

theorem parseHost_length {text host rest : List Byte} (parsed : parseHost text = some (host, rest)) :
    host.length + rest.length = text.length := by
  obtain ⟨rfl, -⟩ := parseHost_isHost parsed
  exact List.length_append.symm

theorem parsePort_length (text : List Byte) :
    (match (parsePort text).1 with
      | some port => port.length + 1
      | none => 0) + (parsePort text).2.length = text.length := by
  unfold parsePort
  split_ifs with colon
  · obtain ⟨after, rfl⟩ := List.head?_eq_some_iff.mp colon
    have whole := congrArg List.length
      (List.takeWhile_append_dropWhile (p := isASCIIDigit) (l := after))
    rw [List.length_append] at whole
    simp only [List.tail_cons, List.length_cons]
    omega
  · exact Nat.zero_add _

theorem parseAuthority_length {text rest : List Byte} {authority : Authority}
    (parsed : parseAuthority text = some (authority, rest)) :
    authority.length + rest.length ≤ text.length := by
  unfold parseAuthority at parsed
  cases info : parseUserInfo text with
  | none =>
    rw [info] at parsed
    cases parsed
  | some found =>
    obtain ⟨user, password, fromHost⟩ := found
    have infoLength := parseUserInfo_length info
    rw [info] at parsed
    dsimp only at parsed
    cases named : parseHost fromHost with
    | none =>
      rw [named] at parsed
      cases parsed
    | some found =>
      obtain ⟨host, afterHost⟩ := found
      have hostLength := parseHost_length named
      have portLength := parsePort_length afterHost
      rw [named] at parsed
      dsimp only at parsed
      split at parsed
      · cases parsed
        unfold Authority.length
        dsimp only
        omega
      · cases parsed

theorem splitAuthority_length {emptyAllowed : Bool} {afterColon authorityText rest : List Byte}
    {authority : Authority}
    (split : splitAuthority emptyAllowed afterColon = some (authority, authorityText, rest)) :
    authority.length ≤ authorityText.length ∧
      authorityText.length + rest.length ≤ afterColon.length := by
  unfold splitAuthority at split
  split at split
  · cases parsed : parseAuthority (afterColon.drop 2) with
    | none =>
      rw [parsed] at split
      cases split
    | some found =>
      have length := parseAuthority_length parsed
      rw [parsed] at split
      dsimp only at split
      have dropped : (afterColon.drop 2).length ≤ afterColon.length := by simp
      split at split
      · cases split
        exact ⟨Nat.le_refl 0, by simp⟩
      · cases split
        rw [List.length_take]
        constructor <;> omega
  · cases split
    exact ⟨Nat.le_refl 0, by simp⟩

theorem splitPath_length (text : List Byte) :
    (splitPath text).1.length + (splitPath text).2.1.length + (splitPath text).2.2.length =
      text.length := by
  have whole := congrArg List.length
    (List.takeWhile_append_dropWhile (p := fun c : Byte => decide (c ≠ 0x3f) && decide (c ≠ 0x23)) (l := text))
  rw [List.length_append] at whole
  unfold splitPath
  dsimp only
  rw [List.length_drop]
  have query : (if (text.dropWhile fun c => decide (c ≠ 0x3f) && decide (c ≠ 0x23)).head? = some 0x3f then
      (text.dropWhile fun c => decide (c ≠ 0x3f) && decide (c ≠ 0x23)).takeWhile (· ≠ 0x23) else []).length ≤
      (text.dropWhile fun c => decide (c ≠ 0x3f) && decide (c ≠ 0x23)).length := by
    split_ifs
    · exact (List.takeWhile_sublist _).length_le
    · exact Nat.zero_le _
  omega

/-- The parts that are found are parts of the text. -/
theorem splitURL_length {url : List Byte} {parts : Parts} (split : splitURL url = some parts) :
    0 < parts.scheme.length ∧ parts.authority.length ≤ parts.authorityText.length ∧
      parts.scheme.length + 1 + parts.authorityText.length + parts.path.length +
        parts.query.length + parts.fragment.length ≤ url.length := by
  obtain ⟨afterColon, rest, rfl, -, first, authority, paths, -⟩ := splitURL_parts split
  have lengths := splitAuthority_length authority
  have behind := splitPath_length rest
  have scheme : 0 < parts.scheme.length := by
    cases shape : parts.scheme with
    | nil =>
      rw [shape] at first
      cases first
    | cons c scheme => exact Nat.succ_pos _
  rw [paths] at behind
  dsimp only at behind
  rw [List.length_append, List.length_cons]
  exact ⟨scheme, lengths.1, by omega⟩

theorem portEnd_length (parts : Parts) :
    parts.portEnd.length ≤ parts.scheme.length + 3 + parts.authority.length := by
  unfold Parts.portEnd Parts.hostEnd Parts.hostStart Parts.passwordEnd Parts.userEnd
    Parts.userStart Authority.length
  by_cases has : parts.hasAuthority = true
  · cases parts.authority.port <;>
      by_cases named : parts.authority.password = [] <;>
      by_cases noUser : parts.authority.user = [] <;>
      simp [has, named, noUser, apply_ite List.length] <;> split_ifs <;> omega
  · cases parts.authority.port <;> simp [has] <;> omega

/-- The size of the buffer is enough for the canonical text. -/
theorem fragmentEnd_length {url : List Byte} {parts : Parts} (split : splitURL url = some parts) :
    (parts.fragmentEnd url).length ≤ url.length * 3 + 1 := by
  obtain ⟨scheme, authority, whole⟩ := splitURL_length split
  have port := portEnd_length parts
  have path : (appendEscapingBadChars (if !parts.hierarchical || !hasSlashDotOrDotDot url then
      parts.path else copyPathRemovingDots parts.path)).length ≤ 3 * parts.path.length := by
    refine Nat.le_trans (appendEscapingBadChars_length _) (Nat.mul_le_mul_left 3 ?_)
    split_ifs
    · exact Nat.le_refl _
    · exact copyPathRemovingDots_length _
  have query := appendEscapingBadChars_length parts.query
  have fragment := appendEscapingBadChars_length parts.fragment.tail
  unfold Parts.fragmentEnd Parts.queryEnd Parts.pathEnd
  rw [List.length_append, List.length_append, List.length_append, List.length_append]
  rw [List.length_tail] at fragment
  have slash : (if parts.protocolInHTTPFamily && parts.hierarchical && parts.path = [] then
      [0x2f] else [] : List Byte).length ≤ 1 := by
    split_ifs <;> simp
  have marked : (if parts.fragment ≠ [] then 0x23 :: appendEscapingBadChars parts.fragment.tail
      else []).length ≤ 3 * parts.fragment.length := by
    split_ifs with some
    · have long := List.length_pos_iff.mpr some
      rw [List.length_cons]
      omega
    · exact Nat.zero_le _
  omega

theorem parseBuffers_fit (url : List Byte) : ∀ buffer ∈ parseBuffers url, buffer.Fits := by
  intro buffer member
  unfold parseBuffers at member
  cases split : splitURL url with
  | none =>
    rw [split] at member
    cases member
  | some parts =>
    rw [split] at member
    cases List.mem_cons.mp member with
    | inl whole =>
      subst whole
      show (assembleInto url parts).high ≤ url.length * 3 + 1
      rw [assembleInto_straight, ← List.length_reverse, assembleInto_before]
      exact fragmentEnd_length split
    | inr path =>
      unfold pathBuffer at path
      split_ifs at path
      · cases path
      · cases List.mem_singleton.mp path
        exact (copyPathInto_below parts.path).high

/-! The positions. -/

namespace KURL

structure Ordered (url : KURL) : Prop where
  userStart : url.schemeEnd < url.userStart
  userEnd : url.userStart ≤ url.userEnd
  passwordEnd : url.userEnd ≤ url.passwordEnd
  hostEnd : url.passwordEnd ≤ url.hostEnd
  portEnd : url.hostEnd ≤ url.portEnd
  pathAfterLastSlash : url.portEnd ≤ url.pathAfterLastSlash
  pathEnd : url.pathAfterLastSlash ≤ url.pathEnd
  queryEnd : url.pathEnd ≤ url.queryEnd
  fragmentEnd : url.queryEnd ≤ url.fragmentEnd
  length : url.fragmentEnd = url.string.length

theorem assemble_ordered (url : List Byte) (parts : Parts) : (assemble url parts).Ordered where
  userStart := by
    show parts.scheme.length < parts.userStart.length
    unfold Parts.userStart
    simp only [List.length_append, List.length_singleton]
    omega
  userEnd := (List.prefix_append parts.userStart _).length_le
  passwordEnd := (List.prefix_append parts.userEnd _).length_le
  hostEnd :=
    ((List.prefix_append parts.passwordEnd _).trans (List.prefix_append parts.hostStart _)).length_le
  portEnd := (List.prefix_append parts.hostEnd _).length_le
  pathAfterLastSlash := Nat.le_add_right _ _
  pathEnd := by
    show parts.portEnd.length + _ ≤ (parts.pathEnd url).length
    have front : parts.portEnd.length ≤ (parts.pathEnd url).length := by
      unfold Parts.pathEnd
      rw [List.append_assoc]
      exact (List.prefix_append parts.portEnd _).length_le
    have path := (List.rdropWhile_prefix (fun c : Byte => decide (c ≠ 0x2f))
      ((parts.pathEnd url).drop parts.portEnd.length)).length_le
    rw [List.length_drop] at path
    omega
  queryEnd := (List.prefix_append (parts.pathEnd url) _).length_le
  fragmentEnd := (List.prefix_append (parts.queryEnd url) _).length_le
  length := (List.length_map _).symm

theorem parse_ordered {url : List Byte} (valid : (parse url).isValid = true) :
    (parse url).Ordered := by
  unfold parse at valid ⊢
  cases split : splitURL url with
  | none =>
    rw [split] at valid
    cases valid
  | some parts => exact assemble_ordered url parts

/-- The URLs that there are: those that are parsed and those that are not valid. -/
inductive Made : KURL → Prop where
  | parsed (text : List Byte) : Made (parse text)
  | invalid (string : Text) : Made { string }

theorem Made.ordered {url : KURL} (made : url.Made) (valid : url.isValid = true) : url.Ordered := by
  cases made with
  | parsed text => exact parse_ordered valid
  | invalid string => cases valid

end KURL

/-! Resolution. -/

theorem dropToSlash_length (least : Nat) (before : List Byte) :
    (dropToSlash least before).length ≤ before.length := by
  induction before with
  | nil => exact Nat.le_refl 0
  | cons c before ih =>
    rw [dropToSlash]
    split_ifs
    · exact Nat.le_succ_of_le ih
    · exact Nat.le_refl _

theorem rewindRelative_length (pathStart : Nat) (before : List Byte) :
    (rewindRelative pathStart before).length ≤ before.length := by
  refine Nat.le_trans (dropToSlash_length _ _) ?_
  split_ifs
  · exact List.length_tail ▸ Nat.sub_le _ _
  · exact Nat.le_refl _

/-- As much is written as is read. -/
theorem resolveInto_below {p : Writer Byte} {size : Nat} (below : p.Below size) (pathStart skip : Nat)
    (str : List Byte) : ∃ written, (resolveInto pathStart skip p str).1.Below (size + written) ∧
      written + (resolveInto pathStart skip p str).2.length ≤ str.length := by
  induction str generalizing skip p size with
  | nil => cases skip <;> exact ⟨0, below, Nat.le_refl 0⟩
  | cons c rest ih =>
    have skipped {w : Writer Byte} (inside : w.Below size) (skip : Nat) :
        ∃ written, (resolveInto pathStart skip w rest).1.Below (size + written) ∧
          written + (resolveInto pathStart skip w rest).2.length ≤ (c :: rest).length := by
      obtain ⟨written, inside, length⟩ := ih inside skip
      exact ⟨written, inside, Nat.le_succ_of_le length⟩
    have put : ∃ written, (resolveInto pathStart 0 (p.put c) rest).1.Below (size + written) ∧
        written + (resolveInto pathStart 0 (p.put c) rest).2.length ≤ (c :: rest).length := by
      obtain ⟨written, inside, length⟩ := ih (below.put c) 0
      refine ⟨1 + written, by rwa [← Nat.add_assoc], ?_⟩
      rw [List.length_cons]
      omega
    cases skip with
    | succ skip => exact skipped below skip
    | zero =>
      rw [resolveInto]
      by_cases ended : (c = 0x3f || c = 0x23) = true
      · rw [if_pos ended]
        exact ⟨0, below, by simp⟩
      · rw [if_neg ended]
        split_ifs
        · exact skipped below _
        · exact skipped below _
        · exact skipped (below.back (rewindRelative_length _ _)) _
        · exact skipped (below.back (rewindRelative_length _ _)) _
        · exact put
        · exact put

theorem cString_length (bytes : List Byte) : (cString bytes).length ≤ bytes.length :=
  (List.takeWhile_sublist _).length_le

theorem relativeBytes_length (characters : Characters) (relative : Text) (encoding : QueryEncoding) :
    (relativeBytes characters relative encoding).1.length ≤
      (relativeBytes characters relative encoding).2 :=
  cString_length _

namespace KURL

variable {base : KURL} {str : List Byte} {len : Nat}

theorem Ordered.resolvePath_below (ordered : base.Ordered) (str : List Byte) :
    (base.resolvePath str).Below (base.pathEnd + 1 + str.length + 1) := by
  have portEnd : base.portEnd ≤ base.pathEnd :=
    Nat.le_trans ordered.pathAfterLastSlash ordered.pathEnd
  have front : (({} : Writer Byte).puts ((narrow base.string).take base.portEnd)).Below base.portEnd := by
    refine (Writer.below_start.puts _).mono ?_
    rw [Nat.zero_add]
    exact List.length_take_le _ _
  have path : ((((narrow base.string).take base.pathEnd).drop base.portEnd).rdropWhile
      (· ≠ 0x2f)).length ≤ base.pathEnd - base.portEnd := by
    refine Nat.le_trans (List.rdropWhile_prefix _ _).length_le ?_
    rw [List.length_drop]
    exact Nat.sub_le_sub_right (List.length_take_le _ _) _
  have assembled {p : Writer Byte} (below : p.Below (base.pathEnd + 1)) :
      ((resolveInto base.portEnd 0 p str).1.puts
        (resolveInto base.portEnd 0 p str).2).terminate.Below
          (base.pathEnd + 1 + str.length + 1) := by
    obtain ⟨written, inside, length⟩ := resolveInto_below below base.portEnd 0 str
    refine (inside.puts _).terminate.mono ?_
    omega
  unfold resolvePath
  apply assembled
  split_ifs
  · exact (front.put 0x2f).mono (Nat.succ_le_succ portEnd)
  · exact front.mono (Nat.le_succ_of_le portEnd)
  · refine (front.splice (copyPathInto_below _)).mono ?_
    omega

/-- What is resolved is written inside the buffers. -/
structure Resolved.Inside (resolved : Resolved) : Prop where
  fit : ∀ buffer ∈ resolved.buffers, buffer.Fits
  made : resolved.url.Made

theorem parse_inside (text : List Byte) : Resolved.Inside ⟨parse text, parseBuffers text⟩ :=
  ⟨parseBuffers_fit text, .parsed text⟩

theorem invalid_inside (relative : Text) : Resolved.Inside ⟨{ string := relative }, []⟩ :=
  ⟨fun _ member => absurd member List.not_mem_nil, .invalid relative⟩

theorem parseBuffer_inside {size : Nat} {p : Writer Byte} (fits : p.high ≤ size) :
    (parseBuffer size p).Inside := by
  refine ⟨fun buffer member => ?_, .parsed _⟩
  cases List.mem_cons.mp member with
  | inl first =>
    rw [first]
    exact fits
  | inr parsed => exact parseBuffers_fit _ buffer parsed

theorem parseAppended_inside (front str : List Byte) (len : Nat) :
    (parseAppended front str len).Inside :=
  parseBuffer_inside (Nat.le_refl _)

theorem resolveRelative_inside (made : base.Made) (relative : Text) (length : str.length ≤ len) :
    (base.resolveRelative relative str len).Inside := by
  unfold resolveRelative
  by_cases hierarchical : base.isHierarchical = true
  · have valid : base.isValid = true := (Bool.and_eq_true_iff.mp hierarchical).1
    have ordered := made.ordered valid
    rw [if_neg (by rw [hierarchical]; exact Bool.false_ne_true)]
    split_ifs
    · exact ⟨fun _ member => absurd member List.not_mem_nil, made⟩
    · exact parseAppended_inside _ _ _
    · exact parseAppended_inside _ _ _
    · exact parseAppended_inside _ _ _
    · exact parseAppended_inside _ _ _
    · refine parseBuffer_inside ((ordered.resolvePath_below str).mono ?_).high
      omega
  · rw [if_pos (by simpa using hierarchical)]
    split_ifs
    · exact parseAppended_inside _ _ _
    · exact invalid_inside relative

theorem init_inside (characters : Characters) (made : base.Made) (relative : Text)
    (encoding : QueryEncoding) : (base.init characters relative encoding).Inside := by
  have length := relativeBytes_length characters relative encoding
  unfold init
  split_ifs
  · exact invalid_inside relative
  · dsimp only
    split_ifs
    · apply resolveRelative_inside made
      refine Nat.le_trans ?_ length
      rw [List.length_tail, List.length_drop]
      omega
    · exact parse_inside _
    · exact resolveRelative_inside made relative length

/-- With an empty base it is `create`. -/
theorem init_empty (characters : Characters) (relative : Text) :
    (empty.init characters relative none).url = create characters relative := by
  have opaqueBase (str : List Byte) (len : Nat) (ended : cString str = str) :
      (empty.resolveRelative relative str len).url =
        if str.headD 0 = 0x23 then parse str else { string := relative } := by
    have front : narrow (empty.string.take empty.queryEnd) = [] := rfl
    have opaqueEmpty : (!empty.isHierarchical) = true := rfl
    rw [resolveRelative, if_pos opaqueEmpty, front]
    by_cases fragment : str.headD 0 = 0x23
    · rw [if_pos fragment, if_pos fragment]
      unfold parseAppended parseBuffer
      dsimp only
      rw [List.reverse_reverse, List.nil_append, ended]
    · rw [if_neg fragment, if_neg fragment]
  have ended (text : List Byte) : cString (cString text) = cString text := by
    unfold cString
    rw [List.takeWhile_takeWhile]
    simp only [and_self, Bool.decide_eq_true]
  have flat : empty.isHierarchical = false := rfl
  unfold init create
  rw [if_neg (by decide)]
  dsimp only [relativeBytes, encodeRelativeString]
  simp only [flat, Bool.and_false, Bool.false_eq_true, if_false]
  generalize text : List.rdropWhile _ _ = trimmed
  have stays := ended trimmed
  generalize cString trimmed = str at stays ⊢
  by_cases absolute : (isSchemeFirstChar (str.headD 0) &&
      decide ((str.drop (str.takeWhile isSchemeChar).length).headD 0 = 0x3a)) = true
  · rw [if_pos absolute, if_pos absolute]
  · rw [if_neg absolute, if_neg absolute]
    exact opaqueBase _ _ stays

end KURL

/-- Whatever is parsed or resolved is written inside its buffers, and a valid URL has its positions in
order. The first buffer of `parse` has the canonical text. -/
theorem buffers_hold (characters : Characters) :
    (∀ url : List Byte, (∀ buffer ∈ parseBuffers url, buffer.Fits) ∧
      ((KURL.parse url).isValid = true → (KURL.parse url).Ordered ∧
        ((parseBuffers url).head?.map fun buffer => widen buffer.writer.before.reverse) =
          some (KURL.parse url).string)) ∧
    ∀ base : KURL, base.Made → ∀ (relative : Text) (encoding : QueryEncoding),
      (∀ buffer ∈ (base.init characters relative encoding).buffers, buffer.Fits) ∧
      (base.init characters relative encoding).url.Made ∧
      ((base.init characters relative encoding).url.isValid = true →
        (base.init characters relative encoding).url.Ordered) := by
  constructor
  · intro url
    refine ⟨parseBuffers_fit url, fun valid => ⟨KURL.parse_ordered valid, ?_⟩⟩
    unfold KURL.parse parseBuffers at *
    cases split : splitURL url with
    | none =>
      rw [split] at valid
      cases valid
    | some parts => exact congrArg (fun text => some (widen text)) (assembleInto_before url parts)
  · intro base made relative encoding
    have inside := KURL.init_inside characters made relative encoding
    exact ⟨inside.fit, inside.made, inside.made.ordered⟩


theorem buffers_hold_relative :
    ∃ base : KURL, base.Made ∧ base.string = literal "http://h/a/b" ∧
      (base.init ⟨widen, narrow, id⟩ (literal "../c") none).url.string = literal "http://h/c" ∧
      (∀ buffer ∈ (base.init ⟨widen, narrow, id⟩ (literal "../c") none).buffers, buffer.Fits) ∧
      (base.init ⟨widen, narrow, id⟩ (literal "../c") none).url.Ordered := by
  have made : (KURL.parse (ascii "http://h/a/b")).Made := .parsed _
  obtain ⟨fit, -, ordered⟩ :=
    (buffers_hold ⟨widen, narrow, id⟩).2 _ made (literal "../c") none
  exact ⟨_, made, by decide, by decide, fit, ordered (by decide)⟩

end WkcBrowser.Url
