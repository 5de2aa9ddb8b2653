import Mathlib.Data.List.Find
import WkcBrowser.Dom.NodeListCaches
import WkcBrowser.Html.HTMLCollection

/-! When the calls of an HTML collection find what an enumeration of its elements finds. -/

namespace WkcBrowser.Html

open Lib Wtf Dom

/-! Loops along a list. -/

section
variable {N S : Type} {next : N → Option N} {items : List N} {steps : Nat}

theorem foldFrom_eq (follows : Follows next items) (enough : items.length ≤ steps)
    (body : S → N → S) (s : S) : foldFrom next body steps items.head? s = items.foldl body s := by
  induction items generalizing steps s with
  | nil => cases steps <;> rfl
  | cons n rest ih =>
    rw [List.length_cons] at enough
    obtain ⟨steps, rfl⟩ : ∃ more, steps = more + 1 := ⟨steps - 1, by omega⟩
    rw [List.head?_cons, foldFrom, follows.1, List.foldl_cons]
    exact ih follows.2 (by omega) _

theorem update_named (cache : Text → List N) (string : AtomicString) (e : N) {key : Text}
    (named : key ≠ []) :
    (if !string.isEmpty then
      Function.update cache (string.getD []) (cache (string.getD []) ++ [e])
    else cache) key = cache key ++ if string = some key then [e] else [] := by
  cases string with
  | none => simp [AtomicString.isEmpty]
  | some text =>
    by_cases same : text = key
    · have filled : (!AtomicString.isEmpty (some text)) = true := by
        simpa [AtomicString.isEmpty, same] using named
      rw [if_pos filled, if_pos (congrArg some same), same]
      exact Function.update_self ..
    · have other : some text ≠ some key := fun equal => same (Option.some.inj equal)
      rw [if_neg other, List.append_nil]
      split
      · exact Function.update_of_ne (Ne.symm same) ..
      · rfl

end

section
variable {N : Type} [Fintype N] [DecidableEq N]

namespace HTMLCollection

variable (collection : HTMLCollection N)

/-- The elements in the order of the document. -/
def elements : List N :=
  let walked :=
    if collection.type.deep then (collection.tree.nodes.inOrder collection.base).tail
    else collection.tree.nodes.childNodes collection.base
  walked.filter collection.has

/-- Among the children of a node the next sibling is the next in every way. -/
theorem traverseNextSibling_child (tree : Dom.Tree N) {base n : N}
    (child : n ∈ tree.nodes.childNodes base) :
    tree.nodes.traverseNextSibling (some base) n = tree.nodes.nextSibling n := by
  obtain ⟨contents, lists⟩ := tree.forest.linked.lists
  obtain ⟨-, -, -, -, -, -, nodup⟩ := tree.children_facts base
  have different : n ≠ base := by
    rintro rfl
    exact (List.nodup_cons.mp nodup).1 child
  rw [lists.childNodes_eq] at child
  have parent := (lists.parent base n).mp child
  rw [Nodes.traverseNextSibling, if_neg fun same => different (Option.some.inj same)]
  cases next : tree.nodes.nextSibling n with
  | some sibling => rfl
  | none =>
    obtain ⟨levels, card⟩ : ∃ levels, Fintype.card N = levels + 1 :=
      ⟨Fintype.card N - 1, by have := Fintype.card_pos_iff.mpr ⟨n⟩; omega⟩
    have stops : ¬(tree.nodes.nextSibling n = none ∧
        (some base = none ∨ tree.nodes.parentNode n ≠ some base)) := by
      rintro ⟨-, none | other⟩
      · cases none
      · exact other parent
    dsimp only
    rw [card, Nodes.climb, if_neg stops]
    exact next

theorem elements_facts : ∃ walked : List N, collection.elements = walked.filter collection.has ∧
    collection.tree.nodes.firstChild collection.base = walked.head? ∧
    Follows (fun n => collection.nextNodeOrSibling n collection.type.deep) walked ∧
    walked.length ≤ Fintype.card N ∧ walked.length < 2 ^ 31 ∧ walked.Nodup := by
  by_cases deep : collection.type.deep = true
  · obtain ⟨below, order, first, follows, -, small, bound, nodup⟩ :=
      collection.tree.below_facts collection.base
    rw [List.length_cons] at bound
    refine ⟨below, ?_, first, ?_, by omega, small, (List.nodup_cons.mp nodup).2⟩
    · rw [elements, if_pos deep, order, List.tail_cons]
    · simpa only [nextNodeOrSibling, if_pos deep] using follows
  · obtain ⟨first, -, follows, -, small, bound, nodup⟩ :=
      collection.tree.children_facts collection.base
    refine ⟨_, ?_, first, ?_, bound, small, (List.nodup_cons.mp nodup).2⟩
    · rw [elements, if_neg deep]
    · simp only [nextNodeOrSibling, if_neg deep]
      exact follows.congr fun n child => traverseNextSibling_child collection.tree child

theorem itemAfter_none : collection.itemAfter none = collection.elements.head? := by
  obtain ⟨walked, elements, first, follows, bound, -⟩ := collection.elements_facts
  rw [itemAfter, elements, first]
  exact search_eq follows bound

theorem follows_following : Follows collection.following collection.elements := by
  obtain ⟨walked, elements, -, follows, bound, -⟩ := collection.elements_facts
  rw [elements]
  exact follows_search follows bound

theorem elements_length_le : collection.elements.length ≤ Fintype.card N := by
  obtain ⟨walked, elements, -, -, bound, -⟩ := collection.elements_facts
  rw [elements]
  exact (List.length_filter_le _ _).trans bound

theorem elements_length_lt : collection.elements.length < 2 ^ 31 := by
  obtain ⟨walked, elements, -, -, -, small, -⟩ := collection.elements_facts
  rw [elements]
  exact (List.length_filter_le _ _).trans_lt small

theorem elements_nodup : collection.elements.Nodup := by
  obtain ⟨walked, elements, -, -, -, -, nodup⟩ := collection.elements_facts
  rw [elements]
  exact nodup.filter _

theorem calcLength_eq : collection.calcLength.toNat = collection.elements.length := by
  have small := collection.elements_length_lt
  rw [calcLength, itemAfter_none, toNat_countFrom collection.follows_following
    collection.elements_length_le (by rw [List.countP_true]; omega), List.countP_true]

/-- The elements from a place on. -/
theorem walk_from_place {i : Nat} {e : N} (there : collection.elements[i]? = some e) (steps : Nat) :
    walk collection.following steps (some e) = collection.elements[i + steps]? := by
  have follows := collection.follows_following
  rw [← List.take_append_drop i collection.elements] at follows
  rw [← there, ← List.head?_drop, walk_eq follows.append, List.getElem?_drop]

theorem itemAfter_place {i : Nat} {e : N} (there : collection.elements[i]? = some e) :
    collection.itemAfter (some e) = collection.elements[i + 1]? := by
  have walked := collection.walk_from_place there 1
  rw [← walked, walk]
  cases following : collection.following e <;> rw [← following] <;> rfl

/-! The names. -/

/-- What `updateNameCache` has to find under a name. -/
def carrying (checkName : Bool) (name : AtomicString) : List N :=
  collection.elements.filter fun e => collection.checkForNameMatch e checkName name

theorem findNamed_none (checkName : Bool) (name : AtomicString) :
    collection.findNamed none checkName name = (collection.carrying checkName name).head? := by
  rw [findNamed, itemAfter_none]
  exact search_eq collection.follows_following collection.elements_length_le

theorem findNamed_mem {previous : Option N} {checkName : Bool} {name : AtomicString} {e : N}
    (inside : ∀ e, previous = some e → e ∈ collection.elements)
    (found : collection.findNamed previous checkName name = some e) : e ∈ collection.elements := by
  have from_rest : ∀ i, collection.itemAfter previous = (collection.elements.drop i).head? →
      e ∈ collection.elements := by
    intro i start
    have follows := collection.follows_following
    rw [← List.take_append_drop i collection.elements] at follows
    have bound : (collection.elements.drop i).length ≤ Fintype.card N := by
      rw [List.length_drop]
      exact (Nat.sub_le _ _).trans collection.elements_length_le
    rw [findNamed, start, search_eq follows.append bound] at found
    exact List.mem_of_mem_drop (List.mem_of_mem_filter (List.mem_of_head? found))
  cases previous with
  | none => exact from_rest 0 collection.itemAfter_none
  | some p =>
    obtain ⟨i, there⟩ := List.mem_iff_getElem?.mp (inside p rfl)
    refine from_rest (i + 1) ?_
    rw [List.head?_drop]
    exact collection.itemAfter_place there

/-- Names are all that an element adds. -/
theorem addNames_eq (info : CollectionCache N) (e : N) : collection.addNames info e =
    { info with
      idCache :=
        if (collection.data e).isHTMLElement then
          if !(collection.data e).id.isEmpty then
            Function.update info.idCache ((collection.data e).id.getD [])
              (info.idCache ((collection.data e).id.getD []) ++ [e])
          else info.idCache
        else info.idCache
      nameCache :=
        if (collection.data e).isHTMLElement ∧ (collection.data e).id ≠ (collection.data e).name ∧
            collection.type.returnsByName (collection.data e) then
          if !(collection.data e).name.isEmpty then
            Function.update info.nameCache ((collection.data e).name.getD [])
              (info.nameCache ((collection.data e).name.getD []) ++ [e])
          else info.nameCache
        else info.nameCache } := by
  rw [addNames]
  by_cases html : (collection.data e).isHTMLElement = true
  · by_cases id : (collection.data e).id.isEmpty = true <;>
      by_cases name : (collection.data e).name.isEmpty = true <;>
      by_cases same : (collection.data e).id = (collection.data e).name <;>
      by_cases returned : collection.type.returnsByName (collection.data e) = true <;>
      simp [html, id, name, same, returned]
  · simp [html]

/-- What one element adds to the caches. -/
theorem addNames_spec (info : CollectionCache N) (e : N) {key : Text} (named : key ≠ []) :
    (collection.addNames info e).idCache key =
        info.idCache key ++ [e].filter (collection.checkForNameMatch · false (some key)) ∧
      (collection.addNames info e).nameCache key =
        info.nameCache key ++ [e].filter (collection.checkForNameMatch · true (some key)) := by
  rw [addNames_eq]
  dsimp only
  constructor
  · by_cases html : (collection.data e).isHTMLElement = true
    · rw [if_pos html, update_named _ _ e named]
      congr 1
      simp only [List.filter_cons, checkForNameMatch, html]
      simp
    · rw [if_neg html]
      simp [checkForNameMatch, html]
  · by_cases counted : (collection.data e).isHTMLElement = true ∧
        (collection.data e).id ≠ (collection.data e).name ∧
          collection.type.returnsByName (collection.data e) = true
    · obtain ⟨html, different, returned⟩ := counted
      rw [if_pos ⟨html, different, returned⟩, update_named _ _ e named]
      congr 1
      simp only [List.filter_cons, checkForNameMatch, html, returned]
      grind
    · rw [if_neg counted]
      simp only [List.filter_cons, checkForNameMatch]
      grind

theorem foldl_addNames (items : List N) (info : CollectionCache N) {key : Text} (named : key ≠ []) :
    (items.foldl collection.addNames info).idCache key =
        info.idCache key ++ items.filter (collection.checkForNameMatch · false (some key)) ∧
      (items.foldl collection.addNames info).nameCache key =
        info.nameCache key ++ items.filter (collection.checkForNameMatch · true (some key)) := by
  induction items generalizing info with
  | nil => simp
  | cons e items ih =>
    obtain ⟨ids, names⟩ := ih (collection.addNames info e)
    obtain ⟨id, name⟩ := collection.addNames_spec info e named
    rw [List.foldl_cons, ids, names, id, name, List.append_assoc, List.append_assoc,
      ← List.filter_append, ← List.filter_append]
    exact ⟨rfl, rfl⟩

theorem foldl_addNames_frame (items : List N) (info : CollectionCache N) :
    ∃ idCache nameCache, items.foldl collection.addNames info = { info with idCache, nameCache } := by
  induction items generalizing info with
  | nil => exact ⟨info.idCache, info.nameCache, rfl⟩
  | cons e items ih =>
    obtain ⟨idCache, nameCache, rest⟩ := ih (collection.addNames info e)
    exact ⟨idCache, nameCache, by rw [List.foldl_cons, rest, addNames_eq]⟩

/-- What the cache holds is so. -/
structure Sound (info : CollectionCache N) : Prop where
  version : info.version = collection.domTreeVersion
  current : ∀ e, info.current = some e → e ∈ collection.elements
  length : info.hasLength = true → info.length.toNat = collection.elements.length
  named : info.hasNameCache = true → ∀ key ≠ [],
    info.idCache key = collection.carrying false (some key) ∧
      info.nameCache key = collection.carrying true (some key)
  unnamed : info.hasNameCache = false → info.idCache = (fun _ => []) ∧ info.nameCache = fun _ => []

/-- What the next call finds in the cache is so. -/
def Valid : Prop := collection.Sound collection.resetInfo

variable {collection}

theorem resetInfo_none (has : collection.info = none) :
    collection.resetInfo = { version := collection.domTreeVersion } := by
  rw [resetInfo, has]

theorem resetInfo_some {info : CollectionCache N} (has : collection.info = some info)
    (other : info.version ≠ collection.domTreeVersion) :
    collection.resetInfo = { version := collection.domTreeVersion } := by
  rw [resetInfo, has]
  exact if_pos other

theorem Sound.new {info : CollectionCache N}
    (new : info = { version := collection.domTreeVersion }) : collection.Sound info := by
  subst new
  exact
    { version := rfl
      current := fun _ has => by cases has
      length := fun has => by cases has
      named := fun has => by cases has
      unnamed := fun _ => ⟨rfl, rfl⟩ }

/-- A cache that was just used is used again. -/
theorem Sound.valid {info : CollectionCache N} (sound : collection.Sound info) (idsDone : Bool) :
    ({ collection.put info with idsDone } : HTMLCollection N).Valid := by
  have same : ({ collection.put info with idsDone } : HTMLCollection N).resetInfo = info :=
    if_neg fun other => other sound.version
  rw [Valid, same]
  exact ⟨sound.version, sound.current, sound.length, sound.named, sound.unnamed⟩

theorem Sound.valid_put {info : CollectionCache N} (sound : collection.Sound info) :
    (collection.put info).Valid := sound.valid collection.idsDone

theorem Sound.move {info : CollectionCache N} (sound : collection.Sound info) {current : Option N}
    (inside : ∀ e, current = some e → e ∈ collection.elements) (position : BitVec 32) :
    collection.Sound { info with current, position } :=
  ⟨sound.version, inside, sound.length, sound.named, sound.unnamed⟩

theorem Sound.updateNameCache {info : CollectionCache N} (sound : collection.Sound info) :
    collection.Sound (collection.updateNameCache info) ∧
      (collection.updateNameCache info).hasNameCache = true := by
  rw [HTMLCollection.updateNameCache]
  by_cases has : info.hasNameCache = true
  · rw [if_pos has]
    exact ⟨sound, has⟩
  · rw [if_neg has]
    obtain ⟨ids, names⟩ := sound.unnamed (Bool.not_eq_true _ ▸ has)
    have fold := foldFrom_eq collection.follows_following collection.elements_length_le
      collection.addNames info
    obtain ⟨idCache, nameCache, frame⟩ := collection.foldl_addNames_frame collection.elements info
    have spec := fun key => @foldl_addNames N _ _ collection collection.elements info key
    dsimp only
    rw [itemAfter_none, fold]
    rw [frame] at spec ⊢
    refine ⟨⟨sound.version, sound.current, sound.length, fun _ key named => ?_, (nomatch ·)⟩, rfl⟩
    obtain ⟨id, name⟩ := spec key named
    rw [ids] at id
    rw [names] at name
    exact ⟨id, name⟩

/-! The calls. -/

theorem length_agrees (valid : collection.Valid) :
    collection.length.1.toNat = collection.elements.length ∧ collection.length.2.Valid := by
  rw [length]
  dsimp only
  by_cases has : collection.resetInfo.hasLength = true
  · rw [if_pos has]
    exact ⟨Sound.length valid has, Sound.valid_put valid⟩
  · rw [if_neg has]
    refine ⟨collection.calcLength_eq, Sound.valid_put ?_⟩
    exact ⟨valid.version, valid.current, fun _ => collection.calcLength_eq, valid.named,
      valid.unnamed⟩

/-- The cached element is at the cached position, or the walk does not start there, or it comes to
an end as it should. -/
def Reaches (collection : HTMLCollection N) (index : BitVec 32) : Prop :=
  let info := collection.resetInfo
  ∀ i e, info.current = some e → collection.elements[i]? = some e →
    i = info.position.toNat ∨ index < info.position ∨
      info.position < index ∧ collection.elements.length ≤ index.toNat ∧
        (info.hasLength = true ∨
          collection.elements.length ≤ i + (index.toNat - info.position.toNat))

/-- What `item` finds. -/
theorem item_eq (index : BitVec 32) : (collection.item index).1 =
    let info := collection.resetInfo
    if info.current ≠ none ∧ info.position = index then info.current
    else if info.hasLength ∧ info.length ≤ index then none
    else if info.current = none ∨ info.position > index then collection.elements[index.toNat]?
    else walk collection.following (index - info.position).toNat info.current := by
  rw [item]
  generalize collection.resetInfo = info
  dsimp only
  by_cases here : info.current ≠ none ∧ info.position = index
  · rw [if_pos here, if_pos here]
  · rw [if_neg here, if_neg here]
    by_cases past : info.hasLength = true ∧ info.length ≤ index
    · rw [if_pos past, if_pos past]
    · rw [if_neg past, if_neg past]
      by_cases first : info.current = none ∨ info.position > index
      · rw [if_pos first, if_pos first, itemAfter_none]
        dsimp only
        by_cases empty : collection.elements.head? = none
        · rw [if_pos empty, List.head?_eq_none_iff.mp empty]
          rfl
        · have start : (index - 0).toNat = index.toNat := congrArg BitVec.toNat (BitVec.sub_zero index)
          rw [if_neg empty, start]
          exact walk_eq collection.follows_following _
      · rw [if_neg first, if_neg first]
        dsimp only
        rw [if_neg fun none => first (.inl none)]

/-- What `item` leaves in the cache. -/
theorem item_after (index : BitVec 32) : ∃ current position,
    (collection.item index).2 = collection.put { collection.resetInfo with current, position } ∧
      (current = collection.resetInfo.current ∨ current = (collection.item index).1) := by
  rw [item]
  generalize collection.resetInfo = info
  dsimp only
  by_cases here : info.current ≠ none ∧ info.position = index
  · rw [if_pos here]
    exact ⟨info.current, info.position, rfl, .inl rfl⟩
  · rw [if_neg here]
    by_cases past : info.hasLength = true ∧ info.length ≤ index
    · rw [if_pos past]
      exact ⟨info.current, info.position, rfl, .inl rfl⟩
    · rw [if_neg past]
      generalize (if info.current = none ∨ info.position > index then
        (collection.itemAfter none, 0) else (info.current, info.position)) = start
      by_cases empty : start.1 = none
      · rw [if_pos empty]
        exact ⟨start.1, start.2, rfl, .inr empty⟩
      · rw [if_neg empty]
        exact ⟨_, index, rfl, .inr rfl⟩

theorem item_mem (valid : collection.Valid) {index : BitVec 32} {e : N}
    (found : (collection.item index).1 = some e) : e ∈ collection.elements := by
  rw [item_eq] at found
  rw [Valid] at valid
  generalize collection.resetInfo = info at found valid
  dsimp only at found
  by_cases here : info.current ≠ none ∧ info.position = index
  · rw [if_pos here] at found
    exact valid.current e found
  · rw [if_neg here] at found
    by_cases past : info.hasLength = true ∧ info.length ≤ index
    · rw [if_pos past] at found
      cases found
    · rw [if_neg past] at found
      by_cases first : info.current = none ∨ info.position > index
      · rw [if_pos first] at found
        exact List.mem_of_getElem? found
      · rw [if_neg first] at found
        obtain ⟨c, current⟩ := Option.ne_none_iff_exists'.mp fun none => first (.inl none)
        obtain ⟨i, there⟩ := List.mem_iff_getElem?.mp (valid.current c current)
        rw [current, collection.walk_from_place there] at found
        exact List.mem_of_getElem? found

theorem item_valid (valid : collection.Valid) (index : BitVec 32) :
    (collection.item index).2.Valid := by
  obtain ⟨current, position, after, rfl | rfl⟩ := collection.item_after index
  · rw [after]
    exact (Sound.move valid (Sound.current valid) position).valid_put
  · rw [after]
    exact (Sound.move valid (fun e found => item_mem valid found) position).valid_put

theorem item_agrees_iff (valid : collection.Valid) (index : BitVec 32) :
    (collection.item index).1 = collection.elements[index.toNat]? ↔ collection.Reaches index := by
  rw [item_eq, Reaches]
  rw [Valid] at valid
  generalize collection.resetInfo = info at valid ⊢
  dsimp only
  cases current : info.current with
  | none =>
    rw [if_neg fun both => both.1 rfl]
    refine iff_of_true ?_ fun i e none => by cases none
    by_cases past : info.hasLength = true ∧ info.length ≤ index
    · have beyond : collection.elements.length ≤ index.toNat := by
        rw [← valid.length past.1]
        exact past.2
      rw [if_pos past, List.getElem?_eq_none beyond]
    · rw [if_neg past, if_pos (.inl rfl)]
  | some e =>
    obtain ⟨i, there⟩ := List.mem_iff_getElem?.mp (valid.current e current)
    obtain ⟨inside, -⟩ := List.getElem?_eq_some_iff.mp there
    have place : ∀ j, collection.elements[j]? = some e ↔ j = i := by
      intro j
      constructor
      · intro also
        exact ((List.getElem?_inj inside collection.elements_nodup).mp (there.trans also.symm)).symm
      · rintro rfl
        exact there
    have narrowed : ∀ condition : Nat → Prop, (∀ j e', some e = some e' →
        collection.elements[j]? = some e' → condition j) ↔ condition i := by
      intro condition
      constructor
      · exact fun all => all i e rfl there
      · rintro holds j e' ⟨⟩ also
        rw [(place j).mp also]
        exact holds
    rw [narrowed]
    by_cases here : info.position = index
    · rw [if_pos ⟨Option.some_ne_none e, here⟩, eq_comm, place, here]
      constructor
      · exact fun same => .inl same.symm
      · rintro (same | before | after)
        · exact same.symm
        · exact absurd before (BitVec.lt_irrefl index)
        · exact absurd after.1 (BitVec.lt_irrefl index)
    · have apart : info.position.toNat ≠ index.toNat := fun same => here (BitVec.toNat_inj.mp same)
      rw [if_neg fun both => here both.2]
      by_cases past : info.hasLength = true ∧ info.length ≤ index
      · have beyond : collection.elements.length ≤ index.toNat := by
          rw [← valid.length past.1]
          exact past.2
        rw [if_pos past, List.getElem?_eq_none beyond]
        refine iff_of_true rfl ?_
        by_cases before : index < info.position
        · exact .inr (.inl before)
        · have after : info.position < index :=
            Nat.lt_of_le_of_ne (Nat.le_of_not_lt before) apart
          exact .inr (.inr ⟨after, beyond, .inl past.1⟩)
      · rw [if_neg past]
        by_cases before : info.position > index
        · rw [if_pos (.inr before)]
          exact iff_of_true rfl (.inr (.inl before))
        · have after : info.position < index :=
            Nat.lt_of_le_of_ne (Nat.le_of_not_lt before) apart
          have less : info.position.toNat < index.toNat := after
          have distance : (index - info.position).toNat = index.toNat - info.position.toNat :=
            BitVec.toNat_sub_of_le (BitVec.le_of_lt after)
          rw [if_neg (not_or.mpr ⟨Option.some_ne_none e, before⟩),
            collection.walk_from_place there, distance]
          constructor
          · intro same
            by_cases within : index.toNat < collection.elements.length
            · have equal := (List.getElem?_inj within collection.elements_nodup).mp same.symm
              exact .inl (by omega)
            · have none := List.getElem?_eq_none (Nat.le_of_not_lt within)
              have outside := List.getElem?_eq_none_iff.mp (same.trans none)
              exact .inr (.inr ⟨after, Nat.le_of_not_lt within, .inr outside⟩)
          · rintro (same | less | ⟨-, beyond, has | outside⟩)
            · congr 1
              omega
            · exact absurd less before
            · refine absurd ⟨has, ?_⟩ past
              change info.length.toNat ≤ index.toNat
              rwa [valid.length has]
            · rw [List.getElem?_eq_none outside, List.getElem?_eq_none beyond]

theorem nextItem_valid (valid : collection.Valid) : collection.nextItem.2.Valid := by
  refine Sound.valid_put (Sound.move valid ?_ _)
  intro e found
  cases current : collection.resetInfo.current with
  | none =>
    rw [current, itemAfter_none] at found
    exact List.mem_of_head? found
  | some c =>
    obtain ⟨i, there⟩ := List.mem_iff_getElem?.mp (Sound.current valid c current)
    rw [current, collection.itemAfter_place there] at found
    exact List.mem_of_getElem? found

/-- The element after one that is there is found exactly when that one is cached. -/
theorem nextItem_agrees_iff (valid : collection.Valid) {i : Nat} {e : N}
    (there : collection.elements[i]? = some e) :
    collection.nextItem.1 = collection.elements[i + 1]? ↔
      collection.resetInfo.current = some e := by
  obtain ⟨inside, -⟩ := List.getElem?_eq_some_iff.mp there
  change collection.itemAfter collection.resetInfo.current = _ ↔ _
  cases current : collection.resetInfo.current with
  | none =>
    rw [itemAfter_none, List.head?_eq_getElem?]
    refine iff_of_false (fun same => ?_) (nomatch ·)
    have equal := (List.getElem?_inj (by omega) collection.elements_nodup).mp same
    omega
  | some c =>
    obtain ⟨j, place⟩ := List.mem_iff_getElem?.mp (Sound.current valid c current)
    obtain ⟨within, -⟩ := List.getElem?_eq_some_iff.mp place
    rw [collection.itemAfter_place place]
    constructor
    · intro same
      have equal : j = i := by
        by_cases more : j + 1 < collection.elements.length
        · have equal := (List.getElem?_inj more collection.elements_nodup).mp same
          omega
        · have none := List.getElem?_eq_none (Nat.le_of_not_lt more)
          have outside := List.getElem?_eq_none_iff.mp (same.symm.trans none)
          omega
      rw [← place, ← there, equal]
    · intro same
      rw [same] at place
      have equal := (List.getElem?_inj within collection.elements_nodup).mp (place.trans there.symm)
      rw [equal]

/-- An element that has the name as its name, if it is one that may. -/
def hasName (collection : HTMLCollection N) (name : AtomicString) (element : N) : Bool :=
  let e := collection.data element
  e.isHTMLElement && collection.type.returnsByName e && e.name = name

/-- The first element with the id, or else with the name. -/
def firstNamed (collection : HTMLCollection N) (name : AtomicString) : Option N :=
  (collection.elements.find? (collection.checkForNameMatch · false name)).or
    (collection.elements.find? (collection.hasName name))

theorem namedItem_eq (name : AtomicString) :
    (collection.namedItem name).1 = collection.firstNamed name := by
  rw [namedItem, firstNamed]
  simp only [findNamed_none, carrying, List.head?_filter]
  cases byId : collection.elements.find? (collection.checkForNameMatch · false name) with
  | some e => rfl
  | none =>
    rw [Option.none_or]
    have without := List.find?_eq_none.mp byId
    refine List.find?_congr fun e member => ?_
    have otherId := without e member
    unfold hasName
    unfold checkForNameMatch at otherId ⊢
    grind

theorem namedItem_valid (valid : collection.Valid) (name : AtomicString) :
    (collection.namedItem name).2.Valid := by
  have inside : ∀ checkName e, collection.findNamed none checkName name = some e →
      e ∈ collection.elements := by
    exact fun checkName e found => findNamed_mem collection (by rintro _ ⟨⟩) found
  rw [namedItem]
  cases byId : collection.findNamed none false name with
  | some e =>
    refine Sound.valid (Sound.move valid ?_ _) false
    rintro e' ⟨⟩
    exact inside false e byId
  | none => exact Sound.valid (Sound.move valid (inside true) _) true

theorem nextNamedItem_valid (valid : collection.Valid) (name : AtomicString) :
    (collection.nextNamedItem name).2.Valid := by
  have inside : ∀ checkName e,
      collection.findNamed collection.resetInfo.current checkName name = some e →
        e ∈ collection.elements :=
    fun checkName e found => findNamed_mem collection (Sound.current valid) found
  have moved : ∀ e, e ∈ collection.elements → ∀ e', some e = some e' → e' ∈ collection.elements := by
    rintro e member e' ⟨⟩
    exact member
  rw [nextNamedItem]
  dsimp only
  cases first : collection.findNamed collection.resetInfo.current collection.idsDone name with
  | some e => exact Sound.valid_put (Sound.move valid (moved e (inside _ e first)) _)
  | none =>
    by_cases done : collection.idsDone = true
    · rw [if_pos done]
      exact Sound.valid_put (Sound.move valid (by rintro _ ⟨⟩) _)
    · rw [if_neg done]
      cases second : collection.findNamed collection.resetInfo.current true name with
      | some e => exact Sound.valid (Sound.move valid (moved e (inside _ e second)) _) true
      | none => exact Sound.valid valid true

theorem namedItems_agrees (valid : collection.Valid) (name : AtomicString) :
    (collection.namedItems name).1 =
        (if name.isEmpty then [] else collection.carrying false name ++ collection.carrying true name) ∧
      (collection.namedItems name).2.Valid := by
  rw [namedItems]
  by_cases empty : name.isEmpty = true
  · rw [if_pos empty, if_pos empty]
    exact ⟨rfl, valid⟩
  · rw [if_neg empty, if_neg empty]
    obtain ⟨sound, has⟩ := Sound.updateNameCache valid
    cases name with
    | none => exact absurd rfl empty
    | some key =>
      obtain ⟨ids, names⟩ := sound.named has key (by rintro rfl; exact empty rfl)
      dsimp only
      rw [Option.getD_some, ids, names]
      exact ⟨rfl, sound.valid_put⟩

/-! Runs of calls. -/

/-- The collection, and what the last `item`, `firstItem` or `nextItem` call returned. -/
def follow (now : HTMLCollection N × Option N) (event : Event N) : HTMLCollection N × Option N :=
  (now.1.step event, match event with
    | .item index => (now.1.item index).1
    | .firstItem => now.1.firstItem.1
    | .nextItem => now.1.nextItem.1
    | _ => now.2)

/-- A call finds what an enumeration of the elements finds. -/
def Agrees (now : HTMLCollection N × Option N) : Event N → Prop
  | .length => now.1.length.1.toNat = now.1.elements.length
  | .item index => (now.1.item index).1 = now.1.elements[index.toNat]?
  | .firstItem => now.1.firstItem.1 = now.1.elements.head?
  | .nextItem => ∀ e i, now.2 = some e → now.1.elements[i]? = some e →
      now.1.nextItem.1 = now.1.elements[i + 1]?
  | .namedItem name => (now.1.namedItem name).1 = now.1.firstNamed name
  | .nextNamedItem _ => True
  | .namedItems name => (now.1.namedItems name).1 =
      if name.isEmpty then [] else now.1.carrying false name ++ now.1.carrying true name
  | .change .. => True

/-- The cached element is where the call takes it to be. -/
def InPlace (now : HTMLCollection N × Option N) : Event N → Prop
  | .item index => now.1.Reaches index
  | .firstItem => now.1.Reaches 0
  | .nextItem => ∀ e ∈ now.1.elements, now.2 = some e → now.1.resetInfo.current = some e
  | _ => True

/-- The version of a changed document is not the one that the cache was filled at. -/
def NewVersion (now : HTMLCollection N × Option N) : Event N → Prop
  | .change _ _ domTreeVersion => ∀ info, now.1.info = some info → info.version ≠ domTreeVersion
  | _ => True

theorem agrees_iff {now : HTMLCollection N × Option N} (valid : now.1.Valid) (event : Event N) :
    Agrees now event ↔ InPlace now event := by
  cases event with
  | length => exact iff_of_true (length_agrees valid).1 trivial
  | item index => exact item_agrees_iff valid index
  | firstItem =>
    have first := item_agrees_iff valid 0
    rwa [show (0 : BitVec 32).toNat = 0 from rfl, ← List.head?_eq_getElem?] at first
  | nextItem =>
    constructor
    · intro agrees e member returned
      obtain ⟨i, there⟩ := List.mem_iff_getElem?.mp member
      exact (nextItem_agrees_iff valid there).mp (agrees e i returned there)
    · intro place e i returned there
      exact (nextItem_agrees_iff valid there).mpr (place e (List.mem_of_getElem? there) returned)
  | namedItem name => exact iff_of_true (namedItem_eq name) trivial
  | nextNamedItem name => exact Iff.rfl
  | namedItems name => exact iff_of_true (namedItems_agrees valid name).1 trivial
  | change => exact Iff.rfl

theorem step_valid {now : HTMLCollection N × Option N} (valid : now.1.Valid) (event : Event N)
    (new : NewVersion now event) : (now.1.step event).Valid := by
  cases event with
  | length => exact (length_agrees valid).2
  | item index => exact item_valid valid index
  | firstItem => exact item_valid valid 0
  | nextItem => exact nextItem_valid valid
  | namedItem name => exact namedItem_valid valid name
  | nextNamedItem name => exact nextNamedItem_valid valid name
  | namedItems name => exact (namedItems_agrees valid name).2
  | change tree data domTreeVersion =>
    refine Sound.new ?_
    cases has : now.1.info with
    | none => exact resetInfo_none has
    | some info => exact resetInfo_some has (new info has)

/-- As long as versions do not come back, the calls of a run agree with enumerations exactly when
each finds the cached element in its place. -/
theorem enumerates_along_iff (base : N) (type : CollectionType) (name : AtomicString) (tree : Dom.Tree N)
    (data : N → ElementData) (domTreeVersion : BitVec 32) (events : List (Event N))
    (new : Along follow NewVersion (create base type name tree data domTreeVersion, none) events) :
    Along follow Agrees (create base type name tree data domTreeVersion, none) events ↔
      Along follow InPlace (create base type name tree data domTreeVersion, none) events := by
  have start : (create base type name tree data domTreeVersion).Valid := by
    refine Sound.new ?_
    rw [resetInfo, create]
    dsimp only
    by_cases document : tree.nodes.nodeType base = .document
    · rw [if_pos document]
      by_cases zero : (0 : BitVec 32) = domTreeVersion
      · subst zero
        rfl
      · exact if_pos zero
    · rw [if_neg document]
  exact along_iff (fun now => now.1.Valid) (fun now event valid _ => agrees_iff valid event)
    (fun now event valid new _ => step_valid valid event new) _ _ start new

end HTMLCollection

end

/-- A map with two areas, the second in the first, of which the second has an id. -/
def areas (n : Fin 3) : ElementData where
  isHTMLElement := true
  localName := if n = 0 then .other else .area
  inHTMLNamespace := true
  id := if n = 2 then some [0x78] else none
  name := none
  href := none
  containsJavaApplet := false
  isDocNamedItem := false
  disabled := false
  value := none

/-- After the second area is found by its id it is taken for the first item. -/
theorem HTMLCollection.not_enumerates : ∃ tree : Dom.Tree (Fin 3), ¬Along HTMLCollection.follow
    HTMLCollection.Agrees (HTMLCollection.create 0 .mapAreas none tree areas 1, none)
    [.namedItem (some [0x78]), .item 0] := by
  refine ⟨⟨chain, chain_forest, by decide⟩, fun along => ?_⟩
  have first := along.2.1
  revert first
  unfold HTMLCollection.Agrees
  decide

/-- The length is found again after a change. -/
theorem HTMLCollection.enumerates_along_iff_areas : ∃ tree : Dom.Tree (Fin 3), Along HTMLCollection.follow
    HTMLCollection.Agrees (HTMLCollection.create 0 .mapAreas none tree areas 1, none)
    [.length, .change tree areas 2, .length] := by
  refine ⟨⟨chain, chain_forest, by decide⟩,
    (HTMLCollection.enumerates_along_iff 0 .mapAreas none _ areas 1 _ ?_).mpr ?_⟩
  · refine ⟨trivial, fun info has => ?_, trivial, trivial⟩
    have version : 1 = info.version := congrArg CollectionCache.version (Option.some.inj has)
    rw [← version]
    decide
  · exact ⟨trivial, trivial, trivial, trivial⟩

end WkcBrowser.Html
