import Mathlib.Data.Int.Order.Basic
import Mathlib.Data.List.MinMax
import Mathlib.Data.Prod.Lex
import Mathlib.NumberTheory.LegendreSymbol.Basic
import Mathlib.Tactic.NormNum.Prime
import WkcBrowser.Page.FocusController

/-! The search for the next focusable node on a page without frames and scrollable containers: what is
found is the best aligned and closest node, as long as that is on the screen. -/

namespace WkcBrowser.Page

open Graphics Dom OrderedTree

/-- No sum of two squares is the largest number of 63 bits, which is divisible by the prime 127 once. -/
theorem sum_squares_ne_maxDistance (dx dy : Int) : dx * dx + dy * dy ≠ maxDistance := by
  have prime : Fact (Nat.Prime 127) := ⟨by norm_num⟩
  intro sum
  have squares : (dx : ZMod 127) ^ 2 = -(dy : ZMod 127) ^ 2 := by
    have cast : ((dx * dx + dy * dy : Int) : ZMod 127) = (maxDistance : ZMod 127) := by rw [sum]
    have zero : (maxDistance : ZMod 127) = 0 :=
      (ZMod.intCast_zmod_eq_zero_iff_dvd _ 127).mpr (by decide)
    rw [zero] at cast
    push_cast at cast
    rw [sq, sq]
    exact eq_neg_of_add_eq_zero_left cast
  have dy_zero : (dy : ZMod 127) = 0 := by
    by_contra nonzero
    exact ZMod.mod_four_ne_three_of_sq_eq_neg_sq' nonzero squares (by decide)
  have dx_zero : (dx : ZMod 127) = 0 := by
    rw [dy_zero] at squares
    simpa using squares
  have dvd_x := (ZMod.intCast_zmod_eq_zero_iff_dvd dx 127).mp dx_zero
  have dvd_y := (ZMod.intCast_zmod_eq_zero_iff_dvd dy 127).mp dy_zero
  have dvd : ((127 : Nat) : Int) * (127 : Nat) ∣ maxDistance :=
    sum ▸ dvd_add (mul_dvd_mul dvd_x dvd_x) (mul_dvd_mul dvd_y dvd_y)
  revert dvd
  decide

/-- The distance of two boxes is never taken for the largest one. -/
theorem spatialDistance_ne_maxDistance (direction : FocusDirection) (a b : IntRect) :
    spatialDistance direction a b ≠ maxDistance := by
  have squares : ∀ dx dy : Int, (if dx * dx + dy * dy < 0 then -(dx * dx + dy * dy)
      else dx * dx + dy * dy) = dx * dx + dy * dy := by
    intro dx dy
    have dx_nonneg := mul_self_nonneg dx
    have dy_nonneg := mul_self_nonneg dy
    rw [if_neg (by omega)]
  unfold spatialDistance
  simp only [squares]
  exact sum_squares_ne_maxDistance _ _

namespace Documents

variable (page : Documents)

/-- There are neither frames nor scrollable containers. -/
structure Flat : Prop where
  frames : ∀ node, (page.data node).isFrameOwnerElement = false
  blocks : ∀ node, page.isScrollableBlock node = false

/-- The nodes of the main document in document order. -/
def nodes : List NodeId := ((page.document []).tree.below []).map (⟨[], ·⟩)

/-- The boxes of two nodes as they are compared. -/
def boxes (start node : NodeId) : IntRect × IntRect :=
  deflateIfOverlapped (page.renderRectRelativeToRootDocument start)
    (page.renderRectRelativeToRootDocument node)

/-- A node lies in a direction from another, and neither box is empty. -/
def lies (direction : FocusDirection) (start node : NodeId) : Bool :=
  (page.renderer start).isSome && (page.renderer node).isSome && !(page.boxes start node).1.isEmpty &&
    !(page.boxes start node).2.isEmpty &&
      isRectInDirection direction (page.boxes start node).1 (page.boxes start node).2

/-- Neither box starts left of or above the page, unless there is something to scroll. -/
def onPage (start node : NodeId) : Bool :=
  page.checkNegativeCoordsForNode start (page.boxes start node).1 &&
    page.checkNegativeCoordsForNode node (page.boxes start node).2

def alignment (direction : FocusDirection) (start node : NodeId) : RectsAlignment :=
  alignmentForRects direction (page.boxes start node).1 (page.boxes start node).2

def distance (direction : FocusDirection) (start node : NodeId) : Int :=
  spatialDistance direction (page.boxes start node).1 (page.boxes start node).2

instance : Preorder (Int ×ₗ Int) :=
  (inferInstance : LinearOrder (Int ×ₗ Int)).toPreorder

/-- The better alignment comes first, and then the smaller distance. -/
def key (direction : FocusDirection) (start node : NodeId) : Int ×ₗ Int :=
  toLex (-((page.alignment direction start node).rank : Int), page.distance direction start node)

/-- The first of the best elements of a list. -/
structure IsFirstBest (direction : FocusDirection) (start : NodeId) (nodes : List NodeId)
    (node : NodeId) : Prop where
  mem : node ∈ nodes
  best : ∀ other ∈ nodes, page.key direction start node ≤ page.key direction start other
  first : ∀ other ∈ nodes, page.key direction start other ≤ page.key direction start node →
    nodes.idxOf node ≤ nodes.idxOf other

/-- The nodes among which the best is looked for. -/
def qualifies (focusedNode : NodeId) (direction : FocusDirection) (specificRect : Option IntRect)
    (node : NodeId) : Bool :=
  page.isCandidate focusedNode node specificRect && page.lies direction focusedNode node &&
    page.onPage focusedNode node

section
variable {page : Documents} {focusedNode node : NodeId} {direction : FocusDirection}
  {specificRect : Option IntRect} {candidate : FocusCandidate}

theorem distanceDataForNode_of_lies (lies : page.lies direction focusedNode node = true)
    (onPage : page.onPage focusedNode node = true) :
    page.distanceDataForNode direction focusedNode node candidate =
      { candidate with
        alignment := page.alignment direction focusedNode node
        distance := page.distance direction focusedNode node } := by
  simp only [Documents.lies, Bool.and_eq_true, Bool.not_eq_true'] at lies
  obtain ⟨⟨⟨⟨start, target⟩, start_box⟩, target_box⟩, inside⟩ := lies
  obtain ⟨renderer, start⟩ := Option.isSome_iff_exists.mp start
  obtain ⟨renderer', target⟩ := Option.isSome_iff_exists.mp target
  obtain ⟨start_coords, target_coords⟩ := Bool.and_eq_true_iff.mp onPage
  have area : ¬(page.boxes focusedNode node).2.width ≤ 0 ∧ ¬(page.boxes focusedNode node).2.height ≤ 0 := by
    simpa only [IntRect.isEmpty, Bool.or_eq_false_iff, decide_eq_false_iff_not] using target_box
  rw [distanceDataForNode, start, target]
  change (if ((page.boxes focusedNode node).1.isEmpty || (page.boxes focusedNode node).2.isEmpty ||
    decide ((page.boxes focusedNode node).2.width ≤ 0) ||
    decide ((page.boxes focusedNode node).2.height ≤ 0)) = true then _ else
    if (!page.checkNegativeCoordsForNode focusedNode (page.boxes focusedNode node).1) = true then _ else
    if (!page.checkNegativeCoordsForNode node (page.boxes focusedNode node).2) = true then _ else
    if (!isRectInDirection direction (page.boxes focusedNode node).1 (page.boxes focusedNode node).2) = true
      then _ else _) = _
  rw [start_box, target_box, decide_eq_false area.1, decide_eq_false area.2, start_coords, target_coords,
    inside]
  rfl

theorem distanceDataForNode_of_not_lies
    (not_lies : ¬(page.lies direction focusedNode node = true ∧ page.onPage focusedNode node = true)) :
    (page.distanceDataForNode direction focusedNode node candidate).distance = maxDistance := by
  rw [distanceDataForNode]
  split
  case h_2 => rfl
  case h_1 start target =>
    dsimp only
    split
    · rfl
    split
    · rfl
    split
    · rfl
    split
    · rfl
    rename_i box start_coords target_coords inside
    simp only [Bool.or_eq_true, not_or, Bool.not_eq_true, Bool.not_eq_false'] at box start_coords target_coords inside
    refine absurd ⟨?_, ?_⟩ not_lies
    · simp only [Documents.lies, start, target, Option.isSome_some, Bool.true_and, Bool.and_eq_true,
        Bool.not_eq_true']
      exact ⟨⟨box.1.1.1, box.1.1.2⟩, inside⟩
    · exact Bool.and_eq_true_iff.mpr ⟨start_coords, target_coords⟩

/-- The candidate for a node on a flat page. -/
def flatCandidate (page : Documents) (direction : FocusDirection) (focusedNode node : NodeId) :
    FocusCandidate := page.distanceDataForNode direction focusedNode node { node := node }

/-- The closest candidate when the best node so far is known. -/
def closestOf (page : Documents) (direction : FocusDirection) (focusedNode : NodeId) :
    Option NodeId → FocusCandidate
  | none => {}
  | some best => page.flatCandidate direction focusedNode best

theorem flatCandidate_eq (lies : page.lies direction focusedNode node = true)
    (onPage : page.onPage focusedNode node = true) :
    page.flatCandidate direction focusedNode node =
      { node := node
        alignment := page.alignment direction focusedNode node
        distance := page.distance direction focusedNode node } :=
  distanceDataForNode_of_lies lies onPage

theorem rank_injective {a b : RectsAlignment} : a = b ↔ a.rank = b.rank := by
  cases a <;> cases b <;> decide

theorem updateFocusCandidateInSameContainer_eq {closest : FocusCandidate} (known : closest.node ≠ none) :
    updateFocusCandidateInSameContainer candidate closest =
      if closest.alignment.rank < candidate.alignment.rank ∨
        candidate.alignment.rank = closest.alignment.rank ∧ candidate.distance < closest.distance
      then candidate else closest := by
  rw [updateFocusCandidateInSameContainer, if_neg (by rwa [Option.isNone_iff_eq_none])]
  by_cases same : candidate.alignment = closest.alignment
  · rw [if_pos same, same]
    simp only [Nat.lt_irrefl, false_or, true_and]
  · rw [if_neg same]
    have ranks := mt rank_injective.mpr same
    simp only [ranks, false_and, or_false, gt_iff_lt]

theorem key_lt_key {other : NodeId} :
    page.key direction focusedNode node < page.key direction focusedNode other ↔
      (page.alignment direction focusedNode other).rank < (page.alignment direction focusedNode node).rank ∨
        (page.alignment direction focusedNode node).rank =
          (page.alignment direction focusedNode other).rank ∧
        page.distance direction focusedNode node < page.distance direction focusedNode other := by
  rw [key, key, Prod.Lex.toLex_lt_toLex]
  dsimp only
  omega

/-- A node takes the place of the best one exactly when its key is smaller. -/
theorem updateFocusCandidateIfCloser_closestOf (best : Option NodeId)
    (known : ∀ node ∈ best, page.lies direction focusedNode node = true ∧
      page.onPage focusedNode node = true)
    (lies : page.lies direction focusedNode node = true) (onPage : page.onPage focusedNode node = true) :
    updateFocusCandidateIfCloser focusedNode (page.flatCandidate direction focusedNode node)
        (page.closestOf direction focusedNode best) =
      page.closestOf direction focusedNode
        (List.argAux (fun b c => page.key direction focusedNode b < page.key direction focusedNode c)
          best node) := by
  rw [flatCandidate_eq lies onPage]
  cases best with
  | none => exact (flatCandidate_eq lies onPage).symm
  | some best =>
    obtain ⟨best_lies, best_onPage⟩ := known best rfl
    have sameContainer : updateFocusCandidateIfCloser focusedNode
        (page.flatCandidate direction focusedNode node) (page.flatCandidate direction focusedNode best) =
        updateFocusCandidateInSameContainer (page.flatCandidate direction focusedNode node)
          (page.flatCandidate direction focusedNode best) := by
      rw [flatCandidate_eq lies onPage, flatCandidate_eq best_lies best_onPage]
      rfl
    rw [← flatCandidate_eq lies onPage, closestOf, sameContainer, updateFocusCandidateInSameContainer_eq]
    · rw [List.argAux]
      dsimp only
      simp only [key_lt_key, flatCandidate_eq lies onPage, flatCandidate_eq best_lies best_onPage]
      split
      · exact (flatCandidate_eq lies onPage).symm
      · exact (flatCandidate_eq best_lies best_onPage).symm
    · rw [flatCandidate_eq best_lies best_onPage]
      exact Option.some_ne_none best

/-- The best of the nodes that qualify. -/
def best (page : Documents) (focusedNode : NodeId) (direction : FocusDirection)
    (specificRect : Option IntRect) (nodes : List NodeId) : Option NodeId :=
  (nodes.filter (page.qualifies focusedNode direction specificRect)).argmin
    (page.key direction focusedNode)

theorem qualifies_of_best {nodes : List NodeId}
    (found : node ∈ page.best focusedNode direction specificRect nodes) :
    page.qualifies focusedNode direction specificRect node = true :=
  (List.mem_filter.mp (List.argmin_mem found)).2

theorem qualifies_iff : page.qualifies focusedNode direction specificRect node = true ↔
    page.isCandidate focusedNode node specificRect = true ∧
      page.lies direction focusedNode node = true ∧ page.onPage focusedNode node = true := by
  rw [qualifies, Bool.and_eq_true, Bool.and_eq_true, and_assoc]

/-- One more node is compared with the best of the nodes before. -/
theorem best_snoc (nodes : List NodeId) :
    page.best focusedNode direction specificRect (nodes ++ [node]) =
      if page.qualifies focusedNode direction specificRect node then
        List.argAux (fun b c => page.key direction focusedNode b < page.key direction focusedNode c)
          (page.best focusedNode direction specificRect nodes) node
      else page.best focusedNode direction specificRect nodes := by
  rw [best, List.filter_append, List.filter_cons, List.filter_nil]
  by_cases good : page.qualifies focusedNode direction specificRect node = true
  · rw [if_pos good, if_pos good, List.argmin_concat]
    rfl
  · rw [if_neg good, if_neg good, List.append_nil]
    rfl

/-- What the walk makes of one node of a flat page. -/
theorem consider_flat {outer : NodeId} (root : outer.document = []) (top : outer.position.tail = [])
    {nodes : List NodeId} {search : Search}
    (before : search.closest =
      page.closestOf direction focusedNode (page.best focusedNode direction specificRect nodes)) :
    ∃ considered, page.consider outer focusedNode direction {} specificRect node search =
      .ok ⟨page.closestOf direction focusedNode
        (page.best focusedNode direction specificRect (nodes ++ [node])), considered⟩ := by
  have box : page.enclosingBox outer = .ok none := by
    have not_container : page.isScrollableContainerNode ⟨outer.document, outer.position.tail⟩ = false := by
      rw [isScrollableContainerNode, top]
      split
      · rfl
      · simp only [ne_eq, not_true_eq_false, decide_false, Bool.and_false]
    simp only [enclosingBox, isInRootDocument, root, decide_true, Bool.not_true, Bool.false_eq_true, if_false]
    rw [← root, not_container]
    rfl
  have makes : page.makeCandidate outer focusedNode direction {} node =
      .ok (page.flatCandidate direction focusedNode node) := by
    rw [makeCandidate, box]
    rfl
  rw [best_snoc, consider, makes]
  by_cases candidate : page.isCandidate focusedNode node specificRect = true
  · rw [if_pos candidate]
    dsimp only [bind, Except.bind]
    by_cases good : page.lies direction focusedNode node = true ∧ page.onPage focusedNode node = true
    · have near : (page.flatCandidate direction focusedNode node).distance ≠ maxDistance := by
        rw [flatCandidate_eq good.1 good.2]
        exact spatialDistance_ne_maxDistance _ _ _
      rw [if_neg near, if_pos (qualifies_iff.mpr ⟨candidate, good⟩), before,
        updateFocusCandidateIfCloser_closestOf _ _ good.1 good.2]
      · exact ⟨_, rfl⟩
      · intro best found
        exact (qualifies_iff.mp (qualifies_of_best found)).2
    · have far : (page.flatCandidate direction focusedNode node).distance = maxDistance :=
        distanceDataForNode_of_not_lies good
      rw [if_pos far, if_neg (fun all => good (qualifies_iff.mp all).2), ← before]
      exact ⟨_, rfl⟩
  · rw [if_neg candidate, if_neg (fun all => candidate (qualifies_iff.mp all).1), ← before]
    exact ⟨_, rfl⟩

/-- The walk through nodes of a flat page. -/
theorem findFocusableNodeInDirection_flat (flat : page.Flat) {outer : NodeId} (root : outer.document = [])
    (top : outer.position.tail = []) {start : Option Position} {rest : List Position}
    (visits : Visits (Dom.traverseNextNode (page.document []).tree (some [])) start rest none)
    {steps : Nat} (enough : rest.length ≤ steps) {nodes : List NodeId} {search : Search}
    (before : search.closest =
      page.closestOf direction focusedNode (page.best focusedNode direction specificRect nodes)) :
    ∃ considered, page.findFocusableNodeInDirection focusedNode direction specificRect steps outer {}
        (start.map (⟨[], ·⟩)) search =
      .ok ⟨page.closestOf direction focusedNode
        (page.best focusedNode direction specificRect (nodes ++ rest.map (⟨[], ·⟩))), considered⟩ := by
  induction rest generalizing start steps nodes search with
  | nil =>
    obtain rfl : start = none := visits
    rw [List.map_nil, List.append_nil, ← before]
    exact ⟨search.considered, by cases steps <;> rfl⟩
  | cons p rest ih =>
    obtain ⟨rfl, visits⟩ := visits
    obtain ⟨steps, rfl⟩ : ∃ n, steps = n + 1 := ⟨steps - 1, by rw [List.length_cons] at enough; omega⟩
    obtain ⟨considered, considers⟩ := @consider_flat page focusedNode ⟨[], p⟩ direction specificRect _ root top _ _ before
    rw [Option.map_some, findFocusableNodeInDirection, flat.frames, flat.blocks, considers]
    have list : nodes ++ ((⟨[], p⟩ : NodeId) :: rest.map (⟨[], ·⟩)) =
        nodes ++ [⟨[], p⟩] ++ rest.map (⟨[], ·⟩) := List.append_cons ..
    rw [List.map_cons, list]
    have enough' : rest.length ≤ steps := Nat.le_of_succ_le_succ enough
    rw [top]
    have after : (Search.mk (page.closestOf direction focusedNode (page.best focusedNode direction
        specificRect (nodes ++ [⟨[], p⟩]))) considered).closest = page.closestOf direction focusedNode
          (page.best focusedNode direction specificRect (nodes ++ [⟨[], p⟩])) := rfl
    exact ih visits enough' after

theorem searchFrom_flat (flat : page.Flat) {steps : Nat} (enough : page.nodes.length ≤ steps) :
    ∃ considered, page.searchFrom focusedNode direction specificRect steps =
      .ok ⟨page.closestOf direction focusedNode
        (page.best focusedNode direction specificRect page.nodes), considered⟩ := by
  have visits := @visits_below (page.document []).tree []
  rw [nodes, List.length_map] at enough
  have outer : page.firstChild mainDocument = (Dom.firstChild (page.document []).tree []).map (⟨[], ·⟩) := rfl
  rw [searchFrom, outer, nodes]
  cases start : Dom.firstChild (page.document []).tree [] with
  | none =>
    rw [start] at visits
    have nothing : (page.document []).tree.below [] = [] := by
      cases below : (page.document []).tree.below [] with
      | nil => rfl
      | cons p rest =>
        rw [below] at visits
        exact absurd visits.1 (Option.some_ne_none p).symm
    rw [nothing]
    exact ⟨[], rfl⟩
  | some p =>
    rw [start] at visits
    have top : p.tail = [] := by
      rw [Dom.firstChild] at start
      split at start
      · exact (Option.some.inj start) ▸ rfl
      · exact absurd start (Option.some_ne_none p).symm
    have nothing : ({} : Search).closest =
        page.closestOf direction focusedNode (page.best focusedNode direction specificRect []) := rfl
    have root : (⟨[], p⟩ : NodeId).document = [] := rfl
    have walks := findFocusableNodeInDirection_flat flat root top visits enough nothing
    rwa [List.nil_append] at walks

theorem best_eq_some_iff {nodes : List NodeId} :
    page.best focusedNode direction specificRect nodes = some node ↔
      page.IsFirstBest direction focusedNode
        (nodes.filter (page.qualifies focusedNode direction specificRect)) node := by
  rw [best, List.argmin_eq_some_iff]
  exact ⟨fun ⟨mem, best, first⟩ => ⟨mem, best, first⟩, fun all => ⟨all.mem, all.best, all.first⟩⟩

/-- An element is given up only when it is not on the screen. -/
theorem chosen_closestOf {best : Option NodeId}
    (good : ∀ node ∈ best, page.qualifies focusedNode direction specificRect node = true) :
    page.chosen (page.closestOf direction focusedNode best) =
      best.filter (!page.hasOffscreenRect ·) := by
  cases best with
  | none => rfl
  | some node =>
    obtain ⟨candidate, lies, onPage⟩ := qualifies_iff.mp (good node rfl)
    have focusable : (page.data node).isFocusable = true := by
      simp only [isCandidate, Bool.and_eq_true] at candidate
      exact candidate.1.2
    rw [closestOf, flatCandidate_eq lies onPage, chosen]
    simp only [Option.filter_some, (page.data node).element_of_focusable focusable, Bool.true_and]

/-- The first of the best nodes is found, unless it is not on the screen. -/
theorem findNextFocusableNode_flat (page : Documents) (flat : page.Flat) (focusedNode : NodeId)
    (direction : FocusDirection) (specificRect : Option IntRect) (steps : Nat)
    (enough : page.nodes.length ≤ steps) :
    ∃ found, page.findNextFocusableNode (some focusedNode) direction specificRect steps = .ok found ∧
      (∀ node, found = some node ↔
        page.IsFirstBest direction focusedNode
          (page.nodes.filter (page.qualifies focusedNode direction specificRect)) node ∧
        page.hasOffscreenRect node = false) ∧
      (found = none ↔
        page.nodes.filter (page.qualifies focusedNode direction specificRect) = [] ∨
        ∃ node, page.IsFirstBest direction focusedNode
            (page.nodes.filter (page.qualifies focusedNode direction specificRect)) node ∧
          page.hasOffscreenRect node = true) := by
  obtain ⟨considered, searches⟩ : ∃ considered, page.searchFrom focusedNode direction specificRect steps =
      .ok ⟨page.closestOf direction focusedNode
        (page.best focusedNode direction specificRect page.nodes), considered⟩ := searchFrom_flat flat enough
  have finds : page.findNextFocusableNode (some focusedNode) direction specificRect steps =
      .ok ((page.best focusedNode direction specificRect page.nodes).filter
        (!page.hasOffscreenRect ·)) := by
    rw [findNextFocusableNode, searches]
    exact congrArg Except.ok (chosen_closestOf fun _ => qualifies_of_best)
  refine ⟨_, finds, fun node => ?_, ?_⟩
  · rw [Option.filter_eq_some_iff, best_eq_some_iff, Bool.not_eq_true']
  · cases best : page.best focusedNode direction specificRect page.nodes with
    | none =>
      have nothing := List.argmin_eq_none.mp best
      exact iff_of_true rfl (Or.inl nothing)
    | some node =>
      have first := best_eq_some_iff.mp best
      rw [Option.filter_eq_none_iff]
      constructor
      · intro off
        exact Or.inr ⟨node, first, by simpa using off node rfl⟩
      · rintro (nothing | ⟨other, first', off⟩)
        · rw [nothing] at first
          exact absurd first.mem List.not_mem_nil
        · obtain rfl : other = node := Option.some.inj ((best_eq_some_iff.mpr first').symm.trans best)
          intro _ same
          rw [← Option.some.inj same, off]
          exact Bool.false_ne_true

/-- A page of boxes next to each other, in a view of 100 by 100 that cannot be scrolled. -/
def ofBoxes (boxes : List IntRect) : Documents where
  document _ :=
    { tree := ⟨fun p => if p = [] then boxes.length else 0, 1, fun _ deep =>
        if_neg (List.length_pos_iff.mp deep)⟩
      data p :=
        { isElementNode := true
          isFocusable := true
          isFrameOwnerElement := false
          hasContentFrame := false
          renderers := [⟨true, false, false, boxes.getD (p.headD 0) {}⟩]
          getRect := boxes.getD (p.headD 0) {}
          offset := ⟨0, 0⟩
          element_of_focusable := fun _ => rfl }
      view := some ⟨⟨0, 0⟩, ⟨0, 0, 100, 100⟩, ⟨0, 0⟩⟩ }
  depth := 0
  frameless _ _ _ := rfl

theorem flat_ofBoxes (boxes : List IntRect) : (ofBoxes boxes).Flat where
  frames _ := rfl
  blocks _ := rfl

theorem findNextFocusableNode_flat_ofBoxes :
    let page := ofBoxes [⟨0, 0, 10, 10⟩, ⟨30, 0, 10, 10⟩]
    ∃ found, page.findNextFocusableNode (some ⟨[], [0]⟩) .right none 2 = .ok found ∧
      (found = none ↔
        page.nodes.filter (page.qualifies ⟨[], [0]⟩ .right none) = [] ∨
        ∃ node, page.IsFirstBest .right ⟨[], [0]⟩
            (page.nodes.filter (page.qualifies ⟨[], [0]⟩ .right none)) node ∧
          page.hasOffscreenRect node = true) := by
  intro page
  obtain ⟨found, finds, _, nothing⟩ :=
    page.findNextFocusableNode_flat (flat_ofBoxes _) ⟨[], [0]⟩ .right none 2 (by decide)
  exact ⟨found, finds, nothing⟩

/-- What is found is the best of all visible nodes that lie in the direction. -/
def ChoosesBest (page : Documents) (focusedNode : NodeId) (direction : FocusDirection)
    (specificRect : Option IntRect) (found : Option NodeId) : Prop :=
  let nodes := page.nodes.filter fun node =>
    page.isCandidate focusedNode node specificRect && !page.hasOffscreenRect node &&
      page.lies direction focusedNode node
  (∀ node, found = some node ↔ page.IsFirstBest direction focusedNode nodes node) ∧
    (found = none → nodes = [])

/-- A visible box that starts left of the page is not found, and neither is one below which there is a
box out of sight. -/
theorem not_choosesBest :
    (∃ found, (ofBoxes [⟨50, 50, 10, 10⟩, ⟨-5, 50, 10, 10⟩]).findNextFocusableNode (some ⟨[], [0]⟩) .left
        none 2 = .ok found ∧
      ¬(ofBoxes [⟨50, 50, 10, 10⟩, ⟨-5, 50, 10, 10⟩]).ChoosesBest ⟨[], [0]⟩ .left none found) ∧
    ∃ found, (ofBoxes [⟨0, 0, 10, 10⟩, ⟨0, 200, 10, 10⟩, ⟨50, 50, 10, 10⟩]).findNextFocusableNode
        (some ⟨[], [0]⟩) .down (some ⟨0, 0, 300, 300⟩) 3 = .ok found ∧
      ¬(ofBoxes [⟨0, 0, 10, 10⟩, ⟨0, 200, 10, 10⟩, ⟨50, 50, 10, 10⟩]).ChoosesBest ⟨[], [0]⟩ .down
        (some ⟨0, 0, 300, 300⟩) found := by
  constructor
  · exact ⟨none, by decide, fun best => absurd (best.2 rfl) (by decide)⟩
  · exact ⟨none, by decide, fun best => absurd (best.2 rfl) (by decide)⟩

end

end Documents

end WkcBrowser.Page
