import WkcBrowser.Lib.Along

/-! The entry points of the memory system. A block comes from the allocator of the time before
initialization or from the heap, and the entry points choose between the two by the phase of the
memory system. A block carries the allocator it came from, which the code cannot see. -/

namespace WkcBrowser.Memory

open Lib

inductive Allocator where
  | preInit
  | heap
  deriving DecidableEq

structure Block where
  allocator : Allocator
  address : Nat
  deriving DecidableEq

/-- `none` is the null pointer. -/
abbrev Pointer := Option Block

inductive Operation where
  | realloc
  | free
  deriving DecidableEq

/-- An allocator is passed a pointer. -/
structure Passed where
  allocator : Allocator
  operation : Operation
  pointer : Pointer
  deriving DecidableEq

/-- The pointer is null or goes back to the allocator it came from. -/
def Passed.Own (passed : Passed) : Prop :=
  ∀ block ∈ passed.pointer, block.allocator = passed.allocator

instance (passed : Passed) : Decidable passed.Own :=
  inferInstanceAs (Decidable (∀ block ∈ passed.pointer, _))

/-- `held` is what the callers were handed and did not give back, `preInitBlocks` the live blocks of
the allocator of the time before initialization. -/
structure MemorySystem where
  isInitialized : Bool := false
  isCrashing : Bool := false
  preInitBlocks : List Block := []
  held : List Block := []
  passed : List Passed := []

/-- What the allocators answer during a call: an address, or nothing when they are exhausted. -/
structure Answers where
  heap : Option Nat
  preInit : Option Nat

inductive Call where
  | enter (isInitialized isCrashing : Bool)
  | fastMalloc (size : Nat) (answers : Answers)
  | tryFastMalloc (size : Nat) (answers : Answers)
  | fastCalloc (count size : Nat) (answers : Answers)
  | tryFastCalloc (count size : Nat) (answers : Answers)
  | fastRealloc (pointer : Pointer) (size : Nat) (answers : Answers)
  | tryFastRealloc (pointer : Pointer) (size : Nat) (answers : Answers)
  | fastFree (pointer : Pointer)

def discard (blocks : List Block) (pointer : Pointer) : List Block :=
  blocks.filter (fun block => some block ≠ pointer)

def fromHeap (answer : Option Nat) : Pointer := answer.map (Block.mk .heap)

namespace MemorySystem

def pass (m : MemorySystem) (allocator : Allocator) (operation : Operation) (pointer : Pointer) :
    MemorySystem :=
  { m with passed := m.passed ++ [⟨allocator, operation, pointer⟩] }

/-- The callers are handed a block. -/
def hand (m : MemorySystem) (pointer : Pointer) : MemorySystem :=
  { m with held := pointer.toList ++ m.held }

/-- The callers no longer hold a block. -/
def giveBack (m : MemorySystem) (pointer : Pointer) : MemorySystem :=
  { m with held := discard m.held pointer }

def wkcMemoryAllocPreInitPeer (m : MemorySystem) (answer : Option Nat) : Pointer × MemorySystem :=
  let pointer := answer.map (Block.mk .preInit)
  (pointer, { m with preInitBlocks := pointer.toList ++ m.preInitBlocks })

/-- As `realloc` of the C library: with no answer the old block stays, unless its new size is zero. -/
def wkcMemoryReallocPreInitPeer (m : MemorySystem) (old : Pointer) (size : Nat)
    (answer : Option Nat) : Pointer × MemorySystem :=
  let m := m.pass .preInit .realloc old
  match answer with
  | some address =>
    (some ⟨.preInit, address⟩,
      { m with preInitBlocks := ⟨.preInit, address⟩ :: discard m.preInitBlocks old })
  | none =>
    (none, if size = 0 then { m with preInitBlocks := discard m.preInitBlocks old } else m)

/-- Tells whether the pointer was a live block of the allocator, which is freed then. -/
def wkcMemoryFreePreInitPeer (m : MemorySystem) (pointer : Pointer) : Bool × MemorySystem :=
  if ∃ block ∈ pointer, block ∈ m.preInitBlocks then
    (true, { m with preInitBlocks := discard m.preInitBlocks pointer })
  else (false, m)

/-- `realloc` of the heap, that frees a block resized to nothing. -/
def heapRealloc (m : MemorySystem) (old : Pointer) (size : Nat) (answer : Option Nat) :
    Pointer × MemorySystem :=
  (if old.isSome ∧ size = 0 then none else fromHeap answer, m.pass .heap .realloc old)

/-- What the callers hold after a `realloc`. -/
def reallocated (m : MemorySystem) (old : Pointer) (size : Nat) (pointer : Pointer) :
    MemorySystem :=
  if pointer.isSome ∨ size = 0 then (m.giveBack old).hand pointer else m

def fastMalloc (m : MemorySystem) (answers : Answers) : Pointer × MemorySystem :=
  if m.isInitialized ∧ !m.isCrashing then (fromHeap answers.heap, m)
  else if m.isInitialized ∧ m.isCrashing ∧ answers.heap.isSome then (fromHeap answers.heap, m)
  else m.wkcMemoryAllocPreInitPeer answers.preInit

def tryFastMalloc (m : MemorySystem) (answers : Answers) : Pointer × MemorySystem :=
  if m.isInitialized ∧ !m.isCrashing then (fromHeap answers.heap, m)
  else m.wkcMemoryAllocPreInitPeer answers.preInit

def fastCalloc (m : MemorySystem) (answers : Answers) : Pointer × MemorySystem :=
  (fromHeap answers.heap, m)

def fastRealloc (m : MemorySystem) (old : Pointer) (size : Nat) (answers : Answers) :
    Pointer × MemorySystem :=
  if m.isInitialized ∧ !m.isCrashing then m.heapRealloc old size answers.heap
  else if m.isInitialized ∧ m.isCrashing then
    let (result, m) := m.heapRealloc old size answers.heap
    if result.isSome then (result, m)
    else m.wkcMemoryReallocPreInitPeer old size answers.preInit
  else m.wkcMemoryReallocPreInitPeer old size answers.preInit

def tryFastRealloc (m : MemorySystem) (old : Pointer) (size : Nat) (answers : Answers) :
    Pointer × MemorySystem :=
  if m.isInitialized ∧ !m.isCrashing then m.heapRealloc old size answers.heap
  else m.wkcMemoryReallocPreInitPeer old size answers.preInit

def fastFree (m : MemorySystem) (pointer : Pointer) : MemorySystem :=
  let (freed, m) := m.wkcMemoryFreePreInitPeer pointer
  if freed then m
  else if !m.isInitialized then m
  else m.pass .heap .free pointer

def call (m : MemorySystem) : Call → MemorySystem
  | .enter isInitialized isCrashing =>
    { m with isInitialized := isInitialized, isCrashing := isCrashing }
  | .fastMalloc _ answers => let (pointer, m) := m.fastMalloc answers; m.hand pointer
  | .tryFastMalloc _ answers => let (pointer, m) := m.tryFastMalloc answers; m.hand pointer
  | .fastCalloc _ _ answers => let (pointer, m) := m.fastCalloc answers; m.hand pointer
  | .tryFastCalloc _ _ answers => let (pointer, m) := m.fastCalloc answers; m.hand pointer
  | .fastRealloc old size answers =>
    let (pointer, m) := m.fastRealloc old size answers; m.reallocated old size pointer
  | .tryFastRealloc old size answers =>
    let (pointer, m) := m.tryFastRealloc old size answers; m.reallocated old size pointer
  | .fastFree pointer => (m.fastFree pointer).giveBack pointer

/-- The callers resize and free only what they hold. -/
def Admits (m : MemorySystem) : Call → Prop
  | .fastRealloc pointer _ _ | .tryFastRealloc pointer _ _ | .fastFree pointer =>
    ∀ block ∈ pointer, block ∈ m.held
  | _ => True

instance : DecidableRel Admits
  | m, .fastRealloc pointer _ _ | m, .tryFastRealloc pointer _ _ | m, .fastFree pointer =>
    inferInstanceAs (Decidable (∀ block ∈ pointer, block ∈ m.held))
  | _, .enter _ _ | _, .fastMalloc _ _ | _, .tryFastMalloc _ _ | _, .fastCalloc _ _ _
  | _, .tryFastCalloc _ _ _ => .isTrue trivial

/-- Every pointer that was passed to an allocator went back to where it came from. -/
def Routed (m : MemorySystem) : Prop := ∀ passed ∈ m.passed, passed.Own

instance (m : MemorySystem) : Decidable m.Routed :=
  inferInstanceAs (Decidable (∀ passed ∈ m.passed, _))

/-- A block is resized in a phase whose allocator it came from. While crashing `fastRealloc` tries
both allocators, so that the heap must have room for a block of its own. -/
def ResizesAtHome (m : MemorySystem) : Call → Prop
  | .fastRealloc pointer size answers => ∀ block ∈ pointer,
    if m.isInitialized then
      block.allocator = .heap ∧ (m.isCrashing → size ≠ 0 ∧ answers.heap.isSome)
    else block.allocator = .preInit
  | .tryFastRealloc pointer _ _ => ∀ block ∈ pointer,
    if m.isInitialized ∧ !m.isCrashing then block.allocator = .heap
    else block.allocator = .preInit
  | _ => True

/-- The callers hold no block of the time before initialization that is dead. -/
def Live (m : MemorySystem) : Prop :=
  ∀ block ∈ m.held, block.allocator = .preInit → block ∈ m.preInitBlocks

/-- What `wkcMemoryFreePreInitPeer` answers is right for every block that the callers hold. -/
structure Sound (m : MemorySystem) : Prop where
  live : m.Live
  routed : m.Routed

theorem mem_discard {block : Block} {blocks : List Block} {pointer : Pointer} :
    block ∈ discard blocks pointer ↔ block ∈ blocks ∧ some block ≠ pointer := by
  simp [discard]

theorem routed_pass (m : MemorySystem) (allocator : Allocator) (operation : Operation)
    (pointer : Pointer) :
    (m.pass allocator operation pointer).Routed ↔
      m.Routed ∧ ∀ block ∈ pointer, block.allocator = allocator := by
  simp only [Routed, pass, List.forall_mem_append, List.forall_mem_singleton, Passed.Own]

@[simp] theorem hand_passed (m : MemorySystem) (pointer : Pointer) :
    (m.hand pointer).passed = m.passed := rfl

@[simp] theorem reallocated_passed (m : MemorySystem) (old : Pointer) (size : Nat)
    (pointer : Pointer) : (m.reallocated old size pointer).passed = m.passed := by
  unfold reallocated
  split <;> rfl

@[simp] theorem reallocated_preInitBlocks (m : MemorySystem) (old : Pointer) (size : Nat)
    (pointer : Pointer) : (m.reallocated old size pointer).preInitBlocks = m.preInitBlocks := by
  unfold reallocated
  split <;> rfl

theorem mem_reallocated {m : MemorySystem} {old : Pointer} {size : Nat} {pointer : Pointer}
    {block : Block} (inside : block ∈ (m.reallocated old size pointer).held) :
    some block = pointer ∨
      (block ∈ m.held ∧ (pointer.isSome ∨ size = 0 → some block ≠ old)) := by
  unfold reallocated at inside
  split at inside
  next given =>
    rcases List.mem_append.mp inside with new | kept
    · exact .inl (Option.mem_toList.mp new).symm
    · have apart := mem_discard.mp kept
      exact .inr ⟨apart.1, fun _ => apart.2⟩
  next kept => exact .inr ⟨inside, fun given => absurd given kept⟩

theorem wkcMemoryReallocPreInitPeer_passed (m : MemorySystem) (old : Pointer) (size : Nat)
    (answer : Option Nat) :
    (m.wkcMemoryReallocPreInitPeer old size answer).2.passed =
      (m.pass .preInit .realloc old).passed := by
  unfold wkcMemoryReallocPreInitPeer
  cases answer with
  | some address => rfl
  | none => dsimp only; split <;> rfl

theorem heapRealloc_passed (m : MemorySystem) (old : Pointer) (size : Nat) (answer : Option Nat) :
    (m.heapRealloc old size answer).2.passed = (m.pass .heap .realloc old).passed := rfl

/-- What `fastFree` does: a live block of the time before initialization is freed there, and what
else comes before initialization is dropped. -/
theorem fastFree_cases (m : MemorySystem) (pointer : Pointer) :
    ((∃ block ∈ pointer, block ∈ m.preInitBlocks) ∧
      m.fastFree pointer = { m with preInitBlocks := discard m.preInitBlocks pointer }) ∨
    ((¬∃ block ∈ pointer, block ∈ m.preInitBlocks) ∧
      (m.fastFree pointer = m ∨ m.fastFree pointer = m.pass .heap .free pointer)) := by
  unfold fastFree wkcMemoryFreePreInitPeer
  by_cases live : ∃ block ∈ pointer, block ∈ m.preInitBlocks
  · left
    exact ⟨live, by simp only [if_pos live, if_true]⟩
  · right
    refine ⟨live, ?_⟩
    simp only [if_neg live, Bool.false_eq_true, if_false]
    split
    · exact .inl rfl
    · exact .inr rfl

theorem routed_congr {m m' : MemorySystem} (same : m.passed = m'.passed) :
    m.Routed ↔ m'.Routed := by
  unfold Routed
  rw [same]

theorem heapRealloc_routed (m : MemorySystem) (old : Pointer) (size : Nat) (answer : Option Nat)
    (routed : m.Routed) :
    (m.heapRealloc old size answer).2.Routed ↔ ∀ block ∈ old, block.allocator = .heap := by
  rw [routed_congr (heapRealloc_passed ..), routed_pass]
  exact and_iff_right routed

theorem preInitRealloc_routed (m : MemorySystem) (old : Pointer) (size : Nat)
    (answer : Option Nat) :
    (m.wkcMemoryReallocPreInitPeer old size answer).2.Routed ↔
      m.Routed ∧ ∀ block ∈ old, block.allocator = .preInit := by
  rw [routed_congr (wkcMemoryReallocPreInitPeer_passed ..), routed_pass]

theorem heapRealloc_isSome (m : MemorySystem) (block : Block) (size : Nat) (answer : Option Nat) :
    (m.heapRealloc (some block) size answer).1.isSome ↔ size ≠ 0 ∧ answer.isSome := by
  by_cases empty : size = 0 <;> simp [heapRealloc, fromHeap, empty]

/-- Whether `fastRealloc` keeps the passes right. -/
theorem fastRealloc_routed (m : MemorySystem) (old : Pointer) (size : Nat) (answers : Answers)
    (routed : m.Routed) :
    (m.fastRealloc old size answers).2.Routed ↔
      m.ResizesAtHome (.fastRealloc old size answers) := by
  have heap := heapRealloc_routed m old size answers.heap routed
  simp only [ResizesAtHome]
  by_cases initialized : m.isInitialized
  · by_cases crashing : m.isCrashing
    · simp only [fastRealloc, initialized, crashing, Bool.not_true, Bool.false_eq_true, and_false,
        and_self, if_false, if_true]
      cases old with
      | none =>
        have harmless : (m.heapRealloc none size answers.heap).2.Routed := heap.mpr (by simp)
        split
        · simpa using harmless
        · simpa [preInitRealloc_routed] using harmless
      | some block =>
        have served := heapRealloc_isSome m block size answers.heap
        split
        next found => simp [heap, served.mp found]
        next missing =>
          rw [preInitRealloc_routed, heap]
          have failed : ¬(size ≠ 0 ∧ answers.heap.isSome) := fun room => missing (served.mpr room)
          constructor
          · rintro ⟨fromHeap, fromPreInit⟩
            have astray := (fromHeap block rfl).symm.trans (fromPreInit block rfl)
            exact absurd astray (by decide)
          · intro home
            exact absurd ((home block rfl).2 trivial) failed
    · simp [fastRealloc, initialized, crashing, heap]
  · simp [fastRealloc, initialized, preInitRealloc_routed, routed]

/-- Whether `tryFastRealloc` keeps the passes right. -/
theorem tryFastRealloc_routed (m : MemorySystem) (old : Pointer) (size : Nat) (answers : Answers)
    (routed : m.Routed) :
    (m.tryFastRealloc old size answers).2.Routed ↔
      m.ResizesAtHome (.tryFastRealloc old size answers) := by
  have heap := heapRealloc_routed m old size answers.heap routed
  simp only [ResizesAtHome, tryFastRealloc]
  by_cases steady : m.isInitialized ∧ !m.isCrashing
  · simp only [if_pos steady, heap]
  · simp only [if_neg steady, preInitRealloc_routed, routed, true_and]

theorem fastFree_routed (m : MemorySystem) (pointer : Pointer) (sound : m.Sound)
    (held : ∀ block ∈ pointer, block ∈ m.held) : (m.fastFree pointer).Routed := by
  obtain ⟨-, freed⟩ | ⟨other, dropped | passed⟩ := fastFree_cases m pointer
  · rw [freed]
    exact sound.routed
  · rw [dropped]
    exact sound.routed
  · rw [passed, routed_pass]
    refine ⟨sound.routed, fun block given => ?_⟩
    cases origin : block.allocator with
    | heap => rfl
    | preInit => exact absurd ⟨block, given, sound.live block (held block given) origin⟩ other

/-- What an allocation does to the live blocks: a block may die only when it is resized. -/
structure Delivers (m m' : MemorySystem) (old : Pointer) (size : Nat) (pointer : Pointer) :
    Prop where
  held : m'.held = m.held
  fresh : ∀ block ∈ pointer, block.allocator = .preInit → block ∈ m'.preInitBlocks
  kept : ∀ block ∈ m.preInitBlocks,
    block ∈ m'.preInitBlocks ∨ (some block = old ∧ (pointer.isSome ∨ size = 0))

theorem delivers_alloc (m : MemorySystem) (answer : Option Nat) :
    Delivers m (m.wkcMemoryAllocPreInitPeer answer).2 none 1
      (m.wkcMemoryAllocPreInitPeer answer).1 where
  held := rfl
  fresh _ found _ := List.mem_append_left _ (Option.mem_toList.mpr found)
  kept _ live := .inl (List.mem_append_right _ live)

theorem delivers_fromHeap (m : MemorySystem) (old : Pointer) (size : Nat) (answer : Option Nat) :
    Delivers m m old size (fromHeap answer) where
  held := rfl
  fresh _ found origin := by
    obtain ⟨address, -, rfl⟩ := Option.map_eq_some_iff.mp found
    exact absurd origin (by simp)
  kept _ live := .inl live

theorem delivers_heapRealloc (m : MemorySystem) (old : Pointer) (size : Nat)
    (answer : Option Nat) :
    Delivers m (m.heapRealloc old size answer).2 old size (m.heapRealloc old size answer).1 where
  held := rfl
  fresh _ found := by
    simp only [heapRealloc] at found
    split at found
    · simp at found
    · exact (delivers_fromHeap m old size answer).fresh _ found
  kept _ live := .inl live

theorem delivers_preInitRealloc (m : MemorySystem) (old : Pointer) (size : Nat)
    (answer : Option Nat) :
    Delivers m (m.wkcMemoryReallocPreInitPeer old size answer).2 old size
      (m.wkcMemoryReallocPreInitPeer old size answer).1 := by
  unfold wkcMemoryReallocPreInitPeer
  have discarded : ∀ block ∈ m.preInitBlocks, block ∈ discard m.preInitBlocks old ∨
      some block = old := by
    intro block live
    by_cases same : some block = old
    · exact .inr same
    · exact .inl (mem_discard.mpr ⟨live, same⟩)
  cases answer with
  | some address =>
    refine ⟨rfl, ?_, fun block live => ?_⟩
    · rintro block ⟨⟩ -
      exact List.mem_cons_self
    · rcases discarded block live with kept | same
      · exact .inl (List.mem_cons_of_mem _ kept)
      · exact .inr ⟨same, .inl rfl⟩
  | none =>
    by_cases empty : size = 0
    · simp only [if_pos empty]
      refine ⟨rfl, by simp, fun block live => ?_⟩
      rcases discarded block live with kept | same
      · exact .inl kept
      · exact .inr ⟨same, .inr empty⟩
    · simp only [if_neg empty]
      exact ⟨rfl, by simp, fun block live => .inl live⟩

theorem Delivers.hand {m m' : MemorySystem} {pointer : Pointer} {size : Nat}
    (delivers : Delivers m m' none size pointer) (live : m.Live) : (m'.hand pointer).Live := by
  intro block inside origin
  rcases List.mem_append.mp inside with new | old
  · exact delivers.fresh block (Option.mem_toList.mp new) origin
  · rw [delivers.held] at old
    rcases delivers.kept block (live block old origin) with kept | ⟨same, -⟩
    · exact kept
    · cases same

theorem Delivers.reallocated {m m' : MemorySystem} {old pointer : Pointer} {size : Nat}
    (delivers : Delivers m m' old size pointer) (live : m.Live) :
    (m'.reallocated old size pointer).Live := by
  intro block inside origin
  rw [reallocated_preInitBlocks]
  rcases mem_reallocated inside with new | ⟨kept, apart⟩
  · exact delivers.fresh block new.symm origin
  · rw [delivers.held] at kept
    rcases delivers.kept block (live block kept origin) with stays | ⟨same, given⟩
    · exact stays
    · exact absurd same (apart given)

theorem fastFree_live (m : MemorySystem) (pointer : Pointer) (live : m.Live) :
    ((m.fastFree pointer).giveBack pointer).Live := by
  intro block inside origin
  obtain ⟨-, freed⟩ | ⟨-, dropped | passed⟩ := fastFree_cases m pointer
  · rw [freed] at inside ⊢
    have apart := mem_discard.mp inside
    exact mem_discard.mpr ⟨live block apart.1 origin, apart.2⟩
  · rw [dropped] at inside ⊢
    exact live block (mem_discard.mp inside).1 origin
  · rw [passed] at inside ⊢
    exact live block (mem_discard.mp inside).1 origin

theorem fastRealloc_live (m : MemorySystem) (old : Pointer) (size : Nat) (answers : Answers)
    (live : m.Live) : (m.call (.fastRealloc old size answers)).Live := by
  have fromHeap := delivers_heapRealloc m old size answers.heap
  simp only [call, fastRealloc]
  split
  · exact fromHeap.reallocated live
  · split
    · split
      · exact fromHeap.reallocated live
      · have passedOn : (m.heapRealloc old size answers.heap).2.Live := live
        exact (delivers_preInitRealloc _ old size answers.preInit).reallocated passedOn
    · exact (delivers_preInitRealloc m old size answers.preInit).reallocated live

theorem tryFastRealloc_live (m : MemorySystem) (old : Pointer) (size : Nat) (answers : Answers)
    (live : m.Live) : (m.call (.tryFastRealloc old size answers)).Live := by
  simp only [call, tryFastRealloc]
  split
  · exact (delivers_heapRealloc m old size answers.heap).reallocated live
  · exact (delivers_preInitRealloc m old size answers.preInit).reallocated live

theorem fastMalloc_delivers (m : MemorySystem) (answers : Answers) :
    Delivers m (m.fastMalloc answers).2 none 1 (m.fastMalloc answers).1 := by
  unfold fastMalloc
  split
  · exact delivers_fromHeap m none 1 answers.heap
  · split
    · exact delivers_fromHeap m none 1 answers.heap
    · exact delivers_alloc m answers.preInit

theorem tryFastMalloc_delivers (m : MemorySystem) (answers : Answers) :
    Delivers m (m.tryFastMalloc answers).2 none 1 (m.tryFastMalloc answers).1 := by
  unfold tryFastMalloc
  split
  · exact delivers_fromHeap m none 1 answers.heap
  · exact delivers_alloc m answers.preInit

theorem call_live (m : MemorySystem) (call : Call) (live : m.Live) : (m.call call).Live := by
  cases call with
  | enter isInitialized isCrashing => exact live
  | fastMalloc size answers => exact (fastMalloc_delivers m answers).hand live
  | tryFastMalloc size answers => exact (tryFastMalloc_delivers m answers).hand live
  | fastCalloc count size answers => exact (delivers_fromHeap m none 1 answers.heap).hand live
  | tryFastCalloc count size answers => exact (delivers_fromHeap m none 1 answers.heap).hand live
  | fastRealloc old size answers => exact fastRealloc_live m old size answers live
  | tryFastRealloc old size answers => exact tryFastRealloc_live m old size answers live
  | fastFree pointer => exact fastFree_live m pointer live

theorem fastMalloc_passed (m : MemorySystem) (answers : Answers) :
    (m.fastMalloc answers).2.passed = m.passed := by
  unfold fastMalloc
  split
  · rfl
  · split <;> rfl

theorem tryFastMalloc_passed (m : MemorySystem) (answers : Answers) :
    (m.tryFastMalloc answers).2.passed = m.passed := by
  unfold tryFastMalloc
  split <;> rfl

/-- A call keeps the passes right exactly when it resizes its block at home. -/
theorem call_routed (m : MemorySystem) (call : Call) (sound : m.Sound) (admitted : m.Admits call) :
    (m.call call).Routed ↔ m.ResizesAtHome call := by
  cases call with
  | enter isInitialized isCrashing => exact iff_true_intro sound.routed
  | fastMalloc size answers =>
    exact iff_true_intro ((routed_congr (fastMalloc_passed m answers)).mpr sound.routed)
  | tryFastMalloc size answers =>
    exact iff_true_intro ((routed_congr (tryFastMalloc_passed m answers)).mpr sound.routed)
  | fastCalloc count size answers => exact iff_true_intro sound.routed
  | tryFastCalloc count size answers => exact iff_true_intro sound.routed
  | fastRealloc old size answers =>
    rw [← fastRealloc_routed m old size answers sound.routed]
    exact routed_congr (reallocated_passed ..)
  | tryFastRealloc old size answers =>
    rw [← tryFastRealloc_routed m old size answers sound.routed]
    exact routed_congr (reallocated_passed ..)
  | fastFree pointer => exact iff_true_intro (fastFree_routed m pointer sound admitted)

theorem subset_pass (m : MemorySystem) (allocator : Allocator) (operation : Operation)
    (pointer : Pointer) : m.passed ⊆ (m.pass allocator operation pointer).passed :=
  List.subset_append_left ..

theorem subset_preInitRealloc (m : MemorySystem) (old : Pointer) (size : Nat)
    (answer : Option Nat) : m.passed ⊆ (m.wkcMemoryReallocPreInitPeer old size answer).2.passed := by
  rw [wkcMemoryReallocPreInitPeer_passed]
  exact subset_pass ..

theorem subset_fastRealloc (m : MemorySystem) (old : Pointer) (size : Nat) (answers : Answers) :
    m.passed ⊆ (m.fastRealloc old size answers).2.passed := by
  unfold fastRealloc
  split
  · exact subset_pass ..
  · split
    · dsimp only
      split
      · exact subset_pass ..
      · exact List.Subset.trans (subset_pass ..) (subset_preInitRealloc ..)
    · exact subset_preInitRealloc ..

theorem subset_tryFastRealloc (m : MemorySystem) (old : Pointer) (size : Nat) (answers : Answers) :
    m.passed ⊆ (m.tryFastRealloc old size answers).2.passed := by
  unfold tryFastRealloc
  split
  · exact subset_pass ..
  · exact subset_preInitRealloc ..

theorem subset_fastFree (m : MemorySystem) (pointer : Pointer) :
    m.passed ⊆ (m.fastFree pointer).passed := by
  obtain ⟨-, freed⟩ | ⟨-, dropped | passed⟩ := fastFree_cases m pointer
  · rw [freed]
    exact List.Subset.refl _
  · rw [dropped]
    exact List.Subset.refl _
  · rw [passed]
    exact subset_pass ..

theorem subset_call (m : MemorySystem) (call : Call) : m.passed ⊆ (m.call call).passed := by
  cases call with
  | enter isInitialized isCrashing => exact List.Subset.refl _
  | fastMalloc size answers =>
    simp only [call, hand_passed, fastMalloc_passed, List.Subset.refl]
  | tryFastMalloc size answers =>
    simp only [call, hand_passed, tryFastMalloc_passed, List.Subset.refl]
  | fastCalloc count size answers => exact List.Subset.refl _
  | tryFastCalloc count size answers => exact List.Subset.refl _
  | fastRealloc old size answers =>
    simpa only [call, reallocated_passed] using subset_fastRealloc m old size answers
  | tryFastRealloc old size answers =>
    simpa only [call, reallocated_passed] using subset_tryFastRealloc m old size answers
  | fastFree pointer => exact subset_fastFree m pointer

/-- A pass that went astray stays in the log. -/
theorem routed_of_call (m : MemorySystem) (call : Call) (routed : (m.call call).Routed) :
    m.Routed := fun passed earlier => routed passed (subset_call m call earlier)

end MemorySystem

open MemorySystem

/-- In a run whose callers resize and free only what they hold, every pointer goes back to the
allocator it came from exactly when every block is resized at home. -/
theorem blocks_go_back_iff (calls : List Call) (admitted : Along call Admits {} calls) :
    (after call {} calls).Routed ↔ Along call ResizesAtHome {} calls := by
  have start : Sound {} := ⟨by simp [Live], by simp [Routed]⟩
  rw [after_iff_along routed_of_call {} calls start.routed]
  apply along_iff Sound _ _ {} calls start admitted
  · intro m call sound admits
    exact call_routed m call sound admits
  · intro m call sound _ routed
    exact ⟨call_live m call sound.live, routed⟩

/-- A block of a static initializer is freed after initialization, and one of the heap is resized. -/
theorem blocks_go_back_iff_steadyPhase :
    let calls : List Call := [.fastMalloc 16 ⟨none, some 64⟩, .enter true false,
      .fastMalloc 8 ⟨some 4096, none⟩, .fastRealloc (some ⟨.heap, 4096⟩) 32 ⟨some 8192, none⟩,
      .fastFree (some ⟨.preInit, 64⟩)]
    (after call {} calls).Routed ↔ Along call ResizesAtHome {} calls :=
  blocks_go_back_iff _ (by decide)

/-- A block of a static initializer is resized after initialization. -/
theorem not_blocks_go_back_staticBlock :
    ¬∀ calls : List Call, Along call Admits {} calls → (after call {} calls).Routed := by
  intro all
  have routed := all [.fastMalloc 16 ⟨none, some 64⟩, .enter true false,
    .fastRealloc (some ⟨.preInit, 64⟩) 32 ⟨some 4096, none⟩] (by decide)
  revert routed
  decide

end WkcBrowser.Memory
