import WkcBrowser.Network.JobLists

/-! The life of one job as its client sees it. The entries of a job are in order when data follows a
response, nothing follows a cancellation, no data belongs to a response that curl went on from, and
the load ends once. -/

namespace WkcBrowser.Network

open Wtf

namespace Entry

def job : Entry → Nat
  | .notice job _ _ | .cancelled job | .released job | .repeated job _ => job

def isNotice : Entry → Bool
  | .notice .. => true
  | _ => false

def isCancellation : Entry → Bool
  | .cancelled _ => true
  | _ => false

def isRelease : Entry → Bool
  | .released _ => true
  | _ => false

def isResponse : Entry → Bool
  | .notice _ (.didReceiveResponse _) _ => true
  | _ => false

/-- The load ended or failed. -/
def isTerminal : Entry → Bool
  | .notice _ .didFinishLoading _ | .notice _ (.didFail _) _ => true
  | _ => false

/-- The response that data was received for. -/
def dataOf : Entry → Option Nat
  | .notice _ (.didReceiveData _) transfer => some transfer.blocks
  | _ => none

/-- The response that curl went on from, to follow a redirect or to answer a challenge. -/
def passedOf : Entry → Option Nat
  | .notice _ (.willSendRequest _ _) transfer | .repeated _ transfer => some transfer.blocks
  | _ => none

/-- The client is told that data comes. -/
def announcesData : Entry → Bool
  | .notice _ (.willReceiveData _) _ => true
  | _ => false

/-- What a client does to a job tells it nothing. -/
theorem silent_of_act {entry : Entry} (act : entry.isCancellation = true ∨ entry.isRelease = true) :
    entry.isNotice = false ∧ entry.dataOf = none ∧ entry.passedOf = none := by
  cases entry with
  | cancelled job => exact ⟨rfl, rfl, rfl⟩
  | released job => exact ⟨rfl, rfl, rfl⟩
  | _ => simp [isCancellation, isRelease] at act

end Entry

/-- The entries of a job are as its client can expect. -/
structure Orderly (entries : List Entry) : Prop where
  responded : ∀ before entry after, entries = before ++ entry :: after → entry.dataOf.isSome = true →
    ∃ earlier ∈ before, earlier.isResponse = true
  quiet : entries.Pairwise fun entry later => entry.isCancellation = true → later.isNotice = false
  kept : ∀ entry ∈ entries, ∀ other ∈ entries, ∀ block, entry.dataOf = some block →
    other.passedOf ≠ some block
  once : entries.countP Entry.isTerminal ≤ 1

section
variable {entries : List Entry} {entry : Entry}

theorem Orderly.append (orderly : Orderly entries)
    (responded : entry.dataOf.isSome = true → ∃ earlier ∈ entries, earlier.isResponse = true)
    (quiet : entry.isNotice = true → ∀ earlier ∈ entries, earlier.isCancellation = false)
    (data : ∀ block, entry.dataOf = some block → ∀ other ∈ entries, other.passedOf ≠ some block)
    (passed : ∀ block, entry.passedOf = some block → ∀ other ∈ entries, other.dataOf ≠ some block)
    (apart : ∀ block, entry.dataOf = some block → entry.passedOf = none)
    (once : entry.isTerminal = true → entries.countP Entry.isTerminal = 0) :
    Orderly (entries ++ [entry]) where
  responded := by
    intro before given after split_ isData
    rcases List.eq_nil_or_concat after with rfl | ⟨after', last, rfl⟩
    · obtain ⟨rfl, same⟩ := List.append_inj' split_ rfl
      obtain rfl := (List.cons.inj same).1
      exact responded isData
    · rw [List.concat_eq_append, ← List.cons_append, ← List.append_assoc] at split_
      obtain ⟨rfl, -⟩ := List.append_inj' split_ rfl
      exact orderly.responded before given after' rfl isData
  quiet := by
    rw [List.pairwise_append]
    refine ⟨orderly.quiet, List.pairwise_singleton _ _, ?_⟩
    intro earlier member later same cancellation
    obtain rfl := List.mem_singleton.mp same
    by_contra isNotice
    have silent := quiet (by simpa using isNotice) earlier member
    rw [silent] at cancellation
    cases cancellation
  kept := by
    intro first member other member' block isData
    rcases List.mem_append.mp member with old | new <;>
      rcases List.mem_append.mp member' with old' | new'
    · exact orderly.kept first old other old' block isData
    · obtain rfl := List.mem_singleton.mp new'
      exact fun isPassed => passed block isPassed first old isData
    · obtain rfl := List.mem_singleton.mp new
      exact data block isData other old'
    · obtain rfl := List.mem_singleton.mp new
      obtain rfl := List.mem_singleton.mp new'
      rw [apart block isData]
      simp
  once := by
    rw [List.countP_append, List.countP_singleton]
    have before := orderly.once
    split
    · rw [once ‹_›]
    · omega

/-- An entry that is neither data nor the end of a response changes little. -/
theorem Orderly.append_other (orderly : Orderly entries) (data : entry.dataOf = none)
    (passed : entry.passedOf = none) (terminal : entry.isTerminal = false)
    (quiet : entry.isNotice = true → ∀ earlier ∈ entries, earlier.isCancellation = false) :
    Orderly (entries ++ [entry]) := by
  apply orderly.append <;> simp_all

end

/-- What a `data:` URL must have to be loaded. -/
def Showable (platform : Platform) (url : Text) : Prop :=
  equalIgnoringCase (platform.protocol url) (text "data") = true → (find [44] url).isSome = true

/-- What there is to know of one job. -/
structure View where
  d : ResourceHandleInternal
  transfer : Transfer
  scheduled : Bool
  running : Bool
  starting : Bool
  added : Bool
  proxy : Text
  entries : List Entry

namespace View
variable (v : View)

def held : Bool := v.scheduled || v.running || v.starting

def terminals : Nat := v.entries.countP Entry.isTerminal

def has (kind : Entry → Bool) : Prop := ∃ entry ∈ v.entries, kind entry = true

instance (kind : Entry → Bool) : Decidable (v.has kind) :=
  inferInstanceAs (Decidable (∃ entry ∈ v.entries, kind entry = true))

/-- The present response is a challenge that `removeFromCurl` can answer. -/
def Repeatable : Prop :=
  challengeCode v.d.isSSL v.transfer.info = 401 ∨
    challengeCode v.d.isSSL v.transfer.info = 407 ∧ v.proxy ≠ []

instance : Decidable v.Repeatable :=
  inferInstanceAs (Decidable (_ ∨ _ ∧ _))

/-- No data was received for the present response. -/
def Fresh : Prop := ∀ entry ∈ v.entries, entry.dataOf ≠ some v.transfer.blocks

instance : Decidable v.Fresh :=
  inferInstanceAs (Decidable (∀ _ ∈ _, _))

/-- What a job that has left was told. -/
def Settled : Prop :=
  v.terminals = 1 ∨ v.terminals = 0 ∧ (v.has Entry.isCancellation ∨ v.has Entry.isRelease)

instance : Decidable v.Settled :=
  inferInstanceAs (Decidable (_ ∨ _))

/-- What holds of a job in every state. `finishing` is the job whose end was told to its client and
which is still in the list. -/
structure Told (platform : Platform) (finishing : Bool) : Prop where
  orderly : Orderly v.entries
  fired : v.d.response.responseFired = true → v.has Entry.isResponse ∨ v.has Entry.isRelease
  released : v.d.client = false ↔ v.has Entry.isRelease
  cancelled : v.has Entry.isCancellation → v.d.cancelled = true ∨ v.held = false
  byClient : v.running = true ∨ v.starting = true → v.d.cancelled = true →
    v.has Entry.isCancellation
  waits : v.scheduled = true → v.d.cancelled = false
  shown : v.scheduled = true ∨ v.starting = true → Showable platform v.d.request.url
  unanswered : v.scheduled = true ∨ v.starting = true →
    v.d.webChallenge = none ∧ v.d.doAuthChallenge = false
  untouched : v.scheduled = true ∨ v.starting = true → v.added = false →
    v.transfer.ended = true ∧ ∀ entry ∈ v.entries, entry.passedOf = none
  data : ∀ entry ∈ v.entries, ∀ block, entry.dataOf = some block →
    block ≤ v.transfer.blocks ∧ (v.transfer.ended = false → block < v.transfer.blocks)
  passed : ∀ entry ∈ v.entries, ∀ block, entry.passedOf = some block → block ≤ v.transfer.blocks
  repeated : v.added = true → ∀ entry ∈ v.entries, entry.isNotice = false → ∀ block,
    entry.passedOf = some block → block < v.transfer.blocks
  answered : v.running = true → v.d.doAuthChallenge = true →
    v.d.webChallenge.isSome = true ∧ v.Repeatable ∧ v.Fresh
  pending : v.held = true → finishing = false → v.terminals = 0
  ending : v.held = true → finishing = true → v.terminals = 1 ∧ v.d.doAuthChallenge = false
  gone : v.held = false → v.Settled

section
variable {v : View} {platform : Platform} {finishing : Bool}

/-- A write to the internal part that none of this depends on. -/
theorem Told.write (told : v.Told platform finishing) {d : ResourceHandleInternal}
    (client : d.client = v.d.client) (cancelled : d.cancelled = v.d.cancelled)
    (fired : d.response.responseFired = v.d.response.responseFired)
    (challenge : d.webChallenge = v.d.webChallenge)
    (answer : d.doAuthChallenge = v.d.doAuthChallenge)
    (request : v.scheduled = true ∨ v.starting = true → d.request = v.d.request)
    (ssl : v.d.doAuthChallenge = true → d.isSSL = v.d.isSSL) :
    Told { v with d } platform finishing := by
  exact { told with
    fired := fun set => told.fired (fired ▸ set)
    released := by
      dsimp only
      rw [client]
      exact told.released
    cancelled := by
      dsimp only
      rw [cancelled]
      exact told.cancelled
    byClient := by
      dsimp only
      rw [cancelled]
      exact told.byClient
    waits := fun waits => cancelled.trans (told.waits waits)
    shown := fun early => (request early) ▸ told.shown early
    unanswered := by
      dsimp only
      rw [challenge, answer]
      exact told.unanswered
    answered := by
      dsimp only
      rw [challenge, answer]
      intro runs set
      rw [Repeatable, ssl set]
      exact told.answered runs set
    ending := by
      dsimp only
      rw [answer]
      exact told.ending
    pending := told.pending
    gone := told.gone }

/-- The write of `setResponseFired`. -/
theorem Told.setFired (told : v.Told platform finishing)
    (responded : v.has Entry.isResponse ∨ v.has Entry.isRelease) (response : ResourceResponse) :
    Told { v with d := { v.d with response } } platform finishing :=
  { told with
    fired := fun _ => responded
    answered := told.answered
    pending := told.pending
    gone := told.gone }

/-- A challenge is no longer answered. -/
theorem Told.clearAnswer (told : v.Told platform finishing) :
    Told { v with d := { v.d with doAuthChallenge := false } } platform finishing :=
  { told with
    unanswered := fun early => ⟨(told.unanswered early).1, rfl⟩
    answered := fun _ impossible => by cases impossible
    ending := fun held ends => ⟨(told.ending held ends).1, rfl⟩
    pending := told.pending
    gone := told.gone }

/-- A challenge is received. -/
theorem Told.challenge (told : v.Told platform finishing)
    (placed : v.scheduled = false ∧ v.starting = false) (challenge : AuthenticationChallenge) :
    Told { v with d := { v.d with webChallenge := some challenge } } platform finishing :=
  { told with
    unanswered := by
      rintro (waits | starts)
      · exact absurd waits (by simp [placed.1])
      · exact absurd starts (by simp [placed.2])
    answered := fun runs answer => ⟨rfl, (told.answered runs answer).2⟩
    pending := told.pending
    gone := told.gone }

/-- A challenge is answered. -/
theorem Told.answer (told : v.Told platform finishing) (challenged : v.d.webChallenge.isSome = true)
    (answerable : v.running = true → v.Repeatable ∧ v.Fresh ∧ v.terminals = 0)
    (challenge : AuthenticationChallenge) :
    Told { v with d := { v.d with webChallenge := some challenge, doAuthChallenge := true } }
      platform finishing := by
  have late : ¬(v.scheduled = true ∨ v.starting = true) := by
    intro early
    rw [(told.unanswered early).1] at challenged
    cases challenged
  exact { told with
    unanswered := fun early => absurd early late
    answered := fun runs _ => ⟨rfl, (answerable runs).1, (answerable runs).2.1⟩
    ending := by
      intro held ends
      have runs : v.running = true := by
        have placed : (v.scheduled || v.running || v.starting) = true := held
        simp only [Bool.or_eq_true] at placed
        tauto
      have ended := (told.ending held ends).1
      rw [(answerable runs).2.2] at ended
      cases ended
    pending := told.pending
    gone := told.gone }

theorem has_append {entry : Entry} {kind : Entry → Bool} :
    has { v with entries := v.entries ++ [entry] } kind ↔ v.has kind ∨ kind entry = true := by
  simp only [has, List.mem_append, List.mem_singleton, or_and_right, exists_or, exists_eq_left]

theorem terminals_append {entry : Entry} :
    terminals { v with entries := v.entries ++ [entry] } =
      v.terminals + if entry.isTerminal then 1 else 0 := by
  rw [terminals, List.countP_append, List.countP_singleton, terminals]

/-- One more entry. -/
theorem Told.enter (told : v.Told platform finishing) {entry : Entry} {finishing' : Bool}
    (orderly : Orderly (v.entries ++ [entry])) (notRelease : entry.isRelease = false)
    (notCancellation : entry.isCancellation = false)
    (data : ∀ block, entry.dataOf = some block →
      block ≤ v.transfer.blocks ∧ v.transfer.ended = true ∧ v.d.doAuthChallenge = false)
    (passed : ∀ block, entry.passedOf = some block → block ≤ v.transfer.blocks)
    (early : v.scheduled = true ∨ v.starting = true → entry.passedOf = none)
    (repeated : v.added = true → entry.isNotice = false → entry.passedOf = none)
    (terminal : entry.isTerminal = false ∧ finishing' = finishing ∨
      entry.isTerminal = true ∧ v.held = true ∧ finishing = false ∧ finishing' = true ∧
        v.d.doAuthChallenge = false) :
    Told { v with entries := v.entries ++ [entry] } platform finishing' where
  orderly := orderly
  fired := fun set => by
    rw [has_append, has_append]
    exact (told.fired set).imp Or.inl Or.inl
  released := by
    rw [has_append, notRelease]
    simpa using told.released
  cancelled := by
    rw [has_append, notCancellation]
    simp only [Bool.false_eq_true, or_false]
    exact told.cancelled
  byClient := fun placed cancelled => has_append.mpr (Or.inl (told.byClient placed cancelled))
  waits := told.waits
  shown := told.shown
  unanswered := told.unanswered
  untouched := by
    intro waits out
    refine ⟨(told.untouched waits out).1, fun other member => ?_⟩
    rcases List.mem_append.mp member with old | new
    · exact (told.untouched waits out).2 other old
    · exact List.mem_singleton.mp new ▸ early waits
  data := by
    intro other member block isData
    rcases List.mem_append.mp member with old | new
    · exact told.data other old block isData
    · obtain rfl := List.mem_singleton.mp new
      obtain ⟨bound, ended, -⟩ := data block isData
      exact ⟨bound, fun open_ => absurd (ended.symm.trans open_) (by decide)⟩
  passed := by
    intro other member block isPassed
    rcases List.mem_append.mp member with old | new
    · exact told.passed other old block isPassed
    · exact passed block (List.mem_singleton.mp new ▸ isPassed)
  repeated := by
    intro added other member notNotice block isPassed
    rcases List.mem_append.mp member with old | new
    · exact told.repeated added other old notNotice block isPassed
    · obtain rfl := List.mem_singleton.mp new
      rw [repeated added notNotice] at isPassed
      cases isPassed
  answered := by
    intro runs answer
    obtain ⟨challenged, repeatable, fresh⟩ := told.answered runs answer
    refine ⟨challenged, repeatable, ?_⟩
    intro other member isData
    rcases List.mem_append.mp member with old | new
    · exact fresh other old isData
    · obtain rfl := List.mem_singleton.mp new
      have silent := (data _ isData).2.2
      exact absurd (silent.symm.trans answer) (by decide)
  pending := by
    intro held notYet
    rw [terminals_append]
    rcases terminal with ⟨isTerminal, same⟩ | ⟨-, -, -, now, -⟩
    · rw [told.pending held (same ▸ notYet), isTerminal]
      rfl
    · exact absurd (now.symm.trans notYet) (by decide)
  ending := by
    intro held now
    rw [terminals_append]
    rcases terminal with ⟨isTerminal, same⟩ | ⟨isTerminal, -, notYet, -, silent⟩
    · obtain ⟨one, silent⟩ := told.ending held (same ▸ now)
      rw [one, isTerminal]
      exact ⟨rfl, silent⟩
    · rw [told.pending held notYet, isTerminal]
      exact ⟨rfl, silent⟩
  gone := by
    intro left
    rcases terminal with ⟨isTerminal, -⟩ | ⟨-, held, -⟩
    · rw [Settled, terminals_append, isTerminal, has_append, has_append]
      exact (told.gone left).imp id (And.imp id (Or.imp Or.inl Or.inl))
    · exact absurd (held.symm.trans left) (by decide)

/-- The job was not cancelled, so that its client may be called. -/
theorem Told.uncancelled (told : v.Told platform finishing) (held : v.held = true)
    (active : v.d.cancelled = false) : ∀ entry ∈ v.entries, entry.isCancellation = false := by
  intro entry member
  by_contra cancellation
  have cancelled := told.cancelled ⟨entry, member, by simpa using cancellation⟩
  simp [held, active] at cancelled

/-- A notice that is not about data, the end or a redirect. -/
theorem Told.notice (told : v.Told platform finishing) (held : v.held = true)
    (active : v.d.cancelled = false) {entry : Entry} (data : entry.dataOf = none)
    (passed : entry.passedOf = none) (terminal : entry.isTerminal = false)
    (notRelease : entry.isRelease = false) (notCancellation : entry.isCancellation = false) :
    Told { v with entries := v.entries ++ [entry] } platform finishing := by
  apply told.enter _ notRelease notCancellation
  · simp [data]
  · simp [passed]
  · exact fun _ => passed
  · exact fun _ _ => passed
  · exact Or.inl ⟨terminal, rfl⟩
  · exact told.orderly.append_other data passed terminal fun _ => told.uncancelled held active

/-- Data for a response that curl has not gone on from. -/
theorem Told.noticeData (told : v.Told platform finishing) (held : v.held = true)
    (active : v.d.cancelled = false) (responded : v.has Entry.isResponse)
    (silent : v.d.doAuthChallenge = false) (transfer : v.transfer.ended = true)
    (current : ∀ entry ∈ v.entries, entry.passedOf ≠ some v.transfer.blocks)
    (job : Nat) (bytes : List Byte) :
    Told { v with entries := v.entries ++ [.notice job (.didReceiveData bytes) v.transfer] }
      platform finishing := by
  apply told.enter _ rfl rfl
  · intro block isData
    obtain rfl := Option.some.inj isData
    exact ⟨Nat.le_refl _, transfer, silent⟩
  · intro block isPassed
    cases isPassed
  · exact fun _ => rfl
  · exact fun _ _ => rfl
  · exact Or.inl ⟨rfl, rfl⟩
  · apply told.orderly.append
    · exact fun _ => responded
    · exact fun _ => told.uncancelled held active
    · intro block isData
      obtain rfl := Option.some.inj isData
      exact current
    · intro block isPassed
      cases isPassed
    · exact fun _ _ => rfl
    · intro terminal
      cases terminal

/-- A redirect, which is announced before any data of its response. -/
theorem Told.noticeRedirect (told : v.Told platform finishing) (held : v.held = true)
    (placed : v.scheduled = false ∧ v.starting = false) (active : v.d.cancelled = false) (fresh : v.Fresh) (job : Nat) (request : ResourceRequest)
    (response : ResourceResponse) :
    Told { v with entries :=
      v.entries ++ [.notice job (.willSendRequest request response) v.transfer] } platform finishing := by
  apply told.enter _ rfl rfl
  · intro block isData
    cases isData
  · intro block isPassed
    obtain rfl := Option.some.inj isPassed
    exact Nat.le_refl _
  · simp [placed]
  · intro _ notNotice
    cases notNotice
  · exact Or.inl ⟨rfl, rfl⟩
  · apply told.orderly.append
    · intro isData
      cases isData
    · exact fun _ => told.uncancelled held active
    · intro block isData
      cases isData
    · intro block isPassed
      obtain rfl := Option.some.inj isPassed
      exact fresh
    · intro block isData
      cases isData
    · intro terminal
      cases terminal

/-- The end of the load. -/
theorem Told.noticeEnd (told : v.Told platform false) (held : v.held = true)
    (active : v.d.cancelled = false) (silent : v.d.doAuthChallenge = false) {entry : Entry}
    (terminal : entry.isTerminal = true) :
    Told { v with entries := v.entries ++ [entry] } platform true := by
  have data : entry.dataOf = none := by
    cases entry with
    | notice job notice transfer => cases notice <;> simp_all [Entry.isTerminal, Entry.dataOf]
    | _ => cases terminal
  have others : entry.passedOf = none ∧ entry.isRelease = false ∧ entry.isCancellation = false := by
    cases entry with
    | notice job notice transfer =>
      cases notice <;> simp_all [Entry.isTerminal, Entry.passedOf, Entry.isRelease,
        Entry.isCancellation]
    | _ => cases terminal
  apply told.enter _ others.2.1 others.2.2
  · simp [data]
  · simp [others.1]
  · exact fun _ => others.1
  · exact fun _ _ => others.1
  · exact Or.inr ⟨terminal, held, rfl, rfl, silent⟩
  · apply told.orderly.append
    · simp [data]
    · exact fun _ => told.uncancelled held active
    · simp [data]
    · simp [others.1]
    · simp [data]
    · exact fun _ => told.pending held rfl

theorem forall_append {entry : Entry} {holds : Entry → Prop} (old : ∀ e ∈ v.entries, holds e)
    (new : holds entry) : ∀ e ∈ v.entries ++ [entry], holds e := by
  intro e member
  rcases List.mem_append.mp member with before | last
  · exact old e before
  · exact List.mem_singleton.mp last ▸ new

/-- The client cancels a job that waits, which leaves the list with that. -/
theorem Told.cancelWaiting (told : v.Told platform finishing) (waits : v.scheduled = true)
    (apart : v.running = false ∧ v.starting = false) (job : Nat) :
    Told { v with scheduled := false, entries := v.entries ++ [.cancelled job] } platform finishing where
  orderly := told.orderly.append_other rfl rfl rfl fun isNotice => by cases isNotice
  fired := fun set => (told.fired set).imp (fun has => has_append.mpr (Or.inl has))
    fun has => has_append.mpr (Or.inl has)
  released := told.released.trans (has_append.trans (by simp [Entry.isRelease])).symm
  cancelled := fun _ => Or.inr (by simp [View.held, apart.1, apart.2])
  byClient := fun placed => by simp [apart.1, apart.2] at placed
  waits := fun impossible => by cases impossible
  shown := fun early => by simp [apart.2] at early
  unanswered := fun early => by simp [apart.2] at early
  untouched := fun early => by simp [apart.2] at early
  data := forall_append told.data fun _ isData => by cases isData
  passed := forall_append told.passed fun _ isPassed => by cases isPassed
  repeated := fun added => forall_append (told.repeated added) fun _ _ isPassed => by cases isPassed
  answered := fun runs => absurd (apart.1.symm.trans runs) (by decide)
  pending := fun held => by simp [View.held, apart.1, apart.2] at held
  ending := fun held => by simp [View.held, apart.1, apart.2] at held
  gone := fun _ => by
    have held : v.held = true := by simp [View.held, waits]
    have count := @terminals_append v (.cancelled job)
    cases finishing with
    | false =>
      right
      exact ⟨count.trans (told.pending held rfl), Or.inl (has_append.mpr (Or.inr rfl))⟩
    | true => exact Or.inl (count.trans (told.ending held rfl).1)

theorem Fresh.append {entry : Entry} (fresh : v.Fresh) (data : entry.dataOf = none) :
    Fresh { v with entries := v.entries ++ [entry] } :=
  forall_append fresh (by simp [data])

theorem Settled.append {entry : Entry} (settled : v.Settled) (terminal : entry.isTerminal = false) :
    Settled { v with entries := v.entries ++ [entry] } := by
  rw [Settled, terminals_append, terminal, has_append, has_append]
  exact settled.imp id (And.imp id (Or.imp Or.inl Or.inl))

/-- The client cancels a job that does not wait. -/
theorem Told.cancelOther (told : v.Told platform finishing) (out : v.scheduled = false) (job : Nat) :
    Told { v with
      d := { v.d with cancelled := true }, entries := v.entries ++ [.cancelled job] } platform finishing where
  orderly := told.orderly.append_other rfl rfl rfl fun isNotice => by cases isNotice
  fired := fun set => (told.fired set).imp (fun has => has_append.mpr (Or.inl has))
    fun has => has_append.mpr (Or.inl has)
  released := told.released.trans (has_append.trans (by simp [Entry.isRelease])).symm
  cancelled := fun _ => Or.inl rfl
  byClient := fun _ _ => has_append.mpr (Or.inr rfl)
  waits := fun waits => absurd (out.symm.trans waits) (by decide)
  shown := told.shown
  unanswered := told.unanswered
  untouched := fun early out => ⟨(told.untouched early out).1,
    forall_append (told.untouched early out).2 rfl⟩
  data := forall_append told.data fun _ isData => by cases isData
  passed := forall_append told.passed fun _ isPassed => by cases isPassed
  repeated := fun added => forall_append (told.repeated added) fun _ _ isPassed => by cases isPassed
  answered := fun runs answer => (told.answered runs answer).imp id
    (And.imp id fun fresh => Fresh.append fresh rfl)
  pending := fun held notYet => (terminals_append (v := v)).trans (told.pending held notYet)
  ending := fun held now => ⟨(terminals_append (v := v)).trans (told.ending held now).1,
    (told.ending held now).2⟩
  gone := fun left => Settled.append (told.gone left) rfl

/-- The client lets go of the job. -/
theorem Told.release (told : v.Told platform finishing) (job : Nat) :
    Told { v with
      d := { v.d with client := false }, entries := v.entries ++ [.released job] } platform finishing where
  orderly := told.orderly.append_other rfl rfl rfl fun isNotice => by cases isNotice
  fired := fun set => (told.fired set).imp (fun has => has_append.mpr (Or.inl has))
    fun has => has_append.mpr (Or.inl has)
  released := iff_of_true rfl (has_append.mpr (Or.inr rfl))
  cancelled := fun cancellation => told.cancelled
    ((has_append.mp cancellation).resolve_right (by simp [Entry.isCancellation]))
  byClient := fun placed cancelled => has_append.mpr (Or.inl (told.byClient placed cancelled))
  waits := told.waits
  shown := told.shown
  unanswered := told.unanswered
  untouched := fun early out => ⟨(told.untouched early out).1,
    forall_append (told.untouched early out).2 rfl⟩
  data := forall_append told.data fun _ isData => by cases isData
  passed := forall_append told.passed fun _ isPassed => by cases isPassed
  repeated := fun added => forall_append (told.repeated added) fun _ _ isPassed => by cases isPassed
  answered := fun runs answer => (told.answered runs answer).imp id
    (And.imp id fun fresh => Fresh.append fresh rfl)
  pending := fun held notYet => (terminals_append (v := v)).trans (told.pending held notYet)
  ending := fun held now => ⟨(terminals_append (v := v)).trans (told.ending held now).1,
    (told.ending held now).2⟩
  gone := fun left => Settled.append (told.gone left) rfl

/-- Another response begins or the lines of this one end. -/
theorem Told.receive (told : v.Told platform finishing)
    (placed : v.scheduled = false ∧ v.starting = false) (line : List Byte) (info : Info)
    (answered : v.d.doAuthChallenge = true → Repeatable
      { v with transfer := v.transfer.receive line info }) :
    Told { v with transfer := v.transfer.receive line info } platform finishing ∧
      Fresh { v with transfer := v.transfer.receive line info } := by
  have blocks : v.transfer.blocks ≤ (v.transfer.receive line info).blocks := by
    simp only [Transfer.receive]
    split <;> omega
  have strict : ∀ entry ∈ v.entries, ∀ block, entry.dataOf = some block →
      block < (v.transfer.receive line info).blocks := by
    intro entry member block isData
    obtain ⟨bound, open_⟩ := told.data entry member block isData
    simp only [Transfer.receive]
    cases ended : v.transfer.ended with
    | true => exact Nat.lt_succ_of_le bound
    | false => exact open_ ended
  have fresh : Fresh { v with transfer := v.transfer.receive line info } :=
    fun entry member isData => absurd (strict entry member _ isData) (Nat.lt_irrefl _)
  refine ⟨{ told with
    untouched := fun early => by simp [placed] at early
    data := fun entry member block isData =>
      ⟨Nat.le_of_lt (strict entry member block isData), fun _ => strict entry member block isData⟩
    passed := fun entry member block isPassed =>
      (told.passed entry member block isPassed).trans blocks
    repeated := fun added entry member notNotice block isPassed =>
      Nat.lt_of_lt_of_le (told.repeated added entry member notNotice block isPassed) blocks
    answered := fun runs answer => ⟨(told.answered runs answer).1, answered answer, fresh⟩
    pending := told.pending
    gone := told.gone }, fresh⟩

/-- The transfer is taken out of curl. -/
theorem Told.detach (told : v.Told platform finishing)
    (placed : v.scheduled = false ∧ v.starting = false) :
    Told { v with added := false } platform finishing :=
  { told with
    untouched := fun early => by simp [placed] at early
    repeated := fun impossible => by cases impossible
    answered := told.answered
    pending := told.pending
    gone := told.gone }

/-- The transfer is about to be added once more. -/
theorem Told.repeat (told : v.Told platform finishing)
    (placed : v.scheduled = false ∧ v.starting = false) (fresh : v.Fresh) (job : Nat) :
    Told { v with added := false, entries := v.entries ++ [.repeated job v.transfer] } platform
      finishing := by
  have out := told.detach placed
  apply out.enter _ rfl rfl
  · intro block isData
    cases isData
  · intro block isPassed
    obtain rfl := Option.some.inj isPassed
    exact Nat.le_refl _
  · simp [placed]
  · intro impossible
    cases impossible
  · exact Or.inl ⟨rfl, rfl⟩
  · apply told.orderly.append
    · intro isData
      cases isData
    · intro isNotice
      cases isNotice
    · intro block isData
      cases isData
    · intro block isPassed
      obtain rfl := Option.some.inj isPassed
      exact fresh
    · intro block isData
      cases isData
    · intro terminal
      cases terminal

/-- The transfer is added to curl, where it starts anew. -/
theorem Told.attach (told : v.Told platform finishing) (silent : v.d.doAuthChallenge = false)
    {transfer : Transfer} (next : transfer.blocks = v.transfer.blocks + 1) :
    Told { v with added := true, transfer } platform finishing where
  orderly := told.orderly
  fired := told.fired
  released := told.released
  cancelled := told.cancelled
  byClient := told.byClient
  waits := told.waits
  shown := told.shown
  unanswered := told.unanswered
  untouched := fun _ out => by cases out
  data := by
    intro entry member block isData
    have bound := (told.data entry member block isData).1
    dsimp only
    exact ⟨by omega, fun _ => by omega⟩
  passed := by
    intro entry member block isPassed
    have bound := told.passed entry member block isPassed
    dsimp only
    omega
  repeated := by
    intro _ entry member _ block isPassed
    have bound := told.passed entry member block isPassed
    dsimp only
    omega
  answered := fun _ answer => absurd (silent.symm.trans answer) (by decide)
  pending := told.pending
  ending := told.ending
  gone := told.gone

/-- The job is taken from the scheduled list to be started. -/
theorem Told.take (told : v.Told platform finishing) (waits : v.scheduled = true) :
    Told { v with scheduled := false, starting := true } platform finishing where
  orderly := told.orderly
  fired := told.fired
  released := told.released
  cancelled := fun cancellation => by
    have active := told.waits waits
    have before := told.cancelled cancellation
    simp [View.held, waits, active] at before
  byClient := fun _ cancelled => absurd ((told.waits waits).symm.trans cancelled) (by decide)
  waits := fun impossible => by cases impossible
  shown := fun _ => told.shown (Or.inl waits)
  unanswered := fun _ => told.unanswered (Or.inl waits)
  untouched := fun _ => told.untouched (Or.inl waits)
  data := told.data
  passed := told.passed
  repeated := told.repeated
  answered := told.answered
  pending := fun _ => told.pending (by simp [View.held, waits])
  ending := fun _ => told.ending (by simp [View.held, waits])
  gone := fun impossible => by simp [View.held] at impossible

/-- The job that was started runs. -/
theorem Told.place (told : v.Told platform finishing) (starts : v.starting = true) :
    Told { v with running := true, starting := false } platform finishing where
  orderly := told.orderly
  fired := told.fired
  released := told.released
  cancelled := fun cancellation => by
    have before := told.cancelled cancellation
    simpa [View.held, starts] using before
  byClient := fun _ => told.byClient (Or.inr starts)
  waits := told.waits
  shown := fun _ => told.shown (Or.inr starts)
  unanswered := fun _ => told.unanswered (Or.inr starts)
  untouched := fun _ => told.untouched (Or.inr starts)
  data := told.data
  passed := told.passed
  repeated := told.repeated
  answered := fun _ answer =>
    absurd ((told.unanswered (Or.inr starts)).2.symm.trans answer) (by decide)
  pending := fun _ => told.pending (by simp [View.held, starts])
  ending := fun _ => told.ending (by simp [View.held, starts])
  gone := fun impossible => by simp [View.held] at impossible

/-- The job leaves or has left. Its client was told, or wants to hear no more. -/
theorem Told.leave (told : v.Told platform finishing) (settled : v.Settled) {v' : View}
    (entries : v'.entries = v.entries) (transfer : v'.transfer = v.transfer)
    (client : v'.d.client = v.d.client)
    (fired : v'.d.response.responseFired = v.d.response.responseFired) (out : v'.held = false)
    (added : v'.added = false) : v'.Told platform false := by
  obtain ⟨⟨waits, runs⟩, starts⟩ : (v'.scheduled = false ∧ v'.running = false) ∧
      v'.starting = false := by
    simpa [held, Bool.or_eq_false_iff] using out
  have has : ∀ kind, v'.has kind ↔ v.has kind := fun kind => by rw [View.has, View.has, entries]
  have count : v'.terminals = v.terminals := by rw [terminals, terminals, entries]
  constructor
  · exact entries ▸ told.orderly
  · rw [fired, has, has]
    exact told.fired
  · rw [client, has]
    exact told.released
  · exact fun _ => Or.inr out
  · simp [runs, starts]
  · simp [waits]
  · simp [waits, starts]
  · simp [waits, starts]
  · simp [waits, starts]
  · rw [entries, transfer]
    exact told.data
  · rw [entries, transfer]
    exact told.passed
  · simp [added]
  · simp [runs]
  · simp [out]
  · simp [out]
  · intro _
    rw [Settled, count, has, has]
    exact settled

end

end View

end WkcBrowser.Network
