import Mathlib.Data.List.Nodup
import Mathlib.Logic.Function.Basic

/-! Where the jobs of a manager are, and what it owes them. A job is submitted, waits, is taken out to
be started, runs and leaves; the manager holds a reference to it from the first of these steps to the
last. Transfers are what a library runs for the jobs, and it announces those that are finished. -/

namespace WkcBrowser.Network

structure Ledger where
  created : Nat
  scheduled : List Nat
  running : List Nat
  starting : Option Nat
  multi : List Nat
  finished : List Nat
  refs : Nat → Nat
  derefs : Nat → Nat
  handle : Nat → Bool

namespace Ledger
variable (ledger : Ledger) (job other : Nat)

/-- The manager has the job in one of its lists or is about to start it. -/
def Held : Prop :=
  job ∈ ledger.scheduled ∨ job ∈ ledger.running ∨ ledger.starting = some job

instance : Decidable (ledger.Held job) :=
  inferInstanceAs (Decidable (_ ∨ _))

def submit : Ledger :=
  { ledger with
    created := ledger.created + 1
    scheduled := ledger.scheduled ++ [ledger.created]
    refs := Function.update ledger.refs ledger.created 1
    derefs := Function.update ledger.derefs ledger.created 0
    handle := Function.update ledger.handle ledger.created false }

def release : Ledger :=
  { ledger with derefs := Function.update ledger.derefs job (ledger.derefs job + 1) }

def setHandle (set : Bool) : Ledger :=
  { ledger with handle := Function.update ledger.handle job set }

/-- A job that waits is given up. -/
def drop : Ledger :=
  { ledger with scheduled := ledger.scheduled.erase job }.release job

def take : Ledger :=
  { ledger with scheduled := ledger.scheduled.erase job, starting := some job }

/-- The job that is started could not be. -/
def refuse : Ledger :=
  { (ledger.setHandle job false).release job with starting := none }

def attach : Ledger :=
  { ledger with multi := ledger.multi ++ [job] }

def detach : Ledger :=
  { ledger with
    multi := ledger.multi.erase job
    finished := ledger.finished.filter (· ≠ job) }

/-- The job that is started runs. -/
def place : Ledger :=
  { ledger.attach job with running := ledger.running ++ [job], starting := none }

def leave : Ledger :=
  ({ ledger.detach job with running := ledger.running.erase job }.setHandle job false).release job

def finish : Ledger :=
  { ledger with finished := ledger.finished ++ [job] }

/-- The jobs are in one place each, the manager holds a reference to exactly those that are in one,
and a library runs transfers for jobs that run only. -/
structure Sound : Prop where
  scheduled : ledger.scheduled.Nodup
  running : ledger.running.Nodup
  apart : ∀ job ∈ ledger.scheduled, job ∉ ledger.running
  started : ∀ job, ledger.starting = some job → job ∉ ledger.scheduled ∧ job ∉ ledger.running
  known : ∀ job, ledger.Held job → job < ledger.created
  taken : ∀ job < ledger.created, ledger.refs job = 1
  released : ∀ job < ledger.created, ledger.derefs job = if ledger.Held job then 0 else 1
  multi : ledger.multi.Nodup
  added : ∀ job ∈ ledger.multi, job ∈ ledger.running
  finished : ∀ job ∈ ledger.finished, job ∈ ledger.multi
  handle : ∀ job ∈ ledger.running, ledger.handle job = true

variable {ledger job}

/-- What is asked of the places of the jobs and of the references alone. -/
structure Balanced (ledger : Ledger) : Prop where
  known : ∀ job, ledger.Held job → job < ledger.created
  taken : ∀ job < ledger.created, ledger.refs job = 1
  released : ∀ job < ledger.created, ledger.derefs job = if ledger.Held job then 0 else 1

theorem Sound.balanced (sound : ledger.Sound) : ledger.Balanced :=
  ⟨sound.known, sound.taken, sound.released⟩

/-- The balance moves with one job that is no longer held. -/
theorem Balanced.release {ledger' : Ledger} (balanced : ledger.Balanced)
    (held : ledger.Held job) (gone : ∀ other, ledger'.Held other ↔ ledger.Held other ∧ other ≠ job)
    (created : ledger'.created = ledger.created) (refs : ledger'.refs = ledger.refs)
    (derefs : ledger'.derefs = Function.update ledger.derefs job (ledger.derefs job + 1)) :
    ledger'.Balanced := by
  constructor
  · intro other still
    rw [created]
    exact balanced.known other ((gone other).mp still).1
  · intro other below
    rw [refs]
    exact balanced.taken other (created ▸ below)
  · intro other below
    rw [created] at below
    have before := balanced.released other below
    rw [derefs, Function.update_apply]
    by_cases same : other = job
    · subst same
      rw [if_pos held] at before
      rw [if_pos rfl, before, if_neg fun still => ((gone other).mp still).2 rfl]
    · rw [if_neg same, before]
      simp only [gone, same, ne_eq, not_false_eq_true, and_true]

/-- The balance does not depend on which place a job is held in. -/
theorem Balanced.move {ledger' : Ledger} (balanced : ledger.Balanced)
    (held : ∀ other, ledger'.Held other ↔ ledger.Held other)
    (created : ledger'.created = ledger.created) (refs : ledger'.refs = ledger.refs)
    (derefs : ledger'.derefs = ledger.derefs) : ledger'.Balanced := by
  constructor
  · intro other still
    rw [created]
    exact balanced.known other ((held other).mp still)
  · intro other below
    rw [refs]
    exact balanced.taken other (created ▸ below)
  · intro other below
    rw [derefs, balanced.released other (created ▸ below)]
    simp only [held]

theorem Sound.submit (sound : ledger.Sound) : ledger.submit.Sound := by
  have fresh : ¬ledger.Held ledger.created := fun held => absurd (sound.known _ held) (by omega)
  have held : ∀ other, ledger.submit.Held other ↔ ledger.Held other ∨ other = ledger.created := by
    intro other
    simp only [Held, Ledger.submit, List.mem_append, List.mem_singleton]
    tauto
  have others : ∀ other, ledger.Held other → other ≠ ledger.created := by
    rintro other old rfl
    exact fresh old
  constructor
  · apply sound.scheduled.append (List.nodup_singleton _)
    intro other old new
    exact others other (Or.inl old) (List.mem_singleton.mp new)
  · exact sound.running
  · intro other member
    rcases List.mem_append.mp member with old | new
    · exact sound.apart other old
    · obtain rfl := List.mem_singleton.mp new
      exact fun running => fresh (Or.inr (Or.inl running))
  · intro other started
    obtain ⟨notScheduled, notRunning⟩ := sound.started other started
    refine ⟨?_, notRunning⟩
    intro member
    rcases List.mem_append.mp member with old | new
    · exact notScheduled old
    · exact others other (Or.inr (Or.inr started)) (List.mem_singleton.mp new)
  · intro other now
    rcases (held other).mp now with old | new
    · exact Nat.lt_succ_of_lt (sound.known other old)
    · exact new ▸ Nat.lt_succ_self _
  · intro other below
    simp only [Ledger.submit, Function.update_apply]
    split
    · rfl
    · exact sound.taken other (Nat.lt_of_le_of_ne (Nat.lt_succ_iff.mp below) ‹_›)
  · intro other below
    simp only [held]
    simp only [Ledger.submit, Function.update_apply]
    split
    · rw [if_pos (Or.inr ‹_›)]
    · rw [sound.released other (Nat.lt_of_le_of_ne (Nat.lt_succ_iff.mp below) ‹_›)]
      simp only [‹¬other = ledger.created›, or_false]
  · exact sound.multi
  · exact sound.added
  · exact sound.finished
  · intro other member
    simp only [Ledger.submit]
    rw [Function.update_of_ne (others other (Or.inr (Or.inl member)))]
    exact sound.handle other member

theorem Sound.drop (sound : ledger.Sound) (waits : job ∈ ledger.scheduled) :
    (ledger.drop job).Sound := by
  have erased : ∀ other, other ∈ ledger.scheduled.erase job ↔ other ∈ ledger.scheduled ∧ other ≠ job := by
    intro other
    rw [sound.scheduled.mem_erase_iff, and_comm]
  have gone : ∀ other, (ledger.drop job).Held other ↔ ledger.Held other ∧ other ≠ job := by
    intro other
    have notRunning := sound.apart job waits
    have notStarting : ledger.starting ≠ some job := fun started =>
      (sound.started job started).1 waits
    simp only [Held, Ledger.drop, Ledger.release, erased]
    grind
  have balanced := sound.balanced.release (Or.inl waits) gone rfl rfl rfl
  exact { sound with
    scheduled := sound.scheduled.erase job
    apart := fun other member => sound.apart other ((erased other).mp member).1
    started := fun other started => ⟨fun member =>
      (sound.started other started).1 ((erased other).mp member).1, (sound.started other started).2⟩
    known := balanced.known
    taken := balanced.taken
    released := balanced.released }

theorem Sound.take (sound : ledger.Sound) (waits : job ∈ ledger.scheduled)
    (free : ledger.starting = none) : (ledger.take job).Sound := by
  have erased : ∀ other, other ∈ ledger.scheduled.erase job ↔ other ∈ ledger.scheduled ∧ other ≠ job := by
    intro other
    rw [sound.scheduled.mem_erase_iff, and_comm]
  have held : ∀ other, (ledger.take job).Held other ↔ ledger.Held other := by
    intro other
    simp only [Held, Ledger.take, erased, free]
    grind
  have balanced := sound.balanced.move held rfl rfl rfl
  exact { sound with
    scheduled := sound.scheduled.erase job
    apart := fun other member => sound.apart other ((erased other).mp member).1
    started := by
      rintro other started
      obtain rfl := Option.some.inj started
      exact ⟨fun member => ((erased _).mp member).2 rfl, sound.apart _ waits⟩
    known := balanced.known
    taken := balanced.taken
    released := balanced.released }

theorem Sound.setHandle (sound : ledger.Sound) (set : Bool) (idle : job ∉ ledger.running) :
    (ledger.setHandle job set).Sound :=
  { sound with
    known := sound.known
    released := sound.released
    handle := by
      intro other member
      have different : other ≠ job := by
        rintro rfl
        exact idle member
      simp only [Ledger.setHandle, Function.update_of_ne different]
      exact sound.handle other member }

theorem Sound.refuse (sound : ledger.Sound) (started : ledger.starting = some job) :
    (ledger.refuse job).Sound := by
  obtain ⟨notScheduled, notRunning⟩ := sound.started job started
  have gone : ∀ other, (ledger.refuse job).Held other ↔ ledger.Held other ∧ other ≠ job := by
    intro other
    simp only [Held, Ledger.refuse, Ledger.release, Ledger.setHandle, started]
    grind
  have balanced := sound.balanced.release (Or.inr (Or.inr started)) gone rfl rfl rfl
  exact { sound.setHandle false notRunning with
    started := by
      intro other impossible
      cases impossible
    known := balanced.known
    taken := balanced.taken
    released := balanced.released }

theorem Sound.place (sound : ledger.Sound) (started : ledger.starting = some job)
    (set : ledger.handle job = true) : (ledger.place job).Sound := by
  obtain ⟨notScheduled, notRunning⟩ := sound.started job started
  have held : ∀ other, (ledger.place job).Held other ↔ ledger.Held other := by
    intro other
    simp only [Held, Ledger.place, Ledger.attach, started, List.mem_append, List.mem_singleton]
    grind
  have balanced := sound.balanced.move held rfl rfl rfl
  exact { sound with
    running := by
      apply sound.running.append (List.nodup_singleton _)
      intro other member same
      exact notRunning (List.mem_singleton.mp same ▸ member)
    apart := by
      intro other member new
      rcases List.mem_append.mp new with old | same
      · exact sound.apart other member old
      · exact notScheduled (List.mem_singleton.mp same ▸ member)
    started := by
      intro other impossible
      cases impossible
    known := balanced.known
    taken := balanced.taken
    released := balanced.released
    multi := by
      apply sound.multi.append (List.nodup_singleton _)
      intro other member same
      exact notRunning (List.mem_singleton.mp same ▸ sound.added other member)
    added := by
      intro other member
      rcases List.mem_append.mp member with old | same
      · exact List.mem_append_left _ (sound.added other old)
      · exact List.mem_append_right _ same
    finished := fun other member => List.mem_append_left _ (sound.finished other member)
    handle := by
      intro other member
      rcases List.mem_append.mp member with old | same
      · exact sound.handle other old
      · exact List.mem_singleton.mp same ▸ set }

theorem Sound.detach (sound : ledger.Sound) : (ledger.detach job).Sound := by
  have erased : ∀ other, other ∈ ledger.multi.erase job ↔ other ∈ ledger.multi ∧ other ≠ job := by
    intro other
    rw [sound.multi.mem_erase_iff, and_comm]
  exact { sound with
    known := sound.known
    released := sound.released
    multi := sound.multi.erase job
    added := fun other member => sound.added other ((erased other).mp member).1
    finished := by
      intro other member
      obtain ⟨old, different⟩ := List.mem_filter.mp member
      exact (erased other).mpr ⟨sound.finished other old, by simpa using different⟩ }

theorem Sound.attach (sound : ledger.Sound) (runs : job ∈ ledger.running)
    (fresh : job ∉ ledger.multi) : (ledger.attach job).Sound :=
  { sound with
    known := sound.known
    released := sound.released
    multi := by
      apply sound.multi.append (List.nodup_singleton _)
      intro other member same
      exact fresh (List.mem_singleton.mp same ▸ member)
    added := by
      intro other member
      rcases List.mem_append.mp member with old | same
      · exact sound.added other old
      · exact List.mem_singleton.mp same ▸ runs
    finished := fun other member => List.mem_append_left _ (sound.finished other member) }

theorem Sound.leave (sound : ledger.Sound) (runs : job ∈ ledger.running) :
    (ledger.leave job).Sound := by
  have erased : ∀ other, other ∈ ledger.running.erase job ↔ other ∈ ledger.running ∧ other ≠ job := by
    intro other
    rw [sound.running.mem_erase_iff, and_comm]
  have transfers : ∀ other, other ∈ ledger.multi.erase job ↔ other ∈ ledger.multi ∧ other ≠ job := by
    intro other
    rw [sound.multi.mem_erase_iff, and_comm]
  have notScheduled : job ∉ ledger.scheduled := fun waits => sound.apart job waits runs
  have notStarting : ledger.starting ≠ some job := fun started => (sound.started job started).2 runs
  have gone : ∀ other, (ledger.leave job).Held other ↔ ledger.Held other ∧ other ≠ job := by
    intro other
    simp only [Held, Ledger.leave, Ledger.release, Ledger.setHandle, Ledger.detach, erased]
    grind
  have balanced := sound.balanced.release (Or.inr (Or.inl runs)) gone rfl rfl rfl
  exact { (sound.detach : (ledger.detach job).Sound) with
    running := sound.running.erase job
    apart := fun other member listed => sound.apart other member ((erased other).mp listed).1
    started := fun other started => ⟨(sound.started other started).1,
      fun listed => (sound.started other started).2 ((erased other).mp listed).1⟩
    known := balanced.known
    taken := balanced.taken
    released := balanced.released
    added := by
      intro other member
      obtain ⟨old, different⟩ := (transfers other).mp member
      exact (erased other).mpr ⟨sound.added other old, different⟩
    handle := by
      intro other member
      obtain ⟨old, different⟩ := (erased other).mp member
      simp only [Ledger.leave, Ledger.release, Ledger.setHandle, Function.update_of_ne different]
      exact sound.handle other old }

theorem Sound.finish (sound : ledger.Sound) (added : job ∈ ledger.multi) :
    (ledger.finish job).Sound :=
  { sound with
    known := sound.known
    released := sound.released
    finished := by
      intro other member
      rcases List.mem_append.mp member with old | same
      · exact sound.finished other old
      · exact List.mem_singleton.mp same ▸ added }

theorem Sound.read (sound : ledger.Sound) {rest : List Nat} (subset : rest ⊆ ledger.finished) :
    Sound { ledger with finished := rest } :=
  { sound with
    known := sound.known
    released := sound.released
    finished := fun other member => sound.finished other (subset member) }

/-- All jobs are given up at once. -/
theorem Sound.clear {ledger' : Ledger} (sound : ledger.Sound) (free : ledger.starting = none)
    (created : ledger'.created = ledger.created) (refs : ledger'.refs = ledger.refs)
    (scheduled : ledger'.scheduled = []) (running : ledger'.running = [])
    (starting : ledger'.starting = none) (multi : ledger'.multi = [])
    (finished : ledger'.finished = [])
    (derefs : ∀ job, ledger'.derefs job =
      ledger.derefs job + ledger.scheduled.count job + ledger.running.count job) :
    ledger'.Sound := by
  have none_ : ∀ job, ¬ledger'.Held job := by
    intro job
    simp [Held, scheduled, running, starting]
  constructor
  · rw [scheduled]
    exact List.nodup_nil
  · rw [running]
    exact List.nodup_nil
  · simp [scheduled]
  · simp [starting]
  · exact fun job held => absurd held (none_ job)
  · intro job below
    rw [refs]
    exact sound.taken job (created ▸ below)
  · intro job below
    have before := sound.released job (created ▸ below)
    rw [derefs, before, if_neg (none_ job), sound.scheduled.count, sound.running.count]
    have apart := sound.apart job
    simp only [Held, free]
    grind
  · rw [multi]
    exact List.nodup_nil
  · simp [multi]
  · simp [finished]
  · simp [running]

end Ledger

end WkcBrowser.Network
