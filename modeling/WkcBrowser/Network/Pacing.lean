import WkcBrowser.Network.ScheduleRuns

/-! The order and the number of the jobs that run. Scripts run one at a time, no job is started beyond
the limit or beside an expected challenge of the proxy, and only the scripts that are held back are
overtaken. -/

namespace WkcBrowser.Network

open Wtf Lib.Interaction Program ResourceHandleManager

/-- A later start is one of a job that was added later, or of a script that was held back. -/
def Start.Before (first later : Start) : Prop :=
  later.job < first.job → first.jsSequential = true ∧ later.isJSRequestatFirst = true

/-- The job may start. -/
def Start.Allowed (start : Start) : Prop :=
  start.running.length < start.tcpConnections ∧
    (start.willChallengeProxyAuth = true → start.running = [])

/-- Scripts run one at a time and hold back the others, and all starts were in order. -/
structure Schedule.Paced (s : Schedule) : Prop where
  known : ∀ job, job ∈ s.scheduled ∨ job ∈ s.running ∨ s.starting = some job ∨
    (∃ start ∈ s.starts, start.job = job) → job < s.created
  sorted : s.scheduled.Pairwise (· < ·)
  runningNodup : s.running.Nodup
  apart : ∀ job ∈ s.scheduled, job ∉ s.running
  beginning : ∀ job, s.starting = some job → job ∉ s.scheduled ∧ job ∉ s.running ∧
    (s.script job = true → s.sequential = false)
  sequential : s.sequential = true ↔ ∃ job ∈ s.running, s.script job = true
  single : ∀ job ∈ s.running, ∀ other ∈ s.running, s.script job = true → s.script other = true →
    job = other
  allowed : ∀ start ∈ s.starts, start.Allowed
  ordered : s.starts.Pairwise Start.Before
  overtaken : ∀ start ∈ s.starts, ∀ job ∈ s.scheduled, job < start.job →
    start.jsSequential = true ∧ s.script job = true
  logged : ∀ job, job ∈ s.running ∨ s.starting = some job → ∃ start ∈ s.starts, start.job = job

section
variable {s : Schedule} {job : Nat}

theorem Schedule.submit_script (script : Bool) (known : job < s.created) :
    (s.submit script).script job = s.script job :=
  Function.update_of_ne (Nat.ne_of_lt known) ..

theorem Schedule.Paced.submit (paced : s.Paced) (script : Bool) : (s.submit script).Paced := by
  have waits : ∀ job, job ∈ s.scheduled → job < s.created := fun job waits =>
    paced.known job (Or.inl waits)
  have runs : ∀ job, job ∈ s.running → job < s.created := fun job runs =>
    paced.known job (Or.inr (Or.inl runs))
  have scheduled : ∀ job, job ∈ (s.submit script).scheduled →
      job ∈ s.scheduled ∨ job = s.created := by
    intro job member
    exact (List.mem_append.mp member).imp id List.mem_singleton.mp
  have same : ∀ job ∈ s.running, (s.submit script).script job = s.script job :=
    fun job member => submit_script script (runs job member)
  refine { paced with
    known := ?_, sorted := ?_, apart := ?_, beginning := ?_, sequential := ?_, single := ?_
    overtaken := ?_ }
  · rintro job (member | placed)
    · rcases scheduled job member with old | new
      · exact Nat.lt_succ_of_lt (waits job old)
      · exact new ▸ Nat.lt_succ_self _
    · exact Nat.lt_succ_of_lt (paced.known job (Or.inr placed))
  · refine List.pairwise_append.mpr ⟨paced.sorted, List.pairwise_singleton .., ?_⟩
    intro job old new isNew
    rw [List.mem_singleton.mp isNew]
    exact waits job old
  · intro job member running
    rcases scheduled job member with old | new
    · exact paced.apart job old running
    · exact Nat.lt_irrefl _ (runs _ (new ▸ running))
  · intro job starts
    have isKnown := paced.known job (Or.inr (Or.inr (Or.inl starts)))
    obtain ⟨out, notRunning, alone⟩ := paced.beginning job starts
    rw [submit_script script isKnown]
    refine ⟨fun member => ?_, notRunning, alone⟩
    rcases scheduled job member with old | new
    · exact out old
    · exact Nat.lt_irrefl _ (new ▸ isKnown)
  · refine paced.sequential.trans (exists_congr fun job => and_congr_right fun member => ?_)
    rw [same job member]
  · intro job member other member'
    rw [same job member, same other member']
    exact paced.single job member other member'
  · intro start started job member before
    have isKnown := paced.known start.job (Or.inr (Or.inr (Or.inr ⟨start, started, rfl⟩)))
    rcases scheduled job member with old | new
    · rw [submit_script script (waits job old)]
      exact paced.overtaken start started job old before
    · omega

theorem Schedule.Paced.drop (paced : s.Paced) (job : Nat) : (s.drop job).Paced := by
  have scheduled : ∀ {other}, other ∈ (s.drop job).scheduled → other ∈ s.scheduled :=
    fun member => List.mem_of_mem_erase member
  refine { paced with
    known := ?_, sorted := ?_, apart := ?_, beginning := ?_, overtaken := ?_ }
  · exact fun other placed => paced.known other (placed.imp scheduled id)
  · exact paced.sorted.sublist List.erase_sublist
  · exact fun other member => paced.apart other (scheduled member)
  · intro other starts
    obtain ⟨out, rest⟩ := paced.beginning other starts
    exact ⟨fun member => out (scheduled member), rest⟩
  · exact fun start started other member =>
      paced.overtaken start started other (scheduled member)

/-- The next job overtakes scripts only. -/
theorem Schedule.Paced.take {start : Start} (paced : s.Paced) (fits : start.Fits s) :
    (s.take start).Paced := by
  obtain ⟨front, back, split, held⟩ := fits.next
  have waits : start.job ∈ s.scheduled := by
    rw [split]
    exact List.mem_append_right _ List.mem_cons_self
  have isKnown := paced.known start.job (Or.inl waits)
  have nodup : s.scheduled.Nodup := paced.sorted.imp Nat.ne_of_lt
  have scheduled : ∀ {other}, other ∈ (s.take start).scheduled →
      other ≠ start.job ∧ other ∈ s.scheduled := nodup.mem_erase_iff.mp
  have passed : ∀ other ∈ s.scheduled, other < start.job →
      s.sequential = true ∧ s.script other = true := by
    intro other member before
    have order := paced.sorted
    rw [split] at member order
    rcases List.mem_append.mp member with inFront | rest
    · exact held other inFront
    · rcases List.mem_cons.mp rest with same | behind
      · omega
      · have later := (List.pairwise_cons.mp (List.pairwise_append.mp order).2.1).1 other behind
        omega
  refine { paced with
    known := ?_, sorted := ?_, apart := ?_, beginning := ?_, allowed := ?_, ordered := ?_
    overtaken := ?_, logged := ?_ }
  · rintro other (member | runs | starts | ⟨logged, member, same⟩)
    · exact paced.known other (Or.inl (scheduled member).2)
    · exact paced.known other (Or.inr (Or.inl runs))
    · exact Option.some.inj starts ▸ isKnown
    · rcases List.mem_append.mp member with old | new
      · exact paced.known other (Or.inr (Or.inr (Or.inr ⟨logged, old, same⟩)))
      · rw [← same, List.mem_singleton.mp new]
        exact isKnown
  · exact paced.sorted.sublist List.erase_sublist
  · exact fun other member => paced.apart other (scheduled member).2
  · intro other starts
    obtain rfl : start.job = other := Option.some.inj starts
    refine ⟨fun member => (scheduled member).1 rfl, paced.apart _ waits, fun script => ?_⟩
    rw [Bool.eq_false_iff]
    exact fun sequential => absurd (script.symm.trans (fits.unheld sequential)) (by simp)
  · intro other member
    rcases List.mem_append.mp member with old | new
    · exact paced.allowed other old
    · rw [List.mem_singleton.mp new]
      exact ⟨fits.room, fits.challenge⟩
  · refine List.pairwise_append.mpr ⟨paced.ordered, List.pairwise_singleton .., ?_⟩
    intro first old later isNew before
    rw [List.mem_singleton.mp isNew] at before ⊢
    obtain ⟨sequential, script⟩ := paced.overtaken first old start.job waits before
    exact ⟨sequential, fits.script.trans script⟩
  · intro other member waiting stays before
    rcases List.mem_append.mp member with old | new
    · exact paced.overtaken other old waiting (scheduled stays).2 before
    · rw [List.mem_singleton.mp new] at before ⊢
      obtain ⟨sequential, script⟩ := passed waiting (scheduled stays).2 before
      exact ⟨fits.sequential.trans sequential, script⟩
  · rintro other (runs | starts)
    · obtain ⟨logged, member, same⟩ := paced.logged other (Or.inl runs)
      exact ⟨logged, List.mem_append_left _ member, same⟩
    · exact ⟨start, List.mem_append_right _ List.mem_cons_self, Option.some.inj starts⟩

theorem Schedule.Paced.place (paced : s.Paced) (starts : s.starting = some job) :
    (s.place job).Paced := by
  obtain ⟨out, notRunning, alone⟩ := paced.beginning job starts
  have running : ∀ {other}, other ∈ (s.place job).running → other ∈ s.running ∨ other = job := by
    intro other member
    exact (List.mem_append.mp member).imp id List.mem_singleton.mp
  have nobody : s.script job = true → ∀ other ∈ s.running, ¬s.script other = true := by
    intro script other runs script'
    have set := paced.sequential.mpr ⟨other, runs, script'⟩
    exact absurd (set.symm.trans (alone script)) (by simp)
  refine { paced with
    known := ?_, runningNodup := ?_, apart := ?_, beginning := ?_, sequential := ?_, single := ?_
    logged := ?_ }
  · rintro other (waits | runs | never | logged)
    · exact paced.known other (Or.inl waits)
    · rcases running runs with old | new
      · exact paced.known other (Or.inr (Or.inl old))
      · exact paced.known other (Or.inr (Or.inr (Or.inl (new ▸ starts))))
    · cases never
    · exact paced.known other (Or.inr (Or.inr (Or.inr logged)))
  · refine List.nodup_append.mpr ⟨paced.runningNodup, List.nodup_singleton _, ?_⟩
    intro other runs another isNew same
    rw [same, List.mem_singleton.mp isNew] at runs
    exact notRunning runs
  · intro other waits runs
    rcases running runs with old | new
    · exact paced.apart other waits old
    · exact out (new ▸ waits)
  · exact fun other never => nomatch never
  · simp only [Schedule.place, Bool.or_eq_true, List.mem_append, List.mem_singleton, or_and_right,
      exists_or, exists_eq_left]
    exact or_congr_left paced.sequential
  · intro first runs second runs' script script'
    rcases running runs with old | new <;> rcases running runs' with old' | new'
    · exact paced.single first old second old' script script'
    · exact absurd script (nobody (new' ▸ script') first old)
    · exact absurd script' (nobody (new ▸ script) second old')
    · exact new.trans new'.symm
  · rintro other (runs | never)
    · rcases running runs with old | new
      · exact paced.logged other (Or.inl old)
      · exact paced.logged other (Or.inr (new ▸ starts))
    · cases never

theorem Schedule.Paced.refuse (paced : s.Paced) (job : Nat) : (s.refuse job).Paced := by
  refine { paced with known := ?_, beginning := ?_, logged := ?_ }
  · rintro other (waits | runs | never | logged)
    · exact paced.known other (Or.inl waits)
    · exact paced.known other (Or.inr (Or.inl runs))
    · cases never
    · exact paced.known other (Or.inr (Or.inr (Or.inr logged)))
  · exact fun other never => nomatch never
  · rintro other (runs | never)
    · exact paced.logged other (Or.inl runs)
    · cases never

/-- The script that leaves was the only one. -/
theorem Schedule.Paced.remove (paced : s.Paced) (runs : job ∈ s.running) : (s.remove job).Paced := by
  have running : ∀ {other}, other ∈ (s.remove job).running → other ≠ job ∧ other ∈ s.running :=
    paced.runningNodup.mem_erase_iff.mp
  refine { paced with
    known := ?_, runningNodup := ?_, apart := ?_, beginning := ?_, sequential := ?_, single := ?_
    logged := ?_ }
  · exact fun other placed =>
      paced.known other (placed.imp id (Or.imp (fun stays => (running stays).2) id))
  · exact paced.runningNodup.erase job
  · exact fun other waits stays => paced.apart other waits (running stays).2
  · intro other starts
    obtain ⟨out, notRunning, alone⟩ := paced.beginning other starts
    refine ⟨out, fun stays => notRunning (running stays).2, fun script => ?_⟩
    rw [Schedule.remove]
    dsimp only
    rw [alone script]
    rfl
  · simp only [Schedule.remove, Bool.and_eq_true, Bool.not_eq_true', paced.sequential]
    constructor
    · rintro ⟨⟨other, member, script⟩, plain⟩
      have different : other ≠ job := fun same => absurd script (by simp [same, plain])
      exact ⟨other, (List.mem_erase_of_ne different).mpr member, script⟩
    · rintro ⟨other, stays, script⟩
      refine ⟨⟨other, (running stays).2, script⟩, ?_⟩
      rw [Bool.eq_false_iff]
      exact fun script' => (running stays).1 (paced.single _ (running stays).2 _ runs script script')
  · exact fun first stays second stays' =>
      paced.single first (running stays).2 second (running stays').2
  · exact fun other placed => paced.logged other (placed.imp (fun stays => (running stays).2) id)

theorem Schedule.Paced.replace (paced : s.Paced) (free : s.starting = none) :
    s.replace.Paced := by
  have nobody : ∀ other, s.replace.starting ≠ some other := by
    intro other starts
    exact absurd (free.symm.trans starts) (by simp)
  refine { paced with
    known := ?_, sorted := .nil, runningNodup := .nil, apart := ?_, beginning := ?_
    sequential := ?_, single := ?_, overtaken := ?_, logged := ?_ }
  · rintro other (never | never | starts | logged)
    · cases never
    · cases never
    · exact absurd starts (nobody other)
    · exact paced.known other (Or.inr (Or.inr (Or.inr logged)))
  · exact fun other never => absurd never List.not_mem_nil
  · exact fun other starts => absurd starts (nobody other)
  · simp [Schedule.replace]
  · exact fun other never => absurd never List.not_mem_nil
  · exact fun start started other never => absurd never List.not_mem_nil
  · rintro other (never | starts)
    · cases never
    · exact absurd starts (nobody other)

theorem Schedule.Paced.step {s' : Schedule} {act : Act} (paced : s.Paced) (step : s.Step act s') :
    s'.Paced := by
  cases step with
  | submit script => exact paced.submit script
  | drop => exact paced.drop _
  | request | flush | setHandle => exact { paced with }
  | take fits => exact paced.take fits
  | place starts => exact paced.place starts
  | refuse => exact paced.refuse _
  | leave free runs => exact { paced.remove runs with }
  | replace free => exact paced.replace free

end

theorem Schedule.Reached.paced {fine : Schedule → Act → Prop} {s : Schedule}
    (reached : s.Reached fine) : s.Paced := by
  refine reached.invariant ?_ fun _ _ _ paced _ step => paced.step step
  constructor <;> simp

theorem admits_anyEvent : Admits AnyEvent fun _ _ => True where
  plain := fun _ _ _ => trivial
  request := fun _ _ => trivial
  unset := fun _ _ _ => trivial
  refused := fun _ _ _ _ _ => trivial
  replace := fun _ _ _ _ _ _ _ => trivial

/-- The flag tells whether a script runs, and there is at most one. Every job was started below the
limit, and with none beside it if the proxy was expected to challenge. What was overtaken are scripts
that another one held back. -/
theorem jobs_paced {platform : Platform} {m : ResourceHandleManager}
    (reachable : Reachable (dispatch platform) AnyEvent {} m) :
    (m.jsSequential = true ↔
      ∃ job ∈ m.runningJobList, (m.jobs job).d.isJSRequestatFirst = true) ∧
      m.runningJobList.Nodup ∧
      (∀ job ∈ m.runningJobList, ∀ other ∈ m.runningJobList,
        (m.jobs job).d.isJSRequestatFirst = true →
        (m.jobs other).d.isJSRequestatFirst = true → job = other) ∧
      (∀ job, job ∈ m.runningJobList ∨ m.starting = some job →
        ∃ start ∈ m.starts, start.job = job) ∧
      (∀ start ∈ m.starts, start.running.length < start.tcpConnections ∧
        (start.willChallengeProxyAuth = true → start.running = [])) ∧
      m.starts.Pairwise (fun first later => later.job < first.job →
        first.jsSequential = true ∧ later.isJSRequestatFirst = true) ∧
      (∀ start ∈ m.starts, ∀ job ∈ m.scheduledJobList, job < start.job →
        start.jsSequential = true ∧ (m.jobs job).d.isJSRequestatFirst = true) := by
  have paced : m.schedule.Paced :=
    Schedule.Reached.paced (onSchedule_of_reachable admits_anyEvent reachable)
  exact ⟨paced.sequential, paced.runningNodup, paced.single, paced.logged, paced.allowed,
    paced.ordered, paced.overtaken⟩

/-- A page with two scripts. -/
def addedScripts : ResourceHandleManager :=
  ([text "http://a/1.js", text "http://a/2.js", text "http://a/b"].map
    fun url => ({ url } : ResourceRequest)).foldl
    (fun m request => (dispatch examplePlatform (.add request) m []).state) {}

/-- The page overtakes the second script. -/
def startedScripts : ResourceHandleManager :=
  (dispatch examplePlatform .timer addedScripts
    [.easyInit true, .multiAdd .ok, .easyInit true, .multiAdd .ok]).state

theorem jobs_paced_startedScripts : startedScripts.runningJobList = [0, 2] ∧
    startedScripts.scheduledJobList = [1] ∧ startedScripts.jsSequential = true ∧
    ∀ start ∈ startedScripts.starts, ∀ job ∈ startedScripts.scheduledJobList, job < start.job →
      start.jsSequential = true ∧ (startedScripts.jobs job).d.isJSRequestatFirst = true := by
  have added : Idle (dispatch examplePlatform) AnyEvent {} addedScripts :=
    .call (.call (.call .init (Event.add { url := text "http://a/1.js" }) trivial []
      (fun _ _ => trivial) rfl) (Event.add { url := text "http://a/2.js" }) trivial []
      (fun _ _ => trivial) rfl) (Event.add { url := text "http://a/b" }) trivial []
      (fun _ _ => trivial) rfl
  have started : Reachable (dispatch examplePlatform) AnyEvent {} startedScripts :=
    .waiting added Event.timer trivial
      [.easyInit true, .multiAdd .ok, .easyInit true, .multiAdd .ok] (fun _ _ => trivial)
      (by decide)
  obtain ⟨-, -, -, -, -, -, overtaken⟩ := jobs_paced started
  exact ⟨by decide, by decide, by decide, overtaken⟩

end WkcBrowser.Network
