import MiqroForge.Library.Json
import MiqroForge.Library.TextFiles
import MiqroForge.Library.Steps
import Mathlib.Data.List.Range

/-!
The file of `CronService`: loaded once, whole or not at all, and written back whole by every
change. A file that cannot be read gives an empty store, and the next write puts it in the place of
the file.
-/

namespace MiqroForge.Cron.JobStore

open PyText Json TextFiles

/-! ## Records -/

/-- `d[k]`, nothing where it raises. -/
def field? (d : List (Text × Value)) (k : String) : Option Value :=
  (d.find? fun e => e.1 == k.toList).map Prod.snd

/-- `d.get(k, default)` -/
def field (d : List (Text × Value)) (k : String) (default : Value) : Value :=
  (field? d k).getD default

structure CronSchedule where
  kind : Value
  atMs : Value
  everyMs : Value
  expr : Value
  tz : Value

structure CronPayload where
  kind : Value
  message : Value
  deliver : Value
  channel : Value
  recipient : Value

structure CronJobState where
  nextRunAtMs : Value
  lastRunAtMs : Value
  lastStatus : Value
  lastError : Value

/-- A job as the file has it: the types of its fields are not checked. -/
structure CronJob where
  id : Value
  name : Value
  enabled : Value
  schedule : CronSchedule
  payload : CronPayload
  state : CronJobState
  createdAtMs : Value
  updatedAtMs : Value
  deleteAfterRun : Value

def readSchedule : Value → Option CronSchedule
  | .obj d => (field? d "kind").map fun kind =>
    { kind := kind, atMs := field d "atMs" .null, everyMs := field d "everyMs" .null
      expr := field d "expr" .null, tz := field d "tz" .null }
  | _ => none

def readPayload : Value → Option CronPayload
  | .obj d => some
    { kind := field d "kind" (.str "agent_turn".toList), message := field d "message" (.str [])
      deliver := field d "deliver" (.bool false), channel := field d "channel" .null
      recipient := field d "to" .null }
  | _ => none

def readState : Value → Option CronJobState
  | .obj d => some
    { nextRunAtMs := field d "nextRunAtMs" .null, lastRunAtMs := field d "lastRunAtMs" .null
      lastStatus := field d "lastStatus" .null, lastError := field d "lastError" .null }
  | _ => none

/-- One turn of the loop of `_load_store`, nothing where it raises. -/
def readJob : Value → Option CronJob
  | .obj j => do
    let id ← field? j "id"
    let name ← field? j "name"
    let schedule ← (field? j "schedule").bind readSchedule
    let payload ← (field? j "payload").bind readPayload
    let state ← readState (field j "state" (.obj []))
    some
      { id := id, name := name, enabled := field j "enabled" (.bool true), schedule := schedule
        payload := payload, state := state
        createdAtMs := field j "createdAtMs" (.num (Number.ofNat 0))
        updatedAtMs := field j "updatedAtMs" (.num (Number.ofNat 0))
        deleteAfterRun := field j "deleteAfterRun" (.bool false) }
  | _ => none

/-- What the loop of `_load_store` goes over. -/
def entries : Value → Option (List Value)
  | .obj data =>
    match field data "jobs" (.arr []) with
    | .arr xs => some xs
    | .obj [] => some []
    | .str [] => some []
    | _ => none
  | _ => none

def readStore (data : Value) : Option (List CronJob) := (entries data).bind fun xs => xs.mapM readJob

/-- A job as `_save_store` writes it. -/
def writeJob (j : CronJob) : Value :=
  .obj [("id".toList, j.id), ("name".toList, j.name), ("enabled".toList, j.enabled),
    ("schedule".toList, .obj [("kind".toList, j.schedule.kind), ("atMs".toList, j.schedule.atMs),
      ("everyMs".toList, j.schedule.everyMs), ("expr".toList, j.schedule.expr),
      ("tz".toList, j.schedule.tz)]),
    ("payload".toList, .obj [("kind".toList, j.payload.kind),
      ("message".toList, j.payload.message), ("deliver".toList, j.payload.deliver),
      ("channel".toList, j.payload.channel), ("to".toList, j.payload.recipient)]),
    ("state".toList, .obj [("nextRunAtMs".toList, j.state.nextRunAtMs),
      ("lastRunAtMs".toList, j.state.lastRunAtMs), ("lastStatus".toList, j.state.lastStatus),
      ("lastError".toList, j.state.lastError)]),
    ("createdAtMs".toList, j.createdAtMs), ("updatedAtMs".toList, j.updatedAtMs),
    ("deleteAfterRun".toList, j.deleteAfterRun)]

def storeData (jobs : List CronJob) : Value :=
  .obj [("version".toList, .num (Number.ofNat 1)), ("jobs".toList, .arr (jobs.map writeJob))]

theorem readJob_writeJob (j : CronJob) : readJob (writeJob j) = some j := rfl

theorem entries_storeData (jobs : List CronJob) :
    entries (storeData jobs) = some (jobs.map writeJob) := rfl

/-! ## The file -/

/-- The file by what `json.loads(read_text())` makes of it; nothing is known of one it raises on. -/
inductive Content where
  | absent
  | unreadable (data : Bytes)
  | json (data : Value)

/-- A record that is well formed stands at a place of the file. In a file that is no JSON, a part
of it reads as the record. -/
def Content.Holds (file : Content) (place : Nat) (job : CronJob) : Prop :=
  match file with
  | .absent => False
  | .unreadable data => ∃ part after, data.drop place = part ++ after ∧
      ((readText part).bind parse).bind readJob = some job
  | .json data => ∃ xs, entries data = some xs ∧ (xs[place]?).bind readJob = some job

/-- What `_load_store` reads, nothing where it warns. -/
def Content.read : Content → Option (List CronJob)
  | .absent => some []
  | .unreadable _ => none
  | .json data => readStore data

/-! ## The service -/

/-- What is not of the store: `_compute_next_run` on fields of any type, nothing where it raises;
`_validate_schedule_for_add`; the truth and the equality of values; `_now_ms()` as a value. -/
structure Host where
  nextRun : CronSchedule → Nat → Value → Option Value
  valid : CronSchedule → Bool
  truthy : Value → Bool
  same : Value → Value → Bool
  isAt : Value → Bool

/-- The service. A job is an object that the store refers to. `failed` says that loading warned,
`gone` are the jobs that `remove_job` or their own one-shot run took out. -/
structure Service where
  file : Content
  store : Option (List Nat) := none
  job : Nat → CronJob
  created : Nat := 0
  armed : Bool := false
  failed : Bool := false
  gone : List Nat := []

inductive Event where
  | start (now : Nat) (written : Bool)
  | listJobs
  | addJob (job : CronJob) (now : Nat) (written : Bool)
  | removeJob (id : Value) (written : Bool)
  | enableJob (id : Value) (enabled : Bool) (now : Nat) (written : Bool)
  /-- A job body ends. -/
  | finish (r : Nat) (status error : Value) (startMs now : Nat)
  /-- `_on_timer` saves the store behind the jobs. -/
  | saveTimer (written : Bool)

section Operations
variable (host : Host)

def Service.setJob (s : Service) (r : Nat) (job : CronJob) : Service :=
  { s with job := Function.update s.job r job }

/-- `_load_store` -/
def load (s : Service) : Service :=
  match s.store with
  | some _ => s
  | none =>
    match s.file.read with
    | some jobs =>
      { s with
        store := some (List.range jobs.length)
        job := fun r => (jobs[r]?).getD (s.job r)
        created := jobs.length }
    | none => { s with store := some [], failed := true }

/-- `_save_store`. Where the text cannot be written, the file has been emptied before. -/
def save (s : Service) (written : Bool) : Service :=
  match s.store with
  | some refs =>
    { s with file := if written then .json (storeData (refs.map s.job)) else .unreadable [] }
  | none => s

def arm (s : Service) : Service := { s with armed := true }

/-- `_recompute_next_runs`, and whether it got to its end. -/
def recompute (now : Nat) (s : Service) : List Nat → Service × Bool
  | [] => (s, true)
  | r :: refs =>
    let job := s.job r
    if host.truthy job.enabled then
      match host.nextRun job.schedule now job.state.lastRunAtMs with
      | some next =>
        recompute now (s.setJob r { job with state := { job.state with nextRunAtMs := next } }) refs
      | none => (s, false)
    else recompute now s refs

/-- The store without the jobs that a test takes out. -/
def dropJobs (s : Service) (refs : List Nat) (out : Nat → Bool) : Service :=
  { s with store := some (refs.filter fun r => !out r) }

def start (s : Service) (now : Nat) (written : Bool) : Service :=
  let s := load s
  match recompute host now s (s.store.getD []) with
  | (s, true) => arm (save s written)
  | (s, false) => s

/-- `add_job`; the job has its id, name, schedule, payload and times. -/
def addJob (s : Service) (job : CronJob) (now : Nat) (written : Bool) : Service :=
  let s := load s
  if host.valid job.schedule then
    match host.nextRun job.schedule now .null with
    | some next =>
      let s := { s.setJob s.created { job with state := { job.state with nextRunAtMs := next } } with
        store := s.store.map (· ++ [s.created])
        created := s.created + 1 }
      arm (save s written)
    | none => s
  else s

def removeJob (s : Service) (id : Value) (written : Bool) : Service :=
  let s := load s
  let refs := s.store.getD []
  let out := fun r => host.same (s.job r).id id
  if refs.any out then
    arm (save { dropJobs s refs out with gone := s.gone ++ refs.filter out } written)
  else s

def enableJob (s : Service) (id : Value) (enabled : Bool) (now : Nat) (written : Bool) : Service :=
  let s := load s
  match (s.store.getD []).find? fun r => host.same (s.job r).id id with
  | some r =>
    let job := { s.job r with
      enabled := .bool enabled
      updatedAtMs := .num (Number.ofNat now) }
    if enabled then
      match host.nextRun job.schedule now .null with
      | some next =>
        arm (save (s.setJob r { job with state := { job.state with nextRunAtMs := next } }) written)
      | none => s.setJob r job
    else arm (save (s.setJob r { job with state := { job.state with nextRunAtMs := .null } }) written)
  | none => s

/-- `_execute_job` behind the body. -/
def finish (s : Service) (r : Nat) (status error : Value) (startMs now : Nat) : Service :=
  let job := s.job r
  let job := { job with
    state := { job.state with
      lastStatus := status, lastError := error, lastRunAtMs := .num (Number.ofNat startMs) }
    updatedAtMs := .num (Number.ofNat now) }
  if host.isAt job.schedule.kind then
    if host.truthy job.deleteAfterRun then
      let s := s.setJob r job
      { dropJobs s (s.store.getD []) (fun r' => host.same (s.job r').id job.id) with
        gone := s.gone ++ [r] }
    else
      s.setJob r { job with
        enabled := .bool false, state := { job.state with nextRunAtMs := .null } }
  else
    match host.nextRun job.schedule now .null with
    | some next => s.setJob r { job with state := { job.state with nextRunAtMs := next } }
    | none => s.setJob r job

def step (s : Service) : Event → Option Service
  | .start now written => some (start host s now written)
  | .listJobs => some (load s)
  | .addJob job now written => some (addJob host s job now written)
  | .removeJob id written => some (removeJob host s id written)
  | .enableJob id enabled now written => some (enableJob host s id enabled now written)
  | .finish r status error startMs now =>
    if r < s.created then some (finish host s r status error startMs now) else none
  | .saveTimer written => if s.armed then some (save s written) else none

end Operations

def init (file : Content) (job : Nat → CronJob) : Service := { file := file, job := job }

/-! ## The promise -/

/-- What no operation on the store changes in a job. -/
def CronJob.core (j : CronJob) : Value × Value × CronSchedule × CronPayload × Value × Value :=
  (j.id, j.name, j.schedule, j.payload, j.createdAtMs, j.deleteAfterRun)

/-- Every record of the first file that was not removed is still in the file. -/
def Preserved (file : Content) (s : Service) : Prop :=
  ∀ place job, file.Holds place job → ¬ (s.failed = false ∧ place ∈ s.gone) →
    ∃ place' job', s.file.Holds place' job' ∧ job'.core = job.core

/-- The file was read, or there is no record in it. -/
def MayWrite (s : Service) : Prop :=
  (load s).failed = true → ∀ place job, ¬ s.file.Holds place job

/-- Nothing is written behind a failed load, writes go through, and a one-shot job that is deleted
behind its run shares its id with no other job. -/
def Careful (host : Host) (s : Service) : Event → Prop
  | .start _ written => written = true ∧ MayWrite s
  | .listJobs => True
  | .addJob job now written => host.valid job.schedule = true →
      (host.nextRun job.schedule now .null).isSome → written = true ∧ MayWrite s
  | .removeJob _ written => written = true
  | .enableJob _ _ _ written => written = true
  | .finish r _ _ _ _ => host.isAt (s.job r).schedule.kind = true →
      host.truthy (s.job r).deleteAfterRun = true →
      ∀ r' ∈ s.store.getD [], r' ≠ r → host.same (s.job r').id (s.job r).id = false
  | .saveTimer written => written = true

/-! ## Reading the file -/

theorem getElem?_mapM {α β : Type} {f : α → Option β} {xs : List α} {ys : List β}
    (h : xs.mapM f = some ys) (i : Nat) : ys[i]? = (xs[i]?).bind f := by
  induction xs generalizing ys i with
  | nil =>
    obtain rfl : [] = ys := by simpa using h
    rfl
  | cons x xs ih =>
    obtain ⟨y, hy, zs, hzs, rfl⟩ : ∃ y, f x = some y ∧ ∃ zs, xs.mapM f = some zs ∧ y :: zs = ys := by
      simpa [List.mapM_cons, Option.bind_eq_some_iff] using h
    cases i with
    | zero => simp [hy]
    | succ i => simpa using ih hzs i

theorem holds_storeData (jobs : List CronJob) (place : Nat) (job : CronJob) :
    (Content.json (storeData jobs)).Holds place job ↔ jobs[place]? = some job := by
  simp [Content.Holds, entries_storeData, List.getElem?_map, Option.bind_map, Function.comp_def,
    readJob_writeJob]

theorem holds_iff_of_read {file : Content} {recs : List CronJob} (h : file.read = some recs)
    (place : Nat) (job : CronJob) : file.Holds place job ↔ recs[place]? = some job := by
  cases file with
  | absent =>
    obtain rfl : [] = recs := by simpa [Content.read] using h
    simp [Content.Holds]
  | unreadable data => simp [Content.read] at h
  | json data =>
    obtain ⟨xs, hxs, hrecs⟩ := Option.bind_eq_some_iff.mp h
    simp [Content.Holds, hxs, getElem?_mapM hrecs]

/-! ## A store that was loaded -/

/-- The store has every record that was not taken out, and so does the file. -/
structure Loaded (recs : List CronJob) (s : Service) : Prop where
  failed : s.failed = false
  created : recs.length ≤ s.created
  store : ∃ refs, s.store = some refs ∧ ∀ i < recs.length, i ∉ s.gone → i ∈ refs
  core : ∀ i rec, recs[i]? = some rec → (s.job i).core = rec.core
  file : ∀ i rec, recs[i]? = some rec → i ∉ s.gone →
    ∃ place job, s.file.Holds place job ∧ job.core = rec.core

section Loaded
variable {recs : List CronJob} {s : Service}

theorem Loaded.load_eq (h : Loaded recs s) : load s = s := by
  obtain ⟨refs, hrefs, -⟩ := h.store
  simp [load, hrefs]

theorem Loaded.setJob (h : Loaded recs s) (r : Nat) (job : CronJob)
    (hjob : r < recs.length → job.core = (s.job r).core) : Loaded recs (s.setJob r job) where
  failed := h.failed
  created := h.created
  store := h.store
  core i rec hi := by
    by_cases hr : i = r
    · subst hr
      have hlt : i < recs.length := (List.getElem?_eq_some_iff.mp hi).1
      simpa [Service.setJob] using (hjob hlt).trans (h.core i rec hi)
    · simpa [Service.setJob, hr] using h.core i rec hi
  file := h.file

theorem Loaded.arm (h : Loaded recs s) : Loaded recs (arm s) :=
  ⟨h.failed, h.created, h.store, h.core, h.file⟩

theorem Loaded.save (h : Loaded recs s) : Loaded recs (save s true) := by
  obtain ⟨refs, hrefs, hmem⟩ := h.store
  have hsave : JobStore.save s true = { s with file := .json (storeData (refs.map s.job)) } := by
    simp [JobStore.save, hrefs]
  rw [hsave]
  refine ⟨h.failed, h.created, h.store, h.core, fun i rec hi hgone => ?_⟩
  have hlt : i < recs.length := (List.getElem?_eq_some_iff.mp hi).1
  obtain ⟨place, hplace⟩ := List.mem_iff_getElem?.mp (hmem i hlt hgone)
  exact ⟨place, s.job i, (holds_storeData _ _ _).mpr (by simp [hplace]), h.core i rec hi⟩

theorem Loaded.drop (h : Loaded recs s) (out : Nat → Bool) (gone : List Nat)
    (hgone : ∀ i, i ∈ s.gone → i ∈ gone)
    (hout : ∀ i ∈ s.store.getD [], out i = true → i ∈ gone) :
    Loaded recs { dropJobs s (s.store.getD []) out with gone := gone } := by
  obtain ⟨refs, hrefs, hmem⟩ := h.store
  refine ⟨h.failed, h.created, ⟨_, rfl, fun i hi hi' => ?_⟩, h.core,
    fun i rec hi hi' => h.file i rec hi fun hg => hi' (hgone i hg)⟩
  have hin : i ∈ refs := hmem i hi fun hg => hi' (hgone i hg)
  rw [hrefs] at hout ⊢
  refine List.mem_filter.mpr ⟨hin, ?_⟩
  have hnot : out i ≠ true := fun ho => hi' (hout i hin ho)
  simpa using hnot

theorem Loaded.append (h : Loaded recs s) (job : CronJob) :
    Loaded recs { s.setJob s.created job with
      store := s.store.map (· ++ [s.created])
      created := s.created + 1 } := by
  have hset := h.setJob s.created job fun hlt => absurd hlt (by simpa using h.created)
  obtain ⟨refs, hrefs, hmem⟩ := h.store
  refine ⟨h.failed, h.created.trans (Nat.le_succ _), ⟨refs ++ [s.created], by simp [hrefs], ?_⟩,
    hset.core, h.file⟩
  intro i hi hgone
  exact List.mem_append_left _ (hmem i hi hgone)

theorem Loaded.recompute (host : Host) (now : Nat) (refs : List Nat) (h : Loaded recs s) :
    Loaded recs (recompute host now s refs).1 := by
  induction refs generalizing s with
  | nil => exact h
  | cons r refs ih =>
    simp only [JobStore.recompute]
    split
    · split
      · exact ih (h.setJob r _ fun _ => rfl)
      · exact h
    · exact ih h

end Loaded

/-! ## What one operation keeps -/

/-- Nothing is loaded yet, or loading failed and nothing was written since. -/
structure Untouched (file : Content) (s : Service) : Prop where
  file : s.file = file
  store : s.store = none ∧ s.failed = false ∨ s.store = some [] ∧ s.failed = true
  created : s.created = 0
  armed : s.armed = false
  gone : s.gone = []

def Inv (file : Content) (s : Service) : Prop :=
  Untouched file s ∨ ∃ recs, file.read = some recs ∧ Loaded recs s

section Step
variable {host : Host} {file : Content} {s : Service}

theorem Untouched.load (h : Untouched file s) :
    (Untouched file (load s) ∧ (load s).store = some [] ∧ (load s).failed = true) ∨
      ∃ recs, file.read = some recs ∧ Loaded recs (load s) := by
  obtain ⟨rfl, hstore, hcreated, harmed, hgone⟩ := h
  rcases hstore with ⟨hnone, hfailed⟩ | ⟨hsome, hfailed⟩
  · cases hread : s.file.read with
    | none =>
      have hload : JobStore.load s = { s with store := some [], failed := true } := by
        simp [JobStore.load, hnone, hread]
      rw [hload]
      exact .inl ⟨⟨rfl, .inr ⟨rfl, rfl⟩, hcreated, harmed, hgone⟩, rfl, rfl⟩
    | some recs =>
      have hload : JobStore.load s = { s with
          store := some (List.range recs.length)
          job := fun r => (recs[r]?).getD (s.job r)
          created := recs.length } := by simp [JobStore.load, hnone, hread]
      rw [hload]
      refine .inr ⟨recs, rfl, hfailed, le_rfl, ⟨_, rfl, fun i hi _ => List.mem_range.mpr hi⟩,
        fun i rec hi => by simp [hi], fun i rec hi _ => ?_⟩
      exact ⟨i, rec, (holds_iff_of_read hread i rec).mpr hi, rfl⟩
  · have hload : JobStore.load s = s := by simp [JobStore.load, hsome]
    rw [hload]
    exact .inl ⟨⟨rfl, .inr ⟨hsome, hfailed⟩, hcreated, harmed, hgone⟩, hsome, hfailed⟩

theorem Inv.load (h : Inv file s) :
    (Untouched file (load s) ∧ (load s).store = some [] ∧ (load s).failed = true) ∨
      ∃ recs, file.read = some recs ∧ Loaded recs (load s) := by
  rcases h with h | ⟨recs, hread, h⟩
  · exact h.load
  · exact .inr ⟨recs, hread, by rwa [h.load_eq]⟩

theorem Inv.loaded (h : Inv file s) (held : ∃ place job, file.Holds place job)
    (hmay : MayWrite s) : ∃ recs, file.read = some recs ∧ Loaded recs (JobStore.load s) := by
  rcases h.load with ⟨h', -, hfailed⟩ | hloaded
  · obtain ⟨place, job, hjob⟩ := held
    have hfile : s.file = file := by
      rcases h with h | ⟨recs, -, h⟩
      · exact h.file
      · rw [h.load_eq, h.failed] at hfailed
        cases hfailed
    exact absurd (hfile ▸ hjob) (hmay hfailed place job)
  · exact hloaded

theorem Inv.start (h : Inv file s) (held : ∃ place job, file.Holds place job) (now : Nat)
    (hmay : MayWrite s) : Inv file (start host s now true) := by
  obtain ⟨recs, hread, hl⟩ := h.loaded held hmay
  have hr := hl.recompute host now ((JobStore.load s).store.getD [])
  refine .inr ⟨recs, hread, ?_⟩
  simp only [JobStore.start]
  split
  next t heq =>
    rw [heq] at hr
    exact hr.save.arm
  next t heq =>
    rw [heq] at hr
    exact hr

theorem Inv.addJob (h : Inv file s) (held : ∃ place job, file.Holds place job) (job : CronJob)
    (now : Nat) {written : Bool} (hc : Careful host s (.addJob job now written)) :
    Inv file (addJob host s job now written) := by
  have hload : Inv file (JobStore.load s) := h.load.imp And.left id
  simp only [JobStore.addJob]
  split
  case isFalse => exact hload
  case isTrue hvalid =>
    split
    next next hnext =>
      obtain ⟨rfl, hmay⟩ := hc hvalid (by simp [hnext])
      obtain ⟨recs, hread, hl⟩ := h.loaded held hmay
      exact .inr ⟨recs, hread, (hl.append _).save.arm⟩
    next => exact hload

theorem Inv.removeJob (h : Inv file s) (id : Value) : Inv file (removeJob host s id true) := by
  simp only [JobStore.removeJob]
  rcases h.load with ⟨h', hstore, -⟩ | ⟨recs, hread, hl⟩
  · rw [hstore]
    exact .inl h'
  · refine .inr ⟨recs, hread, ?_⟩
    split
    · refine (hl.drop _ _ (fun i hi => List.mem_append_left _ hi) fun i hi ho => ?_).save.arm
      exact List.mem_append_right _ (List.mem_filter.mpr ⟨hi, ho⟩)
    · exact hl

theorem Inv.enableJob (h : Inv file s) (id : Value) (enabled : Bool) (now : Nat) :
    Inv file (enableJob host s id enabled now true) := by
  simp only [JobStore.enableJob]
  rcases h.load with ⟨h', hstore, -⟩ | ⟨recs, hread, hl⟩
  · rw [hstore]
    exact .inl h'
  · refine .inr ⟨recs, hread, ?_⟩
    split
    · split
      · split
        · refine Loaded.arm (Loaded.save (hl.setJob _ _ ?_))
          exact fun _ => rfl
        · exact hl.setJob _ _ fun _ => rfl
      · refine Loaded.arm (Loaded.save (hl.setJob _ _ ?_))
        exact fun _ => rfl
    · exact hl

theorem Loaded.finish {recs : List CronJob} (h : Loaded recs s) (r : Nat) (status error : Value)
    (startMs now : Nat) (hc : Careful host s (.finish r status error startMs now)) :
    Loaded recs (finish host s r status error startMs now) := by
  have hset : ∀ job, job.core = (s.job r).core → Loaded recs (s.setJob r job) :=
    fun job hjob => h.setJob r job fun _ => hjob
  simp only [JobStore.finish]
  split
  case isTrue hat =>
    split
    case isTrue hdel =>
      refine Loaded.drop (hset _ ?_) _ _ (fun i hi => List.mem_append_left _ hi) ?_
      · rfl
      · intro i hi ho
        by_cases hr : i = r
        · exact List.mem_append_right _ (by simp [hr])
        · have hsame := hc hat hdel i hi hr
          simp [Service.setJob, hr, hsame] at ho
    case isFalse => exact hset _ rfl
  case isFalse =>
    split
    · exact hset _ rfl
    · exact hset _ rfl

/-- **One step.** -/
theorem Inv.step (held : ∃ place job, file.Holds place job) (s : Service) (e : Event)
    (s' : Service) (h : Inv file s) (hc : Careful host s e)
    (hs : JobStore.step host s e = some s') : Inv file s' := by
  cases e with
  | start now written =>
    cases hs
    obtain ⟨rfl, hmay⟩ := hc
    exact h.start held now hmay
  | listJobs =>
    cases hs
    exact h.load.imp And.left id
  | addJob job now written =>
    cases hs
    exact h.addJob held job now hc
  | removeJob id written =>
    cases hs
    obtain rfl : written = true := hc
    exact h.removeJob id
  | enableJob id enabled now written =>
    cases hs
    obtain rfl : written = true := hc
    exact h.enableJob id enabled now
  | finish r status error startMs now =>
    obtain ⟨hlt, rfl⟩ : r < s.created ∧ finish host s r status error startMs now = s' := by
      simpa [JobStore.step] using hs
    rcases h with h | ⟨recs, hread, h⟩
    · exact absurd hlt (by simp [h.created])
    · exact .inr ⟨recs, hread, h.finish r status error startMs now hc⟩
  | saveTimer written =>
    obtain ⟨harmed, rfl⟩ : s.armed = true ∧ save s written = s' := by
      simpa [JobStore.step] using hs
    obtain rfl : written = true := hc
    rcases h with h | ⟨recs, hread, h⟩
    · rw [h.armed] at harmed
      cases harmed
    · exact .inr ⟨recs, hread, h.save⟩

theorem Inv.preserved (h : Inv file s) : Preserved file s := by
  intro place job hjob hgone
  rcases h with h | ⟨recs, hread, h⟩
  · exact ⟨place, job, h.file ▸ hjob, rfl⟩
  · exact h.file place job ((holds_iff_of_read hread place job).mp hjob)
      fun hmem => hgone ⟨h.failed, hmem⟩

end Step

/-- **An unreadable store.** A record of the file stays in it over every run that saves nothing
behind a failed load. -/
theorem preserved_of_careful (host : Host) (file : Content) (job : Nat → CronJob)
    (es : List Event) (s : Service) (hrun : Steps.run (step host) (init file job) es = some s)
    (hgood : Steps.GoodRun (step host) (Careful host) (init file job) es) :
    Preserved file s := by
  by_cases held : ∃ place job, file.Holds place job
  · have hinit : Inv file (init file job) := .inl ⟨rfl, .inl ⟨rfl, rfl⟩, rfl, rfl, rfl⟩
    have hinv : Inv file s := Steps.goodRun_invariant (step host) (Careful host) (Inv file)
      (Inv.step held) _ s es hinit hrun hgood
    exact hinv.preserved
  · exact fun place job hjob => absurd ⟨place, job, hjob⟩ held

/-! ## Runs -/

/-- The service where every value counts as itself and no job has a next run. -/
def plainHost : Host where
  nextRun _ _ _ := some .null
  valid schedule := match schedule.tz with
    | .null => true
    | _ => false
  truthy
    | .bool b => b
    | .str s => !s.isEmpty
    | _ => false
  same
    | .str s, .str s' => s == s'
    | _, _ => false
  isAt
    | .str s => s == "at".toList
    | _ => false

/-- A job without a time to run at. -/
def report : CronJob where
  id := .str "a1".toList
  name := .str "report".toList
  enabled := .bool true
  schedule :=
    { kind := .str "at".toList, atMs := .null, everyMs := .null, expr := .null, tz := .null }
  payload :=
    { kind := .str "agent_turn".toList, message := .str "report".toList, deliver := .bool false
      channel := .null, recipient := .null }
  state := { nextRunAtMs := .null, lastRunAtMs := .null, lastStatus := .null, lastError := .null }
  createdAtMs := .num (Number.ofNat 1)
  updatedAtMs := .num (Number.ofNat 1)
  deleteAfterRun := .bool false

/-- `report` next to a record without a name. -/
def brokenStore : Value :=
  .obj [("jobs".toList, .arr [writeJob report, .obj [("id".toList, .str "b2".toList)]])]

/-- Two changes behind a load that went well. -/
theorem preserved_enabled : Preserved (.json (storeData [report]))
    (enableJob plainHost (start plainHost (init (.json (storeData [report])) fun _ => report) 5 true)
      (.str "a1".toList) false 6 true) :=
  preserved_of_careful plainHost (.json (storeData [report])) (fun _ => report)
    [.start 5 true, .enableJob (.str "a1".toList) false 6 true] _ rfl
    ⟨⟨rfl, fun h => absurd h (by decide)⟩, fun _ _ => ⟨rfl, fun _ _ => trivial⟩⟩

theorem start_unread (host : Host) {file : Content} (h : file.read = none) (job : Nat → CronJob)
    (now : Nat) : (start host (init file job) now true).file = .json (storeData []) := by
  simp [start, load, init, h, recompute, save, arm]

theorem start_overwrites : ∃ s,
    Steps.run (step plainHost) (init (.json brokenStore) fun _ => report) [.start 5 true] = some s ∧
      ¬ Preserved (.json brokenStore) s := by
  refine ⟨_, rfl, fun h => ?_⟩
  obtain ⟨place, job, hjob, -⟩ := h 0 report ⟨_, rfl, rfl⟩ (by decide)
  have hread : (Content.json brokenStore).read = none := rfl
  have hfile := start_unread plainHost hread (fun _ => report) 5
  change (start plainHost (init (.json brokenStore) fun _ => report) 5 true).file.Holds place job
    at hjob
  rw [hfile, holds_storeData] at hjob
  simp at hjob

end MiqroForge.Cron.JobStore
