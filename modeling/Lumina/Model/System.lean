import Lumina.Model.Routes

/-!
# The two processes

The ingester and the API are separate processes that share one database.  The ingester runs one
cycle after the other, whatever became of the last one; the API answers requests.  What the
ingester sends out, webhook messages and live events, is kept beside the database.  The database
runs jobs of its own: the migrations give the tables of the snapshots a retention policy each.

## Main definitions

* `RetentionJob` : a run of the job of a retention policy.
* `Deployment` : what is fixed while both processes run.
* `System` : the state they share, and what was sent out.
* `System.step` : a cycle of the ingester, an answered request or a retention job.
-/

namespace Lumina

/-! ### Retention -/

/-- The tables with a retention policy. -/
inductive RetainedTable where
  | poolSnapshots
  | tokenSnapshots
  deriving DecidableEq

/-- The `drop_after` of both policies, 180 days. -/
def dropAfter : Time := 180 * 24 * hour

/-- A run of the job of a policy.  It drops the chunks of the table that end `dropAfter` before
`now` or earlier, as wholes; `lag` is how much earlier the last one of them ends. -/
structure RetentionJob where
  table : RetainedTable
  now : Time
  lag : ℕ

namespace RetentionJob

/-- The end of the last chunk that the job drops. -/
def limit (job : RetentionJob) : Time := job.now - dropAfter - job.lag

theorem limit_le (job : RetentionJob) : job.limit ≤ job.now - dropAfter :=
  sub_le_self _ (Int.natCast_nonneg _)

/-- The database after the job. -/
def drop (job : RetentionJob) (db : Db) : Db :=
  match job.table with
  | .poolSnapshots =>
    { db with poolSnapshots := db.poolSnapshots.filter fun r => job.limit ≤ r.time }
  | .tokenSnapshots =>
    { db with tokenSnapshots := db.tokenSnapshots.filter fun r => job.limit ≤ r.time }

/-- A job takes rows out of one table of snapshots. -/
theorem drop_cases (job : RetentionJob) (db : Db) :
    (∃ rows, rows.Sublist db.poolSnapshots ∧ job.drop db = { db with poolSnapshots := rows }) ∨
      ∃ rows, rows.Sublist db.tokenSnapshots ∧
        job.drop db = { db with tokenSnapshots := rows } := by
  unfold drop
  cases job.table with
  | poolSnapshots => exact .inl ⟨_, List.filter_sublist, rfl⟩
  | tokenSnapshots => exact .inr ⟨_, List.filter_sublist, rfl⟩

end RetentionJob

/-! ### The system -/

/-- What happens to the system. -/
inductive SystemEvent where
  /-- A cycle of the ingester, which may stop anywhere. -/
  | cycle (env : CycleEnv)
  | request (env : RequestEnv) (req : Request)
  | retention (job : RetentionJob)

/-- The settings of both processes, and the libraries they use. -/
structure Deployment where
  codec : Codec
  config : Config
  server : ApiServer
  extract : Extract

/-- A live event as it is published: its kind, severity, message and time. -/
abbrev Notification := String × String × Text × Time

/-- The database with what only the API keeps, and what the ingester has sent out. -/
structure System where
  store : Store
  posts : List Post
  notified : List Notification

namespace System

/-- A system without rows. -/
def empty : System := ⟨Store.empty, [], []⟩

/-- What the ingester sees of the system. -/
def world (s : System) : World := ⟨s.store.db, s.posts, s.notified⟩

/-- The system after the ingester has moved on to `w`. -/
def withWorld (s : System) (w : World) : System :=
  ⟨{ s.store with db := w.db }, w.posts, w.notified⟩

@[simp] theorem world_withWorld (s : System) (w : World) : (s.withWorld w).world = w := rfl

@[simp] theorem withWorld_world (s : System) : s.withWorld s.world = s := rfl

@[simp] theorem withWorld_withWorld (s : System) (w w' : World) :
    (s.withWorld w).withWorld w' = s.withWorld w' := rfl

/-- The ingester's cycle. -/
def cycle (P : Deployment) (env : CycleEnv) (s : System) : System :=
  s.withWorld (ingestCycle P.server.decimal P.codec P.config env s.world).2

/-- The API's answer to a request. -/
def request (P : Deployment) (env : RequestEnv) (req : Request) (s : System) : System :=
  { s with store := (serve P.server P.extract env req s.store).2 }

/-- The system after a retention job. -/
def retain (job : RetentionJob) (s : System) : System :=
  { s with store := { s.store with db := job.drop s.store.db } }

def step (P : Deployment) (s : System) : SystemEvent → System
  | .cycle env => s.cycle P env
  | .request env req => s.request P env req
  | .retention job => s.retain job

end System

end Lumina
