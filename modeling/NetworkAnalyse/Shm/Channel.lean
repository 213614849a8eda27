import NetworkAnalyse.Lib.DataSection
import NetworkAnalyse.Lib.Interleave

/-!
# The shared-memory channel

`tcp_connect_shm_read` and `tcp_connect_shm_write` of `shm.c`, over System V shared
memory and semaphores.  Any number of calls run at the same time, and their IPC calls
are interleaved in any way.  Neither function looks at the result of an IPC call.

`shmget` and `semget` look an object up by its key and make it if there is none; all
later calls use the id.  `IPC_RMID` takes the object out of the keys.  A semaphore is
gone then, and a segment as soon as nobody has it attached.  The system's limits are
not reached, and an id is not given out a second time.

`State.looking`, `State.writing`, `State.signalled` and `State.hist` record what the
calls have done; nothing reads them.
-/

namespace NetworkAnalyse.Shm

open Lib

def tcpConnectShmkey : String := "tcp_connect_shmkey"

def shmSize : Nat := 1024

/-- `SEMVMX`, the largest value of a semaphore. -/
def semvmx : Nat := 32767

/-- The string that `tcp_connect_shm_write` writes. -/
def message : List UInt8 := cstr "Hello from writer"

abbrev ShmId := Nat
abbrev SemId := Nat

inductive Fn
  | read
  | write
  deriving DecidableEq, Repr

/-- A call of one of the two functions. -/
structure Caller where
  fn : Fn
  no : Nat
  deriving DecidableEq, Repr

/-- What `ftok` makes of a path and a number. -/
structure Key where
  path : String
  projId : Nat
  deriving DecidableEq, Repr

/-- `str` is where a segment is attached, and `none` if `shmat` has failed. -/
inductive Op
  | ftok (path : String) (projId : Nat)
  | shmget (c : Caller) (key : Key) (size : Nat)
  | semget (key : Key)
  | setval (semid : SemId) (val : Nat)
  | semop (c : Caller) (semid : SemId) (semOp : Int)
  | shmat (c : Caller) (shmid : ShmId)
  /-- `strcpy(str, s)` -/
  | copyIn (c : Caller) (str : Option ShmId) (s : List UInt8)
  /-- `strcpy(ret, str)` -/
  | copyOut (c : Caller) (str : Option ShmId)
  | shmdt (c : Caller) (str : Option ShmId)
  | shmRmid (shmid : ShmId)
  | semRmid (semid : SemId)
  deriving DecidableEq, Repr

/-- A copy is answered by `false` or `none` if it faults. -/
@[reducible] def Op.Res : Op → Type
  | ftok _ _ => Key
  | shmget _ _ _ => ShmId
  | semget _ => SemId
  | setval _ _ => Int
  | semop _ _ _ => Int
  | shmat _ _ => Option ShmId
  | copyIn _ _ _ => Bool
  | copyOut _ _ => Option (List UInt8)
  | shmdt _ _ => Int
  | shmRmid _ => Int
  | semRmid _ => Int

/-- How a call ends. -/
inductive Outcome
  | read (ret : List UInt8)
  | wrote
  | segfault
  deriving DecidableEq, Repr

abbrev M (α : Type) := Prog Op Op.Res α

def call (op : Op) : M op.Res := .perform op

def tcpConnectShmRead (c : Caller) : M Outcome := do
  let key ← call (.ftok tcpConnectShmkey 65)
  let shmid ← call (.shmget c key 1024)
  let semid ← call (.semget key)
  let _ ← call (.semop c semid (-1))
  let str ← call (.shmat c shmid)
  let copy : Option (List UInt8) ← call (.copyOut c str)
  match copy with
  | none => return .segfault
  | some ret =>
    let _ ← call (.shmdt c str)
    let _ ← call (.shmRmid shmid)
    let _ ← call (.semRmid semid)
    return .read ret

def tcpConnectShmWrite (c : Caller) : M Outcome := do
  let key ← call (.ftok tcpConnectShmkey 65)
  let shmid ← call (.shmget c key shmSize)
  let semid ← call (.semget key)
  let _ ← call (.setval semid 0)
  let str ← call (.shmat c shmid)
  if !(← call (.copyIn c str message)) then
    return .segfault
  let _ ← call (.semop c semid 1)
  let _ ← call (.shmdt c str)
  return .wrote

/-! ### What the calls do -/

structure Segment where
  data : DataSection
  nattch : Nat := 0
  /-- `SHM_DEST`: `IPC_RMID` has been called -/
  dest : Bool := false
  deriving DecidableEq, Repr

def Segment.destroyed (g : Segment) : Bool := g.dest && g.nattch == 0

/-- A new segment is filled with zeros. -/
def Segment.new (size : Nat) : Segment := { data := ⟨List.replicate size 0⟩ }

structure Sem where
  value : Nat := 0
  removed : Bool := false
  /-- the segment that was found under the key when the semaphore was made -/
  segment : Option ShmId := none
  deriving DecidableEq, Repr

inductive Event
  | copiedIn (c : Caller) (str : Option ShmId)
  | copiedOut (c : Caller) (str : Option ShmId) (ret : List UInt8)
  /-- a reader's `semop` has returned -/
  | passed (c : Caller)
  /-- `tcp_connect_shm_write` has returned -/
  | completed (c : Caller)
  deriving DecidableEq, Repr

structure State where
  shm : Key → Option ShmId
  sem : Key → Option SemId
  segs : ShmId → Segment
  sems : SemId → Sem
  nextShm : ShmId
  nextSem : SemId
  /-- the calls that have looked up a segment and not yet called `shmat` -/
  looking : List (Caller × ShmId)
  /-- the writers that have attached a segment and not yet signalled -/
  writing : List (Caller × ShmId)
  /-- the writers that have signalled and not yet returned -/
  signalled : List (Caller × SemId)
  hist : List Event

/-- No object at all. -/
def State.boot : State where
  shm _ := none
  sem _ := none
  segs _ := .new 0
  sems _ := {}
  nextShm := 0
  nextSem := 0
  looking := []
  writing := []
  signalled := []
  hist := []

namespace State

variable (st : State)

def setSeg (s : ShmId) (g : Segment) : State := { st with segs := Function.update st.segs s g }

def setSem (m : SemId) (e : Sem) : State := { st with sems := Function.update st.sems m e }

def note (e : Event) : State := { st with hist := st.hist ++ [e] }

def shmget (c : Caller) (key : Key) (size : Nat) : ShmId × State :=
  match st.shm key with
  | some s => (s, { st with looking := (c, s) :: st.looking })
  | none =>
    (st.nextShm, { st with
      shm := Function.update st.shm key (some st.nextShm)
      segs := Function.update st.segs st.nextShm (.new size)
      nextShm := st.nextShm + 1
      looking := (c, st.nextShm) :: st.looking })

/-- A new semaphore is 0. -/
def semget (key : Key) : SemId × State :=
  match st.sem key with
  | some m => (m, st)
  | none =>
    (st.nextSem, { st with
      sem := Function.update st.sem key (some st.nextSem)
      sems := Function.update st.sems st.nextSem { segment := st.shm key }
      nextSem := st.nextSem + 1 })

/-- What is recorded when a `semop` returns: a wait is a reader's, a signal a writer's. -/
def pass (c : Caller) (m : SemId) (semOp : Int) : State :=
  if semOp < 0 then st.note (.passed c)
  else { st with
    writing := st.writing.filter (·.1 ≠ c)
    signalled := (c, m) :: st.signalled }

/-- `none`: the call blocks. -/
def semop (c : Caller) (m : SemId) (semOp : Int) : Option (Int × State) :=
  let e := st.sems m
  if e.removed then some (-1, st.pass c m semOp)
  else if e.value + semOp < 0 then none
  else if semvmx < e.value + semOp then some (-1, st.pass c m semOp)
  else some (0, (st.pass c m semOp).setSem m { e with value := (e.value + semOp).toNat })

section Semop

variable {st : State} {c : Caller} {m : SemId} {semOp : Int}

theorem sems_pass : (st.pass c m semOp).sems = st.sems := by
  rw [pass]
  split <;> rfl

theorem segs_pass : (st.pass c m semOp).segs = st.segs := by
  rw [pass]
  split <;> rfl

theorem nextSem_pass : (st.pass c m semOp).nextSem = st.nextSem := by
  rw [pass]
  split <;> rfl

/-- A `semop` that returns is recorded, and may have changed the value. -/
theorem semop_cases {st' : State} {n : Int} (h : st.semop c m semOp = some (n, st')) :
    st' = st.pass c m semOp ∨ st' = (st.pass c m semOp).setSem m
      { st.sems m with value := ((st.sems m).value + semOp).toNat } := by
  simp only [semop] at h
  split at h
  · exact .inl (congrArg Prod.snd (Option.some.inj h)).symm
  split at h
  · cases h
  split at h
  · exact .inl (congrArg Prod.snd (Option.some.inj h)).symm
  · exact .inr (congrArg Prod.snd (Option.some.inj h)).symm

end Semop

def shmat (c : Caller) (s : ShmId) : Option ShmId × State :=
  let st' := { st with looking := st.looking.filter (·.1 ≠ c) }
  if (st.segs s).destroyed then (none, st')
  else
    (some s, { st'.setSeg s { st.segs s with nattch := (st.segs s).nattch + 1 } with
      writing := if c.fn = .write then (c, s) :: st.writing else st.writing })

/-- The end of a writer's call is recorded as well; it is the last thing it does. -/
def shmdt (c : Caller) (s : ShmId) : State :=
  let st' := st.setSeg s { st.segs s with nattch := (st.segs s).nattch - 1 }
  match c.fn with
  | .read => st'
  | .write => { st' with signalled := st.signalled.filter (·.1 ≠ c) }.note (.completed c)

def shmRmid (s : ShmId) : State :=
  { st.setSeg s { st.segs s with dest := true } with
    shm := fun key => if st.shm key = some s then none else st.shm key }

def semRmid (m : SemId) : State :=
  { st.setSem m { st.sems m with removed := true } with
    sem := fun key => if st.sem key = some m then none else st.sem key }

end State

def exec : (op : Op) → State → Option (op.Res × State)
  | .ftok path projId, st => some (⟨path, projId⟩, st)
  | .shmget c key size, st => some (st.shmget c key size)
  | .semget key, st => some (st.semget key)
  | .setval m val, st =>
    if (st.sems m).removed then some (-1, st)
    else some (0, st.setSem m { st.sems m with value := val })
  | .semop c m semOp, st => st.semop c m semOp
  | .shmat c s, st => some (st.shmat c s)
  | .copyIn c none _, st => some (false, st.note (.copiedIn c none))
  | .copyIn c (some s) bytes, st =>
    some (true,
      (st.setSeg s { st.segs s with data := (st.segs s).data.write 0 (bytes ++ [0]) }).note
        (.copiedIn c (some s)))
  | .copyOut c none, st => some (none, st.note (.copiedOut c none []))
  | .copyOut c (some s), st =>
    let ret := (st.segs s).data.string 0
    some (some ret, st.note (.copiedOut c (some s) ret))
  | .shmdt _ none, st => some (-1, st)
  | .shmdt c (some s), st => some (0, st.shmdt c s)
  | .shmRmid s, st => if (st.segs s).destroyed then some (-1, st) else some (0, st.shmRmid s)
  | .semRmid m, st => if (st.sems m).removed then some (-1, st) else some (0, st.semRmid m)

def body (c : Caller) : M Outcome :=
  match c.fn with
  | .read => tcpConnectShmRead c
  | .write => tcpConnectShmWrite c

/-- The calls under way are told apart by their `Caller`; the kernel has no choice. -/
def channel : System Caller Op Op.Res Unit Empty State Caller Outcome where
  key := id
  body := body
  exec _ op st := exec op st
  env e _ := nomatch e

/-- The key that both functions use. -/
def theKey : Key := ⟨tcpConnectShmkey, 65⟩

end NetworkAnalyse.Shm
