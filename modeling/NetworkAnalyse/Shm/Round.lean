import NetworkAnalyse.Shm.Objects

/-!
# One reader and one writer

`test/writeshm.c` and `test/readshm.c` call the two functions of `shm.c` once each.  When no object
is under the key at the start, the two calls do not get in each other's way, whatever the
order of their operations:

* `Round`: the objects are known from the numbers of operations that the two calls have performed.
* `Round.read_step`, `Round.write_step`: an operation moves on its own number.
* `rounds_complete`: from the start and after any number of such rounds the calls cannot get stuck,
  they end after 17 operations with the message read, and they leave no object behind.
-/

namespace NetworkAnalyse.Shm

open Lib

/-! ### The operations of the two calls -/

/-- The operation of the reader after `r` others, when the segment is `s` and the semaphore `m`. -/
def readOp (c : Caller) (s : ShmId) (m : SemId) : (r : Nat) → Option Op
  | 0 => some (.ftok tcpConnectShmkey 65)
  | 1 => some (.shmget c theKey 1024)
  | 2 => some (.semget theKey)
  | 3 => some (.semop c m (-1))
  | 4 => some (.shmat c s)
  | 5 => some (.copyOut c (some s))
  | 6 => some (.shmdt c (some s))
  | 7 => some (.shmRmid s)
  | 8 => some (.semRmid m)
  | _ => none

def writeOp (c : Caller) (s : ShmId) (m : SemId) : (w : Nat) → Option Op
  | 0 => some (.ftok tcpConnectShmkey 65)
  | 1 => some (.shmget c theKey shmSize)
  | 2 => some (.semget theKey)
  | 3 => some (.setval m 0)
  | 4 => some (.shmat c s)
  | 5 => some (.copyIn c (some s) message)
  | 6 => some (.semop c m 1)
  | 7 => some (.shmdt c (some s))
  | _ => none

/-- The answers that the calls act on. -/
def Answer (s : ShmId) (m : SemId) : (op : Op) → op.Res → Prop
  | .ftok _ _, key => key = theKey
  | .shmget _ _ _, shmid => shmid = s
  | .semget _, semid => semid = m
  | .shmat _ _, str => str = some s
  | .copyIn _ _ _, ok => ok = true
  | .copyOut _ _, ret => ret = some message
  | _, _ => True

/-! ### The objects -/

def emptyData : DataSection := ⟨List.replicate shmSize 0⟩

/-- The segment, after `r` operations of the reader and `w` of the writer. -/
def segAt (r w : Nat) : Segment where
  data := if 6 ≤ w then emptyData.write 0 (message ++ [0]) else emptyData
  nattch := (if r = 5 ∨ r = 6 then 1 else 0) + (if 5 ≤ w ∧ w < 8 then 1 else 0)
  dest := decide (8 ≤ r)

def semAt (s : ShmId) (r w : Nat) : Sem where
  value := if 7 ≤ w ∧ r < 4 then 1 else 0
  removed := decide (9 ≤ r)
  segment := some s

/-- The objects under the key, and that the reader passes the semaphore after the writer's
signal. -/
structure Round (s : ShmId) (m : SemId) (st : State) (r w : Nat) : Prop where
  shm : st.shm theKey = if (2 ≤ r ∨ 2 ≤ w) ∧ r < 8 then some s else none
  sem : st.sem theKey = if (3 ≤ r ∨ 3 ≤ w) ∧ r < 9 then some m else none
  segs : 2 ≤ r ∨ 2 ≤ w → st.segs s = segAt r w
  sems : 3 ≤ r ∨ 3 ≤ w → st.sems m = semAt s r w
  nextShm : ¬ (2 ≤ r ∨ 2 ≤ w) → st.nextShm = s
  nextSem : ¬ (3 ≤ r ∨ 3 ≤ w) → st.nextSem = m
  order : 4 ≤ r → 7 ≤ w

theorem segAt_new {r w : Nat} (hr : r < 5) (hw : w < 5) : segAt r w = .new shmSize := by
  have hr5 : ¬ (r = 5 ∨ r = 6) := by omega
  have hr8 : ¬ 8 ≤ r := by omega
  have hw5 : ¬ (5 ≤ w ∧ w < 8) := by omega
  have hw6 : ¬ 6 ≤ w := by omega
  simp only [segAt, if_neg hr5, if_neg hw5, if_neg hw6, decide_eq_false hr8]
  rfl

theorem semAt_new {s : ShmId} {r w : Nat} (hr : r < 9) (hw : w < 7) :
    semAt s r w = { segment := some s } := by
  have hr9 : ¬ 9 ≤ r := by omega
  have hw7 : ¬ (7 ≤ w ∧ r < 4) := by omega
  simp only [semAt, if_neg hw7, decide_eq_false hr9]

theorem destroyed_segAt {r w : Nat} (hr : r < 8) : (segAt r w).destroyed = false := by
  have hr8 : ¬ 8 ≤ r := by omega
  simp only [Segment.destroyed, segAt, decide_eq_false hr8, Bool.false_and]

theorem string_written : (emptyData.write 0 (message ++ [0])).string 0 = message := by
  have hin : 0 + message.length < emptyData.bytes.length := by
    rw [emptyData, List.length_replicate]
    decide
  exact (DataSection.stringAt_write zero_not_mem_message hin).string_eq

theorem round_zero {st : State} (hshm : st.shm theKey = none) (hsem : st.sem theKey = none) :
    Round st.nextShm st.nextSem st 0 0 where
  shm := by simpa using hshm
  sem := by simpa using hsem
  segs h := absurd h (by decide)
  sems h := absurd h (by decide)
  nextShm _ := rfl
  nextSem _ := rfl
  order h := absurd h (by decide)

/-! ### The calls that both make -/

section Common

variable {s shmid : ShmId} {m semid : SemId} {st st' : State} {r w : Nat} {c : Caller}

/-- A first `shmget` makes the segment, a second one finds it. -/
theorem Round.shmget (h : Round s m st r w) (hr : r < 8)
    (heq : st.shmget c theKey shmSize = (shmid, st')) :
    shmid = s ∧ st'.shm theKey = some s ∧ st'.segs s = segAt r w ∧ st'.sem = st.sem ∧
      st'.sems = st.sems ∧ st'.nextSem = st.nextSem := by
  have hshm := h.shm
  rw [State.shmget] at heq
  by_cases hmade : 2 ≤ r ∨ 2 ≤ w
  · rw [if_pos ⟨hmade, hr⟩] at hshm
    rw [hshm] at heq
    cases heq
    exact ⟨rfl, hshm, h.segs hmade, rfl, rfl, rfl⟩
  · rw [if_neg (fun hm => hmade hm.1)] at hshm
    rw [hshm] at heq
    cases heq
    obtain rfl := h.nextShm hmade
    rw [segAt_new (by omega) (by omega)]
    exact ⟨rfl, Function.update_self theKey (some st.nextShm) st.shm,
      Function.update_self st.nextShm (.new shmSize) st.segs, rfl, rfl, rfl⟩

/-- A first `semget` makes the semaphore, a second one finds it. -/
theorem Round.semget (h : Round s m st r w) (hmade : 2 ≤ r ∨ 2 ≤ w) (hr : r < 8)
    (heq : st.semget theKey = (semid, st')) :
    semid = m ∧ st'.sem theKey = some m ∧ st'.sems m = semAt s r w ∧ st'.shm = st.shm ∧
      st'.segs = st.segs := by
  have hsem := h.sem
  have hshm := h.shm
  rw [if_pos ⟨hmade, hr⟩] at hshm
  rw [State.semget] at heq
  by_cases hmade' : 3 ≤ r ∨ 3 ≤ w
  · rw [if_pos ⟨hmade', by omega⟩] at hsem
    rw [hsem] at heq
    cases heq
    exact ⟨rfl, hsem, h.sems hmade', rfl, rfl⟩
  · rw [if_neg (fun hm => hmade' hm.1)] at hsem
    rw [hsem] at heq
    cases heq
    obtain rfl := h.nextSem hmade'
    refine ⟨rfl, Function.update_self theKey (some st.nextSem) st.sem, ?_, rfl, rfl⟩
    rw [semAt_new (by omega) (by omega), ← hshm]
    exact Function.update_self st.nextSem _ st.sems

/-- The segment is there, so that it is attached. -/
theorem Round.shmat (h : Round s m st r w) (hmade : 2 ≤ r ∨ 2 ≤ w) (hr : r < 8)
    {str : Option ShmId} (heq : st.shmat c s = (str, st')) :
    str = some s ∧ st'.segs s = { segAt r w with nattch := (segAt r w).nattch + 1 } ∧
      st'.shm = st.shm ∧ st'.sem = st.sem ∧ st'.sems = st.sems := by
  have hsegs := h.segs hmade
  have hdestroyed : ¬ (st.segs s).destroyed = true := by
    rw [hsegs, destroyed_segAt hr]
    exact Bool.false_ne_true
  rw [State.shmat] at heq
  simp only [if_neg hdestroyed] at heq
  cases heq
  refine ⟨rfl, ?_, rfl, rfl, rfl⟩
  rw [← hsegs]
  exact Function.update_self s _ st.segs

theorem Round.shmdt (h : Round s m st r w) (hmade : 2 ≤ r ∨ 2 ≤ w) (heq : st.shmdt c s = st') :
    st'.segs s = { segAt r w with nattch := (segAt r w).nattch - 1 } ∧
      st'.shm = st.shm ∧ st'.sem = st.sem ∧ st'.sems = st.sems := by
  have hsegs := h.segs hmade
  have hset : Function.update st.segs s { st.segs s with nattch := (st.segs s).nattch - 1 } s =
      { segAt r w with nattch := (segAt r w).nattch - 1 } := by
    rw [Function.update_self, hsegs]
  subst heq
  rw [State.shmdt]
  cases c.fn with
  | read => exact ⟨hset, rfl, rfl, rfl⟩
  | write => exact ⟨hset, rfl, rfl, rfl⟩

/-- A `semop` that does not block. -/
theorem Round.semop (h : Round s m st r w) (hmade : 3 ≤ r ∨ 3 ≤ w) (hr : r < 9) {i n : Int}
    (hi : i ≤ 1) (heq : st.semop c m i = some (n, st')) :
    0 ≤ (semAt s r w).value + i ∧
      st'.sems m = { semAt s r w with value := ((semAt s r w).value + i).toNat } ∧
      st'.shm = st.shm ∧ st'.sem = st.sem ∧ st'.segs = st.segs := by
  have hsems := h.sems hmade
  have hremoved : ¬ (semAt s r w).removed = true := by
    simp only [semAt, decide_eq_true_eq]
    omega
  have hvalue : (semAt s r w).value ≤ 1 := by
    simp only [semAt]
    split
    · exact Nat.le_refl 1
    · exact Nat.zero_le 1
  have hpass : (st.pass c m i).shm = st.shm ∧ (st.pass c m i).sem = st.sem := by
    rw [State.pass]
    split
    · exact ⟨rfl, rfl⟩
    · exact ⟨rfl, rfl⟩
  simp only [State.semop, hsems, if_neg hremoved] at heq
  split at heq
  · cases heq
  · rename_i hnonneg
    have hmax : ¬ (semvmx : Int) < (semAt s r w).value + i := by
      simp only [semvmx]
      omega
    rw [if_neg hmax] at heq
    cases heq
    exact ⟨Int.not_lt.mp hnonneg, Function.update_self m _ _, hpass.1, hpass.2, State.segs_pass⟩

end Common

/-! ### The two calls -/

section Steps

variable {s : ShmId} {m : SemId} {st st' : State} {r w : Nat} {c : Caller} {op : Op}

theorem isSome_semop {i : Int} (h : 0 ≤ (st.sems m).value + i) : (st.semop c m i).isSome := by
  simp only [State.semop, if_neg (Int.not_lt.mpr h)]
  split
  · rfl
  · split
    · rfl
    · rfl

theorem Round.read_step (h : Round s m st r w) (hop : readOp c s m r = some op) {res : op.Res}
    (hexec : exec op st = some (res, st')) : Answer s m op res ∧ Round s m st' (r + 1) w := by
  obtain ⟨hshm, hsem, hsegs, hsems, hnextShm, hnextSem, horder⟩ := id h
  rcases r with _ | _ | _ | _ | _ | _ | _ | _ | _ | r
  · -- `ftok`
    cases hop
    cases hexec
    refine ⟨rfl, ?_⟩
    constructor <;> grind [segAt, semAt]
  · -- `shmget`
    cases hop
    have hget := h.shmget (by decide) (Option.some.inj hexec)
    refine ⟨hget.1, ?_⟩
    constructor <;> grind [segAt, semAt]
  · -- `semget`
    cases hop
    have hget := h.semget (Or.inl (by decide)) (by decide) (Option.some.inj hexec)
    refine ⟨hget.1, ?_⟩
    constructor <;> grind [segAt, semAt]
  · -- `semop`
    cases hop
    have hsemop := h.semop (Or.inl (by decide)) (by decide) (by decide) hexec
    refine ⟨trivial, ?_⟩
    constructor <;> grind [segAt, semAt]
  · -- `shmat`
    cases hop
    have hat := h.shmat (Or.inl (by decide)) (by decide) (Option.some.inj hexec)
    refine ⟨hat.1, ?_⟩
    constructor <;> grind [segAt, semAt]
  · -- `strcpy`
    cases hop
    have hdata : (st.segs s).data.string 0 = message := by
      rw [hsegs (Or.inl (by decide)), segAt]
      simp only [if_pos (show 6 ≤ w by omega), string_written]
    cases hexec
    refine ⟨congrArg some hdata, ?_⟩
    constructor <;> grind [segAt, semAt, State.note]
  · -- `shmdt`
    cases hop
    have hdt := h.shmdt (c := c) (Or.inl (by decide)) rfl
    cases hexec
    refine ⟨trivial, ?_⟩
    constructor <;> grind [segAt, semAt]
  · -- `shmctl`
    cases hop
    have hdestroyed : ¬ (st.segs s).destroyed = true := by
      rw [hsegs (Or.inl (by decide)), destroyed_segAt (by decide)]
      exact Bool.false_ne_true
    simp only [exec, if_neg hdestroyed] at hexec
    cases hexec
    have hset : (st.shmRmid s).segs s = { st.segs s with dest := true } :=
      Function.update_self s _ st.segs
    have hkey : (st.shmRmid s).shm theKey = none := if_pos (by simpa using hshm)
    have hkeeps : (st.shmRmid s).sem = st.sem ∧ (st.shmRmid s).sems = st.sems := ⟨rfl, rfl⟩
    refine ⟨trivial, ?_⟩
    constructor <;> grind [segAt, semAt]
  · -- `semctl`
    cases hop
    have hremoved : ¬ (st.sems m).removed = true := by
      rw [hsems (Or.inl (by decide))]
      exact Bool.false_ne_true
    simp only [exec, if_neg hremoved] at hexec
    cases hexec
    have hset : (st.semRmid m).sems m = { st.sems m with removed := true } :=
      Function.update_self m _ st.sems
    have hkey : (st.semRmid m).sem theKey = none := if_pos (by simpa using hsem)
    have hkeeps : (st.semRmid m).shm = st.shm ∧ (st.semRmid m).segs = st.segs := ⟨rfl, rfl⟩
    refine ⟨trivial, ?_⟩
    constructor <;> grind [segAt, semAt]
  · cases hop

theorem Round.write_step (h : Round s m st r w) (hop : writeOp c s m w = some op) {res : op.Res}
    (hexec : exec op st = some (res, st')) : Answer s m op res ∧ Round s m st' r (w + 1) := by
  obtain ⟨hshm, hsem, hsegs, hsems, hnextShm, hnextSem, horder⟩ := id h
  rcases w with _ | _ | _ | _ | _ | _ | _ | _ | w
  · -- `ftok`
    cases hop
    cases hexec
    refine ⟨rfl, ?_⟩
    constructor <;> grind [segAt, semAt]
  · -- `shmget`
    cases hop
    have hget := h.shmget (by omega) (Option.some.inj hexec)
    refine ⟨hget.1, ?_⟩
    constructor <;> grind [segAt, semAt]
  · -- `semget`
    cases hop
    have hget := h.semget (Or.inr (by decide)) (by omega) (Option.some.inj hexec)
    refine ⟨hget.1, ?_⟩
    constructor <;> grind [segAt, semAt]
  · -- `semctl`: the value is 0 already
    cases hop
    have hremoved : ¬ (st.sems m).removed = true := by
      rw [hsems (Or.inr (by decide)), semAt_new (by omega) (by decide)]
      exact Bool.false_ne_true
    simp only [exec, if_neg hremoved] at hexec
    obtain rfl := congrArg Prod.snd (Option.some.inj hexec)
    have hset : (st.setSem m { st.sems m with value := 0 }).sems m =
        { st.sems m with value := 0 } :=
      Function.update_self m _ st.sems
    refine ⟨trivial, ?_⟩
    constructor <;> grind [segAt, semAt, State.setSem]
  · -- `shmat`
    cases hop
    have hat := h.shmat (Or.inr (by decide)) (by omega) (Option.some.inj hexec)
    refine ⟨hat.1, ?_⟩
    constructor <;> grind [segAt, semAt]
  · -- `strcpy`
    cases hop
    have hset : ∀ d, (st.setSeg s { st.segs s with data := d }).segs s =
        { st.segs s with data := d } :=
      fun d => Function.update_self s _ st.segs
    cases hexec
    refine ⟨rfl, ?_⟩
    constructor <;> grind [segAt, semAt, State.note, State.setSeg]
  · -- `semop`
    cases hop
    have hsemop := h.semop (Or.inr (by decide)) (by omega) (by decide) hexec
    refine ⟨trivial, ?_⟩
    constructor <;> grind [segAt, semAt]
  · -- `shmdt`
    cases hop
    have hdt := h.shmdt (c := c) (Or.inr (by decide)) rfl
    cases hexec
    refine ⟨trivial, ?_⟩
    constructor <;> grind [segAt, semAt]
  · cases hop

/-- Only a `semop` can block. -/
theorem isSome_exec (h : ∀ c m i, op = .semop c m i → 0 ≤ (st.sems m).value + i) :
    (exec op st).isSome := by
  cases op with
  | semop c m i => exact isSome_semop (h c m i rfl)
  | setval m val =>
    rw [exec]
    split <;> rfl
  | shmRmid s =>
    rw [exec]
    split <;> rfl
  | semRmid m =>
    rw [exec]
    split <;> rfl
  | copyIn c str bytes => cases str <;> rfl
  | copyOut c str => cases str <;> rfl
  | shmdt c str => cases str <;> rfl
  | _ => rfl

/-- The writer never waits. -/
theorem write_enabled (hop : writeOp c s m w = some op) : (exec op st).isSome := by
  refine isSome_exec ?_
  rintro c' m' i rfl
  -- its `semop` is the signal
  rcases w with _ | _ | _ | _ | _ | _ | _ | _ | w <;> cases hop
  omega

/-- The reader waits for the writer's signal, and for nothing else. -/
theorem Round.read_enabled (h : Round s m st r w) (hop : readOp c s m r = some op)
    (hw : r = 3 → 7 ≤ w) : (exec op st).isSome := by
  refine isSome_exec ?_
  rintro c' m' i rfl
  rcases r with _ | _ | _ | _ | _ | _ | _ | _ | _ | r <;> cases hop
  have hvalue : (st.sems m).value = 1 := by
    rw [h.sems (Or.inl (by decide))]
    exact if_pos ⟨hw rfl, by decide⟩
  rw [hvalue]
  decide

end Steps

/-! ### The programs -/

/-- The answer is as expected, and the number of operations goes up. -/
def NextOp (s : ShmId) (m : SemId) (op : Op) (n : Nat) (res : op.Res) (n' : Nat) : Prop :=
  n' = n + 1 ∧ Answer s m op res

theorem ok_read (c : Caller) (s : ShmId) (m : SemId) :
    (tcpConnectShmRead c).Ok (fun op r => readOp c s m r = some op) (NextOp s m)
      (fun _ a r => r = 9 ∧ a = .read message) [] 0 := by
  refine ⟨rfl, fun key _ h => ?_⟩
  obtain ⟨rfl, rfl⟩ := h
  refine ⟨rfl, fun shmid _ h => ?_⟩
  obtain ⟨rfl, rfl⟩ := h
  refine ⟨rfl, fun semid _ h => ?_⟩
  obtain ⟨rfl, rfl⟩ := h
  refine ⟨rfl, fun _ _ h => ?_⟩
  obtain ⟨rfl, -⟩ := h
  refine ⟨rfl, fun str _ h => ?_⟩
  obtain ⟨rfl, rfl⟩ := h
  refine ⟨rfl, fun copy _ h => ?_⟩
  obtain ⟨rfl, rfl⟩ := h
  refine ⟨rfl, fun _ _ h => ?_⟩
  obtain ⟨rfl, -⟩ := h
  refine ⟨rfl, fun _ _ h => ?_⟩
  obtain ⟨rfl, -⟩ := h
  refine ⟨rfl, fun _ _ h => ?_⟩
  obtain ⟨rfl, -⟩ := h
  exact ⟨rfl, rfl⟩

theorem ok_write (c : Caller) (s : ShmId) (m : SemId) :
    (tcpConnectShmWrite c).Ok (fun op w => writeOp c s m w = some op) (NextOp s m)
      (fun _ a w => w = 8 ∧ a = .wrote) [] 0 := by
  refine ⟨rfl, fun key _ h => ?_⟩
  obtain ⟨rfl, rfl⟩ := h
  refine ⟨rfl, fun shmid _ h => ?_⟩
  obtain ⟨rfl, rfl⟩ := h
  refine ⟨rfl, fun semid _ h => ?_⟩
  obtain ⟨rfl, rfl⟩ := h
  refine ⟨rfl, fun _ _ h => ?_⟩
  obtain ⟨rfl, -⟩ := h
  refine ⟨rfl, fun str _ h => ?_⟩
  obtain ⟨rfl, rfl⟩ := h
  refine ⟨rfl, fun ok _ h => ?_⟩
  obtain ⟨rfl, rfl⟩ := h
  refine ⟨rfl, fun _ _ h => ?_⟩
  obtain ⟨rfl, -⟩ := h
  refine ⟨rfl, fun _ _ h => ?_⟩
  obtain ⟨rfl, -⟩ := h
  exact ⟨rfl, rfl⟩

/-! ### The two calls at the same time -/

abbrev Cfg := Config Caller Op Op.Res State Caller Outcome

/-- A call as it is seen in the log. -/
def ending (i : Entry Op Op.Res Caller Outcome) : Caller × Outcome := (i.tag, i.result)

/-- A call with the operations `ops`, which ends after the last one with `out`. -/
structure Plan where
  ops : Nat → Option Op
  last : Nat
  out : Outcome

def Plan.Ok (P : Plan) (s : ShmId) (m : SemId) (p : M Outcome) (tr : Trace Op Op.Res) (n : Nat) :
    Prop :=
  Prog.Ok (fun op n => P.ops n = some op) (NextOp s m) (fun _ a n => n = P.last ∧ a = P.out) p tr n

/-- The call has performed `n` operations. -/
def Plan.Stands (P : Plan) (s : ShmId) (m : SemId) (k : Caller) (c : Cfg) (n : Nat) : Prop :=
  (n = P.last ∧ c.running k = none) ∨
    ∃ tr op f, c.running k = some ⟨k, tr, .call op f⟩ ∧ P.Ok s m (.call op f) tr n

/-- What the call has put into the log. -/
def Plan.ended (P : Plan) (k : Caller) (n : Nat) : List (Caller × Outcome) :=
  if n = P.last then [(k, P.out)] else []

def readPlan (c : Caller) (s : ShmId) (m : SemId) : Plan := ⟨readOp c s m, 9, .read message⟩
def writePlan (c : Caller) (s : ShmId) (m : SemId) : Plan := ⟨writeOp c s m, 8, .wrote⟩

theorem lt_of_readOp {c : Caller} {s : ShmId} {m : SemId} {r : Nat} {op : Op}
    (h : readOp c s m r = some op) : r < 9 := by
  by_contra hr
  obtain ⟨k, rfl⟩ := Nat.exists_eq_add_of_le' (Nat.le_of_not_lt hr)
  cases h

theorem lt_of_writeOp {c : Caller} {s : ShmId} {m : SemId} {w : Nat} {op : Op}
    (h : writeOp c s m w = some op) : w < 8 := by
  by_contra hw
  obtain ⟨k, rfl⟩ := Nat.exists_eq_add_of_le' (Nat.le_of_not_lt hw)
  cases h

section Settle

variable {P : Plan} {s : ShmId} {m : SemId} {k j : Caller} {c c' : Cfg} {n : Nat}

/-- A call that has just performed an operation, or none yet. -/
theorem Plan.stands_settle (hlast : P.ops P.last = none) {p : M Outcome} {tr : Trace Op Op.Res}
    (hok : P.Ok s m p tr n) :
    P.Stands s m k (System.settle c k ⟨k, tr, p⟩) n ∧
      ∃ L, (System.settle c k ⟨k, tr, p⟩).log = c.log ++ L ∧ L.map ending = P.ended k n := by
  cases p with
  | ret a =>
    obtain ⟨rfl, rfl⟩ := hok
    rw [System.settle_ret]
    refine ⟨Or.inl ⟨rfl, Function.update_self k none c.running⟩, [⟨k, tr, P.out⟩], rfl, ?_⟩
    rw [Plan.ended, if_pos rfl]
    rfl
  | call op f =>
    rw [System.settle_call]
    refine ⟨Or.inr ⟨tr, op, f, Function.update_self k _ c.running, hok⟩, [],
      (List.append_nil _).symm, ?_⟩
    have hne : n ≠ P.last := by
      rintro rfl
      have hop : P.ops P.last = some op := hok.1
      rw [hlast] at hop
      cases hop
    rw [Plan.ended, if_neg hne]
    rfl

theorem running_settle_of_ne (hne : j ≠ k) (th : Thread Op Op.Res Caller Outcome) :
    (System.settle c k th).running j = c.running j := by
  obtain ⟨tag, tr, p⟩ := th
  cases p with
  | ret a => exact Function.update_of_ne hne none c.running
  | call op f => exact Function.update_of_ne hne _ c.running

theorem Plan.Stands.congr (h : P.Stands s m k c n) (hrun : c'.running k = c.running k) :
    P.Stands s m k c' n := by
  rw [Plan.Stands, hrun]
  exact h

end Settle

/-- A round from `c₀` on, in which the reader has performed `r` operations and the writer `w`. -/
structure Inv (c₀ : Cfg) (reader writer : Caller) (c : Cfg) (r w : Nat) : Prop where
  round : Round c₀.shared.nextShm c₀.shared.nextSem c.shared r w
  reads : (readPlan reader c₀.shared.nextShm c₀.shared.nextSem).Stands c₀.shared.nextShm
    c₀.shared.nextSem reader c r
  writes : (writePlan writer c₀.shared.nextShm c₀.shared.nextSem).Stands c₀.shared.nextShm
    c₀.shared.nextSem writer c w
  log : ∃ L, c.log = c₀.log ++ L ∧ (L.map ending).Perm
    ((readPlan reader c₀.shared.nextShm c₀.shared.nextSem).ended reader r ++
      (writePlan writer c₀.shared.nextShm c₀.shared.nextSem).ended writer w)

section Inv

variable {c₀ c c' : Cfg} {reader writer : Caller} {r w : Nat}

/-- An operation of a call that stands. -/
theorem Plan.Stands.step {P : Plan} {s : ShmId} {m : SemId} {k : Caller} {n : Nat}
    (h : P.Stands s m k c n) (hstep : channel.step c (.step k ()) = some c') :
    ∃ op res st tr f, P.ops n = some op ∧ exec op c.shared = some (res, st) ∧
      c' = System.settle ⟨st, c.running, c.log⟩ k ⟨k, tr, f⟩ ∧
      (Answer s m op res → P.Ok s m f tr (n + 1)) := by
  rcases System.step_cases hstep with ⟨tag, htag, -⟩ |
      ⟨k', inp, tag, tr, op, f, res, st, hk, hrun, hexec, rfl⟩ | ⟨e, -⟩
  · cases htag
  · cases hk
    rcases h with ⟨-, hnone⟩ | ⟨tr', op', f', hsome, hok⟩
    · rw [hnone] at hrun
      cases hrun
    · rw [hsome] at hrun
      cases hrun
      exact ⟨op, res, st, _, f res, hok.1, hexec, rfl, fun hans => hok.2 res (n + 1) ⟨rfl, hans⟩⟩
  · exact e.elim

theorem Inv.read_step (h : Inv c₀ reader writer c r w) (hne : reader ≠ writer)
    (hstep : channel.step c (.step reader ()) = some c') : Inv c₀ reader writer c' (r + 1) w := by
  obtain ⟨op, res, st, tr, p, hop, hexec, rfl, hok⟩ := h.reads.step hstep
  obtain ⟨hans, hround⟩ := h.round.read_step hop hexec
  obtain ⟨hstands, L', hlog', hended⟩ := Plan.stands_settle (k := reader)
    (c := ⟨st, c.running, c.log⟩) rfl (hok hans)
  obtain ⟨L, hlog, hperm⟩ := h.log
  have hbefore : (readPlan reader c₀.shared.nextShm c₀.shared.nextSem).ended reader r = [] :=
    if_neg (Nat.ne_of_lt (lt_of_readOp hop))
  refine ⟨?_, hstands, h.writes.congr ?_, ⟨L ++ L', ?_, ?_⟩⟩
  · rw [System.shared_settle]
    exact hround
  · exact running_settle_of_ne hne.symm _
  · rw [hlog', hlog, List.append_assoc]
  · rw [hbefore, List.nil_append] at hperm
    rw [List.map_append, hended]
    exact (hperm.append_right _).trans List.perm_append_comm

theorem Inv.write_step (h : Inv c₀ reader writer c r w) (hne : reader ≠ writer)
    (hstep : channel.step c (.step writer ()) = some c') : Inv c₀ reader writer c' r (w + 1) := by
  obtain ⟨op, res, st, tr, p, hop, hexec, rfl, hok⟩ := h.writes.step hstep
  obtain ⟨hans, hround⟩ := h.round.write_step hop hexec
  obtain ⟨hstands, L', hlog', hended⟩ := Plan.stands_settle (k := writer)
    (c := ⟨st, c.running, c.log⟩) rfl (hok hans)
  obtain ⟨L, hlog, hperm⟩ := h.log
  have hbefore : (writePlan writer c₀.shared.nextShm c₀.shared.nextSem).ended writer w = [] :=
    if_neg (Nat.ne_of_lt (lt_of_writeOp hop))
  refine ⟨?_, h.reads.congr ?_, hstands, ⟨L ++ L', ?_, ?_⟩⟩
  · rw [System.shared_settle]
    exact hround
  · exact running_settle_of_ne hne _
  · rw [hlog', hlog, List.append_assoc]
  · rw [hbefore, List.append_nil] at hperm
    rw [List.map_append, hended]
    exact hperm.append_right _

theorem settle_of_spawn {k : Caller} (h : channel.step c (.spawn k) = some c') :
    c' = System.settle c k ⟨k, [], body k⟩ := by
  rcases System.step_cases h with ⟨tag, htag, -, rfl⟩ | ⟨_, _, _, _, _, _, _, _, h, -⟩ | ⟨e, -⟩
  · cases htag
    rfl
  · cases h
  · exact e.elim

/-- The two calls are started, and no object is under the key. -/
theorem inv_start (hread : reader.fn = .read) (hwrite : writer.fn = .write)
    (hshm : c₀.shared.shm theKey = none) (hsem : c₀.shared.sem theKey = none)
    (hrun : channel.run c₀ [.spawn reader, .spawn writer] = some c) :
    Inv c₀ reader writer c 0 0 := by
  have hne : reader ≠ writer := by
    intro heq
    rw [heq, hwrite] at hread
    cases hread
  have hbody : body reader = tcpConnectShmRead reader ∧
      body writer = tcpConnectShmWrite writer := by
    rw [body, hread, body, hwrite]
    exact ⟨rfl, rfl⟩
  have hsnoc : channel.run c₀ (([] ++ [.spawn reader]) ++ [.spawn writer]) = some c := hrun
  obtain ⟨c₁, hfirst, hsecond⟩ := System.run_snoc_iff.mp hsnoc
  obtain ⟨_, h₀, hfirst⟩ := System.run_snoc_iff.mp hfirst
  cases h₀
  obtain rfl := settle_of_spawn hfirst
  obtain rfl := settle_of_spawn hsecond
  rw [hbody.1, hbody.2]
  obtain ⟨hreads, L₁, hlog₁, hended₁⟩ := Plan.stands_settle (k := reader) (c := c₀)
    (P := readPlan reader c₀.shared.nextShm c₀.shared.nextSem) rfl (ok_read reader _ _)
  obtain ⟨hwrites, L₂, hlog₂, hended₂⟩ := Plan.stands_settle (k := writer)
    (c := System.settle c₀ reader ⟨reader, [], tcpConnectShmRead reader⟩)
    (P := writePlan writer c₀.shared.nextShm c₀.shared.nextSem) rfl (ok_write writer _ _)
  refine ⟨?_, hreads.congr ?_, hwrites, ⟨L₁ ++ L₂, ?_, ?_⟩⟩
  · rw [System.shared_settle, System.shared_settle]
    exact round_zero hshm hsem
  · exact running_settle_of_ne hne _
  · rw [hlog₂, hlog₁, List.append_assoc]
  · rw [List.map_append, hended₁, hended₂]

theorem inv_run (hne : reader ≠ writer) (acts : List (Act Caller Unit Empty Caller)) :
    ∀ {c r w}, Inv c₀ reader writer c r w →
      (∀ a ∈ acts, a = .step reader () ∨ a = .step writer ()) → channel.run c acts = some c' →
      ∃ r' w', r' + w' = r + w + acts.length ∧ Inv c₀ reader writer c' r' w' := by
  induction acts with
  | nil =>
    intro c r w h _ hrun
    cases hrun
    exact ⟨r, w, rfl, h⟩
  | cons a acts ih =>
    intro c r w h hacts hrun
    rw [List.forall_mem_cons] at hacts
    rw [System.run, List.foldlM_cons, Option.bind_eq_bind, Option.bind_eq_some_iff] at hrun
    obtain ⟨c₁, hstep, hrest⟩ := hrun
    rcases hacts.1 with rfl | rfl
    · obtain ⟨r', w', hsum, h'⟩ := ih (h.read_step hne hstep) hacts.2 hrest
      refine ⟨r', w', ?_, h'⟩
      rw [hsum, List.length_cons]
      omega
    · obtain ⟨r', w', hsum, h'⟩ := ih (h.write_step hne hstep) hacts.2 hrest
      refine ⟨r', w', ?_, h'⟩
      rw [hsum, List.length_cons]
      omega

theorem Plan.Stands.isSome_step {P : Plan} {s : ShmId} {m : SemId} {k : Caller} {n : Nat}
    (h : P.Stands s m k c n) (hn : n ≠ P.last)
    (hexec : ∀ op, P.ops n = some op → (exec op c.shared).isSome) :
    (channel.step c (.step k ())).isSome := by
  rcases h with ⟨hlast, -⟩ | ⟨tr, op, f, hrun, hok⟩
  · exact absurd hlast hn
  · obtain ⟨p, hp⟩ := Option.isSome_iff_exists.mp (hexec op hok.1)
    have hp' : channel.exec () op c.shared = some p := hp
    simp only [System.step, hrun, hp', Option.map_some, Option.isSome_some]

theorem Plan.Stands.le {P : Plan} {s : ShmId} {m : SemId} {k : Caller} {n : Nat}
    (h : P.Stands s m k c n) (hlt : ∀ op, P.ops n = some op → n < P.last) : n ≤ P.last := by
  rcases h with ⟨rfl, -⟩ | ⟨tr, op, f, -, hok⟩
  · exact Nat.le_refl _
  · exact Nat.le_of_lt (hlt op hok.1)

/-- One of the two can go on, unless both have ended. -/
theorem Inv.enabled (h : Inv c₀ reader writer c r w) (hsum : r + w < 17) :
    ∃ k ∈ [reader, writer], (channel.step c (.step k ())).isSome := by
  have hr : r ≤ 9 := h.reads.le fun op => lt_of_readOp
  have hw : w ≤ 8 := h.writes.le fun op => lt_of_writeOp
  by_cases hlast : w = 8
  · refine ⟨reader, List.mem_cons_self, h.reads.isSome_step ?_ fun op hop => ?_⟩
    · show r ≠ 9
      omega
    · exact h.round.read_enabled hop (by omega)
  · exact ⟨writer, List.mem_cons_of_mem _ List.mem_cons_self,
      h.writes.isSome_step hlast fun op hop => write_enabled hop⟩

end Inv

/-! ### Any number of rounds -/

/-- The configurations after `n` rounds. -/
inductive Rounds : Cfg → Nat → Prop
  | zero : Rounds (channel.init .boot) 0
  | succ {c c' : Cfg} {n : Nat} {acts : List (Act Caller Unit Empty Caller)} (h : Rounds c n)
      (hacts : ∀ a ∈ acts, a = .step ⟨.read, n⟩ () ∨ a = .step ⟨.write, n⟩ ())
      (hlen : acts.length = 17)
      (hrun : channel.run c (.spawn ⟨.read, n⟩ :: .spawn ⟨.write, n⟩ :: acts) = some c') :
      Rounds c' (n + 1)

section Rounds

variable {c₀ c : Cfg} {n : Nat} {acts : List (Act Caller Unit Empty Caller)}

theorem inv_of_run (hshm : c₀.shared.shm theKey = none) (hsem : c₀.shared.sem theKey = none)
    (hacts : ∀ a ∈ acts, a = .step ⟨.read, n⟩ () ∨ a = .step ⟨.write, n⟩ ())
    (hrun : channel.run c₀ (.spawn ⟨.read, n⟩ :: .spawn ⟨.write, n⟩ :: acts) = some c) :
    ∃ r w, r + w = acts.length ∧ Inv c₀ ⟨.read, n⟩ ⟨.write, n⟩ c r w := by
  have hsplit : channel.run c₀ ([.spawn ⟨.read, n⟩, .spawn ⟨.write, n⟩] ++ acts) = some c := hrun
  rw [System.run_append, Option.bind_eq_some_iff] at hsplit
  obtain ⟨c₁, hstart, hrest⟩ := hsplit
  have hne : (⟨.read, n⟩ : Caller) ≠ ⟨.write, n⟩ := by
    intro heq
    cases heq
  obtain ⟨r, w, hsum, h⟩ := inv_run hne acts (inv_start rfl rfl hshm hsem hstart) hacts hrest
  exact ⟨r, w, hsum.trans (Nat.zero_add _), h⟩

/-- Between two rounds no object is under the key. -/
theorem Rounds.clean (h : Rounds c n) :
    c.shared.shm theKey = none ∧ c.shared.sem theKey = none := by
  induction h with
  | zero => exact ⟨rfl, rfl⟩
  | succ h hacts hlen hrun ih =>
    obtain ⟨r, w, hsum, hinv⟩ := inv_of_run ih.1 ih.2 hacts hrun
    have hr : r ≤ 9 := hinv.reads.le fun op => lt_of_readOp
    have hw : w ≤ 8 := hinv.writes.le fun op => lt_of_writeOp
    have hshm := hinv.round.shm
    have hsem := hinv.round.sem
    rw [if_neg (by omega)] at hshm hsem
    exact ⟨hshm, hsem⟩

/-- **Rounds of one reader and one writer.**  After any number of rounds, and whatever the
order of the operations in the next one:

as long as the two have not performed 17 operations, one of them can go on, and they never perform
more; the reader has then returned the message and the writer has returned, no object is under the
key, the segment of the round is destroyed and its semaphore removed. -/
theorem rounds_complete (h : Rounds c₀ n)
    (hacts : ∀ a ∈ acts, a = .step ⟨.read, n⟩ () ∨ a = .step ⟨.write, n⟩ ())
    (hrun : channel.run c₀ (.spawn ⟨.read, n⟩ :: .spawn ⟨.write, n⟩ :: acts) = some c) :
    acts.length ≤ 17 ∧
    (acts.length < 17 → ∃ k ∈ [(⟨.read, n⟩ : Caller), ⟨.write, n⟩],
      (channel.step c (.step k ())).isSome) ∧
    (acts.length = 17 →
      (∃ L, c.log = c₀.log ++ L ∧
        (L.map ending).Perm [(⟨.read, n⟩, .read message), (⟨.write, n⟩, .wrote)]) ∧
      c.shared.shm theKey = none ∧ c.shared.sem theKey = none ∧
      (c.shared.segs c₀.shared.nextShm).destroyed = true ∧
      (c.shared.sems c₀.shared.nextSem).removed = true) := by
  obtain ⟨hshm, hsem⟩ := h.clean
  obtain ⟨r, w, hsum, hinv⟩ := inv_of_run hshm hsem hacts hrun
  have hr : r ≤ 9 := hinv.reads.le fun op => lt_of_readOp
  have hw : w ≤ 8 := hinv.writes.le fun op => lt_of_writeOp
  refine ⟨by omega, fun hlt => hinv.enabled (by omega), fun hlen => ?_⟩
  obtain ⟨rfl, rfl⟩ : r = 9 ∧ w = 8 := by omega
  refine ⟨hinv.log, hinv.round.shm, hinv.round.sem, ?_, ?_⟩
  · rw [hinv.round.segs (Or.inl (by decide))]
    rfl
  · rw [hinv.round.sems (Or.inl (by decide))]
    rfl

/-- The reader comes first and waits; it removes the objects while the writer has the
segment attached. -/
def exampleRound : List (Act Caller Unit Empty Caller) :=
  List.replicate 3 (.step ⟨.read, 0⟩ ()) ++ (List.replicate 7 (.step ⟨.write, 0⟩ ()) ++
    (List.replicate 6 (.step ⟨.read, 0⟩ ()) ++ [.step ⟨.write, 0⟩ ()]))

theorem rounds_complete_example :
    ∃ c, channel.run (channel.init .boot)
        (.spawn ⟨.read, 0⟩ :: .spawn ⟨.write, 0⟩ :: exampleRound) = some c ∧
      c.shared.shm theKey = none ∧ c.shared.sem theKey = none ∧
      (c.shared.segs 0).destroyed = true := by
  have hsome : (channel.run (channel.init .boot)
      (.spawn ⟨.read, 0⟩ :: .spawn ⟨.write, 0⟩ :: exampleRound)).isSome = true := by decide +kernel
  have hacts : ∀ a ∈ exampleRound, a = .step ⟨.read, 0⟩ () ∨ a = .step ⟨.write, 0⟩ () := by
    simp [exampleRound]
  obtain ⟨c, hc⟩ := Option.isSome_iff_exists.mp hsome
  obtain ⟨-, hshm, hsem, hdestroyed, -⟩ := (rounds_complete .zero hacts hc).2.2 rfl
  exact ⟨c, hc, hshm, hsem, hdestroyed⟩

end Rounds

end NetworkAnalyse.Shm
