import NetworkAnalyse.Lib.Bytes
import NetworkAnalyse.Lib.CharArray
import NetworkAnalyse.Lib.DataSection
import NetworkAnalyse.Lib.Prog
import NetworkAnalyse.Utils.Clock

/-!
# The client

`service/client.cpp`, and `generateRandomString` of `utils.cpp`.  The client connects, draws
a message of 3000 letters and digits, copies it into a buffer of 4096 bytes and writes as
many bytes as `strlen` finds there.

* `Seen`: what has been drawn and written, read off the calls so far.
* `ok_main`: the client writes once, and it writes the message that it has drawn.
* `Seen.Proper`: what follows for the calls so far, at any time.
-/

namespace NetworkAnalyse.Client

open Lib Utils

/-! ### The program -/

/-- `characters`, the letters and digits. -/
def characters : List UInt8 :=
  cstr "abcdefghijklmnopqrstuvwxyzABCDEFGHIJKLMNOPQRSTUVWXYZ0123456789"

theorem characters_pos : 0 < characters.length := by decide +kernel

/-- `length` in `generateRandomString`. -/
abbrev messageLength : Nat := 3000

/-- `sizeof(buffer)`. -/
abbrev bufferSize : Nat := 4096

def portno : UInt16 := 9999

inductive Op
  | getpid
  | cout (text : String)
  | fprintf (text : String)
  | perror (msg : String)
  | socket
  | setsockopt (sockfd : Int)
  | gethostbyname (name : String)
  | connect (sockfd : Int) (sinPort : UInt16)
  | distribution
  | write (sockfd : Int) (bytes : List UInt8)
  | clocks
  | close (sockfd : Int)
  | sleep (seconds : Nat)

/-- `gethostbyname` is answered by whether it gives a pointer, and `distribution(engine)` by
any index into `characters`. -/
@[reducible] def Op.Res : Op → Type
  | getpid => Int
  | cout _ => Unit
  | fprintf _ => Unit
  | perror _ => Unit
  | socket => Int
  | setsockopt _ => Int
  | gethostbyname _ => Bool
  | connect _ _ => Int
  | distribution => Fin characters.length
  | write _ _ => Int
  | clocks => Clocks
  | close _ => Int
  | sleep _ => Unit

abbrev Program (α : Type) := Prog Op Op.Res α

def Op.call (op : Op) : Program op.Res := .perform op

/-- The loop of `generateRandomString`, with `n` passes to go. -/
def generateLoop : (n : Nat) → (randomString : List UInt8) → Program (List UInt8)
  | 0, randomString => return randomString
  | n + 1, randomString => do
    let i ← Op.distribution.call
    generateLoop n (randomString ++ [characters.get i])

def generateRandomString : Program (List UInt8) := generateLoop messageLength []

/-- `c_str` as a function sees it that reads up to the terminating zero. -/
def cStr (s : List UInt8) : CString :=
  ⟨s.takeWhile (· ≠ 0), fun h => by simpa using List.mem_takeWhile_imp h⟩

/-- `error`: the process exits with status 1. -/
def error (msg : String) : Program Int := do
  (Op.perror msg).call
  return 1

/-- `main` once it has its message. -/
def send (sockfd : Int) (message : List UInt8) : Program Int := do
  let buffer := CharArray.strncpy bufferSize (cStr message)
  let n ← (Op.write sockfd buffer.text).call
  if n < 0 then
    return ← error "ERROR writing to socket"
  let curEpochTime := (getSysStartTimestampUs (← Op.clocks.call)).toInt64
  (Op.cout ("cur epoch_time: " ++ toString curEpochTime.toInt ++ "\n")).call
  let _ ← (Op.close sockfd).call
  (Op.sleep 5).call
  (Op.cout "exit\n").call
  return 0

/-- `main`, up to its exit status. -/
def main : Program Int := do
  let pid ← Op.getpid.call
  (Op.cout ("current PID is: " ++ toString pid ++ "\n")).call
  let sockfd ← Op.socket.call
  if sockfd < 0 then
    return ← error "ERROR opening socket"
  if (← (Op.setsockopt sockfd).call) < 0 then
    return ← error "ERROR setting SO_TIMESTAMP"
  if !(← (Op.gethostbyname "localhost").call) then
    (Op.fprintf "ERROR, no such host\n").call
    return 0
  if (← (Op.connect sockfd (Bytes.bswap16 portno)).call) < 0 then
    return ← error "ERROR connecting"
  let message ← generateRandomString
  send sockfd message

/-! ### What it writes -/

/-- What matters of the calls so far. -/
structure Seen where
  drawn : List UInt8 := []
  /-- what `write` has taken -/
  written : List UInt8 := []
  deriving DecidableEq, Repr

namespace Seen

def after (v : Seen) : (op : Op) → op.Res → Seen
  | .distribution, i => { v with drawn := v.drawn ++ [characters.get i] }
  | .write _ bytes, n => { v with written := v.written ++ bytes.take n.toNat }
  | _, _ => v

def ofTrace (tr : Trace Op Op.Res) : Seen := tr.foldl (fun v x => v.after x.1 x.2) {}

theorem ofTrace_snoc (tr : Trace Op Op.Res) (op : Op) (r : op.Res) :
    ofTrace (tr ++ [⟨op, r⟩]) = (ofTrace tr).after op r := by
  rw [ofTrace, List.foldl_append]
  rfl

/-- The client draws before it writes, and writes what it has drawn. -/
def Can : Op → Seen → Prop
  | .distribution, v => v.written = [] ∧ v.drawn.length < messageLength
  | .write _ bytes, v => v.written = [] ∧ v.drawn.length = messageLength ∧ bytes = v.drawn
  | _, _ => True

def Next (op : Op) (v : Seen) (r : op.Res) (v' : Seen) : Prop := v' = v.after op r

/-- What has been written is the message, as far as `write` has taken it. -/
structure Proper (v : Seen) : Prop where
  length_le : v.drawn.length ≤ messageLength
  letters : ∀ b ∈ v.drawn, b ∈ characters
  sent : v.written <+: v.drawn
  whole : v.written ≠ [] → v.drawn.length = messageLength

theorem proper_nil : Proper {} where
  length_le := Nat.zero_le _
  letters _ h := absurd h List.not_mem_nil
  sent := List.prefix_rfl
  whole h := absurd rfl h

theorem Proper.after {v : Seen} (h : v.Proper) {op : Op} (hcan : Can op v) (r : op.Res) :
    (v.after op r).Proper := by
  cases op with
  | distribution =>
    obtain ⟨hnone, hlen⟩ := hcan
    constructor
    · show (v.drawn ++ [_]).length ≤ messageLength
      rw [List.length_append]
      exact hlen
    · intro b hb
      rcases List.mem_append.mp hb with hb | hb
      · exact h.letters b hb
      · rw [List.mem_singleton.mp hb]
        exact List.get_mem characters r
    · exact h.sent.trans (List.prefix_append _ _)
    · intro hne
      exact absurd hnone hne
  | write sockfd bytes =>
    obtain ⟨hnone, hlen, rfl⟩ := hcan
    refine ⟨h.length_le, h.letters, ?_, fun _ => hlen⟩
    show v.written ++ v.drawn.take _ <+: v.drawn
    rw [hnone, List.nil_append]
    exact List.take_prefix _ _
  | _ => exact h

/-- A message has no zeros. -/
theorem Proper.nonzero {v : Seen} (h : v.Proper) {b : UInt8} (hb : b ∈ v.drawn) : b ≠ 0 := by
  have hall : ∀ b ∈ characters, b ≠ 0 := by decide +kernel
  exact hall b (h.letters b hb)

end Seen

/-! ### The program is proper -/

section Proofs

open Seen

variable {tr : Trace Op Op.Res} {v : Seen}

/-- The copy in the buffer is the whole message and is terminated, so `strlen` stays inside
the buffer. -/
theorem holds_buffer {message : List UInt8} (hlen : message.length = messageLength)
    (hne : ∀ b ∈ message, b ≠ 0) :
    (CharArray.strncpy bufferSize (cStr message)).Holds (cStr message) ∧
      (cStr message).1 = message := by
  have hcstr : (cStr message).1 = message :=
    List.takeWhile_eq_self_iff.mpr fun b hb => by simpa using hne b hb
  refine ⟨CharArray.holds_strncpy_iff.mpr ?_, hcstr⟩
  rw [hcstr, hlen]
  decide

theorem ok_generateLoop (n : Nat) :
    ∀ {tr : Trace Op Op.Res} {v : Seen}, v.Proper → v.written = [] →
      v.drawn.length + n = messageLength →
      (generateLoop n v.drawn).Ok Can Next (fun _ message v' => v'.Proper ∧ v'.written = [] ∧
        message = v'.drawn ∧ v'.drawn.length = messageLength) tr v := by
  induction n with
  | zero =>
    intro tr v hv hnone hlen
    exact ⟨hv, hnone, rfl, hlen⟩
  | succ n ih =>
    intro tr v hv hnone hlen
    have hcan : Can .distribution v := ⟨hnone, by omega⟩
    refine ⟨hcan, fun i v' hv' => ?_⟩
    obtain rfl : v' = v.after .distribution i := hv'
    refine ih (hv.after hcan i) hnone ?_
    show (v.drawn ++ [_]).length + n = messageLength
    rw [List.length_append, List.length_singleton]
    omega

theorem ok_error (msg : String) :
    (error msg).Ok Can Next (fun _ _ _ => True) tr v := by
  refine Prog.ok_call_of_eq trivial (fun _ => rfl) fun _ => ?_
  exact trivial

/-- There is one `write`, and it is given the whole message. -/
theorem ok_send (sockfd : Int) (hv : v.Proper) (hnone : v.written = [])
    (hlen : v.drawn.length = messageLength) :
    (send sockfd v.drawn).Ok Can Next (fun _ _ _ => True) tr v := by
  obtain ⟨⟨-, htext⟩, hcstr⟩ := holds_buffer hlen fun b hb => hv.nonzero hb
  unfold send
  simp only [Op.call, Prog.perform_bind]
  refine ⟨⟨hnone, hlen, htext.trans hcstr⟩, fun n v' _ => ?_⟩
  dsimp only
  split
  · exact ok_error _
  refine Prog.ok_call_of_eq trivial (fun _ => rfl) fun _ => ?_
  refine Prog.ok_call_of_eq trivial (fun _ => rfl) fun _ => ?_
  refine Prog.ok_call_of_eq trivial (fun _ => rfl) fun _ => ?_
  refine Prog.ok_call_of_eq trivial (fun _ => rfl) fun _ => ?_
  refine Prog.ok_call_of_eq trivial (fun _ => rfl) fun _ => ?_
  exact trivial

/-- The client draws a message, and writes the message that it has drawn. -/
theorem ok_main : main.Ok Can Next (fun _ _ _ => True) [] {} := by
  unfold main
  simp only [Op.call, Prog.perform_bind]
  refine Prog.ok_call_of_eq trivial (fun _ => rfl) fun pid => ?_
  refine Prog.ok_call_of_eq trivial (fun _ => rfl) fun _ => ?_
  refine Prog.ok_call_of_eq trivial (fun _ => rfl) fun sockfd => ?_
  split
  · exact ok_error _
  refine Prog.ok_call_of_eq trivial (fun _ => rfl) fun err => ?_
  split
  · exact ok_error _
  refine Prog.ok_call_of_eq trivial (fun _ => rfl) fun server => ?_
  split
  · refine Prog.ok_call_of_eq trivial (fun _ => rfl) fun _ => ?_
    exact trivial
  refine Prog.ok_call_of_eq trivial (fun _ => rfl) fun err => ?_
  split
  · exact ok_error _
  rw [Prog.ok_bind]
  refine (ok_generateLoop messageLength proper_nil rfl rfl).mono id id ?_
  rintro tr message v ⟨hv, hnone, rfl, hlen⟩
  exact ok_send sockfd hv hnone hlen

end Proofs

end NetworkAnalyse.Client
