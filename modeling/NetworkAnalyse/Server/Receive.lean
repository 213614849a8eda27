import Mathlib.Data.List.TakeWhile
import NetworkAnalyse.Server.Ownership

/-!
# The receive buffer

A worker clears its `buffer`, has `recvmsg` fill it, stores a zero after the bytes it
got and prints the buffer as a string.  `recvmsg` may fill all `BUFFER_SIZE` bytes, and
the zero is then stored behind the buffer.

* `Part`: what a worker's steps are about; the other workers leave it alone.
* `Books`: what a worker has written and printed, for the chunks it has read.
* `buffer_ok_iff`: when every write is inside the buffer and the lines printed for a
  connection are its stream.
-/

namespace NetworkAnalyse.Server

open Lib

/-- The part of the state that is about one worker. -/
structure Part where
  stack : DataSection
  source : Option ConnId
  touches : List Touch
  writes : List Write
  lines : List Line

def State.part (s : State) (w : Worker) : Part where
  stack := s.stack w
  source := s.source w
  touches := s.touches.filter (·.worker = w)
  writes := s.writes.filter (·.worker = w)
  lines := s.lines.filter (·.worker = w)

/-- The write is inside the buffer. -/
def Write.InBounds (wr : Write) : Prop := wr.start + wr.length ≤ bufferSize

instance (wr : Write) : Decidable wr.InBounds := inferInstanceAs (Decidable (_ ≤ _))

/-- The chunk that a worker has read and not printed, and whether the zero is stored. -/
inductive Phase
  | idle
  | got (k : ConnId) (chunk : List UInt8)
  | stored (k : ConnId) (chunk : List UInt8)

/-- What is shown of a chunk: the bytes before the first zero. -/
def shown (chunk : List UInt8) : List UInt8 := chunk.takeWhile (· ≠ 0)

/-- The line that is yet to be printed. -/
def Phase.due : Phase → List (Option ConnId × List UInt8)
  | idle => []
  | got k chunk => [(some k, shown chunk)]
  | stored k chunk => [(some k, shown chunk)]

/-- How the chunk lies in memory. -/
def Phase.InMemory (p : Part) : Phase → Prop
  | idle => True
  | got k chunk => p.source = some k ∧ (∃ t ∈ p.touches, t.bytes = chunk) ∧
      ∃ x rest, p.stack.bytes = chunk ++ x :: rest
  | stored k chunk => p.source = some k ∧ ∃ rest, p.stack.bytes = chunk ++ 0 :: rest

/-- **The books of a worker.** -/
structure Books (p : Part) (v : Phase) : Prop where
  room : bufferSize < p.stack.bytes.length
  printed : p.lines.map (fun l => (l.conn, l.text)) ++ v.due =
    (p.touches.filter (·.bytes ≠ [])).map (fun t => (t.conn, shown t.bytes))
  bounds : ∀ wr ∈ p.writes, wr.InBounds ∨ ∃ t ∈ p.touches, t.bytes.length = bufferSize
  length_le : ∀ t ∈ p.touches, t.bytes.length ≤ bufferSize
  overrun : (∃ t ∈ p.touches, t.bytes.length = bufferSize) →
    (∃ wr ∈ p.writes, ¬ wr.InBounds) ∨ ∃ k chunk, v = .got k chunk ∧ chunk.length = bufferSize
  memory : v.InMemory p

/-! ### Memory -/

theorem length_fillBuffer {d : DataSection} {bytes : List UInt8}
    (h : bytes.length ≤ d.bytes.length) : (fillBuffer d bytes).bytes.length = d.bytes.length := by
  rw [fillBuffer, List.length_append, List.length_drop]
  omega

/-- There is a byte behind the bytes that `recvmsg` has put into the buffer. -/
theorem exists_fillBuffer {d : DataSection} {bytes : List UInt8}
    (h : bytes.length < d.bytes.length) :
    ∃ x rest, (fillBuffer d bytes).bytes = bytes ++ x :: rest :=
  ⟨_, _, congrArg (bytes ++ ·) (List.drop_eq_getElem_cons h)⟩

theorem store_end {d : DataSection} {chunk rest : List UInt8} {x : UInt8}
    (h : d.bytes = chunk ++ x :: rest) : (d.store chunk.length 0).bytes = chunk ++ 0 :: rest := by
  rw [DataSection.store, h, List.set_append_right _ _ (Nat.le_refl _), Nat.sub_self,
    List.set_cons_zero]

theorem shown_append_zero (chunk rest : List UInt8) :
    (chunk ++ 0 :: rest).takeWhile (· ≠ 0) = shown chunk := by
  induction chunk with
  | nil => rfl
  | cons b chunk ih =>
    rw [shown, List.cons_append, List.takeWhile_cons, List.takeWhile_cons, ih]
    rfl

theorem shown_of_nonzero {chunk : List UInt8} (h : ∀ b ∈ chunk, b ≠ 0) : shown chunk = chunk :=
  List.takeWhile_eq_self_iff.mpr fun b hb => by simpa using h b hb

/-! ### Steps on the books -/

section Steps

variable {s s' : State} {w : Worker} {v : Phase}

/-- A worker's own entry at the end of a log. -/
theorem filter_snoc_self {α : Type} {f : α → Worker} {x : α} (l : List α) (h : f x = w) :
    (l ++ [x]).filter (f · = w) = l.filter (f · = w) ++ [x] := by
  rw [List.filter_append, List.filter_cons_of_pos (by simpa using h), List.filter_nil]

/-- Writes inside the buffer and touches without bytes change nothing that matters. -/
theorem Books.quiet {p p' : Part} (h : Books p .idle) (ts : List Touch) (ws : List Write)
    (hroom : bufferSize < p'.stack.bytes.length) (htouches : p'.touches = p.touches ++ ts)
    (hts : ∀ t ∈ ts, t.bytes = []) (hwrites : p'.writes = p.writes ++ ws)
    (hws : ∀ wr ∈ ws, wr.InBounds) (hlines : p'.lines = p.lines) : Books p' .idle := by
  have hfull : (∃ t ∈ p'.touches, t.bytes.length = bufferSize) →
      ∃ t ∈ p.touches, t.bytes.length = bufferSize := by
    rintro ⟨t, hmem, hlen⟩
    rw [htouches] at hmem
    rcases List.mem_append.mp hmem with hmem | hmem
    · exact ⟨t, hmem, hlen⟩
    · rw [hts t hmem] at hlen
      cases hlen
  refine ⟨hroom, ?_, fun wr hmem => ?_, fun t hmem => ?_, fun hex => ?_, trivial⟩
  · have hnil : ts.filter (·.bytes ≠ []) = [] :=
      List.filter_eq_nil_iff.mpr fun t ht => by simpa using hts t ht
    rw [hlines, htouches, List.filter_append, hnil, List.append_nil]
    exact h.printed
  · rw [hwrites] at hmem
    rcases List.mem_append.mp hmem with hmem | hmem
    · rcases h.bounds wr hmem with hin | ⟨t, ht, hlen⟩
      · exact Or.inl hin
      · exact Or.inr ⟨t, htouches ▸ List.mem_append_left _ ht, hlen⟩
    · exact Or.inl (hws wr hmem)
  · rw [htouches] at hmem
    rcases List.mem_append.mp hmem with hmem | hmem
    · exact h.length_le t hmem
    · rw [hts t hmem]
      exact Nat.zero_le _
  · rcases h.overrun (hfull hex) with ⟨wr, hmem, hout⟩ | ⟨k, chunk, hv, -⟩
    · exact Or.inl ⟨wr, hwrites ▸ List.mem_append_left _ hmem, hout⟩
    · cases hv

/-- A `recvmsg` with data. -/
theorem Books.got {p p' : Part} (h : Books p .idle) {t : Touch} {k : ConnId}
    (hconn : t.conn = some k) (hne : t.bytes ≠ []) (hlen : t.bytes.length ≤ bufferSize) {wr : Write}
    (hwr : wr.InBounds) (hstack : p'.stack = fillBuffer p.stack t.bytes)
    (hsource : p'.source = some k) (htouches : p'.touches = p.touches ++ [t])
    (hwrites : p'.writes = p.writes ++ [wr]) (hlines : p'.lines = p.lines) :
    Books p' (.got k t.bytes) := by
  have hroom := h.room
  obtain ⟨stack, source, touches, writes, lines⟩ := p'
  cases hstack
  cases hsource
  cases htouches
  cases hwrites
  cases hlines
  refine ⟨?_, ?_, fun wr' hmem => ?_, fun t' hmem => ?_, fun hex => ?_, rfl,
    ⟨t, List.mem_append_right _ (List.mem_singleton.mpr rfl), rfl⟩, exists_fillBuffer (by omega)⟩
  · show bufferSize < (fillBuffer p.stack t.bytes).bytes.length
    rw [length_fillBuffer (by omega)]
    exact hroom
  · show _ ++ [(some k, shown t.bytes)] = ((p.touches ++ [t]).filter _).map _
    rw [List.filter_append, List.map_append, ← h.printed, Phase.due, List.append_nil,
      List.filter_cons_of_pos (by simpa using hne), List.filter_nil, List.map_singleton, hconn]
  · rcases List.mem_append.mp hmem with hmem | hmem
    · rcases h.bounds wr' hmem with hin | ⟨t', ht, hfull⟩
      · exact Or.inl hin
      · exact Or.inr ⟨t', List.mem_append_left _ ht, hfull⟩
    · rw [List.mem_singleton.mp hmem]
      exact Or.inl hwr
  · rcases List.mem_append.mp hmem with hmem | hmem
    · exact h.length_le t' hmem
    · rw [List.mem_singleton.mp hmem]
      exact hlen
  · obtain ⟨t', hmem, hfull⟩ := hex
    rcases List.mem_append.mp hmem with hmem | hmem
    · rcases h.overrun ⟨t', hmem, hfull⟩ with ⟨wr', hwr', hout⟩ | ⟨k', chunk, hv, -⟩
      · exact Or.inl ⟨wr', List.mem_append_left _ hwr', hout⟩
      · cases hv
    · rw [List.mem_singleton.mp hmem] at hfull
      exact Or.inr ⟨k, t.bytes, rfl, hfull⟩

/-- The terminating zero is inside the buffer unless the chunk fills it. -/
theorem Books.store {p p' : Part} {k : ConnId} {chunk : List UInt8} (h : Books p (.got k chunk))
    (hstack : p'.stack = p.stack.store chunk.length 0) (hsource : p'.source = p.source)
    (htouches : p'.touches = p.touches) (hwrites : p'.writes = p.writes ++ [⟨w, chunk.length, 1⟩])
    (hlines : p'.lines = p.lines) : Books p' (.stored k chunk) := by
  obtain ⟨stack, source, touches, writes, lines⟩ := p'
  cases hstack
  cases hsource
  cases htouches
  cases hwrites
  cases hlines
  obtain ⟨hk, ⟨t, ht, rfl⟩, x, rest, hbytes⟩ := h.memory
  have hlen := h.length_le t ht
  refine ⟨?_, h.printed, fun wr hmem => ?_, h.length_le, fun hex => ?_, hk, rest,
    store_end hbytes⟩
  · show bufferSize < (p.stack.store t.bytes.length 0).bytes.length
    rw [DataSection.length_store]
    exact h.room
  · rcases List.mem_append.mp hmem with hmem | hmem
    · exact h.bounds wr hmem
    · rw [List.mem_singleton.mp hmem]
      by_cases hfull : t.bytes.length = bufferSize
      · exact Or.inr ⟨t, ht, hfull⟩
      · refine Or.inl ?_
        show t.bytes.length + 1 ≤ bufferSize
        omega
  · rcases h.overrun hex with ⟨wr, hmem, hout⟩ | ⟨k', chunk', hv, hfull⟩
    · exact Or.inl ⟨wr, List.mem_append_left _ hmem, hout⟩
    · cases hv
      refine Or.inl ⟨_, List.mem_append_right _ (List.mem_singleton.mpr rfl), ?_⟩
      show ¬ t.bytes.length + 1 ≤ bufferSize
      omega

theorem Books.print {p p' : Part} {k : ConnId} {chunk : List UInt8} (h : Books p (.stored k chunk))
    (hstack : p'.stack = p.stack) (htouches : p'.touches = p.touches)
    (hwrites : p'.writes = p.writes)
    (hlines : p'.lines = p.lines ++ [⟨w, p.source, p.stack.bytes.takeWhile (· ≠ 0)⟩]) :
    Books p' .idle := by
  obtain ⟨stack, source, touches, writes, lines⟩ := p'
  cases hstack
  cases htouches
  cases hwrites
  cases hlines
  obtain ⟨hk, rest, hbytes⟩ := h.memory
  refine ⟨h.room, ?_, h.bounds, h.length_le, fun hex => ?_, trivial⟩
  · show (p.lines ++ [_]).map _ ++ [] = _
    rw [List.append_nil, List.map_append, ← h.printed, hk, hbytes, shown_append_zero]
    rfl
  · rcases h.overrun hex with hwr | ⟨k', chunk', hv, -⟩
    · exact Or.inl hwr
    · cases hv

end Steps

/-! ### The outline -/

namespace Phase

def View (l : Loop) (s : State) (_ : List (Entry Op Op.Res Loop Unit)) (v : Phase) : Prop :=
  match l with
  | .main => True
  | .worker w => Books (s.part w) v

def Idle (_ : Loop) (v : Phase) : Prop := v = idle

def Can : Loop → Op → Phase → Prop
  | .main, .accept, _ => True
  | .main, .epollCtlAdd _ _, _ => True
  | .worker w, .epollWait w', v => w' = w ∧ v = idle
  | .worker w, .memset w', v => w' = w ∧ v = idle
  | .worker w, .recvmsg w' _, v => w' = w ∧ v = idle
  | .worker w, .close w' _, v => w' = w ∧ v = idle
  | .worker w, .store w' i, v => w' = w ∧ ∃ k chunk, v = got k chunk ∧ i = chunk.length
  | .worker w, .print w', v => w' = w ∧ ∃ k chunk, v = stored k chunk
  | _, _, _ => False

def Next (_ : Loop) : (op : Op) → Phase → op.Res → Phase → Prop
  | .recvmsg _ _, _, n, v' =>
    (n ≤ 0 ∧ v' = idle) ∨ ∃ k chunk, n = (chunk.length : Int) ∧ 0 < chunk.length ∧ v' = got k chunk
  | .store _ _, v, _, v' => ∀ k chunk, v = got k chunk → v' = stored k chunk
  | .print _, _, _, v' => v' = idle
  | _, v, _, v' => v' = v

def Done (l : Loop) (_ : Loop) (_ : Trace Op Op.Res) (_ : Unit) (v : Phase) : Prop := Idle l v

theorem ok_handleEvents (w : Worker) (events : List EpollEvent) :
    ∀ tr, (handleEvents w events).Ok (Can (.worker w)) (Next (.worker w))
      (Done (.worker w) (.worker w)) tr idle := by
  induction events with
  | nil =>
    intro tr
    exact rfl
  | cons event events ih =>
    intro tr
    obtain ⟨fd, epollin⟩ := event
    cases epollin with
    | false => exact ih tr
    | true =>
      rw [handleEvents_cons]
      refine ⟨⟨rfl, rfl⟩, fun _ v hv => ?_⟩
      obtain rfl := hv
      refine ⟨⟨rfl, rfl⟩, fun n v hv => ?_⟩
      beta_reduce
      rcases hv with ⟨hn, rfl⟩ | ⟨k, chunk, hn, hpos, rfl⟩
      · rw [if_pos hn]
        refine ⟨⟨rfl, rfl⟩, fun _ v hv => ?_⟩
        obtain rfl := hv
        exact ih _
      · subst hn
        have hn : ¬ (chunk.length : Int) ≤ 0 := by omega
        rw [if_neg hn]
        refine ⟨⟨rfl, k, chunk, rfl, Int.toNat_natCast _⟩, fun _ v hv => ?_⟩
        obtain rfl := hv k chunk rfl
        refine ⟨⟨rfl, k, chunk, rfl⟩, fun _ v hv => ?_⟩
        obtain rfl := hv
        exact ih _

theorem ok_pass (l : Loop) : l.pass.Ok (Can l) (Next l) (Done l l) [] idle := by
  cases l with
  | main =>
    refine ⟨trivial, fun r v hv => ?_⟩
    obtain rfl := hv
    cases r with
    | none => exact rfl
    | some fd => exact ⟨trivial, fun _ v hv => hv⟩
  | worker w =>
    refine ⟨⟨rfl, rfl⟩, fun events v hv => ?_⟩
    obtain rfl := hv
    exact ok_handleEvents w events _

section Views

variable {s s' : State} {v : Phase} {w w' : Worker}

/-- A worker does not touch the part of another one. -/
theorem part_worker {inp : Inp} {op : Op} {r : op.Res} (hw : w' ≠ w) (hcan : Can (.worker w) op v)
    (hexec : exec inp op s = some (r, s')) : s'.part w' = s.part w' := by
  have hw' : w ≠ w' := Ne.symm hw
  cases op with
  | epollWait w₁ =>
    obtain ⟨-, -, rfl⟩ := epollWait_eq hexec
    rfl
  | memset w₁ =>
    obtain ⟨rfl, -⟩ := hcan
    cases hexec
    simp [State.part, hw, hw']
  | recvmsg w₁ fd =>
    obtain ⟨rfl, -⟩ := hcan
    rw [exec, State.recvmsg] at hexec
    dsimp only at hexec
    split at hexec
    · cases hexec
      simp [State.part, hw, hw']
    · rw [Option.map_eq_some_iff] at hexec
      obtain ⟨p, -, heq⟩ := hexec
      cases heq
      simp [State.part, hw, hw']
  | store w₁ i =>
    obtain ⟨rfl, -⟩ := hcan
    cases hexec
    simp [State.part, hw, hw']
  | print w₁ =>
    obtain ⟨rfl, -⟩ := hcan
    cases hexec
    simp [State.part, hw']
  | close w₁ fd =>
    obtain ⟨rfl, -⟩ := hcan
    cases hexec
    simp [State.part, hw']
  | accept => cases hcan
  | epollCtlAdd w₁ fd => cases hcan

/-- `accept` and `epoll_ctl` are no worker's business. -/
theorem part_main {inp : Inp} {op : Op} {r : op.Res} (hcan : Can .main op v)
    (hexec : exec inp op s = some (r, s')) (w : Worker) : s'.part w = s.part w := by
  cases op with
  | accept =>
    rcases State.accept_cases hexec with ⟨-, rfl⟩ | ⟨fd, -, -, rfl⟩
    · rfl
    · rfl
  | epollCtlAdd w₁ fd =>
    rw [exec] at hexec
    split at hexec <;> cases hexec <;> rfl
  | _ => cases hcan

theorem part_peer {e : Peer} (hpeer : peer e s = some s') (w : Worker) : s'.part w = s.part w := by
  obtain ⟨k, sock, -, -, rfl⟩ := peer_eq hpeer
  rfl

/-- The books after a `recvmsg`. -/
theorem books_recvmsg {fd : Fd} {r : Recv} {n : Int} (h : Books (s.part w) idle)
    (hexec : s.recvmsg w fd r = some (n, s')) :
    ∃ v', Next (.worker w) (.recvmsg w fd) idle n v' ∧ Books (s'.part w) v' := by
  rw [State.recvmsg] at hexec
  dsimp only at hexec
  split at hexec
  · cases hexec
    refine ⟨idle, Or.inl ⟨Int.neg_nonpos_of_nonneg Int.one_nonneg, rfl⟩, ?_⟩
    exact h.quiet _ [] h.room (filter_snoc_self _ rfl) (by simp) (List.append_nil _).symm
      (by simp) rfl
  · rename_i k hk
    rw [Option.map_eq_some_iff] at hexec
    obtain ⟨⟨bytes, m⟩, hrecv, heq⟩ := hexec
    cases heq
    obtain ⟨-, hlen, hcase⟩ := Sock.recv_cases hrecv
    have hwr : Write.InBounds ⟨w, 0, bytes.length⟩ := by
      show 0 + bytes.length ≤ bufferSize
      omega
    rcases hcase with ⟨hn, hpos⟩ | ⟨hn, rfl, -⟩
    · refine ⟨got k bytes, Or.inr ⟨k, bytes, hn, hpos, rfl⟩, ?_⟩
      refine h.got (t := ⟨w, fd, s.fds fd, s.named w fd, bytes⟩) hk
        (List.ne_nil_of_length_pos hpos) hlen hwr ?_ ?_ ?_ ?_ rfl
      · exact Function.update_self ..
      · exact Function.update_self ..
      · exact filter_snoc_self _ rfl
      · exact filter_snoc_self _ rfl
    · refine ⟨idle, Or.inl ⟨hn, rfl⟩, h.quiet _ _ ?_ (filter_snoc_self _ rfl) (by simp)
        (filter_snoc_self _ rfl) (by simpa using hwr) rfl⟩
      show bufferSize < (Function.update s.stack w _ w).bytes.length
      rw [Function.update_self]
      exact h.room

theorem view_own {l : Loop} {L : List (Entry Op Op.Res Loop Unit)} {inp : Inp} {op : Op}
    {r : op.Res} (hv : View l s L v) (hcan : Can l op v) (hexec : exec inp op s = some (r, s')) :
    ∃ v', Next l op v r v' ∧ View l s' L v' := by
  cases l with
  | main =>
    cases op with
    | accept => exact ⟨v, rfl, trivial⟩
    | epollCtlAdd w fd => exact ⟨v, rfl, trivial⟩
    | _ => cases hcan
  | worker w =>
    have hv : Books (s.part w) v := hv
    cases op with
    | epollWait w₁ =>
      obtain ⟨-, -, rfl⟩ := epollWait_eq hexec
      exact ⟨v, rfl, hv⟩
    | memset w₁ =>
      obtain ⟨rfl, rfl⟩ := hcan
      cases hexec
      refine ⟨idle, rfl, hv.quiet [] _ ?_ (List.append_nil _).symm (by simp)
        (filter_snoc_self _ rfl) (by simp [Write.InBounds]) rfl⟩
      have hroom : bufferSize < (s.stack w₁).bytes.length := hv.room
      show bufferSize < (Function.update s.stack w₁ _ w₁).bytes.length
      rw [Function.update_self, length_fillBuffer (by rw [List.length_replicate]; omega)]
      exact hroom
    | recvmsg w₁ fd =>
      obtain ⟨rfl, rfl⟩ := hcan
      exact books_recvmsg hv hexec
    | store w₁ i =>
      obtain ⟨rfl, k, chunk, rfl, rfl⟩ := hcan
      cases hexec
      refine ⟨stored k chunk, ?_, ?_⟩
      · intro k' chunk' heq
        cases heq
        rfl
      · exact hv.store (Function.update_self ..) rfl rfl (filter_snoc_self _ rfl) rfl
    | print w₁ =>
      obtain ⟨rfl, k, chunk, rfl⟩ := hcan
      cases hexec
      exact ⟨idle, rfl, hv.print rfl rfl rfl (filter_snoc_self _ rfl)⟩
    | close w₁ fd =>
      obtain ⟨rfl, rfl⟩ := hcan
      cases hexec
      refine ⟨idle, rfl, ?_⟩
      exact hv.quiet _ [] hv.room (filter_snoc_self _ rfl) (by simp) (List.append_nil _).symm
        (by simp) rfl
    | accept => cases hcan
    | epollCtlAdd w₁ fd => cases hcan

theorem view_other {l l' : Loop} {L : List (Entry Op Op.Res Loop Unit)} {inp : Inp} {op : Op}
    {r : op.Res} {v' : Phase} (hk : l' ≠ l) (hcan : Can l op v)
    (hexec : exec inp op s = some (r, s')) (hv' : View l' s L v') : View l' s' L v' := by
  cases l' with
  | main => trivial
  | worker w' =>
    show Books (s'.part w') v'
    cases l with
    | main =>
      rw [part_main hcan hexec w']
      exact hv'
    | worker w =>
      have hw : w' ≠ w := fun h => hk (congrArg Loop.worker h)
      rw [part_worker hw hcan hexec]
      exact hv'

end Views

end Phase

def buffers : Outline server Phase where
  View := Phase.View
  Idle := Phase.Idle
  Can := Phase.Can
  Next := Phase.Next
  Done := Phase.Done
  spawn {l v} hv := by
    obtain rfl : v = .idle := hv
    exact Phase.ok_pass l
  own hv hcan hexec := Phase.view_own hv hcan hexec
  other hk _ hcan hexec hw := Phase.view_other hk hcan hexec hw
  env {k _ _ _ _ _} he hv := by
    cases k with
    | main => trivial
    | worker w =>
      show Books _ _
      rw [Phase.part_peer he w]
      exact hv
  finish {_ _ _ _ _ v} hv hdone := ⟨v, hdone, hv⟩
  finish_other _ hv := hv

/-! ### Every run -/

section Runs

variable {stack : Worker → DataSection} {acts : List (Act Loop Inp Peer Loop)}
  {c : Config Loop Op Op.Res State Loop Unit}

/-- What has been printed for connection `k`, in the order of the lines. -/
def linesOf (k : ConnId) (lines : List Line) : List UInt8 :=
  (lines.filter (·.conn = some k)).flatMap (·.text)

theorem books_boot (hstack : ∀ w, bufferSize < (stack w).bytes.length) (l : Loop) :
    ∃ v, buffers.View l (State.boot stack) [] v ∧ buffers.Idle l v := by
  refine ⟨.idle, ?_, rfl⟩
  cases l with
  | main => trivial
  | worker w =>
    refine ⟨hstack w, rfl, fun _ h => absurd h List.not_mem_nil,
      fun _ h => absurd h List.not_mem_nil, ?_, trivial⟩
    rintro ⟨t, hmem, -⟩
    exact absurd hmem List.not_mem_nil

theorem books_of_run (hstack : ∀ w, bufferSize < (stack w).bytes.length)
    (h : server.run (server.init (State.boot stack)) acts = some c) (w : Worker) :
    ∃ v, Books (c.shared.part w) v ∧ (c.running (.worker w) = none → v = .idle) := by
  obtain ⟨v, hv, hhere⟩ := buffers.holds_run (books_boot hstack) h (.worker w)
  refine ⟨v, hv, fun hnone => ?_⟩
  rw [hnone] at hhere
  exact hhere

/-- The bytes of the pairs that belong to connection `k`. -/
def pick (k : ConnId) (l : List (Option ConnId × List UInt8)) : List UInt8 :=
  (l.filter (·.1 = some k)).flatMap (·.2)

theorem linesOf_eq_pick (k : ConnId) (l : List Line) :
    linesOf k l = pick k (l.map fun l => (l.conn, l.text)) := by
  rw [linesOf, pick, List.filter_map, List.flatMap_map]
  rfl

theorem pick_cons (k : ConnId) (x : Option ConnId × List UInt8)
    (l : List (Option ConnId × List UInt8)) :
    pick k (x :: l) = (if x.1 = some k then x.2 else []) ++ pick k l := by
  rw [pick]
  by_cases h : x.1 = some k <;> simp [h, pick]

theorem readsOf_cons (k : ConnId) (t : Touch) (l : List Touch) :
    readsOf k (t :: l) = (if t.conn = some k then t.bytes else []) ++ readsOf k l := by
  rw [readsOf]
  by_cases h : t.conn = some k <;> simp [h, readsOf]

theorem pick_shown {k : ConnId} {l : List Touch}
    (h : ∀ t ∈ l, t.conn = some k → ∀ b ∈ t.bytes, b ≠ 0) :
    pick k ((l.filter (·.bytes ≠ [])).map fun t => (t.conn, shown t.bytes)) = readsOf k l := by
  induction l with
  | nil => rfl
  | cons t l ih =>
    obtain ⟨ht, hl⟩ := List.forall_mem_cons.mp h
    rw [readsOf_cons]
    by_cases hnil : t.bytes = []
    · rw [List.filter_cons_of_neg (by simpa using hnil), ih hl, hnil, ite_self, List.nil_append]
    · rw [List.filter_cons_of_pos (by simpa using hnil), List.map_cons, pick_cons, ih hl]
      by_cases hk : t.conn = some k
      · rw [if_pos hk, if_pos hk, shown_of_nonzero (ht hk)]
      · rw [if_neg hk, if_neg hk]

/-- A log restricted to the owner of a connection has all that is about the connection. -/
theorem filter_owner {α : Type} {l : List α} {w : Worker} {f : α → Worker} {p : α → Prop}
    [DecidablePred p] (h : ∀ x ∈ l, p x → f x = w) :
    (l.filter (f · = w)).filter (p ·) = l.filter (p ·) := by
  rw [List.filter_filter]
  refine List.filter_congr fun x hx => ?_
  by_cases hp : p x
  · simp [hp, h x hx hp]
  · simp [hp]

theorem Table.worker_eq {s : State} (ht : Table s) {t : Touch} {k : ConnId} (hmem : t ∈ s.touches)
    (hconn : t.conn = some k) : t.worker = owner (s.socks k).home := by
  obtain ⟨j, hj, -, hw, -, hhome⟩ := ht.touched t hmem
  obtain rfl := Option.some.inj (hj.symm.trans hconn)
  rw [hhome]
  exact hw

/-- A line about a connection was printed by its owner. -/
theorem line_worker_eq (hstack : ∀ w, bufferSize < (stack w).bytes.length)
    (h : server.run (server.init (State.boot stack)) acts = some c) {k : ConnId} {l : Line}
    (hmem : l ∈ c.shared.lines) (hconn : l.conn = some k) :
    l.worker = owner (c.shared.socks k).home := by
  obtain ⟨v, hb, -⟩ := books_of_run hstack h l.worker
  have hline : (l.conn, l.text) ∈ (c.shared.part l.worker).lines.map (fun l => (l.conn, l.text)) :=
    List.mem_map_of_mem (List.mem_filter.mpr ⟨hmem, by simp⟩)
  have hread := List.mem_append_left v.due hline
  rw [hb.printed] at hread
  obtain ⟨t, ht, heq⟩ := List.mem_map.mp hread
  have htouch := List.mem_of_mem_filter ht
  obtain ⟨hin, hw⟩ := List.mem_filter.mp htouch
  have hconn' : t.conn = some k := (congrArg Prod.fst heq).trans hconn
  rw [← (table_of_run h).worker_eq hin hconn']
  exact (of_decide_eq_true hw).symm

/-- Between passes, what has been printed for a connection is what has been read. -/
theorem linesOf_eq_readsOf (hstack : ∀ w, bufferSize < (stack w).bytes.length)
    (h : server.run (server.init (State.boot stack)) acts = some c)
    (hidle : ∀ w, c.running (.worker w) = none) {k : ConnId}
    (hk : ∀ b ∈ (c.shared.socks k).arrived, b ≠ 0) :
    linesOf k c.shared.lines = readsOf k c.shared.touches := by
  have ht := table_of_run h
  obtain ⟨v, hb, hv⟩ := books_of_run hstack h (owner (c.shared.socks k).home)
  have hprinted := hb.printed
  rw [hv (hidle _), Phase.due, List.append_nil] at hprinted
  have hlines : linesOf k (c.shared.part (owner (c.shared.socks k).home)).lines =
      linesOf k c.shared.lines :=
    congrArg (List.flatMap fun l : Line => l.text)
      (filter_owner (p := fun l : Line => l.conn = some k)
        fun l hl hconn => line_worker_eq hstack h hl hconn)
  have hreads : readsOf k (c.shared.part (owner (c.shared.socks k).home)).touches =
      readsOf k c.shared.touches :=
    congrArg (List.flatMap fun t : Touch => t.bytes)
      (filter_owner (p := fun t : Touch => t.conn = some k)
        fun t hmem hconn => ht.worker_eq hmem hconn)
  rw [← hlines, linesOf_eq_pick, hprinted, pick_shown, hreads]
  intro t hmem hconn b hbyte
  refine hk b ?_
  rw [← ht.streams k]
  refine List.mem_append_left _ (List.mem_flatMap.mpr ⟨t, List.mem_filter.mpr ⟨?_, ?_⟩, hbyte⟩)
  · exact List.mem_of_mem_filter hmem
  · simpa using hconn

/-- **The receive buffer.**  In every run, whatever the interleaving and the chunks,
as long as no chunk fills the buffer every write is inside it.  When no worker is in a
pass, every write so far was inside the buffer and the lines printed for each
connection without zeros are its stream, up to what has not been read yet, if and only
if no chunk filled the buffer. -/
theorem buffer_ok_iff (hstack : ∀ w, bufferSize < (stack w).bytes.length)
    (h : server.run (server.init (State.boot stack)) acts = some c) :
    ((∀ t ∈ c.shared.touches, t.bytes.length < bufferSize) →
      ∀ wr ∈ c.shared.writes, wr.InBounds) ∧
    ((∀ w, c.running (.worker w) = none) →
      (((∀ wr ∈ c.shared.writes, wr.InBounds) ∧
          ∀ k, (∀ b ∈ (c.shared.socks k).arrived, b ≠ 0) →
            linesOf k c.shared.lines ++ (c.shared.socks k).buffer = (c.shared.socks k).arrived) ↔
        ∀ t ∈ c.shared.touches, t.bytes.length < bufferSize)) := by
  have hbounds : (∀ t ∈ c.shared.touches, t.bytes.length < bufferSize) →
      ∀ wr ∈ c.shared.writes, wr.InBounds := by
    intro hshort wr hmem
    obtain ⟨v, hb, -⟩ := books_of_run hstack h wr.worker
    rcases hb.bounds wr (List.mem_filter.mpr ⟨hmem, by simp⟩) with hin | ⟨t, ht, hfull⟩
    · exact hin
    · exact absurd hfull (Nat.ne_of_lt (hshort t (List.mem_of_mem_filter ht)))
  refine ⟨hbounds, fun hidle => ⟨?_, fun hshort => ⟨hbounds hshort, fun k hk => ?_⟩⟩⟩
  · rintro ⟨hin, -⟩ t hmem
    obtain ⟨v, hb, hv⟩ := books_of_run hstack h t.worker
    have hpart : t ∈ (c.shared.part t.worker).touches := List.mem_filter.mpr ⟨hmem, by simp⟩
    refine Nat.lt_of_le_of_ne (hb.length_le t hpart) fun hfull => ?_
    rcases hb.overrun ⟨t, hpart, hfull⟩ with ⟨wr, hwr, hout⟩ | ⟨k, chunk, hgot, -⟩
    · exact hout (hin wr (List.mem_of_mem_filter hwr))
    · rw [hv (hidle _)] at hgot
      cases hgot
  · rw [linesOf_eq_readsOf hstack h hidle hk]
    exact (table_of_run h).streams k

end Runs

/-- A worker's memory with some bytes behind the buffer. -/
def exampleStack (_ : Worker) : DataSection := ⟨List.replicate 5000 1⟩

theorem room_exampleStack (w : Worker) : bufferSize < (exampleStack w).bytes.length := by
  rw [exampleStack, List.length_replicate]
  decide

theorem buffer_ok_iff_example :
    ∃ c, server.run (server.init (State.boot exampleStack)) exampleActs = some c ∧
      (∀ w, c.running (.worker w) = none) ∧
      (((∀ wr ∈ c.shared.writes, wr.InBounds) ∧
          ∀ k, (∀ b ∈ (c.shared.socks k).arrived, b ≠ 0) →
            linesOf k c.shared.lines ++ (c.shared.socks k).buffer = (c.shared.socks k).arrived) ↔
        ∀ t ∈ c.shared.touches, t.bytes.length < bufferSize) := by
  have h : (server.run (server.init (State.boot exampleStack)) exampleActs).map (fun c =>
      decide (∀ w, (c.running (.worker w)).isNone = true)) = some true := by
    decide +kernel
  obtain ⟨c, hc, he⟩ := Option.map_eq_some_iff.mp h
  have hidle : ∀ w, c.running (.worker w) = none := by
    intro w
    exact Option.isNone_iff_eq_none.mp (of_decide_eq_true he w)
  exact ⟨c, hc, hidle, (buffer_ok_iff room_exampleStack hc).2 hidle⟩

/-- A client sends as many bytes as the buffer has, and `recvmsg` takes them all. -/
def fullActs : List (Act Loop Inp Peer Loop) :=
  let w : Loop := .worker (owner 5)
  [.spawn .main, .step .main { accepted := some 5 }, .step .main {},
    .env (.sends 5 (List.replicate bufferSize 97)), .spawn w, .step w { events := [⟨5, true⟩] },
    .step w {}, .step w { received := .data bufferSize }, .step w {}, .step w {}]

/-- **The zero behind the buffer.**  A chunk that fills the buffer has its terminating
zero stored at `buffer[BUFFER_SIZE]`. -/
theorem buffer_overrun :
    ∃ c, server.run (server.init (State.boot exampleStack)) fullActs = some c ∧
      (∀ w, c.running (.worker w) = none) ∧ c.shared.touches.map (·.bytes.length) = [bufferSize] ∧
      (⟨1, bufferSize, 1⟩ : Write) ∈ c.shared.writes ∧
      ¬ (⟨1, bufferSize, 1⟩ : Write).InBounds := by
  have h : (server.run (server.init (State.boot exampleStack)) fullActs).map (fun c =>
      decide ((∀ w, (c.running (.worker w)).isNone = true) ∧
        c.shared.touches.map (·.bytes.length) = [bufferSize] ∧
        (⟨1, bufferSize, 1⟩ : Write) ∈ c.shared.writes)) = some true := by
    decide +kernel
  obtain ⟨c, hc, he⟩ := Option.map_eq_some_iff.mp h
  obtain ⟨hidle, htouches, hmem⟩ := of_decide_eq_true he
  exact ⟨c, hc, fun w => Option.isNone_iff_eq_none.mp (hidle w), htouches, hmem, by decide⟩

end NetworkAnalyse.Server
