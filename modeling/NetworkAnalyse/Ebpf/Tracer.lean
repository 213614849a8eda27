import NetworkAnalyse.Ebpf.Layout
import NetworkAnalyse.Libbpf.Delivery

/-!
# From a kernel function to a line of the tool

The handlers of a tool run on the CPUs while its process polls one of its perf buffers
(`tracer`).  A handler performs its helper calls one at a time, between those of the handlers on
other CPUs and the operations of the process.  What it gives to the perf buffer is the memory of
its `struct event`, and the callback reads it through a pointer.

To the process the handlers are the kernel of `Libbpf.Delivery` (`tracer_projects`).

* `ok_client`, `ok_service`: a handler gives one event, which describes its socket, unless it
  returns early for `targ_min_us`.
* `Tool`: the handlers and callbacks of a tool; `client` and `service`.
* `lines_name_sockets`: every firing gives its event, the callbacks are called with those that
  there was room for, in their order and once each, and they print the sockets of the firings.
* `poll_shows`: a poll that is not interrupted shows all of them.
-/

namespace NetworkAnalyse.Ebpf.Tracer

open Lib Libbpf

/-! ### One firing -/

/-- What matters of the calls of a handler so far. -/
structure Progress where
  reading : Option UInt64 := none
  given : Bool := false
  deriving DecidableEq, Repr

namespace Progress

variable {ε : Type}

def after (v : Progress) : (op : Op ε) → op.Res → Progress
  | .ktimeGetNs, t => { v with reading := some t }
  | .perfEventOutput _ _, _ => { v with given := true }
  | _, _ => v

def ofTrace (tr : Trace (Op ε) Op.Res) : Progress := tr.foldl (fun v x => v.after x.1 x.2) {}

theorem ofTrace_snoc (tr : Trace (Op ε) Op.Res) (op : Op ε) (r : op.Res) :
    ofTrace (tr ++ [⟨op, r⟩]) = (ofTrace tr).after op r := by
  rw [ofTrace, List.foldl_append]
  rfl

/-- The handler has not returned early. -/
def kept (P : Image) (v : Progress) : Bool := v.reading.any fun t => !decide (P.drops t)

/-- An event goes to the handler's buffer, and is the only one. -/
def Can (sock : Sock) (buf : PerfBuf) (base : ε → Event) : Op ε → Progress → Prop
  | .perfEventOutput buf' e, v => v.given = false ∧ buf' = buf ∧ (base e).Describes sock
  | _, _ => True

def Next (op : Op ε) (v : Progress) (r : op.Res) (v' : Progress) : Prop := v' = v.after op r

/-- There is an event, unless the handler has returned early. -/
def Done (P : Image) (_ : Trace (Op ε) Op.Res) (_ : Int) (v : Progress) : Prop :=
  v.given = v.kept P

end Progress

section Handlers

open Progress

variable {ε : Type} {sock : Sock} {buf : PerfBuf} {base : ε → Event} {P : Image} {ts : UInt64}
  {tr : Trace (Op ε) Op.Res}

/-- The end of every handler. -/
theorem ok_output {e : ε} (hd : (base e).Describes sock) (ht : ¬ P.drops ts) :
    (do let _ ← perfEventOutput buf e; return 0 : Handler ε Int).Ok (Can sock buf base) Next
      (Done P) tr ⟨some ts, false⟩ := by
  simp only [perfEventOutput, Prog.perform_bind]
  refine ⟨⟨rfl, rfl, hd⟩, fun r v' hv' => ?_⟩
  obtain rfl : v' = ⟨some ts, true⟩ := hv'
  show true = !decide (P.drops ts)
  rw [decide_eq_false ht]
  rfl

/-- The start of every handler: the clock, and the test of `targ_min_us`. -/
theorem ok_ktimeGetNs {f : UInt64 → Handler ε Int}
    (h : ∀ ts, ¬ P.drops ts →
      (f ts).Ok (Can sock buf base) Next (Done P) [⟨.ktimeGetNs, ts⟩] ⟨some ts, false⟩) :
    (do
      let ts ← ktimeGetNs
      if P.drops ts then
        return 0
      f ts : Handler ε Int).Ok (Can sock buf base) Next (Done P) [] {} := by
  simp only [ktimeGetNs, Prog.perform_bind]
  refine ⟨trivial, fun ts v' hv' => ?_⟩
  obtain rfl : v' = ⟨some ts, false⟩ := hv'
  dsimp only
  split
  · show false = !decide (P.drops ts)
    rw [decide_eq_true ‹_›]
    rfl
  · exact h ts ‹_›

theorem ok_traceSock (func description : String) (c : Call) {f : UInt64 → Event → Handler ε Int}
    (h : ∀ ts e tr, ¬ P.drops ts →
      (f ts (Event.fill c ts e)).Ok (Can sock buf base) Next (Done P) tr ⟨some ts, false⟩) :
    (traceSock P func description c f).Ok (Can sock buf base) Next (Done P) [] {} := by
  refine ok_ktimeGetNs fun ts ht => ?_
  simp only [memcpy, Prog.perform_bind]
  refine Prog.ok_call_of_eq trivial (fun _ => rfl) fun func => ?_
  refine Prog.ok_call_of_eq trivial (fun _ => rfl) fun tcpDescription => ?_
  refine Prog.ok_call_of_eq trivial (fun _ => rfl) fun tcpState => ?_
  exact h ts _ _ ht

theorem ok_client (P : Image) (c : Call) (h : Client.Hook) :
    (Client.fentry P c h).Ok (Can c.sock h.buf ClientEvent.toEvent) Next (Done P) [] {} := by
  cases h with
  | tcpSendmsg =>
    rw [Client.fentry, Client.handleTcpSendmsg]
    refine ok_traceSock _ _ c fun ts e tr ht => ?_
    exact ok_output (describes_fill c ts e) ht
  | tcpV4Connect =>
    rw [Client.fentry, Client.handleTcpV4Connect]
    refine ok_traceSock _ _ c fun ts e tr ht => ?_
    simp only [mapUpdateElem, Prog.perform_bind]
    refine Prog.ok_call_of_eq trivial (fun _ => rfl) fun _ => ?_
    exact ok_output (describes_fill c ts e) ht
  | tcpRcvStateProcess =>
    refine ok_ktimeGetNs fun ts ht => ?_
    simp only [strcat, memcpy, mapLookupElem, mapDeleteElem, Prog.perform_bind]
    refine Prog.ok_call_of_eq trivial (fun _ => rfl) fun _ => ?_
    refine Prog.ok_call_of_eq trivial (fun _ => rfl) fun tcpDescription => ?_
    refine Prog.ok_call_of_eq trivial (fun _ => rfl) fun func => ?_
    refine Prog.ok_call_of_eq trivial (fun _ => rfl) fun tcpState => ?_
    split
    · refine Prog.ok_call_of_eq trivial (fun _ => rfl) fun pd => ?_
      cases pd with
      | none =>
        refine Prog.ok_call_of_eq trivial (fun _ => rfl) fun _ => ?_
        exact ok_output (describes_fill c ts _) ht
      | some pd =>
        refine Prog.ok_call_of_eq trivial (fun _ => rfl) fun _ => ?_
        exact ok_output (describes_fill c ts _) ht
    · exact ok_output (describes_fill c ts _) ht

theorem ok_report (func description : String) (buf : PerfBuf) (c : Call) :
    (Service.report P func description buf c).Ok (Can c.sock buf id) Next (Done P) [] {} :=
  ok_traceSock func description c fun ts e _ ht => ok_output (describes_fill c ts e) ht

theorem ok_service (P : Image) (c : Call) (h : Service.Hook) :
    (Service.fentry P c h).Ok (Can c.sock h.buf id) Next (Done P) [] {} := by
  cases h with
  | tcpRcvStateProcess => exact ok_report _ _ _ c
  | tcpRecvmsg => exact ok_report _ _ _ c
  | tcpV4Rcv => exact ok_report _ _ _ c
  | tcpV4DoRcv =>
    refine ok_ktimeGetNs fun ts ht => ?_
    simp only [memcpy, Prog.perform_bind]
    refine Prog.ok_call_of_eq trivial (fun _ => rfl) fun tcpDescription => ?_
    refine Prog.ok_call_of_eq trivial (fun _ => rfl) fun func => ?_
    refine Prog.ok_call_of_eq trivial (fun _ => rfl) fun tcpState => ?_
    exact ok_output (describes_fill c ts _) ht

end Handlers

/-! ### The tools -/

/-- What a tool loads, and what it does with the bytes of an event. -/
structure Tool (η ε : Type) where
  fentry : Image → Call → η → Handler ε Int
  buf : η → PerfBuf
  base : ε → Event
  /-- the event in memory, with what its padding holds -/
  bytes : ε → (gap : Vector UInt8 4) → List UInt8
  /-- the event that a callback finds -/
  ofBytes : List UInt8 → ε
  deliver : Env → Locals → PerfBuf → ε → Option Line
  /-- the sockets that the callback for the hook can show -/
  Covers : η → Sock → Prop
  ofBytes_bytes : ∀ (e : ε) (gap : Vector UInt8 4) (rest : List UInt8), (base e).af < 65536 →
    ofBytes (bytes e gap ++ rest) = e
  ok : ∀ (P : Image) (c : Call) (h : η),
    (fentry P c h).Ok (Progress.Can c.sock (buf h) base) Progress.Next (Progress.Done P) [] {}
  shown : ∀ (env : Env) (sock : Sock) (h : η) (e : ε), (base e).Describes sock → Covers h sock →
    ¬ env.skips (base e) → ShownBy deliver env sock (buf h) e

theorem client_shown (env : Env) (sock : Sock) (h : Client.Hook) (e : ClientEvent)
    (hd : e.toEvent.Describes sock) (hf : sock.skcFamily.toNat = afInet)
    (hp : ¬ env.skips e.toEvent) : ShownBy Client.deliver env sock h.buf e := by
  have hx4 : ∀ (l : Locals) (time : Option UInt64),
      (printLine env (l.loadX4 e.toEvent) e.toEvent time).Names env sock :=
    fun l time => names_loadX4 hd hf l
  intro l
  cases h with
  | tcpSendmsg => exact ⟨_, if_neg hp, hx4 l _⟩
  | tcpV4Connect => exact ⟨_, if_neg hp, hx4 l _⟩
  | tcpRcvStateProcess => exact ⟨_, if_neg hp, hx4 l _⟩

theorem service_shown (env : Env) (sock : Sock) (h : Service.Hook) (e : Event)
    (hd : e.Describes sock)
    (hc : sock.skcFamily.toNat = afInet ∨ sock.skcFamily.toNat = afInet6 ∧ h ≠ .tcpRecvmsg)
    (hp : ¬ env.skips e) : ShownBy Service.deliver env sock h.buf e := by
  have hi : sock.Inet := hc.imp_right And.left
  by_cases hr : h = .tcpRecvmsg
  · subst hr
    have hf : sock.skcFamily.toNat = afInet := hc.resolve_right fun h6 => h6.2 rfl
    exact fun l => ⟨_, if_neg hp, names_loadX4 hd hf l⟩
  · cases h with
    | tcpRecvmsg => exact absurd rfl hr
    | tcpV4Rcv => exact shownBy_loadAf (fun l => if_neg hp) hd hi
    | tcpV4DoRcv => exact shownBy_loadAf (fun l => if_neg hp) hd hi
    | tcpRcvStateProcess => exact shownBy_loadAf (fun l => if_neg hp) hd hi

/-- `ebpf_for_client`: its callbacks copy four bytes of an address. -/
def client : Tool Client.Hook ClientEvent where
  fentry := Client.fentry
  buf := Client.Hook.buf
  base := ClientEvent.toEvent
  bytes := ClientEvent.bytes
  ofBytes := ClientEvent.ofBytes
  deliver := Client.deliver
  Covers _ sock := sock.skcFamily.toNat = afInet
  ofBytes_bytes := ClientEvent.ofBytes_bytes
  ok := ok_client
  shown := client_shown

/-- `ebpf_for_service`: the callback for `tcp_recvmsg` copies four bytes of an address. -/
def service : Tool Service.Hook Event where
  fentry := Service.fentry
  buf := Service.Hook.buf
  base := id
  bytes e gap := e.bytes ++ gap.toList
  ofBytes := Event.ofBytes
  deliver := Service.deliver
  Covers h sock :=
    sock.skcFamily.toNat = afInet ∨ sock.skcFamily.toNat = afInet6 ∧ h ≠ .tcpRecvmsg
  ofBytes_bytes := Event.ofBytes_padded
  ok := ok_service
  shown := service_shown

/-! ### The system -/

section System

variable {η ε : Type}

structure Firing (η : Type) where
  hook : η
  call : Call
  deriving DecidableEq

/-- A handler under way. -/
structure Handling (η ε : Type) where
  firing : Firing η
  trace : Trace (Op ε) Op.Res
  rest : Handler ε Int

/-- An event that a handler has given to the perf buffer. -/
structure Given (η ε : Type) where
  firing : Firing η
  event : ε

/-- A handler that has returned. -/
structure Ended (η ε : Type) where
  firing : Firing η
  trace : Trace (Op ε) Op.Res

structure State (η ε : Type) where
  /-- the perf buffer that the process polls -/
  perf : Delivery.State
  kern : Kern ε
  /-- by CPU, as are the histories, which no step depends on -/
  running : Nat → Option (Handling η ε)
  given : Nat → List (Given η ε)
  ended : Nat → List (Ended η ε)

def State.boot (mem : Nat → Nat → UInt8) (d : DataSection) : State η ε :=
  ⟨.boot mem, .boot d, fun _ => none, fun _ => [], fun _ => []⟩

/-- What a step of a handler depends on: the clock, what the padding of its event holds, and
what the kernel puts beside the event. -/
structure Choice where
  t : UInt64
  gap : Vector UInt8 4
  pad : List UInt8
  misc : UInt16
  id : UInt64

inductive Move (η : Type)
  | fire (cpu : Nat) (firing : Firing η)
  | step (cpu : Nat) (choice : Choice)

variable (T : Tool η ε) (P : Image) (order : Nat) (pb : PerfBuf)

/-- What a helper call does to the perf buffer. -/
def State.emit (s : State η ε) (cpu : Nat) (firing : Firing η) (choice : Choice) :
    Op ε → Option (State η ε)
  | .perfEventOutput buf e =>
    if buf = pb then
      (Delivery.output order ⟨cpu, T.bytes e choice.gap, choice.pad, choice.misc, choice.id⟩
        s.perf).map fun perf => { s with
          perf := perf
          given := Function.update s.given cpu (s.given cpu ++ [⟨firing, e⟩]) }
    else some s
  | _ => some s

/-- The next call of the handler on a CPU, or its return. -/
def State.step (s : State η ε) (cpu : Nat) (choice : Choice) : Option (State η ε) :=
  match s.running cpu with
  | none => none
  | some ⟨firing, tr, .ret _⟩ => some { s with
      running := Function.update s.running cpu none
      ended := Function.update s.ended cpu (s.ended cpu ++ [⟨firing, tr⟩]) }
  | some ⟨firing, tr, .call op f⟩ =>
    (s.emit T order pb cpu firing choice op).bind fun s₁ =>
      (exec choice.t op s.kern).map fun p => { s₁ with
        kern := p.2
        running := Function.update s.running cpu (some ⟨firing, tr ++ [⟨op, p.1⟩], f p.1⟩) }

def Move.act : Move η → State η ε → Option (State η ε)
  | fire cpu firing, s =>
    match s.running cpu with
    | none => some { s with
        running := Function.update s.running cpu
          (some ⟨firing, [], T.fentry P firing.call firing.hook⟩) }
    | some _ => none
  | step cpu choice, s => s.step T order pb cpu choice

/-- **The tool.**  Its handlers on the CPUs, and its process that polls `pb`.  The other perf
buffer is polled in between, which does not matter here. -/
def tracer : System Unit PerfOp PerfOp.Res Delivery.Inp (Move η) (State η ε) Unit (Option Int) where
  key := id
  body _ := perfBufferPoll order (2 ^ order)
  exec inp op s := (Delivery.exec order inp op s.perf).map fun p => (p.1, { s with perf := p.2 })
  env := Move.act T P order pb

end System

/-! ### What a step does -/

section Steps

variable {η ε : Type} {T : Tool η ε} {P : Image} {order : Nat} {pb : PerfBuf} {s s' : State η ε}

/-- A handler starts, returns, makes a call of its own, or gives an event to the perf buffer. -/
theorem act_cases {m : Move η} (h : m.act T P order pb s = some s') :
    (∃ cpu firing, s.running cpu = none ∧ s' = { s with
      running := Function.update s.running cpu
        (some ⟨firing, [], T.fentry P firing.call firing.hook⟩) }) ∨
    (∃ cpu firing tr a, s.running cpu = some ⟨firing, tr, .ret a⟩ ∧ s' = { s with
      running := Function.update s.running cpu none
      ended := Function.update s.ended cpu (s.ended cpu ++ [⟨firing, tr⟩]) }) ∨
    (∃ cpu firing tr op f r kern, s.running cpu = some ⟨firing, tr, .call op f⟩ ∧
      (∀ e, op ≠ .perfEventOutput pb e) ∧ s' = { s with
        kern := kern
        running := Function.update s.running cpu (some ⟨firing, tr ++ [⟨op, r⟩], f r⟩) }) ∨
    ∃ cpu firing tr e f r kern gap pad misc id perf,
      s.running cpu = some ⟨firing, tr, .call (.perfEventOutput pb e) f⟩ ∧
      Delivery.output order ⟨cpu, T.bytes e gap, pad, misc, id⟩ s.perf = some perf ∧
      s' = { s with
        perf := perf
        kern := kern
        running := Function.update s.running cpu
          (some ⟨firing, tr ++ [⟨.perfEventOutput pb e, r⟩], f r⟩)
        given := Function.update s.given cpu (s.given cpu ++ [⟨firing, e⟩]) } := by
  cases m with
  | fire cpu firing =>
    rw [Move.act] at h
    split at h
    · exact Or.inl ⟨cpu, firing, ‹_›, (Option.some.inj h).symm⟩
    · cases h
  | step cpu choice =>
    rw [Move.act, State.step] at h
    split at h
    · cases h
    · exact Or.inr (Or.inl ⟨cpu, _, _, _, ‹_›, (Option.some.inj h).symm⟩)
    · rename_i firing tr op f hrunning
      refine Or.inr (Or.inr ?_)
      rw [Option.bind_eq_some_iff] at h
      obtain ⟨s₁, hemit, h⟩ := h
      rw [Option.map_eq_some_iff] at h
      obtain ⟨⟨r, kern⟩, -, rfl⟩ := h
      rw [State.emit.eq_def] at hemit
      split at hemit
      · rename_i buf e
        split at hemit
        · rename_i hbuf
          subst hbuf
          rw [Option.map_eq_some_iff] at hemit
          obtain ⟨perf, hout, rfl⟩ := hemit
          exact Or.inr ⟨cpu, firing, tr, e, f, r, kern, _, _, _, _, perf, hrunning, hout, rfl⟩
        · rename_i hbuf
          cases hemit
          refine Or.inl ⟨cpu, firing, tr, _, f, r, kern, hrunning, fun e' he => ?_, rfl⟩
          cases he
          exact hbuf rfl
      · rename_i hother
        cases hemit
        exact Or.inl ⟨cpu, firing, tr, _, f, r, kern, hrunning, fun e he => hother _ _ he, rfl⟩

/-- To the process the handlers are the kernel. -/
def tracer_projects : Projection (tracer T P order pb) (Delivery.perf order) where
  map := State.perf
  key _ := rfl
  body _ := rfl
  exec {inp op r s s'} h := by
    obtain ⟨⟨r, perf⟩, hexec, he⟩ := Option.map_eq_some_iff.mp h
    cases he
    exact ⟨inp, hexec⟩
  env {m s s'} h := by
    rcases act_cases h with ⟨cpu, firing, -, rfl⟩ | ⟨cpu, firing, tr, a, -, rfl⟩ |
        ⟨cpu, firing, tr, op, f, r, kern, -, -, rfl⟩ |
        ⟨cpu, firing, tr, e, f, r, kern, gap, pad, misc, id, perf, -, hout, rfl⟩
    · exact Or.inl rfl
    · exact Or.inl rfl
    · exact Or.inl rfl
    · exact Or.inr ⟨_, hout⟩

/-- An output is in the history of its CPU, whether or not there was room. -/
theorem sent_output {o : Delivery.Output} {p p' : Delivery.State}
    (h : Delivery.output order o p = some p') :
    (∃ accepted, (p' o.cpu).sent = (p o.cpu).sent ++ [⟨o.payload ++ o.pad, accepted⟩]) ∧
      ∀ cpu, cpu ≠ o.cpu → (p' cpu).sent = (p cpu).sent := by
  rw [Delivery.output] at h
  split at h
  · cases h
    constructor
    · rw [Function.update_self, Delivery.CpuBuf.output]
      split
      · exact ⟨true, rfl⟩
      · exact ⟨false, rfl⟩
    · intro cpu hne
      rw [Function.update_of_ne hne]
  · cases h

end Steps

/-! ### The invariant -/

section Invariant

variable {η ε : Type}

/-- Of the handlers that have returned, those that have an event for the perf buffer. -/
def kept (T : Tool η ε) (P : Image) (pb : PerfBuf) (ended : List (Ended η ε)) : List (Firing η) :=
  (ended.filter fun e =>
    decide (T.buf e.firing.hook = pb) && (Progress.ofTrace e.trace).kept P).map (·.firing)

/-- The handler under way, if it has given its event to the perf buffer. -/
def Handling.given (T : Tool η ε) (pb : PerfBuf) (f : Handling η ε) : List (Firing η) :=
  if T.buf f.firing.hook = pb ∧ (Progress.ofTrace f.trace).given = true then [f.firing] else []

/-- The events of a CPU are those of the handlers that have returned, and of the one under way. -/
def Told (T : Tool η ε) (P : Image) (pb : PerfBuf) (given : List (Given η ε))
    (ended : List (Ended η ε)) : Option (Handling η ε) → Prop
  | none => given.map (·.firing) = kept T P pb ended
  | some f =>
    f.rest.Ok (Progress.Can f.firing.call.sock (T.buf f.firing.hook) T.base) Progress.Next
        (Progress.Done P) f.trace (.ofTrace f.trace) ∧
      given.map (·.firing) = kept T P pb ended ++ f.given T pb

/-- A callback finds the event in the bytes, and it describes the socket of its firing. -/
structure Carries (T : Tool η ε) (pb : PerfBuf) (data : List UInt8) (g : Given η ε) : Prop where
  event : T.ofBytes data = g.event
  buf : T.buf g.firing.hook = pb
  describes : (T.base g.event).Describes g.firing.call.sock

structure Sound (T : Tool η ε) (P : Image) (pb : PerfBuf) (s : State η ε) : Prop where
  told : ∀ cpu, Told T P pb (s.given cpu) (s.ended cpu) (s.running cpu)
  carried : ∀ cpu, List.Forall₂ (fun (o : Delivery.Sent) g => Carries T pb o.data g)
    (s.perf cpu).sent (s.given cpu)

variable {T : Tool η ε} {P : Image} {order : Nat} {pb : PerfBuf} {s s' : State η ε}
  {given : List (Given η ε)} {ended : List (Ended η ε)} {firing : Firing η}
  {tr : Trace (Op ε) Op.Res}

theorem sound_boot (mem : Nat → Nat → UInt8) (d : DataSection) : Sound T P pb (.boot mem d) :=
  ⟨fun _ => rfl, fun _ => .nil⟩

theorem told_fire (h : Told T P pb given ended none) (firing : Firing η) :
    Told T P pb given ended (some ⟨firing, [], T.fentry P firing.call firing.hook⟩) := by
  refine ⟨T.ok P firing.call firing.hook, ?_⟩
  have hnone : Handling.given T pb ⟨firing, [], T.fentry P firing.call firing.hook⟩ = [] :=
    if_neg fun hgiven => absurd hgiven.2 Bool.false_ne_true
  rw [hnone, List.append_nil]
  exact h

/-- At its return a handler has given its event, or it has returned early. -/
theorem told_return {a : Int} (h : Told T P pb given ended (some ⟨firing, tr, .ret a⟩)) :
    Told T P pb given (ended ++ [⟨firing, tr⟩]) none := by
  obtain ⟨hdone, hgiven⟩ := h
  have hdone : (Progress.ofTrace tr).given = (Progress.ofTrace tr).kept P := hdone
  rw [Told, hgiven, kept, kept, List.filter_append, List.map_append, Handling.given]
  congr 1
  by_cases hbuf : T.buf firing.hook = pb
  · cases hk : (Progress.ofTrace tr).kept P <;> simp [hbuf, hdone, hk]
  · simp [hbuf]

/-- A call that is not an output to the perf buffer. -/
theorem told_call {op : Op ε} {f : op.Res → Handler ε Int} (hop : ∀ e, op ≠ .perfEventOutput pb e)
    (h : Told T P pb given ended (some ⟨firing, tr, .call op f⟩)) (r : op.Res) :
    Told T P pb given ended (some ⟨firing, tr ++ [⟨op, r⟩], f r⟩) := by
  obtain ⟨⟨hcan, hok⟩, hgiven⟩ := h
  have hok := hok r _ rfl
  rw [← Progress.ofTrace_snoc] at hok
  refine ⟨hok, ?_⟩
  rw [hgiven, Handling.given, Handling.given, Progress.ofTrace_snoc]
  cases op with
  | perfEventOutput buf e =>
    -- the handler's own buffer is another one
    have hbuf : T.buf firing.hook ≠ pb := by
      intro hbuf
      have heq : buf = T.buf firing.hook := hcan.2.1
      rw [heq, hbuf] at hop
      exact hop e rfl
    rw [if_neg fun hg => hbuf hg.1, if_neg fun hg => hbuf hg.1]
  | _ => rfl

theorem told_output {e : ε} {f : Int → Handler ε Int}
    (h : Told T P pb given ended (some ⟨firing, tr, .call (.perfEventOutput pb e) f⟩)) (r : Int) :
    Told T P pb (given ++ [⟨firing, e⟩]) ended
        (some ⟨firing, tr ++ [⟨.perfEventOutput pb e, r⟩], f r⟩) ∧
      T.buf firing.hook = pb ∧ (T.base e).Describes firing.call.sock := by
  obtain ⟨⟨⟨hnone, hbuf, hd⟩, hok⟩, hgiven⟩ := h
  have hok := hok r _ rfl
  rw [← Progress.ofTrace_snoc] at hok
  refine ⟨⟨hok, ?_⟩, hbuf.symm, hd⟩
  have hbefore : Handling.given T pb ⟨firing, tr, .call (.perfEventOutput pb e) f⟩ = [] :=
    if_neg fun hg => absurd (hnone.symm.trans hg.2) Bool.false_ne_true
  have hafter :
      Handling.given T pb ⟨firing, tr ++ [⟨.perfEventOutput pb e, r⟩], f r⟩ = [firing] := by
    rw [Handling.given, Progress.ofTrace_snoc]
    exact if_pos ⟨hbuf.symm, rfl⟩
  rw [List.map_append, hgiven, hbefore, hafter, List.append_nil]
  rfl

theorem told_update {given : Nat → List (Given η ε)} {ended : Nat → List (Ended η ε)}
    {running : Nat → Option (Handling η ε)}
    (h : ∀ cpu, Told T P pb (given cpu) (ended cpu) (running cpu)) (cpu : Nat)
    {g : List (Given η ε)} {e : List (Ended η ε)} {f : Option (Handling η ε)}
    (hnew : Told T P pb g e f) (i : Nat) :
    Told T P pb (Function.update given cpu g i) (Function.update ended cpu e i)
      (Function.update running cpu f i) := by
  by_cases hi : i = cpu
  · subst hi
    simpa only [Function.update_self] using hnew
  · simpa only [Function.update_of_ne hi] using h i

/-- The event that a handler has given is what a callback will find. -/
theorem carries_bytes {e : ε} (hbuf : T.buf firing.hook = pb)
    (hd : (T.base e).Describes firing.call.sock) (gap : Vector UInt8 4) (pad : List UInt8) :
    Carries T pb (T.bytes e gap ++ pad) ⟨firing, e⟩ := by
  refine ⟨T.ofBytes_bytes e gap pad ?_, hbuf, hd⟩
  rw [hd.af]
  exact firing.call.sock.skcFamily.toNat_lt

theorem sound_act {m : Move η} (hs : Sound T P pb s) (h : m.act T P order pb s = some s') :
    Sound T P pb s' := by
  rcases act_cases h with ⟨cpu, firing, hidle, rfl⟩ | ⟨cpu, firing, tr, a, hrun, rfl⟩ |
      ⟨cpu, firing, tr, op, f, r, kern, hrun, hop, rfl⟩ |
      ⟨cpu, firing, tr, e, f, r, kern, gap, pad, misc, id, perf, hrun, hout, rfl⟩
  · have htold := hs.told cpu
    rw [hidle] at htold
    refine ⟨?_, hs.carried⟩
    simpa only [Function.update_eq_self] using told_update hs.told cpu (told_fire htold firing)
  · have htold := hs.told cpu
    rw [hrun] at htold
    refine ⟨?_, hs.carried⟩
    simpa only [Function.update_eq_self] using told_update hs.told cpu (told_return htold)
  · have htold := hs.told cpu
    rw [hrun] at htold
    refine ⟨?_, hs.carried⟩
    simpa only [Function.update_eq_self] using told_update hs.told cpu (told_call hop htold r)
  · have htold := hs.told cpu
    rw [hrun] at htold
    obtain ⟨hnew, hbuf, hd⟩ := told_output htold r
    obtain ⟨⟨accepted, hsent⟩, hothers⟩ := sent_output hout
    constructor
    · simpa only [Function.update_eq_self] using told_update hs.told cpu hnew
    · intro i
      by_cases hi : i = cpu
      · subst hi
        show List.Forall₂ _ (perf i).sent (Function.update s.given i _ i)
        rw [Function.update_self, hsent]
        exact List.rel_append (hs.carried i) (.cons (carries_bytes hbuf hd gap pad) .nil)
      · show List.Forall₂ _ (perf i).sent (Function.update s.given cpu _ i)
        rw [Function.update_of_ne hi, hothers i hi]
        exact hs.carried i

/-- The process does not change what has been sent. -/
theorem Sound.of_sent (hs : Sound T P pb s) {perf : Delivery.State}
    (h : ∀ cpu, (perf cpu).sent = (s.perf cpu).sent) : Sound T P pb { s with perf := perf } := by
  refine ⟨hs.told, fun cpu => ?_⟩
  show List.Forall₂ _ (perf cpu).sent (s.given cpu)
  rw [h cpu]
  exact hs.carried cpu

theorem sound_exec {inp : Delivery.Inp} {op : PerfOp} {r : op.Res} (hs : Sound T P pb s)
    (h : (tracer T P order pb).exec inp op s = some (r, s')) : Sound T P pb s' := by
  obtain ⟨⟨r, perf⟩, hexec, he⟩ := Option.map_eq_some_iff.mp h
  cases he
  exact hs.of_sent fun cpu => (Delivery.exec_frame hexec cpu).1

end Invariant

/-! ### Every run -/

section Runs

variable {η ε : Type}

/-- Of the events of a CPU, those that there was room for. -/
def State.taken (s : State η ε) (cpu : Nat) : List (Given η ε) :=
  (((s.perf cpu).sent.zip (s.given cpu)).filter (·.1.accepted)).map (·.2)

/-- A callback finds the event of the firing in the bytes, and if it can show such a socket and
the pid is not filtered out, it prints a line that names the socket. -/
structure Shows (T : Tool η ε) (pb : PerfBuf) (data : List UInt8) (g : Given η ε) : Prop
    extends Carries T pb data g where
  line : ∀ env, T.Covers g.firing.hook g.firing.call.sock → ¬ env.skips (T.base g.event) →
    ShownBy T.deliver env g.firing.call.sock pb (T.ofBytes data)

variable {T : Tool η ε} {P : Image} {order : Nat} {pb : PerfBuf}

theorem Carries.shows {data : List UInt8} {g : Given η ε} (h : Carries T pb data g) :
    Shows T pb data g := by
  refine ⟨h, fun env hcovers hskips => ?_⟩
  rw [h.event, ← h.buf]
  exact T.shown env _ _ _ h.describes hcovers hskips

theorem forall₂_taken {γ : Type} {R : List UInt8 → γ → Prop} {sent : List Delivery.Sent}
    {given : List γ} (h : List.Forall₂ (fun (o : Delivery.Sent) g => R o.data g) sent given) :
    List.Forall₂ R ((sent.filter (·.accepted)).map (·.data))
      (((sent.zip given).filter (·.1.accepted)).map (·.2)) := by
  induction h with
  | nil => exact .nil
  | @cons o g sent given hd _ ih =>
    cases ho : o.accepted with
    | true =>
      simp only [List.zip_cons_cons, List.filter_cons, ho, if_true, List.map_cons]
      exact .cons hd ih
    | false =>
      simp only [List.zip_cons_cons, List.filter_cons, ho, Bool.false_eq_true, if_false]
      exact ih

section Pending

variable {s : State η ε} {cpu : Nat} {gone left : List Record}

theorem shows_taken (hs : Sound T P pb s) (cpu : Nat) :
    List.Forall₂ (Shows T pb) (Delivery.samplesOf (Delivery.report (s.perf cpu).sent).1)
      (s.taken cpu) := by
  rw [Delivery.samplesOf_report]
  exact (forall₂_taken (hs.carried cpu)).imp fun _ _ hc => hc.shows

/-- The events for which there have been callbacks are the first ones. -/
theorem shows_take (hs : Sound T P pb s) (hpend : Delivery.Pending order (s.perf cpu) gone left) :
    List.Forall₂ (Shows T pb) (Delivery.samplesOf (s.perf cpu).calls)
      ((s.taken cpu).take (Delivery.samplesOf (s.perf cpu).calls).length) := by
  have hsamples : Delivery.samplesOf (s.perf cpu).calls <+:
      Delivery.samplesOf (Delivery.report (s.perf cpu).sent).1 := hpend.prefix_report.1.filterMap _
  have htake :=
    List.forall₂_take (Delivery.samplesOf (s.perf cpu).calls).length (shows_taken hs cpu)
  rwa [← List.prefix_iff_eq_take.mp hsamples] at htake

/-- When the buffer is empty there has been a callback for each, and the others are counted. -/
theorem shows_all (hs : Sound T P pb s) (hpend : Delivery.Pending order (s.perf cpu) gone left)
    (hempty : (s.perf cpu).ring.consumerPos = (s.perf cpu).ring.producerPos) :
    List.Forall₂ (Shows T pb) (Delivery.samplesOf (s.perf cpu).calls) (s.taken cpu) ∧
      Delivery.lostTotal (s.perf cpu).calls + (s.perf cpu).lost =
        .ofNat ((s.given cpu).length - (s.taken cpu).length) := by
  have htaken := shows_taken hs cpu
  rw [hpend.prefix_report.2 hempty, hpend.lost_eq, Delivery.lostTotal_report]
  refine ⟨htaken, congrArg UInt64.ofNat ?_⟩
  have hgiven : (s.perf cpu).sent.length = (s.given cpu).length := (hs.carried cpu).length_eq
  have haccepted : ((s.perf cpu).sent.filter (·.accepted)).length = (s.taken cpu).length := by
    rw [← htaken.length_eq, Delivery.samplesOf_report, List.length_map]
  have hsplit := List.length_eq_length_filter_add (l := (s.perf cpu).sent) (·.accepted)
  show ((s.perf cpu).sent.filter fun o => !o.accepted).length = _
  omega

end Pending

variable {mem : Nat → Nat → UInt8} {d : DataSection}
  {acts : List (Act Unit Delivery.Inp (Move η) Unit)}
  {c : Config Unit PerfOp PerfOp.Res (State η ε) Unit (Option Int)}

theorem sound_of_run
    (h : (tracer T P order pb).run ((tracer T P order pb).init (.boot mem d)) acts = some c) :
    Sound T P pb c.shared :=
  System.shared_of_run (fun hs he => sound_exec hs he) (fun hs he => sound_act hs he)
    (sound_boot mem d) h

theorem pending_of_run (horder : 3 ≤ order)
    (h : (tracer T P order pb).run ((tracer T P order pb).init (.boot mem d)) acts = some c)
    (cpu : Nat) : ∃ gone left, Delivery.Pending order (c.shared.perf cpu) gone left := by
  obtain ⟨acts', h'⟩ := tracer_projects.exists_run h
  obtain ⟨v, ⟨hplace, -⟩, -⟩ :=
    (Delivery.outline horder).holds_run (Delivery.view_boot horder mem) h' ()
  exact Delivery.pending_of_place hplace cpu

/-- **From the kernel function to the line.**  In every state of every run, however the handlers
on the CPUs and the operations of the process are interleaved, and for each CPU:

the samples that the callbacks have been called with are, in their order and once each, the
first ones of the events that there was room for; a callback finds the event as its handler has
filled it in, and prints the socket of its firing;

when the buffer is empty these are all of them, and the others are counted as lost;

while no handler is under way, the events are those of the firings that have not returned early,
in the order of the firings and one for each. -/
theorem lines_name_sockets (horder : 3 ≤ order)
    (hrun : (tracer T P order pb).run ((tracer T P order pb).init (.boot mem d)) acts = some c)
    (cpu : Nat) :
    let b := c.shared.perf cpu
    let given := c.shared.given cpu
    let taken := c.shared.taken cpu
    (∃ shown, shown <+: taken ∧
      List.Forall₂ (Shows T pb) (Delivery.samplesOf b.calls) shown ∧
      (b.ring.consumerPos = b.ring.producerPos → shown = taken ∧
        Delivery.lostTotal b.calls + b.lost = .ofNat (given.length - taken.length))) ∧
    (c.shared.running cpu = none →
      given.map (·.firing) = kept T P pb (c.shared.ended cpu)) := by
  intro b given taken
  have hsound := sound_of_run hrun
  obtain ⟨gone, left, hpend⟩ := pending_of_run horder hrun cpu
  constructor
  · refine ⟨_, List.take_prefix _ _, shows_take hsound hpend, fun hempty => ?_⟩
    obtain ⟨hall, hlost⟩ := shows_all hsound hpend hempty
    exact ⟨by rw [hall.length_eq, List.take_length], hlost⟩
  · intro hidle
    have htold := hsound.told cpu
    rw [hidle] at htold
    exact htold

def exampleChoice : Choice := ⟨1000, .replicate 4 0, .replicate 4 0, 0, 0⟩

/-- A handler runs from its start to its end. -/
def exampleActs (firing : Firing η) : List (Act Unit Delivery.Inp (Move η) Unit) :=
  .env (.fire 0 firing) :: List.replicate 6 (.env (.step 0 exampleChoice))

/-- The process polls. -/
def examplePoll : List (Act Unit Delivery.Inp (Move η) Unit) :=
  .spawn () :: List.replicate 9 (.step () ⟨.ok [0], true, fun _ => 255⟩)

/-- An IPv6 connection, for which the callback of this hook copies whole addresses. -/
def exampleAck : Firing Service.Hook := ⟨.tcpV4DoRcv, exampleCall6⟩

def exampleRun :=
  (tracer service exampleImage 9 .events).run
    ((tracer service exampleImage 9 .events).init (.boot (fun _ _ => 255) ⟨[]⟩))
    (exampleActs exampleAck ++ examplePoll)

theorem lines_name_sockets_example :
    ∃ c, exampleRun = some c ∧ (Delivery.samplesOf (c.shared.perf 0).calls).length = 1 ∧
      (∃ shown, shown <+: c.shared.taken 0 ∧
        List.Forall₂ (Shows service .events) (Delivery.samplesOf (c.shared.perf 0).calls) shown) ∧
      (c.shared.given 0).map (·.firing) = [exampleAck] ∧
      (c.shared.given 0).map (·.firing) =
        kept service exampleImage .events (c.shared.ended 0) := by
  have h : exampleRun.map (fun c => ((Delivery.samplesOf (c.shared.perf 0).calls).length,
      (c.shared.running 0).isNone, (c.shared.given 0).map (·.firing))) =
        some (1, true, [exampleAck]) := by decide +kernel
  obtain ⟨c, hc, he⟩ := Option.map_eq_some_iff.mp h
  obtain ⟨hsamples, he⟩ := Prod.mk.inj he
  obtain ⟨hidle, hgiven⟩ := Prod.mk.inj he
  obtain ⟨⟨shown, hprefix, hshows, -⟩, hkept⟩ := lines_name_sockets (by decide) hc 0
  exact ⟨c, hc, hsamples, ⟨shown, hprefix, hshows⟩, hgiven,
    hkept (Option.isNone_iff_eq_none.mp hidle)⟩

/-- The process acts on the perf buffer only. -/
theorem run_perf {α : Type} {inp : Delivery.Inp} (p : PerfProg α) :
    ∀ (s : State η ε), p.run ((tracer T P order pb).exec inp) s =
      (p.run (Delivery.exec order inp) s.perf).map fun q => (q.1, { s with perf := q.2 }) := by
  induction p with
  | ret a => exact fun s => rfl
  | call op f ih =>
    intro s
    rw [Prog.run_call, Prog.run_call, Option.map_bind]
    show ((Delivery.exec order inp op s.perf).map _).bind _ = _
    rw [Option.bind_map]
    refine congrArg _ (funext fun q => ?_)
    exact ih q.1 _

/-- **A poll shows all that there is.**  In every state in which the process is not polling, a
poll that is not interrupted and finds memory comes back.  For each CPU whose buffer was readable
the callbacks have then been called with all the events that there was room for, and have printed
the sockets of their firings; the others are counted as lost. -/
theorem poll_shows (horder : 3 ≤ order)
    (hrun : (tracer T P order pb).run ((tracer T P order pb).init (.boot mem d)) acts = some c)
    (hidle : c.running () = none) {inp : Delivery.Inp} {events : List Nat}
    (hready : inp.ready = .ok events) (halloc : inp.alloc = true) :
    ∃ s', ((tracer T P order pb).body ()).run ((tracer T P order pb).exec inp) c.shared =
        some (some (events.length : Int), s') ∧
      ∀ cpu ∈ events, s'.given cpu = c.shared.given cpu ∧ s'.taken cpu = c.shared.taken cpu ∧
        List.Forall₂ (Shows T pb) (Delivery.samplesOf (s'.perf cpu).calls) (s'.taken cpu) ∧
        Delivery.lostTotal (s'.perf cpu).calls + (s'.perf cpu).lost =
          .ofNat ((s'.given cpu).length - (s'.taken cpu).length) := by
  obtain ⟨acts', hrun'⟩ := tracer_projects.exists_run hrun
  obtain ⟨perf, hpoll, hkeeps, hempty⟩ :=
    Delivery.poll_of_place horder (Delivery.place_of_idle horder hrun' hidle) hready halloc
  refine ⟨{ c.shared with perf := perf }, ?_, fun cpu hcpu => ?_⟩
  · rw [run_perf]
    exact congrArg _ hpoll
  · obtain ⟨hsent, gone, left, hpend⟩ := hkeeps cpu
    have htaken : State.taken { c.shared with perf := perf } cpu = c.shared.taken cpu := by
      show (((perf cpu).sent.zip _).filter _).map _ = _
      rw [hsent]
      rfl
    have hsound : Sound T P pb { c.shared with perf := perf } :=
      (sound_of_run hrun).of_sent fun i => (hkeeps i).1
    obtain ⟨hall, hlost⟩ := shows_all hsound hpend (hempty cpu hcpu)
    exact ⟨rfl, htaken, hall, hlost⟩

/-- An IPv4 connection of the client. -/
def exampleSend : Firing Client.Hook where
  hook := .tcpSendmsg
  call := { exampleCall6 with
    sock := ⟨1, 53710, 3879, 2, 0x0100007f, 0x0100007f, {}, {}⟩ }

def exampleSent :=
  (tracer client exampleImage 9 .tcpSendmsgEvents).run
    ((tracer client exampleImage 9 .tcpSendmsgEvents).init (.boot (fun _ _ => 255) ⟨[]⟩))
    (exampleActs exampleSend)

theorem poll_shows_example :
    ∃ c s', exampleSent = some c ∧
      ((tracer client exampleImage 9 .tcpSendmsgEvents).body ()).run
          ((tracer client exampleImage 9 .tcpSendmsgEvents).exec ⟨.ok [0], true, fun _ => 255⟩)
          c.shared =
        some (some 1, s') ∧
      client.Covers exampleSend.hook exampleSend.call.sock ∧
      (s'.taken 0).map (·.firing) = [exampleSend] ∧
      List.Forall₂ (Shows client .tcpSendmsgEvents) (Delivery.samplesOf (s'.perf 0).calls)
        (s'.taken 0) := by
  have h : exampleSent.map (fun c => ((c.running ()).isNone,
      (c.shared.taken 0).map (·.firing))) = some (true, [exampleSend]) := by decide +kernel
  obtain ⟨c, hc, he⟩ := Option.map_eq_some_iff.mp h
  obtain ⟨hidle, htaken⟩ := Prod.mk.inj he
  have hready : (⟨.ok [0], true, fun _ => 255⟩ : Delivery.Inp).ready = .ok [0] := rfl
  obtain ⟨s', hpoll, hshows⟩ :=
    poll_shows (by decide) hc (Option.isNone_iff_eq_none.mp hidle) hready rfl
  obtain ⟨-, hsame, hall, -⟩ := hshows 0 (List.mem_singleton.mpr rfl)
  rw [← hsame] at htaken
  exact ⟨c, s', hc, hpoll, rfl, htaken, hall⟩

end Runs

end NetworkAnalyse.Ebpf.Tracer
