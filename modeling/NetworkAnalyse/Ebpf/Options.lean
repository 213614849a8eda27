import Mathlib.Data.Nat.Digits.Defs
import NetworkAnalyse.Ebpf.Callbacks
import NetworkAnalyse.Loader.Params

/-!
# The options of the tracing tools

`parse_arg` of `ebpf_for_client/tcp_analyse.c` and of
`ebpf_for_service/tcp_analyse_service.c`; the two are the same.  `argp_parse` calls it
for every option and argument of the command line, with a key each.

`-p` takes the pid from `strtol` and looks at `errno` only.  So it also takes a text that
only begins with a number, or has none at all, and a number that does not fit `pid_t`.

* `pid_of_runs`: the pid that a command line leaves in `env`.
* `filtersOn_of_pid`: what the callbacks print under a pid.
* `pidOption_iff`: for which arguments `-p` does what it should.
-/

namespace NetworkAnalyse.Ebpf

open Lib
open Loader.Params (isSpace isDigit digits longMax longMin strtol)

/-! ### `parse_arg` -/

/-- What `argp_parse` calls `parse_arg` with.  The keys without a case, as
`ARGP_KEY_INIT`, are `other`. -/
inductive Key
  | help
  | verbose
  | pid (arg : CString)
  | lport
  | positional (arg : CString)
  | other

/-- `env`, and the static `pos_args`. -/
structure Options where
  minUs : UInt64 := 0
  pid : Int32 := 0
  lport : Bool := false
  verbose : Bool := false
  posArgs : Nat := 0
  deriving DecidableEq, Repr

/-- What the callbacks look at. -/
def Options.env (o : Options) : Env := ⟨o.pid, o.lport⟩

inductive ArgOp
  /-- `strtod(arg, NULL) * 1000` as an `__u64`, and whether `errno` is set -/
  | strtod (arg : CString)
  | fprintf (fmt : String) (arg : CString)

@[reducible] def ArgOp.Res : ArgOp → Type
  | strtod _ => UInt64 × Bool
  | fprintf _ _ => Unit

abbrev ArgParser (α : Type) := Prog ArgOp ArgOp.Res α

def ArgOp.call (op : ArgOp) : ArgParser op.Res := .perform op

/-- The status with which `argp_usage` ends the program. -/
def exUsage : Int := 64

/-- A message, and `argp_usage`. -/
def argpUsage (fmt : String) (arg : CString) : ArgParser (Except Int Options) := do
  (ArgOp.fprintf fmt arg).call
  return .error exUsage

/-- The number at the start of a text, after white space and a sign. -/
def numeralPrefix (s : CString) : Int :=
  let t := s.1.dropWhile isSpace
  if t.head? = some 45 then -(digits t.tail)
  else if t.head? = some 43 then digits t.tail
  else digits t

/-- `strtol` sets `errno`. -/
def Erange (s : CString) : Prop := numeralPrefix s < longMin ∨ longMax < numeralPrefix s

instance (s : CString) : Decidable (Erange s) := inferInstanceAs (Decidable (_ ∨ _))

/-- A call for one key.  The error is the status with which the program ends. -/
def parseArg (o : Options) : Key → ArgParser (Except Int Options)
  | .help => return .error 0
  | .verbose => return .ok { o with verbose := true }
  | .pid arg => do
    if Erange arg then
      argpUsage "invalid PID: %s\n" arg
    else
      return .ok { o with pid := .ofInt (strtol arg) }
  | .lport => return .ok { o with lport := true }
  | .positional arg => do
    if o.posArgs ≠ 0 then
      argpUsage "Unrecognized positional argument: %s\n" arg
    else
      let (minUs, errno) ← (ArgOp.strtod arg).call
      if errno ∨ minUs ≤ 0 then
        argpUsage "Invalid delay (in us): %s\n" arg
      else
        return .ok { o with minUs := minUs, posArgs := o.posArgs + 1 }
  | .other => return .ok o

/-- `argp_parse`, from the first key to the last. -/
def parseArgs : List Key → Options → ArgParser (Except Int Options)
  | [], o => return .ok o
  | key :: keys, o => do
    match ← parseArg o key with
    | .error status => return .error status
    | .ok o => parseArgs keys o

/-! ### The pid of a command line -/

def Key.pidArg : Key → Option CString
  | .pid arg => some arg
  | _ => none

/-- The arguments of `-p`, in their order. -/
def pidArgs (keys : List Key) : List CString := keys.filterMap Key.pidArg

section Runs

variable {o o' : Options} {key : Key} {keys : List Key} {tr : Trace ArgOp ArgOp.Res}

theorem not_runs_argpUsage {fmt : String} {arg : CString} :
    ¬ (argpUsage fmt arg).Runs tr (.ok o') := by
  intro h
  obtain ⟨_, rest, -, hret⟩ := Prog.runs_call_iff.mp h
  cases (Prog.runs_ret_iff.mp hret).2

theorem runs_pid_iff {s : CString} :
    (parseArg o (.pid s)).Runs tr (.ok o') ↔
      ¬ Erange s ∧ tr = [] ∧ o' = { o with pid := .ofInt (strtol s) } := by
  by_cases hs : Erange s
  · rw [parseArg, if_pos hs]
    exact iff_of_false not_runs_argpUsage fun h => h.1 hs
  · rw [parseArg, if_neg hs]
    simp [hs]

/-- One key. -/
theorem pid_of_runs_parseArg (h : (parseArg o key).Runs tr (.ok o')) :
    o'.pid = key.pidArg.elim o.pid (fun s => .ofInt (strtol s)) ∧
      ∀ s ∈ key.pidArg, ¬ Erange s := by
  cases key with
  | pid s =>
    obtain ⟨hs, -, rfl⟩ := runs_pid_iff.mp h
    refine ⟨rfl, fun t ht => ?_⟩
    obtain rfl := Option.some.inj ht
    exact hs
  | help => cases (Prog.runs_ret_iff.mp h).2
  | positional s =>
    rw [parseArg] at h
    split at h
    · exact absurd h not_runs_argpUsage
    · simp only [ArgOp.call, Prog.perform_bind, Prog.runs_call_iff] at h
      obtain ⟨r, rest, -, h⟩ := h
      split at h
      · exact absurd h not_runs_argpUsage
      · cases (Prog.runs_ret_iff.mp h).2
        exact ⟨rfl, fun s hs => absurd hs (Option.not_mem_none s)⟩
  | verbose | lport | other =>
    cases (Prog.runs_ret_iff.mp h).2
    exact ⟨rfl, fun s hs => absurd hs (Option.not_mem_none s)⟩

/-- The last `-p` decides, and none of them has a number beyond the range of `long`. -/
theorem pid_of_runs (h : (parseArgs keys o).Runs tr (.ok o')) :
    o'.pid = (pidArgs keys).getLast?.elim o.pid (fun s => .ofInt (strtol s)) ∧
      ∀ s ∈ pidArgs keys, ¬ Erange s := by
  induction keys generalizing o tr with
  | nil =>
    cases (Prog.runs_ret_iff.mp h).2
    exact ⟨rfl, fun s hs => absurd hs List.not_mem_nil⟩
  | cons key keys ih =>
    obtain ⟨tr₁, tr₂, r, rfl, hkey, hrest⟩ := Prog.runs_bind_iff.mp h
    cases r with
    | error status => cases (Prog.runs_ret_iff.mp hrest).2
    | ok o₁ =>
      obtain ⟨hpid, hrange⟩ := pid_of_runs_parseArg hkey
      obtain ⟨hpid', hrange'⟩ := ih hrest
      rw [pidArgs, List.filterMap_cons]
      cases harg : key.pidArg with
      | none =>
        rw [harg] at hpid
        rw [hpid', hpid]
        exact ⟨rfl, hrange'⟩
      | some s =>
        rw [harg] at hpid hrange
        refine ⟨?_, List.forall_mem_cons.mpr ⟨hrange s rfl, hrange'⟩⟩
        rw [hpid', hpid]
        dsimp only
        rw [List.getLast?_cons, ← pidArgs]
        cases (pidArgs keys).getLast? with
        | none => rfl
        | some t => rfl

end Runs

/-! ### Decimal numerals -/

/-- The text is a decimal numeral of `n`: digits only, at least one. -/
def Denotes (s : CString) (n : Nat) : Prop :=
  s.1 ≠ [] ∧ (∀ c ∈ s.1, isDigit c) ∧ Nat.ofDigits 10 (s.1.reverse.map (·.toNat - 48)) = n

/-- The largest `pid_t`. -/
def pidMax : Nat := 2147483647

/-- The text is a numeral of a positive pid. -/
def DenotesPid (s : CString) (n : Nat) : Prop := Denotes s n ∧ 0 < n ∧ n ≤ pidMax

theorem foldl_digits (l : List UInt8) :
    l.foldl (fun n c => 10 * n + (c.toNat - 48)) 0 =
      Nat.ofDigits 10 (l.reverse.map (·.toNat - 48)) := by
  induction l using List.reverseRecOn with
  | nil => rfl
  | append_singleton l c ih =>
    rw [List.foldl_append, ih, List.reverse_append, List.map_append, List.reverse_singleton,
      List.map_singleton, List.singleton_append, Nat.ofDigits_cons]
    simp only [List.foldl_cons, List.foldl_nil]
    omega

section Numerals

variable {s : CString} {n : Nat}

theorem digits_of_denotes (h : Denotes s n) : digits s.1 = n := by
  obtain ⟨-, hdigit, hval⟩ := h
  rw [digits, List.takeWhile_eq_self_iff.mpr hdigit, foldl_digits, hval]

theorem not_isSpace_of_isDigit {c : UInt8} (h : isDigit c) : ¬ isSpace c := by
  simp only [isDigit, isSpace, Bool.and_eq_true, Bool.or_eq_true, decide_eq_true_eq, beq_iff_eq,
    UInt8.le_iff_toNat_le, ← UInt8.toNat_inj, UInt8.reduceToNat] at *
  omega

theorem dropWhile_of_denotes (h : Denotes s n) : s.1.dropWhile isSpace = s.1 := by
  rw [List.dropWhile_eq_self_iff]
  intro hlen
  exact not_isSpace_of_isDigit (h.2.1 _ (List.getElem_mem hlen))

theorem numeralPrefix_of_denotes (h : Denotes s n) : numeralPrefix s = n := by
  have hsign : ∀ c, ¬ isDigit c → s.1.head? ≠ some c := by
    intro c hc hhead
    exact hc (h.2.1 c (List.mem_of_head? hhead))
  rw [numeralPrefix, dropWhile_of_denotes h]
  rw [if_neg (hsign 45 (by decide)), if_neg (hsign 43 (by decide)), digits_of_denotes h]

/-- In range, `strtol` gives the number that the text starts with. -/
theorem strtol_of_not_erange (h : ¬ Erange s) : strtol s = numeralPrefix s := by
  rw [Erange, not_or, Int.not_lt, Int.not_lt, numeralPrefix] at h
  rw [strtol, numeralPrefix]
  generalize s.1.dropWhile isSpace = t at *
  split
  · exact Int.max_eq_left h.1
  · exact Int.min_eq_left h.2
  · next h45 h43 =>
    have hhead : ∀ c, (∀ t', t = c :: t' → False) → t.head? ≠ some c := by
      intro c hc hsome
      obtain ⟨t', rfl⟩ := List.head?_eq_some_iff.mp hsome
      exact hc t' rfl
    rw [if_neg (hhead 45 h45), if_neg (hhead 43 h43)] at h ⊢
    exact Int.min_eq_left h.2

theorem not_erange_of_denotesPid (h : DenotesPid s n) : ¬ Erange s := by
  obtain ⟨hs, -, hmax⟩ := h
  rw [Erange, numeralPrefix_of_denotes hs]
  simp only [pidMax, longMin, longMax] at *
  omega

theorem strtol_of_denotesPid (h : DenotesPid s n) : strtol s = n := by
  rw [strtol_of_not_erange (not_erange_of_denotesPid h), numeralPrefix_of_denotes h.1]

end Numerals

/-! ### The filter -/

section Filter

variable {ε : Type} {env : Env} {n : Nat}

/-- The events that a callback prints, out of all that it is called with; the callback
finds `Locals` on its stack. -/
def printed (callback : Locals → ε → Option Line) (events : List (Locals × ε)) :
    List (Locals × ε) :=
  events.filter fun x => (callback x.1 x.2).isSome

/-- The callbacks of both tools print the events of the process `n`, in their order, and
no others. -/
structure FiltersOn (env : Env) (n : Nat) : Prop where
  clientEvent : ∀ events, printed (Client.handleEvent env) events =
    events.filter fun x => x.2.tgid.toNat = n
  clientTcpSendmsgEvent : ∀ events, printed (Client.handleTcpSendmsgEvent env) events =
    events.filter fun x => x.2.tgid.toNat = n
  serviceEvent : ∀ events, printed (Service.handleEvent env) events =
    events.filter fun x => x.2.tgid.toNat = n
  serviceTcpRecvmsgEvent : ∀ events, printed (Service.handleTcpRecvmsgEvent env) events =
    events.filter fun x => x.2.tgid.toNat = n

theorem toInt32_eq_iff {tgid : UInt32} (hn : n ≤ pidMax) :
    tgid.toInt32 = .ofInt n ↔ tgid.toNat = n := by
  have hlt : n < UInt32.size := Nat.lt_of_le_of_lt hn (by decide)
  rw [Int32.ofInt_eq_ofNat, ← UInt32.toInt32_ofNat']
  constructor
  · intro h
    have htgid := congrArg Int32.toUInt32 h
    rw [UInt32.toUInt32_toInt32, UInt32.toUInt32_toInt32] at htgid
    rw [htgid, UInt32.toNat_ofNat_of_lt' hlt]
  · intro h
    rw [← h, UInt32.ofNat_toNat]

theorem skips_iff {e : Event} (hpid : env.pid = .ofInt n) (hpos : 0 < n) (hmax : n ≤ pidMax) :
    env.skips e ↔ e.tgid.toNat ≠ n := by
  have hne : env.pid ≠ 0 := by
    intro h0
    -- 0 is the pid of the tgid 0
    have hzero : (0 : UInt32).toInt32 = .ofInt n := h0.symm.trans hpid
    rw [toInt32_eq_iff hmax] at hzero
    exact hpos.ne hzero
  rw [Env.skips, and_iff_right hne, hpid, ne_eq, toInt32_eq_iff hmax]

/-- The filter is the same in all callbacks. -/
theorem printed_eq (base : ε → Event) {callback : Locals → ε → Option Line}
    {print : Locals → ε → Line}
    (hc : ∀ l x, callback l x = if env.skips (base x) then none else some (print l x))
    (hpid : env.pid = .ofInt n) (hpos : 0 < n) (hmax : n ≤ pidMax) (events : List (Locals × ε)) :
    printed callback events = events.filter fun x => (base x.2).tgid.toNat = n := by
  refine List.filter_congr fun x _ => ?_
  have hskips : env.skips (base x.2) ↔ (base x.2).tgid.toNat ≠ n := skips_iff hpid hpos hmax
  rw [hc]
  by_cases h : (base x.2).tgid.toNat = n
  · rw [if_neg (fun hs => hskips.mp hs h), decide_eq_true h]
    rfl
  · rw [if_pos (hskips.mpr h), decide_eq_false h]
    rfl

theorem filtersOn_of_pid (hpid : env.pid = .ofInt n) (hpos : 0 < n) (hmax : n ≤ pidMax) :
    FiltersOn env n where
  clientEvent := printed_eq ClientEvent.toEvent (fun _ _ => rfl) hpid hpos hmax
  clientTcpSendmsgEvent := printed_eq ClientEvent.toEvent (fun _ _ => rfl) hpid hpos hmax
  serviceEvent := printed_eq id (fun _ _ => rfl) hpid hpos hmax
  serviceTcpRecvmsgEvent := printed_eq id (fun _ _ => rfl) hpid hpos hmax

end Filter

/-! ### The option and the filter -/

/-- What `-p` should do with its argument: whenever a command line with this argument, as
that of the last `-p`, is accepted, then it is the numeral of a pid, and the callbacks
filter on this pid. -/
def PidOption (s : CString) : Prop :=
  ∀ keys tr o, (pidArgs keys).getLast? = some s → (parseArgs keys {}).Runs tr (.ok o) →
    ∃ n, DenotesPid s n ∧ FiltersOn o.env n

theorem runs_singleton_iff {s : CString} {tr : Trace ArgOp ArgOp.Res} {o : Options} :
    (parseArgs [.pid s] {}).Runs tr (.ok o) ↔
      ¬ Erange s ∧ tr = [] ∧ o = { pid := .ofInt (strtol s) } := by
  refine Iff.trans ?_ (runs_pid_iff (o := {}))
  constructor
  · intro h
    obtain ⟨tr₁, tr₂, r, rfl, hkey, hrest⟩ := Prog.runs_bind_iff.mp h
    cases r with
    | error status => cases (Prog.runs_ret_iff.mp hrest).2
    | ok o₁ =>
      obtain ⟨rfl, ho⟩ := Prog.runs_ret_iff.mp hrest
      rw [List.append_nil, ho]
      exact hkey
  · intro h
    exact Prog.runs_bind_iff.mpr ⟨tr, [], .ok o, (List.append_nil tr).symm, h, .ret _⟩

theorem denotesPid_of_pidOption {s : CString} (h : PidOption s) (hs : ¬ Erange s) :
    ∃ n, DenotesPid s n := by
  obtain ⟨n, hn, -⟩ := h [.pid s] [] _ rfl (runs_singleton_iff.mpr ⟨hs, rfl, rfl⟩)
  exact ⟨n, hn⟩

/-- **Which arguments of `-p` are treated right.**  Those that are the numeral of a
positive `pid_t`, and those for which `strtol` reports a number beyond the range of
`long`; the latter are the only ones that are rejected. -/
theorem pidOption_iff (s : CString) :
    (PidOption s ↔ (∃ n, DenotesPid s n) ∨ Erange s) ∧
      ((∀ tr o, ¬ (parseArgs [.pid s] {}).Runs tr (.ok o)) ↔ Erange s) := by
  constructor
  · constructor
    · intro h
      by_cases hs : Erange s
      · exact .inr hs
      · exact .inl (denotesPid_of_pidOption h hs)
    · intro h keys tr o hlast hrun
      obtain ⟨hpid, hrange⟩ := pid_of_runs hrun
      rcases h with ⟨n, hn⟩ | hs
      · refine ⟨n, hn, filtersOn_of_pid ?_ hn.2.1 hn.2.2⟩
        rw [Options.env, hpid, hlast, Option.elim_some, strtol_of_denotesPid hn]
      · exact absurd hs (hrange s (List.mem_of_getLast? hlast))
  · constructor
    · intro h
      by_contra hs
      exact h _ _ (runs_singleton_iff.mpr ⟨hs, rfl, rfl⟩)
    · intro hs tr o hrun
      exact (runs_singleton_iff.mp hrun).1 hs

/-- `abc` -/
def noNumber : CString := ⟨[97, 98, 99], by decide⟩

/-- `185x` -/
def trailing : CString := ⟨[49, 56, 53, 120], by decide⟩

/-- `4294967481`, which is 2³² + 185 -/
def beyondPid : CString := ⟨[52, 50, 57, 52, 57, 54, 55, 52, 56, 49], by decide⟩

/-- **Other texts are taken as a pid**, or as no filter at all. -/
theorem pidOption_accepts :
    (parseArgs [.pid noNumber] {}).Runs [] (.ok { pid := 0 }) ∧
    (parseArgs [.pid trailing] {}).Runs [] (.ok { pid := 185 }) ∧
    (parseArgs [.pid beyondPid] {}).Runs [] (.ok { pid := 185 }) ∧
    (∀ events, printed (Client.handleEvent (Options.env { pid := 0 })) events = events) ∧
    ¬ PidOption noNumber ∧ ¬ PidOption trailing ∧ ¬ PidOption beyondPid := by
  refine ⟨runs_singleton_iff.mpr (by decide), runs_singleton_iff.mpr (by decide),
    runs_singleton_iff.mpr (by decide), ?_, ?_, ?_, ?_⟩
  · intro events
    exact List.filter_eq_self.mpr fun x _ => rfl
  · intro h
    obtain ⟨n, hn⟩ := denotesPid_of_pidOption h (by decide)
    exact absurd (hn.1.2.1 97 (by decide)) (by decide)
  · intro h
    obtain ⟨n, hn⟩ := denotesPid_of_pidOption h (by decide)
    exact absurd (hn.1.2.1 120 (by decide)) (by decide)
  · intro h
    obtain ⟨n, hn⟩ := denotesPid_of_pidOption h (by decide)
    have hval : (n : Int) = 4294967481 := (strtol_of_denotesPid hn).symm
    have hmax : n ≤ 2147483647 := hn.2.2
    omega

end NetworkAnalyse.Ebpf
