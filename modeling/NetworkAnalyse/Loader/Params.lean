import NetworkAnalyse.Lib.CharArray
import NetworkAnalyse.Loader.Main

/-!
# The command line

`parse_cmdline_args` of `common/common_params.c`, from the configuration that `main` of
`xdp/xdp_packet_load.c` sets up.  What `getopt_long` returns, call after call, is a list
of options with their arguments; any list is allowed.

`Parsed` says what a list of options makes of a configuration.  It holds of one turn of
the loop (`parsed_of_parseOpt`, one case per option) and is kept when lists of options
are joined (`Parsed.append`), so it holds of the whole loop.

* `parsed_iff`: when the configuration is well formed, for every list of options.
* `monitoring_iff`: when `main` goes on to monitor with it.
-/

namespace NetworkAnalyse.Loader.Params

open Lib CharArray

/-! ### The configuration -/

def ifNamesize : Nat := 16

/-- `1 << 1` -/
def xdpCopy : UInt16 := 2

/-- `1 << 2` -/
def xdpZerocopy : UInt16 := 4

/-- A pointer to a name: `NULL`, or the array beside it. -/
inductive Name
  | null
  | buf
  deriving DecidableEq, Repr

/-- `struct config`, and the global `verbose`. -/
structure Config where
  attachMode : AttachMode
  ifindex : Int32
  ifname : Name
  ifnameBuf : CharArray ifNamesize
  redirectIfindex : Int32
  redirectIfname : Name
  redirectIfnameBuf : CharArray ifNamesize
  doUnload : Bool
  progId : UInt32
  reuseMaps : Bool
  filename : CharArray 512
  progname : CharArray 32
  srcMac : CharArray 18
  destMac : CharArray 18
  xskBindFlags : UInt16
  xskIfQueue : Int32
  xskPollMode : Bool
  unloadAll : Bool
  verbose : Bool

/-- `xdp_packet_kern.o` -/
def defaultFilename : CString :=
  ⟨[120, 100, 112, 95, 112, 97, 99, 107, 101, 116, 95, 107, 101, 114, 110, 46, 111], by decide⟩

/-- `xdp_prog` -/
def defaultProgname : CString := ⟨[120, 100, 112, 95, 112, 114, 111, 103], by decide⟩

/-- What `main` sets up. -/
def mainConfig : Config where
  attachMode := .unspec
  ifindex := -1
  ifname := .null
  ifnameBuf := zero _
  redirectIfindex := 0
  redirectIfname := .null
  redirectIfnameBuf := zero _
  doUnload := false
  progId := 0
  reuseMaps := false
  filename := strncpy _ defaultFilename
  progname := strncpy _ defaultProgname
  srcMac := zero _
  destMac := zero _
  xskBindFlags := 0
  xskIfQueue := 0
  xskPollMode := false
  unloadAll := false
  verbose := true

/-- What `main` reads of it afterwards. -/
def Config.loader (cfg : Config) : Loader.Config :=
  ⟨cfg.attachMode, cfg.ifindex.toInt, cfg.doUnload, cfg.progId, cfg.unloadAll⟩

/-! ### The options -/

/-- What `getopt_long` returns, with `optarg`. -/
inductive Getopt
  | dev (optarg : CString)
  | redirectDev (optarg : CString)
  | autoMode
  | skbMode
  | nativeMode
  | offloadMode
  | reuseMaps
  | unload (optarg : CString)
  | pollMode
  | quiet
  | queue (optarg : CString)
  | filename (optarg : CString)
  | progname (optarg : CString)
  | srcMac (optarg : CString)
  | destMac (optarg : CString)
  | copy
  | zeroCopy
  | unloadAll
  | help
  /-- `?`, and `F`, which has no case -/
  | other

def isSpace (c : UInt8) : Bool := c == 32 || (9 ≤ c && c ≤ 13)

def isDigit (c : UInt8) : Bool := 48 ≤ c && c ≤ 57

/-- The value of the digits at the start of a text. -/
def digits (s : List UInt8) : Nat :=
  (s.takeWhile isDigit).foldl (fun n c => 10 * n + (c.toNat - 48)) 0

def longMax : Int := 9223372036854775807
def longMin : Int := -9223372036854775808

/-- `strtol`, which stays within the range of a `long`. -/
def strtol (s : CString) : Int :=
  match s.1.dropWhile isSpace with
  | 45 :: s => max (-(digits s)) longMin
  | 43 :: s => min (digits s) longMax
  | s => min (digits s) longMax

def atoi (s : CString) : Int32 := .ofInt (strtol s)

inductive Op
  | malloc
  | ifNametoindex (name : List UInt8)

@[reducible] def Op.Res : Op → Type
  | malloc => Bool
  | ifNametoindex _ => UInt32

abbrev M (α : Type) := Prog Op Op.Res α

def call (op : Op) : M op.Res := .perform op

/-- The label `error` and the cases that fall through to it. -/
def usage : Except Exit Config := .error (.exit exitFailOption)

/-- The cases `d` and `r`; `set` writes the name and its index. -/
def parseDev (optarg : CString) (set : CharArray ifNamesize → Int32 → Config) :
    M (Except Exit Config) := do
  if ifNamesize ≤ optarg.1.length then
    return usage
  let ifname := strncpy ifNamesize optarg
  let ifindex ← call (.ifNametoindex ifname.text)
  if ifindex = 0 then
    return usage
  return .ok (set ifname ifindex.toInt32)

/-- One turn of the loop. -/
def parseOpt (cfg : Config) : Getopt → M (Except Exit Config)
  | .dev optarg => parseDev optarg fun name index =>
      { cfg with ifname := .buf, ifnameBuf := name, ifindex := index }
  | .redirectDev optarg => parseDev optarg fun name index =>
      { cfg with redirectIfname := .buf, redirectIfnameBuf := name, redirectIfindex := index }
  | .autoMode => return .ok { cfg with attachMode := .unspec }
  | .skbMode => return .ok { cfg with
      attachMode := .skb
      xskBindFlags := (cfg.xskBindFlags &&& ~~~xdpZerocopy) ||| xdpCopy }
  | .nativeMode => return .ok { cfg with attachMode := .native }
  | .offloadMode => return .ok { cfg with attachMode := .hw }
  | .reuseMaps => return .ok { cfg with reuseMaps := true }
  | .unload optarg => return .ok { cfg with doUnload := true, progId := (atoi optarg).toUInt32 }
  | .pollMode => return .ok { cfg with xskPollMode := true }
  | .quiet => return .ok { cfg with verbose := false }
  | .queue optarg => return .ok { cfg with xskIfQueue := atoi optarg }
  | .filename optarg => return .ok { cfg with filename := strncpy _ optarg }
  | .progname optarg => return .ok { cfg with progname := strncpy _ optarg }
  | .srcMac optarg => return .ok { cfg with srcMac := strncpy _ optarg }
  | .destMac optarg => return .ok { cfg with destMac := strncpy _ optarg }
  | .copy => return .ok { cfg with
      xskBindFlags := (cfg.xskBindFlags &&& ~~~xdpZerocopy) ||| xdpCopy }
  | .zeroCopy => return .ok { cfg with
      xskBindFlags := (cfg.xskBindFlags &&& ~~~xdpCopy) ||| xdpZerocopy }
  | .unloadAll => return .ok { cfg with unloadAll := true }
  | .help => return usage
  | .other => return usage

/-- `while ((opt = getopt_long(...)) != -1)` -/
def parseLoop : List Getopt → Config → M (Except Exit Config)
  | [], cfg => return .ok cfg
  | opt :: opts, cfg => do
    match ← parseOpt cfg opt with
    | .error e => return .error e
    | .ok cfg => parseLoop opts cfg

def parseCmdlineArgs (opts : List Getopt) (cfg : Config) : M (Except Exit Config) := do
  -- `option_wrappers_to_options`
  if !(← call .malloc) then
    return .error (.exit exitFailOption)
  parseLoop opts cfg

/-! ### Arrays and their arguments -/

/-- The arrays that an option fills. -/
inductive Arr
  | ifname
  | redirectIfname
  | filename
  | progname
  | srcMac
  | destMac
  deriving DecidableEq, Repr

def Arr.size : Arr → Nat
  | ifname => ifNamesize
  | redirectIfname => ifNamesize
  | filename => 512
  | progname => 32
  | srcMac => 18
  | destMac => 18

/-- The arrays for which the length of the argument is checked. -/
def Arr.Checked : Arr → Prop
  | ifname => True
  | redirectIfname => True
  | _ => False

def Config.arr (cfg : Config) : (a : Arr) → CharArray a.size
  | .ifname => cfg.ifnameBuf
  | .redirectIfname => cfg.redirectIfnameBuf
  | .filename => cfg.filename
  | .progname => cfg.progname
  | .srcMac => cfg.srcMac
  | .destMac => cfg.destMac

/-- What an array holds if no option fills it. -/
def Arr.default : Arr → CString
  | filename => defaultFilename
  | progname => defaultProgname
  | _ => ⟨[], List.not_mem_nil⟩

/-- The argument of an option that fills the array. -/
def Getopt.arg : Getopt → Arr → Option CString
  | .dev s, .ifname => some s
  | .redirectDev s, .redirectIfname => some s
  | .filename s, .filename => some s
  | .progname s, .progname => some s
  | .srcMac s, .srcMac => some s
  | .destMac s, .destMac => some s
  | _, _ => none

/-- The arguments given for an array, in their order. -/
def args (opts : List Getopt) (a : Arr) : List CString := opts.filterMap (·.arg a)

/-- The last argument given for an array, or what `main` has put there. -/
def lastArg (opts : List Getopt) (a : Arr) : CString := (args opts a).getLast?.getD a.default

theorem args_append (opts₁ opts₂ : List Getopt) (a : Arr) :
    args (opts₁ ++ opts₂) a = args opts₁ a ++ args opts₂ a := List.filterMap_append

theorem arr_mainConfig (a : Arr) : mainConfig.arr a = strncpy a.size a.default := by
  cases a with
  | filename => rfl
  | progname => rfl
  | _ => exact zero_eq_strncpy _

theorem length_default (a : Arr) : a.default.1.length < a.size := by
  cases a <;> decide

/-! ### What the options do -/

/-- `--unload` and `--unload-all`. -/
def Getopt.unloads : Getopt → Bool
  | .unload _ => true
  | .unloadAll => true
  | _ => false

namespace Config

def unloads (cfg : Config) : Bool := cfg.doUnload || cfg.unloadAll

/-- `ifname` has a name, and `ifindex` the index that `if_nametoindex` gave for it. -/
def Named (cfg : Config) (tr : Trace Op Op.Res) : Prop :=
  cfg.ifname = .buf ∧
    ∃ index, ⟨.ifNametoindex cfg.ifnameBuf.text, index⟩ ∈ tr ∧ cfg.ifindex = index.toInt32

/-- `XDP_COPY` and `XDP_ZEROCOPY` are not both set. -/
def Exclusive (cfg : Config) : Prop :=
  cfg.xskBindFlags &&& xdpCopy = 0 ∨ cfg.xskBindFlags &&& xdpZerocopy = 0

end Config

/-- What the options `opts` make of a configuration, if they are accepted. -/
structure Parsed (cfg : Config) (opts : List Getopt) (tr : Trace Op Op.Res) (cfg' : Config) :
    Prop where
  arr : ∀ a, cfg'.arr a = (args opts a).getLast?.elim (cfg.arr a) (strncpy a.size)
  checked : ∀ a, a.Checked → ∀ s ∈ args opts a, s.1.length < a.size
  named : cfg'.ifindex = cfg.ifindex ∧ cfg'.ifname = cfg.ifname ∧ cfg'.ifnameBuf = cfg.ifnameBuf ∨
    cfg'.Named tr
  exclusive : cfg.Exclusive → cfg'.Exclusive
  unloads : cfg'.unloads = (cfg.unloads || opts.any Getopt.unloads)

section Parse

variable {cfg cfg₁ cfg' : Config} {opt : Getopt} {opts opts₁ opts₂ : List Getopt}
  {tr tr₁ tr₂ : Trace Op Op.Res}

theorem Config.Named.mono (h : cfg.Named tr₁) (hsub : tr₁ ⊆ tr) : cfg.Named tr := by
  obtain ⟨hname, index, hmem, hindex⟩ := h
  exact ⟨hname, index, hsub hmem, hindex⟩

theorem parsed_nil (cfg : Config) : Parsed cfg [] [] cfg where
  arr _ := rfl
  checked _ _ _ h := absurd h List.not_mem_nil
  named := .inl ⟨rfl, rfl, rfl⟩
  exclusive h := h
  unloads := (Bool.or_false _).symm

theorem Parsed.append (h₁ : Parsed cfg opts₁ tr₁ cfg₁) (h₂ : Parsed cfg₁ opts₂ tr₂ cfg') :
    Parsed cfg (opts₁ ++ opts₂) (tr₁ ++ tr₂) cfg' where
  arr a := by
    rw [h₂.arr, h₁.arr, args_append, List.getLast?_append]
    cases (args opts₂ a).getLast? with
    | none => rfl
    | some s => rfl
  checked a ha s hs := by
    rw [args_append, List.mem_append] at hs
    exact hs.elim (h₁.checked a ha s) (h₂.checked a ha s)
  named := by
    rcases h₂.named with ⟨hindex, hname, hbuf⟩ | hnamed
    · rw [Config.Named, hindex, hname, hbuf]
      exact h₁.named.imp_right fun h => h.mono (List.subset_append_left _ _)
    · exact .inr (hnamed.mono (List.subset_append_right _ _))
  exclusive h := h₂.exclusive (h₁.exclusive h)
  unloads := by rw [h₂.unloads, h₁.unloads, List.any_append, Bool.or_assoc]

theorem set_clear_and (flags : UInt16) {set clear : UInt16} (h : set &&& clear = 0) :
    ((flags &&& ~~~clear) ||| set) &&& clear = 0 := by
  have h' : set.toBitVec &&& clear.toBitVec = 0#16 := congrArg UInt16.toBitVec h
  apply UInt16.toBitVec_inj.mp
  simp only [UInt16.toBitVec_and, UInt16.toBitVec_or, UInt16.toBitVec_not]
  rw [BitVec.and_or_distrib_right, h', BitVec.and_assoc]
  simp

theorem runs_parseDev {s : CString} {set : CharArray ifNamesize → Int32 → Config}
    (h : (parseDev s set).Runs tr (.ok cfg')) :
    s.1.length < ifNamesize ∧ ∃ index, ⟨.ifNametoindex (strncpy ifNamesize s).text, index⟩ ∈ tr ∧
      cfg' = set (strncpy ifNamesize s) index.toInt32 := by
  by_cases hlen : ifNamesize ≤ s.1.length
  · rw [parseDev, if_pos hlen] at h
    cases (Prog.runs_ret_iff.mp h).2
  · simp only [parseDev, if_neg hlen, call, Prog.perform_bind, Prog.runs_call_iff] at h
    obtain ⟨index, rest, rfl, h⟩ := h
    refine ⟨Nat.lt_of_not_le hlen, index, List.mem_cons_self, ?_⟩
    split_ifs at h with h0
    · cases (Prog.runs_ret_iff.mp h).2
    · exact Except.ok.inj (Prog.runs_ret_iff.mp h).2

/-- One turn of the loop, case by case. -/
theorem parsed_of_parseOpt (h : (parseOpt cfg opt).Runs tr (.ok cfg')) :
    Parsed cfg [opt] tr cfg' := by
  cases opt with
  | dev s =>
    rw [parseOpt] at h
    obtain ⟨hlen, index, hmem, rfl⟩ := runs_parseDev h
    refine ⟨fun a => ?_, fun a ha t ht => ?_, .inr ⟨rfl, index, hmem, rfl⟩, id,
      (Bool.or_false _).symm⟩
    · cases a <;> rfl
    · cases a with
      | ifname => exact List.mem_singleton.mp ht ▸ hlen
      | _ => cases ht
  | redirectDev s =>
    rw [parseOpt] at h
    obtain ⟨hlen, index, hmem, rfl⟩ := runs_parseDev h
    refine ⟨fun a => ?_, fun a ha t ht => ?_, .inl ⟨rfl, rfl, rfl⟩, id, (Bool.or_false _).symm⟩
    · cases a <;> rfl
    · cases a with
      | redirectIfname => exact List.mem_singleton.mp ht ▸ hlen
      | _ => cases ht
  | skbMode | copy =>
    cases (Prog.runs_ret_iff.mp h).2
    refine ⟨fun a => ?_, fun a ha t ht => ?_, .inl ⟨rfl, rfl, rfl⟩, fun _ => .inr ?_,
      (Bool.or_false _).symm⟩
    · cases a <;> rfl
    · cases a <;> cases ht
    · exact set_clear_and _ (by decide)
  | zeroCopy =>
    cases (Prog.runs_ret_iff.mp h).2
    refine ⟨fun a => ?_, fun a ha t ht => ?_, .inl ⟨rfl, rfl, rfl⟩, fun _ => .inl ?_,
      (Bool.or_false _).symm⟩
    · cases a <;> rfl
    · cases a <;> cases ht
    · exact set_clear_and _ (by decide)
  | help | other => cases (Prog.runs_ret_iff.mp h).2
  | unload | unloadAll =>
    cases (Prog.runs_ret_iff.mp h).2
    refine ⟨fun a => ?_, fun a ha t ht => ?_, .inl ⟨rfl, rfl, rfl⟩, id, ?_⟩
    · cases a <;> rfl
    · cases a <;> cases ht
    · simp [Config.unloads, Getopt.unloads]
  | _ =>
    cases (Prog.runs_ret_iff.mp h).2
    refine ⟨fun a => ?_, fun a ha t ht => ?_, .inl ⟨rfl, rfl, rfl⟩, id, (Bool.or_false _).symm⟩
    · cases a <;> rfl
    · cases a <;> first | exact False.elim ha | cases ht

/-- The loop, by induction on the options. -/
theorem parsed_of_parseLoop (h : (parseLoop opts cfg).Runs tr (.ok cfg')) :
    Parsed cfg opts tr cfg' := by
  induction opts generalizing cfg tr with
  | nil =>
    obtain ⟨rfl, heq⟩ := Prog.runs_ret_iff.mp h
    rw [Except.ok.inj heq]
    exact parsed_nil cfg
  | cons opt opts ih =>
    rw [parseLoop] at h
    obtain ⟨tr₁, tr₂, r, rfl, hopt, hrest⟩ := Prog.runs_bind_iff.mp h
    cases r with
    | error e => cases (Prog.runs_ret_iff.mp hrest).2
    | ok cfg₁ => exact (parsed_of_parseOpt hopt).append (ih hrest)

theorem parsed_of_runs (h : (parseCmdlineArgs opts cfg).Runs tr (.ok cfg')) :
    ∃ rest, rest ⊆ tr ∧ Parsed cfg opts rest cfg' := by
  simp only [parseCmdlineArgs, call, Prog.perform_bind, Prog.runs_call_iff] at h
  obtain ⟨ok, rest, rfl, h⟩ := h
  refine ⟨rest, List.subset_cons_self _ _, ?_⟩
  cases ok with
  | false => cases (Prog.runs_ret_iff.mp h).2
  | true => exact parsed_of_parseLoop h

theorem arr_of_runs (h : (parseCmdlineArgs opts mainConfig).Runs tr (.ok cfg)) (a : Arr) :
    cfg.arr a = strncpy a.size (lastArg opts a) := by
  obtain ⟨rest, -, hp⟩ := parsed_of_runs h
  rw [hp.arr, arr_mainConfig, lastArg]
  cases (args opts a).getLast? with
  | none => rfl
  | some s => rfl

theorem length_lastArg {a : Arr} (h : ∀ s ∈ args opts a, s.1.length < a.size) :
    (lastArg opts a).1.length < a.size := by
  rw [lastArg]
  cases hl : (args opts a).getLast? with
  | none => exact length_default a
  | some s => exact h s (List.mem_of_getLast? hl)

/-- A configuration as it should come out of the command line. -/
structure WellFormed (opts : List Getopt) (tr : Trace Op Op.Res) (cfg : Config) : Prop where
  holds : ∀ a, (cfg.arr a).Holds (lastArg opts a)
  /-- an argument that does not fit is rejected -/
  fits : ∀ a, ∀ s ∈ args opts a, s.1.length < a.size
  index : cfg.ifindex = -1 ∨ cfg.Named tr
  exclusive : cfg.Exclusive

/-- **When the configuration is well formed**, for every list of options that is accepted.
An array holds the last of its arguments, terminated, exactly if this argument is shorter
than the array.  The index and the flags are always as they should be; the whole
configuration is exactly if the arguments for the arrays without a check all fit. -/
theorem parsed_iff (h : (parseCmdlineArgs opts mainConfig).Runs tr (.ok cfg)) :
    (∀ a, (cfg.arr a).Holds (lastArg opts a) ↔ (lastArg opts a).1.length < a.size) ∧
    (cfg.ifindex = -1 ∨ cfg.Named tr) ∧ cfg.Exclusive ∧
    (WellFormed opts tr cfg ↔ ∀ a, ¬ a.Checked → ∀ s ∈ args opts a, s.1.length < a.size) := by
  obtain ⟨rest, hsub, hp⟩ := parsed_of_runs h
  have hholds : ∀ a, (cfg.arr a).Holds (lastArg opts a) ↔ (lastArg opts a).1.length < a.size := by
    intro a
    rw [arr_of_runs h]
    exact holds_strncpy_iff
  have hindex : cfg.ifindex = -1 ∨ cfg.Named tr :=
    hp.named.imp (fun hsame => hsame.1) fun hnamed => hnamed.mono hsub
  have hexclusive : cfg.Exclusive := hp.exclusive (.inl (by decide))
  refine ⟨hholds, hindex, hexclusive, fun hwf a _ => hwf.fits a, fun hfits => ?_⟩
  have hall : ∀ a, ∀ s ∈ args opts a, s.1.length < a.size := by
    intro a
    by_cases ha : a.Checked
    · exact hp.checked a ha
    · exact hfits a ha
  exact ⟨fun a => (hholds a).mpr (length_lastArg (hall a)), hall, hindex, hexclusive⟩

/-- `main` goes on to monitor if there is a device and no option to unload. -/
theorem monitoring_iff (h : (parseCmdlineArgs opts mainConfig).Runs tr (.ok cfg)) :
    cfg.loader.Monitoring ↔ cfg.ifindex ≠ -1 ∧ ∀ opt ∈ opts, opt.unloads = false := by
  obtain ⟨rest, -, hp⟩ := parsed_of_runs h
  have hunloads : cfg.unloads = false ↔ ∀ opt ∈ opts, opt.unloads = false := by
    rw [hp.unloads]
    simp [Config.unloads, mainConfig]
  have hindex : cfg.loader.ifindex ≠ -1 ↔ cfg.ifindex ≠ -1 := by
    rw [not_iff_not]
    exact Int32.toInt_inj (y := -1)
  rw [← hunloads, Config.unloads, Bool.or_eq_false_iff, ← hindex]
  exact ⟨fun hm => ⟨hm.1, hm.2, hm.3⟩, fun hm => ⟨hm.1, hm.2.1, hm.2.2⟩⟩

end Parse

/-! ### Two command lines -/

/-- `lo` -/
def lo : CString := ⟨[108, 111], by decide⟩

/-- A name of `n` characters. -/
def longName (n : Nat) : CString := ⟨List.replicate n 120, by simp⟩

theorem runs_dev_progname (s : CString) :
    ∃ tr cfg, (parseCmdlineArgs [.dev lo, .progname s] mainConfig).Runs tr (.ok cfg) := by
  refine ⟨[⟨.malloc, true⟩, ⟨.ifNametoindex (strncpy ifNamesize lo).text, 1⟩],
    { mainConfig with
      ifname := .buf
      ifnameBuf := strncpy _ lo
      ifindex := 1
      progname := strncpy _ s }, ?_⟩
  refine Prog.runs_call_iff.mpr ⟨true, _, rfl, ?_⟩
  refine Prog.runs_call_iff.mpr ⟨1, _, rfl, ?_⟩
  exact .ret _

theorem parsed_iff_example :
    ∃ tr cfg, (parseCmdlineArgs [.dev lo, .progname (longName 31)] mainConfig).Runs tr (.ok cfg) ∧
      WellFormed [.dev lo, .progname (longName 31)] tr cfg := by
  obtain ⟨tr, cfg, hrun⟩ := runs_dev_progname (longName 31)
  refine ⟨tr, cfg, hrun, (parsed_iff hrun).2.2.2.mpr fun a ha s hs => ?_⟩
  cases a with
  | progname =>
    obtain rfl : s = longName 31 := List.mem_singleton.mp hs
    decide
  | ifname => exact absurd trivial ha
  | _ => cases hs

/-- **A name without an end.**  A name of 32 characters for the program is accepted, and
leaves no terminating zero in `progname`. -/
theorem progname_unterminated :
    ∃ tr cfg, (parseCmdlineArgs [.dev lo, .progname (longName 32)] mainConfig).Runs tr (.ok cfg) ∧
      0 ∉ cfg.progname.toList := by
  obtain ⟨tr, cfg, hrun⟩ := runs_dev_progname (longName 32)
  refine ⟨tr, cfg, hrun, ?_⟩
  have harr : cfg.progname = strncpy 32 (longName 32) := arr_of_runs hrun .progname
  rw [harr]
  decide

end NetworkAnalyse.Loader.Params
