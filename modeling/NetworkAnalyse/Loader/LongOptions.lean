import NetworkAnalyse.Loader.Params

/-!
# The table of long options

`option_wrappers_to_options` of `common/common_params.c` makes the table that
`getopt_long` reads out of the program's own table of options.  The own table ends with an
entry without a name, and so should the copy: `getopt_long` reads on until it comes to an
entry that is all zero.  The last entry is not counted, and therefore not copied.

* `parseCmdlineArgs_eq`: the call in `parse_cmdline_args`.
* `options_of_runs`: the copy has the entries of the table, in their order.
* `getoptRead_eq_none`: it has no end.
* `longOptions_iff`: which names `getopt_long` can look up in it.
-/

namespace NetworkAnalyse.Loader.Params

open Lib

/-! ### The tables -/

/-- `struct option`; `flag` is an address. -/
structure LongOption where
  name : Option CString
  hasArg : Int32
  flag : Option Nat
  val : Int32
  deriving DecidableEq

/-- The entry that ends a table. -/
def LongOption.zero : LongOption := ⟨none, 0, none, 0⟩

/-- `struct option_wrapper`, as far as it is copied; the other members are for the usage
text. -/
structure OptionWrapper where
  option : LongOption
  deriving DecidableEq

/-- A table of options: its last entry has no name. -/
structure Table where
  entries : List OptionWrapper
  ends : ∃ w ∈ entries.getLast?, w.option.name = none

/-- `for (i = 0; wrapper[i].option.name != 0; i++) {}` -/
def numOptions : List OptionWrapper → Nat
  | [] => 0
  | w :: ws => if w.option.name ≠ none then numOptions ws + 1 else 0

/-- The result is the new block of entries, or `none` for -1. -/
def optionWrappersToOptions (wrapper : Table) : M (Option (List LongOption)) := do
  let num := numOptions wrapper.entries
  if !(← call .malloc) then
    return none
  return some ((wrapper.entries.take num).map (·.option))

/-- `parse_cmdline_args` starts with this call. -/
theorem parseCmdlineArgs_eq (wrapper : Table) (opts : List Getopt) (cfg : Config) :
    parseCmdlineArgs opts cfg = (do
      match ← optionWrappersToOptions wrapper with
      | none => return .error (.exit exitFailOption)
      | some _ => parseLoop opts cfg) := by
  refine congrArg (Prog.call _) (funext fun ok => ?_)
  cases ok with
  | false => rfl
  | true => rfl

/-! ### How `getopt_long` reads a table -/

/-- What a search in a table comes to. -/
inductive Lookup
  | found (o : LongOption)
  | notFound
  /-- it reads an entry behind the block -/
  | pastEnd
  deriving DecidableEq

/-- The search for a name, entry by entry. -/
def getoptLookup (name : CString) : List LongOption → Lookup
  | [] => .pastEnd
  | o :: os =>
    if o = .zero then .notFound
    else if o.name = some name then .found o
    else getoptLookup name os

/-- All entries up to the one that ends the table; `none` if the reader comes to the end of
the block before. -/
def getoptRead : List LongOption → Option (List LongOption)
  | [] => none
  | o :: os => if o = .zero then some [] else (getoptRead os).map (o :: ·)

/-- The option entries of a table. -/
def Table.options (wrapper : Table) : List LongOption :=
  (wrapper.entries.takeWhile (·.option.name ≠ none)).map (·.option)

/-- What a search for a name should come to. -/
def Table.lookup (wrapper : Table) (name : CString) : Lookup :=
  (wrapper.options.find? (·.name = some name)).elim .notFound .found

/-! ### The copy -/

section Copy

variable {wrapper : Table} {block : List LongOption} {tr : Trace Op Op.Res} {name : CString}

theorem take_numOptions (ws : List OptionWrapper) :
    ws.take (numOptions ws) = ws.takeWhile (·.option.name ≠ none) := by
  induction ws with
  | nil => rfl
  | cons w ws ih =>
    by_cases hw : w.option.name = none
    · simp [numOptions, hw]
    · simp [numOptions, hw, ih]

theorem numOptions_lt_of_mem {ws : List OptionWrapper} {w : OptionWrapper} (hmem : w ∈ ws)
    (hname : w.option.name = none) : numOptions ws < ws.length := by
  induction ws with
  | nil => cases hmem
  | cons v ws ih =>
    rw [numOptions, List.length_cons]
    split
    · next hv =>
      rcases List.mem_cons.mp hmem with rfl | hmem
      · exact absurd hname hv
      · exact Nat.succ_lt_succ (ih hmem)
    · exact Nat.succ_pos _

/-- The loop that counts stays in the table. -/
theorem numOptions_lt (wrapper : Table) : numOptions wrapper.entries < wrapper.entries.length := by
  obtain ⟨w, hw, hname⟩ := wrapper.ends
  exact numOptions_lt_of_mem (List.mem_of_getLast? hw) hname

theorem name_ne_none {o : LongOption} (h : o ∈ wrapper.options) : o.name ≠ none := by
  obtain ⟨w, hw, rfl⟩ := List.mem_map.mp h
  simpa using List.mem_takeWhile_imp hw

theorem options_of_runs (h : (optionWrappersToOptions wrapper).Runs tr (some block)) :
    block = wrapper.options := by
  obtain ⟨ok, rest, -, h⟩ := Prog.runs_call_iff.mp h
  cases ok with
  | false => cases (Prog.runs_ret_iff.mp h).2
  | true =>
    have hblock := Option.some.inj (Prog.runs_ret_iff.mp h).2
    rw [hblock, take_numOptions, Table.options]

/-- No entry with a name ends the table. -/
theorem ne_zero {o : LongOption} (h : o.name ≠ none) : o ≠ .zero := by
  intro hz
  exact h (congrArg LongOption.name hz)

theorem getoptRead_eq_none (h : ∀ o ∈ block, o.name ≠ none) : getoptRead block = none := by
  induction block with
  | nil => rfl
  | cons o os ih =>
    rw [List.forall_mem_cons] at h
    rw [getoptRead, if_neg (ne_zero h.1), ih h.2]
    rfl

theorem getoptLookup_eq (h : ∀ o ∈ block, o.name ≠ none) :
    getoptLookup name block = (block.find? (·.name = some name)).elim .pastEnd .found := by
  induction block with
  | nil => rfl
  | cons o os ih =>
    rw [List.forall_mem_cons] at h
    rw [getoptLookup, if_neg (ne_zero h.1), ih h.2]
    by_cases ho : o.name = some name
    · simp [ho]
    · simp [ho]

/-- A search in the copy comes to the right end if it comes to an entry at all. -/
theorem getoptLookup_options_iff :
    getoptLookup name wrapper.options = wrapper.lookup name ↔
      ∃ o ∈ wrapper.options, o.name = some name := by
  rw [getoptLookup_eq fun o => name_ne_none, Table.lookup]
  cases hfind : wrapper.options.find? (·.name = some name) with
  | none =>
    refine iff_of_false Lookup.noConfusion ?_
    intro ⟨o, ho, hname⟩
    exact absurd hname (by simpa using List.find?_eq_none.mp hfind o ho)
  | some o =>
    refine iff_of_true rfl ⟨o, List.mem_of_find?_eq_some hfind, ?_⟩
    simpa using List.find?_some hfind

/-- **What `getopt_long` can do with the table**, for every table that is converted.  The
entries are right, but to read them to the end leads out of the block.  All names of a
command line are looked up as they should be if and only if they are all in the table. -/
theorem longOptions_iff (h : (optionWrappersToOptions wrapper).Runs tr (some block))
    (names : List CString) :
    block = wrapper.options ∧ getoptRead block = none ∧
      ((∀ name ∈ names, getoptLookup name block = wrapper.lookup name) ↔
        ∀ name ∈ names, ∃ o ∈ wrapper.options, o.name = some name) := by
  obtain rfl := options_of_runs h
  refine ⟨rfl, getoptRead_eq_none fun o => name_ne_none, ?_⟩
  exact forall₂_congr fun name _ => getoptLookup_options_iff

end Copy

/-! ### The table of the loader -/

def noArgument : Int32 := 0
def requiredArgument : Int32 := 1

/-- `long_options` of `xdp/xdp_packet_load.c`. -/
def longOptions : Table where
  entries := [
    -- `help`
    ⟨⟨some ⟨[104, 101, 108, 112], by decide⟩, noArgument, none, 104⟩⟩,
    -- `dev`
    ⟨⟨some ⟨[100, 101, 118], by decide⟩, requiredArgument, none, 100⟩⟩,
    -- `skb-mode`
    ⟨⟨some ⟨[115, 107, 98, 45, 109, 111, 100, 101], by decide⟩, noArgument, none, 83⟩⟩,
    -- `native-mode`
    ⟨⟨some ⟨[110, 97, 116, 105, 118, 101, 45, 109, 111, 100, 101], by decide⟩, noArgument, none,
      78⟩⟩,
    -- `auto-mode`
    ⟨⟨some ⟨[97, 117, 116, 111, 45, 109, 111, 100, 101], by decide⟩, noArgument, none, 65⟩⟩,
    -- `unload`
    ⟨⟨some ⟨[117, 110, 108, 111, 97, 100], by decide⟩, requiredArgument, none, 85⟩⟩,
    -- `unload-all`
    ⟨⟨some ⟨[117, 110, 108, 111, 97, 100, 45, 97, 108, 108], by decide⟩, noArgument, none, 4⟩⟩,
    -- `quiet`
    ⟨⟨some ⟨[113, 117, 105, 101, 116], by decide⟩, noArgument, none, 113⟩⟩,
    -- `filename`
    ⟨⟨some ⟨[102, 105, 108, 101, 110, 97, 109, 101], by decide⟩, requiredArgument, none, 1⟩⟩,
    -- `progname`
    ⟨⟨some ⟨[112, 114, 111, 103, 110, 97, 109, 101], by decide⟩, requiredArgument, none, 2⟩⟩,
    ⟨.zero⟩]
  ends := ⟨⟨.zero⟩, rfl, rfl⟩

theorem runs_longOptions :
    (optionWrappersToOptions longOptions).Runs [⟨.malloc, true⟩] (some longOptions.options) := by
  refine Prog.runs_call_iff.mpr ⟨true, _, rfl, ?_⟩
  exact Prog.runs_ret_iff.mpr ⟨rfl, by decide⟩

/-- `dev` -/
def devName : CString := ⟨[100, 101, 118], by decide⟩

/-- `device` -/
def deviceName : CString := ⟨[100, 101, 118, 105, 99, 101], by decide⟩

theorem longOptions_iff_dev :
    getoptLookup devName longOptions.options = longOptions.lookup devName := by
  have hiff := (longOptions_iff runs_longOptions [devName]).2.2
  refine hiff.mpr ?_ devName (List.mem_singleton_self _)
  intro name hname
  obtain rfl := List.mem_singleton.mp hname
  decide

/-- **The search has no end.**  The block has ten entries, and the search for an unknown
name reads an eleventh. -/
theorem unknown_name_pastEnd :
    (optionWrappersToOptions longOptions).Runs [⟨.malloc, true⟩] (some longOptions.options) ∧
      longOptions.options.length = 10 ∧ getoptRead longOptions.options = none ∧
      longOptions.lookup deviceName = .notFound ∧
      getoptLookup deviceName longOptions.options = .pastEnd :=
  ⟨runs_longOptions, by decide, by decide, by decide, by decide⟩

end NetworkAnalyse.Loader.Params
