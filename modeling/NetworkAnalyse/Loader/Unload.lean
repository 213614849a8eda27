import NetworkAnalyse.Loader.Runs

/-!
# Unloading a program by its id

`do_unload` without `unload_all`.  The search for the program goes through the programs
behind the dispatcher, a legacy program and the program in hardware; the last two may be
missing (`NULL`), and then have the id 0, which is also what `atoi` makes of a text
without digits.

* `walk_eq`: the loop over `xdp_multiprog__next_prog` ends, and finds what `findProg` takes.
* `unload_by_id`: what `do_unload` detaches, in which mode, and what it returns, for every
  interface, every id and every outcome of the library calls.
* `unload_fails_detached`: a failure of `do_unload` can come after the detach.
-/

namespace NetworkAnalyse.Loader

open Lib

/-! ### Interfaces -/

namespace Iface

/-- The kernel's ids are positive and distinct, a legacy program is alone, and neither it
nor a dispatcher is in hardware.  libxdp also takes an interface with a program in
hardware only for a legacy one. -/
structure WellFormed (i : Iface) : Prop where
  nodup : i.attached.Nodup
  nonzero : 0 ∉ i.attached
  legacy : i.legacy = true → i.progs.length ≤ 1
  mode : i.mode ≠ .hw

/-- The mode in which a program is attached. -/
def modeOf (i : Iface) (p : ProgId) : Option AttachMode :=
  if p ∈ i.progs then some i.mode else if i.hw = some p then some .hw else none

variable {i : Iface} {p : ProgId}

theorem mem_attached_iff : p ∈ i.attached ↔ p ∈ i.progs ∨ i.hw = some p := by
  rw [attached, List.mem_append, Option.mem_toList]

theorem WellFormed.ne_zero (h : i.WellFormed) (hp : p ∈ i.attached) : p ≠ 0 :=
  fun hzero => h.nonzero (hzero ▸ hp)

/-- A legacy program is the only one. -/
theorem WellFormed.progs_eq (h : i.WellFormed) (hl : i.legacy = true) (hp : p ∈ i.progs) :
    i.progs = [p] := by
  obtain ⟨q, hq⟩ : ∃ q, i.progs = [q] :=
    List.length_eq_one_iff.mp (Nat.le_antisymm (h.legacy hl) (List.length_pos_of_mem hp))
  rw [hq, List.mem_singleton] at hp
  rw [hq, hp]

theorem WellFormed.attached_detach (h : i.WellFormed) (p : ProgId) :
    (i.detach p).attached = i.attached.erase p := by
  rw [h.nodup.erase_eq_filter, attached, attached, List.filter_append]
  congr 1
  · exact List.filter_congr fun q _ => by rw [bne, beq_eq_decide, decide_not]
  · cases hq : i.hw with
    | none => simp [detach, hq]
    | some q =>
      by_cases hqp : q = p
      · simp [detach, hq, hqp]
      · simp [detach, hq, hqp]

end Iface

/-! ### The search -/

/-- `xdp_multiprog__next_prog`, a program being its place in the list; `NULL` is `none`. -/
def nextProg (mp : Multiprog) (prog : Option Nat) : Option Nat :=
  if mp.legacy then none
  else
    let next := prog.elim 0 (· + 1)
    if next < mp.progs.length then some next else none

/-- The loop of the search, for at most `n` turns; `none`: it has not ended yet. -/
def walk (mp : Multiprog) (progId : ProgId) :
    (n : Nat) → (prog : Option Nat) → Option (Option ProgId)
  | 0, _ => none
  | n + 1, prog =>
    match nextProg mp prog with
    | none => some none
    | some next =>
      if xdpProgramId mp.progs[next]? = progId then some mp.progs[next]?
      else walk mp progId n (some next)

section Search

variable {mp : Multiprog} {progId : ProgId}

/-- After `k` programs the loop has the rest of the list to go through. -/
theorem walk_drop (hl : mp.legacy = false) (n : Nat) {prog : Option Nat} {k : Nat}
    (hk : prog.elim 0 (· + 1) = k) (hle : k ≤ mp.progs.length) (hn : mp.progs.length < n + k) :
    walk mp progId n prog = some ((mp.progs.drop k).find? (· = progId)) := by
  induction n generalizing prog k with
  | zero => omega
  | succ n ih =>
    rw [walk, nextProg, hl, hk]
    by_cases hlt : k < mp.progs.length
    · have hget : xdpProgramId mp.progs[k]? = mp.progs[k] := by
        rw [List.getElem?_eq_getElem hlt]
        rfl
      rw [List.drop_eq_getElem_cons hlt, List.find?_cons]
      simp only [Bool.false_eq_true, if_false, if_pos hlt, hget]
      by_cases hid : mp.progs[k] = progId
      · simp [hid, List.getElem?_eq_getElem hlt]
      · rw [if_neg hid, decide_eq_false hid]
        exact ih rfl hlt (by omega)
    · rw [List.drop_of_length_le (by omega)]
      simp [hlt]

/-- **The loop ends**, and finds the first program behind the dispatcher with the id. -/
theorem walk_eq (mp : Multiprog) (progId : ProgId) :
    walk mp progId (mp.progs.length + 1) none = some ((nextProgs mp).find? (· = progId)) := by
  cases hl : mp.legacy with
  | true => simp [walk, nextProg, nextProgs, hl]
  | false =>
    rw [walk_drop hl _ rfl (Nat.zero_le _) (Nat.lt_succ_self _), nextProgs, hl]
    rfl

theorem find?_eq_of_mem {l : List ProgId} (h : progId ∈ l) :
    l.find? (· = progId) = some progId := by
  cases hf : l.find? (· = progId) with
  | none => exact absurd (List.find?_eq_none.mp hf progId h) (by simp)
  | some q =>
    have hq : q = progId := by simpa using List.find?_some hf
    rw [hq]

theorem find?_eq_none_of_notMem {l : List ProgId} (h : progId ∉ l) : l.find? (· = progId) = none :=
  List.find?_eq_none.mpr fun q hq hid => h (of_decide_eq_true (p := q = progId) hid ▸ hq)

/-- A program other than `NULL` that the search finds has the id and is attached. -/
theorem mem_of_findProg {p : ProgId} {mode : AttachMode}
    (h : findProg mp progId = some (some p, mode)) : p = progId ∧ p ∈ mp.attached := by
  rw [findProg] at h
  split at h
  · next q hq =>
    cases h
    have hmem : p ∈ nextProgs mp := List.mem_of_find?_eq_some hq
    refine ⟨by simpa using List.find?_some hq, Iface.mem_attached_iff.mpr (.inl ?_)⟩
    rw [nextProgs] at hmem
    split_ifs at hmem
    · cases hmem
    · exact hmem
  · split_ifs at h with hleg hhw
    · have hhead : mp.progs.head? = some p := congrArg Prod.fst (Option.some.inj h)
      rw [hhead] at hleg
      exact ⟨hleg.2, Iface.mem_attached_iff.mpr (.inl (List.mem_of_head? hhead))⟩
    · have heq : mp.hw = some p := congrArg Prod.fst (Option.some.inj h)
      rw [heq] at hhw
      exact ⟨hhw, Iface.mem_attached_iff.mpr (.inr heq)⟩

/-- The id of a legacy program, or 0, is not that of a program which is attached elsewhere. -/
theorem head_ne (hmp : mp.WellFormed) (hmem : progId ∈ mp.attached) (hp : progId ∉ mp.progs) :
    xdpProgramId mp.progs.head? ≠ progId := by
  cases hh : mp.progs.head? with
  | none =>
    rintro rfl
    exact hmp.nonzero hmem
  | some q =>
    rintro rfl
    exact hp (List.mem_of_head? hh)

/-- A program that is attached is found, with its mode. -/
theorem findProg_of_mem (hmp : mp.WellFormed) (hmem : progId ∈ mp.attached) :
    ∃ mode, mp.modeOf progId = some mode ∧ findProg mp progId = some (some progId, mode) := by
  by_cases hp : progId ∈ mp.progs
  · refine ⟨mp.mode, if_pos hp, ?_⟩
    cases hl : mp.legacy with
    | false => rw [findProg, nextProgs, hl, if_neg Bool.false_ne_true, find?_eq_of_mem hp]
    | true => simp [findProg, nextProgs, hl, hmp.progs_eq hl hp, xdpProgramId]
  · have hhw : mp.hw = some progId := (Iface.mem_attached_iff.mp hmem).resolve_left hp
    refine ⟨.hw, by rw [Iface.modeOf, if_neg hp, if_pos hhw], ?_⟩
    have hnone : (nextProgs mp).find? (· = progId) = none := by
      refine find?_eq_none_of_notMem fun h => hp ?_
      rw [nextProgs] at h
      split_ifs at h
      · cases h
      · exact h
    rw [findProg, hnone]
    show (if _ then _ else _) = _
    rw [if_neg fun h => head_ne hmp hmem hp h.2, hhw]
    exact if_pos rfl

end Search

/-! ### The whole function -/

section Unload

variable {cfg : Config} {o : Outcomes} {w : World}

/-- `do_unload` if the interface has no program with the id, or libxdp cannot read it. -/
theorem run_doUnload_of_absent (hall : cfg.unloadAll = false)
    (h : cfg.progId ∉ w.iface.attached ∨ o.get ≠ 0) :
    ∃ ops, (doUnload cfg).run (Prog.logged (exec o)) (w, []) = some (exitFailure, w, ops) ∧
      ∀ p mode, Op.programDetach (some p) mode ∉ ops := by
  by_cases hneg : o.get < 0
  · exact ⟨[.multiprogGetFromIfindex, .multiprogClose],
      by simp [doUnload, call, Prog.logged, exec, hneg], by simp⟩
  by_cases hpos : 0 < o.get
  · exact ⟨[.multiprogGetFromIfindex, .multiprogClose],
      by simp [doUnload, call, Prog.logged, exec, hneg, hpos], by simp⟩
  by_cases hempty : w.iface.attached = []
  · exact ⟨[.multiprogGetFromIfindex, .multiprogClose],
      by simp [doUnload, call, Prog.logged, exec, hneg, hpos, hempty], by simp⟩
  have habsent : cfg.progId ∉ w.iface.attached := h.resolve_right (by omega)
  cases hf : findProg w.iface cfg.progId with
  | none =>
    exact ⟨[.multiprogGetFromIfindex, .multiprogClose],
      by simp [doUnload, call, Prog.logged, exec, hneg, hpos, hempty, hall, hf, enoent], by simp⟩
  | some found =>
    obtain ⟨prog, mode⟩ := found
    cases prog with
    | none =>
      exact ⟨[.multiprogGetFromIfindex, .programDetach none mode, .multiprogClose],
        by simp [doUnload, call, Prog.logged, exec, hneg, hpos, hempty, hall, hf, einval], by simp⟩
    | some p =>
      obtain ⟨rfl, hmem⟩ := mem_of_findProg hf
      exact absurd hmem habsent

/-- The program is the only one behind the dispatcher, it is taken off, and its pins cannot
be removed: `xdp_program__detach` fails nonetheless. -/
def Outcomes.FailsLate (o : Outcomes) (i : Iface) (p : ProgId) : Prop :=
  i.legacy = false ∧ i.progs = [p] ∧ o.detachMain = 0 ∧ o.unpin ≠ 0

/-- `xdp_program__detach` of a program behind the dispatcher, or of the legacy program. -/
theorem programDetach_of_progs {i : Iface} {p : ProgId} (hwf : i.WellFormed) (hp : p ∈ i.progs) :
    o.programDetach i p i.mode = if o.detachMain ≠ 0 then ⟨o.detachMain, [], i⟩
      else ⟨if i.legacy = false ∧ i.progs = [p] then o.unpin else 0, [p], i.detach p⟩ := by
  have hatt : p ∈ i.attached := Iface.mem_attached_iff.mpr (.inl hp)
  have hzero := hwf.ne_zero hatt
  have hhead : i.legacy = true → xdpProgramId i.progs.head? = p := by
    intro hl
    rw [hwf.progs_eq hl hp]
    rfl
  have hlen : i.progs.length = 1 ↔ i.progs = [p] := by
    constructor
    · intro h
      obtain ⟨q, hq⟩ := List.length_eq_one_iff.mp h
      rw [hq, List.mem_singleton] at hp
      rw [hq, hp]
    · intro h
      rw [h]
      rfl
  rw [Outcomes.programDetach, if_neg (List.ne_nil_of_mem hatt), if_neg fun h => hzero h.2,
    if_neg hwf.mode, if_neg fun h => h.2 (hhead h.1), if_neg fun h => h.2 rfl, if_neg hzero,
    if_neg (not_not.mpr hp)]
  simp only [hlen]

/-- `xdp_program__detach` of the program in hardware. -/
theorem programDetach_of_hw {i : Iface} {p : ProgId} (hwf : i.WellFormed) (hhw : i.hw = some p) :
    o.programDetach i p .hw = if o.detachHw ≠ 0 then ⟨o.detachHw, [], i⟩
      else ⟨0, [p], i.detach p⟩ := by
  have hatt : p ∈ i.attached := Iface.mem_attached_iff.mpr (.inr hhw)
  rw [Outcomes.programDetach, if_neg (List.ne_nil_of_mem hatt),
    if_neg fun h => hwf.ne_zero hatt h.2, if_pos rfl, hhw, if_neg fun h => h rfl]

/-- `xdp_program__detach` of a program in its mode: it has failed without effect, or the
program is off. -/
theorem programDetach_cases {i : Iface} {p : ProgId} {mode : AttachMode} (hwf : i.WellFormed)
    (hmode : i.modeOf p = some mode) :
    (∃ err ≠ 0, o.programDetach i p mode = ⟨err, [], i⟩ ∧ ¬ o.FailsLate i p) ∨
    ∃ err, o.programDetach i p mode = ⟨err, [p], i.detach p⟩ ∧ (err ≠ 0 ↔ o.FailsLate i p) := by
  rw [Iface.modeOf] at hmode
  split_ifs at hmode with hp hhw
  · cases hmode
    rw [programDetach_of_progs hwf hp]
    by_cases hd : o.detachMain = 0
    · refine .inr ⟨_, if_neg (not_not.mpr hd), ?_⟩
      simp [Outcomes.FailsLate, hd]
    · exact .inl ⟨_, hd, if_pos hd, fun h => hd h.2.2.1⟩
  · cases hmode
    have hlate : ¬ o.FailsLate i p := fun h => hp (h.2.1 ▸ List.mem_singleton_self p)
    rw [programDetach_of_hw hwf hhw]
    by_cases hd : o.detachHw = 0
    · exact .inr ⟨_, if_neg (not_not.mpr hd), iff_of_false (fun h => h rfl) hlate⟩
    · exact .inl ⟨_, hd, if_pos hd, hlate⟩

/-- `do_unload` if the interface has a program with the id. -/
theorem run_doUnload_of_mem (hall : cfg.unloadAll = false) (hwf : w.iface.WellFormed)
    (hget : o.get = 0) (hmem : cfg.progId ∈ w.iface.attached) :
    ∃ mode, w.iface.modeOf cfg.progId = some mode ∧
      (doUnload cfg).run (Prog.logged (exec o)) (w, []) =
        some (if (o.programDetach w.iface cfg.progId mode).err ≠ 0 then exitFailure else exitOk,
          w.lose (o.programDetach w.iface cfg.progId mode),
          [.multiprogGetFromIfindex, .programDetach (some cfg.progId) mode, .multiprogClose]) := by
  obtain ⟨mode, hmode, hf⟩ := findProg_of_mem hwf hmem
  have hne : w.iface.attached ≠ [] := List.ne_nil_of_mem hmem
  exact ⟨mode, hmode, by simp [doUnload, call, Prog.logged, exec, hget, hne, hall, hf]⟩

/-- **Unloading by id.**  The loop of the search ends.  `do_unload` succeeds exactly if a
program with the id is attached, libxdp can read the interface and the detach succeeds;
then this program is gone, and it has been detached in its mode.  Otherwise it fails, and
nothing has changed unless the detach has failed late: then the program is gone as well.
No other program is ever asked to be detached. -/
theorem unload_by_id (hall : cfg.unloadAll = false) (hwf : w.iface.WellFormed) :
    (∃ n, walk w.iface cfg.progId n none =
      some ((nextProgs w.iface).find? (· = cfg.progId))) ∧
    ∃ err w' ops, (doUnload cfg).run (exec o) w = some (err, w') ∧
      (doUnload cfg).run (Prog.logged (exec o)) (w, []) = some (err, w', ops) ∧
      (err = exitOk ↔ cfg.progId ∈ w.iface.attached ∧ o.get = 0 ∧
        ∃ mode, w.iface.modeOf cfg.progId = some mode ∧
          (o.programDetach w.iface cfg.progId mode).err = 0) ∧
      (err = exitOk → w'.iface.attached = w.iface.attached.erase cfg.progId ∧
        ∃ mode, w.iface.modeOf cfg.progId = some mode ∧
          Op.programDetach (some cfg.progId) mode ∈ ops) ∧
      (o.get = 0 → o.FailsLate w.iface cfg.progId →
        err = exitFailure ∧ w'.iface.attached = w.iface.attached.erase cfg.progId) ∧
      (err ≠ exitOk → err = exitFailure ∧
        (¬ (o.get = 0 ∧ o.FailsLate w.iface cfg.progId) → w' = w)) ∧
      ∀ p mode, Op.programDetach (some p) mode ∈ ops →
        p = cfg.progId ∧ w.iface.modeOf p = some mode := by
  refine ⟨⟨_, walk_eq w.iface cfg.progId⟩, ?_⟩
  by_cases h : cfg.progId ∈ w.iface.attached ∧ o.get = 0
  · obtain ⟨hmem, hget⟩ := h
    obtain ⟨mode, hmode, hrun⟩ := run_doUnload_of_mem (o := o) hall hwf hget hmem
    have hops : ∀ p m, Op.programDetach (some p) m ∈ [Op.multiprogGetFromIfindex,
        .programDetach (some cfg.progId) mode, .multiprogClose] →
        p = cfg.progId ∧ w.iface.modeOf p = some m := by
      intro p m hp
      simp only [List.mem_cons, reduceCtorEq, Op.programDetach.injEq, Option.some.injEq,
        List.not_mem_nil, or_false, false_or] at hp
      obtain ⟨rfl, rfl⟩ := hp
      exact ⟨rfl, hmode⟩
    have hmode' : ∀ m, w.iface.modeOf cfg.progId = some m → m = mode := by
      intro m hm
      exact Option.some.inj (hm.symm.trans hmode)
    rcases programDetach_cases (o := o) hwf hmode with ⟨err, herr, heq, hlate⟩ | ⟨err, heq, hlate⟩
    · -- the detach has failed without effect
      rw [heq, if_pos herr] at hrun
      have hw : w.lose ⟨err, [], w.iface⟩ = w := by simp [World.lose]
      rw [hw] at hrun
      refine ⟨exitFailure, w, _, Prog.run_of_run_logged hrun, hrun, ?_, ?_, ?_, ?_, hops⟩
      · refine iff_of_false (by decide) ?_
        rintro ⟨-, -, m, hm, hm0⟩
        rw [hmode' m hm, heq] at hm0
        exact herr hm0
      · exact fun h => absurd h (by decide)
      · exact fun _ h => absurd h hlate
      · exact fun _ => ⟨rfl, fun _ => rfl⟩
    · -- the program is off, whatever the result
      rw [heq] at hrun
      have hatt : (w.lose ⟨err, [cfg.progId], w.iface.detach cfg.progId⟩).iface.attached =
          w.iface.attached.erase cfg.progId := hwf.attached_detach _
      refine ⟨_, _, _, Prog.run_of_run_logged hrun, hrun, ?_, ?_, ?_, ?_, hops⟩
      · by_cases herr : err = 0
        · rw [if_neg (not_not.mpr herr)]
          exact iff_of_true rfl ⟨hmem, hget, mode, hmode, by rw [heq]; exact herr⟩
        · rw [if_pos herr]
          refine iff_of_false (by decide) ?_
          rintro ⟨-, -, m, hm, hm0⟩
          rw [hmode' m hm, heq] at hm0
          exact herr hm0
      · exact fun _ => ⟨hatt, mode, hmode, by simp⟩
      · exact fun _ h => ⟨if_pos (hlate.mpr h), hatt⟩
      · intro hne
        have herr : err ≠ 0 := fun h0 => hne (if_neg (not_not.mpr h0))
        exact ⟨if_pos herr, fun h => absurd ⟨hget, hlate.mp herr⟩ h⟩
  · obtain ⟨ops, hrun, hops⟩ := run_doUnload_of_absent (o := o) hall (not_and_or.mp h)
    refine ⟨exitFailure, w, ops, Prog.run_of_run_logged hrun, hrun, ?_, ?_, ?_, ?_, ?_⟩
    · exact iff_of_false (by decide) fun hok => h ⟨hok.1, hok.2.1⟩
    · exact fun hok => absurd hok (by decide)
    · intro hget hlate
      refine absurd ⟨Iface.mem_attached_iff.mpr (.inl ?_), hget⟩ h
      rw [hlate.2.1]
      exact List.mem_singleton_self _
    · exact fun _ => ⟨rfl, fun _ => rfl⟩
    · exact fun p mode hp => absurd hp (hops p mode)

end Unload

/-- Two programs behind a dispatcher, and one in hardware. -/
def exampleIface : Iface := ⟨[7, 8], false, .skb, some 9⟩

theorem wellFormed_exampleIface : exampleIface.WellFormed :=
  ⟨by decide, by decide, by decide, by decide⟩

theorem unload_by_id_example :
    ∃ err w' ops, (doUnload ⟨.skb, 1, true, 8, false⟩).run (Prog.logged (exec exampleOutcomes))
        (.boot exampleIface, []) = some (err, w', ops) ∧
      err = exitOk ∧ w'.iface.attached = [7, 9] ∧ Op.programDetach (some 8) .skb ∈ ops := by
  obtain ⟨-, err, w', ops, -, hrun, hok, hdone, -, -, -⟩ :=
    @unload_by_id ⟨.skb, 1, true, 8, false⟩ exampleOutcomes (.boot exampleIface) rfl
      wellFormed_exampleIface
  have herr : err = exitOk := hok.mpr ⟨by decide, rfl, .skb, by decide, by decide⟩
  obtain ⟨hattached, mode, hmode, hmem⟩ := hdone herr
  obtain rfl : AttachMode.skb = mode := Option.some.inj hmode
  exact ⟨err, w', ops, hrun, herr, hattached, hmem⟩

/-- **A failure does not mean that nothing has changed.**  Program 7 is the only one on the
interface and its pins cannot be removed: `do_unload` fails, and the program is gone. -/
theorem unload_fails_detached :
    ((doUnload ⟨.skb, 1, true, 7, false⟩).run (exec { exampleOutcomes with unpin := -1 })
      (.boot ⟨[7], false, .skb, none⟩)).map (fun r => (r.1, r.2.iface.attached)) =
        some (exitFailure, []) := rfl

end NetworkAnalyse.Loader
