import NetworkAnalyse.Lib.Prog

/-!
# Interleaved programs

A system runs programs over one shared state, an operation at a time and in any
order.  A program is started with a tag; two programs whose tags have the same
key do not overlap (the key is the lock they hold).  Between two operations the
environment may act on the shared state as well.

* `System.step`, `System.run`: one action, a list of actions.
* `Outline`: a proof outline for one key at a time.  It gives a view of the
  state for each key, which the operations of programs with another key and the
  steps of the environment leave alone, and what a program does to its own view.
* `Outline.holds_run`, `Outline.idle_or_can`: the outline holds in every
  configuration a run reaches.
* `System.guard`, `System.run_guard_iff`: the runs whose operations are performed only
  where a condition holds.
* `System.exists_idle`: programs that are under way can be finished.
* `Projection.exists_run`: a system whose environment is a system of its own.
-/

namespace NetworkAnalyse.Lib

/-- What every step keeps, every run keeps. -/
theorem foldlM_induction {ι σ : Type} {step : σ → ι → Option σ} {P : σ → Prop}
    (hstep : ∀ {s a s'}, P s → step s a = some s' → P s') (l : List ι) {s s' : σ} (hs : P s)
    (h : l.foldlM step s = some s') : P s' := by
  induction l generalizing s with
  | nil => exact Option.some.inj h ▸ hs
  | cons a l ih =>
    rw [List.foldlM_cons, Option.bind_eq_bind, Option.bind_eq_some_iff] at h
    obtain ⟨s₁, hs₁, h⟩ := h
    exact ih (hstep hs hs₁) h

/-- A finished program: its tag, the operations it performed and its result. -/
structure Entry (Op : Type) (Res : Op → Type) (τ α : Type) where
  tag : τ
  trace : Trace Op Res
  result : α

/-- A program under way. -/
structure Thread (Op : Type) (Res : Op → Type) (τ α : Type) where
  tag : τ
  trace : Trace Op Res
  rest : Prog Op Res α

structure Config (K Op : Type) (Res : Op → Type) (σ τ α : Type) where
  shared : σ
  running : K → Option (Thread Op Res τ α)
  /-- the finished programs, in the order in which they finished -/
  log : List (Entry Op Res τ α)

inductive Act (K Inp E τ : Type)
  | spawn (tag : τ)
  | step (k : K) (inp : Inp)
  | env (e : E)

structure System (K Op : Type) (Res : Op → Type) (Inp E σ τ α : Type) where
  key : τ → K
  body : τ → Prog Op Res α
  /-- `inp` is what the environment chooses; `none`: it may not choose this -/
  exec : Inp → (op : Op) → σ → Option (Res op × σ)
  env : E → σ → Option σ

namespace System

variable {K Op : Type} {Res : Op → Type} {Inp E σ τ α : Type} [DecidableEq K]

/-- The configuration in which nothing has been started. -/
def init (_ : System K Op Res Inp E σ τ α) (s : σ) : Config K Op Res σ τ α := ⟨s, fun _ => none, []⟩

/-- Put a program back after an operation, or into the log if that was its last. -/
def settle (c : Config K Op Res σ τ α) (k : K) (th : Thread Op Res τ α) : Config K Op Res σ τ α :=
  match th.rest with
  | .ret a => ⟨c.shared, Function.update c.running k none, c.log ++ [⟨th.tag, th.trace, a⟩]⟩
  | .call _ _ => ⟨c.shared, Function.update c.running k (some th), c.log⟩

@[simp] theorem settle_ret (c : Config K Op Res σ τ α) (k : K) (tag : τ) (tr : Trace Op Res)
    (a : α) :
    settle c k ⟨tag, tr, .ret a⟩ =
      ⟨c.shared, Function.update c.running k none, c.log ++ [⟨tag, tr, a⟩]⟩ := rfl

@[simp] theorem settle_call (c : Config K Op Res σ τ α) (k : K) (tag : τ) (tr : Trace Op Res)
    (op : Op) (f : Res op → Prog Op Res α) :
    settle c k ⟨tag, tr, .call op f⟩ =
      ⟨c.shared, Function.update c.running k (some ⟨tag, tr, .call op f⟩), c.log⟩ := rfl

/-- What is under way after settling: the program itself, unless it is finished,
and what was under way for the other keys. -/
theorem running_settle {c : Config K Op Res σ τ α} {k j : K} {th th' : Thread Op Res τ α}
    (h : (settle c k th).running j = some th') :
    (th' = th ∧ ∀ a, th.rest ≠ .ret a) ∨ c.running j = some th' := by
  obtain ⟨tag, tr, rest⟩ := th
  by_cases hj : j = k
  · subst hj
    cases rest with
    | ret a =>
      simp only [settle_ret, Function.update_self] at h
      cases h
    | call op f =>
      simp only [settle_call, Function.update_self] at h
      refine Or.inl ⟨(Option.some.inj h).symm, fun a ha => ?_⟩
      cases ha
  · refine Or.inr ?_
    cases rest with
    | ret a => simpa only [settle_ret, Function.update_of_ne hj] using h
    | call op f => simpa only [settle_call, Function.update_of_ne hj] using h

def step (S : System K Op Res Inp E σ τ α) (c : Config K Op Res σ τ α) :
    Act K Inp E τ → Option (Config K Op Res σ τ α)
  | .spawn tag =>
    match c.running (S.key tag) with
    | none => some (settle c (S.key tag) ⟨tag, [], S.body tag⟩)
    | some _ => none
  | .step k inp =>
    match c.running k with
    | some ⟨tag, tr, .call op f⟩ =>
      (S.exec inp op c.shared).map fun p =>
        settle ⟨p.2, c.running, c.log⟩ k ⟨tag, tr ++ [⟨op, p.1⟩], f p.1⟩
    | _ => none
  | .env e => (S.env e c.shared).map fun s => ⟨s, c.running, c.log⟩

def run (S : System K Op Res Inp E σ τ α) (c : Config K Op Res σ τ α)
    (acts : List (Act K Inp E τ)) : Option (Config K Op Res σ τ α) :=
  acts.foldlM S.step c

@[simp] theorem run_nil (S : System K Op Res Inp E σ τ α) (c : Config K Op Res σ τ α) :
    S.run c [] = some c := rfl

theorem run_append (S : System K Op Res Inp E σ τ α) (c : Config K Op Res σ τ α)
    (as bs : List (Act K Inp E τ)) : S.run c (as ++ bs) = (S.run c as).bind (S.run · bs) := by
  rw [run, List.foldlM_append]
  rfl

theorem run_append_of_run {S : System K Op Res Inp E σ τ α} {c c₁ : Config K Op Res σ τ α}
    {as : List (Act K Inp E τ)} (h : S.run c as = some c₁) (bs : List (Act K Inp E τ)) :
    S.run c (as ++ bs) = S.run c₁ bs := by
  rw [run_append, h]
  rfl

theorem run_snoc_iff {S : System K Op Res Inp E σ τ α} {c c' : Config K Op Res σ τ α}
    {as : List (Act K Inp E τ)} {a : Act K Inp E τ} :
    S.run c (as ++ [a]) = some c' ↔ ∃ c₁, S.run c as = some c₁ ∧ S.step c₁ a = some c' := by
  rw [run_append, Option.bind_eq_some_iff]
  refine exists_congr fun c₁ => and_congr_right fun _ => ?_
  rw [run, List.foldlM_cons]
  show (S.step c₁ a).bind (fun c₂ => some c₂) = some c' ↔ _
  rw [Option.bind_fun_some]

/-- **What a step can do**: start a program, perform one operation of a program,
or let the environment act. -/
theorem step_cases {S : System K Op Res Inp E σ τ α} {c c' : Config K Op Res σ τ α}
    {a : Act K Inp E τ} (h : S.step c a = some c') :
    (∃ tag, a = .spawn tag ∧ c.running (S.key tag) = none ∧
      c' = settle c (S.key tag) ⟨tag, [], S.body tag⟩) ∨
    (∃ k inp tag tr op f r s, a = .step k inp ∧ c.running k = some ⟨tag, tr, .call op f⟩ ∧
      S.exec inp op c.shared = some (r, s) ∧
      c' = settle ⟨s, c.running, c.log⟩ k ⟨tag, tr ++ [⟨op, r⟩], f r⟩) ∨
    (∃ e s, a = .env e ∧ S.env e c.shared = some s ∧ c' = ⟨s, c.running, c.log⟩) := by
  cases a with
  | spawn tag =>
    rw [step] at h
    split at h
    · exact Or.inl ⟨tag, rfl, ‹_›, (Option.some.inj h).symm⟩
    · cases h
  | step k inp =>
    rw [step] at h
    split at h
    · rename_i tag tr op f hrun
      rw [Option.map_eq_some_iff] at h
      obtain ⟨⟨r, s⟩, hexec, hc⟩ := h
      exact Or.inr (Or.inl ⟨k, inp, tag, tr, op, f, r, s, rfl, hrun, hexec, hc.symm⟩)
    · cases h
  | env e =>
    rw [step, Option.map_eq_some_iff] at h
    obtain ⟨s, hs, hc⟩ := h
    exact Or.inr (Or.inr ⟨e, s, rfl, hs, hc.symm⟩)

/-- What holds at the start and is kept by every step holds after every run. -/
theorem run_induction {S : System K Op Res Inp E σ τ α} {P : Config K Op Res σ τ α → Prop}
    (hstep : ∀ {c a c'}, P c → S.step c a = some c' → P c') (acts : List (Act K Inp E τ))
    {c c' : Config K Op Res σ τ α} (hc : P c) (h : S.run c acts = some c') : P c' :=
  foldlM_induction hstep acts hc h

@[simp] theorem shared_settle (c : Config K Op Res σ τ α) (k : K) (th : Thread Op Res τ α) :
    (settle c k th).shared = c.shared := by
  obtain ⟨tag, tr, rest⟩ := th
  cases rest <;> rfl

/-- What the operations and the environment keep of the shared state, every run keeps. -/
theorem shared_of_run {S : System K Op Res Inp E σ τ α} {I : σ → Prop}
    (hexec : ∀ {inp op r s s'}, I s → S.exec inp op s = some (r, s') → I s')
    (henv : ∀ {e s s'}, I s → S.env e s = some s' → I s') {s : σ} (hs : I s)
    {acts : List (Act K Inp E τ)} {c : Config K Op Res σ τ α} (h : S.run (S.init s) acts = some c) :
    I c.shared := by
  refine run_induction (P := fun c => I c.shared) (fun {c a c'} hc hstep => ?_) acts hs h
  rcases step_cases hstep with ⟨tag, -, -, rfl⟩ | ⟨k, inp, tag, tr, op, f, r, s, -, -, he, rfl⟩ |
      ⟨e, s, -, he, rfl⟩
  · rw [shared_settle]
    exact hc
  · rw [shared_settle]
    exact hexec hc he
  · exact henv hc he

/-- A program that is under way has an operation to perform. -/
theorem running_call {S : System K Op Res Inp E σ τ α} {s : σ} {acts : List (Act K Inp E τ)}
    {c : Config K Op Res σ τ α} (h : S.run (S.init s) acts = some c) {k : K}
    {th : Thread Op Res τ α} (hth : c.running k = some th) : ∃ op f, th.rest = .call op f := by
  have hret : ∀ k th, c.running k = some th → ∀ a, th.rest ≠ .ret a := by
    refine run_induction (P := fun c => ∀ k th, c.running k = some th → ∀ a, th.rest ≠ .ret a)
      (fun {c a c'} hc hstep => ?_) acts (fun k th hk => ?_) h
    · intro k th hk
      rcases step_cases hstep with ⟨tag, -, -, rfl⟩ |
          ⟨k', inp, tag, tr, op, f, r, s, -, -, -, rfl⟩ | ⟨e, s, -, -, rfl⟩
      · rcases running_settle hk with ⟨rfl, hth⟩ | hk
        · exact hth
        · exact hc k th hk
      · rcases running_settle hk with ⟨rfl, hth⟩ | hk
        · exact hth
        · exact hc k th hk
      · exact hc k th hk
    · cases hk
  cases hrest : th.rest with
  | ret a => exact absurd hrest (hret k th hth a)
  | call op f => exact ⟨op, f, rfl⟩

/-- A program that is under way performs good operations only, if all bodies do. -/
theorem calls_of_run {S : System K Op Res Inp E σ τ α} {good : Op → Prop}
    (hbody : ∀ tag, (S.body tag).Calls good) {s : σ} {acts : List (Act K Inp E τ)}
    {c : Config K Op Res σ τ α} (h : S.run (S.init s) acts = some c) {k : K}
    {th : Thread Op Res τ α} (hth : c.running k = some th) : th.rest.Calls good := by
  have hall : ∀ k th, c.running k = some th → th.rest.Calls good := by
    refine run_induction (P := fun c => ∀ k th, c.running k = some th → th.rest.Calls good)
      (fun {c a c'} hc hstep => ?_) acts (fun k th hk => ?_) h
    · intro k th hk
      rcases step_cases hstep with ⟨tag, -, -, rfl⟩ |
          ⟨k', inp, tag, tr, op, f, r, s, -, hrun, -, rfl⟩ | ⟨e, s, -, -, rfl⟩
      · rcases running_settle hk with ⟨rfl, -⟩ | hk
        · exact hbody tag
        · exact hc k th hk
      · rcases running_settle hk with ⟨rfl, -⟩ | hk
        · exact (Prog.calls_call.mp (hc k' _ hrun)).2 r
        · exact hc k th hk
      · exact hc k th hk
    · cases hk
  exact hall k th hth

/-! ### Running a program in one go -/

theorem run_cons {S : System K Op Res Inp E σ τ α} {c c₁ : Config K Op Res σ τ α}
    {a : Act K Inp E τ} {as : List (Act K Inp E τ)} (h : S.step c a = some c₁) :
    S.run c (a :: as) = S.run c₁ as := by
  rw [run, List.foldlM_cons, h]
  rfl

theorem run_rest {S : System K Op Res Inp E σ τ α} {inp : Inp} (k : K) (tag : τ) {a : α} {s' : σ}
    (rest : Prog Op Res α) :
    ∀ (c : Config K Op Res σ τ α) (tr : Trace Op Res),
      rest.run (S.exec inp) c.shared = some (a, s') →
      ∃ acts tr', S.run (settle c k ⟨tag, tr, rest⟩) acts =
        some ⟨s', Function.update c.running k none, c.log ++ [⟨tag, tr', a⟩]⟩ := by
  induction rest with
  | ret b =>
    intro c tr h
    cases h
    exact ⟨[], tr, rfl⟩
  | call op f ih =>
    intro c tr h
    rw [Prog.run_call, Option.bind_eq_some_iff] at h
    obtain ⟨⟨r, s⟩, hexec, hrest⟩ := h
    obtain ⟨acts, tr', hacts⟩ := ih r ⟨s, Function.update c.running k (some ⟨tag, tr, .call op f⟩),
      c.log⟩ (tr ++ [⟨op, r⟩]) hrest
    refine ⟨.step k inp :: acts, tr', ?_⟩
    rw [settle_call, run_cons, hacts, Function.update_idem]
    simp only [step, Function.update_self, hexec, Option.map_some]

/-- A program that can be run in one go can be run so between other programs. -/
theorem exists_run_of_run {S : System K Op Res Inp E σ τ α} (inp : Inp) (tag : τ) {a : α} {s' : σ}
    {c : Config K Op Res σ τ α} (hidle : c.running (S.key tag) = none)
    (h : (S.body tag).run (S.exec inp) c.shared = some (a, s')) :
    ∃ acts tr, S.run c acts =
      some ⟨s', Function.update c.running (S.key tag) none, c.log ++ [⟨tag, tr, a⟩]⟩ := by
  obtain ⟨acts, tr, hacts⟩ := run_rest (S.key tag) tag (S.body tag) c [] h
  refine ⟨.spawn tag :: acts, tr, ?_⟩
  rw [run_cons, hacts]
  rw [step, hidle]

/-- If every operation can be performed, a program can be finished; `I` is kept on the way. -/
theorem exists_finish {S : System K Op Res Inp E σ τ α} {I : σ → Prop}
    (hexec : ∀ (op : Op) {s : σ}, I s → ∃ inp r s', S.exec inp op s = some (r, s') ∧ I s') (k : K)
    (tag : τ) (rest : Prog Op Res α) :
    ∀ (c : Config K Op Res σ τ α) (tr : Trace Op Res), I c.shared →
      ∃ acts c', S.run (settle c k ⟨tag, tr, rest⟩) acts = some c' ∧ I c'.shared ∧
        c'.running = Function.update c.running k none := by
  induction rest with
  | ret a =>
    intro c tr hI
    exact ⟨[], _, rfl, hI, rfl⟩
  | call op f ih =>
    intro c tr hI
    obtain ⟨inp, r, s, hr, hs⟩ := hexec op hI
    obtain ⟨acts, c', hacts, hI', hrun⟩ := ih r ⟨s, Function.update c.running k
      (some ⟨tag, tr, .call op f⟩), c.log⟩ (tr ++ [⟨op, r⟩]) hs
    refine ⟨.step k inp :: acts, c', ?_, hI', ?_⟩
    · rw [settle_call, run_cons, hacts]
      simp only [step, Function.update_self, hr, Option.map_some]
    · rw [hrun, Function.update_idem]

/-- If every operation can be performed, the programs that are under way can be finished, one
after the other. -/
theorem exists_idle {S : System K Op Res Inp E σ τ α} {I : σ → Prop}
    (hexec : ∀ (op : Op) {s : σ}, I s → ∃ inp r s', S.exec inp op s = some (r, s') ∧ I s')
    (ks : List K) {s : σ} :
    ∀ {acts : List (Act K Inp E τ)} {c : Config K Op Res σ τ α}, S.run (S.init s) acts = some c →
      I c.shared → ∃ acts' c', S.run c acts' = some c' ∧ I c'.shared ∧
        (∀ k ∈ ks, c'.running k = none) ∧ ∀ k, c.running k = none → c'.running k = none := by
  induction ks with
  | nil =>
    intro acts c _ hI
    exact ⟨[], c, rfl, hI, fun k hk => absurd hk List.not_mem_nil, fun k hk => hk⟩
  | cons k ks ih =>
    intro acts c h hI
    obtain ⟨acts₁, c₁, h₁, hI₁, hnone, hkeep⟩ : ∃ acts₁ c₁, S.run c acts₁ = some c₁ ∧ I c₁.shared ∧
        c₁.running k = none ∧ ∀ j, c.running j = none → c₁.running j = none := by
      cases hrun : c.running k with
      | none => exact ⟨[], c, rfl, hI, hrun, fun j hj => hj⟩
      | some th =>
        obtain ⟨op, f, hrest⟩ := running_call h hrun
        obtain ⟨tag, tr, rest⟩ := th
        obtain rfl : rest = .call op f := hrest
        obtain ⟨acts₁, c₁, h₁, hI₁, hrunning⟩ := exists_finish hexec k tag (.call op f) c tr hI
        have hc : settle c k ⟨tag, tr, .call op f⟩ = c := by
          rw [settle_call, ← hrun, Function.update_eq_self]
        rw [hc] at h₁
        refine ⟨acts₁, c₁, h₁, hI₁, ?_, fun j hj => ?_⟩
        · rw [hrunning, Function.update_self]
        · by_cases hjk : j = k
          · rw [hrunning, hjk, Function.update_self]
          · rw [hrunning, Function.update_of_ne hjk]
            exact hj
    have hreach : S.run (S.init s) (acts ++ acts₁) = some c₁ := by
      rw [run_append_of_run h, h₁]
    obtain ⟨acts₂, c₂, h₂, hI₂, hall, hkeep₂⟩ := ih hreach hI₁
    refine ⟨acts₁ ++ acts₂, c₂, ?_, hI₂, fun j hj => ?_, fun j hj => hkeep₂ j (hkeep j hj)⟩
    · rw [run_append_of_run h₁, h₂]
    · rcases List.mem_cons.mp hj with rfl | hj
      · exact hkeep₂ _ hnone
      · exact hall j hj

/-! ### Guards -/

/-- The system in which an operation is performed only where `g` holds. -/
def guard (S : System K Op Res Inp E σ τ α) (g : Op → σ → Prop) [∀ op s, Decidable (g op s)] :
    System K Op Res Inp E σ τ α :=
  { S with exec := fun inp op s => if g op s then S.exec inp op s else none }

/-- If the action performs an operation, then where `g` holds. -/
def Meets (g : Op → σ → Prop) (c : Config K Op Res σ τ α) : Act K Inp E τ → Prop
  | .step k _ => ∀ tag tr op f, c.running k = some ⟨tag, tr, .call op f⟩ → g op c.shared
  | _ => True

/-- Every step of the run performs its operation where `g` holds. -/
def Keeps (S : System K Op Res Inp E σ τ α) (g : Op → σ → Prop) :
    Config K Op Res σ τ α → List (Act K Inp E τ) → Prop
  | _, [] => True
  | c, a :: as => Meets g c a ∧ ∀ c₁, S.step c a = some c₁ → S.Keeps g c₁ as

section Guard

variable {S : System K Op Res Inp E σ τ α} {g : Op → σ → Prop} [∀ op s, Decidable (g op s)]
  {c c' : Config K Op Res σ τ α} {a : Act K Inp E τ} {acts : List (Act K Inp E τ)}

omit [DecidableEq K] in
theorem exec_guard_iff {inp : Inp} {op : Op} {s : σ} {p : Res op × σ} :
    (S.guard g).exec inp op s = some p ↔ g op s ∧ S.exec inp op s = some p := by
  show (if g op s then S.exec inp op s else none) = some p ↔ _
  by_cases hg : g op s
  · rw [if_pos hg, and_iff_right hg]
  · rw [if_neg hg]
    exact iff_of_false (fun h => nomatch h) fun h => hg h.1

theorem step_guard_of_meets (h : Meets g c a) : (S.guard g).step c a = S.step c a := by
  cases a with
  | spawn tag => rfl
  | env e => rfl
  | step k inp =>
    rw [step, step]
    split
    · rename_i tag tr op f hrun
      have hexec : (S.guard g).exec inp op c.shared = S.exec inp op c.shared :=
        if_pos (h tag tr op f hrun)
      rw [hexec]
    · rfl

theorem meets_of_step_guard (h : (S.guard g).step c a = some c') : Meets g c a := by
  cases a with
  | spawn tag => trivial
  | env e => trivial
  | step k inp =>
    intro tag tr op f hrun
    simp only [step, hrun, Option.map_eq_some_iff] at h
    obtain ⟨p, hexec, -⟩ := h
    exact (exec_guard_iff.mp hexec).1

/-- The runs of the guarded system are the runs whose steps all meet the condition. -/
theorem run_guard_iff :
    (S.guard g).run c acts = some c' ↔ S.run c acts = some c' ∧ S.Keeps g c acts := by
  induction acts generalizing c with
  | nil => exact ⟨fun h => ⟨h, trivial⟩, fun h => h.1⟩
  | cons a as ih =>
    simp only [run, List.foldlM_cons, Option.bind_eq_bind, Option.bind_eq_some_iff]
    constructor
    · rintro ⟨c₁, hstep, hrest⟩
      have hmeets := meets_of_step_guard hstep
      rw [step_guard_of_meets hmeets] at hstep
      obtain ⟨hrun, hkeeps⟩ := ih.mp hrest
      refine ⟨⟨c₁, hstep, hrun⟩, hmeets, fun c₂ hc₂ => ?_⟩
      rw [hstep] at hc₂
      exact Option.some.inj hc₂ ▸ hkeeps
    · rintro ⟨⟨c₁, hstep, hrun⟩, hmeets, hkeeps⟩
      refine ⟨c₁, ?_, ih.mpr ⟨hrun, hkeeps c₁ hstep⟩⟩
      rw [step_guard_of_meets hmeets]
      exact hstep

end Guard

end System

/-! ### Projections -/

/-- The configuration with the shared state seen through `f`. -/
def Config.map {K Op : Type} {Res : Op → Type} {σ σ' τ α : Type} (f : σ → σ')
    (c : Config K Op Res σ τ α) : Config K Op Res σ' τ α := ⟨f c.shared, c.running, c.log⟩

/-- `S` runs the programs of `T` in an environment of which `T` shows a part: through `map` an
operation of `S` is one of `T`, and a step of the environment is one for `T`, or none at all. -/
structure Projection {K Op : Type} {Res : Op → Type} {Inp Inp' E E' σ σ' τ α : Type}
    (S : System K Op Res Inp E σ τ α) (T : System K Op Res Inp' E' σ' τ α) where
  map : σ → σ'
  key : ∀ tag, S.key tag = T.key tag
  body : ∀ tag, S.body tag = T.body tag
  exec : ∀ {inp op r s s'}, S.exec inp op s = some (r, s') →
    ∃ inp', T.exec inp' op (map s) = some (r, map s')
  env : ∀ {e s s'}, S.env e s = some s' →
    map s' = map s ∨ ∃ e', T.env e' (map s) = some (map s')

namespace Projection

variable {K Op : Type} {Res : Op → Type} {Inp Inp' E E' σ σ' τ α : Type} [DecidableEq K]
  {S : System K Op Res Inp E σ τ α} {T : System K Op Res Inp' E' σ' τ α}

theorem map_settle (f : σ → σ') (c : Config K Op Res σ τ α) (k : K) (th : Thread Op Res τ α) :
    (System.settle c k th).map f = System.settle (c.map f) k th := by
  obtain ⟨tag, tr, rest⟩ := th
  cases rest <;> rfl

theorem exists_step (P : Projection S T) {c c' : Config K Op Res σ τ α} {a : Act K Inp E τ}
    (h : S.step c a = some c') : ∃ acts, T.run (c.map P.map) acts = some (c'.map P.map) := by
  rcases System.step_cases h with ⟨tag, -, hidle, rfl⟩ |
      ⟨k, inp, tag, tr, op, f, r, s, -, hrun, hexec, rfl⟩ | ⟨e, s, -, hs, rfl⟩
  · refine ⟨[.spawn tag], ?_⟩
    have hidle' : (c.map P.map).running (T.key tag) = none := P.key tag ▸ hidle
    rw [map_settle, P.key, P.body, System.run_cons, System.run_nil]
    rw [System.step, hidle']
  · obtain ⟨inp', hexec'⟩ := P.exec hexec
    refine ⟨[.step k inp'], ?_⟩
    have hrun' : (c.map P.map).running k = some ⟨tag, tr, .call op f⟩ := hrun
    have hexec' : T.exec inp' op (c.map P.map).shared = some (r, P.map s) := hexec'
    rw [map_settle, System.run_cons, System.run_nil]
    simp only [System.step, hrun', hexec', Option.map_some]
    rfl
  · rcases P.env hs with heq | ⟨e', he'⟩
    · refine ⟨[], ?_⟩
      rw [System.run_nil, Config.map, Config.map, heq]
    · refine ⟨[.env e'], ?_⟩
      have he' : T.env e' (c.map P.map).shared = some (P.map s) := he'
      rw [System.run_cons, System.run_nil]
      rw [System.step, he']
      rfl

/-- **The rule.**  A run of `S` shows a run of `T`. -/
theorem exists_run (P : Projection S T) {acts : List (Act K Inp E τ)} :
    ∀ {c c' : Config K Op Res σ τ α}, S.run c acts = some c' →
      ∃ acts', T.run (c.map P.map) acts' = some (c'.map P.map) := by
  induction acts with
  | nil =>
    intro c c' h
    cases h
    exact ⟨[], rfl⟩
  | cons a acts ih =>
    intro c c' h
    rw [System.run, List.foldlM_cons, Option.bind_eq_bind, Option.bind_eq_some_iff] at h
    obtain ⟨c₁, hstep, hrest⟩ := h
    obtain ⟨acts₁, h₁⟩ := P.exists_step hstep
    obtain ⟨acts₂, h₂⟩ := ih hrest
    refine ⟨acts₁ ++ acts₂, ?_⟩
    rw [System.run_append_of_run h₁, h₂]

end Projection

/-! ### Proof outlines -/

/-- A proof outline for the programs of a system, one key at a time. -/
structure Outline {K Op : Type} {Res : Op → Type} {Inp E σ τ α : Type}
    (S : System K Op Res Inp E σ τ α) (V : Type) where
  /-- `v` is a view of the shared state and of the log for the key `k` -/
  View : K → σ → List (Entry Op Res τ α) → V → Prop
  /-- what holds of the view while no program with this key is under way -/
  Idle : K → V → Prop
  Can : K → Op → V → Prop
  Next : K → (op : Op) → V → Res op → V → Prop
  Done : K → τ → Trace Op Res → α → V → Prop
  spawn : ∀ {tag v}, Idle (S.key tag) v →
    (S.body tag).Ok (Can (S.key tag)) (Next (S.key tag)) (Done (S.key tag) tag) [] v
  own : ∀ {k s L v inp op r s'}, View k s L v → Can k op v → S.exec inp op s = some (r, s') →
    ∃ v', Next k op v r v' ∧ View k s' L v'
  other : ∀ {k k' s L v w inp op r s'}, k' ≠ k → View k s L v → Can k op v →
    S.exec inp op s = some (r, s') → View k' s L w → View k' s' L w
  env : ∀ {k e s s' L v}, S.env e s = some s' → View k s L v → View k s' L v
  finish : ∀ {tag tr a s L v}, View (S.key tag) s L v → Done (S.key tag) tag tr a v →
    ∃ v', Idle (S.key tag) v' ∧ View (S.key tag) s (L ++ [⟨tag, tr, a⟩]) v'
  finish_other : ∀ {k tag tr a s L v}, k ≠ S.key tag → View k s L v →
    View k s (L ++ [⟨tag, tr, a⟩]) v

namespace Outline

variable {K Op : Type} {Res : Op → Type} {Inp E σ τ α V : Type} [DecidableEq K]
  {S : System K Op Res Inp E σ τ α}

/-- What the outline says of the program under way for `k`, if there is one. -/
def Here (O : Outline S V) (k : K) (v : V) : Option (Thread Op Res τ α) → Prop
  | none => O.Idle k v
  | some th => S.key th.tag = k ∧ th.rest.Ok (O.Can k) (O.Next k) (O.Done k th.tag) th.trace v

/-- The outline holds of a configuration, for every key. -/
def Holds (O : Outline S V) (c : Config K Op Res σ τ α) : Prop :=
  ∀ k, ∃ v, O.View k c.shared c.log v ∧ O.Here k v (c.running k)

/-- Settling a program keeps the outline: the program's own key gets `Idle` if
this was the end of it, and the other keys do not notice. -/
theorem holds_settle (O : Outline S V) (c : Config K Op Res σ τ α) (th : Thread Op Res τ α) {v : V}
    (hv : O.View (S.key th.tag) c.shared c.log v) (hok : O.Here (S.key th.tag) v (some th))
    (hother : ∀ k, k ≠ S.key th.tag → ∃ w, O.View k c.shared c.log w ∧ O.Here k w (c.running k)) :
    O.Holds (System.settle c (S.key th.tag) th) := by
  obtain ⟨tag, tr, rest⟩ := th
  intro k
  cases rest with
  | ret a =>
    by_cases hk : k = S.key tag
    · subst hk
      obtain ⟨v', hidle, hv'⟩ := O.finish hv hok.2
      refine ⟨v', hv', ?_⟩
      simp only [System.settle_ret, Function.update_self]
      exact hidle
    · obtain ⟨w, hw, hhere⟩ := hother k hk
      refine ⟨w, O.finish_other hk hw, ?_⟩
      simpa only [System.settle_ret, Function.update_of_ne hk] using hhere
  | call op f =>
    by_cases hk : k = S.key tag
    · subst hk
      refine ⟨v, hv, ?_⟩
      simpa only [System.settle_call, Function.update_self] using hok
    · obtain ⟨w, hw, hhere⟩ := hother k hk
      refine ⟨w, hw, ?_⟩
      simpa only [System.settle_call, Function.update_of_ne hk] using hhere

theorem holds_step (O : Outline S V) {c c' : Config K Op Res σ τ α} {a : Act K Inp E τ}
    (hc : O.Holds c) (h : S.step c a = some c') : O.Holds c' := by
  rcases System.step_cases h with ⟨tag, -, hidle, rfl⟩ |
      ⟨k, inp, tag, tr, op, f, r, s, -, hrun, hexec, rfl⟩ | ⟨e, s, -, hs, rfl⟩
  · obtain ⟨v, hv, hhere⟩ := hc (S.key tag)
    rw [hidle] at hhere
    exact O.holds_settle c ⟨tag, [], S.body tag⟩ hv ⟨rfl, O.spawn hhere⟩ (fun k _ => hc k)
  · obtain ⟨v, hv, hhere⟩ := hc k
    rw [hrun] at hhere
    obtain ⟨rfl, hok⟩ := hhere
    rw [Prog.ok_call] at hok
    obtain ⟨v', hnext, hv'⟩ := O.own hv hok.1 hexec
    refine O.holds_settle ⟨s, c.running, c.log⟩ ⟨tag, tr ++ [⟨op, r⟩], f r⟩
      hv' ⟨rfl, hok.2 r v' hnext⟩ (fun k hk => ?_)
    obtain ⟨w, hw, hhere⟩ := hc k
    exact ⟨w, O.other hk hv hok.1 hexec hw, hhere⟩
  · intro k
    obtain ⟨v, hv, hhere⟩ := hc k
    exact ⟨v, O.env hs hv, hhere⟩

/-- **The rule.**  If every key is idle in the first state, the outline holds
after every run. -/
theorem holds_run (O : Outline S V) {s : σ} {acts : List (Act K Inp E τ)}
    {c : Config K Op Res σ τ α} (hs : ∀ k, ∃ v, O.View k s [] v ∧ O.Idle k v)
    (h : S.run (S.init s) acts = some c) : O.Holds c := by
  have hinit : O.Holds (S.init s) := hs
  exact System.run_induction (fun hc h => O.holds_step hc h) acts hinit h

/-- In every state a run reaches, a key is idle, or its program has an operation to
perform, which it may perform. -/
theorem idle_or_can (O : Outline S V) {s : σ} {acts : List (Act K Inp E τ)}
    {c : Config K Op Res σ τ α} (hs : ∀ k, ∃ v, O.View k s [] v ∧ O.Idle k v)
    (h : S.run (S.init s) acts = some c) (k : K) :
    ∃ v, O.View k c.shared c.log v ∧
      ((c.running k = none ∧ O.Idle k v) ∨
        ∃ th op f, c.running k = some th ∧ th.rest = .call op f ∧ O.Can k op v) := by
  obtain ⟨v, hv, hhere⟩ := O.holds_run hs h k
  refine ⟨v, hv, ?_⟩
  cases hrun : c.running k with
  | none =>
    rw [hrun] at hhere
    exact Or.inl ⟨rfl, hhere⟩
  | some th =>
    obtain ⟨op, f, hrest⟩ := System.running_call h hrun
    rw [hrun] at hhere
    have hok := hhere.2
    rw [hrest, Prog.ok_call] at hok
    exact Or.inr ⟨th, op, f, rfl, hrest, hok.1⟩

/-- What the operations keep of the shared state, when they are performed as the outline
says, every run keeps. -/
theorem shared_of_run (O : Outline S V) {I : σ → Prop}
    (hexec : ∀ {k s L v inp op r s'}, O.View k s L v → O.Can k op v →
      S.exec inp op s = some (r, s') → I s → I s')
    (henv : ∀ {e s s'}, S.env e s = some s' → I s → I s') {s : σ} {acts : List (Act K Inp E τ)}
    {c : Config K Op Res σ τ α} (hs : ∀ k, ∃ v, O.View k s [] v ∧ O.Idle k v) (hI : I s)
    (h : S.run (S.init s) acts = some c) : I c.shared := by
  have hinit : O.Holds (S.init s) := hs
  refine (System.run_induction (P := fun c => O.Holds c ∧ I c.shared)
    (fun {c a c'} hc hstep => ⟨O.holds_step hc.1 hstep, ?_⟩) acts ⟨hinit, hI⟩ h).2
  rcases System.step_cases hstep with ⟨tag, -, -, rfl⟩ |
      ⟨k, inp, tag, tr, op, f, r, s, -, hrun, he, rfl⟩ | ⟨e, s, -, he, rfl⟩
  · rw [System.shared_settle]
    exact hc.2
  · obtain ⟨v, hv, hhere⟩ := hc.1 k
    rw [hrun] at hhere
    have hok := hhere.2
    rw [Prog.ok_call] at hok
    rw [System.shared_settle]
    exact hexec hv hok.1 he hc.2
  · exact henv he hc.2

end Outline

end NetworkAnalyse.Lib
