import Mathlib.Logic.Function.Basic

/-!
# Programs that call their environment

A program is a tree: it is finished with a value, or it asks its environment
for one operation and goes on with the answer.  The text of the program stays
one definition, and the environment decides what an operation does:

* `Prog.run`: the whole program in one go, over a state.
* `Prog.Runs`: the program from start to end with any answers at all.
* `Prog.Makes`, `Prog.Calls`: which operations the program can perform at all,
  whatever the answers.
* `Prog.Ok`: what every completed run of the program guarantees, when all that
  is known of an operation is how it changes a **view** of the state.  The
  program is shown correct once, and the rule of `Interleave.lean` carries this
  to any interleaving that respects the view.
* `Prog.embed`: the program as one of several with operations of their own.
-/

namespace NetworkAnalyse.Lib

/-- A program over the operations `Op`, where `op` is answered by a `Res op`. -/
inductive Prog (Op : Type) (Res : Op → Type) (α : Type) : Type
  | ret (a : α) : Prog Op Res α
  | call (op : Op) (k : Res op → Prog Op Res α) : Prog Op Res α

/-- The operations a program has performed so far, with their answers. -/
abbrev Trace (Op : Type) (Res : Op → Type) := List (Σ op : Op, Res op)

/-- None of the operations, with its answer, is a bad one. -/
def Free {Op : Type} {Res : Op → Type} (bad : (Σ op : Op, Res op) → Prop) (tr : Trace Op Res) :
    Prop := ∀ x ∈ tr, ¬ bad x

section Free

variable {Op : Type} {Res : Op → Type} {bad : (Σ op : Op, Res op) → Prop} {tr tr' : Trace Op Res}

@[simp] theorem free_nil : Free bad ([] : Trace Op Res) := fun _ h => absurd h List.not_mem_nil

theorem free_cons {x : Σ op : Op, Res op} : Free bad (x :: tr) ↔ ¬ bad x ∧ Free bad tr :=
  List.forall_mem_cons

theorem not_free_of_mem {x : Σ op : Op, Res op} (hx : x ∈ tr) (hb : bad x) : ¬ Free bad tr :=
  fun h => h x hx hb

theorem free_append : Free bad (tr ++ tr') ↔ Free bad tr ∧ Free bad tr' := List.forall_mem_append

end Free

namespace Prog

variable {Op : Type} {Res : Op → Type} {α β σ V : Type}

def bind : Prog Op Res α → (α → Prog Op Res β) → Prog Op Res β
  | ret a, f => f a
  | call op k, f => call op (fun r => (k r).bind f)

instance : Monad (Prog Op Res) where
  pure := ret
  bind := bind

/-- Perform one operation. -/
def perform (op : Op) : Prog Op Res (Res op) := call op ret

@[simp] theorem pure_eq (a : α) : (pure a : Prog Op Res α) = ret a := rfl

@[simp] theorem ret_bind (a : α) (f : α → Prog Op Res β) : (ret a >>= f) = f a := rfl

@[simp] theorem call_bind (op : Op) (k : Res op → Prog Op Res α) (f : α → Prog Op Res β) :
    (call op k >>= f) = call op (fun r => k r >>= f) := rfl

@[simp] theorem perform_bind (op : Op) (f : Res op → Prog Op Res β) :
    (perform op >>= f) = call op f := rfl

/-! ### Running in one go -/

/-- Run a program to its end.  `none` is an operation the environment refuses. -/
def run (exec : (op : Op) → σ → Option (Res op × σ)) : Prog Op Res α → σ → Option (α × σ)
  | ret a, s => some (a, s)
  | call op k, s => (exec op s).bind fun p => (k p.1).run exec p.2

@[simp] theorem run_ret (exec : (op : Op) → σ → Option (Res op × σ)) (a : α) (s : σ) :
    (ret a : Prog Op Res α).run exec s = some (a, s) := rfl

@[simp] theorem run_call (exec : (op : Op) → σ → Option (Res op × σ)) (op : Op)
    (k : Res op → Prog Op Res α) (s : σ) :
    (call op k).run exec s = (exec op s).bind fun p => (k p.1).run exec p.2 := rfl

@[simp] theorem run_perform (exec : (op : Op) → σ → Option (Res op × σ)) (op : Op) (s : σ) :
    (perform op).run exec s = exec op s := by
  show (exec op s).bind (fun p => some (p.1, p.2)) = exec op s
  exact Option.bind_fun_some _

theorem run_bind (exec : (op : Op) → σ → Option (Res op × σ)) (p : Prog Op Res α)
    (f : α → Prog Op Res β) (s : σ) :
    (p >>= f).run exec s = (p.run exec s).bind fun q => (f q.1).run exec q.2 := by
  induction p generalizing s with
  | ret a => rfl
  | call op k ih =>
    rw [call_bind, run_call, run_call, Option.bind_assoc]
    exact Option.bind_congr fun q _ => ih q.1 q.2

/-- The environment, with the operations written down as they are performed. -/
def logged (exec : (op : Op) → σ → Option (Res op × σ)) (op : Op) (s : σ × List Op) :
    Option (Res op × σ × List Op) :=
  (exec op s.1).map fun p => (p.1, p.2, s.2 ++ [op])

theorem run_of_run_logged {exec : (op : Op) → σ → Option (Res op × σ)} {p : Prog Op Res α}
    {s s' : σ} {ops ops' : List Op} {a : α}
    (h : p.run (logged exec) (s, ops) = some (a, s', ops')) : p.run exec s = some (a, s') := by
  induction p generalizing s ops with
  | ret b =>
    cases h
    rfl
  | call op k ih =>
    rw [run_call, logged] at h
    rw [run_call]
    cases he : exec op s with
    | none =>
      rw [he] at h
      cases h
    | some q =>
      rw [he] at h
      exact ih q.1 h

/-! ### Running with any answers -/

/-- The program performs the operations `tr`, with these answers, and ends with `a`. -/
inductive Runs : Prog Op Res α → Trace Op Res → α → Prop
  | ret (a : α) : Runs (ret a) [] a
  | call {op : Op} {k : Res op → Prog Op Res α} (r : Res op) {tr : Trace Op Res} {a : α}
      (h : Runs (k r) tr a) : Runs (call op k) (⟨op, r⟩ :: tr) a

section Runs

variable {tr : Trace Op Res} {a b : α}

@[simp] theorem runs_ret_iff : (ret a : Prog Op Res α).Runs tr b ↔ tr = [] ∧ b = a := by
  constructor
  · intro h
    cases h
    exact ⟨rfl, rfl⟩
  · rintro ⟨rfl, rfl⟩
    exact .ret b

@[simp] theorem runs_call_iff {op : Op} {k : Res op → Prog Op Res α} :
    (call op k).Runs tr a ↔ ∃ r rest, tr = ⟨op, r⟩ :: rest ∧ (k r).Runs rest a := by
  constructor
  · intro h
    cases h with
    | call r h => exact ⟨r, _, rfl, h⟩
  · rintro ⟨r, rest, rfl, h⟩
    exact .call r h

theorem runs_bind_iff {p : Prog Op Res α} {f : α → Prog Op Res β} {b : β} :
    (p >>= f).Runs tr b ↔
      ∃ tr₁ tr₂ a, tr = tr₁ ++ tr₂ ∧ p.Runs tr₁ a ∧ (f a).Runs tr₂ b := by
  induction p generalizing tr with
  | ret a =>
    rw [ret_bind]
    constructor
    · intro h
      exact ⟨[], tr, a, rfl, .ret a, h⟩
    · rintro ⟨tr₁, tr₂, a', rfl, hp, hf⟩
      obtain ⟨rfl, rfl⟩ := runs_ret_iff.mp hp
      exact hf
  | call op k ih =>
    rw [call_bind, runs_call_iff]
    constructor
    · rintro ⟨r, rest, rfl, h⟩
      obtain ⟨tr₁, tr₂, a, rfl, hp, hf⟩ := (ih r).mp h
      exact ⟨⟨op, r⟩ :: tr₁, tr₂, a, rfl, .call r hp, hf⟩
    · rintro ⟨tr₁, tr₂, a, rfl, hp, hf⟩
      obtain ⟨r, rest, rfl, hk⟩ := runs_call_iff.mp hp
      exact ⟨r, rest ++ tr₂, rfl, (ih r).mpr ⟨rest, tr₂, a, rfl, hk, hf⟩⟩

end Runs

/-! ### Which operations a program performs -/

/-- With suitable answers the program performs the operation. -/
inductive Makes : Prog Op Res α → Op → Prop
  | here {op : Op} {k : Res op → Prog Op Res α} : Makes (call op k) op
  | later {op op' : Op} {k : Res op → Prog Op Res α} (r : Res op) (h : Makes (k r) op') :
      Makes (call op k) op'

/-- Whatever the answers, the program performs good operations only. -/
def Calls (good : Op → Prop) (p : Prog Op Res α) : Prop := ∀ op, p.Makes op → good op

section Calls

variable {good : Op → Prop}

theorem calls_ret (a : α) : (ret a : Prog Op Res α).Calls good := by
  intro op h
  cases h

theorem calls_call {op : Op} {k : Res op → Prog Op Res α} :
    (call op k).Calls good ↔ good op ∧ ∀ r, (k r).Calls good := by
  constructor
  · intro h
    exact ⟨h op .here, fun r op' hm => h op' (.later r hm)⟩
  · intro h op' hm
    cases hm with
    | here => exact h.1
    | later r hm => exact h.2 r op' hm

theorem Calls.bind {p : Prog Op Res α} {f : α → Prog Op Res β} (hp : p.Calls good)
    (hf : ∀ a, (f a).Calls good) : (p >>= f).Calls good := by
  induction p with
  | ret a => exact hf a
  | call op k ih =>
    rw [calls_call] at hp
    rw [call_bind, calls_call]
    exact ⟨hp.1, fun r => ih r (hp.2 r)⟩

theorem calls_perform {op : Op} (h : good op) : (perform op : Prog Op Res (Res op)).Calls good :=
  calls_call.mpr ⟨h, fun _ => calls_ret _⟩

end Calls

/-! ### What a program guarantees -/

/-- Every operation of the program is one it may perform (`can`), and every
completed run ends in `post`, where `next` says how an operation and its answer
change the view. -/
def Ok (can : Op → V → Prop) (next : (op : Op) → V → Res op → V → Prop)
    (post : Trace Op Res → α → V → Prop) : Prog Op Res α → Trace Op Res → V → Prop
  | ret a, tr, v => post tr a v
  | call op k, tr, v => can op v ∧
      ∀ r v', next op v r v' → (k r).Ok can next post (tr ++ [⟨op, r⟩]) v'

@[simp] theorem ok_ret {can : Op → V → Prop} {next : (op : Op) → V → Res op → V → Prop}
    {post : Trace Op Res → α → V → Prop} {a : α} {tr : Trace Op Res} {v : V} :
    (ret a : Prog Op Res α).Ok can next post tr v ↔ post tr a v := Iff.rfl

@[simp] theorem ok_call {can : Op → V → Prop} {next : (op : Op) → V → Res op → V → Prop}
    {post : Trace Op Res → α → V → Prop} {op : Op} {k : Res op → Prog Op Res α}
    {tr : Trace Op Res} {v : V} :
    (call op k).Ok can next post tr v ↔
      can op v ∧ ∀ r v', next op v r v' → (k r).Ok can next post (tr ++ [⟨op, r⟩]) v' := Iff.rfl

theorem Ok.mono {can can' : Op → V → Prop} {next next' : (op : Op) → V → Res op → V → Prop}
    {post post' : Trace Op Res → α → V → Prop} (hcan : ∀ {op v}, can op v → can' op v)
    (hnext : ∀ {op v r v'}, next' op v r v' → next op v r v')
    (hpost : ∀ {tr a v}, post tr a v → post' tr a v)
    {p : Prog Op Res α} {tr : Trace Op Res} {v : V} (h : p.Ok can next post tr v) :
    p.Ok can' next' post' tr v := by
  induction p generalizing tr v with
  | ret a => exact hpost h
  | call op k ih => exact ⟨hcan h.1, fun r v' hr => ih r (h.2 r v' (hnext hr))⟩

/-- Programs one after the other. -/
theorem ok_bind {can : Op → V → Prop} {next : (op : Op) → V → Res op → V → Prop}
    {post : Trace Op Res → β → V → Prop} {p : Prog Op Res α} {f : α → Prog Op Res β}
    {tr : Trace Op Res} {v : V} :
    (p >>= f).Ok can next post tr v ↔
      p.Ok can next (fun tr a v => (f a).Ok can next post tr v) tr v := by
  induction p generalizing tr v with
  | ret a => exact Iff.rfl
  | call op k ih =>
    rw [call_bind, ok_call, ok_call]
    refine and_congr_right fun _ => forall_congr' fun r => forall_congr' fun v' =>
      imp_congr_right fun _ => ih r

/-- An operation that does not change the view, where the answer decides what becomes of it. -/
theorem ok_call_of_eq {can : Op → V → Prop} {after : (op : Op) → V → Res op → V}
    {post : Trace Op Res → α → V → Prop} {op : Op} {k : Res op → Prog Op Res α}
    {tr : Trace Op Res} {v : V} (hcan : can op v) (hafter : ∀ r, after op v r = v)
    (h : ∀ r, (k r).Ok can (fun op v r v' => v' = after op v r) post (tr ++ [⟨op, r⟩]) v) :
    (call op k).Ok can (fun op v r v' => v' = after op v r) post tr v := by
  refine ⟨hcan, fun r v' hv' => ?_⟩
  subst hv'
  have hr := h r
  rwa [← hafter r] at hr

/-- What has been performed before stays in the trace. -/
theorem Ok.keeps_trace {can : Op → V → Prop} {next : (op : Op) → V → Res op → V → Prop}
    {post : Trace Op Res → α → V → Prop} {p : Prog Op Res α} {tr : Trace Op Res} {v : V}
    (h : p.Ok can next post tr v) :
    p.Ok can next (fun tr' a v' => tr <+: tr' ∧ post tr' a v') tr v := by
  induction p generalizing tr v with
  | ret a => exact ⟨List.prefix_rfl, h⟩
  | call op k ih =>
    refine ⟨h.1, fun r v' hr => ?_⟩
    refine (ih r (h.2 r v' hr)).mono id id fun {tr' _ _} hpost => ?_
    exact ⟨(List.prefix_append tr _).trans hpost.1, hpost.2⟩

/-- If the operations that the program may perform are not refused, it can be run in one go,
and the run ends as `post` says; `good` is what is known of the answers. -/
theorem Ok.exists_run {can : Op → V → Prop} {next : (op : Op) → V → Res op → V → Prop}
    {post : Trace Op Res → α → V → Prop} {exec : (op : Op) → σ → Option (Res op × σ)}
    {view : σ → V → Prop} {good : (Σ op : Op, Res op) → Prop}
    (hexec : ∀ {op s v}, view s v → can op v →
      ∃ r s' v', exec op s = some (r, s') ∧ good ⟨op, r⟩ ∧ next op v r v' ∧ view s' v')
    {p : Prog Op Res α} {tr : Trace Op Res} {s : σ} {v : V} (h : p.Ok can next post tr v)
    (htr : ∀ x ∈ tr, good x) (hv : view s v) :
    ∃ a s' tr' v', p.run exec s = some (a, s') ∧ (∀ x ∈ tr', good x) ∧ post tr' a v' ∧
      view s' v' := by
  induction p generalizing tr s v with
  | ret a => exact ⟨a, s, tr, v, rfl, htr, h, hv⟩
  | call op k ih =>
    obtain ⟨r, s₁, v₁, hr, hgood, hnext, hv₁⟩ := hexec hv h.1
    have htr₁ : ∀ x ∈ tr ++ [⟨op, r⟩], good x :=
      List.forall_mem_append.mpr ⟨htr, List.forall_mem_singleton.mpr hgood⟩
    obtain ⟨a, s', tr', v', hrun, htr', hpost, hv'⟩ := ih r (h.2 r v₁ hnext) htr₁ hv₁
    refine ⟨a, s', tr', v', ?_, htr', hpost, hv'⟩
    rw [run_call, hr]
    exact hrun

/-! ### A program among others -/

section Embed

variable {Op' : Type} {Res' : Op' → Type} (f : Op → Op') (w : α → β)

/-- The same program where its operations are some of the operations `Op'`. -/
def embed : Prog Op (fun op => Res' (f op)) α → Prog Op' Res' β
  | ret a => ret (w a)
  | call op k => call (f op) (fun r => (k r).embed)

/-- What the program has performed, as operations `Op'`. -/
def embedTrace (tr : Trace Op (fun op => Res' (f op))) : Trace Op' Res' :=
  tr.map fun x => ⟨f x.1, x.2⟩

variable {f w}

/-- The program guarantees the same among the operations `Op'`. -/
theorem ok_embed {can : Op' → V → Prop} {next : (op : Op') → V → Res' op → V → Prop}
    {post : Trace Op' Res' → β → V → Prop} {p : Prog Op (fun op => Res' (f op)) α}
    {tr : Trace Op (fun op => Res' (f op))} {v : V} :
    (p.embed f w).Ok can next post (embedTrace f tr) v ↔
      p.Ok (fun op => can (f op)) (fun op => next (f op))
        (fun tr a => post (embedTrace f tr) (w a)) tr v := by
  induction p generalizing tr v with
  | ret a => exact Iff.rfl
  | call op k ih =>
    refine and_congr_right fun _ => forall_congr' fun r => forall_congr' fun v' =>
      imp_congr_right fun _ => ?_
    rw [← ih r, embedTrace, embedTrace, List.map_append]
    exact Iff.rfl

theorem run_embed (exec : (op : Op') → σ → Option (Res' op × σ))
    (p : Prog Op (fun op => Res' (f op)) α) (s : σ) :
    (p.embed f w).run exec s = (p.run (fun op => exec (f op)) s).map fun q => (w q.1, q.2) := by
  induction p generalizing s with
  | ret a => rfl
  | call op k ih =>
    rw [embed, run_call, run_call, Option.map_bind]
    exact Option.bind_congr fun q _ => ih q.1 q.2

end Embed

end Prog

end NetworkAnalyse.Lib
