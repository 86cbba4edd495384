import Ilxd.World

/-!
# One goroutine running alone

`Prog.Solo rules i Q p w` is a weakest precondition for goroutine `i` running the code `p`
by itself from the world `w`: every such run along which `p` returns `a` ends in a world `v`
with `Q v a`.  Runs that wait forever, or panic, carry no obligation.  The world it tracks
keeps the goroutine's own entry in `tasks` as it was when the run started.

* `Prog.solo_bind` — `Solo` splits over `>>=`.
* `World.solo_run` — the connection to `World.step`: a run of goroutine `i` alone that
  returns ends in a world satisfying `Q`.
-/

set_option autoImplicit false

namespace Ilxd

/-- Goroutine `i`'s entry replaced by `x`. -/
def World.withTask (w : World) (i : Nat) (x : Prog Unit) : World :=
  { w with tasks := w.tasks.set i x }

theorem World.withTask_withTask (w : World) (i : Nat) (x y : Prog Unit) :
    (w.withTask i x).withTask i y = w.withTask i y := by
  simp [World.withTask]

theorem World.withTask_self {w : World} {i : Nat} {x : Prog Unit} (h : w.tasks[i]? = some x) :
    w.withTask i x = w := by
  obtain ⟨hi, rfl⟩ := List.getElem?_eq_some_iff.1 h
  have : w.tasks.set i w.tasks[i] = w.tasks :=
    List.ext_getElem (by simp) fun j _ _ => by by_cases e : i = j <;> simp [List.getElem_set, e]
  simp [World.withTask, this]

section Exec

variable {rules : Block → Verdict}

/-- **A command does not read the goroutines' code.** -/
theorem World.exec_withTask {w v : World} {t i : Nat} {h : Hint} {c : Cmd} {r : c.Resp}
    (x : Prog Unit) (hi : i < w.tasks.length) (he : w.exec rules t h c = .answer r v) :
    (w.withTask i x).exec rules t h c = .answer r (v.withTask i x) := by
  cases c <;> simp only [World.exec] at he ⊢
  case lock l m =>
    split at he
    · rename_i k hk
      cases he
      simp only [World.withTask, hk]
    · cases he
  case checkConnectBlock b => cases b <;> cases he; rfl
  case decodeXthinner x =>
    split at he
    · split_ifs at he with hx; cases he; simp [hx]
    · cases he
  case sendRequest p req =>
    simp only [Reply.ofHint] at he ⊢; split at he <;> cases he; rename_i hr; simp [hr]
  case peers =>
    simp only [Reply.ofHint] at he ⊢; split at he <;> cases he; rename_i hr; simp [hr]
  case recv callback =>
    split at he
    · rename_i e he'
      simp only [World.withTask, he']
      split_ifs at he ⊢ <;> cases he <;> rfl
    · rename_i he'
      split_ifs at he with hd; cases he
      simp only [World.withTask, he', hd, if_true]
  case go task =>
    cases he; simp [World.withTask, List.set_append_left _ _ hi]
  case afterFunc task =>
    cases he; simp [World.withTask, List.set_append_left _ _ hi]
  all_goals cases he; rfl

end Exec

/-! ## Weakest preconditions of solo runs -/

/-- Every run of goroutine `i` alone from `w` along which `p` returns `a` ends in a world `v`
with `Q v a`. -/
def Prog.Solo {α : Type} (rules : Block → Verdict) (i : Nat) (Q : World → α → Prop) :
    Prog α → World → Prop
  | .ret a, w => Q w a
  | .panic, _ => True
  | .op c k, w => ∀ h r v, w.exec rules i h c = .answer r v → Solo rules i Q (k r) v

namespace Prog

variable {α β : Type} {rules : Block → Verdict} {i : Nat}

theorem solo_bind {Q : World → β → Prop} (p : Prog α) (f : α → Prog β) (w : World) :
    Solo rules i Q (p.bind f) w ↔ Solo rules i (fun v a => Solo rules i Q (f a) v) p w := by
  induction p generalizing w with
  | ret a => rfl
  | panic => exact Iff.rfl
  | op c k ih => simp only [op_bind, Solo, ih]

theorem Solo.mono {Q Q' : World → α → Prop} (hQ : ∀ v a, Q v a → Q' v a) :
    ∀ {p : Prog α} {w : World}, Solo rules i Q p w → Solo rules i Q' p w
  | .ret a, w, h => hQ w a h
  | .panic, _, _ => trivial
  | .op _ _, _, h => fun hh r v he => Solo.mono hQ (h hh r v he)

end Prog

/-! ## Commands in solo runs -/

/-- Commands that read the state or the environment and change nothing. -/
def Cmd.isQuery : Cmd → Bool
  | .orphanAtHeight _ | .getInventory _ | .hasInflight _ | .checkConnectBlock _
  | .getBlockByID _ | .decodeXthinner _ | .sendRequest _ _ | .increaseBanscore _ _ _
  | .peers => true
  | _ => false

theorem Cmd.isQuery_of_isPeerOp {c : Cmd} (h : c.isPeerOp = true) : c.isQuery = true := by
  cases c <;> first | rfl | cases h

section SoloCommands

variable {α β : Type} {rules : Block → Verdict} {i : Nat} {Q : World → α → Prop} {w : World}

theorem World.exec_query {v : World} {t : Nat} {h : Hint} {c : Cmd} {r : c.Resp}
    (hc : c.isQuery = true) (he : w.exec rules t h c = .answer r v) : v = w := by
  cases c <;> cases hc <;> simp only [World.exec] at he
  case checkConnectBlock b => cases b <;> cases he; rfl
  case decodeXthinner x => split at he <;> [(split_ifs at he; cases he; rfl); cases he]
  case sendRequest p req => simp only [Reply.ofHint] at he; split at he <;> cases he; rfl
  case peers => simp only [Reply.ofHint] at he; split at he <;> cases he; rfl
  all_goals cases he; rfl

/-- A query leaves the world as it is. -/
theorem Prog.solo_query {c : Cmd} {k : c.Resp → Prog α} (hc : c.isQuery = true)
    (hk : ∀ r, Prog.Solo rules i Q (k r) w) : Prog.Solo rules i Q (.op c k) w :=
  fun _ r _ he => World.exec_query hc he ▸ hk r

/-- **Code made of queries leaves the world as it is.** -/
theorem Prog.All.solo_bind {Q : World → β → Prop} {p : Prog α} (hp : p.All Cmd.isQuery)
    {f : α → Prog β} (hf : ∀ a, Prog.Solo rules i Q (f a) w) :
    Prog.Solo rules i Q (p.bind f) w := by
  induction p with
  | ret a => exact hf a
  | panic => trivial
  | op c k ih => exact Prog.solo_query hp.1 fun r => ih r (hp.2 r)

/-- `Lock`/`RLock`: the goroutine goes on holding the mutex, or waits for good. -/
theorem Prog.solo_lock {l : LockName} {m : Mode} {f : Unit → Prog α}
    (hf : ∀ k, (w.locks.get l).acquire i m = some k →
      Prog.Solo rules i Q (f ()) { w with locks := w.locks.set l k }) :
    Prog.Solo rules i Q (.op (.lock l m) f) w := by
  intro h r v he
  simp only [World.exec] at he
  split at he
  · cases he; exact hf _ ‹_›
  · cases he

/-- A `Lock` the goroutine cannot get ends every solo run. -/
theorem Prog.solo_lock_blocked {l : LockName} {m : Mode} {f : Unit → Prog α}
    (hb : (w.locks.get l).acquire i m = none) : Prog.Solo rules i Q (.op (.lock l m) f) w := by
  intro h r v he
  simp [World.exec, hb] at he

end SoloCommands

/-! ## Connection to runs -/

section Run

variable {rules : Block → Verdict} {i : Nat}

theorem World.step_run_getElem? {w w' : World} {h : Hint}
    (hs : w.step rules (.run i h) = some w') : ∃ c k, w.tasks[i]? = some (.op c k) := by
  simp only [World.step] at hs
  split at hs
  · exact ⟨_, _, ‹_›⟩
  · cases hs

/-- A goroutine that has panicked takes no more steps. -/
theorem World.run_panicked {w w' : World} (hp : w.tasks[i]? = some .panic) :
    ∀ hs : List Hint, w.run rules (hs.map (.run i)) = some w' → w' = w
  | [], hr => by cases hr; rfl
  | _ :: _, hr => by
    simp only [List.map_cons, World.run, Option.bind_eq_some] at hr
    obtain ⟨w₁, h₁, -⟩ := hr
    obtain ⟨c, k, hck⟩ := World.step_run_getElem? h₁
    rw [hp] at hck; cases hck

/-- **Solo runs meet their precondition**: if goroutine `i` runs `p` alone from `w` and
returns, the world it ends in, with `i`'s entry put back to `s`, satisfies `Q`. -/
theorem World.solo_run {s : Prog Unit} {Q : World → Unit → Prop} :
    ∀ (hs : List Hint) (w w' : World) (p : Prog Unit), w.tasks[i]? = some p →
      Prog.Solo rules i Q p (w.withTask i s) → w.run rules (hs.map (.run i)) = some w' →
      w'.tasks[i]? = some (.ret ()) → Q (w'.withTask i s) ()
  | [], w, w', p, hp, hq, hr, hend => by
    cases hr
    rw [hp] at hend; cases hend
    exact hq
  | h :: hs, w, w', p, hp, hq, hr, hend => by
    simp only [List.map_cons, World.run, Option.bind_eq_some] at hr
    obtain ⟨w₁, h₁, hr⟩ := hr
    obtain ⟨c, k, hck⟩ := World.step_run_getElem? h₁
    rw [hp] at hck; cases hck
    have hi : i < w.tasks.length := (List.getElem?_eq_some_iff.1 hp).1
    rcases World.step_run_op hp h₁ with ⟨r, v, he, rfl⟩ | ⟨-, rfl⟩
    · obtain ⟨-, new, hnew⟩ := World.exec_frame he
      refine World.solo_run hs _ w' (k r) ?_ ?_ hr hend
      · show ((v.tasks).set i (k r))[i]? = some (k r)
        exact List.getElem?_set_self (by rw [hnew, List.length_append]; omega)
      · have := hq h r _ (World.exec_withTask s hi he)
        simpa only [World.withTask, List.set_set] using this
    · have hpanic : (w.withTask i .panic).tasks[i]? = some .panic := by
        simp [World.withTask, List.getElem?_set, hi]
      rw [World.run_panicked hpanic hs hr] at hend
      simp [hpanic] at hend

end Run

end Ilxd
