import DailyScheduler.Execution.Frame
import DailyScheduler.Model.Sample
import DailyScheduler.Tasks.Removal

set_option autoImplicit false

/-! # The command that deletes failed jobs

`management/commands/delete_failed_executions.py` loads the jobs of the failed registry and keeps
those that run the given function, but its loop goes over the names it has read before.
-/

namespace DailyScheduler

open AtomicProg

namespace DeleteFailed

/-- `[job for job in jobs if job.func_name == func_name]`: a name without a record has been loaded
as `None`. -/
def withFuncName (f : String) : List (Option JobModel) → Except PyError (List (Option JobModel))
  | [] => .ok []
  | none :: _ => .error (.attributeError "func_name")
  | some j :: l =>
      (withFuncName f l).map fun jobs => if j.funcName = f then some j :: jobs else jobs

/-- The jobs that the command counts. -/
def selected (func : Option String) (jobs : List (Option JobModel)) :
    Except PyError (List (Option JobModel)) :=
  match func with
  | none => .ok jobs
  | some f => if f = "" then .ok jobs else withFuncName f jobs

/-- `if not dry_run: queue.delete_job(job)`. -/
def deleteUnlessDry (env : Env) (q : Queue) (dryRun : Bool) (n : JobName) : Py Unit :=
  if dryRun then pure () else q.deleteJob env n true

/-- The loop of `handle`: the lines it prints. -/
def deleteAll (env : Env) (q : Queue) (dryRun : Bool) : List JobName → Py (List String)
  | [] => pure []
  | n :: l => do
      deleteUnlessDry env q dryRun n
      let lines ← deleteAll env q dryRun l
      pure (("Deleting " ++ n) :: lines)

/-- The lines around those of the loop. -/
def report (count : Nat) (lines : List String) : List String :=
  ["Found " ++ toString count ++ " failed jobs"] ++ lines ++
    ["Deleted " ++ toString count ++ " failed jobs"]

/-- `handle`, for the queue that it has found: the lines it prints. -/
def handle (env : Env) (q : Queue) (func : Option String) (dryRun : Bool) : Py (List String) := do
  let jobNames ← q.failedJobRegistry.all 0 (-1)
  let jobs ← JobModel.getMany env jobNames
  match selected func jobs with
  | .error x => throw x
  | .ok jobs => do
      let lines ← deleteAll env q dryRun jobNames
      pure (report jobs.length lines)

section Statements

variable (env : Env) (q : Queue) (func : Option String) (dryRun : Bool) (w : World)

/-- The world as the command finds it: reading the failed registry drops the entries that have
expired. -/
def found : World := q.failedJobRegistry.cleaned none w

/-- The names in the failed registry. -/
def failedNames : List JobName := ((found q w).registry q.name .failed).entries.map Prod.snd

/-- The failed job runs the function, or no function is given. -/
def Wanted (n : JobName) : Prop :=
  ∀ f, func = some f → ∃ j, JobModel.fetch env (found q w) n = some j ∧ j.funcName = f

/-- Exactly the failed jobs that are wanted are deleted from the queue: they are in none of its
registries any more, and no other job is touched. -/
structure DeletesWanted (w' : World) : Prop where
  deleted : ∀ n ∈ failedNames q w, Wanted env q func w n → ∀ k, ¬ w'.inRegistry q.name k n
  kept : ∀ n, ¬ (n ∈ failedNames q w ∧ Wanted env q func w n) → Untouched n (found q w) w'

/-- The command terminates normally and deletes what is wanted; with `--dry-run` nothing is
deleted. -/
def Works : Prop :=
  if dryRun then (handle env q func true).exec w = found q w
  else (∃ lines, ((handle env q func false).run w).val = .ok lines) ∧
    DeletesWanted env q func w ((handle env q func false).exec w)

/-- Every record of a failed job can be decoded, and runs the function if one is given. -/
def AllWanted : Prop :=
  (∀ n ∈ failedNames q w, (found q w).jobs.find? n = none ∨
    ∃ j, JobModel.fetch env (found q w) n = some j) ∧
  ∀ n ∈ failedNames q w, Wanted env q func w n

end Statements

section Proofs

variable {env : Env} {q : Queue} {func : Option String} {w : World}

/-! ## The loop -/

theorem run_deleteUnlessDry (dryRun : Bool) (n : JobName) (w : World) :
    (deleteUnlessDry env q dryRun n).run w
      = ⟨.ok (), if dryRun then w else q.deletedWorld env n true w, []⟩ := by
  cases dryRun with
  | true => rfl
  | false => exact Queue.run_deleteJob env q n true w

theorem run_deleteAll_dry (l : List JobName) (w : World) :
    (deleteAll env q true l).run w = ⟨.ok (l.map ("Deleting " ++ ·)), w, []⟩ := by
  induction l with
  | nil => rfl
  | cons n l ih =>
      rw [deleteAll, Prog.run_bind, run_deleteUnlessDry, if_pos rfl, Prog.Outcome.andThen_ok,
        Prog.run_bind, ih]
      rfl

theorem run_deleteAll (l : List JobName) (w : World) :
    (deleteAll env q false l).run w
      = ⟨.ok (l.map ("Deleting " ++ ·)), l.foldl (fun w n => q.deletedWorld env n true w) w, []⟩ := by
  induction l generalizing w with
  | nil => rfl
  | cons n l ih =>
      rw [deleteAll, Prog.run_bind, run_deleteUnlessDry, if_neg (by decide),
        Prog.Outcome.andThen_ok, Prog.run_bind, ih]
      rfl

/-- A name that has been out of a registry stays out of it. -/
theorem notIn_foldl {n : JobName} {k : RegistryKind} (l : List JobName) {w : World}
    (h : n ∈ l ∨ ¬ w.inRegistry q.name k n) :
    ¬ (l.foldl (fun w n => q.deletedWorld env n true w) w).inRegistry q.name k n := by
  induction l generalizing w with
  | nil => exact h.resolve_left List.not_mem_nil
  | cons m l ih =>
      apply ih
      rcases h with h | h
      · rcases List.mem_cons.1 h with rfl | h
        · right
          intro hin
          have hkept := (Removal.inRegistry_deletedWorld q n n w q.name k).1 hin
          exact hkept.2 ⟨rfl, rfl⟩
        · exact .inl h
      · right
        intro hin
        exact h ((Removal.inRegistry_deletedWorld q m n w q.name k).1 hin).1

theorem untouched_foldl {n : JobName} (l : List JobName) (h : n ∉ l) (w : World) :
    Untouched n w (l.foldl (fun w n => q.deletedWorld env n true w) w) := by
  induction l generalizing w with
  | nil => exact .refl w
  | cons m l ih =>
      have hne : n ≠ m := fun heq => h (heq ▸ List.mem_cons_self)
      have hm := Untouched.deleteJobOf w env q true hne
      rw [Prog.exec_eq_of_run (Queue.run_deleteJob env q m true w)] at hm
      exact hm.trans (ih (fun hl => h (List.mem_cons_of_mem m hl)) _)

/-! ## The command -/

theorem withFuncName_ok_iff (f : String) (jobs : List (Option JobModel)) :
    (∃ js, withFuncName f jobs = .ok js) ↔ none ∉ jobs := by
  induction jobs with
  | nil => exact ⟨fun _ => List.not_mem_nil, fun _ => ⟨[], rfl⟩⟩
  | cons o l ih =>
      cases o with
      | none =>
          constructor
          · rintro ⟨js, hjs⟩
            cases hjs
          · intro h
            exact absurd List.mem_cons_self h
      | some j =>
          have hcons : none ∉ some j :: l ↔ none ∉ l := by simp
          rw [hcons, ← ih]
          constructor
          · rintro ⟨js, hjs⟩
            rw [withFuncName] at hjs
            cases hl : withFuncName f l with
            | error x => rw [hl] at hjs; cases hjs
            | ok js' => exact ⟨js', rfl⟩
          · rintro ⟨js, hjs⟩
            exact ⟨_, by rw [withFuncName, hjs]; rfl⟩

/-- What the filter keeps, or the exception it raises at a name without a record. -/
theorem selected_ok_iff (jobs : List (Option JobModel)) :
    (∃ js, selected func jobs = .ok js) ↔ func = none ∨ func = some "" ∨ none ∉ jobs := by
  cases func with
  | none => exact ⟨fun _ => .inl rfl, fun _ => ⟨jobs, rfl⟩⟩
  | some f =>
      by_cases hf : f = ""
      · subst hf
        exact ⟨fun _ => .inr (.inl rfl), fun _ => ⟨jobs, rfl⟩⟩
      · rw [selected, if_neg hf, withFuncName_ok_iff]
        simp [hf]

/-- The end of a run: an exception before anything is deleted, or the whole loop. -/
theorem run_handle (dryRun : Bool) :
    (handle env q func dryRun).run w
      = match JobModel.deserializeAll env
          ((failedNames q w).map fun n => (n, (found q w).jobs.find? n)) with
        | .error x => ⟨.error x, found q w, []⟩
        | .ok jobs => match selected func jobs with
          | .error x => ⟨.error x, found q w, []⟩
          | .ok jobs =>
              ⟨.ok (report jobs.length ((failedNames q w).map ("Deleting " ++ ·))),
                if dryRun then found q w
                else (failedNames q w).foldl (fun w n => q.deletedWorld env n true w) (found q w),
                []⟩ := by
  have hall : (q.failedJobRegistry.all 0 (-1)).run w
      = ⟨.ok (failedNames q w), found q w, []⟩ := by
    rw [Registry.run_all, SortedSet.range_all]
    rfl
  rw [handle, Prog.run_bind, hall, Prog.Outcome.andThen_ok, Prog.run_bind, JobModel.run_getMany]
  cases JobModel.deserializeAll env
      ((failedNames q w).map fun n => (n, (found q w).jobs.find? n)) with
  | error x => rfl
  | ok jobs =>
      rw [Prog.Outcome.andThen_ok]
      dsimp only
      cases selected func jobs with
      | error x => rfl
      | ok js =>
          cases dryRun with
          | true =>
              rw [Prog.run_bind, run_deleteAll_dry]
              rfl
          | false =>
              rw [Prog.run_bind, run_deleteAll]
              rfl

theorem mem_failedNames {n : JobName} (h : n ∈ failedNames q w) :
    (found q w).inRegistry q.name .failed n :=
  (SortedSet.mem_members _ _).1 h

end Proofs

/-- The command does what it is for exactly when nothing tells the names apart: with `--dry-run`,
or when every failed job is to be deleted. -/
theorem works_iff (env : Env) (q : Queue) (func : Option String) (dryRun : Bool) (w : World) :
    Works env q func dryRun w ↔ dryRun = true ∨ AllWanted env q func w := by
  cases dryRun with
  | true =>
      refine iff_of_true ?_ (.inl rfl)
      rw [Works, if_pos rfl, Prog.exec, run_handle]
      split
      · rfl
      · split <;> rfl
  | false =>
      rw [Works, if_neg (by decide)]
      have hrun := @run_handle env q func w false
      constructor
      · rintro ⟨⟨lines, hlines⟩, hdel⟩
        right
        cases hjs : JobModel.deserializeAll env
            ((failedNames q w).map fun n => (n, (found q w).jobs.find? n)) with
        | error x =>
            rw [hrun, hjs] at hlines
            cases hlines
        | ok jobs =>
            refine ⟨(JobModel.deserializeAll_inv hjs).2, fun n hn => ?_⟩
            -- the loop has deleted every name, so none of them is one that had to be kept
            by_contra hwanted
            cases hsel : selected func jobs with
            | error x =>
                rw [hrun, hjs] at hlines
                dsimp only at hlines
                rw [hsel] at hlines
                cases hlines
            | ok js =>
                have hkept := hdel.kept n fun h => hwanted h.2
                have hin := (hkept.inRegistry q.name .failed).2 (mem_failedNames hn)
                rw [Prog.exec, hrun, hjs] at hin
                dsimp only at hin
                rw [hsel] at hin
                exact notIn_foldl _ (.inl hn) hin
      · rintro (h | ⟨hload, hwanted⟩)
        · cases h
        · obtain ⟨jobs, hjs⟩ := JobModel.deserializeAll_ok hload
          have hsel : ∃ js, selected func jobs = .ok js := by
            rw [selected_ok_iff]
            cases func with
            | none => exact .inl rfl
            | some f =>
                right
                right
                rw [(JobModel.deserializeAll_inv hjs).1]
                intro hnone
                obtain ⟨n, hn, hfetch⟩ := List.mem_map.1 hnone
                obtain ⟨j, hj, -⟩ := hwanted n hn f rfl
                rw [hfetch] at hj
                cases hj
          obtain ⟨js, hjs'⟩ := hsel
          rw [hjs] at hrun
          dsimp only at hrun
          rw [hjs'] at hrun
          refine ⟨⟨_, congrArg Prog.Outcome.val hrun⟩, ?_, ?_⟩
          · intro n hn _ k
            rw [Prog.exec_eq_of_run hrun]
            exact notIn_foldl _ (.inl hn)
          · intro n hn
            rw [Prog.exec_eq_of_run hrun]
            exact untouched_foldl _ (fun h => hn ⟨h, hwanted n h⟩) _

/-- Two failed jobs, `a` of the function `ok` and `b` of the function `fail`. -/
def twoFailed : World :=
  let b := JobModel.new {} (Sample.args "fail") "q" "b" .failed 0
  (((Sample.worldWith ["a"]).saveJob b true).zadd "q" .failed "a" 100).zadd "q" .failed "b" 100

/-- `--func ok` also deletes the failed job of the other function. -/
theorem other_function_deleted : ¬ Works Sample.env Sample.queue (some "ok") false twoFailed := by
  intro h
  obtain ⟨-, hdel⟩ := h
  have hfunc : (JobModel.fetch Sample.env (found Sample.queue twoFailed) "b").map (·.funcName)
      = some "fail" := by decide +kernel
  have hnot : ¬ Wanted Sample.env Sample.queue (some "ok") twoFailed "b" := by
    intro hw
    obtain ⟨j, hj, hname⟩ := hw "ok" rfl
    rw [hj, Option.map_some, hname] at hfunc
    exact absurd hfunc (by decide)
  have hkept := (hdel.kept "b" fun hb => hnot hb.2).inRegistry "q" .failed
  revert hkept
  decide +kernel

end DeleteFailed

end DailyScheduler
