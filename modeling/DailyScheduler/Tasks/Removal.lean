import DailyScheduler.Model.Sample
import DailyScheduler.Model.TaskAdmin
import DailyScheduler.Tasks.Save

set_option autoImplicit false

/-! # The jobs of deleted tasks

The program deletes tasks in five ways. Four of them unschedule each task first, which takes the job
named by `job_name` out of the registries of the task's queue; the import with `reset` deletes the
rows only. So what stays in a scheduled or queued registry is read off the database before the
deletion.
-/

namespace DailyScheduler.Removal

open AtomicProg

/-! ## Unscheduling -/

section Unschedule

variable {env : Env} {t : Task} {w : World}

/-- `unschedule` raises: the task names a job, and its queue is not configured. -/
def Stuck (env : Env) (t : Task) : Prop := t.jobName ≠ none ∧ env.queues t.queue = none

/-- The world without the task's job, the row saved. -/
def unscheduledWorld (env : Env) (w : World) (t : Task) : World :=
  match t.jobName, env.queues t.queue with
  | some n, some isAsync =>
      ((Queue.mk t.queue isAsync).deletedWorld env n true w).putTask t.forgotten
  | _, _ => w.putTask t.forgotten

theorem run_unschedule_stuck (h : Stuck env t) :
    (t.unschedule env).run w = ⟨.error (.queueNotFoundError t.queue), w, []⟩ := by
  obtain ⟨hjob, hqueue⟩ := h
  obtain ⟨n, hn⟩ := Option.ne_none_iff_exists'.1 hjob
  unfold Task.unschedule Task.deleteNextJob Task.rqueue getQueue
  simp [hn, hqueue]

theorem run_unschedule (h : ¬ Stuck env t) :
    (t.unschedule env).run w = ⟨.ok t.forgotten, unscheduledWorld env w t, []⟩ := by
  unfold Task.unschedule Task.deleteNextJob Task.rqueue getQueue unscheduledWorld
  cases hn : t.jobName with
  | none =>
      have hsame : t.forgotten = t := by
        unfold Task.forgotten
        rw [← hn]
      rw [hsame]
      simp [Prog.run_bind, Task.save, Task.saveCleaned, Task.store]
  | some n =>
      cases hqueue : env.queues t.queue with
      | none => exact absurd ⟨by simp [hn], hqueue⟩ h
      | some isAsync =>
          simp [Prog.run_bind, Queue.run_deleteJob, Task.save, Task.saveCleaned, Task.store,
            Task.forgotten]

theorem inRegistry_removeFromAll (q : Queue) (m n : JobName) (w : World) (q' : QueueName)
    (k : RegistryKind) : (q.removeFromAll m w).inRegistry q' k n
      ↔ w.inRegistry q' k n ∧ ¬ (q' = q.name ∧ n = m) := by
  rw [Queue.removeFromAll, World.inRegistry_zrem, Queue.inRegistry_removeFromRegistries]
  tauto

/-- `delete_job` takes the name out of every registry of the queue. -/
theorem inRegistry_deletedWorld (q : Queue) (m n : JobName) (w : World) (q' : QueueName)
    (k : RegistryKind) : (q.deletedWorld env m true w).inRegistry q' k n
      ↔ w.inRegistry q' k n ∧ ¬ (q' = q.name ∧ n = m) := by
  unfold Queue.deletedWorld
  rw [if_pos rfl]
  split
  · exact inRegistry_removeFromAll ..
  · rename_i job _
    split
    · exact inRegistry_removeFromAll q m n (w.deleteJob job.name) q' k
    · unfold Queue.expireIn
      split
      · exact inRegistry_removeFromAll q m n w q' k
      · exact inRegistry_removeFromAll q m n w q' k

theorem inRegistry_unscheduledWorld (h : ¬ Stuck env t) (q : QueueName) (k : RegistryKind)
    (n : JobName) : (unscheduledWorld env w t).inRegistry q k n
      ↔ w.inRegistry q k n ∧ ¬ (t.queue = q ∧ t.jobName = some n) := by
  unfold unscheduledWorld
  cases hn : t.jobName with
  | none =>
      constructor
      · exact fun hin => ⟨hin, fun hboth => by cases hboth.2⟩
      · exact fun hin => hin.1
  | some m =>
      cases hqueue : env.queues t.queue with
      | none => exact absurd ⟨by simp [hn], hqueue⟩ h
      | some isAsync =>
          have hdel := @inRegistry_deletedWorld env ⟨t.queue, isAsync⟩ m n w q k
          refine hdel.trans (and_congr_right fun _ => not_congr ?_)
          rw [Option.some_inj]
          exact and_congr eq_comm eq_comm

theorem tasks_deletedWorld (q : Queue) (n : JobName) (w : World) :
    (q.deletedWorld env n true w).tasks = w.tasks := by
  unfold Queue.deletedWorld
  rw [if_pos rfl]
  split
  · rfl
  · split
    · rfl
    · unfold Queue.expireIn
      split <;> rfl

theorem find?_unscheduledWorld (i : Nat) : (unscheduledWorld env w t).tasks.find? i
    = if i = t.id then some t.forgotten else w.tasks.find? i := by
  unfold unscheduledWorld
  split
  · rename_i n isAsync _ _
    show (((Queue.mk t.queue isAsync).deletedWorld env n true w).tasks.put t.forgotten).find? i = _
    rw [tasks_deletedWorld]
    exact w.tasks.find?_put t.forgotten i
  · exact w.tasks.find?_put t.forgotten i

/-- No row goes. -/
theorem isSome_unscheduledWorld {i : Nat} (h : (w.tasks.find? i).isSome = true) :
    ((unscheduledWorld env w t).tasks.find? i).isSome = true := by
  rw [find?_unscheduledWorld]
  split
  · rfl
  · exact h

end Unschedule

/-! ## A loop of unscheduling -/

section Loop

variable {env : Env}

/-- The loop of `delete_queryset`. -/
def unscheduleAll (env : Env) (l : List Task) : Py Unit :=
  Prog.forEach l fun t => do
    let _ ← t.unschedule env

theorem run_unscheduleAll_cons (t : Task) (l : List Task) (w : World) :
    (unscheduleAll env (t :: l)).run w
      = ((t.unschedule env).run w).andThen fun _ => unscheduleAll env l := by
  show ((t.unschedule env >>= fun _ => Prog.ret ()) >>= fun _ => unscheduleAll env l).run w = _
  rw [Prog.bind_assoc, Prog.run_bind]
  rfl

theorem run_unscheduleAll {l : List Task} (h : ∀ t ∈ l, ¬ Stuck env t) (w : World) :
    (unscheduleAll env l).run w = ⟨.ok (), l.foldl (unscheduledWorld env) w, []⟩ := by
  induction l generalizing w with
  | nil => rfl
  | cons t l ih =>
      rw [run_unscheduleAll_cons, run_unschedule (h t List.mem_cons_self), Prog.Outcome.andThen_ok,
        ih fun t' ht' => h t' (List.mem_cons_of_mem t ht')]
      rfl

/-- The loop ends at the first task whose queue is not configured; no row is gone. -/
theorem run_unscheduleAll_stuck {l : List Task} (h : ∃ t ∈ l, Stuck env t) (w : World) :
    ∃ x, ((unscheduleAll env l).run w).val = .error x := by
  induction l generalizing w with
  | nil =>
      obtain ⟨t, ht, -⟩ := h
      cases ht
  | cons t l ih =>
      by_cases hstuck : Stuck env t
      · refine ⟨.queueNotFoundError t.queue, ?_⟩
        rw [run_unscheduleAll_cons, run_unschedule_stuck hstuck, Prog.Outcome.andThen_error]
      · obtain ⟨t', ht', hstuck'⟩ := h
        rcases List.mem_cons.1 ht' with rfl | ht'
        · exact absurd hstuck' hstuck
        · obtain ⟨x, hx⟩ := ih ⟨t', ht', hstuck'⟩ (unscheduledWorld env w t)
          refine ⟨x, ?_⟩
          rw [run_unscheduleAll_cons, run_unschedule hstuck, Prog.Outcome.andThen_ok]
          exact hx

theorem isSome_unscheduleAll {l : List Task} {i : Nat} {w : World}
    (h : (w.tasks.find? i).isSome = true) :
    (((unscheduleAll env l).exec w).tasks.find? i).isSome = true := by
  refine Prog.exec_forEach_keeps (I := fun w : World => (w.tasks.find? i).isSome = true) ?_ h
  intro t _ w hw
  rw [Prog.exec_bind_of_silent fun _ _ => rfl]
  by_cases hstuck : Stuck env t
  · rw [Prog.exec_eq_of_run (run_unschedule_stuck hstuck)]
    exact hw
  · rw [Prog.exec_eq_of_run (run_unschedule hstuck)]
    exact isSome_unscheduledWorld hw

theorem isSome_foldl {l : List Task} {i : Nat} {w : World}
    (h : (w.tasks.find? i).isSome = true) :
    ((l.foldl (unscheduledWorld env) w).tasks.find? i).isSome = true := by
  induction l generalizing w with
  | nil => exact h
  | cons t l ih => exact ih (isSome_unscheduledWorld h)

theorem inRegistry_foldl {l : List Task} (h : ∀ t ∈ l, ¬ Stuck env t) (w : World) (q : QueueName)
    (k : RegistryKind) (n : JobName) : (l.foldl (unscheduledWorld env) w).inRegistry q k n
      ↔ w.inRegistry q k n ∧ ∀ t ∈ l, ¬ (t.queue = q ∧ t.jobName = some n) := by
  induction l generalizing w with
  | nil => simp
  | cons t l ih =>
      rw [List.foldl_cons, ih (fun t' ht' => h t' (List.mem_cons_of_mem t ht')),
        inRegistry_unscheduledWorld (h t List.mem_cons_self), List.forall_mem_cons, and_assoc]

end Loop

/-! ## Deleting rows -/

theorem find?_deleteTask (w : World) (id i : Nat) :
    (w.deleteTask id).tasks.find? i = if i = id then none else w.tasks.find? i := by
  show (w.tasks.rows.filter fun r => r.id ≠ id).find? _ = _
  rw [List.find?_filter]
  split
  · rename_i hi
    refine List.find?_eq_none.2 fun r _ => ?_
    simp only [hi, decide_eq_true_eq, ne_eq, not_and, decide_not, Bool.not_eq_eq_eq_not,
      Bool.not_true, decide_eq_false_iff_not]
    exact fun hne heq => hne heq
  · rename_i hi
    unfold TaskTable.find?
    congr 1
    funext r
    by_cases hr : r.id = i
    · simp [hr, hi]
    · simp [hr]

theorem find?_deleteTasks (ids : List Nat) (w : World) (i : Nat) :
    (w.deleteTasks ids).tasks.find? i = if i ∈ ids then none else w.tasks.find? i := by
  induction ids generalizing w with
  | nil => simp [World.deleteTasks]
  | cons id ids ih =>
      show ((w.deleteTask id).deleteTasks ids).tasks.find? i = _
      rw [ih, find?_deleteTask]
      by_cases hmem : i ∈ ids
      · simp [hmem]
      · by_cases hi : i = id
        · simp [hi]
        · simp [hmem, hi]

theorem registry_deleteTasks (ids : List Nat) (w : World) :
    (w.deleteTasks ids).registry = w.registry := by
  induction ids generalizing w with
  | nil => rfl
  | cons id ids ih => exact ih (w.deleteTask id)

/-! ## The five ways -/

/-- A deletion of tasks: by `Task.delete`, by the admin site, by the import when it updates a task
it finds, by the import with `reset`. -/
inductive Deletion where
  | delete (t : Task)
  | deleteModel (t : Task)
  | deleteQueryset (ids : List Nat)
  | importUpdate (t : Task)
  | importReset

namespace Deletion

/-- What is run. The import prints the task before it deletes it. -/
def program (env : Env) : Deletion → Py Unit
  | .delete t => t.delete env
  | .deleteModel t => TaskAdmin.deleteModel env t
  | .deleteQueryset ids => TaskAdmin.deleteQueryset env ids
  | .importUpdate t => do
      t.describe env
      t.delete env
  | .importReset => deleteAllTasks

/-- The tasks to be deleted. -/
def targets (w : World) : Deletion → List Task
  | .delete t | .deleteModel t | .importUpdate t => [t]
  | .deleteQueryset ids => w.tasks.select ids
  | .importReset => w.tasks.rows

/-- The tasks that are unscheduled first. -/
def unscheduled (w : World) : Deletion → List Task
  | .importReset => []
  | d => d.targets w

/-- The deletion raises before a row is deleted: a task names a job and its queue is not configured,
or the import cannot print the task. -/
def Fails (env : Env) (w : World) (d : Deletion) : Prop :=
  (∃ t ∈ d.unscheduled w, Stuck env t) ∨
    ∃ t, d = .importUpdate t ∧ t.describeError env w ≠ none

/-- The objects are those of the rows. -/
def Loaded (w : World) (d : Deletion) : Prop := ∀ t ∈ d.targets w, t ∈ w.tasks.rows

end Deletion

section Ways

variable {env : Env} {w : World}

/-- How a deletion ends: no row is gone, or all of them are, and then only the entries of the jobs
that the tasks name are gone from the registries. -/
structure Ends (w : World) (d : Deletion) (w' : World) : Prop where
  gone : ∀ t ∈ d.targets w, w'.tasks.find? t.id = none
  entries : ∀ q k n, w'.inRegistry q k n ↔
    w.inRegistry q k n ∧ ∀ t ∈ d.unscheduled w, ¬ (t.queue = q ∧ t.jobName = some n)

theorem exec_delete {t : Task} (h : ¬ Stuck env t) :
    (t.delete env).exec w = (unscheduledWorld env w t).deleteTask t.id := by
  unfold Task.delete
  rw [Prog.exec_bind, Prog.exec, run_unschedule h]
  rfl

theorem exec_delete_stuck {t : Task} (h : Stuck env t) : (t.delete env).exec w = w := by
  unfold Task.delete
  rw [Prog.exec_bind, Prog.exec, run_unschedule_stuck h]

/-- One task, deleted after it was unscheduled. -/
theorem ends_of_delete {d : Deletion} {t : Task} (htargets : d.targets w = [t])
    (hunscheduled : d.unscheduled w = [t]) (h : ¬ Stuck env t) :
    Ends w d ((unscheduledWorld env w t).deleteTask t.id) where
  gone := by
    intro t' ht'
    rw [htargets, List.mem_singleton] at ht'
    rw [ht', find?_deleteTask, if_pos rfl]
  entries := by
    intro q k n
    rw [hunscheduled, List.forall_mem_singleton]
    exact inRegistry_unscheduledWorld h q k n

theorem forgotten_not_stuck (t : Task) : ¬ Stuck env t.forgotten := fun h => h.1 rfl

/-- A deletion that does not fail. -/
theorem ends_of_not_fails {d : Deletion} (hd : d.Loaded w) (h : ¬ d.Fails env w) :
    Ends w d ((d.program env).exec w) := by
  have hfree : ∀ t ∈ d.unscheduled w, ¬ Stuck env t :=
    fun t ht hstuck => h (.inl ⟨t, ht, hstuck⟩)
  cases d with
  | delete t =>
      have ht := hfree t (List.mem_singleton_self t)
      show Ends w _ ((t.delete env).exec w)
      rw [exec_delete ht]
      exact ends_of_delete rfl rfl ht
  | deleteModel t =>
      have ht := hfree t (List.mem_singleton_self t)
      show Ends w _ ((TaskAdmin.deleteModel env t).exec w)
      unfold TaskAdmin.deleteModel
      rw [Prog.exec_bind, Prog.exec, run_unschedule ht]
      show Ends w _ ((t.forgotten.delete env).exec (unscheduledWorld env w t))
      rw [exec_delete (forgotten_not_stuck t)]
      have hends := ends_of_delete (w := w) (d := .deleteModel t) rfl rfl ht
      refine ⟨fun t' ht' => ?_, fun q k n => ?_⟩
      · rw [List.mem_singleton.1 ht', find?_deleteTask]
        exact if_pos rfl
      · have hagain := inRegistry_unscheduledWorld (w := unscheduledWorld env w t)
          (@forgotten_not_stuck env t) q k n
        have hnone : ¬ (t.forgotten.queue = q ∧ t.forgotten.jobName = some n) :=
          fun hboth => by cases hboth.2
        exact hagain.trans ((and_iff_left hnone).trans (hends.entries q k n))
  | deleteQueryset ids =>
      have hfree : ∀ t ∈ w.tasks.select ids, ¬ Stuck env t := hfree
      have hrun := run_unscheduleAll hfree w
      have hends : (TaskAdmin.deleteQueryset env ids).exec w
          = World.deleteTasks ((w.tasks.select ids).foldl (unscheduledWorld env) w)
            ((((w.tasks.select ids).foldl (unscheduledWorld env) w).tasks.select ids).map
              Task.id) := by
        unfold TaskAdmin.deleteQueryset
        rw [Prog.exec_bind, Prog.run_read]
        show (unscheduleAll env (w.tasks.select ids) >>= fun _ => _).exec w = _
        rw [Prog.exec, Prog.run_bind, hrun]
        rfl
      show Ends w _ ((TaskAdmin.deleteQueryset env ids).exec w)
      rw [hends]
      constructor
      · intro t ht
        obtain ⟨hrow, hid⟩ := List.mem_filter.1 ht
        -- the row is still there after the loop, so the query set contains it
        have hsome : (w.tasks.find? t.id).isSome = true := by
          rw [w.tasks.find?_of_mem hrow]
          rfl
        obtain ⟨r, hr⟩ := Option.isSome_iff_exists.1 (@isSome_foldl env
          (w.tasks.select ids) _ _ hsome)
        have hmem : t.id ∈ ((((w.tasks.select ids).foldl (unscheduledWorld env) w).tasks.select
            ids).map Task.id) := by
          have hkey : r.id = t.id := by simpa using List.find?_some hr
          refine List.mem_map.2 ⟨r, List.mem_filter.2 ⟨List.mem_of_find?_eq_some hr, ?_⟩, hkey⟩
          rw [hkey]
          exact hid
        rw [find?_deleteTasks, if_pos hmem]
      · intro q k n
        unfold World.inRegistry
        rw [registry_deleteTasks]
        exact inRegistry_foldl hfree w q k n
  | importUpdate t =>
      have ht := hfree t (List.mem_singleton_self t)
      have hprint : t.describeError env w = none := by
        by_contra hne
        exact h (.inr ⟨t, rfl, hne⟩)
      show Ends w _ ((t.describe env >>= fun _ => t.delete env).exec w)
      rw [Task.exec_describe_bind, hprint]
      simp only []
      rw [exec_delete ht]
      exact ends_of_delete rfl rfl ht
  | importReset =>
      constructor
      · intro t ht
        show (w.deleteTasks (w.tasks.rows.map Task.id)).tasks.find? t.id = none
        have hmem : t.id ∈ w.tasks.rows.map Task.id := List.mem_map_of_mem ht
        rw [find?_deleteTasks, if_pos hmem]
      · intro q k n
        show (w.deleteTasks (w.tasks.rows.map Task.id)).inRegistry q k n ↔ _
        unfold World.inRegistry
        rw [registry_deleteTasks]
        exact ⟨fun hin => ⟨hin, fun t ht => by cases ht⟩, fun hin => hin.1⟩

/-- A deletion that fails leaves every row. -/
theorem rows_of_fails {d : Deletion} (hd : d.Loaded w) (h : d.Fails env w) :
    ∀ t ∈ d.targets w, ((d.program env).exec w).tasks.find? t.id ≠ none := by
  intro t ht
  have hsome : (w.tasks.find? t.id).isSome = true := by
    rw [w.tasks.find?_of_mem (hd t ht)]
    rfl
  rw [← Option.isSome_iff_ne_none]
  cases d with
  | delete t' =>
      obtain ⟨t'', ht'', hstuck⟩ | ⟨_, hne, -⟩ := h
      · rw [List.mem_singleton.1 ht''] at hstuck
        show (((t'.delete env).exec w).tasks.find? t.id).isSome = true
        rw [exec_delete_stuck hstuck]
        exact hsome
      · cases hne
  | deleteModel t' =>
      obtain ⟨t'', ht'', hstuck⟩ | ⟨_, hne, -⟩ := h
      · rw [List.mem_singleton.1 ht''] at hstuck
        show (((TaskAdmin.deleteModel env t').exec w).tasks.find? t.id).isSome = true
        unfold TaskAdmin.deleteModel
        rw [Prog.exec_bind, Prog.exec, run_unschedule_stuck hstuck]
        exact hsome
      · cases hne
  | deleteQueryset ids =>
      obtain ⟨t', ht', hstuck⟩ | ⟨_, hne, -⟩ := h
      · have hstuck : ∃ t ∈ w.tasks.select ids, Stuck env t := ⟨t', ht', hstuck⟩
        obtain ⟨x, hx⟩ := run_unscheduleAll_stuck hstuck w
        have hkept := @isSome_unscheduleAll env (w.tasks.select ids) _ _ hsome
        have hexec : (TaskAdmin.deleteQueryset env ids).exec w
            = (unscheduleAll env (w.tasks.select ids)).exec w := by
          unfold TaskAdmin.deleteQueryset
          rw [Prog.exec_bind, Prog.run_read]
          show (unscheduleAll env (w.tasks.select ids) >>= fun _ => _).exec w = _
          rw [Prog.exec_bind, hx]
        show (((TaskAdmin.deleteQueryset env ids).exec w).tasks.find? t.id).isSome = true
        rw [hexec]
        exact hkept
      · cases hne
  | importUpdate t' =>
      show (((t'.describe env >>= fun _ => t'.delete env).exec w).tasks.find? t.id).isSome = true
      rw [Task.exec_describe_bind]
      cases hprint : t'.describeError env w with
      | some x => exact hsome
      | none =>
          obtain ⟨t'', ht'', hstuck⟩ | ⟨t'', heq, hne⟩ := h
          · rw [List.mem_singleton.1 ht''] at hstuck
            show (((t'.delete env).exec w).tasks.find? t.id).isSome = true
            rw [exec_delete_stuck hstuck]
            exact hsome
          · cases heq
            exact absurd hprint hne
  | importReset =>
      obtain ⟨t', ht', -⟩ | ⟨_, hne, -⟩ := h
      · cases ht'
      · cases hne

end Ways

/-! ## What stays -/

/-- A job waits in a scheduled or queued registry. -/
def Waits (w : World) (q : QueueName) (n : JobName) : Prop :=
  w.inRegistry q .scheduled n ∨ w.inRegistry q .queued n

/-- After the deletion no job that `_schedule` has made for a deleted task waits in any queue. -/
def Clears (env : Env) (log : List Event) (w : World) (d : Deletion) : Prop :=
  ∀ t ∈ d.targets w, ((d.program env).exec w).tasks.find? t.id = none →
    ∀ n, .taskScheduled t.id n ∈ log → ∀ q, ¬ Waits ((d.program env).exec w) q n

/-- **When a deletion clears the jobs.** It does exactly if it fails and deletes nothing, or each
waiting job of the tasks is named by the `job_name` of a task that is unscheduled, in that task's
queue. -/
theorem clears_iff {env : Env} {log : List Event} {w : World} {d : Deletion} (hd : d.Loaded w) :
    Clears env log w d ↔ d.Fails env w ∨
      ∀ t ∈ d.targets w, ∀ n, .taskScheduled t.id n ∈ log → ∀ q, Waits w q n →
        ∃ t' ∈ d.unscheduled w, t'.queue = q ∧ t'.jobName = some n := by
  by_cases hfails : d.Fails env w
  · exact ⟨fun _ => .inl hfails,
      fun _ t ht hgone => absurd hgone (rows_of_fails hd hfails t ht)⟩
  have hends := ends_of_not_fails hd hfails
  have hwaits : ∀ q n, Waits ((d.program env).exec w) q n ↔
      Waits w q n ∧ ∀ t ∈ d.unscheduled w, ¬ (t.queue = q ∧ t.jobName = some n) := by
    intro q n
    unfold Waits
    rw [hends.entries, hends.entries, or_and_right]
  constructor
  · intro h
    refine .inr fun t ht n hn q hw => ?_
    by_contra hnone
    refine h t ht (hends.gone t ht) n hn q ((hwaits q n).2 ⟨hw, fun t' ht' hnamed => ?_⟩)
    exact hnone ⟨t', ht', hnamed⟩
  · rintro (h | h) t ht - n hn q hw
    · exact hfails h
    · obtain ⟨hbefore, hnot⟩ := (hwaits q n).1 hw
      obtain ⟨t', ht', hnamed⟩ := h t ht n hn q hbefore
      exact hnot t' ht' hnamed

/-- The database and the log after a one-off task was saved for the fifth second. -/
def savedOnce : Prog.Outcome World Event PyError Task :=
  ((Sample.onceTask 5000000).save Sample.env true true).run (World.init 0)

/-- The saved row. -/
def savedTask : Task := (Sample.onceTask 5000000).withJob ((Sample.onceTask 5000000).nextJobId 0)

theorem savedTask_mem : savedTask ∈ savedOnce.state.tasks.rows := by decide

/-- Its deletion clears its job. -/
theorem clears_savedTask :
    Clears Sample.env savedOnce.trace savedOnce.state (.delete savedTask) := by
  refine (clears_iff ?_).2 (.inr ?_)
  · intro t ht
    rw [List.mem_singleton.1 ht]
    exact savedTask_mem
  · intro t ht n hn q hw
    rw [List.mem_singleton.1 ht] at hn
    have hname : .taskScheduled 7 n ∈ savedOnce.trace → savedTask.jobName = some n := by
      intro hmem
      have htrace : savedOnce.trace = [.created ((Sample.onceTask 5000000).nextJobId 0),
        .taskScheduled 7 ((Sample.onceTask 5000000).nextJobId 0)] := by decide
      rw [htrace] at hmem
      simp at hmem
      rw [hmem]
      rfl
    refine ⟨savedTask, List.mem_singleton_self _, ?_, hname hn⟩
    by_contra hq
    have hempty : ∀ k, savedOnce.state.registry q k = .empty := by
      intro k
      show (if q = "q" ∧ k = .scheduled then _ else SortedSet.empty) = .empty
      exact if_neg fun hboth => hq hboth.1.symm
    unfold Waits World.inRegistry at hw
    rw [hempty, hempty, or_self] at hw
    cases hw

/-- The import with `reset` leaves the job of the task it deletes. -/
theorem not_clears_reset : ¬ ∀ env log w (d : Deletion), d.Loaded w → Clears env log w d := by
  intro h
  have hreset := h Sample.env savedOnce.trace savedOnce.state .importReset (fun _ ht => ht)
    savedTask savedTask_mem (by decide) ((Sample.onceTask 5000000).nextJobId 0) (by decide) "q"
  exact hreset (.inl (by decide))

end DailyScheduler.Removal
