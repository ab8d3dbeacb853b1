import DailyScheduler.Tasks.Import

set_option autoImplicit false

/-! # A whole import

`Command.handle` of `management/commands/import.py` hands the dictionaries of the file to
`create_task_from_dict`, one after the other, after it has deleted all tasks if `--reset` is given. An import
that does not fail leaves a task for each dictionary, touches no task of another name, and finds nothing to
do when it is made once more.
-/

namespace DailyScheduler.Import

open AtomicProg Transfer Removal

/-- `Command.handle`, for dictionaries as the file may hold them. -/
def importEntries (env : Env) (jobs : List TaskEntry) (reset update : Bool) : Py Unit := do
  if reset then deleteAllTasks else pure ()
  Prog.forEach jobs fun job => do
    let _ ← job.createTask env update

/-- There is a task of the name. -/
def Present (w : World) (name : String) : Prop := ∃ t, w.tasks.withName name = some t

/-! ## One dictionary -/

section Call

variable {env : Env} {d : TaskEntry} {update : Bool} {w : World} {ty : TaskType} {name : String}

theorem present_iff : Present w name ↔ ∃ i t, w.tasks.find? i = some t ∧ t.name = name := by
  constructor
  · rintro ⟨t, ht⟩
    have hname : t.name = name := by simpa using List.find?_some ht
    exact ⟨t.id, t, find?_of_withName ht, hname⟩
  · rintro ⟨i, t, ht, hname⟩
    have hsome : (w.tasks.withName name).isSome = true := by
      refine List.find?_isSome.2 ⟨t, List.mem_of_find?_eq_some ht, ?_⟩
      simpa using hname
    exact Option.isSome_iff_exists.1 hsome

theorem name_of_withName {t : Task} (h : w.tasks.withName name = some t) : t.name = name := by
  simpa using List.find?_some h

/-- What an insertion that does not raise leaves. -/
theorem inserted_of_ok {y : Task} (h : ((d.insert env ty).run w).val = .ok y) :
    Inserted env d w y ((d.insert env ty).exec w) := by
  by_cases hrejected : Rejected env d ty w
  · obtain ⟨e, he⟩ := run_insert_rejected hrejected
    rw [he] at h
    cases h
  · by_cases hinsertable : Insertable env d ty w
    · obtain ⟨args, kwargs, x, haccepts, hc⟩ := hinsertable
      obtain ⟨y', w', es, hrun, hdone⟩ := insert_completes haccepts hc
      rw [hrun] at h
      cases h
      rw [Prog.exec_eq_of_run hrun]
      exact hdone
    · obtain ⟨args, kwargs, x, haccepts, hc⟩ := not_insertable hrejected hinsertable
      obtain ⟨e, he, -⟩ := insert_breaks haccepts hc
      rw [he] at h
      cases h

theorem created_of_new (h : Named d name ty) (hnone : w.tasks.withName name = none) {y : Task} {w' : World}
    (hdone : Inserted env d w y w') : Created d w y w' := by
  have hname : y.name = name := by
    rw [hdone.name, h.name, Option.getD_some]
  refine ⟨?_, hdone.row, ?_, ?_, ?_, fun i hi _ => hdone.elsewhere i hi⟩
  · intro t ht
    rw [hdone.free] at ht
    cases ht
  · rw [h.name, hname]
  · rw [argumentsLeft_of_free hdone.free]
    exact hdone.arguments
  · intro t ht
    rw [hname, hnone] at ht
    cases ht

/-- A call that replaces a task and does not raise could print and delete it. -/
theorem run_update_of_ok {t : Task} (h : Named d name ty) (ht : w.tasks.withName name = some t)
    {r : Option Task} (hok : ((d.createTask env true).run w).val = .ok r) :
    (d.createTask env true).run w
      = ((d.insert env ty).run (withoutTask env w t)).andThen fun x => pure (some x) := by
  have hrun : (d.createTask env true).run w = (do
      t.describe env
      t.delete env
      let task ← d.insert env ty
      pure (some task) : Py (Option Task)).run w := by
    rw [run_createTask h, ht]
    rfl
  have hprint : t.describeError env w = none := by
    cases hprint : t.describeError env w with
    | none => rfl
    | some e =>
        rw [hrun, Prog.run_bind, Task.run_describe, hprint] at hok
        cases hok
  have hstuck : ¬ Stuck env t := by
    intro hstuck
    have hdelete : (t.delete env).run w = ⟨.error (.queueNotFoundError t.queue), w, []⟩ := by
      unfold Task.delete
      rw [Prog.run_bind, run_unschedule_stuck hstuck, Prog.Outcome.andThen_error]
    rw [hrun, Prog.run_bind, Task.run_describe, hprint, Prog.Outcome.andThen_ok, Prog.run_bind, hdelete] at hok
    cases hok
  exact run_createTask_update h ht hprint hstuck

/-- What a call that does not raise leaves: the task that was there, or a new one. -/
theorem createTask_cases {r : Option Task} (hok : ((d.createTask env update).run w).val = .ok r) :
    (update = false ∧ (d.createTask env update).exec w = w ∧ ∃ name, d.name = some name ∧ Present w name) ∨
    ∃ x, Created d w x ((d.createTask env update).exec w) ∧
      (update = false → w.tasks.withName x.name = none) := by
  by_cases hnamed : ∃ name ty, Named d name ty
  swap
  · obtain ⟨e, he⟩ := @run_createTask_unnamed env d update w fun name ty hn => hnamed ⟨name, ty, hn⟩
    rw [he] at hok
    cases hok
  obtain ⟨name, ty, h⟩ := hnamed
  cases ht : w.tasks.withName name with
  | none =>
      right
      have hrun := @run_createTask_new env d update w name ty h ht
      unfold Prog.exec
      rw [hrun] at hok ⊢
      cases hinsert : ((d.insert env ty).run w).val with
      | error e =>
          unfold Prog.Outcome.andThen at hok
          rw [hinsert] at hok
          cases hok
      | ok y =>
          have hdone := inserted_of_ok hinsert
          have hcreated := created_of_new h ht hdone
          refine ⟨y, ?_, fun _ => ?_⟩
          · unfold Prog.Outcome.andThen
            rw [hinsert]
            exact hcreated
          · have hname := hcreated.name
            rw [h.name] at hname
            cases hname
            exact ht
  | some t =>
      cases update with
      | false =>
          left
          have hrun : (d.createTask env false).run w
              = ((t.describe env).run w).andThen fun _ => pure none := by
            rw [run_createTask h, ht]
            dsimp only
            rw [if_neg Bool.false_ne_true, Prog.run_bind]
          refine ⟨rfl, ?_, name, h.name, t, ht⟩
          unfold Prog.exec
          rw [hrun, Task.run_describe]
          cases t.describeError env w <;> rfl
      | true =>
          right
          have hrun := run_update_of_ok h ht hok
          unfold Prog.exec
          rw [hrun] at hok ⊢
          cases hinsert : ((d.insert env ty).run (withoutTask env w t)).val with
          | error e =>
              unfold Prog.Outcome.andThen at hok
              rw [hinsert] at hok
              cases hok
          | ok y =>
              refine ⟨y, ?_, nofun⟩
              unfold Prog.Outcome.andThen
              rw [hinsert]
              exact created_of_inserted h ht (inserted_of_ok hinsert)

/-- A dictionary of a task that is there is skipped, whether its task can be printed or not. -/
theorem exec_skipped (hname : d.name = some name) (hpresent : Present w name) :
    (d.createTask env false).exec w = w := by
  by_cases hnamed : ∃ name ty, Named d name ty
  · obtain ⟨name', ty, h⟩ := hnamed
    have heq : name' = name := by
      have hname' := h.name
      rw [hname] at hname'
      exact (Option.some.inj hname').symm
    subst heq
    obtain ⟨t, ht⟩ := hpresent
    have hrun : (d.createTask env false).run w
        = ((t.describe env).run w).andThen fun _ => pure none := by
      rw [run_createTask h, ht]
      dsimp only
      rw [if_neg Bool.false_ne_true, Prog.run_bind]
    unfold Prog.exec
    rw [hrun, Task.run_describe]
    cases t.describeError env w <;> rfl
  · obtain ⟨e, he⟩ := @run_createTask_unnamed env d false w fun name ty hn => hnamed ⟨name, ty, hn⟩
    exact Prog.exec_eq_of_run he

end Call

/-! ## The dictionaries of a file -/

/-- What calls with dictionaries of these names leave of the table. -/
structure Imports (names : List (Option String)) (update : Bool) (w w' : World) : Prop where
  named : none ∉ names
  present : ∀ name, some name ∈ names ∨ Present w name → Present w' name
  only : ∀ i x, w'.tasks.find? i = some x → w.tasks.find? i = some x ∨ some x.name ∈ names
  kept : ∀ i t, w.tasks.find? i = some t → update = false ∨ some t.name ∉ names →
    w'.tasks.find? i = some t

section File

variable {env : Env} {update : Bool} {w w' w'' : World}

theorem Imports.refl (w : World) : Imports [] update w w := by
  refine ⟨by simp, fun name h => ?_, fun i x h => .inl h, fun i t h _ => h⟩
  exact h.resolve_left (by simp)

theorem Imports.append {names names' : List (Option String)} (h : Imports names update w w')
    (h' : Imports names' update w' w'') : Imports (names ++ names') update w w'' := by
  constructor
  · intro hmem
    exact (List.mem_append.1 hmem).elim h.named h'.named
  · intro name hname
    rw [List.mem_append, or_assoc] at hname
    apply h'.present
    rcases hname with hname | hname | hname
    · exact .inr (h.present name (.inl hname))
    · exact .inl hname
    · exact .inr (h.present name (.inr hname))
  · intro i x hx
    rcases h'.only i x hx with hx | hx
    · exact (h.only i x hx).imp id (List.mem_append_left _)
    · exact .inr (List.mem_append_right _ hx)
  · intro i t ht hkeep
    apply h'.kept i t
    · exact h.kept i t ht (hkeep.imp id fun hnot hmem => hnot (List.mem_append_left _ hmem))
    · exact hkeep.imp id fun hnot hmem => hnot (List.mem_append_right _ hmem)

/-- The task is stored, and no task but the one it replaces is touched. -/
theorem imports_of_created {d : TaskEntry} {x : Task} (h : Created d w x w')
    (hnew : update = false → w.tasks.withName x.name = none) : Imports [d.name] update w w' := by
  -- the task that is replaced has the name, and it is replaced on request only
  have hnot : ∀ t, w.tasks.withName x.name = some t → ¬ (update = false ∨ t.name ≠ x.name) := by
    rintro t ht (hfalse | hne)
    · rw [hnew hfalse] at ht
      cases ht
    · exact hne (name_of_withName ht)
  have hkept : ∀ i t, w.tasks.find? i = some t → update = false ∨ t.name ≠ x.name →
      w'.tasks.find? i = some t := by
    intro i t ht hor
    rw [← ht]
    apply h.others i
    · rintro rfl
      exact hnot t (h.unknown t ht) hor
    · rintro t' ht' rfl
      rw [find?_of_withName ht'] at ht
      cases ht
      exact hnot t ht' hor
  constructor
  · rw [h.name]
    simp
  · intro name hname
    rw [h.name, List.mem_singleton, Option.some.injEq] at hname
    rw [present_iff]
    by_cases heq : name = x.name
    · exact ⟨x.id, x, h.row, heq.symm⟩
    · obtain ⟨i, t, ht, htname⟩ := present_iff.1 (hname.resolve_left heq)
      exact ⟨i, t, hkept i t ht (.inr fun h => heq (htname.symm.trans h)), htname⟩
  · intro i x' hx'
    rw [h.name, List.mem_singleton, Option.some.injEq]
    by_cases hi : i = x.id
    · subst hi
      rw [h.row] at hx'
      cases hx'
      exact .inr rfl
    · left
      rw [← h.others i hi, hx']
      rintro t ht rfl
      rw [h.replaced t ht hi] at hx'
      cases hx'
  · intro i t ht hor
    rw [h.name, List.mem_singleton, Option.some.injEq] at hor
    exact hkept i t ht hor

theorem createTask_imports {d : TaskEntry} {r : Option Task}
    (hok : ((d.createTask env update).run w).val = .ok r) :
    Imports [d.name] update w ((d.createTask env update).exec w) := by
  rcases createTask_cases hok with ⟨hupdate, hexec, name, hname, hpresent⟩ | ⟨x, hcreated, hnew⟩
  · rw [hexec, hname]
    refine ⟨by simp, fun name' h => ?_, fun i x h => .inl h, fun i t h _ => h⟩
    rcases h with h | h
    · cases List.mem_singleton.1 h
      exact hpresent
    · exact h
  · exact imports_of_created hcreated hnew

/-- A loop over dictionaries that ends, by induction on them. -/
theorem forEach_imports (jobs : List TaskEntry)
    (hok : ((Prog.forEach jobs fun job => (do
      let _ ← job.createTask env update : Py Unit)).run w).val = .ok ()) :
    Imports (jobs.map TaskEntry.name) update w ((Prog.forEach jobs fun job => (do
      let _ ← job.createTask env update : Py Unit)).exec w) := by
  induction jobs generalizing w with
  | nil => exact .refl w
  | cons d jobs ih =>
      have hrun : (Prog.forEach (d :: jobs) fun job => (do
            let _ ← job.createTask env update : Py Unit)).run w
          = ((d.createTask env update).run w).andThen fun _ => Prog.forEach jobs fun job => (do
            let _ ← job.createTask env update : Py Unit) := by
        rw [Prog.forEach, Prog.bind_assoc, Prog.run_bind]
        rfl
      rw [Prog.exec, hrun]
      rw [hrun] at hok
      cases hcall : ((d.createTask env update).run w).val with
      | error e =>
          unfold Prog.Outcome.andThen at hok
          rw [hcall] at hok
          cases hok
      | ok r =>
          unfold Prog.Outcome.andThen at hok ⊢
          rw [hcall] at hok ⊢
          exact (createTask_imports hcall).append (ih hok)

/-- The rows of all tasks are deleted. -/
theorem find?_deleteAll (w : World) (i : Nat) :
    (w.deleteTasks (w.tasks.rows.map Task.id)).tasks.find? i = none := by
  rw [find?_deleteTasks]
  split
  · rfl
  · rename_i hnot
    cases ht : w.tasks.find? i with
    | none => rfl
    | some t =>
        have hmem := List.mem_of_find?_eq_some ht
        have hid : t.id = i := by simpa using List.find?_some ht
        exact absurd (List.mem_map.2 ⟨t, hmem, hid⟩) hnot

/-- **What an import that does not fail leaves.** Every dictionary has a name, and a task of that name is
there. Every task that is there has the name of a dictionary or, without `--reset`, was there before. Without
`--reset` no task of another name has changed, and without `--update` no task at all. Any part of the file
that is imported again changes nothing, whether it can be printed or not. -/
theorem import_done (env : Env) (jobs : List TaskEntry) (reset update : Bool) (w : World)
    (hok : ((importEntries env jobs reset update).run w).val = .ok ()) :
    let w' := (importEntries env jobs reset update).exec w
    (∀ job ∈ jobs, ∃ name, job.name = some name ∧ Present w' name) ∧
    (∀ i x, w'.tasks.find? i = some x →
      (reset = false ∧ w.tasks.find? i = some x) ∨ ∃ job ∈ jobs, job.name = some x.name) ∧
    (reset = false → ∀ i t, w.tasks.find? i = some t →
      update = false ∨ (∀ job ∈ jobs, job.name ≠ some t.name) → w'.tasks.find? i = some t) ∧
    ∀ jobs', (∀ job ∈ jobs', job ∈ jobs) → (importEntries env jobs' false false).exec w' = w' := by
  have hfile : ∃ w₀, Imports (jobs.map TaskEntry.name) update w₀
      ((importEntries env jobs reset update).exec w) ∧
      (reset = false → w₀ = w) ∧ (reset = true → ∀ i, w₀.tasks.find? i = none) := by
    cases reset with
    | false => exact ⟨w, forEach_imports jobs hok, fun _ => rfl, nofun⟩
    | true =>
        exact ⟨_, forEach_imports (w := w.deleteTasks (w.tasks.rows.map Task.id)) jobs hok, nofun,
          fun _ => find?_deleteAll w⟩
  obtain ⟨w₀, himports, hkeep, hreset⟩ := hfile
  have hpresent : ∀ job ∈ jobs, ∃ name, job.name = some name ∧
      Present ((importEntries env jobs reset update).exec w) name := by
    intro job hjob
    have hmem : job.name ∈ jobs.map TaskEntry.name := List.mem_map_of_mem hjob
    cases hname : job.name with
    | none =>
        rw [hname] at hmem
        exact absurd hmem himports.named
    | some name =>
        rw [hname] at hmem
        exact ⟨name, rfl, himports.present name (.inl hmem)⟩
  refine ⟨hpresent, fun i x hx => ?_, fun hfalse i t ht hor => ?_, fun jobs' hsub => ?_⟩
  · rcases himports.only i x hx with hold | hname
    · cases reset with
      | false => exact .inl ⟨rfl, hkeep rfl ▸ hold⟩
      | true =>
          rw [hreset rfl i] at hold
          cases hold
    · obtain ⟨job, hjob, hname⟩ := List.mem_map.1 hname
      exact .inr ⟨job, hjob, hname⟩
  · rw [hkeep hfalse] at himports
    refine himports.kept i t ht (hor.imp id fun hnone hmem => ?_)
    obtain ⟨job, hjob, hname⟩ := List.mem_map.1 hmem
    exact hnone job hjob hname
  · generalize (importEntries env jobs reset update).exec w = w' at hpresent ⊢
    show (Prog.forEach jobs' fun job => (do
      let _ ← job.createTask env false : Py Unit)).exec w' = w'
    refine Prog.exec_forEach_keeps (I := (· = w')) (fun job hjob w'' hw'' => ?_) rfl
    subst hw''
    obtain ⟨name, hname, hthere⟩ := hpresent job (hsub job hjob)
    exact (Prog.exec_bind_of_silent fun _ _ => rfl).trans (exec_skipped hname hthere)

end File

/-- The one-off task is imported into an empty table, before its time has come. -/
theorem import_once : ((importEntries textEnv [onceEntry] true false).run (World.init 1000000)).val = .ok () ∧
    (importEntries textEnv [onceEntry] false false).exec
        ((importEntries textEnv [onceEntry] true false).exec (World.init 1000000))
      = (importEntries textEnv [onceEntry] true false).exec (World.init 1000000) := by
  have hok : ((importEntries textEnv [onceEntry] true false).run (World.init 1000000)).val = .ok () := by
    decide
  exact ⟨hok, (import_done textEnv [onceEntry] true false (World.init 1000000) hok).2.2.2 _ fun _ => id⟩

end DailyScheduler.Import
