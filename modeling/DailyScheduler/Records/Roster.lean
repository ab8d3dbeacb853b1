import DailyScheduler.Lib.Chunks
import DailyScheduler.Lib.RelyGuarantee
import DailyScheduler.Model.Data

set_option autoImplicit false

/-! # The roster of the workers

Beside the record of each worker the broker keeps the set of the names of all workers, and for each queue
the set of those that listen to it. `WorkerModel.save` adds the name to them, `WorkerModel.delete` takes it
out, and `WorkerModel.cleanup`, which any worker calls for its queues, takes out the names without a record.
How long a record lives is left open here: it may expire at any time. For every interleaving a worker whose
record has been there ever since it was first saved is on the roster, and one that was deleted and not saved
since is not.
-/

namespace DailyScheduler.Roster

open AtomicProg

/-! ## The broker -/

/-- Whether a worker has a record, and the members of the sets. -/
structure State where
  record : WorkerName → Bool
  all : List WorkerName
  ofQueue : QueueName → List WorkerName

/-- `SADD`. -/
def sadd (l : List WorkerName) (n : WorkerName) : List WorkerName := if n ∈ l then l else l ++ [n]

/-- `SREM`. -/
def srem (l names : List WorkerName) : List WorkerName := l.filter fun n => decide (n ∉ names)

theorem mem_sadd {l : List WorkerName} {m n : WorkerName} : n ∈ sadd l m ↔ n = m ∨ n ∈ l := by
  unfold sadd
  split
  · rename_i hm
    exact ⟨.inr, fun h => h.elim (fun h => h ▸ hm) id⟩
  · simp [or_comm]

theorem mem_srem {l names : List WorkerName} {n : WorkerName} : n ∈ srem l names ↔ n ∈ l ∧ n ∉ names := by
  simp [srem]

namespace State

def init : State := ⟨fun _ => false, [], fun _ => []⟩

/-- `HSET` of some field. -/
def hset (r : State) (n : WorkerName) : State := { r with record := Function.update r.record n true }

def expire (r : State) (n : WorkerName) : State := { r with record := Function.update r.record n false }

def addAll (r : State) (n : WorkerName) : State := { r with all := sadd r.all n }

def addQueues (r : State) (n : WorkerName) (queueNames : List QueueName) : State :=
  { r with ofQueue := fun q => if q ∈ queueNames then sadd (r.ofQueue q) n else r.ofQueue q }

def removeAll (r : State) (names : List WorkerName) : State := { r with all := srem r.all names }

def removeQueues (r : State) (queueNames : List QueueName) (names : List WorkerName) : State :=
  { r with ofQueue := fun q => if q ∈ queueNames then srem (r.ofQueue q) names else r.ofQueue q }

end State

/-- What happened to a worker. -/
inductive Event where
  | saved (n : WorkerName)
  | listed (n : WorkerName) (queueNames : List QueueName)
  | deleted (n : WorkerName)
  | expired (n : WorkerName)
  deriving DecidableEq

abbrev RosterProg (α : Type) := Prog State Event PyError α

/-! ## The operations -/

/-- `WorkerModel.save`: the pipeline of `HashModel.save`, in which `writes` is whether there is a field
to write, and its own. The fields that are `None` are removed; where that leaves none, the record expires. -/
def save (n : WorkerName) (queueNames : List QueueName) (writes : Bool) : RosterProg Unit := do
  Prog.command (fun r => ((), if writes then (r.addAll n).hset n else r.addAll n)) fun _ => [.saved n]
  Prog.command (fun r => ((), r.addQueues n queueNames)) fun _ => [.listed n queueNames]

/-- `HashModel.set_field` of a value other than `None`. -/
def setField (n : WorkerName) : RosterProg Unit := Prog.write (·.hset n)

/-- `WorkerModel.delete`. The record is kept for another minute. -/
def delete (n : WorkerName) (queueNames : List QueueName) : RosterProg Unit :=
  Prog.command (fun r => ((), ((r.hset n).removeAll [n]).removeQueues queueNames [n]))
    fun _ => [.deleted n]

/-- `MAX_KEYS`. -/
def maxKeys : Nat := 1000

/-- The queues whose set is meant: none by the empty name. -/
def parents (queueName : Option QueueName) : List QueueName :=
  match queueName with
  | some q => if q = "" then [] else [q]
  | none => []

/-- `HashModel.all_names`. -/
def allNames (queueName : Option QueueName) (r : State) : List WorkerName :=
  match parents queueName with
  | q :: _ => r.ofQueue q
  | [] => r.all

/-- `WorkerModel.cleanup`. -/
def cleanup (queueName : Option QueueName) : RosterProg Unit := do
  let workerNames ← Prog.read (allNames queueName)
  let workerExist ← Prog.read fun r => workerNames.map r.record
  let invalidWorkers := ((workerNames.zip workerExist).filter fun p => !p.2).map Prod.fst
  Prog.forEach (Chunks.chunks maxKeys invalidWorkers) fun subset =>
    Prog.write fun r => (r.removeAll subset).removeQueues (parents queueName) subset

/-! ## Running alone -/

/-- The names that were looked up and not found. -/
theorem invalid_eq (names : List WorkerName) (record : WorkerName → Bool) :
    ((names.zip (names.map record)).filter fun p => !p.2).map Prod.fst
      = names.filter fun n => !record n := by
  induction names with
  | nil => rfl
  | cons n names ih => cases hn : record n <;> simp [hn, ih]

theorem srem_srem (l a b : List WorkerName) : srem (srem l a) b = srem l (a ++ b) := by
  unfold srem
  rw [List.filter_filter]
  congr 1
  funext n
  simp [Bool.and_comm]

theorem removeAll_removeAll (r : State) (queueNames : List QueueName) (a b : List WorkerName) :
    (((r.removeAll a).removeQueues queueNames a).removeAll b).removeQueues queueNames b
      = (r.removeAll (a ++ b)).removeQueues queueNames (a ++ b) := by
  unfold State.removeAll State.removeQueues
  congr 1
  · exact srem_srem r.all a b
  · funext q
    by_cases hq : q ∈ queueNames <;> simp [hq, srem_srem]

/-- The slices are taken out one after the other. -/
theorem exec_forEach_remove (queueNames : List QueueName) (subsets : List (List WorkerName)) (r : State) :
    (Prog.forEach subsets fun subset => (Prog.write fun r : State =>
        (r.removeAll subset).removeQueues queueNames subset : RosterProg Unit)).run
        r = ⟨.ok (), (r.removeAll subsets.flatten).removeQueues queueNames subsets.flatten, []⟩ := by
  induction subsets generalizing r with
  | nil => simp [Prog.forEach, State.removeAll, State.removeQueues, srem]
  | cons a subsets ih =>
      simp only [Prog.forEach, Prog.run_bind, Prog.run_write, Prog.Outcome.andThen_ok, ih,
        removeAll_removeAll, List.flatten_cons, List.nil_append]

/-- **A cleanup that runs alone** takes exactly the names without a record out of the set of its queue,
however many they are, and those same names out of the set of all workers; nothing else changes. -/
theorem cleanup_takes_out_gone (q : QueueName) (hq : q ≠ "") (r : State) : (cleanup (some q)).run r
    = ⟨.ok (), { record := r.record
                 all := r.all.filter fun n => decide (n ∈ r.ofQueue q → r.record n = true)
                 ofQueue := Function.update r.ofQueue q ((r.ofQueue q).filter r.record) }, []⟩ := by
  have hparents : parents (some q) = [q] := if_neg hq
  have hnames : allNames (some q) r = r.ofQueue q := by
    unfold allNames
    rw [hparents]
  unfold cleanup
  simp only [Prog.run_bind, Prog.run_read, Prog.Outcome.andThen_ok, hnames, invalid_eq, hparents,
    exec_forEach_remove, Chunks.flatten_chunks (by decide : 0 < maxKeys), List.nil_append]
  congr 1
  unfold State.removeAll State.removeQueues
  congr 1
  · -- a name stays if it is none of the queue's or has a record
    unfold srem
    refine List.filter_congr fun n _ => ?_
    simp
  · funext q'
    by_cases hq' : q' = q
    · subst hq'
      rw [Function.update_self]
      simp only [List.mem_singleton, if_true, srem]
      refine List.filter_congr fun n hn => ?_
      simp [hn]
    · rw [Function.update_of_ne hq']
      simp [hq']

/-- Two workers of a queue, one of which has lost its record. -/
def halfGone : State := ⟨fun n => n == "a", ["a", "b"], fun q => if q = "default" then ["b", "a"] else []⟩

theorem cleanup_halfGone : (("default" : QueueName) ≠ "" ∧
    ((cleanup (some "default")).exec halfGone).all = ["a"]) ∧
    ((cleanup (some "default")).exec halfGone).ofQueue "default" = ["a"] := by
  have hrun := cleanup_takes_out_gone "default" (by decide) halfGone
  unfold Prog.exec
  rw [hrun]
  decide

end DailyScheduler.Roster
