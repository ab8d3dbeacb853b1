import DailyScheduler.Model.World

set_option autoImplicit false

/-! # The keys of the store

The key templates of `redis_models/`: names that users choose are put into them as they are. `World`
keeps records, result streams and registries apart; the store keeps them all under texts. Two
different things have different keys, with one exception: the record of a job named `ALL:` has the
key of the index of all jobs, where it can never be stored.
-/

namespace DailyScheduler

/-- What the store keeps for the jobs of its queues. -/
inductive Place where
  /-- The hash of a job. -/
  | record (n : JobName)
  /-- The result stream of a job. -/
  | results (n : JobName)
  | registry (q : QueueName) (k : RegistryKind)
  /-- The set of the names of all jobs. -/
  | index
  deriving DecidableEq

/-- What follows the name of the queue in a registry's `_element_key_template`. -/
def RegistryKind.suffix : RegistryKind → String
  | .queued => ":queued_jobs"
  | .finished => ":finished_jobs"
  | .failed => ":failed_jobs"
  | .canceled => ":canceled_jobs"
  | .scheduled => ":scheduled_jobs"
  | .active => ":active"

/-- The key of a place. -/
def Place.key : Place → String
  | .record n => World.jobKey n
  | .results n => ":job-results:" ++ n ++ ":"
  | .registry q k => ":registry:" ++ q ++ k.suffix
  | .index => ":jobs:ALL:"

namespace Place

theorem results_key_inj {n m : JobName} (h : (results n).key = (results m).key) : n = m := by
  have hlist := congrArg String.toList h
  simp only [key, String.toList_append, List.append_cancel_right_eq, List.append_cancel_left_eq] at hlist
  exact String.toList_inj.1 hlist

theorem record_key_inj {n m : JobName} (h : (record n).key = (record m).key) : n = m := by
  have hlist := congrArg String.toList h
  simp only [key, World.jobKey, String.toList_append, List.append_cancel_left_eq] at hlist
  exact String.toList_inj.1 hlist

/-- No suffix is the end of another one. -/
theorem suffix_inj {q q' : List Char} {k k' : RegistryKind}
    (h : q ++ k.suffix.toList = q' ++ k'.suffix.toList) : k = k' ∧ q = q' := by
  have hreverse := congrArg List.reverse h
  rw [List.reverse_append, List.reverse_append] at hreverse
  have hk : k = k' := by
    cases k <;> cases k' <;> simp [RegistryKind.suffix] at hreverse ⊢
  subst hk
  exact ⟨rfl, List.append_cancel_right h⟩

theorem registry_key_inj {q q' : QueueName} {k k' : RegistryKind}
    (h : (registry q k).key = (registry q' k').key) : q = q' ∧ k = k' := by
  have hlist := congrArg String.toList h
  simp only [key, String.toList_append, List.append_assoc, List.append_cancel_left_eq] at hlist
  obtain ⟨hk, hq⟩ := suffix_inj hlist
  exact ⟨String.toList_inj.1 hq, hk⟩

/-- Two places share a key only if they are one, or the record of a job named `ALL:` and the
index. -/
theorem key_inj {a b : Place} (h : a.key = b.key) :
    a = b ∨ a = record "ALL:" ∧ b = index ∨ a = index ∧ b = record "ALL:" := by
  have hindex : index.key = (record "ALL:").key := by decide
  cases a with
  | record n =>
      cases b with
      | record m => exact Or.inl (congrArg record (record_key_inj h))
      | results m => exact absurd (congrArg String.toList h) (by simp [key, World.jobKey])
      | registry q k => exact absurd (congrArg String.toList h) (by simp [key, World.jobKey])
      | index => exact Or.inr (Or.inl ⟨congrArg record (record_key_inj (h.trans hindex)), rfl⟩)
  | results n =>
      cases b with
      | record m => exact absurd (congrArg String.toList h) (by simp [key, World.jobKey])
      | results m => exact Or.inl (congrArg results (results_key_inj h))
      | registry q k => exact absurd (congrArg String.toList h) (by simp [key])
      | index => exact absurd (congrArg String.toList h) (by simp [key])
  | registry q k =>
      cases b with
      | record m => exact absurd (congrArg String.toList h) (by simp [key, World.jobKey])
      | results m => exact absurd (congrArg String.toList h) (by simp [key])
      | registry q' k' =>
          obtain ⟨rfl, rfl⟩ := registry_key_inj h
          exact Or.inl rfl
      | index => exact absurd (congrArg String.toList h) (by simp [key])
  | index =>
      cases b with
      | record m =>
          exact Or.inr (Or.inr ⟨rfl, congrArg record (record_key_inj (h.symm.trans hindex))⟩)
      | results m => exact absurd (congrArg String.toList h) (by simp [key])
      | registry q k => exact absurd (congrArg String.toList h) (by simp [key])
      | index => exact Or.inl rfl

end Place

end DailyScheduler
