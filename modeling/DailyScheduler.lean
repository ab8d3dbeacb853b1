import DailyScheduler.Concurrency.Cancel
import DailyScheduler.Concurrency.Cleaning
import DailyScheduler.Concurrency.Counters
import DailyScheduler.Concurrency.Creating
import DailyScheduler.Concurrency.Deletion
import DailyScheduler.Concurrency.Delivery
import DailyScheduler.Concurrency.Forking
import DailyScheduler.Concurrency.Listening
import DailyScheduler.Concurrency.Loop
import DailyScheduler.Concurrency.Roster
import DailyScheduler.Concurrency.Shutdown
import DailyScheduler.Concurrency.Suspension
import DailyScheduler.Execution.Burst
import DailyScheduler.Execution.Callables
import DailyScheduler.Execution.DeathPenalty
import DailyScheduler.Execution.JobStack
import DailyScheduler.Execution.Lifecycle
import DailyScheduler.Execution.Meta
import DailyScheduler.Execution.Monitoring
import DailyScheduler.Execution.Steps
import DailyScheduler.Execution.TaskRuns
import DailyScheduler.Execution.WorkerCommands
import DailyScheduler.Execution.WorkingTime
import DailyScheduler.Lib.Run
import DailyScheduler.Model.Effects
import DailyScheduler.Model.Scheduler
import DailyScheduler.Registries.DeleteFailed
import DailyScheduler.Registries.Durable
import DailyScheduler.Registries.Empty
import DailyScheduler.Registries.Exclusive
import DailyScheduler.Registries.Lifetime
import DailyScheduler.Registries.Pages
import DailyScheduler.Registries.ScheduledTime
import DailyScheduler.Registries.StartedRuns
import DailyScheduler.Scheduling.Handover
import DailyScheduler.Scheduling.Isolation
import DailyScheduler.Scheduling.Locks
import DailyScheduler.Scheduling.Options
import DailyScheduler.Planner.Breaks
import DailyScheduler.Planner.CalendarPage
import DailyScheduler.Planner.Copies
import DailyScheduler.Planner.EditSubtasks
import DailyScheduler.Planner.Failure
import DailyScheduler.Planner.Form
import DailyScheduler.Planner.Ordered
import DailyScheduler.Planner.Overlap
import DailyScheduler.Planner.PrayerDays
import DailyScheduler.Planner.Prayers
import DailyScheduler.Planner.ProjectOrder
import DailyScheduler.Planner.Weekly
import DailyScheduler.Queues.Connections
import DailyScheduler.Queues.Order
import DailyScheduler.Queues.Front
import DailyScheduler.Queues.RoundRobin
import DailyScheduler.Queues.Waiting
import DailyScheduler.Records.ExtraFields
import DailyScheduler.Records.Index
import DailyScheduler.Records.Results
import DailyScheduler.Records.ReturnValues
import DailyScheduler.Records.RoundTrip
import DailyScheduler.Records.Store
import DailyScheduler.Tasks.CatchUp
import DailyScheduler.Tasks.Edit
import DailyScheduler.Tasks.Export
import DailyScheduler.Tasks.Import
import DailyScheduler.Tasks.ImportRuns
import DailyScheduler.Tasks.NextJob
import DailyScheduler.Tasks.Repeats
import DailyScheduler.Tasks.Transfer
