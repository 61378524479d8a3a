import TemporalBindings.Worker.OptionValue

/-!
# TemporalBindings.Worker.Options

The options of a worker and the catalog of their settings. A setting names one
field of the options, both as the worker library spells it and as the worker
extension does, and gives read and write access to it; the order of the catalog
is the order in which settings are written out.
-/

namespace TemporalBindings.Worker

open Number

/-! ## The record -/

/-- The options of a worker. A field at its zero value is left to the worker
library's own default. -/
structure Options where
  maxConcurrentActivityExecutionSize : Int32 := 0
  workerActivitiesPerSecond : Double := .zero
  maxConcurrentLocalActivityExecutionSize : Int32 := 0
  workerLocalActivitiesPerSecond : Double := .zero
  taskQueueActivitiesPerSecond : Double := .zero
  maxConcurrentActivityTaskPollers : Int32 := 0
  maxConcurrentWorkflowTaskExecutionSize : Int32 := 0
  maxConcurrentWorkflowTaskPollers : Int32 := 0
  enableLoggingInReplay : Bool := false
  stickyScheduleToStartTimeout : Option Duration := none
  workerStopTimeout : Option Duration := none
  enableSessionWorker : Bool := false
  maxConcurrentSessionExecutionSize : Int32 := 0
  disableWorkflowWorker : Bool := false
  localActivityWorkerOnly : Bool := false
  identity : String := ""
  deadlockDetectionTimeout : Option Duration := none
  maxHeartbeatThrottleInterval : Option Duration := none
  defaultHeartbeatThrottleInterval : Option Duration := none
  disableEagerActivities : Bool := false
  maxConcurrentEagerActivityExecutionSize : Int32 := 0
  disableRegistrationAliasing : Bool := false
  buildId : String := ""
  useBuildIdForVersioning : Bool := false
  deriving DecidableEq

/-! ## The catalog -/

/-- One field of the options. -/
inductive Setting
  | maxConcurrentActivityExecutionSize
  | workerActivitiesPerSecond
  | maxConcurrentLocalActivityExecutionSize
  | workerLocalActivitiesPerSecond
  | taskQueueActivitiesPerSecond
  | maxConcurrentActivityTaskPollers
  | maxConcurrentWorkflowTaskExecutionSize
  | maxConcurrentWorkflowTaskPollers
  | enableLoggingInReplay
  | stickyScheduleToStartTimeout
  | workerStopTimeout
  | enableSessionWorker
  | maxConcurrentSessionExecutionSize
  | disableWorkflowWorker
  | localActivityWorkerOnly
  | identity
  | deadlockDetectionTimeout
  | maxHeartbeatThrottleInterval
  | defaultHeartbeatThrottleInterval
  | disableEagerActivities
  | maxConcurrentEagerActivityExecutionSize
  | disableRegistrationAliasing
  | buildId
  | useBuildIdForVersioning
  deriving DecidableEq

namespace Setting

/-- All settings, in the order of the catalog. -/
def all : List Setting :=
  [.maxConcurrentActivityExecutionSize, .workerActivitiesPerSecond,
   .maxConcurrentLocalActivityExecutionSize, .workerLocalActivitiesPerSecond,
   .taskQueueActivitiesPerSecond, .maxConcurrentActivityTaskPollers,
   .maxConcurrentWorkflowTaskExecutionSize, .maxConcurrentWorkflowTaskPollers,
   .enableLoggingInReplay, .stickyScheduleToStartTimeout, .workerStopTimeout, .enableSessionWorker,
   .maxConcurrentSessionExecutionSize, .disableWorkflowWorker, .localActivityWorkerOnly, .identity,
   .deadlockDetectionTimeout, .maxHeartbeatThrottleInterval, .defaultHeartbeatThrottleInterval,
   .disableEagerActivities, .maxConcurrentEagerActivityExecutionSize, .disableRegistrationAliasing,
   .buildId, .useBuildIdForVersioning]

/-- The field's name in the options of the worker library. -/
def name : Setting → String
  | .maxConcurrentActivityExecutionSize => "MaxConcurrentActivityExecutionSize"
  | .workerActivitiesPerSecond => "WorkerActivitiesPerSecond"
  | .maxConcurrentLocalActivityExecutionSize => "MaxConcurrentLocalActivityExecutionSize"
  | .workerLocalActivitiesPerSecond => "WorkerLocalActivitiesPerSecond"
  | .taskQueueActivitiesPerSecond => "TaskQueueActivitiesPerSecond"
  | .maxConcurrentActivityTaskPollers => "MaxConcurrentActivityTaskPollers"
  | .maxConcurrentWorkflowTaskExecutionSize => "MaxConcurrentWorkflowTaskExecutionSize"
  | .maxConcurrentWorkflowTaskPollers => "MaxConcurrentWorkflowTaskPollers"
  | .enableLoggingInReplay => "EnableLoggingInReplay"
  | .stickyScheduleToStartTimeout => "StickyScheduleToStartTimeout"
  | .workerStopTimeout => "WorkerStopTimeout"
  | .enableSessionWorker => "EnableSessionWorker"
  | .maxConcurrentSessionExecutionSize => "MaxConcurrentSessionExecutionSize"
  | .disableWorkflowWorker => "DisableWorkflowWorker"
  | .localActivityWorkerOnly => "LocalActivityWorkerOnly"
  | .identity => "Identity"
  | .deadlockDetectionTimeout => "DeadlockDetectionTimeout"
  | .maxHeartbeatThrottleInterval => "MaxHeartbeatThrottleInterval"
  | .defaultHeartbeatThrottleInterval => "DefaultHeartbeatThrottleInterval"
  | .disableEagerActivities => "DisableEagerActivities"
  | .maxConcurrentEagerActivityExecutionSize => "MaxConcurrentEagerActivityExecutionSize"
  | .disableRegistrationAliasing => "DisableRegistrationAliasing"
  | .buildId => "BuildID"
  | .useBuildIdForVersioning => "UseBuildIDForVersioning"

/-- The field's name in the options message of the worker extension. -/
def protoName : Setting → String
  | .maxConcurrentActivityExecutionSize => "max_concurrent_activity_execution_size"
  | .workerActivitiesPerSecond => "worker_activities_per_second"
  | .maxConcurrentLocalActivityExecutionSize => "max_concurrent_local_activity_execution_size"
  | .workerLocalActivitiesPerSecond => "worker_local_activities_per_second"
  | .taskQueueActivitiesPerSecond => "task_queue_activities_per_second"
  | .maxConcurrentActivityTaskPollers => "max_concurrent_activity_task_pollers"
  | .maxConcurrentWorkflowTaskExecutionSize => "max_concurrent_workflow_task_execution_size"
  | .maxConcurrentWorkflowTaskPollers => "max_concurrent_workflow_task_pollers"
  | .enableLoggingInReplay => "enable_logging_in_replay"
  | .stickyScheduleToStartTimeout => "sticky_schedule_to_start_timeout"
  | .workerStopTimeout => "worker_stop_timeout"
  | .enableSessionWorker => "enable_session_worker"
  | .maxConcurrentSessionExecutionSize => "max_concurrent_session_execution_size"
  | .disableWorkflowWorker => "disable_workflow_worker"
  | .localActivityWorkerOnly => "local_activity_worker_only"
  | .identity => "identity"
  | .deadlockDetectionTimeout => "deadlock_detection_timeout"
  | .maxHeartbeatThrottleInterval => "max_heartbeat_throttle_interval"
  | .defaultHeartbeatThrottleInterval => "default_heartbeat_throttle_interval"
  | .disableEagerActivities => "disable_eager_activities"
  | .maxConcurrentEagerActivityExecutionSize => "max_concurrent_eager_activity_execution_size"
  | .disableRegistrationAliasing => "disable_registration_aliasing"
  | .buildId => "build_id"
  | .useBuildIdForVersioning => "use_build_id_for_versioning"

/-- The kind of value the field holds. -/
def kind : Setting → Kind
  | .maxConcurrentActivityExecutionSize => .int
  | .workerActivitiesPerSecond => .float
  | .maxConcurrentLocalActivityExecutionSize => .int
  | .workerLocalActivitiesPerSecond => .float
  | .taskQueueActivitiesPerSecond => .float
  | .maxConcurrentActivityTaskPollers => .int
  | .maxConcurrentWorkflowTaskExecutionSize => .int
  | .maxConcurrentWorkflowTaskPollers => .int
  | .enableLoggingInReplay => .bool
  | .stickyScheduleToStartTimeout => .duration
  | .workerStopTimeout => .duration
  | .enableSessionWorker => .bool
  | .maxConcurrentSessionExecutionSize => .int
  | .disableWorkflowWorker => .bool
  | .localActivityWorkerOnly => .bool
  | .identity => .string
  | .deadlockDetectionTimeout => .duration
  | .maxHeartbeatThrottleInterval => .duration
  | .defaultHeartbeatThrottleInterval => .duration
  | .disableEagerActivities => .bool
  | .maxConcurrentEagerActivityExecutionSize => .int
  | .disableRegistrationAliasing => .bool
  | .buildId => .string
  | .useBuildIdForVersioning => .bool

/-- The setting of a given name in the worker extension. -/
def ofProtoName? (name : String) : Option Setting :=
  all.find? (·.protoName = name)

end Setting

namespace Options

/-! ## Access by setting -/

/-- The value of a setting. -/
def get (o : Options) : Setting → OptionValue
  | .maxConcurrentActivityExecutionSize => .int o.maxConcurrentActivityExecutionSize
  | .workerActivitiesPerSecond => .float o.workerActivitiesPerSecond
  | .maxConcurrentLocalActivityExecutionSize => .int o.maxConcurrentLocalActivityExecutionSize
  | .workerLocalActivitiesPerSecond => .float o.workerLocalActivitiesPerSecond
  | .taskQueueActivitiesPerSecond => .float o.taskQueueActivitiesPerSecond
  | .maxConcurrentActivityTaskPollers => .int o.maxConcurrentActivityTaskPollers
  | .maxConcurrentWorkflowTaskExecutionSize => .int o.maxConcurrentWorkflowTaskExecutionSize
  | .maxConcurrentWorkflowTaskPollers => .int o.maxConcurrentWorkflowTaskPollers
  | .enableLoggingInReplay => .bool o.enableLoggingInReplay
  | .stickyScheduleToStartTimeout => .duration o.stickyScheduleToStartTimeout
  | .workerStopTimeout => .duration o.workerStopTimeout
  | .enableSessionWorker => .bool o.enableSessionWorker
  | .maxConcurrentSessionExecutionSize => .int o.maxConcurrentSessionExecutionSize
  | .disableWorkflowWorker => .bool o.disableWorkflowWorker
  | .localActivityWorkerOnly => .bool o.localActivityWorkerOnly
  | .identity => .string o.identity
  | .deadlockDetectionTimeout => .duration o.deadlockDetectionTimeout
  | .maxHeartbeatThrottleInterval => .duration o.maxHeartbeatThrottleInterval
  | .defaultHeartbeatThrottleInterval => .duration o.defaultHeartbeatThrottleInterval
  | .disableEagerActivities => .bool o.disableEagerActivities
  | .maxConcurrentEagerActivityExecutionSize => .int o.maxConcurrentEagerActivityExecutionSize
  | .disableRegistrationAliasing => .bool o.disableRegistrationAliasing
  | .buildId => .string o.buildId
  | .useBuildIdForVersioning => .bool o.useBuildIdForVersioning

/-- The options with another value of one setting. A value of the wrong kind
counts as the zero of the right one. -/
def set (o : Options) (s : Setting) (v : OptionValue) : Options :=
  match s with
  | .maxConcurrentActivityExecutionSize => { o with maxConcurrentActivityExecutionSize := v.toInt }
  | .workerActivitiesPerSecond => { o with workerActivitiesPerSecond := v.toFloat }
  | .maxConcurrentLocalActivityExecutionSize =>
    { o with maxConcurrentLocalActivityExecutionSize := v.toInt }
  | .workerLocalActivitiesPerSecond => { o with workerLocalActivitiesPerSecond := v.toFloat }
  | .taskQueueActivitiesPerSecond => { o with taskQueueActivitiesPerSecond := v.toFloat }
  | .maxConcurrentActivityTaskPollers => { o with maxConcurrentActivityTaskPollers := v.toInt }
  | .maxConcurrentWorkflowTaskExecutionSize =>
    { o with maxConcurrentWorkflowTaskExecutionSize := v.toInt }
  | .maxConcurrentWorkflowTaskPollers => { o with maxConcurrentWorkflowTaskPollers := v.toInt }
  | .enableLoggingInReplay => { o with enableLoggingInReplay := v.toBool }
  | .stickyScheduleToStartTimeout => { o with stickyScheduleToStartTimeout := v.toDuration }
  | .workerStopTimeout => { o with workerStopTimeout := v.toDuration }
  | .enableSessionWorker => { o with enableSessionWorker := v.toBool }
  | .maxConcurrentSessionExecutionSize => { o with maxConcurrentSessionExecutionSize := v.toInt }
  | .disableWorkflowWorker => { o with disableWorkflowWorker := v.toBool }
  | .localActivityWorkerOnly => { o with localActivityWorkerOnly := v.toBool }
  | .identity => { o with identity := v.toText }
  | .deadlockDetectionTimeout => { o with deadlockDetectionTimeout := v.toDuration }
  | .maxHeartbeatThrottleInterval => { o with maxHeartbeatThrottleInterval := v.toDuration }
  | .defaultHeartbeatThrottleInterval => { o with defaultHeartbeatThrottleInterval := v.toDuration }
  | .disableEagerActivities => { o with disableEagerActivities := v.toBool }
  | .maxConcurrentEagerActivityExecutionSize =>
    { o with maxConcurrentEagerActivityExecutionSize := v.toInt }
  | .disableRegistrationAliasing => { o with disableRegistrationAliasing := v.toBool }
  | .buildId => { o with buildId := v.toText }
  | .useBuildIdForVersioning => { o with useBuildIdForVersioning := v.toBool }

/-- The settings that differ from their zero value, with their values, in the order
of the catalog. -/
def nonZero (o : Options) : List (Setting × OptionValue) :=
  (Setting.all.map fun s => (s, o.get s)).filter fun (_, v) => !v.isZero

end Options

end TemporalBindings.Worker
