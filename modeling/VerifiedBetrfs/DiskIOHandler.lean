import Mathlib.Data.List.Perm.Basic

/-!
# The write queue of the disk layer

A write is queued, and its request is started unless too many are under way.  The request finishes
at any moment; the program learns of it when it polls the task.
-/

namespace VerifiedBetrfs.DiskIOHandler

/-- The number of writes that may be under way. -/
def maxWriteReqsOut : Int := 8

/-- A write under its key in the map, with the number of calls of `aio_write` for it. -/
structure WriteTask where
  id : Nat
  madeReq : Bool
  done : Bool
  starts : Nat

/-- The numbers of writes under way and of writes not started. -/
structure Counters where
  nWriteReqsOut : Int
  nWriteReqsWaiting : Int

namespace WriteTask

variable (task : WriteTask) (c : Counters)

/-- The call of `aio_write`. -/
def start : WriteTask × Counters :=
  ({ task with madeReq := true, starts := task.starts + 1 },
    ⟨c.nWriteReqsOut + 1, c.nWriteReqsWaiting - 1⟩)

/-- The request of the write `id` has finished by the time of the poll if `finished id`. -/
def checkIfComplete (finished : Nat → Bool) : WriteTask × Counters :=
  if !task.done && task.madeReq && finished task.id then
    ({ task with done := true }, { c with nWriteReqsOut := c.nWriteReqsOut - 1 })
  else (task, c)

end WriteTask

/-- The loop that starts waiting writes while there is room. -/
def maybeStartWriteReq : List WriteTask → Counters → List WriteTask × Counters
  | [], c => ([], c)
  | task :: tasks, c =>
    if 0 < c.nWriteReqsWaiting ∧ c.nWriteReqsOut < maxWriteReqsOut then
      let started := if task.madeReq then (task, c) else task.start c
      let rest := maybeStartWriteReq tasks started.2
      (started.1 :: rest.1, rest.2)
    else (task :: tasks, c)

/-- The tasks that a loop polls and those ahead of it.  It ends at a task that is done if `stop`. -/
def pollTasks (finished : Nat → Bool) (stop : Bool) :
    List WriteTask → Counters → List WriteTask × List WriteTask × Counters
  | [], c => ([], [], c)
  | task :: tasks, c =>
    let polled := task.checkIfComplete c finished
    if stop && polled.1.done then ([], polled.1 :: tasks, polled.2)
    else
      let rest := pollTasks finished stop tasks polled.2
      (polled.1 :: rest.1, rest.2)

/-- The last call has returned, `completeWriteTasks` is in its loop, or `fail` is called. -/
inductive Pc where
  | returned
  | looping
  | failed
  deriving DecidableEq

/-- The map of the writes by their keys, the next key and the writes it has acknowledged. -/
structure State extends Counters where
  writeReqs : List WriteTask
  curId : Nat
  responses : List WriteTask
  pc : Pc

/-- A new handler. -/
def init : State := ⟨⟨0, 0⟩, [], 0, [], .returned⟩

section

variable (s : State)

/-- A write is queued, and started if there is room. -/
def write : State :=
  let task : WriteTask := ⟨s.curId, false, false, 0⟩
  let c := { s.toCounters with nWriteReqsWaiting := s.nWriteReqsWaiting + 1 }
  let started := if c.nWriteReqsOut < maxWriteReqsOut then task.start c else (task, c)
  { s with
    toCounters := started.2
    writeReqs := s.writeReqs ++ [started.1]
    curId := s.curId + 1 }

/-- The end of a call or of a pass: the tasks of the map, after waiting ones are started. -/
def restart (tasks : List WriteTask) (c : Counters) (pc : Pc) : State :=
  let started := maybeStartWriteReq tasks c
  { s with toCounters := started.2, writeReqs := started.1, pc := pc }

/-- The first task that a poll finds done is acknowledged. -/
def prepareWriteResponse (finished : Nat → Bool) : State :=
  match pollTasks finished true s.writeReqs s.toCounters with
  | (passed, task :: ahead, c) =>
    restart { s with responses := s.responses ++ [task] } (passed ++ ahead) c .returned
  | (passed, [], c) => { s with toCounters := c, writeReqs := passed }

/-- `aio_suspend` on all requests under way, unless some task is done. -/
def waitForOne : State :=
  if s.writeReqs.any (·.done) then s
  else if s.writeReqs.any (·.madeReq) then restart s s.writeReqs s.toCounters .returned
  else { s with pc := .failed }

/-- The requests that a pass of `completeWriteTasks` finds under way. -/
def underWay (finished : Nat → Bool) : List WriteTask :=
  (pollTasks finished false s.writeReqs s.toCounters).1.filter fun task =>
    !task.done && task.madeReq

/-- One pass of the loop: it polls all tasks, and if some request is under way it waits in
`aio_suspend` and starts waiting writes. -/
def completePass (finished : Nat → Bool) : State :=
  let polled := pollTasks finished false s.writeReqs s.toCounters
  if underWay s finished ≠ [] then restart s polled.1 polled.2.2 .looping
  else
    { s with
      toCounters := polled.2.2
      writeReqs := polled.1
      pc := if polled.1.any fun task => !task.done && !task.madeReq then .failed else .returned }

end

/-- The state before each pass of a call. -/
def passState (polls : Nat → Nat → Bool) (s : State) : Nat → State
  | 0 => s
  | pass + 1 => completePass (passState polls s pass) (polls pass)

/-- The call makes the pass, because every earlier one waits for some request. -/
def InCall (polls : Nat → Nat → Bool) (s : State) (pass : Nat) : Prop :=
  ∀ earlier < pass, (passState polls s (earlier + 1)).pc = .looping

/-- A request that a pass waits for in `aio_suspend` has finished when the next pass polls it. -/
def Suspends (polls : Nat → Nat → Bool) (s : State) : Prop :=
  ∀ pass, (passState polls s (pass + 1)).pc = .looping →
    ∃ task ∈ underWay (passState polls s pass) (polls pass), polls (pass + 1) task.id

/-- The states of a handler, between its calls and between the passes of a call. -/
inductive Reached : State → Prop
  | init : Reached init
  | write {s : State} : Reached s → s.pc = .returned → Reached (write s)
  | prepareWriteResponse {s : State} (finished : Nat → Bool) :
    Reached s → s.pc = .returned → Reached (prepareWriteResponse s finished)
  | waitForOne {s : State} :
    Reached s → s.pc = .returned → s.writeReqs ≠ [] → Reached (waitForOne s)
  | completePass {s : State} (finished : Nat → Bool) :
    Reached s → s.pc ≠ .failed → Reached (completePass s finished)

namespace WriteTask

/-- The write is under way as far as the polls have shown. -/
@[grind]
def inFlight (task : WriteTask) : Bool := task.madeReq && !task.done

/-- The write waits to be started. -/
@[grind]
def notStarted (task : WriteTask) : Bool := !task.madeReq

/-- The write was started at most once, and before it was done. -/
@[grind]
def WF (task : WriteTask) : Prop :=
  task.starts = task.madeReq.toNat ∧ (task.done → task.madeReq)

end WriteTask

open WriteTask (inFlight notStarted)

/-- The counters are right for the tasks of the map, and every write is either there or answered
once, after it was started once and has finished. -/
@[grind]
structure Recorded (responses tasks : List WriteTask) (c : Counters) (curId : Nat) : Prop where
  out : c.nWriteReqsOut = tasks.countP inFlight
  outLe : c.nWriteReqsOut ≤ maxWriteReqsOut
  waiting : c.nWriteReqsWaiting = tasks.countP notStarted
  wf : ∀ task ∈ tasks, task.WF
  answered : ∀ task ∈ responses, task.starts = 1 ∧ task.done
  ids : ((responses ++ tasks).map WriteTask.id).Perm (List.range curId)

variable {s : State} {c c' c'' : Counters} {task task' : WriteTask} {curId : Nat}
  {responses tasks tasks' : List WriteTask} {finished : Nat → Bool}

/-- The tasks change, and the counters with them. -/
structure Follows (tasks : List WriteTask) (c : Counters) (tasks' : List WriteTask)
    (c' : Counters) : Prop where
  out : (∀ task ∈ tasks, task.WF) →
    c'.nWriteReqsOut + tasks.countP inFlight = c.nWriteReqsOut + tasks'.countP inFlight
  outLe : c.nWriteReqsOut ≤ maxWriteReqsOut → c'.nWriteReqsOut ≤ maxWriteReqsOut
  waiting : c'.nWriteReqsWaiting + tasks.countP notStarted =
    c.nWriteReqsWaiting + tasks'.countP notStarted
  wf : (∀ task ∈ tasks, task.WF) → ∀ task ∈ tasks', task.WF
  ids : (tasks'.map WriteTask.id).Perm (tasks.map WriteTask.id)

namespace Follows

theorem refl (tasks : List WriteTask) (c : Counters) : Follows tasks c tasks c :=
  ⟨fun _ => rfl, id, rfl, id, .refl _⟩

theorem cons (first : Follows [task] c [task'] c') (rest : Follows tasks c' tasks' c'') :
    Follows (task :: tasks) c (task' :: tasks') c'' := by
  obtain ⟨out, outLe, waiting, wf, ids⟩ := first
  obtain ⟨restOut, restOutLe, restWaiting, restWF, restIds⟩ := rest
  refine ⟨fun all => ?_, fun le => restOutLe (outLe le), by grind, fun all => ?_,
    ids.append restIds⟩
  all_goals
    obtain ⟨here, there⟩ := List.forall_mem_cons.mp all
    have single := List.forall_mem_singleton.mpr here
    grind

theorem recorded (follows : Follows tasks c tasks' c')
    (recorded : Recorded responses tasks c curId) : Recorded responses tasks' c' curId := by
  obtain ⟨out, outLe, waiting, wf, answered, ids⟩ := recorded
  refine ⟨by grind [follows.out wf], follows.outLe outLe, by grind [follows.waiting],
    follows.wf wf, answered, ?_⟩
  rw [List.map_append] at ids ⊢
  exact (follows.ids.append_left _).trans ids

end Follows

section

variable (finished : Nat → Bool) (stop : Bool) (tasks : List WriteTask) (c : Counters)

end

/-- The invariant of a handler between its calls. -/
structure Safe (s : State) : Prop where
  recorded : Recorded s.responses s.writeReqs s.toCounters s.curId
  /-- While a write waits, as many as may be are under way, or one is to be answered. -/
  busy : s.pc ≠ .failed → 0 < s.nWriteReqsWaiting →
    s.nWriteReqsOut = maxWriteReqsOut ∨ ∃ task ∈ s.writeReqs, task.done

section

variable (safe : Safe s)

include safe

end

section

variable {polls : Nat → Nat → Bool} {passes : Nat} {s' : State}

theorem passState_succ (polls : Nat → Nat → Bool) (s : State) (pass : Nat) :
    passState polls s (pass + 1) =
      passState (fun pass => polls (pass + 1)) (completePass s (polls 0)) pass := by
  induction pass with
  | zero => rfl
  | succ pass ih => rw [passState, ih, passState]

/-- The number of writes that the polls have not shown to be finished. -/
def unfinished (tasks : List WriteTask) : Nat := tasks.countP fun task => !task.done

theorem Suspends.next (suspends : Suspends polls s) :
    Suspends (fun pass => polls (pass + 1)) (completePass s (polls 0)) := by
  intro pass loops
  rw [← passState_succ] at loops ⊢
  exact suspends (pass + 1) loops

end

end VerifiedBetrfs.DiskIOHandler
