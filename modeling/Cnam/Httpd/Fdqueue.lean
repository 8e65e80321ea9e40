/-
  The queue of accepted sockets of the worker MPM (`fdqueue.c`), with the listener and the
  workers that share it (`worker.c`): every access to what they share is a step of one of
  them, and any of them may take the next. What is done under `one_big_mutex` is one step; what
  `ap_queue_pop` reads after it has let go of it is another.
-/
import Cnam.Lib.Machine
import Mathlib.Logic.Function.Basic
import Mathlib.Data.Fintype.Basic

namespace Httpd

namespace Fdqueue

/-- An `apr_pool_t`, by its number. -/
abbrev Pool := ℕ

/-- An `apr_socket_t`, by its number. -/
abbrev Socket := ℕ

/-- `fd_queue_elem_t`. -/
structure Elem where
  sd : Socket
  p : Pool
deriving DecidableEq

/-- Where a worker is, with the variables it still needs. -/
inductive Worker
  /-- the loop of `worker_thread`, when it is not idle -/
  | start (lastPtrans : Option Pool)
  /-- the loop of `ap_queue_info_set_idle` that links the pool -/
  | readPools (pool : Pool)
  | linkPool (pool : Pool) (next : Option Pool)
  | casPools (pool : Pool) (next : Option Pool)
  /-- the one that counts the worker -/
  | readIdlers
  | casIdlers (prevIdlers : ℕ)
  /-- the count was zero -/
  | lock
  | signal
  | unlock
  /-- `worker_pop` -/
  | pop
  /-- in `ap_queue_pop` -/
  | queuePop
  /-- in `apr_thread_cond_wait` of `ap_queue_pop` -/
  | asleep
  | woken
  /-- out of `one_big_mutex`, with no element -/
  | readTerminated
  | serve (csd : Socket) (ptrans : Pool)
  | exited (isIdle : Bool) (lastPtrans : Option Pool)
deriving DecidableEq

/-- Where the listener is. -/
inductive Listener
  /-- the loop of `listener_thread` -/
  | top (haveIdleWorker : Bool) (ptrans : Option Pool)
  /-- `ap_queue_info_wait_for_idler` -/
  | readIdlers
  | lock
  | check
  | block
  | waiting
  | woken
  | unlock
  | decIdlers
  | readPools
  | readNext (firstPool : Pool)
  | casPools (firstPool : Pool) (next : Option Pool)
  | readTerminated (recycledPool : Option Pool)
  /-- with a worker reserved -/
  | accept (ptrans : Option Pool)
  | push (csd : Socket) (ptrans : Pool)
  /-- `ap_queue_term`, out of the loop -/
  | term (ptrans : Option Pool)
  | interrupt (ptrans : Option Pool)
  | exited (ptrans : Option Pool)
deriving DecidableEq

/-- The `fd_queue_info_t`, the `fd_queue_t`, the flags of `worker.c`, and the threads. The node
    of a recycled pool is in the pool; pools are numbered as they are created. Beside them, the
    sockets that were accepted and those that were popped. -/
structure State (n : ℕ) where
  idlers : ℕ
  idlersMutex : Bool
  infoTerminated : Bool
  recycledPools : Option Pool
  next : Pool → Option Pool
  data : ℕ → Elem
  nelts : ℕ
  inn : ℕ
  out : ℕ
  queueTerminated : Bool
  listenerMayExit : Bool
  workersMayExit : Bool
  created : ℕ
  listener : Listener
  workers : Fin n → Worker
  accepted : List Socket
  popped : List Socket

variable {n : ℕ}

/-- A child of `n` workers, all of its threads at their starts. -/
def State.start (n : ℕ) : State n where
  idlers := 0
  idlersMutex := false
  infoTerminated := false
  recycledPools := none
  next := fun _ => none
  data := fun _ => ⟨0, 0⟩
  nelts := 0
  inn := 0
  out := 0
  queueTerminated := false
  listenerMayExit := false
  workersMayExit := false
  created := 0
  listener := .top false none
  workers := fun _ => .start none
  accepted := []
  popped := []

/-- A worker goes on. -/
def State.setWorker (s : State n) (i : Fin n) (w : Worker) : State n :=
  { s with workers := Function.update s.workers i w }

/-- `apr_thread_cond_broadcast` on `not_empty`. -/
def Worker.wake : Worker → Worker
  | asleep => woken
  | w => w

/-- All that are asleep wake up. -/
def State.wakeAll (s : State n) : State n := { s with workers := fun i => (s.workers i).wake }

/-- `queue->in++`, and back to the start. -/
def advance (bounds pos : ℕ) : ℕ := if pos + 1 ≥ bounds then pos + 1 - bounds else pos + 1

/-- What `ap_queue_push` does between its mutex calls, but for the signal. -/
def State.enqueue (s : State n) (elem : Elem) : State n :=
  { s with data := Function.update s.data s.inn elem, inn := advance n s.inn, nelts := s.nelts + 1 }

/-- A worker takes the next element. -/
def State.dequeue (s : State n) (i : Fin n) : State n :=
  let elem := s.data s.out
  { s.setWorker i (.serve elem.sd elem.p) with
    out := advance n s.out, nelts := s.nelts - 1, popped := s.popped ++ [elem.sd] }

/-- A worker takes its next step, unless it has to wait for one of another thread. -/
def State.workerStep (s : State n) (i : Fin n) : State n :=
  match s.workers i with
  | .start lastPtrans =>
    if s.workersMayExit then s.setWorker i (.exited false lastPtrans)
    else
      match lastPtrans with
      | some pool => s.setWorker i (.readPools pool)
      | none => s.setWorker i .readIdlers
  | .readPools pool => s.setWorker i (.linkPool pool s.recycledPools)
  | .linkPool pool next =>
    { s.setWorker i (.casPools pool next) with next := Function.update s.next pool next }
  | .casPools pool next =>
    if s.recycledPools = next then { s.setWorker i .readIdlers with recycledPools := some pool }
    else s.setWorker i (.readPools pool)
  | .readIdlers => s.setWorker i (.casIdlers s.idlers)
  | .casIdlers prevIdlers =>
    if s.idlers = prevIdlers then
      { s.setWorker i (if prevIdlers = 0 then .lock else .pop) with idlers := prevIdlers + 1 }
    else s.setWorker i .readIdlers
  | .lock => if s.idlersMutex then s else { s.setWorker i .signal with idlersMutex := true }
  | .signal =>
    { s.setWorker i .unlock with
      listener := if s.listener = .waiting then .woken else s.listener }
  | .unlock => { s.setWorker i .pop with idlersMutex := false }
  | .pop => s.setWorker i (if s.workersMayExit then .exited true none else .queuePop)
  | .queuePop =>
    if s.nelts = 0 then s.setWorker i (if s.queueTerminated then .readTerminated else .asleep)
    else s.dequeue i
  | .asleep => s
  | .woken => if s.nelts = 0 then s.setWorker i .readTerminated else s.dequeue i
  | .readTerminated =>
    -- `APR_EOF`, or `APR_EINTR`
    s.setWorker i (if s.queueTerminated then .exited true none else .pop)
  | .serve _ ptrans => s.setWorker i (.start (some ptrans))
  | .exited .. => s

/-- The listener takes its next step. `csd` is what it accepts, and `wakes` is the worker that a
    signal wakes: one that is asleep, if there are any. -/
def State.listenerStep (s : State n) (csd : Option Socket) (wakes : Option (Fin n)) : State n :=
  match s.listener with
  | .top haveIdleWorker ptrans =>
    if s.listenerMayExit then { s with listener := .term ptrans }
    else if haveIdleWorker then { s with listener := .accept ptrans }
    else { s with listener := .readIdlers }
  | .readIdlers => { s with listener := if s.idlers = 0 then .lock else .decIdlers }
  | .lock => if s.idlersMutex then s else { s with listener := .check, idlersMutex := true }
  | .check => { s with listener := if s.idlers = 0 then .block else .unlock }
  | .block => { s with listener := .waiting, idlersMutex := false }
  | .waiting => s
  | .woken => if s.idlersMutex then s else { s with listener := .check, idlersMutex := true }
  | .unlock => { s with listener := .decIdlers, idlersMutex := false }
  | .decIdlers => { s with listener := .readPools, idlers := s.idlers - 1 }
  | .readPools =>
    match s.recycledPools with
    | none => { s with listener := .readTerminated none }
    | some firstPool => { s with listener := .readNext firstPool }
  | .readNext firstPool => { s with listener := .casPools firstPool (s.next firstPool) }
  | .casPools firstPool next =>
    if s.recycledPools = some firstPool then
      { s with recycledPools := next, listener := .readTerminated (some firstPool) }
    else { s with listener := .readPools }
  | .readTerminated recycledPool =>
    { s with listener := if s.infoTerminated then .term recycledPool else .accept recycledPool }
  | .accept ptrans =>
    if s.listenerMayExit then { s with listener := .term ptrans }
    else
      let pool := ptrans.getD s.created
      let created := if ptrans = none then s.created + 1 else s.created
      match csd with
      | some csd =>
        { s with listener := .push csd pool, created := created, accepted := s.accepted ++ [csd] }
      | none => { s with listener := .top true (some pool), created := created }
  | .push csd ptrans =>
    let s' := { s.enqueue ⟨csd, ptrans⟩ with listener := .top false none }
    match wakes with
    | some i => if s.workers i = .asleep then s'.setWorker i .woken else s
    | none => if ∃ i, s.workers i = .asleep then s else s'
  | .term ptrans => { s with listener := .interrupt ptrans, queueTerminated := true }
  | .interrupt ptrans => { s.wakeAll with listener := .exited ptrans }
  | .exited _ => s

/-- What happens next: a step of a thread, a wakeup that nobody asked for, or a call of the main
    thread. -/
inductive Act (n : ℕ)
  | worker (i : Fin n)
  | listener (csd : Option Socket) (wakes : Option (Fin n))
  | wakeWorker (i : Fin n)
  | wakeListener
  /-- `listener_may_exit = 1` -/
  | stopListener
  /-- `ap_queue_info_term` -/
  | infoTerm
  /-- `workers_may_exit = 1` -/
  | stopWorkers
  /-- `ap_queue_interrupt_all` -/
  | interruptAll

/-- The state after an act. -/
def State.step (s : State n) : Act n → State n
  | .worker i => s.workerStep i
  | .listener csd wakes => s.listenerStep csd wakes
  | .wakeWorker i => s.setWorker i (s.workers i).wake
  | .wakeListener => { s with listener := if s.listener = .waiting then .woken else s.listener }
  | .stopListener => { s with listenerMayExit := true }
  | .infoTerm =>
    if s.idlersMutex then s
    else
      { s with
        infoTerminated := true
        listener := if s.listener = .waiting then .woken else s.listener }
  | .stopWorkers => { s with workersMayExit := true }
  | .interruptAll => s.wakeAll

/-- The state after any of these, in any order. -/
def State.after (n : ℕ) (acts : List (Act n)) : State n :=
  Machine.run State.step (State.start n) acts

end Fdqueue

end Httpd
