/-
  The queue of a child process in any order of its threads' steps: no assertion fails, no
  socket and no pool is lost, nobody waits for ever, and a child that stops has served what it
  accepted.
-/
import Cnam.Httpd.FdqueuePools

namespace Httpd

namespace Fdqueue

open Threads LinkedStack

variable {n : ℕ} {s : State n}

theorem run (acts : List (Act n)) :
    Counts (State.after n acts) ∧ Fifo (State.after n acts) ∧
      ∃ nodes, Pools (State.after n acts) nodes := by
  refine Machine.run_until (P := fun s => Counts s ∧ Fifo s ∧ ∃ nodes, Pools s nodes)
    (K := fun _ => False) ?_ ⟨.start, .start, [], .start⟩ fun _ _ => id
  rintro s act ⟨hcounts, hfifo, nodes, hpools⟩ -
  exact ⟨hcounts.step act, hfifo.step hcounts act, hpools.step hfifo.ring hcounts act⟩

/-- **Sockets.** Those that were accepted are those that were popped, then those in the queue,
    then the one that is about to be pushed; and then the queue is neither full nor terminated. -/
theorem sockets_in_order (acts : List (Act n)) :
    (State.after n acts).accepted = (State.after n acts).popped ++
        (State.after n acts).queue.map Elem.sd ++
        (State.after n acts).listener.pushing.map Elem.sd ∧
      (State.after n acts).nelts ≤ n ∧
      ((State.after n acts).listener.pushing ≠ [] →
        (State.after n acts).nelts < n ∧ (State.after n acts).queueTerminated = false) := by
  obtain ⟨hcounts, hfifo, -⟩ := run acts
  refine ⟨hfifo.order, hfifo.ring.room, fun hpushing => ?_⟩
  have hroom := hcounts.room
  have hended := hcounts.ended
  cases hl : (State.after n acts).listener with
  | push csd ptrans =>
    rw [hl] at hroom hended
    exact ⟨hroom, by simpa [Listener.terminated] using hended⟩
  | _ => exact absurd (by rw [hl]; rfl) hpushing

/-- **Pools.** The nodes from the head on are a list; each pool that was created is once in
    it, or with one thread, or in the queue; and when the listener compares the head, it has read
    of the first node what is its next one. -/
theorem pools_once (acts : List (Act n)) : ∃ nodes,
    Chain (State.after n acts).next (State.after n acts).recycledPools nodes ∧
      (∀ p, (State.after n acts).places nodes p =
        if p < (State.after n acts).created then 1 else 0) ∧
      ∀ firstPool next, (State.after n acts).listener = .casPools firstPool next →
        firstPool ∈ nodes ∧ (State.after n acts).next firstPool = next := by
  obtain ⟨-, -, nodes, hpools⟩ := run acts
  refine ⟨nodes, hpools.chain, hpools.places, fun firstPool next hcas => ?_⟩
  exact ⟨hpools.first firstPool (by rw [hcas]; rfl), hpools.next firstPool next hcas⟩

/-- **Wakeups.** The listener only sleeps while no worker is idle, or one is about to signal it;
    there is one for it to take when it takes one; until the queue is terminated there are as many
    workers awake as sockets in it, unless the workers may exit; and one thread at most holds the
    mutex. -/
theorem no_lost_wakeup (acts : List (Act n)) :
    ((State.after n acts).listener = .block ∨ (State.after n acts).listener = .waiting →
      (State.after n acts).idlers = 0 ∨
        ∃ i, (State.after n acts).workers i = .lock ∨ (State.after n acts).workers i = .signal) ∧
    ((State.after n acts).listener = .decIdlers → 0 < (State.after n acts).idlers) ∧
    ((State.after n acts).workersMayExit = false → (State.after n acts).queueTerminated = false →
      (State.after n acts).nelts ≤ total Worker.awake (State.after n acts).workers) ∧
    (State.after n acts).listener.holds + total Worker.holds (State.after n acts).workers =
      (State.after n acts).idlersMutex.toNat := by
  obtain ⟨hcounts, -⟩ := run acts
  refine ⟨?_, ?_, ?_, hcounts.mutex⟩
  · intro hsleeps
    rcases hcounts.wakeup with hblocked | hzero | hsignals
    · rcases hsleeps with hl | hl
      · rw [hl] at hblocked
        cases hblocked
      · rw [hl] at hblocked
        cases hblocked
    · exact Or.inl hzero
    · obtain ⟨i, hi⟩ := total_pos hsignals
      refine Or.inr ⟨i, ?_⟩
      cases hw : (State.after n acts).workers i with
      | lock => exact Or.inl rfl
      | signal => exact Or.inr rfl
      | _ =>
        rw [hw] at hi
        cases hi
  · intro hl
    have htaken := hcounts.taken
    rw [hl] at htaken
    exact htaken.resolve_left Nat.one_ne_zero
  · intro hmay hopen
    have hawake := hcounts.awake
    have halive := hcounts.alive
    rw [hmay] at hawake halive
    rw [hopen] at halive
    simp only [Bool.toNat_false] at hawake halive
    omega

/-! ## The end -/

/-- Has found the queue empty, and is about to read whether it is terminated. -/
def Worker.reading : Worker → ℕ
  | readTerminated => 1
  | _ => 0

/-- The queue is not terminated with a socket in it while a worker that has found it empty is
    about to read whether it is. -/
def Calm (s : State n) (act : Act n) : Prop :=
  s.queueTerminated = false → (s.step act).queueTerminated = true →
    s.nelts = 0 ∨ ∀ i, s.workers i ≠ .readTerminated

instance (s : State n) (act : Act n) : Decidable (Calm s act) :=
  inferInstanceAs (Decidable (_ → _ → _))

/-- A worker is only gone when the queue is terminated and empty, unless it was told to exit. -/
structure Drained (s : State n) : Prop where
  gone : total Worker.gone s.workers = 0 ∨
    0 < s.workersMayExit.toNat ∨ 0 < s.queueTerminated.toNat ∧ s.nelts = 0
  reading : s.queueTerminated.toNat = 0 ∨ s.nelts = 0 ∨ total Worker.reading s.workers = 0

theorem Drained.start : Drained (State.start n) := ⟨Or.inl (total_start _ rfl), Or.inl rfl⟩

theorem Drained.same {s' : State n} (h : Drained s) (hworkers : s'.workers = s.workers)
    (hnelts : s'.nelts = s.nelts) (hterminated : s'.queueTerminated = s.queueTerminated)
    (hmay : s.workersMayExit.toNat ≤ s'.workersMayExit.toNat) : Drained s' := by
  obtain ⟨hgone, hreading⟩ := h
  refine ⟨?_, ?_⟩ <;> rw [hworkers, hnelts, hterminated] <;> omega

theorem Drained.move (h : Drained s) {i : Fin n} {w : Worker} (hw : s.workers i = w) (w' : Worker)
    (hgone : w'.gone ≤ w.gone ∨ 0 < s.workersMayExit.toNat ∨
      0 < s.queueTerminated.toNat ∧ s.nelts = 0)
    (hreading : w'.reading ≤ w.reading ∨ s.nelts = 0) : Drained (s.setWorker i w') := by
  have hgone' := total_update Worker.gone s.workers i w'
  have hreading' := total_update Worker.reading s.workers i w'
  obtain ⟨hg, hr⟩ := h
  rw [hw] at hgone' hreading'
  refine ⟨?_, ?_⟩ <;> simp only [State.setWorker] <;> omega

theorem Drained.goes (h : Drained s) {i : Fin n} {w : Worker} (hw : s.workers i = w) (w' : Worker)
    (hgone : w'.gone = w.gone) (hreading : w'.reading = w.reading) : Drained (s.setWorker i w') :=
  h.move hw w' (Or.inl hgone.le) (Or.inl hreading.le)

theorem Drained.dequeue (h : Drained s) {i : Fin n}
    (hw : s.workers i = .queuePop ∨ s.workers i = .woken) : Drained (s.dequeue i) := by
  have hserve : Drained (s.setWorker i (.serve (s.data s.out).sd (s.data s.out).p)) := by
    rcases hw with hw | hw
    · exact h.goes hw _ rfl rfl
    · exact h.goes hw _ rfl rfl
  obtain ⟨hgone, hreading⟩ := hserve
  simp only [State.setWorker] at hgone hreading
  refine ⟨?_, ?_⟩ <;> simp only [State.dequeue, State.setWorker] <;> omega

/-- **A worker** that exits has read that the queue is terminated, after it found it empty. -/
theorem Drained.workerStep (h : Drained s) (i : Fin n) : Drained (s.workerStep i) := by
  unfold State.workerStep
  cases hw : s.workers i with
  | start lastPtrans =>
    simp only
    split_ifs with hmay
    · exact h.move hw _ (Or.inr (Or.inl (by simp [hmay]))) (Or.inl le_rfl)
    · cases lastPtrans with
      | some pool => exact h.goes hw _ rfl rfl
      | none => exact h.goes hw _ rfl rfl
  | pop =>
    simp only
    split_ifs with hmay
    · exact h.move hw _ (Or.inr (Or.inl (by simp [hmay]))) (Or.inl le_rfl)
    · exact h.goes hw _ rfl rfl
  | queuePop =>
    simp only
    split_ifs with hnone
    · exact h.move hw _ (Or.inl le_rfl) (Or.inr hnone)
    · exact h.goes hw _ rfl rfl
    · exact h.dequeue (Or.inl hw)
  | woken =>
    simp only
    split_ifs with hnone
    · exact h.move hw _ (Or.inl le_rfl) (Or.inr hnone)
    · exact h.dequeue (Or.inr hw)
  | readTerminated =>
    simp only
    split_ifs with hterminated
    · refine h.move hw _ (Or.inr (Or.inr ?_)) (Or.inl (Nat.zero_le _))
      have hone := le_total Worker.reading s.workers i
      have hreading := h.reading
      rw [hw] at hone
      rw [hterminated, Bool.toNat_true] at hreading ⊢
      simp only [Worker.reading] at hone
      omega
    · exact h.move hw _ (Or.inl le_rfl) (Or.inl (Nat.zero_le _))
  | linkPool pool next => exact (h.goes hw (.casPools pool next) rfl rfl).same rfl rfl rfl le_rfl
  | casPools pool next =>
    simp only
    split_ifs
    · exact (h.goes hw .readIdlers rfl rfl).same rfl rfl rfl le_rfl
    · exact h.goes hw _ rfl rfl
  | casIdlers prevIdlers =>
    simp only
    split_ifs
    · exact (h.goes hw .lock rfl rfl).same rfl rfl rfl le_rfl
    · exact (h.goes hw .pop rfl rfl).same rfl rfl rfl le_rfl
    · exact h.goes hw _ rfl rfl
  | lock =>
    simp only
    split_ifs
    · exact h
    · exact (h.goes hw .signal rfl rfl).same rfl rfl rfl le_rfl
  | signal => exact (h.goes hw .unlock rfl rfl).same rfl rfl rfl le_rfl
  | unlock => exact (h.goes hw .pop rfl rfl).same rfl rfl rfl le_rfl
  | readPools pool => exact h.goes hw _ rfl rfl
  | readIdlers => exact h.goes hw _ rfl rfl
  | serve csd ptrans => exact h.goes hw _ rfl rfl
  | asleep => exact h
  | exited isIdle lastPtrans => exact h

theorem Drained.wakeAll (h : Drained s) : Drained s.wakeAll := by
  refine ⟨?_, ?_⟩
  · rw [total_wakeAll _ rfl]
    exact h.gone
  · rw [total_wakeAll _ rfl]
    exact h.reading

/-- **The listener** terminates the queue when there is nothing in it, or no worker is about to
    read whether it did. -/
theorem Drained.listenerStep (h : Drained s) (hcounts : Counts s) (csd : Option Socket)
    (wakes : Option (Fin n)) (hcalm : Calm s (.listener csd wakes)) :
    Drained (s.listenerStep csd wakes) := by
  have hended := hcounts.ended
  have halive := hcounts.alive
  cases hl : s.listener with
  | push csd' ptrans =>
    rw [hl] at hended
    simp only [Listener.terminated] at hended
    have hpushed : Drained { s.enqueue ⟨csd', ptrans⟩ with listener := .top false none } := by
      refine ⟨?_, Or.inl hended⟩
      simp only [State.enqueue]
      omega
    simp only [State.listenerStep, hl]
    cases wakes with
    | some i =>
      simp only
      split_ifs with hasleep
      · exact hpushed.goes hasleep _ rfl rfl
      · exact h
    | none =>
      simp only
      split_ifs
      · exact h
      · exact hpushed
  | term ptrans =>
    rw [hl] at hended
    simp only [Listener.terminated] at hended
    have hopen : s.queueTerminated = false := by simpa using hended
    have hterminates : (s.step (.listener csd wakes)).queueTerminated = true := by
      simp only [State.step, State.listenerStep, hl]
    simp only [State.listenerStep, hl]
    refine ⟨?_, Or.inr ?_⟩
    · simp only
      omega
    · refine (hcalm hopen hterminates).imp id fun hnobody => ?_
      refine Finset.sum_eq_zero fun i _ => ?_
      cases hw : s.workers i with
      | readTerminated => exact absurd hw (hnobody i)
      | _ => rfl
  | interrupt ptrans =>
    simp only [State.listenerStep, hl]
    exact h.wakeAll.same rfl rfl rfl le_rfl
  | _ =>
    simp only [State.listenerStep, hl]
    repeat' split
    all_goals first
      | exact h
      | exact h.same rfl rfl rfl le_rfl

theorem Drained.step (h : Drained s) (hcounts : Counts s) (act : Act n) (hcalm : Calm s act) :
    Drained (s.step act) := by
  cases act with
  | worker i => exact h.workerStep i
  | listener csd wakes => exact h.listenerStep hcounts csd wakes hcalm
  | wakeWorker i =>
    cases hw : s.workers i with
    | asleep =>
      simp only [State.step, hw]
      exact h.goes hw _ rfl rfl
    | _ =>
      simp only [State.step, hw]
      exact h.goes hw _ rfl rfl
  | wakeListener => exact h.same rfl rfl rfl le_rfl
  | stopListener => exact h.same rfl rfl rfl le_rfl
  | infoTerm =>
    simp only [State.step]
    split_ifs
    · exact h
    · exact h.same rfl rfl rfl le_rfl
    · exact h.same rfl rfl rfl le_rfl
  | stopWorkers => exact h.same rfl rfl rfl s.workersMayExit.toNat_le
  | interruptAll => exact h.wakeAll

theorem drained {acts : List (Act n)} (hcalm : Machine.Along State.step Calm (State.start n) acts) :
    Drained (State.after n acts) := by
  have hboth := Machine.inv_along (P := fun s : State n => Counts s ∧ Drained s)
    (fun s act h hcalm => ⟨h.1.step act, h.2.step h.1 act hcalm⟩) ⟨.start, .start⟩ hcalm
  exact (hboth _ (Machine.run_mem_states _ _ _)).2

/-- **A graceful end.** Unless the workers were told to exit, none of them exits before the
    listener has terminated the queue. Then what was accepted was popped or is in the queue, and
    for each socket that is left in it a worker is awake, or has exited; but in a run that is calm
    nothing is left once a worker exits. And when the listener is done no worker sleeps. -/
theorem graceful (acts : List (Act n)) :
    ((State.after n acts).workersMayExit = false →
      ∀ i isIdle ptrans, (State.after n acts).workers i = .exited isIdle ptrans →
        (State.after n acts).listener.terminated = 1 ∧
          (State.after n acts).accepted =
            (State.after n acts).popped ++ (State.after n acts).queue.map Elem.sd ∧
          (State.after n acts).nelts ≤ total Worker.awake (State.after n acts).workers +
            total Worker.gone (State.after n acts).workers ∧
          (Machine.Along State.step Calm (State.start n) acts →
            (State.after n acts).popped = (State.after n acts).accepted)) ∧
    ∀ ptrans, (State.after n acts).listener = .exited ptrans →
      ∀ i, (State.after n acts).workers i ≠ .asleep := by
  obtain ⟨hcounts, hfifo, -⟩ := run acts
  constructor
  · intro hmay i isIdle ptrans hw
    have hgone := le_total Worker.gone (State.after n acts).workers i
    rw [hw] at hgone
    simp only [Worker.gone] at hgone
    have halive := hcounts.alive
    have hawake := hcounts.awake
    have hended := hcounts.ended
    rw [hmay, Bool.toNat_false] at halive hawake
    have hle := (State.after n acts).queueTerminated.toNat_le
    have horder := hfifo.order
    have hpushing : (State.after n acts).listener.pushing = [] := by
      cases hl : (State.after n acts).listener with
      | push csd ptrans =>
        rw [hl] at hended
        simp only [Listener.terminated] at hended
        omega
      | _ => rfl
    rw [hpushing, List.map_nil, List.append_nil] at horder
    refine ⟨by omega, horder, by omega, fun hcalm => ?_⟩
    have hleft := (drained hcalm).gone
    rw [hmay, Bool.toNat_false] at hleft
    have hnone : (State.after n acts).nelts = 0 := by omega
    rw [horder, State.queue, hnone]
    exact (List.append_nil _).symm
  · intro ptrans hl i hw
    have hroused := hcounts.roused
    have hsleeps := le_total Worker.sleeps (State.after n acts).workers i
    rw [hw] at hsleeps
    rw [hl] at hroused
    rcases hroused with hno | hzero
    · cases hno
    · rw [hzero] at hsleeps
      cases hsleeps

/-- A worker is idle, then gets a socket, serves it and comes back to a queue that is terminated
    by then. -/
def served : List (Act 1) :=
  List.replicate 8 (.worker 0) ++ List.replicate 5 (.listener none none) ++
    [.listener (some 7) none, .listener none (some 0), .worker 0, .stopListener,
      .listener none none, .listener none none, .listener none none] ++
    List.replicate 13 (.worker 0)

theorem graceful_served :
    (State.after 1 served).accepted = [7] ∧
      (State.after 1 served).popped = (State.after 1 served).accepted ∧
      (State.after 1 served).workers 0 ≠ .asleep :=
  ⟨rfl, ((graceful served).1 rfl 0 true none rfl).2.2.2 (by decide),
    (graceful served).2 none rfl 0⟩

/-- A worker wakes up for nothing, and finds the queue empty; a socket is pushed and the queue is
    terminated before it reads whether it is. -/
def raced : List (Act 1) :=
  List.replicate 8 (.worker 0) ++ [.wakeWorker 0, .worker 0] ++
    List.replicate 5 (.listener none none) ++
    [.listener (some 7) none, .listener none none, .stopListener, .listener none none,
      .listener none none, .worker 0]

/-- In a run that is not calm a worker exits with a socket in the queue. -/
theorem raced_left : ¬ Machine.Along State.step Calm (State.start 1) raced ∧
    (State.after 1 raced).workersMayExit = false ∧
    (State.after 1 raced).workers 0 = .exited true none ∧
    (State.after 1 raced).popped = [] ∧ (State.after 1 raced).accepted = [7] := by
  decide

/-! ## No deadlock -/

/-- A thread goes on. -/
def State.Moves (s : State n) : Prop :=
  (∃ i, s.workerStep i ≠ s) ∨ ∃ csd wakes, s.listenerStep csd wakes ≠ s

theorem moves_worker {i : Fin n} (h : (s.workerStep i).workers i ≠ s.workers i) : s.Moves :=
  Or.inl ⟨i, fun hsame => h (by rw [hsame])⟩

theorem moves_listener (csd : Option Socket) (wakes : Option (Fin n))
    (h : (s.listenerStep csd wakes).listener ≠ s.listener) : s.Moves :=
  Or.inr ⟨csd, wakes, fun hsame => h (by rw [hsame])⟩

/-- A worker waits only when it is asleep, or for the mutex. -/
theorem worker_moves (i : Fin n) (hasleep : s.workers i ≠ .asleep)
    (hlock : s.workers i = .lock → s.idlersMutex = false)
    (hgone : ∀ isIdle ptrans, s.workers i ≠ .exited isIdle ptrans) : s.Moves := by
  refine moves_worker (i := i) ?_
  unfold State.workerStep
  cases hw : s.workers i with
  | asleep => exact absurd hw hasleep
  | exited isIdle ptrans => exact absurd hw (hgone isIdle ptrans)
  | lock =>
    simp only [hlock hw]
    simp [State.setWorker]
  | start lastPtrans =>
    simp only
    split_ifs
    · simp [State.setWorker]
    · cases lastPtrans <;> simp [State.setWorker]
  | _ =>
    simp only
    repeat' split
    all_goals simp [State.setWorker, State.dequeue]

/-- Whoever holds the mutex goes on. -/
theorem holder_moves (h : Counts s) (hheld : s.idlersMutex = true) : s.Moves := by
  have hmutex := h.mutex
  rw [hheld, Bool.toNat_true] at hmutex
  by_cases hzero : s.listener.holds = 0
  · rw [hzero, Nat.zero_add] at hmutex
    have hpos : 0 < total Worker.holds s.workers := by omega
    obtain ⟨i, hi⟩ := total_pos hpos
    refine worker_moves i ?_ ?_ ?_
    · intro hw
      rw [hw] at hi
      cases hi
    · intro hw
      rw [hw] at hi
      cases hi
    · intro isIdle ptrans hw
      rw [hw] at hi
      cases hi
  · refine moves_listener none none ?_
    cases hl : s.listener with
    | check =>
      simp only [State.listenerStep, hl]
      split_ifs <;> simp
    | block => simp [State.listenerStep, hl]
    | unlock => simp [State.listenerStep, hl]
    | _ =>
      rw [hl] at hzero
      exact absurd rfl hzero

/-- The listener waits only when it is asleep, for the mutex, or for a worker to wake up with a
    socket. -/
theorem listener_moves (hwaiting : s.listener ≠ .waiting)
    (hlock : s.listener = .lock ∨ s.listener = .woken → s.idlersMutex = false)
    (hgone : ∀ ptrans, s.listener ≠ .exited ptrans) : s.Moves := by
  cases hl : s.listener with
  | waiting => exact absurd hl hwaiting
  | exited ptrans => exact absurd hl (hgone ptrans)
  | lock =>
    refine moves_listener none none ?_
    simp [State.listenerStep, hl, hlock (Or.inl hl)]
  | woken =>
    refine moves_listener none none ?_
    simp [State.listenerStep, hl, hlock (Or.inr hl)]
  | push csd ptrans =>
    by_cases hasleep : ∃ i, s.workers i = .asleep
    · obtain ⟨i, hi⟩ := hasleep
      refine moves_listener none (some i) ?_
      simp [State.listenerStep, hl, hi, State.setWorker]
    · refine moves_listener none none ?_
      simp only [State.listenerStep, hl]
      rw [if_neg hasleep]
      simp
  | readPools =>
    refine moves_listener none none ?_
    simp only [State.listenerStep, hl]
    split <;> simp
  | accept ptrans =>
    refine moves_listener none none ?_
    simp only [State.listenerStep, hl]
    split_ifs <;> simp
  | _ =>
    refine moves_listener none none ?_
    simp only [State.listenerStep, hl]
    repeat' split
    all_goals simp

/-- All sleep: then none is counted as idle. -/
theorem counted_asleep (h : ∀ i, s.workers i = .asleep) : total Worker.counted s.workers = n := by
  have hone : total Worker.counted s.workers = total (fun _ => 1) s.workers :=
    total_congr fun i => by rw [h i]; rfl
  rw [hone]
  simp [total]

/-- **No deadlock.** Unless the workers were told to exit, a thread can go on until all of them
    have exited. -/
theorem no_deadlock (acts : List (Act n)) (hn : 0 < n)
    (hmay : (State.after n acts).workersMayExit = false)
    (hrunning : (∀ ptrans, (State.after n acts).listener ≠ .exited ptrans) ∨
      ∃ i, ∀ isIdle ptrans, (State.after n acts).workers i ≠ .exited isIdle ptrans) :
    (State.after n acts).Moves := by
  obtain ⟨hcounts, -⟩ := run acts
  generalize State.after n acts = s at hcounts hmay hrunning ⊢
  by_contra hstuck
  have hmutex : s.idlersMutex = false := by
    by_contra hheld
    exact hstuck (holder_moves hcounts (by simpa using hheld))
  have hworkers : ∀ i, s.workers i = .asleep ∨
      ∃ isIdle ptrans, s.workers i = .exited isIdle ptrans := by
    intro i
    by_contra hno
    rw [not_or] at hno
    refine hstuck (worker_moves i hno.1 (fun _ => hmutex) fun isIdle ptrans hw => ?_)
    exact hno.2 ⟨isIdle, ptrans, hw⟩
  by_cases hexited : ∃ ptrans, s.listener = .exited ptrans
  · -- the broadcast has woken all
    obtain ⟨ptrans, hl⟩ := hexited
    have hroused := hcounts.roused
    rw [hl] at hroused
    have hnone := hroused.resolve_left Nat.one_ne_zero
    rcases hrunning with hrunning | ⟨i, hi⟩
    · exact hrunning ptrans hl
    · rcases hworkers i with hw | ⟨isIdle, ptrans, hw⟩
      · have hsleeps := le_total Worker.sleeps s.workers i
        rw [hw, hnone] at hsleeps
        cases hsleeps
      · exact hi isIdle ptrans hw
  · have hwaiting : s.listener = .waiting := by
      by_contra hno
      exact hstuck (listener_moves hno (fun _ => hmutex) fun ptrans hl => hexited ⟨ptrans, hl⟩)
    obtain ⟨hc, hk, -, hwake, -, ha, he, -, haw⟩ := hcounts
    rw [hwaiting] at hk hwake he
    simp only [Listener.reserved, Listener.exiting, Listener.blocked, Listener.terminated]
      at hk hwake he
    rw [hmay] at ha haw
    simp only [Bool.toNat_false] at ha haw
    have hgone : total Worker.gone s.workers = 0 := by omega
    have hasleep : ∀ i, s.workers i = .asleep := by
      intro i
      rcases hworkers i with hw | ⟨isIdle, ptrans, hw⟩
      · exact hw
      · have hle := le_total Worker.gone s.workers i
        rw [hw, hgone] at hle
        cases hle
    have hzero : ∀ f : Worker → ℕ, f .asleep = 0 → total f s.workers = 0 := by
      intro f hf
      exact Finset.sum_eq_zero fun i _ => by rw [hasleep i, hf]
    have hcounted := counted_asleep hasleep
    have hawake := hzero Worker.awake rfl
    have hsignals := hzero Worker.signals rfl
    -- nobody is idle, but all of them are counted
    omega

/-- Two workers are idle and asleep, and one of them is woken up for a socket. -/
def pushed : List (Act 2) :=
  List.replicate 8 (.worker 0) ++ List.replicate 5 (.worker 1) ++
    List.replicate 5 (.listener none none) ++ [.listener (some 7) none, .listener none (some 0)]

theorem no_deadlock_pushed : (State.after 2 pushed).workers 1 = .asleep ∧
    (State.after 2 pushed).nelts = 1 ∧ (State.after 2 pushed).Moves :=
  ⟨rfl, rfl, no_deadlock pushed Nat.zero_lt_two rfl (Or.inr ⟨1, fun _ _ h => by cases h⟩)⟩

end Fdqueue

end Httpd
