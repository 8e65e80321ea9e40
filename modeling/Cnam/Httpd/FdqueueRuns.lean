/-
  What holds whatever the listener, the workers and the main thread do, in any order.
-/
import Cnam.Lib.Cyclic
import Cnam.Lib.LinkedStack
import Cnam.Lib.Threads
import Cnam.Httpd.Fdqueue
import Mathlib.Tactic.SplitIfs

namespace Httpd

namespace Fdqueue

open Threads

variable {n : ℕ} {s : State n}

/-! ## Counts -/

namespace Worker

/-- In the count of idle workers, or reserved, or with an element of the queue to take. -/
def counted : Worker → ℕ
  | lock | signal | unlock | pop | queuePop | asleep | woken | readTerminated => 1
  | exited true _ => 1
  | _ => 0

/-- Will look at the queue before it sleeps, unless it reads that the queue is terminated. -/
def awake : Worker → ℕ
  | lock | signal | unlock | pop | queuePop | woken | readTerminated => 1
  | _ => 0

/-- Holds `idlers_mutex`. -/
def holds : Worker → ℕ
  | signal | unlock => 1
  | _ => 0

/-- Will signal the listener. -/
def signals : Worker → ℕ
  | lock | signal => 1
  | _ => 0

/-- Is asleep in `ap_queue_pop`. -/
def sleeps : Worker → ℕ
  | asleep => 1
  | _ => 0

/-- Has exited. -/
def gone : Worker → ℕ
  | exited .. => 1
  | _ => 0

end Worker

namespace Listener

/-- A worker is reserved for the listener. -/
def reserved : Listener → ℕ
  | top true _ | readPools | readNext _ | casPools .. | readTerminated _ | accept _ | push .. => 1
  | _ => 0

/-- Holds `idlers_mutex`. -/
def holds : Listener → ℕ
  | check | block | unlock => 1
  | _ => 0

/-- Saw no idle worker, and sleeps or will. -/
def blocked : Listener → ℕ
  | block | waiting => 1
  | _ => 0

/-- Saw an idle worker, and will take one. -/
def takes : Listener → ℕ
  | unlock | decIdlers => 1
  | _ => 0

/-- Has terminated the queue. -/
def terminated : Listener → ℕ
  | interrupt _ | exited _ => 1
  | _ => 0

/-- Out of its loop. -/
def exiting : Listener → ℕ
  | term _ | interrupt _ | exited _ => 1
  | _ => 0

/-- Has exited. -/
def finished : Listener → ℕ
  | exited _ => 1
  | _ => 0

theorem reserved_le (l : Listener) : l.reserved ≤ 1 := by
  cases l with
  | top haveIdleWorker ptrans => cases haveIdleWorker <;> simp [reserved]
  | _ => simp [reserved]

theorem finished_le (l : Listener) : l.finished ≤ l.terminated := by
  cases l <;> simp [finished, terminated]

theorem blocked_le {l : Listener} (h : l ≠ waiting) : l.blocked ≤ l.holds := by
  cases l with
  | waiting => exact absurd rfl h
  | _ => simp [blocked, holds]

end Listener

/-- What the counts have to do with each other. -/
structure Counts (s : State n) : Prop where
  counted : s.idlers + s.listener.reserved + s.nelts ≤ total Worker.counted s.workers
  known : total Worker.counted s.workers ≤
    s.idlers + s.listener.reserved + s.nelts + s.listener.exiting
  mutex : s.listener.holds + total Worker.holds s.workers = s.idlersMutex.toNat
  wakeup : s.listener.blocked = 0 ∨ s.idlers = 0 ∨ 0 < total Worker.signals s.workers
  taken : s.listener.takes = 0 ∨ 0 < s.idlers
  alive : total Worker.gone s.workers = 0 ∨
    0 < s.workersMayExit.toNat ∨ 0 < s.queueTerminated.toNat
  ended : s.queueTerminated.toNat = s.listener.terminated
  roused : s.listener.finished = 0 ∨ total Worker.sleeps s.workers = 0
  awake : 0 < s.workersMayExit.toNat ∨
    s.nelts ≤ total Worker.awake s.workers + total Worker.gone s.workers

theorem total_start (f : Worker → ℕ) (hf : f (.start none) = 0) :
    total f (State.start n).workers = 0 := Finset.sum_eq_zero fun _ _ => hf

theorem Counts.start : Counts (State.start n) := by
  refine ⟨?_, ?_, ?_, Or.inl rfl, Or.inl rfl, Or.inl (total_start _ rfl), rfl, Or.inl rfl,
    Or.inr ?_⟩
  · exact Nat.zero_le _
  · rw [total_start _ rfl]
    exact Nat.zero_le _
  · rw [total_start _ rfl]
    rfl
  · exact Nat.zero_le _

/-- What the workers have in all, after one of them has moved on. -/
structure Moved (workers workers' : Fin n → Worker) (w w' : Worker) : Prop where
  counted : total Worker.counted workers' + w.counted = total Worker.counted workers + w'.counted
  awake : total Worker.awake workers' + w.awake = total Worker.awake workers + w'.awake
  holds : total Worker.holds workers' + w.holds = total Worker.holds workers + w'.holds
  signals : total Worker.signals workers' + w.signals = total Worker.signals workers + w'.signals
  sleeps : total Worker.sleeps workers' + w.sleeps = total Worker.sleeps workers + w'.sleeps
  gone : total Worker.gone workers' + w.gone = total Worker.gone workers + w'.gone

theorem moved {i : Fin n} {w : Worker} (h : s.workers i = w) (w' : Worker) :
    Moved s.workers (Function.update s.workers i w') w w' := by
  subst h
  exact ⟨total_update .., total_update .., total_update .., total_update .., total_update ..,
    total_update ..⟩

theorem Counts.move (h : Counts s) {i : Fin n} {w : Worker} (hw : s.workers i = w) (w' : Worker)
    (hcounted : w'.counted = w.counted) (hawake : w.awake ≤ w'.awake) (hholds : w'.holds = w.holds)
    (hsignals : w'.signals = w.signals) (hsleeps : w'.sleeps ≤ w.sleeps)
    (hgone : w'.gone = w.gone) : Counts (s.setWorker i w') := by
  obtain ⟨hc', ha', hh', hs', hz', hg'⟩ := moved hw w'
  obtain ⟨hc, hk, hm, hwake, ht, ha, he, hr, haw⟩ := h
  refine ⟨?_, ?_, ?_, ?_, ht, ?_, he, ?_, ?_⟩ <;> simp only [State.setWorker] <;> omega

/-- The stack of pools does not count. -/
theorem Counts.pools (h : Counts s) (head : Option Pool) (next : Pool → Option Pool) :
    Counts { s with recycledPools := head, next := next } :=
  ⟨h.counted, h.known, h.mutex, h.wakeup, h.taken, h.alive, h.ended, h.roused,
    h.awake⟩

/-- Nor do the sockets that come in. -/
theorem Counts.made (h : Counts s) (created : ℕ) (accepted : List Socket) :
    Counts { s with created := created, accepted := accepted } :=
  ⟨h.counted, h.known, h.mutex, h.wakeup, h.taken, h.alive, h.ended, h.roused,
    h.awake⟩

/-- A worker exits, if it may. -/
theorem Counts.exit (h : Counts s) {i : Fin n} {w : Worker} (hw : s.workers i = w) (w' : Worker)
    (hmay : 0 < s.workersMayExit.toNat ∨ 0 < s.queueTerminated.toNat)
    (hcounted : w'.counted = w.counted) (hgone : w.awake + w.gone ≤ w'.awake + w'.gone)
    (hholds : w'.holds = w.holds)
    (hsignals : w'.signals = w.signals) (hsleeps : w'.sleeps ≤ w.sleeps) :
    Counts (s.setWorker i w') := by
  obtain ⟨hc', ha', hh', hs', hz', hg'⟩ := moved hw w'
  obtain ⟨hc, hk, hm, hwake, ht, ha, he, hr, haw⟩ := h
  refine ⟨?_, ?_, ?_, ?_, ht, ?_, he, ?_, ?_⟩ <;> simp only [State.setWorker] <;> omega

/-- A worker takes an element. -/
theorem Counts.dequeue (h : Counts s) {i : Fin n}
    (hw : s.workers i = .queuePop ∨ s.workers i = .woken) (hsome : s.nelts ≠ 0) :
    Counts (s.dequeue i) := by
  obtain ⟨hc, hk, hm, hwake, ht, ha, he, hr, haw⟩ := h
  rcases hw with hw | hw <;>
  · have hmoved := moved hw (.serve (s.data s.out).sd (s.data s.out).p)
    obtain ⟨hc', ha', hh', hs', hz', hg'⟩ := hmoved
    simp only [Worker.counted, Worker.awake, Worker.holds, Worker.signals, Worker.sleeps,
      Worker.gone] at hc' ha' hh' hs' hz' hg'
    refine ⟨?_, ?_, ?_, ?_, ht, ?_, he, ?_, ?_⟩ <;> simp only [State.dequeue, State.setWorker] <;>
      omega

theorem Counts.workerStep (h : Counts s) (i : Fin n) : Counts (s.workerStep i) := by
  unfold State.workerStep
  cases hw : s.workers i with
  | start lastPtrans =>
    simp only
    by_cases hmay : s.workersMayExit = true
    · rw [if_pos hmay]
      exact h.exit hw _ (Or.inl (by simp [hmay])) rfl (Nat.zero_le _) rfl rfl le_rfl
    · rw [if_neg hmay]
      cases lastPtrans with
      | some pool => exact h.move hw _ rfl le_rfl rfl rfl le_rfl rfl
      | none => exact h.move hw _ rfl le_rfl rfl rfl le_rfl rfl
  | readPools pool => exact h.move hw _ rfl le_rfl rfl rfl le_rfl rfl
  | linkPool pool next =>
    exact (h.move hw (.casPools pool next) rfl le_rfl rfl rfl le_rfl rfl).pools s.recycledPools _
  | casPools pool next =>
    simp only
    split_ifs
    · exact (h.move hw .readIdlers rfl le_rfl rfl rfl le_rfl rfl).pools (some pool) s.next
    · exact h.move hw _ rfl le_rfl rfl rfl le_rfl rfl
  | readIdlers => exact h.move hw _ rfl le_rfl rfl rfl le_rfl rfl
  | casIdlers prevIdlers =>
    simp only
    by_cases hsame : s.idlers = prevIdlers
    · rw [if_pos hsame]
      obtain ⟨hc', ha', hh', hs', hz', hg'⟩ := moved hw (if prevIdlers = 0 then .lock else .pop)
      obtain ⟨hc, hk, hm, hwake, ht, ha, he, hr, haw⟩ := h
      -- only the first to be idle signals
      by_cases hzero : prevIdlers = 0 <;> simp only [hzero, if_true, if_false, Worker.counted,
        Worker.awake, Worker.holds, Worker.signals, Worker.sleeps, Worker.gone]
          at hc' ha' hh' hs' hz' hg' ⊢ <;>
        refine ⟨?_, ?_, ?_, ?_, ?_, ?_, he, ?_, ?_⟩ <;> simp only [State.setWorker] <;> omega
    · rw [if_neg hsame]
      exact h.move hw _ rfl le_rfl rfl rfl le_rfl rfl
  | lock =>
    simp only
    split_ifs with hmutex
    · exact h
    · obtain ⟨hc', ha', hh', hs', hz', hg'⟩ := moved hw .signal
      obtain ⟨hc, hk, hm, hwake, ht, ha, he, hr, haw⟩ := h
      simp only [Worker.counted, Worker.awake, Worker.holds, Worker.signals, Worker.sleeps,
        Worker.gone]
        at hc' ha' hh' hs' hz' hg'
      have hfree : s.idlersMutex.toNat = 0 := by simp [hmutex]
      refine ⟨?_, ?_, ?_, ?_, ht, ?_, he, ?_, ?_⟩ <;>
        simp only [State.setWorker, Bool.toNat_true] <;> omega
  | signal =>
    obtain ⟨hc', ha', hh', hs', hz', hg'⟩ := moved hw .unlock
    obtain ⟨hc, hk, hm, hwake, ht, ha, he, hr, haw⟩ := h
    simp only [Worker.counted, Worker.awake, Worker.holds, Worker.signals, Worker.sleeps,
      Worker.gone] at hc' ha' hh' hs' hz' hg'
    have hheld := s.idlersMutex.toNat_le
    by_cases hwait : s.listener = .waiting
    · simp only [hwait, if_true, Listener.reserved, Listener.holds, Listener.blocked,
        Listener.takes, Listener.exiting, Listener.terminated] at hc hk hm hwake ht he ⊢
      refine ⟨?_, ?_, ?_, Or.inl rfl, Or.inl rfl, ?_, he, Or.inl rfl, ?_⟩ <;>
        simp only [State.setWorker, Listener.reserved, Listener.holds, Listener.exiting] <;> omega
    · -- with the mutex held here, the listener is not about to wait
      have hblock := Listener.blocked_le hwait
      have hself : 1 ≤ total Worker.holds s.workers := by
        have hle := le_total Worker.holds s.workers i
        rwa [hw] at hle
      simp only [hwait, if_false]
      refine ⟨?_, ?_, ?_, ?_, ht, ?_, he, ?_, ?_⟩ <;> simp only [State.setWorker] <;> omega
  | unlock =>
    obtain ⟨hc', ha', hh', hs', hz', hg'⟩ := moved hw .pop
    obtain ⟨hc, hk, hm, hwake, ht, ha, he, hr, haw⟩ := h
    simp only [Worker.counted, Worker.awake, Worker.holds, Worker.signals, Worker.sleeps,
      Worker.gone] at hc' ha' hh' hs' hz' hg'
    have hheld := s.idlersMutex.toNat_le
    refine ⟨?_, ?_, ?_, ?_, ht, ?_, he, ?_, ?_⟩ <;>
      simp only [State.setWorker, Bool.toNat_false] <;> omega
  | pop =>
    simp only
    split_ifs with hmay
    · exact h.exit hw _ (Or.inl (by simp [hmay])) rfl le_rfl rfl rfl le_rfl
    · exact h.move hw _ rfl le_rfl rfl rfl le_rfl rfl
  | queuePop =>
    simp only
    split_ifs with hnone hterm
    · exact h.move hw _ rfl le_rfl rfl rfl le_rfl rfl
    · have hopen : s.queueTerminated.toNat = 0 := by simp [hterm]
      have hfinished := s.listener.finished_le
      obtain ⟨hc', ha', hh', hs', hz', hg'⟩ := moved hw .asleep
      obtain ⟨hc, hk, hm, hwake, ht, ha, he, hr, haw⟩ := h
      simp only [Worker.counted, Worker.awake, Worker.holds, Worker.signals, Worker.sleeps,
        Worker.gone]
        at hc' ha' hh' hs' hz' hg'
      refine ⟨?_, ?_, ?_, ?_, ht, ?_, he, ?_, ?_⟩ <;> simp only [State.setWorker] <;> omega
    · exact h.dequeue (Or.inl hw) hnone
  | asleep => exact h
  | woken =>
    simp only
    split_ifs with hnone
    · exact h.move hw _ rfl le_rfl rfl rfl le_rfl rfl
    · exact h.dequeue (Or.inr hw) hnone
  | readTerminated =>
    simp only
    split_ifs with hterm
    · exact h.exit hw _ (Or.inr (by simp [hterm])) rfl le_rfl rfl rfl le_rfl
    · exact h.move hw _ rfl le_rfl rfl rfl le_rfl rfl
  | serve csd ptrans => exact h.move hw _ rfl le_rfl rfl rfl le_rfl rfl
  | exited isIdle lastPtrans => exact h

/-- The listener moves on, and has no more than it had. -/
theorem Counts.listen (h : Counts s) {l₀ : Listener} (hl : s.listener = l₀) (l : Listener)
    (hreserved : l.reserved ≤ l₀.reserved) (hholds : l.holds = l₀.holds)
    (hblocked : l.blocked = 0 ∨ s.idlers = 0) (htakes : l.takes = 0 ∨ 0 < s.idlers)
    (hterminated : l.terminated = l₀.terminated) (hfinished : l.finished ≤ l₀.finished)
    (hexits : l₀.reserved + l₀.exiting ≤ l.reserved + l.exiting) :
    Counts { s with listener := l } := by
  subst hl
  obtain ⟨hc, hk, hm, hwake, ht, ha, he, hr, haw⟩ := h
  exact ⟨by simp only; omega, by simp only; omega, by simp only; omega, by simp only; omega, htakes,
    ha, by simp only; omega, by simp only; omega, haw⟩

theorem Counts.wakeListener (h : Counts s) :
    Counts { s with listener := if s.listener = .waiting then .woken else s.listener } := by
  by_cases hwait : s.listener = .waiting
  · rw [if_pos hwait]
    exact h.listen hwait _ le_rfl rfl (Or.inl rfl) (Or.inl rfl) rfl le_rfl le_rfl
  · rw [if_neg hwait]
    exact h

/-- The listener takes the mutex, when it is free. -/
theorem Counts.acquire (h : Counts s) (hl : s.listener = .lock ∨ s.listener = .woken)
    (hfree : s.idlersMutex = false) :
    Counts { s with listener := .check, idlersMutex := true } := by
  obtain ⟨hc, hk, hm, hwake, ht, ha, he, hr, haw⟩ := h
  rcases hl with hl | hl <;>
  · simp only [hl, hfree, Listener.reserved, Listener.holds, Listener.exiting, Listener.terminated,
      Bool.toNat_false] at hc hk hm he
    exact ⟨hc, hk, by simp only [Listener.holds, Bool.toNat_true]; omega, Or.inl rfl, Or.inl rfl,
      ha, he, Or.inl rfl, haw⟩

/-- The listener lets go of the mutex. -/
theorem Counts.release (h : Counts s) {l₀ : Listener} (hl : s.listener = l₀) (l : Listener)
    (hholds : l₀.holds = 1) (hreserved : l.reserved ≤ l₀.reserved) (hfree : l.holds = 0)
    (hblocked : l.blocked ≤ l₀.blocked) (htakes : l.takes ≤ l₀.takes)
    (hterminated : l.terminated = l₀.terminated) (hfinished : l.finished ≤ l₀.finished)
    (hexits : l₀.reserved + l₀.exiting ≤ l.reserved + l.exiting) :
    Counts { s with listener := l, idlersMutex := false } := by
  subst hl
  obtain ⟨hc, hk, hm, hwake, ht, ha, he, hr, haw⟩ := h
  have hheld := s.idlersMutex.toNat_le
  exact ⟨by simp only; omega, by simp only; omega, by simp only [Bool.toNat_false]; omega,
    by simp only; omega, by simp only; omega, ha, by simp only; omega, by simp only; omega, haw⟩

/-- A broadcast leaves no worker asleep. -/
theorem sleeps_wakeAll : total Worker.sleeps s.wakeAll.workers = 0 := by
  refine Finset.sum_eq_zero fun i _ => ?_
  simp only [State.wakeAll]
  cases s.workers i <;> rfl

/-- A count that makes no difference between a worker asleep and one that wakes up. -/
theorem total_wakeAll (f : Worker → ℕ) (hf : f .woken = f .asleep) :
    total f s.wakeAll.workers = total f s.workers := by
  refine total_congr fun i => ?_
  simp only [State.wakeAll]
  cases s.workers i with
  | asleep => exact hf
  | _ => rfl

theorem Counts.wakeAll (h : Counts s) : Counts s.wakeAll := by
  have hawake : total Worker.awake s.workers ≤ total Worker.awake s.wakeAll.workers := by
    refine Finset.sum_le_sum fun i _ => ?_
    simp only [State.wakeAll]
    cases s.workers i with
    | asleep => exact Nat.zero_le _
    | _ => exact le_rfl
  obtain ⟨hc, hk, hm, hwake, ht, ha, he, hr, haw⟩ := h
  refine ⟨?_, ?_, ?_, ?_, ht, ?_, he, Or.inr sleeps_wakeAll, ?_⟩
  · rw [total_wakeAll _ rfl]
    exact hc
  · rw [total_wakeAll _ rfl]
    exact hk
  · rw [total_wakeAll _ rfl]
    exact hm
  · rw [total_wakeAll _ rfl]
    exact hwake
  · rw [total_wakeAll _ rfl]
    exact ha
  · rw [total_wakeAll Worker.gone rfl]
    exact haw.imp id fun hle => hle.trans (Nat.add_le_add_right hawake _)

/-- With no worker asleep and none gone, all that are counted are awake. -/
theorem counted_le_awake (h : ¬ ∃ i, s.workers i = .asleep) :
    total Worker.counted s.workers ≤
      total Worker.awake s.workers + total Worker.gone s.workers := by
  refine total_le_add fun i => ?_
  cases hw : s.workers i with
  | asleep => exact absurd ⟨i, hw⟩ h
  | exited isIdle _ => cases isIdle <;> simp [Worker.counted, Worker.awake, Worker.gone]
  | _ => simp [Worker.counted, Worker.awake]

/-- **A socket is pushed**, and there is a worker awake or gone for each that is in the queue. -/
theorem Counts.push (h : Counts s) {csd : Socket} {ptrans : Pool}
    (hl : s.listener = .push csd ptrans) (wakes : Option (Fin n)) :
    Counts (s.listenerStep none wakes) := by
  simp only [State.listenerStep, hl]
  have hnone := h
  obtain ⟨hc, hk, hm, hwake, ht, ha, he, hr, haw⟩ := h
  simp only [hl, Listener.reserved, Listener.holds, Listener.exiting, Listener.terminated]
    at hc hk hm he
  cases wakes with
  | some i =>
    simp only
    by_cases hw : s.workers i = .asleep
    · rw [if_pos hw]
      obtain ⟨hc', ha', hh', hs', hz', hg'⟩ := moved hw .woken
      simp only [Worker.counted, Worker.awake, Worker.holds, Worker.signals, Worker.sleeps,
        Worker.gone]
        at hc' ha' hh' hs' hz' hg'
      refine ⟨?_, ?_, ?_, Or.inl rfl, Or.inl rfl, ?_, he, Or.inl rfl, ?_⟩ <;>
        simp only [State.setWorker, State.enqueue, Listener.reserved, Listener.holds,
          Listener.exiting] <;> omega
    · rw [if_neg hw]
      exact hnone
  | none =>
    simp only
    by_cases hasleep : ∃ i, s.workers i = .asleep
    · rw [if_pos hasleep]
      exact hnone
    · rw [if_neg hasleep]
      have hall := counted_le_awake hasleep
      refine ⟨?_, ?_, ?_, Or.inl rfl, Or.inl rfl, ?_, he, Or.inl rfl, ?_⟩ <;>
        simp only [State.enqueue, Listener.reserved, Listener.holds, Listener.exiting] <;> omega

theorem Counts.listenerStep (h : Counts s) (csd : Option Socket) (wakes : Option (Fin n)) :
    Counts (s.listenerStep csd wakes) := by
  cases hl : s.listener with
  | push csd' ptrans =>
    have hpush := h.push hl wakes
    simp only [State.listenerStep, hl] at hpush ⊢
    exact hpush
  | top haveIdleWorker ptrans =>
    simp only [State.listenerStep, hl]
    split_ifs with hmay hhave
    · exact h.listen hl _ (Nat.zero_le _) rfl (Or.inl rfl) (Or.inl rfl) rfl le_rfl
        (Listener.reserved_le _)
    · subst hhave
      exact h.listen hl _ le_rfl rfl (Or.inl rfl) (Or.inl rfl) rfl le_rfl le_rfl
    · rw [Bool.not_eq_true] at hhave
      subst hhave
      exact h.listen hl _ le_rfl rfl (Or.inl rfl) (Or.inl rfl) rfl le_rfl le_rfl
  | readIdlers =>
    simp only [State.listenerStep, hl]
    split_ifs with hzero
    · exact h.listen hl _ le_rfl rfl (Or.inl rfl) (Or.inl rfl) rfl le_rfl le_rfl
    · exact h.listen hl _ le_rfl rfl (Or.inl rfl) (Or.inr (Nat.pos_of_ne_zero hzero)) rfl
        le_rfl le_rfl
  | lock =>
    simp only [State.listenerStep, hl]
    split_ifs with hheld
    · exact h
    · exact h.acquire (Or.inl hl) (by simpa using hheld)
  | check =>
    simp only [State.listenerStep, hl]
    split_ifs with hzero
    · exact h.listen hl _ le_rfl rfl (Or.inr hzero) (Or.inl rfl) rfl le_rfl le_rfl
    · exact h.listen hl _ le_rfl rfl (Or.inl rfl) (Or.inr (Nat.pos_of_ne_zero hzero)) rfl
        le_rfl le_rfl
  | block =>
    simp only [State.listenerStep, hl]
    exact h.release hl _ rfl le_rfl rfl le_rfl le_rfl rfl le_rfl le_rfl
  | waiting =>
    simp only [State.listenerStep, hl]
    exact h
  | woken =>
    simp only [State.listenerStep, hl]
    split_ifs with hheld
    · exact h
    · exact h.acquire (Or.inr hl) (by simpa using hheld)
  | unlock =>
    simp only [State.listenerStep, hl]
    exact h.release hl _ rfl le_rfl rfl le_rfl le_rfl rfl le_rfl le_rfl
  | decIdlers =>
    simp only [State.listenerStep, hl]
    obtain ⟨hc, hk, hm, hwake, ht, ha, he, hr, haw⟩ := h
    simp only [hl, Listener.reserved, Listener.holds, Listener.takes, Listener.exiting,
      Listener.terminated] at hc hk hm ht he
    refine ⟨?_, ?_, hm, Or.inl rfl, Or.inl rfl, ha, he, Or.inl rfl, haw⟩
    · simp only [Listener.reserved]
      omega
    · simp only [Listener.reserved, Listener.exiting]
      omega
  | readPools =>
    simp only [State.listenerStep, hl]
    split
    · exact h.listen hl _ le_rfl rfl (Or.inl rfl) (Or.inl rfl) rfl le_rfl le_rfl
    · exact h.listen hl _ le_rfl rfl (Or.inl rfl) (Or.inl rfl) rfl le_rfl le_rfl
  | readNext firstPool =>
    simp only [State.listenerStep, hl]
    exact h.listen hl _ le_rfl rfl (Or.inl rfl) (Or.inl rfl) rfl le_rfl le_rfl
  | casPools firstPool next =>
    simp only [State.listenerStep, hl]
    split_ifs
    · exact (h.listen hl (.readTerminated (some firstPool)) le_rfl rfl (Or.inl rfl) (Or.inl rfl)
        rfl le_rfl le_rfl).pools next s.next
    · exact h.listen hl _ le_rfl rfl (Or.inl rfl) (Or.inl rfl) rfl le_rfl le_rfl
  | readTerminated recycledPool =>
    simp only [State.listenerStep, hl]
    split_ifs
    · exact h.listen hl _ (Nat.zero_le _) rfl (Or.inl rfl) (Or.inl rfl) rfl le_rfl le_rfl
    · exact h.listen hl _ le_rfl rfl (Or.inl rfl) (Or.inl rfl) rfl le_rfl le_rfl
  | accept ptrans =>
    simp only [State.listenerStep, hl]
    have htop : ∀ pool, Counts { s with listener := .top true (some pool) } := fun pool =>
      h.listen hl _ le_rfl rfl (Or.inl rfl) (Or.inl rfl) rfl le_rfl le_rfl
    have hpush : ∀ csd pool, Counts { s with listener := .push csd pool } := fun csd pool =>
      h.listen hl _ le_rfl rfl (Or.inl rfl) (Or.inl rfl) rfl le_rfl le_rfl
    by_cases hmay : s.listenerMayExit = true
    · rw [if_pos hmay]
      exact h.listen hl _ (Nat.zero_le _) rfl (Or.inl rfl) (Or.inl rfl) rfl le_rfl le_rfl
    · rw [if_neg hmay]
      cases csd with
      | some csd => exact (hpush csd _).made _ _
      | none => exact (htop _).made _ s.accepted
  | term ptrans =>
    simp only [State.listenerStep, hl]
    obtain ⟨hc, hk, hm, hwake, ht, ha, he, hr, haw⟩ := h
    simp only [hl, Listener.reserved, Listener.holds, Listener.exiting, Listener.terminated]
    at hc hk hm he
    refine ⟨hc, ?_, hm, Or.inl rfl, Or.inl rfl, ?_, rfl, Or.inl rfl, haw⟩
    · simp only [Listener.exiting]
      omega
    · simp only [Bool.toNat_true]
      omega
  | interrupt ptrans =>
    simp only [State.listenerStep, hl]
    obtain ⟨hc, hk, hm, hwake, ht, ha, he, hr, haw⟩ := h.wakeAll
    have hl' : s.wakeAll.listener = .interrupt ptrans := hl
    rw [hl'] at hc hk hm he
    exact ⟨hc, hk, hm, Or.inl rfl, Or.inl rfl, ha, he, Or.inr sleeps_wakeAll, haw⟩
  | exited ptrans =>
    simp only [State.listenerStep, hl]
    exact h

theorem Counts.wakeWorker (h : Counts s) (i : Fin n) :
    Counts (s.setWorker i (s.workers i).wake) := by
  cases hw : s.workers i with
  | asleep => exact h.move hw _ rfl (Nat.zero_le _) rfl rfl (Nat.zero_le _) rfl
  | _ => exact h.move hw _ rfl le_rfl rfl rfl le_rfl rfl

theorem Counts.step (h : Counts s) (act : Act n) : Counts (s.step act) := by
  cases act with
  | worker i => exact h.workerStep i
  | listener csd wakes => exact h.listenerStep csd wakes
  | wakeWorker i => exact h.wakeWorker i
  | wakeListener => exact h.wakeListener
  | stopListener =>
    exact ⟨h.counted, h.known, h.mutex, h.wakeup, h.taken, h.alive, h.ended,
      h.roused, h.awake⟩
  | infoTerm =>
    simp only [State.step]
    by_cases hmutex : s.idlersMutex = true
    · rw [if_pos hmutex]
      exact h
    · rw [if_neg hmutex]
      have hwake := h.wakeListener
      exact ⟨hwake.counted, hwake.known, hwake.mutex, hwake.wakeup, hwake.taken, hwake.alive,
        hwake.ended, hwake.roused, hwake.awake⟩
  | stopWorkers =>
    exact ⟨h.counted, h.known, h.mutex, h.wakeup, h.taken, Or.inr (by simp [State.step]), h.ended,
      h.roused, Or.inl (by simp [State.step])⟩
  | interruptAll => exact h.wakeAll

end Fdqueue

end Httpd
