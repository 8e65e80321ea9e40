/-
  The sockets: each one that was accepted is popped once, in order.
-/
import Cnam.Lib.Cyclic
import Cnam.Httpd.FdqueueRuns

namespace Httpd

namespace Fdqueue

variable {n : ℕ} {s s' : State n}

/-- The elements in the queue, from the one that is popped next. -/
def State.queue (s : State n) : List Elem := Cyclic.read n s.data s.out s.nelts

/-- What the listener is about to push. -/
def Listener.pushing : Listener → List Elem
  | push csd ptrans => [⟨csd, ptrans⟩]
  | _ => []

/-! ## The ring -/

/-- The indexes of the queue fit the number of its elements. -/
structure Ring (s : State n) : Prop where
  room : s.nelts ≤ n
  out : s.out = s.out % n
  inn : s.inn = (s.out + s.nelts) % n

theorem advance_eq {pos : ℕ} (h : pos < n) : advance n pos = (pos + 1) % n := by
  unfold advance
  split_ifs with hlast
  · obtain rfl : n = pos + 1 := by omega
    rw [Nat.mod_self, Nat.sub_self]
  · rw [Nat.mod_eq_of_lt (by omega)]

theorem Ring.enqueue (h : Ring s) (hroom : s.nelts < n) (elem : Elem) : Ring (s.enqueue elem) := by
  refine ⟨hroom, h.out, ?_⟩
  have hlt : s.inn < n := by
    rw [h.inn]
    exact Nat.mod_lt _ (by omega)
  change advance n s.inn = (s.out + (s.nelts + 1)) % n
  rw [advance_eq hlt, h.inn, Nat.mod_add_mod, Nat.add_assoc]

/-- **A push** puts the element behind the others. -/
theorem Ring.queue_enqueue (h : Ring s) (hroom : s.nelts < n) (elem : Elem) :
    (s.enqueue elem).queue = s.queue ++ [elem] := by
  have hwrite : Function.update s.data s.inn elem =
      Cyclic.write n s.data (s.out + s.nelts) [elem] := by
    rw [h.inn]
    rfl
  have hkept : Cyclic.read n (Cyclic.write n s.data (s.out + s.nelts) [elem]) s.out s.nelts =
      s.queue := Cyclic.read_write_disjoint le_rfl (by simp only [List.length_singleton]; omega)
  have hnew : Cyclic.read n (Cyclic.write n s.data (s.out + s.nelts) [elem]) (s.out + s.nelts) 1 =
      [elem] := Cyclic.read_write_self s.data _ (by simp only [List.length_singleton]; omega)
  change Cyclic.read n (Function.update s.data s.inn elem) s.out (s.nelts + 1) = _
  rw [hwrite, Cyclic.read_append, hkept, hnew]

theorem Ring.dequeue (h : Ring s) (hsome : s.nelts ≠ 0) (i : Fin n) : Ring (s.dequeue i) := by
  have hroom := h.room
  have hlt : s.out < n := by
    rw [h.out]
    exact Nat.mod_lt _ (by omega)
  refine ⟨(Nat.sub_le _ _).trans hroom, ?_, ?_⟩
  · change advance n s.out = advance n s.out % n
    rw [advance_eq hlt, Nat.mod_mod]
  · change s.inn = (advance n s.out + (s.nelts - 1)) % n
    have hnext : s.out + 1 + (s.nelts - 1) = s.out + s.nelts := by omega
    rw [advance_eq hlt, Nat.mod_add_mod, hnext, h.inn]

/-- **A pop** takes the first element. -/
theorem Ring.queue_dequeue (h : Ring s) (hsome : s.nelts ≠ 0) (i : Fin n) :
    s.queue = s.data s.out :: (s.dequeue i).queue := by
  have hroom := h.room
  have hlt : s.out < n := by
    rw [h.out]
    exact Nat.mod_lt _ (by omega)
  obtain ⟨k, hk⟩ := Nat.exists_eq_succ_of_ne_zero hsome
  change Cyclic.read n s.data s.out s.nelts =
    _ :: Cyclic.read n s.data (advance n s.out) (s.nelts - 1)
  rw [hk, advance_eq hlt, Cyclic.read_mod, Nat.succ_sub_one, Cyclic.read, ← h.out]

/-! ## The order -/

/-- What was accepted was popped, is in the queue or is about to be pushed. -/
structure Fifo (s : State n) : Prop where
  ring : Ring s
  order : s.accepted = s.popped ++ s.queue.map Elem.sd ++ s.listener.pushing.map Elem.sd

/-- The fields that are about sockets. -/
def State.sockets (s : State n) :=
  (s.data, s.nelts, s.inn, s.out, s.accepted, s.popped, s.listener.pushing)

theorem Fifo.start : Fifo (State.start n) := ⟨⟨Nat.zero_le n, by simp [State.start], by
  simp [State.start]⟩, rfl⟩

theorem Fifo.same (h : Fifo s) (hsame : s'.sockets = s.sockets) : Fifo s' := by
  simp only [State.sockets, Prod.mk.injEq] at hsame
  obtain ⟨hdata, hnelts, hinn, hout, haccepted, hpopped, hpushing⟩ := hsame
  obtain ⟨⟨hroom, hout', hinn'⟩, horder⟩ := h
  refine ⟨⟨?_, ?_, ?_⟩, ?_⟩
  · rwa [hnelts]
  · rwa [hout]
  · rwa [hinn, hout, hnelts]
  · rw [haccepted, hpopped, hpushing, State.queue, hdata, hout, hnelts]
    exact horder

theorem pushing_wake (l : Listener) :
    (if l = .waiting then Listener.woken else l).pushing = l.pushing := by
  split_ifs with hwait
  · rw [hwait]
    rfl
  · rfl

theorem sockets_wakeListener :
    State.sockets { s with
      listener := if s.listener = .waiting then .woken else s.listener } = s.sockets := by
  simp only [State.sockets, pushing_wake]

theorem Fifo.dequeue (h : Fifo s) (hsome : s.nelts ≠ 0) (i : Fin n) : Fifo (s.dequeue i) := by
  refine ⟨h.ring.dequeue hsome i, ?_⟩
  have horder := h.order
  rw [h.ring.queue_dequeue hsome i] at horder
  change s.accepted = s.popped ++ [(s.data s.out).sd] ++ _ ++ s.listener.pushing.map Elem.sd
  rw [horder]
  simp

/-- What a worker does to the sockets, if anything, is to pop one. -/
theorem workerStep_sockets (s : State n) (i : Fin n) :
    (s.workerStep i).sockets = s.sockets ∨ s.nelts ≠ 0 ∧
      (s.workers i = .queuePop ∨ s.workers i = .woken) ∧ s.workerStep i = s.dequeue i := by
  unfold State.workerStep
  cases hw : s.workers i with
  | start lastPtrans =>
    refine Or.inl ?_
    simp only
    split_ifs
    · rfl
    · cases lastPtrans <;> rfl
  | casPools pool next =>
    refine Or.inl ?_
    simp only
    split_ifs <;> rfl
  | casIdlers prevIdlers =>
    refine Or.inl ?_
    simp only
    split_ifs <;> rfl
  | lock =>
    refine Or.inl ?_
    simp only
    split_ifs <;> rfl
  | signal => exact Or.inl sockets_wakeListener
  | pop =>
    refine Or.inl ?_
    simp only
    split_ifs <;> rfl
  | queuePop =>
    simp only
    split_ifs with hnone
    · exact Or.inl rfl
    · exact Or.inl rfl
    · exact Or.inr ⟨hnone, Or.inl trivial, rfl⟩
  | woken =>
    simp only
    split_ifs with hnone
    · exact Or.inl rfl
    · exact Or.inr ⟨hnone, Or.inr trivial, rfl⟩
  | _ => exact Or.inl rfl

/-- **There is room** for what the listener is about to push: it has reserved a worker. -/
theorem Counts.room (h : Counts s) : s.nelts + s.listener.reserved ≤ n := by
  have hle := Threads.total_le (f := Worker.counted) (k := 1) (by
    intro w
    cases w with
    | exited isIdle lastPtrans => cases isIdle <;> simp [Worker.counted]
    | _ => simp [Worker.counted]) s.workers
  have hcounted := h.counted
  omega

theorem Fifo.push (h : Fifo s) (hcounts : Counts s) {csd : Socket} {ptrans : Pool}
    (hl : s.listener = .push csd ptrans) (wakes : Option (Fin n)) :
    Fifo (s.listenerStep none wakes) := by
  have hroom := hcounts.room
  rw [hl] at hroom
  have hpushed : Fifo { s.enqueue ⟨csd, ptrans⟩ with listener := .top false none } := by
    have hring := h.ring.enqueue hroom ⟨csd, ptrans⟩
    refine ⟨⟨hring.room, hring.out, hring.inn⟩, ?_⟩
    have horder := h.order
    rw [hl] at horder
    change s.accepted = s.popped ++ (s.enqueue ⟨csd, ptrans⟩).queue.map Elem.sd ++ []
    rw [h.ring.queue_enqueue hroom, horder]
    simp [Listener.pushing]
  simp only [State.listenerStep, hl]
  cases wakes with
  | some i =>
    simp only
    split_ifs
    · exact hpushed.same rfl
    · exact h
  | none =>
    simp only
    split_ifs
    · exact h
    · exact hpushed

/-- What the listener does to the sockets is to push one or to accept one. -/
theorem Fifo.listenerStep (h : Fifo s) (hcounts : Counts s) (csd : Option Socket)
    (wakes : Option (Fin n)) : Fifo (s.listenerStep csd wakes) := by
  have hkeep : ∀ l : Listener, s.listener.pushing = [] → l.pushing = [] →
      Fifo { s with listener := l } := by
    intro l hl hl'
    refine h.same ?_
    simp only [State.sockets, hl, hl']
  cases hl : s.listener with
  | push csd' ptrans =>
    have hpush := h.push hcounts hl wakes
    simp only [State.listenerStep, hl] at hpush ⊢
    exact hpush
  | accept ptrans =>
    rw [hl] at hkeep
    simp only [State.listenerStep, hl]
    by_cases hmay : s.listenerMayExit = true
    · rw [if_pos hmay]
      exact hkeep _ rfl rfl
    · rw [if_neg hmay]
      cases csd with
      | none => exact (hkeep (.top true (some (ptrans.getD s.created))) rfl rfl).same rfl
      | some csd =>
        refine ⟨⟨h.ring.room, h.ring.out, h.ring.inn⟩, ?_⟩
        have horder := h.order
        rw [hl] at horder
        change s.accepted ++ [csd] = s.popped ++ s.queue.map Elem.sd ++ [csd]
        rw [horder]
        simp [Listener.pushing]
  | _ =>
    rw [hl] at hkeep
    simp only [State.listenerStep, hl]
    repeat' split
    all_goals first
      | exact h
      | exact hkeep _ rfl rfl
      | exact (hkeep _ rfl rfl).same rfl

theorem Fifo.step (h : Fifo s) (hcounts : Counts s) (act : Act n) : Fifo (s.step act) := by
  cases act with
  | worker i =>
    rcases workerStep_sockets s i with hsame | ⟨hsome, -, hpop⟩
    · exact h.same hsame
    · change Fifo (s.workerStep i)
      rw [hpop]
      exact h.dequeue hsome i
  | listener csd wakes => exact h.listenerStep hcounts csd wakes
  | wakeListener => exact h.same sockets_wakeListener
  | infoTerm =>
    simp only [State.step]
    by_cases hmutex : s.idlersMutex = true
    · rw [if_pos hmutex]
      exact h
    · rw [if_neg hmutex]
      exact (h.same sockets_wakeListener).same rfl
  | _ => exact h.same rfl

end Fdqueue

end Httpd
