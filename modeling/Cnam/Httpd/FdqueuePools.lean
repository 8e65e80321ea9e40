/-
  The pools: each one that was created is at one place, and the list of recycled pools is one,
  though only its head is ever compared.
-/
import Cnam.Lib.LinkedStack
import Cnam.Httpd.FdqueueSockets

namespace Httpd

namespace Fdqueue

open Threads LinkedStack

variable {n : ℕ} {s s' : State n} {nodes : List Pool}

/-- The pool that a worker has. -/
def Worker.ptrans : Worker → Option Pool
  | start lastPtrans => lastPtrans
  | readPools pool | linkPool pool _ | casPools pool _ => some pool
  | serve _ ptrans => some ptrans
  | exited _ lastPtrans => lastPtrans
  | _ => none

/-- The pool that the listener has. -/
def Listener.ptrans : Listener → Option Pool
  | top _ ptrans | accept ptrans | term ptrans | interrupt ptrans | exited ptrans => ptrans
  | readTerminated recycledPool => recycledPool
  | push _ ptrans => some ptrans
  | _ => none

/-- The one it has seen at the head of the list. -/
def Listener.firstPool : Listener → Option Pool
  | readNext firstPool | casPools firstPool _ => some firstPool
  | _ => none

/-- One that it would lose. -/
def Listener.spare : Listener → Option Pool
  | top false ptrans => ptrans
  | _ => none

/-- What a worker has stored, and in which pool. -/
def Worker.stored : Worker → Option (Pool × Option Pool)
  | casPools pool next => some (pool, next)
  | _ => none

/-- How often a pool is the one that is had. -/
def has (p : Pool) (ptrans : Option Pool) : ℕ := if ptrans = some p then 1 else 0

/-- How often a worker has the pool. -/
def Worker.owns (p : Pool) (w : Worker) : ℕ := has p w.ptrans

/-- The places of a pool. -/
def State.places (s : State n) (nodes : List Pool) (p : Pool) : ℕ :=
  nodes.count p + has p s.listener.ptrans + (s.queue.map Elem.p).count p +
    total (Worker.owns p) s.workers

/-- The list of recycled pools, and where each pool is. -/
structure Pools (s : State n) (nodes : List Pool) : Prop where
  chain : Chain s.next s.recycledPools nodes
  places : ∀ p, s.places nodes p = if p < s.created then 1 else 0
  fresh : s.listener.spare = none
  linked : ∀ i pool next, s.workers i = .casPools pool next → s.next pool = next
  first : ∀ firstPool, s.listener.firstPool = some firstPool → firstPool ∈ nodes
  next : ∀ firstPool next, s.listener = .casPools firstPool next → s.next firstPool = next

theorem Pools.start : Pools (State.start n) [] := by
  refine ⟨rfl, ?_, rfl, ?_, ?_, ?_⟩
  · intro p
    have hnone : total (Worker.owns p) (State.start n).workers = 0 :=
      Finset.sum_eq_zero fun i _ => rfl
    simp only [State.places, hnone]
    rfl
  · intro i pool next h
    cases h
  · intro firstPool h
    cases h
  · intro firstPool next h
    cases h

theorem Pools.places_le (h : Pools s nodes) (p : Pool) : s.places nodes p ≤ 1 := by
  rw [h.places p]
  split_ifs <;> omega

/-- **A pool that a worker has** is nowhere else. -/
theorem Pools.alone (h : Pools s nodes) {i : Fin n} {p : Pool}
    (hi : (s.workers i).ptrans = some p) :
    p ∉ nodes ∧ ∀ j, (s.workers j).ptrans = some p → j = i := by
  have hone := h.places_le p
  have hown : (s.workers i).owns p = 1 := if_pos hi
  have hle := le_total (Worker.owns p) s.workers i
  simp only [State.places, hown] at hone hle
  constructor
  · intro hmem
    have hcount : 0 < nodes.count p := List.count_pos_iff.2 hmem
    omega
  · intro j hj
    by_contra hne
    have hother : (s.workers j).owns p = 1 := if_pos hj
    have htwo := add_le_total (Worker.owns p) s.workers hne
    simp only [hown, hother] at htwo
    omega

/-- A worker moves on with the pool it has. -/
theorem Pools.move (h : Pools s nodes) {i : Fin n} {w : Worker} (hw : s.workers i = w) (w' : Worker)
    (hptrans : w'.ptrans = w.ptrans) (hcas : w'.stored = none) :
    Pools (s.setWorker i w') nodes := by
  subst hw
  refine ⟨h.chain, ?_, h.fresh, ?_, h.first, h.next⟩
  · intro p
    have hmoved := total_update (Worker.owns p) s.workers i w'
    refine Eq.trans ?_ (h.places p)
    simp only [Worker.owns, hptrans] at hmoved
    simp only [State.places, State.queue, State.setWorker]
    omega
  · intro j pool next hj
    simp only [State.setWorker] at hj ⊢
    by_cases hji : j = i
    · subst hji
      rw [Function.update_self] at hj
      rw [hj] at hcas
      cases hcas
    · rw [Function.update_of_ne hji] at hj
      exact h.linked j pool next hj

/-- The fields that are not about pools may change. -/
theorem Pools.same (h : Pools s nodes) (hpools : s'.recycledPools = s.recycledPools)
    (hnext : s'.next = s.next) (hcreated : s'.created = s.created)
    (hlistener : s'.listener = s.listener) (hworkers : s'.workers = s.workers)
    (hqueue : s'.queue = s.queue) : Pools s' nodes := by
  refine ⟨?_, ?_, ?_, ?_, ?_, ?_⟩
  · rw [hnext, hpools]
    exact h.chain
  · intro p
    rw [State.places, hlistener, hqueue, hworkers, hcreated]
    exact h.places p
  · rw [hlistener]
    exact h.fresh
  · rw [hworkers, hnext]
    exact h.linked
  · rw [hlistener]
    exact h.first
  · rw [hlistener, hnext]
    exact h.next

/-- The listener moves on with the pool it has. -/
theorem Pools.listen (h : Pools s nodes) {l₀ : Listener} (hl : s.listener = l₀) (l : Listener)
    (hptrans : l.ptrans = l₀.ptrans) (hfresh : l.spare = none)
    (hfirst : l.firstPool = none) : Pools { s with listener := l } nodes := by
  subst hl
  refine ⟨h.chain, ?_, hfresh, h.linked, ?_, ?_⟩
  · intro p
    rw [← h.places p]
    simp only [State.places, State.queue, hptrans]
  · intro firstPool hfirstPool
    rw [hfirst] at hfirstPool
    cases hfirstPool
  · intro firstPool next hcas
    simp only at hcas
    rw [hcas] at hfirst
    cases hfirst

theorem Pools.wakeListener (h : Pools s nodes) :
    Pools { s with listener := if s.listener = .waiting then .woken else s.listener } nodes := by
  by_cases hwait : s.listener = .waiting
  · rw [if_pos hwait]
    exact h.listen hwait _ rfl rfl rfl
  · rw [if_neg hwait]
    exact h

/-! ## The workers -/

/-- **The next pool is stored** in one that nobody else has. -/
theorem Pools.linkPool (h : Pools s nodes) {i : Fin n} {pool : Pool} {next : Option Pool}
    (hw : s.workers i = .linkPool pool next) :
    Pools { s.setWorker i (.casPools pool next) with
      next := Function.update s.next pool next } nodes := by
  obtain ⟨hmem, halone⟩ := h.alone (i := i) (p := pool) (by rw [hw]; rfl)
  refine ⟨h.chain.update hmem next, ?_, h.fresh, ?_, h.first, ?_⟩
  · intro p
    have hmoved := total_update (Worker.owns p) s.workers i (.casPools pool next)
    refine Eq.trans ?_ (h.places p)
    rw [hw] at hmoved
    have hsame : (Worker.casPools pool next).owns p = (Worker.linkPool pool next).owns p := rfl
    simp only [State.places, State.queue, State.setWorker]
    omega
  · intro j pool' next' hj
    simp only [State.setWorker] at hj ⊢
    by_cases hji : j = i
    · subst hji
      rw [Function.update_self] at hj
      cases hj
      exact Function.update_self ..
    · rw [Function.update_of_ne hji] at hj
      have hne : pool' ≠ pool := by
        rintro rfl
        exact hji (halone j (by rw [hj]; rfl))
      rw [Function.update_of_ne hne]
      exact h.linked j pool' next' hj
  · intro firstPool next' hcas
    have hne : firstPool ≠ pool := by
      rintro rfl
      have hlist : s.listener = .casPools firstPool next' := hcas
      exact hmem (h.first firstPool (by rw [hlist]; rfl))
    simp only
    rw [Function.update_of_ne hne]
    exact h.next firstPool next' hcas

/-- **A pool is recycled**: it is the head of the list now. -/
theorem Pools.push (h : Pools s nodes) {i : Fin n} {pool : Pool} {next : Option Pool}
    (hw : s.workers i = .casPools pool next) (hsame : s.recycledPools = next) :
    Pools { s.setWorker i .readIdlers with recycledPools := some pool } (pool :: nodes) := by
  have hnext := h.linked i pool next hw
  refine ⟨h.chain.push (hnext.trans hsame.symm), ?_, h.fresh, ?_, ?_, h.next⟩
  · intro p
    have hmoved := total_update (Worker.owns p) s.workers i .readIdlers
    refine Eq.trans ?_ (h.places p)
    have hcount : (pool :: nodes).count p = nodes.count p + (Worker.casPools pool next).owns p := by
      rw [List.count_cons, Worker.owns, Worker.ptrans, has]
      simp only [beq_iff_eq, Option.some.injEq]
    have hnone : Worker.readIdlers.owns p = 0 := rfl
    rw [hw] at hmoved
    simp only [State.places, State.queue, State.setWorker, hcount]
    omega
  · intro j pool' next' hj
    simp only [State.setWorker] at hj ⊢
    by_cases hji : j = i
    · subst hji
      rw [Function.update_self] at hj
      cases hj
    · rw [Function.update_of_ne hji] at hj
      exact h.linked j pool' next' hj
  · intro firstPool hfirst
    exact List.mem_cons_of_mem _ (h.first firstPool hfirst)

/-- **A worker pops a pool** with the socket. -/
theorem Pools.dequeue (h : Pools s nodes) (hring : Ring s) (hsome : s.nelts ≠ 0) {i : Fin n}
    (hw : s.workers i = .queuePop ∨ s.workers i = .woken) : Pools (s.dequeue i) nodes := by
  have hptrans : (s.workers i).ptrans = none := by
    rcases hw with hw | hw <;> rw [hw] <;> rfl
  refine ⟨h.chain, ?_, h.fresh, ?_, h.first, h.next⟩
  · intro p
    have hmoved := total_update (Worker.owns p) s.workers i
      (.serve (s.data s.out).sd (s.data s.out).p)
    refine Eq.trans ?_ (h.places p)
    have hcount : (s.queue.map Elem.p).count p = ((s.dequeue i).queue.map Elem.p).count p +
        (Worker.serve (s.data s.out).sd (s.data s.out).p).owns p := by
      rw [hring.queue_dequeue hsome i, List.map_cons, List.count_cons, Worker.owns, Worker.ptrans,
        has]
      simp only [beq_iff_eq, Option.some.injEq]
    have hnone : (s.workers i).owns p = 0 := by
      rw [Worker.owns, hptrans]
      rfl
    change nodes.count p + has p s.listener.ptrans + ((s.dequeue i).queue.map Elem.p).count p +
      total (Worker.owns p) (Function.update s.workers i _) = s.places nodes p
    simp only [State.places, hcount]
    omega
  · intro j pool next hj
    change Function.update s.workers i _ j = _ at hj
    by_cases hji : j = i
    · subst hji
      rw [Function.update_self] at hj
      cases hj
    · rw [Function.update_of_ne hji] at hj
      exact h.linked j pool next hj

theorem Pools.workerStep (h : Pools s nodes) (hring : Ring s) (i : Fin n) :
    ∃ nodes', Pools (s.workerStep i) nodes' := by
  have hmove : ∀ {w : Worker} (w' : Worker), s.workers i = w → w'.ptrans = w.ptrans →
      w'.stored = none → ∃ nodes', Pools (s.setWorker i w') nodes' := by
    intro w w' hw hptrans hcas
    exact ⟨nodes, h.move hw w' hptrans hcas⟩
  unfold State.workerStep
  cases hw : s.workers i with
  | linkPool pool next => exact ⟨nodes, h.linkPool hw⟩
  | casPools pool next =>
    simp only
    split_ifs with hsame
    · exact ⟨pool :: nodes, h.push hw hsame⟩
    · exact hmove _ hw rfl rfl
  | start lastPtrans =>
    simp only
    split_ifs
    · exact hmove _ hw rfl rfl
    · cases lastPtrans with
      | none => exact hmove _ hw rfl rfl
      | some pool => exact hmove _ hw rfl rfl
  | casIdlers prevIdlers =>
    simp only
    split_ifs
    · exact ⟨nodes, (h.move hw .lock rfl rfl).same rfl rfl rfl rfl rfl rfl⟩
    · exact ⟨nodes, (h.move hw .pop rfl rfl).same rfl rfl rfl rfl rfl rfl⟩
    · exact hmove _ hw rfl rfl
  | lock =>
    simp only
    split_ifs
    · exact ⟨nodes, h⟩
    · exact ⟨nodes, (h.move hw .signal rfl rfl).same rfl rfl rfl rfl rfl rfl⟩
  | signal => exact ⟨nodes, (h.move hw .unlock rfl rfl).wakeListener⟩
  | unlock => exact ⟨nodes, (h.move hw .pop rfl rfl).same rfl rfl rfl rfl rfl rfl⟩
  | pop =>
    simp only
    split_ifs
    · exact hmove _ hw rfl rfl
    · exact hmove _ hw rfl rfl
  | queuePop =>
    simp only
    split_ifs with hnone
    · exact hmove _ hw rfl rfl
    · exact hmove _ hw rfl rfl
    · exact ⟨nodes, h.dequeue hring hnone (Or.inl hw)⟩
  | woken =>
    simp only
    split_ifs with hnone
    · exact hmove _ hw rfl rfl
    · exact ⟨nodes, h.dequeue hring hnone (Or.inr hw)⟩
  | readTerminated =>
    simp only
    split_ifs
    · exact hmove _ hw rfl rfl
    · exact hmove _ hw rfl rfl
  | readPools pool => exact hmove _ hw rfl rfl
  | readIdlers => exact hmove _ hw rfl rfl
  | serve csd ptrans => exact hmove _ hw rfl rfl
  | asleep => exact ⟨nodes, h⟩
  | exited isIdle lastPtrans => exact ⟨nodes, h⟩

/-! ## The listener -/

theorem Pools.readHead (h : Pools s nodes) (hl : s.listener = .readPools) {firstPool : Pool}
    (hhead : s.recycledPools = some firstPool) :
    Pools { s with listener := .readNext firstPool } nodes := by
  have hchain := h.chain
  rw [hhead] at hchain
  obtain ⟨rest, rfl, -⟩ := hchain.pop
  refine ⟨h.chain, ?_, rfl, h.linked, ?_, ?_⟩
  · intro p
    refine Eq.trans ?_ (h.places p)
    simp only [State.places, State.queue, hl, Listener.ptrans]
  · intro firstPool' hfirst
    cases hfirst
    exact List.mem_cons_self
  · intro firstPool' next hcas
    cases hcas

theorem Pools.readNext (h : Pools s nodes) {firstPool : Pool}
    (hl : s.listener = .readNext firstPool) :
    Pools { s with listener := .casPools firstPool (s.next firstPool) } nodes := by
  refine ⟨h.chain, ?_, rfl, h.linked, ?_, ?_⟩
  · intro p
    refine Eq.trans ?_ (h.places p)
    simp only [State.places, State.queue, hl, Listener.ptrans]
  · intro firstPool' hfirst
    refine h.first firstPool' ?_
    rw [hl]
    exact hfirst
  · intro firstPool' next hcas
    cases hcas
    rfl

/-- **A recycled pool is popped**: what was read as its next one still is. -/
theorem Pools.pop (h : Pools s nodes) {firstPool : Pool} {next : Option Pool}
    (hl : s.listener = .casPools firstPool next) (hsame : s.recycledPools = some firstPool) :
    ∃ rest, nodes = firstPool :: rest ∧ Pools { s with
      recycledPools := next, listener := .readTerminated (some firstPool) } rest := by
  have hchain := h.chain
  rw [hsame] at hchain
  obtain ⟨rest, rfl, hrest⟩ := hchain.pop
  rw [h.next firstPool next hl] at hrest
  refine ⟨rest, rfl, hrest, ?_, rfl, h.linked, ?_, ?_⟩
  · intro p
    refine Eq.trans ?_ (h.places p)
    simp only [State.places, State.queue, hl, Listener.ptrans, List.count_cons, has, beq_iff_eq,
      Option.some.injEq, reduceCtorEq, if_false]
    omega
  · intro firstPool' hfirst
    cases hfirst
  · intro firstPool' next' hcas
    cases hcas

/-- **A pool is created**, if there was none to recycle. -/
theorem Pools.create (h : Pools s nodes) {ptrans : Option Pool} (hl : s.listener = .accept ptrans)
    (l : Listener) (hptrans : l.ptrans = some (ptrans.getD s.created))
    (hfresh : l.spare = none) (hfirst : l.firstPool = none) :
    Pools { s with
      listener := l
      created := if ptrans = none then s.created + 1 else s.created } nodes := by
  cases ptrans with
  | some pool =>
    exact (h.listen hl l hptrans hfresh hfirst).same rfl rfl rfl rfl rfl rfl
  | none =>
    refine ⟨h.chain, ?_, hfresh, h.linked, ?_, ?_⟩
    · intro p
      have hplaces := h.places p
      simp only [State.places, State.queue, hl, Listener.ptrans, has, reduceCtorEq, if_false]
        at hplaces
      simp only [State.places, State.queue, hptrans, has, Option.getD_none, Option.some.injEq,
        eq_self, if_true]
      rcases Nat.lt_trichotomy p s.created with hp | rfl | hp
      · rw [if_pos hp] at hplaces
        rw [if_neg hp.ne', if_pos (Nat.lt_succ_of_lt hp)]
        exact hplaces
      · rw [if_neg (Nat.lt_irrefl _)] at hplaces
        rw [if_pos rfl, if_pos (Nat.lt_succ_self _)]
        omega
      · rw [if_neg (Nat.not_lt_of_gt hp)] at hplaces
        rw [if_neg hp.ne, if_neg (Nat.not_lt_of_le hp)]
        exact hplaces
    · intro firstPool hfirstPool
      rw [hfirst] at hfirstPool
      cases hfirstPool
    · intro firstPool next hcas
      simp only at hcas
      rw [hcas] at hfirst
      cases hfirst

/-- **A pool is pushed** with its socket. -/
theorem Pools.enqueue (h : Pools s nodes) (hring : Ring s) {csd : Socket} {ptrans : Pool}
    (hl : s.listener = .push csd ptrans) (hroom : s.nelts < n) :
    Pools { s.enqueue ⟨csd, ptrans⟩ with listener := .top false none } nodes := by
  refine ⟨h.chain, ?_, rfl, h.linked, ?_, ?_⟩
  · intro p
    refine Eq.trans ?_ (h.places p)
    have hcount : ((s.enqueue ⟨csd, ptrans⟩).queue.map Elem.p).count p =
        (s.queue.map Elem.p).count p + has p (some ptrans) := by
      rw [hring.queue_enqueue hroom, List.map_append, List.count_append, has]
      simp only [List.map_cons, List.map_nil, List.count_singleton, beq_iff_eq, Option.some.injEq]
    change nodes.count p + 0 + ((s.enqueue ⟨csd, ptrans⟩).queue.map Elem.p).count p +
      total (Worker.owns p) s.workers = s.places nodes p
    simp only [State.places, hcount, hl, Listener.ptrans]
    omega
  · intro firstPool hfirst
    cases hfirst
  · intro firstPool next hcas
    cases hcas

theorem Pools.wake (h : Pools s nodes) (i : Fin n) :
    Pools (s.setWorker i (s.workers i).wake) nodes := by
  cases hw : s.workers i with
  | asleep => exact h.move hw .woken rfl rfl
  | casPools pool next =>
    have hsame : s.setWorker i (Worker.casPools pool next).wake = s := by
      simp only [State.setWorker, Worker.wake, ← hw, Function.update_eq_self]
    rw [hsame]
    exact h
  | _ => exact h.move hw _ rfl rfl

theorem Pools.wakeAll (h : Pools s nodes) : Pools s.wakeAll nodes := by
  refine ⟨h.chain, ?_, h.fresh, ?_, h.first, h.next⟩
  · intro p
    have hsame : total (Worker.owns p) s.wakeAll.workers = total (Worker.owns p) s.workers := by
      refine total_congr fun i => ?_
      simp only [State.wakeAll]
      cases s.workers i <;> rfl
    refine Eq.trans ?_ (h.places p)
    simp only [State.places, hsame]
    rfl
  · intro i pool next hcas
    refine h.linked i pool next ?_
    simp only [State.wakeAll] at hcas
    cases hw : s.workers i with
    | asleep =>
      rw [hw] at hcas
      cases hcas
    | _ =>
      rw [hw] at hcas
      exact hcas

theorem Pools.listenerStep (h : Pools s nodes) (hring : Ring s) (hcounts : Counts s)
    (csd : Option Socket) (wakes : Option (Fin n)) :
    ∃ nodes', Pools (s.listenerStep csd wakes) nodes' := by
  cases hl : s.listener with
  | top haveIdleWorker ptrans =>
    simp only [State.listenerStep, hl]
    split_ifs with hmay hhave
    · exact ⟨nodes, h.listen hl _ rfl rfl rfl⟩
    · exact ⟨nodes, h.listen hl _ rfl rfl rfl⟩
    · have hnone : ptrans = none := by
        cases ptrans with
        | none => rfl
        | some p =>
          have hspare := h.fresh
          rw [Bool.not_eq_true] at hhave
          rw [hl, hhave] at hspare
          exact hspare
      subst hnone
      exact ⟨nodes, h.listen hl _ rfl rfl rfl⟩
  | readPools =>
    simp only [State.listenerStep, hl]
    split
    · exact ⟨nodes, h.listen hl _ rfl rfl rfl⟩
    · rename_i firstPool hhead
      exact ⟨nodes, h.readHead hl hhead⟩
  | readNext firstPool =>
    simp only [State.listenerStep, hl]
    exact ⟨nodes, h.readNext hl⟩
  | casPools firstPool next =>
    simp only [State.listenerStep, hl]
    split_ifs with hsame
    · obtain ⟨rest, -, hpop⟩ := h.pop hl hsame
      exact ⟨rest, hpop⟩
    · exact ⟨nodes, h.listen hl _ rfl rfl rfl⟩
  | accept ptrans =>
    simp only [State.listenerStep, hl]
    by_cases hmay : s.listenerMayExit = true
    · rw [if_pos hmay]
      exact ⟨nodes, h.listen hl _ rfl rfl rfl⟩
    · rw [if_neg hmay]
      cases csd with
      | some csd =>
        exact ⟨nodes, (h.create hl (.push csd _) rfl rfl rfl).same rfl rfl rfl rfl rfl rfl⟩
      | none => exact ⟨nodes, h.create hl (.top true _) rfl rfl rfl⟩
  | push csd' ptrans =>
    have hroom := hcounts.room
    rw [hl] at hroom
    have hpushed := h.enqueue hring hl hroom
    simp only [State.listenerStep, hl]
    cases wakes with
    | some i =>
      simp only
      split_ifs with hasleep
      · exact ⟨nodes, hpushed.move hasleep .woken rfl rfl⟩
      · exact ⟨nodes, h⟩
    | none =>
      simp only
      split_ifs
      · exact ⟨nodes, h⟩
      · exact ⟨nodes, hpushed⟩
  | interrupt ptrans =>
    simp only [State.listenerStep, hl]
    exact ⟨nodes, (h.listen hl (.exited ptrans) rfl rfl rfl).wakeAll⟩
  | lock =>
    simp only [State.listenerStep, hl]
    split_ifs
    · exact ⟨nodes, h⟩
    · exact ⟨nodes, (h.listen hl .check rfl rfl rfl).same rfl rfl rfl rfl rfl rfl⟩
  | woken =>
    simp only [State.listenerStep, hl]
    split_ifs
    · exact ⟨nodes, h⟩
    · exact ⟨nodes, (h.listen hl .check rfl rfl rfl).same rfl rfl rfl rfl rfl rfl⟩
  | block =>
    simp only [State.listenerStep, hl]
    exact ⟨nodes, (h.listen hl .waiting rfl rfl rfl).same rfl rfl rfl rfl rfl rfl⟩
  | unlock =>
    simp only [State.listenerStep, hl]
    exact ⟨nodes, (h.listen hl .decIdlers rfl rfl rfl).same rfl rfl rfl rfl rfl rfl⟩
  | decIdlers =>
    simp only [State.listenerStep, hl]
    exact ⟨nodes, (h.listen hl .readPools rfl rfl rfl).same rfl rfl rfl rfl rfl rfl⟩
  | term ptrans =>
    simp only [State.listenerStep, hl]
    exact ⟨nodes, (h.listen hl (.interrupt ptrans) rfl rfl rfl).same rfl rfl rfl rfl rfl rfl⟩
  | _ =>
    simp only [State.listenerStep, hl]
    repeat' split
    all_goals first
      | exact ⟨nodes, h⟩
      | exact ⟨nodes, h.listen hl _ rfl rfl rfl⟩

theorem Pools.step (h : Pools s nodes) (hring : Ring s) (hcounts : Counts s) (act : Act n) :
    ∃ nodes', Pools (s.step act) nodes' := by
  cases act with
  | worker i => exact h.workerStep hring i
  | listener csd wakes => exact h.listenerStep hring hcounts csd wakes
  | wakeWorker i => exact ⟨nodes, h.wake i⟩
  | wakeListener => exact ⟨nodes, h.wakeListener⟩
  | infoTerm =>
    simp only [State.step]
    by_cases hmutex : s.idlersMutex = true
    · rw [if_pos hmutex]
      exact ⟨nodes, h⟩
    · rw [if_neg hmutex]
      exact ⟨nodes, h.wakeListener.same rfl rfl rfl rfl rfl rfl⟩
  | interruptAll => exact ⟨nodes, h.wakeAll⟩
  | stopListener => exact ⟨nodes, h.same rfl rfl rfl rfl rfl rfl⟩
  | stopWorkers => exact ⟨nodes, h.same rfl rfl rfl rfl rfl rfl⟩
end Fdqueue

end Httpd
