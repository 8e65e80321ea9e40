/-
  The balancer that counts requests (`mod_lbmethod_byrequests.c`), with the retries of
  `proxy_util.c` and the default of `mod_proxy_balancer.c` for a request that a session binds
  to a worker. The counts are `int`s, and wrap.
-/
import Cnam.Httpd.Bytes
import Cnam.Lib.Machine
import Mathlib.Algebra.BigOperators.Group.List.Basic
import Mathlib.Algebra.Ring.Int.Defs

namespace Httpd

namespace Byrequests

/-! The bits of a status. -/

/-- The status of a worker, bit by bit. -/
abbrev Status := BitVec 32

/-- `PROXY_WORKER_INITIALIZED`. -/
def workerInitialized : Status := 0x0001
/-- `PROXY_WORKER_IGNORE_ERRORS`. -/
def workerIgnoreErrors : Status := 0x0002
/-- `PROXY_WORKER_DRAIN`. -/
def workerDrain : Status := 0x0004
/-- `PROXY_WORKER_IN_SHUTDOWN`. -/
def workerInShutdown : Status := 0x0010
/-- `PROXY_WORKER_DISABLED`. -/
def workerDisabled : Status := 0x0020
/-- `PROXY_WORKER_STOPPED`. -/
def workerStopped : Status := 0x0040
/-- `PROXY_WORKER_IN_ERROR`. -/
def workerInError : Status := 0x0080
/-- `PROXY_WORKER_HOT_STANDBY`. -/
def workerHotStandby : Status := 0x0100
/-- `PROXY_WORKER_HC_FAIL`. -/
def workerHcFail : Status := 0x0400

/-- `PROXY_WORKER_NOT_USABLE_BITMAP`. -/
def workerNotUsableBitmap : Status :=
  workerInShutdown ||| workerDisabled ||| workerStopped ||| workerInError ||| workerHcFail

/-- What a `proxy_worker` shares, as far as it is read here. -/
structure Worker where
  lbset : ℤ
  lbstatus : ℤ
  lbfactor : ℤ
  status : Status
  errorTime : ℤ
  retry : ℤ
  retries : ℤ
deriving DecidableEq

namespace Worker

/-- `PROXY_WORKER_IS`. -/
def is (w : Worker) (b : Status) : Bool := w.status &&& b != 0

/-- `PROXY_WORKER_IS_USABLE`. -/
def isUsable (w : Worker) : Bool := !w.is workerNotUsableBitmap && w.is workerInitialized

end Worker

/-- `ap_proxy_retry_worker`, at a time. -/
def retryWorker (now : ℤ) (w : Worker) : Worker :=
  if w.is workerInError then
    if w.is workerStopped then w
    else if w.is workerIgnoreErrors || decide (now > w.errorTime + w.retry) then
      { w with retries := int32 (w.retries + 1), status := w.status &&& ~~~workerInError }
    else w
  else w

/-- What the loops of `find_best_byrequests` have found: the candidate is the index of a worker,
    with the `lbstatus` it has got. -/
structure Found where
  totalFactor : ℤ
  mycandidate : Option (ℕ × ℤ)
  maxLbset : ℤ

/-- The worker's turn in the innermost loop; `now` is the time when it is retried. -/
def visit (checkingStandby : Bool) (curLbset now : ℤ) (i : ℕ) (found : Found) (w : Worker) :
    Found × Worker :=
  let found := if !checkingStandby && decide (w.lbset > found.maxLbset)
    then { found with maxLbset := w.lbset } else found
  if w.lbset ≠ curLbset ∨
      (if checkingStandby then !w.is workerHotStandby else w.is workerHotStandby) = true ∨
      w.is workerDrain = true then
    (found, w)
  else
    let w := if w.isUsable then w else retryWorker now w
    if w.isUsable then
      let w := { w with lbstatus := int32 (w.lbstatus + w.lbfactor) }
      let mycandidate := match found.mycandidate with
        | none => some (i, w.lbstatus)
        | some (j, lbstatus) =>
          if w.lbstatus > lbstatus then some (i, w.lbstatus) else some (j, lbstatus)
      ({ found with
          totalFactor := int32 (found.totalFactor + w.lbfactor)
          mycandidate := mycandidate }, w)
    else (found, w)

/-- The innermost loop, from index `i` on. -/
def visitAll (checkingStandby : Bool) (curLbset : ℤ) (now : ℕ → ℤ) :
    ℕ → Found → List Worker → Found × List Worker
  | _, found, [] => (found, [])
  | i, found, w :: ws =>
    let (found, w) := visit checkingStandby curLbset (now i) i found w
    let (found, ws) := visitAll checkingStandby curLbset now (i + 1) found ws
    (found, w :: ws)

/-- The loop over a set, without the workers that stand by and then with them alone. -/
def checkSet (curLbset : ℤ) (now : ℕ → ℤ) (found : Found) (ws : List Worker) :
    Found × List Worker :=
  let (found, ws) := visitAll false curLbset now 0 found ws
  if found.mycandidate.isNone then visitAll true curLbset now 0 found ws else (found, ws)

/-- The loop over the sets, with fuel. -/
def checkSets (now : ℕ → ℤ) : ℕ → ℤ → Found → List Worker → Option (Found × List Worker)
  | 0, _, _, _ => none
  | fuel + 1, curLbset, found, ws =>
    let (found, ws) := checkSet curLbset now found ws
    if curLbset + 1 ≤ found.maxLbset ∧ found.mycandidate.isNone = true then
      checkSets now fuel (curLbset + 1) found ws
    else some (found, ws)

/-- `lbstatus -= total_factor`. -/
def Worker.pay (total : ℤ) (w : Worker) : Worker :=
  { w with lbstatus := int32 (w.lbstatus - total) }

/-- `lbstatus += lbfactor`. -/
def Worker.bump (w : Worker) : Worker := { w with lbstatus := int32 (w.lbstatus + w.lbfactor) }

/-- The worker that is elected, if any, and the workers after. -/
def findBest (fuel : ℕ) (now : ℕ → ℤ) (ws : List Worker) : Option (Option ℕ × List Worker) :=
  match checkSets now fuel 0 ⟨0, none, 0⟩ ws with
  | none => none
  | some (found, ws) =>
    match found.mycandidate with
    | none => some (none, ws)
    | some (i, _) => some (some i, ws.modify i (Worker.pay found.totalFactor))

/-- The largest number of a set. -/
def maxLbset (ws : List Worker) : ℤ := (ws.map Worker.lbset).foldl max 0

/-- `find_best_byrequests`. -/
def findBestByrequests (now : ℕ → ℤ) (ws : List Worker) : Option ℕ × List Worker :=
  (findBest ((maxLbset ws).toNat + 1) now ws).getD (none, ws)

/-- The default of `proxy_balancer_pre_request` for a request whose session binds it to the
    worker `runtime`. -/
def updateSticky (runtime : ℕ) (ws : List Worker) : List Worker :=
  let totalFactor := (ws.filter Worker.isUsable).foldl (fun t w => int32 (t + w.lbfactor)) 0
  (ws.map fun w => if w.isUsable then w.bump else w).modify runtime (Worker.pay totalFactor)

/-- `reset`. -/
def reset (ws : List Worker) : List Worker := ws.map fun w => { w with lbstatus := 0 }

end Byrequests

end Httpd
