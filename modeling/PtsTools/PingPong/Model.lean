import PtsTools.Lib.Pthread

/-!
# The program `conditionvar.cpp`

`main` starts `pong` and `ping` one after the other, and waits on `sync_cond`
until each of them has signalled.  Then the two threads take turns on `gmutex`
and `gcond`, `howmany` times.

The program points are the calls of the source, with the loop counter in them.
A sleep is a `delay`, of any length.  `pthread_create` always succeeds here.

`pthread_join` stores the answer of a thread, a pointer, into `status`, an `int`, so the
store goes past its end.  This model is of builds in which that does no harm.

The moves of this program are listed in `Next`, over a `View` that keeps the
statuses of the three threads and the printed lines.  Every invariant is proved
about `Next`, and `next_of_move` brings it to the program.
-/

namespace PtsTools.PingPong

open PtsTools.Lib.Pthread

/-- The threads. -/
inductive Thread
  | main
  | ping
  | pong
  deriving DecidableEq, Repr

instance : Fintype Thread where
  elems := ⟨([.main, .ping, .pong] : List Thread), by decide⟩
  complete t := by cases t <;> decide

/-- The mutexes. -/
inductive Mutex
  | syncMutex
  | gmutex
  deriving DecidableEq, Repr

/-- The condition variables. -/
inductive Cond
  | syncCond
  | gcond
  deriving DecidableEq, Repr

/-- A printed line. -/
inductive Line
  | ping (i : Nat)
  | pong (i : Nat)
  | pingBye
  | pongBye
  deriving DecidableEq, Repr

/-- The text of a line. -/
def Line.text : Line → String
  | .ping i => toString i ++ " : ping"
  | .pong i => toString i ++ " : pong"
  | .pingBye => "ping-bye"
  | .pongBye => "pong-bye"

/-! ## The code -/

/-- The points of `main`.  The index runs over `thread_list`, then over `tident`. -/
inductive MainPoint
  | lock (i : Fin 2)
  | create (i : Fin 2)
  | wait (i : Fin 2)
  | unlock (i : Fin 2)
  | join (i : Fin 2)
  deriving DecidableEq, Repr

/-- The call of `main` that waits for the end of `pong`. -/
def MainPoint.joinPong : MainPoint := .join 0

/-- The points of `ping`. -/
inductive PingPoint
  | lockSync
  | signalSync
  | unlockSync
  | lock (i : Nat)
  | print (i : Nat)
  | signal (i : Nat)
  | wait (i : Nat)
  | unlock (i : Nat)
  | sleep (i : Nat)
  | bye
  deriving DecidableEq, Repr

/-- The points of `pong`. -/
inductive PongPoint
  | lockSync
  | sleepSync
  | signalSync
  | unlockSync
  | lock (i : Nat)
  | wait (i : Nat)
  | print (i : Nat)
  | signal (i : Nat)
  | unlock (i : Nat)
  | bye
  deriving DecidableEq, Repr

/-- The points of a thread. -/
def Point : Thread → Type
  | .main => MainPoint
  | .ping => PingPoint
  | .pong => PongPoint

/-- `thread_list`. -/
def threadList : Fin 2 → Thread
  | 0 => .pong
  | 1 => .ping

/-- The calls of `main`. -/
def MainPoint.op : MainPoint → Op Thread Mutex Cond Line
  | .lock _ => .lock .syncMutex
  | .create i => .create (threadList i)
  | .wait _ => .wait .syncCond .syncMutex
  | .unlock _ => .unlock .syncMutex
  | .join i => .join (threadList i)

/-- The order of the calls of `main`. -/
def MainPoint.next : MainPoint → Option MainPoint
  | .lock i => some (.create i)
  | .create i => some (.wait i)
  | .wait i => some (.unlock i)
  | .unlock 0 => some (.lock 1)
  | .unlock 1 => some (.join 0)
  | .join 0 => some (.join 1)
  | .join 1 => none

/-- The calls of `ping`. -/
def PingPoint.op : PingPoint → Op Thread Mutex Cond Line
  | .lockSync => .lock .syncMutex
  | .signalSync => .signal .syncCond
  | .unlockSync => .unlock .syncMutex
  | .lock _ => .lock .gmutex
  | .print i => .print (.ping i)
  | .signal _ => .signal .gcond
  | .wait _ => .wait .gcond .gmutex
  | .unlock _ => .unlock .gmutex
  | .sleep _ => .delay
  | .bye => .print .pingBye

/-- The head of the loop of `ping`. -/
def PingPoint.loop (howmany i : Nat) : PingPoint := if i < howmany then .lock i else .bye

/-- The order of the calls of `ping`. -/
def PingPoint.next (howmany : Nat) : PingPoint → Option PingPoint
  | .lockSync => some .signalSync
  | .signalSync => some .unlockSync
  | .unlockSync => some (.loop howmany 0)
  | .lock i => some (.print i)
  | .print i => some (.signal i)
  | .signal i => some (.wait i)
  | .wait i => some (.unlock i)
  | .unlock i => some (.sleep i)
  | .sleep i => some (.loop howmany (i + 1))
  | .bye => none

/-- The calls of `pong`. -/
def PongPoint.op : PongPoint → Op Thread Mutex Cond Line
  | .lockSync => .lock .syncMutex
  | .sleepSync => .delay
  | .signalSync => .signal .syncCond
  | .unlockSync => .unlock .syncMutex
  | .lock _ => .lock .gmutex
  | .wait _ => .wait .gcond .gmutex
  | .print i => .print (.pong i)
  | .signal _ => .signal .gcond
  | .unlock _ => .unlock .gmutex
  | .bye => .print .pongBye

/-- The head of the loop of `pong`. -/
def PongPoint.loop (howmany i : Nat) : PongPoint := if i < howmany then .lock i else .bye

/-- The order of the calls of `pong`. -/
def PongPoint.next (howmany : Nat) : PongPoint → Option PongPoint
  | .lockSync => some .sleepSync
  | .sleepSync => some .signalSync
  | .signalSync => some .unlockSync
  | .unlockSync => some (.loop howmany 0)
  | .lock i => some (.wait i)
  | .wait i => some (.print i)
  | .print i => some (.signal i)
  | .signal i => some (.unlock i)
  | .unlock i => some (.loop howmany (i + 1))
  | .bye => none

/-- The program, for any number of rounds in place of `howmany`. -/
def program (howmany : Nat) : Program Thread Point Mutex Cond Line where
  entry
    | .main => MainPoint.lock 0
    | .ping => PingPoint.lockSync
    | .pong => PongPoint.lockSync
  op {t} p :=
    match t with
    | .main => MainPoint.op p
    | .ping => PingPoint.op p
    | .pong => PongPoint.op p
  next {t} p :=
    match t with
    | .main => MainPoint.next p
    | .ping => PingPoint.next howmany p
    | .pong => PongPoint.next howmany p

/-- The states that the program can be in. -/
abbrev PState := State Thread Point Mutex Line

/-- The start of the process. -/
def initial (howmany : Nat) : PState := (program howmany).start .main

/-! ## The moves of the program -/

/-- What the invariants are about: the statuses and the printed lines. -/
structure View where
  main : Status MainPoint
  ping : Status PingPoint
  pong : Status PongPoint
  printed : List Line

/-- The view of a state. -/
def view (s : PState) : View := ⟨s.status .main, s.status .ping, s.status .pong, s.printed⟩

@[simp] theorem view_set_main (s : PState) (status : Status MainPoint) :
    view (s.set .main status) = { view s with main := status } := rfl

@[simp] theorem view_set_ping (s : PState) (status : Status PingPoint) :
    view (s.set .ping status) = { view s with ping := status } := rfl

@[simp] theorem view_set_pong (s : PState) (status : Status PongPoint) :
    view (s.set .pong status) = { view s with pong := status } := rfl

@[simp] theorem view_setOwner (s : PState) (m : Mutex) (owner : Option Thread) :
    view (s.setOwner m owner) = view s := rfl

@[simp] theorem view_print (s : PState) (line : Line) :
    view (s.print line) = { view s with printed := s.printed ++ [line] } := rfl

/-- The moves, call by call.  A signal either wakes the one thread that can wait
on its condition variable, or that thread does not wait. -/
inductive Next (howmany : Nat) (v : View) : Thread → View → Prop
  | mainLock {i : Fin 2} (h : v.main = .ready (.lock i)) :
      Next howmany v .main { v with main := .ready (.create i) }
  | createPong (h : v.main = .ready (.create 0)) (hpong : v.pong = .absent) :
      Next howmany v .main { v with main := .ready (.wait 0), pong := .ready .lockSync }
  | createPing (h : v.main = .ready (.create 1)) (hping : v.ping = .absent) :
      Next howmany v .main { v with main := .ready (.wait 1), ping := .ready .lockSync }
  | mainWait {i : Fin 2} (h : v.main = .ready (.wait i)) :
      Next howmany v .main { v with main := .waiting (.wait i) }
  | mainRegain {i : Fin 2} (h : v.main = .woken (.wait i)) :
      Next howmany v .main { v with main := .ready (.unlock i) }
  | mainUnlockPong (h : v.main = .ready (.unlock 0)) :
      Next howmany v .main { v with main := .ready (.lock 1) }
  | mainUnlockPing (h : v.main = .ready (.unlock 1)) :
      Next howmany v .main { v with main := .ready (.join 0) }
  | joinPong (h : v.main = .ready (.join 0)) (hpong : v.pong = .finished) :
      Next howmany v .main { v with main := .ready (.join 1) }
  | joinPing (h : v.main = .ready (.join 1)) (hping : v.ping = .finished) :
      Next howmany v .main { v with main := .finished }
  | pingLockSync (h : v.ping = .ready .lockSync) :
      Next howmany v .ping { v with ping := .ready .signalSync }
  | pingWakesMain {i : Fin 2} (h : v.ping = .ready .signalSync)
      (hmain : v.main = .waiting (.wait i)) :
      Next howmany v .ping { v with main := .woken (.wait i), ping := .ready .unlockSync }
  | pingLosesSync (h : v.ping = .ready .signalSync) (hmain : ∀ i, v.main ≠ .waiting (.wait i)) :
      Next howmany v .ping { v with ping := .ready .unlockSync }
  | pingUnlockSync (h : v.ping = .ready .unlockSync) :
      Next howmany v .ping { v with ping := .ready (.loop howmany 0) }
  | pingLock {i : Nat} (h : v.ping = .ready (.lock i)) :
      Next howmany v .ping { v with ping := .ready (.print i) }
  | pingPrint {i : Nat} (h : v.ping = .ready (.print i)) :
      Next howmany v .ping { v with ping := .ready (.signal i), printed := v.printed ++ [.ping i] }
  | pingWakesPong {i j : Nat} (h : v.ping = .ready (.signal i))
      (hpong : v.pong = .waiting (.wait j)) :
      Next howmany v .ping { v with ping := .ready (.wait i), pong := .woken (.wait j) }
  | pingLoses {i : Nat} (h : v.ping = .ready (.signal i))
      (hpong : ∀ j, v.pong ≠ .waiting (.wait j)) :
      Next howmany v .ping { v with ping := .ready (.wait i) }
  | pingWait {i : Nat} (h : v.ping = .ready (.wait i)) :
      Next howmany v .ping { v with ping := .waiting (.wait i) }
  | pingRegain {i : Nat} (h : v.ping = .woken (.wait i)) :
      Next howmany v .ping { v with ping := .ready (.unlock i) }
  | pingUnlock {i : Nat} (h : v.ping = .ready (.unlock i)) :
      Next howmany v .ping { v with ping := .ready (.sleep i) }
  | pingSleep {i : Nat} (h : v.ping = .ready (.sleep i)) :
      Next howmany v .ping { v with ping := .ready (.loop howmany (i + 1)) }
  | pingBye (h : v.ping = .ready .bye) :
      Next howmany v .ping { v with ping := .finished, printed := v.printed ++ [.pingBye] }
  | pongLockSync (h : v.pong = .ready .lockSync) :
      Next howmany v .pong { v with pong := .ready .sleepSync }
  | pongSleepSync (h : v.pong = .ready .sleepSync) :
      Next howmany v .pong { v with pong := .ready .signalSync }
  | pongWakesMain {i : Fin 2} (h : v.pong = .ready .signalSync)
      (hmain : v.main = .waiting (.wait i)) :
      Next howmany v .pong { v with main := .woken (.wait i), pong := .ready .unlockSync }
  | pongLosesSync (h : v.pong = .ready .signalSync) (hmain : ∀ i, v.main ≠ .waiting (.wait i)) :
      Next howmany v .pong { v with pong := .ready .unlockSync }
  | pongUnlockSync (h : v.pong = .ready .unlockSync) :
      Next howmany v .pong { v with pong := .ready (.loop howmany 0) }
  | pongLock {i : Nat} (h : v.pong = .ready (.lock i)) :
      Next howmany v .pong { v with pong := .ready (.wait i) }
  | pongWait {i : Nat} (h : v.pong = .ready (.wait i)) :
      Next howmany v .pong { v with pong := .waiting (.wait i) }
  | pongRegain {i : Nat} (h : v.pong = .woken (.wait i)) :
      Next howmany v .pong { v with pong := .ready (.print i) }
  | pongPrint {i : Nat} (h : v.pong = .ready (.print i)) :
      Next howmany v .pong { v with pong := .ready (.signal i), printed := v.printed ++ [.pong i] }
  | pongWakesPing {i j : Nat} (h : v.pong = .ready (.signal i))
      (hping : v.ping = .waiting (.wait j)) :
      Next howmany v .pong { v with ping := .woken (.wait j), pong := .ready (.unlock i) }
  | pongLoses {i : Nat} (h : v.pong = .ready (.signal i))
      (hping : ∀ j, v.ping ≠ .waiting (.wait j)) :
      Next howmany v .pong { v with pong := .ready (.unlock i) }
  | pongUnlock {i : Nat} (h : v.pong = .ready (.unlock i)) :
      Next howmany v .pong { v with pong := .ready (.loop howmany (i + 1)) }
  | pongBye (h : v.pong = .ready .bye) :
      Next howmany v .pong { v with pong := .finished, printed := v.printed ++ [.pongBye] }

/-- Every move of the program is in the list. -/
theorem next_of_move {howmany : Nat} {s s' : PState} {t : Thread}
    (hm : Move (program howmany) s t s') : Next howmany (view s) t (view s') := by
  cases hm with
  | @lock p m hs hop hfree =>
    cases t <;> cases p <;> cases hop
    · exact .mainLock hs
    · exact .pingLockSync hs
    · exact .pingLock hs
    · exact .pongLockSync hs
    · exact .pongLock hs
  | @unlock p m hs hop hown =>
    cases t <;> cases p <;> cases hop
    · rename_i i
      match i with
      | 0 => exact .mainUnlockPong hs
      | 1 => exact .mainUnlockPing hs
    · exact .pingUnlockSync hs
    · exact .pingUnlock hs
    · exact .pongUnlockSync hs
    · exact .pongUnlock hs
  | @wait p c m hs hop hown =>
    cases t <;> cases p <;> cases hop
    · exact .mainWait hs
    · exact .pingWait hs
    · exact .pongWait hs
  | @regain p c m hs hop hfree =>
    cases t <;> cases p <;> cases hop
    · exact .mainRegain hs
    · exact .pingRegain hs
    · exact .pongRegain hs
  | @wake u p q c m hs hop hu hq =>
    cases t <;> cases p <;> cases hop <;> cases u <;> cases q <;> cases hq
    · exact .pingWakesMain hs hu
    · exact absurd (hs.symm.trans hu) (by simp)
    · exact .pingWakesPong hs hu
    · exact .pongWakesMain hs hu
    · exact .pongWakesPing hs hu
    · exact absurd (hs.symm.trans hu) (by simp)
  | @lost p c hs hop hnone =>
    cases t <;> cases p <;> cases hop
    · exact .pingLosesSync hs fun i hi => hnone .main (.wait i) .syncMutex hi rfl
    · exact .pingLoses hs fun j hj => hnone .pong (.wait j) .gmutex hj rfl
    · exact .pongLosesSync hs fun i hi => hnone .main (.wait i) .syncMutex hi rfl
    · exact .pongLoses hs fun j hj => hnone .ping (.wait j) .gmutex hj rfl
  | @create u p hs hop hu =>
    cases t <;> cases p <;> try cases hop
    rename_i i
    match i with
    | 0 => exact .createPong hs hu
    | 1 => exact .createPing hs hu
  | @join u p hs hop hu =>
    cases t <;> cases p <;> try cases hop
    rename_i i
    match i with
    | 0 => exact .joinPong hs hu
    | 1 => exact .joinPing hs hu
  | @print p line hs hop =>
    cases t <;> cases p <;> cases hop
    · exact .pingPrint hs
    · exact .pingBye hs
    · exact .pongPrint hs
    · exact .pongBye hs
  | @delay p hs hop =>
    cases t <;> cases p <;> cases hop
    · exact .pingSleep hs
    · exact .pongSleepSync hs

/-! ## The mutexes -/

/-- The mutex that `main` holds at a point. -/
def MainPoint.holds : MainPoint → Option Mutex
  | .create _ | .wait _ | .unlock _ => some .syncMutex
  | .lock _ | .join _ => none

/-- The mutex that `ping` holds at a point. -/
def PingPoint.holds : PingPoint → Option Mutex
  | .signalSync | .unlockSync => some .syncMutex
  | .print _ | .signal _ | .wait _ | .unlock _ => some .gmutex
  | .lockSync | .lock _ | .sleep _ | .bye => none

/-- The mutex that `pong` holds at a point. -/
def PongPoint.holds : PongPoint → Option Mutex
  | .sleepSync | .signalSync | .unlockSync => some .syncMutex
  | .wait _ | .print _ | .signal _ | .unlock _ => some .gmutex
  | .lockSync | .lock _ | .bye => none

/-- The mutex that a thread holds at a point. -/
def holds : (t : Thread) → Point t → Option Mutex
  | .main => MainPoint.holds
  | .ping => PingPoint.holds
  | .pong => PongPoint.holds

theorem PingPoint.holds_loop (howmany i : Nat) : (PingPoint.loop howmany i).holds = none := by
  unfold PingPoint.loop
  split_ifs <;> rfl

theorem PongPoint.holds_loop (howmany i : Nat) : (PongPoint.loop howmany i).holds = none := by
  unfold PongPoint.loop
  split_ifs <;> rfl

/-- No thread ever holds two mutexes, and every call is made with the mutex that
it needs. -/
theorem singleLock (howmany : Nat) : SingleLock (program howmany) holds where
  entry t := by cases t <;> rfl
  op {t} p := by
    cases t with
    | main =>
      cases p with
      | unlock i =>
        match i with
        | 0 => exact ⟨rfl, rfl⟩
        | 1 => exact ⟨rfl, rfl⟩
      | join i =>
        match i with
        | 0 => exact ⟨rfl, rfl⟩
        | 1 => exact ⟨rfl, rfl⟩
      | lock i => exact ⟨rfl, rfl⟩
      | create i => rfl
      | wait i => exact ⟨rfl, rfl⟩
    | ping =>
      cases p with
      | unlockSync => exact ⟨rfl, PingPoint.holds_loop howmany 0⟩
      | sleep i => exact PingPoint.holds_loop howmany (i + 1)
      | lockSync => exact ⟨rfl, rfl⟩
      | lock i => exact ⟨rfl, rfl⟩
      | wait i => exact ⟨rfl, rfl⟩
      | unlock i => exact ⟨rfl, rfl⟩
      | signalSync => rfl
      | print i => rfl
      | signal i => rfl
      | bye => rfl
    | pong =>
      cases p with
      | unlockSync => exact ⟨rfl, PongPoint.holds_loop howmany 0⟩
      | unlock i => exact ⟨rfl, PongPoint.holds_loop howmany (i + 1)⟩
      | lockSync => exact ⟨rfl, rfl⟩
      | lock i => exact ⟨rfl, rfl⟩
      | wait i => exact ⟨rfl, rfl⟩
      | sleepSync => rfl
      | signalSync => rfl
      | print i => rfl
      | signal i => rfl
      | bye => rfl

end PtsTools.PingPong
