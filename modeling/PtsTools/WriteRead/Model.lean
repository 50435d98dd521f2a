import PtsTools.Lib.PthreadShared

/-!
# The program `conditionvar2.cpp`

`do_write` draws two random numbers again and again, stores them in `mydata` under
`mutex_lock` and signals `thread_cond`.  `do_read` waits for the signal and prints
the two numbers with their sum.  Neither loop ends, and `main` joins both threads.

The program points are the calls and the assignments of the source.  `do_write`
carries the number of its round, because `random` gives another number at every
call.  The sequence of these numbers is a parameter: nothing else calls `random`.
The moves are listed in `Next`, over a `View` of the statuses and the memory.
-/

namespace PtsTools.WriteRead

open PtsTools.Lib.Pthread

/-- The threads. -/
inductive Thread
  | main
  | doWrite
  | doRead
  deriving DecidableEq, Repr

instance : Fintype Thread where
  elems := ⟨([.main, .doWrite, .doRead] : List Thread), by decide⟩
  complete t := by cases t <;> decide

/-- The mutex. -/
inductive Mutex
  | mutexLock
  deriving DecidableEq, Repr

/-- The condition variable. -/
inductive Cond
  | threadCond
  deriving DecidableEq, Repr

/-- A printed line: the two numbers and their sum. -/
structure Line where
  a : Nat
  b : Nat
  sum : Nat
  deriving DecidableEq, Repr

/-- What the threads share: `mydata`, and the lines on the standard output. -/
structure Data where
  a : Nat
  b : Nat
  printed : List Line
  deriving DecidableEq, Repr

/-! ## The code -/

/-- The points of `main`. -/
inductive MainPoint
  | createWrite
  | createRead
  | joinWrite
  | joinRead
  deriving DecidableEq, Repr

/-- The points of `do_write`. -/
inductive WritePoint
  | initA
  | initB
  | lock (k : Nat)
  | setA (k : Nat)
  | setB (k : Nat)
  | signal (k : Nat)
  | unlock (k : Nat)
  | sleep (k : Nat)
  deriving DecidableEq, Repr

/-- The points of `do_read`. -/
inductive ReadPoint
  | lock
  | wait
  | print
  | unlock
  deriving DecidableEq, Repr

/-- The points of a thread. -/
def Point : Thread → Type
  | .main => MainPoint
  | .doWrite => WritePoint
  | .doRead => ReadPoint

/-- The calls of `main`. -/
def MainPoint.op : MainPoint → Op Thread Mutex Cond Line
  | .createWrite => .create .doWrite
  | .createRead => .create .doRead
  | .joinWrite => .join .doWrite
  | .joinRead => .join .doRead

/-- The order of the calls of `main`. -/
def MainPoint.next : MainPoint → Option MainPoint
  | .createWrite => some .createRead
  | .createRead => some .joinWrite
  | .joinWrite => some .joinRead
  | .joinRead => none

/-- The calls of `do_write`.  The assignments are steps of their own. -/
def WritePoint.op : WritePoint → Op Thread Mutex Cond Line
  | .initA | .initB | .setA _ | .setB _ | .sleep _ => .delay
  | .lock _ => .lock .mutexLock
  | .signal _ => .signal .threadCond
  | .unlock _ => .unlock .mutexLock

/-- The order of the calls of `do_write`. -/
def WritePoint.next : WritePoint → WritePoint
  | .initA => .initB
  | .initB => .lock 0
  | .lock k => .setA k
  | .setA k => .setB k
  | .setB k => .signal k
  | .signal k => .unlock k
  | .unlock k => .sleep k
  | .sleep k => .lock (k + 1)

/-- The calls of `do_read`. -/
def ReadPoint.op : ReadPoint → Op Thread Mutex Cond Line
  | .lock => .lock .mutexLock
  | .wait => .wait .threadCond .mutexLock
  | .print => .delay
  | .unlock => .unlock .mutexLock

/-- The order of the calls of `do_read`. -/
def ReadPoint.next : ReadPoint → ReadPoint
  | .lock => .wait
  | .wait => .print
  | .print => .unlock
  | .unlock => .lock

/-- The program. -/
def program : Program Thread Point Mutex Cond Line where
  entry
    | .main => MainPoint.createWrite
    | .doWrite => WritePoint.initA
    | .doRead => ReadPoint.lock
  op {t} p :=
    match t with
    | .main => MainPoint.op p
    | .doWrite => WritePoint.op p
    | .doRead => ReadPoint.op p
  next {t} p :=
    match t with
    | .main => MainPoint.next p
    | .doWrite => some (WritePoint.next p)
    | .doRead => some (ReadPoint.next p)

/-- What `do_write` stores.  `random i` is the result of the call number `i`. -/
def WritePoint.effect (random : Nat → Nat) : WritePoint → Data → Data
  | .initA, d => { d with a := 0 }
  | .initB, d => { d with b := 0 }
  | .setA k, d => { d with a := random (2 * k) % 6000 }
  | .setB k, d => { d with b := random (2 * k + 1) % 6000 }
  | _, d => d

/-- What `do_read` prints. -/
def ReadPoint.effect : ReadPoint → Data → Data
  | .print, d => { d with printed := d.printed ++ [⟨d.a, d.b, d.a + d.b⟩] }
  | _, d => d

/-- What the threads do to the memory. -/
def effect (random : Nat → Nat) : Effect Point Data
  | .main, _, d => d
  | .doWrite, p, d => WritePoint.effect random p d
  | .doRead, p, d => ReadPoint.effect p d

/-- The states of the threads. -/
abbrev PState := State Thread Point Mutex Line

/-- The start of the process. -/
def initial : PState := program.start .main

/-- `mydata` is a global variable, so it is zero at first. -/
def initialData : Data := ⟨0, 0, []⟩

/-- The states of the program. -/
abbrev Reaches (random : Nat → Nat) : PState → Data → Prop :=
  SharedReachable program (effect random) initial initialData

/-! ## The moves of the program -/

/-- The statuses of the threads. -/
structure View where
  main : Status MainPoint
  write : Status WritePoint
  read : Status ReadPoint

/-- The view of a state. -/
def view (s : PState) : View := ⟨s.status .main, s.status .doWrite, s.status .doRead⟩

@[simp] theorem view_set_main (s : PState) (status : Status MainPoint) :
    view (s.set .main status) = { view s with main := status } := rfl

@[simp] theorem view_set_doWrite (s : PState) (status : Status WritePoint) :
    view (s.set .doWrite status) = { view s with write := status } := rfl

@[simp] theorem view_set_doRead (s : PState) (status : Status ReadPoint) :
    view (s.set .doRead status) = { view s with read := status } := rfl

@[simp] theorem view_setOwner (s : PState) (m : Mutex) (owner : Option Thread) :
    view (s.setOwner m owner) = view s := rfl

/-- The moves, call by call, with what they do to the memory. -/
inductive Next (random : Nat → Nat) (v : View) (d : Data) : View → Data → Prop
  | createWrite (h : v.main = .ready .createWrite) (hw : v.write = .absent) :
      Next random v d { v with main := .ready .createRead, write := .ready .initA } d
  | createRead (h : v.main = .ready .createRead) (hr : v.read = .absent) :
      Next random v d { v with main := .ready .joinWrite, read := .ready .lock } d
  | joinWrite (h : v.main = .ready .joinWrite) (hw : v.write = .finished) :
      Next random v d { v with main := .ready .joinRead } d
  | joinRead (h : v.main = .ready .joinRead) (hr : v.read = .finished) :
      Next random v d { v with main := .finished } d
  | initA (h : v.write = .ready .initA) :
      Next random v d { v with write := .ready .initB } { d with a := 0 }
  | initB (h : v.write = .ready .initB) :
      Next random v d { v with write := .ready (.lock 0) } { d with b := 0 }
  | writeLock {k : Nat} (h : v.write = .ready (.lock k)) :
      Next random v d { v with write := .ready (.setA k) } d
  | setA {k : Nat} (h : v.write = .ready (.setA k)) :
      Next random v d { v with write := .ready (.setB k) } { d with a := random (2 * k) % 6000 }
  | setB {k : Nat} (h : v.write = .ready (.setB k)) :
      Next random v d { v with write := .ready (.signal k) }
        { d with b := random (2 * k + 1) % 6000 }
  | wakes {k : Nat} (h : v.write = .ready (.signal k)) (hr : v.read = .waiting .wait) :
      Next random v d { v with write := .ready (.unlock k), read := .woken .wait } d
  | loses {k : Nat} (h : v.write = .ready (.signal k)) (hr : v.read ≠ .waiting .wait) :
      Next random v d { v with write := .ready (.unlock k) } d
  | writeUnlock {k : Nat} (h : v.write = .ready (.unlock k)) :
      Next random v d { v with write := .ready (.sleep k) } d
  | sleep {k : Nat} (h : v.write = .ready (.sleep k)) :
      Next random v d { v with write := .ready (.lock (k + 1)) } d
  | readLock (h : v.read = .ready .lock) : Next random v d { v with read := .ready .wait } d
  | readWait (h : v.read = .ready .wait) : Next random v d { v with read := .waiting .wait } d
  | readRegain (h : v.read = .woken .wait) : Next random v d { v with read := .ready .print } d
  | print (h : v.read = .ready .print) :
      Next random v d { v with read := .ready .unlock }
        { d with printed := d.printed ++ [⟨d.a, d.b, d.a + d.b⟩] }
  | readUnlock (h : v.read = .ready .unlock) : Next random v d { v with read := .ready .lock } d

/-- Every move of the program is in the list. -/
theorem next_of_move {random : Nat → Nat} {s s' : PState} {d : Data} {t : Thread}
    (hm : Move program s t s') :
    Next random (view s) d (view s') ((effect random).apply s t d) := by
  cases hm with
  | @lock p m hs hop hfree =>
    rw [Effect.apply_ready hs]
    cases t <;> cases p <;> cases hop
    · exact .writeLock hs
    · exact .readLock hs
  | @unlock p m hs hop hown =>
    rw [Effect.apply_ready hs]
    cases t <;> cases p <;> cases hop
    · exact .writeUnlock hs
    · exact .readUnlock hs
  | @wait p c m hs hop hown =>
    rw [Effect.apply_ready hs]
    cases t <;> cases p <;> cases hop
    exact .readWait hs
  | @regain p c m hs hop hfree =>
    rw [Effect.apply_woken hs]
    cases t <;> cases p <;> cases hop
    exact .readRegain hs
  | @wake u p q c m hs hop hu hq =>
    rw [Effect.apply_ready hs]
    cases t <;> cases p <;> cases hop
    cases u <;> cases q <;> cases hq
    exact .wakes hs hu
  | @lost p c hs hop hnone =>
    rw [Effect.apply_ready hs]
    cases t <;> cases p <;> cases hop
    exact .loses hs fun hr => hnone .doRead .wait .mutexLock hr rfl
  | @create u p hs hop hu =>
    rw [Effect.apply_ready hs]
    cases t <;> cases p <;> cases hop
    · exact .createWrite hs hu
    · exact .createRead hs hu
  | @join u p hs hop hu =>
    rw [Effect.apply_ready hs]
    cases t <;> cases p <;> cases hop
    · exact .joinWrite hs hu
    · exact .joinRead hs hu
  | @print p line hs hop => cases t <;> cases p <;> cases hop
  | @delay p hs hop =>
    rw [Effect.apply_ready hs]
    cases t <;> cases p <;> cases hop
    · exact .initA hs
    · exact .initB hs
    · exact .setA hs
    · exact .setB hs
    · exact .sleep hs
    · exact .print hs

/-! ## The mutex -/

/-- What `do_write` holds at a point. -/
def WritePoint.holds : WritePoint → Option Mutex
  | .setA _ | .setB _ | .signal _ | .unlock _ => some .mutexLock
  | .initA | .initB | .lock _ | .sleep _ => none

/-- What `do_read` holds at a point. -/
def ReadPoint.holds : ReadPoint → Option Mutex
  | .wait | .print | .unlock => some .mutexLock
  | .lock => none

/-- What a thread holds at a point. -/
def holds : (t : Thread) → Point t → Option Mutex
  | .main => fun _ => none
  | .doWrite => WritePoint.holds
  | .doRead => ReadPoint.holds

/-- Every call is made with the mutex that it needs. -/
theorem singleLock : SingleLock program holds where
  entry t := by cases t <;> rfl
  op {t} p := by
    cases t with
    | main =>
      cases p with
      | createWrite => rfl
      | createRead => rfl
      | joinWrite => exact ⟨rfl, rfl⟩
      | joinRead => exact ⟨rfl, rfl⟩
    | doWrite =>
      cases p with
      | lock k => exact ⟨rfl, rfl⟩
      | unlock k => exact ⟨rfl, rfl⟩
      | _ => rfl
    | doRead =>
      cases p with
      | lock => exact ⟨rfl, rfl⟩
      | wait => exact ⟨rfl, rfl⟩
      | print => rfl
      | unlock => exact ⟨rfl, rfl⟩

end PtsTools.WriteRead
