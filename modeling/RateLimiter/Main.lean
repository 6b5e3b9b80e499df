import RateLimiter.ParseArg

/-! `main` of `rateLimiter`, from `argp_parse` to `return -err`. The calls into libc and libbpf
are inputs: what each startup stage returns (`Startup`), and for each turn of the
`while (!exiting)` loop the value of `exiting` at the check and what `ring_buffer__poll` returns.
`handle_signal` only sets `exiting`, so any pattern of readings can occur. The loop leaves when
the check finds `exiting` set or a poll returns a negative value (`pollLoop_eq_some`). `-EINTR`
counts as a clean end, so a poll interrupted by a signal that leaves `exiting` clear (a stop and
a continue) ends the program with 0; and a check that finds `exiting` set after a poll that
handled `n` records returns `-n` (`main_without_exiting`). `main_status` gives the status of
every run: argp's own options end it with 0 and a usage error with 64, a failing stage with a
status other than 0, and otherwise it ends at the first reading that ends the loop, with
`-loopErr`, and polls on exactly while none does. -/

namespace RateLimiter

/-- `EINTR`. -/
def eintr : Int := 4

/-- `argp_err_exit_status`, `EX_USAGE`: the status `argp_usage` exits with. -/
def argpErrExitStatus : Int := 64

/-- `bump_memlock_rlimit`: whether `setrlimit(RLIMIT_MEMLOCK, ...)`, asked for an unlimited soft
and hard limit, returned 0. -/
def bumpMemlockRlimit (setrlimitRet : Int) : Bool := setrlimitRet == 0

/-- `setup`: `libbpf_set_strict_mode`, then `bump_memlock_rlimit`, then `handle_signal` for
`SIGINT` and for `SIGTERM`; false at the first that fails. `sigintErr` and `sigtermErr` say
whether `signal` returned `SIG_ERR`. -/
def setup (setrlimitRet : Int) (sigintErr sigtermErr : Bool) : Bool :=
  if !bumpMemlockRlimit setrlimitRet then false
  else if sigintErr then false
  else if sigtermErr then false
  else true

/-- `setup` succeeds exactly when the limit was raised and both handlers were installed, so a
run that reaches the poll loop has `handle_signal` on `SIGINT` and on `SIGTERM`. -/
theorem setup_eq_true (setrlimitRet : Int) (sigintErr sigtermErr : Bool) :
    setup setrlimitRet sigintErr sigtermErr = true ↔
      setrlimitRet = 0 ∧ sigintErr = false ∧ sigtermErr = false := by
  cases sigintErr <;> cases sigtermErr <;> by_cases h : setrlimitRet = 0 <;>
    simp [setup, bumpMemlockRlimit, h]

/-- What the calls `main` makes after parsing its arguments return, in order: `setup()`,
whether `rateLimiter_bpf__open()` returned a skeleton, `rateLimiter_bpf__load(skel)`,
`if_nametoindex(ifname)`, `bpf_tc_attach(&hook, &opts)`, and whether `ring_buffer__new(...)`
returned a ring buffer. -/
structure Startup where
  setupOk : Bool
  openOk : Bool
  loadErr : Int
  ifindex : Nat
  tcAttachErr : Int
  rbOk : Bool
  deriving DecidableEq, Repr

/-- `attach_tc`: -1 when the interface has no index, otherwise what `bpf_tc_attach` returns.
Its check of `bpf_tc_hook_create`'s result reads an `err` that is still 0, and never fires. -/
def attachTc (s : Startup) : Int :=
  if s.ifindex = 0 then -1 else if s.tcAttachErr ≠ 0 then s.tcAttachErr else 0

/-- The loop `while (!exiting)` from `err`, over the reading of `exiting` at each check and the
return of the `ring_buffer__poll(rb, 100)` that follows a clear check: the `err` it leaves
with, or `none` while it still runs when the readings end. -/
def pollLoop : List (Bool × Int) → Int → Option Int
  | [], _ => none
  | (exiting, r) :: polls, err =>
    if exiting then some err
    else if r = -eintr then some 0
    else if r < 0 then some r
    else pollLoop polls r

/-- `main`: the status the program ends with, what argp's own options or `argp_usage` pass to
`exit` or what `main` returns, or `none` while it still polls. The `return err` after
`argp_parse` never fires, since `parse_arg` returns only 0 and `ARGP_ERR_UNKNOWN`. -/
def main (calls : List (Nat × String)) (s : Startup) (polls : List (Bool × Int)) : Option Int :=
  match argpParse calls Env.default with
  | .error (.usage _) => some argpErrExitStatus
  | .error .printed => some 0
  | .ok _ =>
    if !s.setupOk then some 1
    else if !s.openOk then some 1
    else if s.loadErr ≠ 0 then some (-s.loadErr)
    else if attachTc s ≠ 0 then some (-attachTc s)
    else if !s.rbOk then some (-(-1))
    else (pollLoop polls 0).map fun err => -err

/-- Every stage after the arguments succeeds. -/
def Startup.Ok (s : Startup) : Prop :=
  s.setupOk = true ∧ s.openOk = true ∧ s.loadErr = 0 ∧ attachTc s = 0 ∧ s.rbOk = true

instance (s : Startup) : Decidable s.Ok := inferInstanceAs (Decidable (_ ∧ _))

/-- The loop ends at reading `q` after the readings `pre`: each check of `pre` found `exiting`
clear and its poll returned a count, and at `q` the check finds `exiting` set or the poll
fails. -/
def LoopEndsAt (pre : List (Bool × Int)) (q : Bool × Int) : Prop :=
  (∀ p ∈ pre, p.1 = false ∧ 0 ≤ p.2) ∧ (q.1 = true ∨ q.2 < 0)

/-- The `err` the loop leaves with when it ends at `q` after `pre`, from `err`: the last count
on `exiting`, 0 on `-EINTR`, the error otherwise. -/
def loopErr (pre : List (Bool × Int)) (q : Bool × Int) (err : Int) : Int :=
  if q.1 then (pre.getLast?.map Prod.snd).getD err
  else if q.2 = -eintr then 0 else q.2

theorem loopErr_cons (x : Int) (pre : List (Bool × Int)) (q : Bool × Int) (err : Int) :
    loopErr ((false, x) :: pre) q err = loopErr pre q x := by
  cases h : pre.getLast? <;> simp [loopErr, List.getLast?_cons, h]

theorem loopEndsAt_nil {q : Bool × Int} : LoopEndsAt [] q ↔ q.1 = true ∨ q.2 < 0 := by
  simp [LoopEndsAt]

/-- The loop leaves with 0 on `exiting` after no count or a count of 0, or on `-EINTR`. -/
theorem loopErr_eq_zero {pre : List (Bool × Int)} {q : Bool × Int} (h : LoopEndsAt pre q) :
    loopErr pre q 0 = 0 ↔
      (q.1 = true ∧ (pre.getLast?.map Prod.snd).getD 0 = 0) ∨ (q.1 = false ∧ q.2 = -eintr) := by
  obtain ⟨e, x⟩ := q
  cases e
  · have hx : x < 0 := by simpa using h.2
    by_cases hx' : x = -eintr <;> simp [loopErr, hx']
    omega
  · simp [loopErr]

/-- Cutting readings `a :: l` at one reading: at `a`, or in `l`. -/
theorem exists_cut_cons (a : Bool × Int) (l : List (Bool × Int))
    (P : List (Bool × Int) → Bool × Int → Prop) :
    (∃ pre q post, a :: l = pre ++ q :: post ∧ P pre q) ↔
      P [] a ∨ ∃ pre q post, l = pre ++ q :: post ∧ P (a :: pre) q := by
  constructor
  · rintro ⟨_ | ⟨b, pre⟩, q, post, h, hP⟩ <;> cases h
    · exact .inl hP
    · exact .inr ⟨pre, q, post, rfl, hP⟩
  · rintro (hP | ⟨pre, q, post, rfl, hP⟩)
    · exact ⟨[], a, l, rfl, hP⟩
    · exact ⟨a :: pre, q, post, rfl, hP⟩

theorem loopEndsAt_cons {a : Bool × Int} {pre : List (Bool × Int)} {q : Bool × Int} :
    LoopEndsAt (a :: pre) q ↔ (a.1 = false ∧ 0 ≤ a.2) ∧ LoopEndsAt pre q := by
  simp [LoopEndsAt, and_assoc]

/-- A check that finds `exiting` clear and a poll that returns a count: the loop goes on from it. -/
theorem pollLoop_count {x : Int} (hx : 0 ≤ x) (polls : List (Bool × Int)) (err : Int) :
    pollLoop ((false, x) :: polls) err = pollLoop polls x := by
  simp [pollLoop, show x ≠ -eintr by unfold eintr; omega, show ¬ x < 0 by omega]

/-- **When the loop leaves.** Exactly at the first check that finds `exiting` set or the first
poll that fails, with the `err` `loopErr` gives. -/
theorem pollLoop_eq_some (polls : List (Bool × Int)) (err r : Int) :
    pollLoop polls err = some r ↔
      ∃ pre q post, polls = pre ++ q :: post ∧ LoopEndsAt pre q ∧ r = loopErr pre q err := by
  induction polls generalizing err with
  | nil => simp [pollLoop]
  | cons p polls ih =>
      obtain ⟨e, x⟩ := p
      rw [exists_cut_cons (e, x) polls fun pre q => LoopEndsAt pre q ∧ r = loopErr pre q err]
      by_cases hstop : e = true ∨ x < 0
      · -- the loop ends at this reading, which no cut in the tail may pass over
        have hend : pollLoop ((e, x) :: polls) err = some (loopErr [] (e, x) err) := by
          rcases hstop with rfl | hx
          · rfl
          · by_cases he : x = -eintr <;> cases e <;> simp [pollLoop, loopErr, hx, he]
        have hgo : ¬ ((e, x).1 = false ∧ 0 ≤ (e, x).2) := by
          rcases hstop with rfl | hx <;> simp [*]
        have hends : LoopEndsAt [] (e, x) := loopEndsAt_nil.2 hstop
        simp [hend, hends, loopEndsAt_cons, hgo, eq_comm]
      · -- the loop polls again, from the count `x`
        simp only [not_or, Bool.not_eq_true, not_lt] at hstop
        obtain ⟨rfl, hx⟩ := hstop
        rw [pollLoop_count hx, ih x]
        simp [loopEndsAt_nil, loopEndsAt_cons, hx, loopErr_cons, not_lt.2 hx]

/-- A startup stage that fails ends the program with a status other than 0. -/
theorem main_of_not_ok {calls : List (Nat × String)} {env : Env} {s : Startup}
    (polls : List (Bool × Int)) (henv : argpParse calls Env.default = .ok env) (hs : ¬ s.Ok) :
    ∃ r, r ≠ 0 ∧ main calls s polls = some r := by
  unfold main
  rw [henv]
  dsimp only
  cases h1 : s.setupOk
  · exact ⟨1, by decide, rfl⟩
  cases h2 : s.openOk
  · exact ⟨1, by decide, rfl⟩
  by_cases h3 : s.loadErr = 0
  · by_cases h4 : attachTc s = 0
    · cases h5 : s.rbOk
      · exact ⟨-(-1), by decide, by simp only [h3, h4, ne_eq, not_true_eq_false, if_false]; rfl⟩
      · exact absurd ⟨h1, h2, h3, h4, h5⟩ hs
    · exact ⟨-attachTc s, by omega,
        by simp only [h3, h4, ne_eq, not_true_eq_false, not_false_eq_true, if_false, if_true]; rfl⟩
  · exact ⟨-s.loadErr, by omega, by simp only [h3, ne_eq, not_false_eq_true, if_true]; rfl⟩

theorem main_of_ok {calls : List (Nat × String)} {env : Env} {s : Startup}
    (polls : List (Bool × Int)) (henv : argpParse calls Env.default = .ok env) (hs : s.Ok) :
    main calls s polls = (pollLoop polls 0).map fun err => -err := by
  obtain ⟨h1, h2, h3, h4, h5⟩ := hs
  simp [main, henv, h1, h2, h3, h4, h5]

theorem main_of_error {calls : List (Nat × String)} {msg : String} (s : Startup)
    (polls : List (Bool × Int)) (henv : argpParse calls Env.default = .error (.usage msg)) :
    main calls s polls = some argpErrExitStatus := by
  simp [main, henv]

theorem main_of_printed {calls : List (Nat × String)} (s : Startup) (polls : List (Bool × Int))
    (henv : argpParse calls Env.default = .error .printed) : main calls s polls = some 0 := by
  simp [main, henv]

/-- The loop runs on exactly while every check finds `exiting` clear and every poll returns a
count. -/
theorem pollLoop_eq_none (polls : List (Bool × Int)) (err : Int) :
    pollLoop polls err = none ↔ ∀ p ∈ polls, p.1 = false ∧ 0 ≤ p.2 := by
  induction polls generalizing err with
  | nil => simp [pollLoop]
  | cons p polls ih =>
      obtain ⟨e, x⟩ := p
      cases e
      · by_cases hx : x < 0
        · -- the loop leaves here, and the reading is no count
          have hstop : pollLoop ((false, x) :: polls) err ≠ none := by
            rw [pollLoop]
            split_ifs <;> exact Option.some_ne_none _
          exact iff_of_false hstop fun h => absurd (h _ (.head _)).2 (not_le.2 hx)
        · rw [pollLoop_count (not_lt.1 hx), ih x, List.forall_mem_cons]
          exact ⟨fun h => ⟨⟨rfl, not_lt.1 hx⟩, h⟩, And.right⟩
      · exact iff_of_false (Option.some_ne_none _) fun h => Bool.noConfusion (h _ (.head _)).1

theorem main_of_loopEndsAt {calls : List (Nat × String)} {env : Env} {s : Startup}
    (henv : argpParse calls Env.default = .ok env) (hs : s.Ok) {pre : List (Bool × Int)}
    {q : Bool × Int} (post : List (Bool × Int)) (hends : LoopEndsAt pre q) :
    main calls s (pre ++ q :: post) = some (-loopErr pre q 0) := by
  rw [main_of_ok _ henv hs, (pollLoop_eq_some _ 0 _).2 ⟨pre, q, post, rfl, hends, rfl⟩]
  rfl

/-- **Exit status.** For every input: argp's own options end the program with 0 and a usage
error with 64; when the arguments parse, a failing stage ends it with a status other than 0;
and when every stage succeeds it returns `-loopErr` at the first check that finds `exiting` set
or the first failing poll, and polls on exactly while no reading ends the loop. -/
theorem main_status (calls : List (Nat × String)) (s : Startup) (polls : List (Bool × Int)) :
    (argpParse calls Env.default = .error .printed → main calls s polls = some 0) ∧
      (∀ msg, argpParse calls Env.default = .error (.usage msg) →
        main calls s polls = some argpErrExitStatus) ∧
      ∀ env, argpParse calls Env.default = .ok env →
        (¬ s.Ok → ∃ r, r ≠ 0 ∧ main calls s polls = some r) ∧
        (s.Ok →
          (∀ pre q post, polls = pre ++ q :: post → LoopEndsAt pre q →
            main calls s polls = some (-loopErr pre q 0)) ∧
          (main calls s polls = none ↔ ∀ p ∈ polls, p.1 = false ∧ 0 ≤ p.2)) :=
  ⟨main_of_printed s polls, fun _ h => main_of_error s polls h, fun _ henv =>
    ⟨main_of_not_ok polls henv, fun hs =>
      ⟨fun _ _ post hp hends => hp ▸ main_of_loopEndsAt henv hs post hends,
       by rw [main_of_ok _ henv hs, Option.map_eq_none', pollLoop_eq_none]⟩⟩⟩

/-- With every stage succeeding, a poll interrupted while `exiting` is clear ends the program
with 0, and `exiting` found set after a poll that handled three records ends it with -3. -/
theorem main_without_exiting :
    main [] ⟨true, true, 0, 2, 0, true⟩ [(false, -eintr)] = some 0 ∧
      main [] ⟨true, true, 0, 2, 0, true⟩ [(false, 3), (true, 0)] = some (-3) := by
  decide

end RateLimiter
