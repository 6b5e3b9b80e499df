import RateLimiter.TcIngress
import Mathlib.Data.Nat.Digits

/-! The command line of `rateLimiter`: `parse_arg`, which `argp_parse` calls for each option and
positional argument, and the two `.rodata` integers `main` writes from the `env` it leaves.
`strtol` is glibc's, in base 10 with no end pointer: white space, a sign, the longest run of
digits; `ERANGE` and `LONG_MAX` or `LONG_MIN` past the range of a 64-bit `long`, and 0 without
`ERANGE` when there is no digit. `(int)val` keeps the low 32 bits, as GCC does. The code checks
`errno` and `val <= 0` only: the value is read from a prefix of the argument and cut to 32 bits
after the check, so `-r 4294967296` configures a rate of 0, which never refills, and `-b 10k` a
burst of 10 (`parseArg_truncates_counts`). What does hold is that each value is its default or the
`(int)` of the positive `long` read from the last such option (`rodata_argpParse`), and that the
decimal numeral of any `n` in `[1, INT_MAX]` is read as `n` (`parseCount_decimal`). argp's own
options `--help`, `-?`, `--usage`, `--version` and `-V` print and end the program with 0 before
`parse_arg` sees what follows them. -/

namespace RateLimiter

/-- `isspace` in the C locale: space, `\t`, `\n`, `\v`, `\f` and `\r`. -/
def isSpace (c : Char) : Bool := c.toNat = 32 || (9 ≤ c.toNat && c.toNat ≤ 13)

/-- The sign `strtol` reads after the white space: whether it is `-`, and the rest. -/
def readSign : List Char → Bool × List Char
  | '-' :: t => (true, t)
  | '+' :: t => (false, t)
  | t => (false, t)

/-- The value of a run of decimal digits, most significant first. -/
def decimalValue (ds : List Char) : Nat := ds.foldl (fun n c => n * 10 + (c.toNat - '0'.toNat)) 0

/-- `LONG_MAX` of a 64-bit `long`. -/
def longMax : Int := 2 ^ 63 - 1

/-- `LONG_MIN`. -/
def longMin : Int := -2 ^ 63

/-- `strtol(nptr, NULL, 10)`: the value, and whether `errno` is set to `ERANGE`. -/
def strtol (s : List Char) : Int × Bool :=
  let r := readSign (s.dropWhile isSpace)
  let n : Int := decimalValue (r.2.takeWhile Char.isDigit)
  if r.1 then (if -longMin < n then (longMin, true) else (-n, false))
  else if longMax < n then (longMax, true) else (n, false)

/-- `struct env`, the configuration `parse_arg` fills in. -/
structure Env where
  rate : BitVec 32
  burst : BitVec 32
  verbose : Bool
  ifname : String
  deriving DecidableEq, Repr

/-- The initializer of `env`. -/
def Env.default : Env := ⟨1000#32, 200#32, false, "ens160"⟩

/-- What `main` writes into `skel->rodata` from `env`. -/
def Env.rodata (env : Env) : Rodata := ⟨env.rate, env.burst⟩

/-- `IFNAMSIZ`. -/
def ifnamsiz : Nat := 16

/-- `ARGP_KEY_ARG`, the key of a positional argument. -/
def argpKeyArg : Nat := 0

/-- `ARGP_ERR_UNKNOWN` (`E2BIG`). -/
def argpErrUnknown : Int := 7

/-- Cases `'r'` and `'b'` of `parse_arg`, which differ only in their message: `strtol`, the
check of `errno` and `val <= 0`, then `(int)val`. -/
def parseCount (msg arg : String) : Except String (BitVec 32) :=
  let val := strtol arg.toList
  if val.2 = true ∨ val.1 ≤ 0 then .error (msg ++ arg ++ "\n") else .ok (BitVec.ofInt 32 val.1)

/-- `parse_arg`: the `error_t` it returns and `env` after it, or the message it prints before
`argp_usage`, which ends the program. `strncpy` copies the whole name once it is shorter than
`IFNAMSIZ`. -/
def parseArg (key : Nat) (arg : String) (env : Env) : Except String (Int × Env) :=
  if key = 'i'.toNat then
    if ifnamsiz ≤ arg.utf8ByteSize then .error ("Interface name too long: " ++ arg ++ "\n")
    else .ok (0, { env with ifname := arg })
  else if key = 'r'.toNat then
    (parseCount "Invalid rate: " arg).map fun v => (0, { env with rate := v })
  else if key = 'b'.toNat then
    (parseCount "Invalid burst: " arg).map fun v => (0, { env with burst := v })
  else if key = 'v'.toNat then .ok (0, { env with verbose := true })
  else if key = 'h'.toNat ∨ key = argpKeyArg then .error ""
  else .ok (argpErrUnknown, env)

/-- The key of argp's own `--help` and `-?`. -/
def argpKeyHelp : Nat := '?'.toNat

/-- `OPT_USAGE`, the key `-3` of argp's own `--usage`, as the unsigned value of its 32 bits. -/
def optUsage : Nat := 2 ^ 32 - 3

/-- The key of `--version` and `-V`, which argp adds because `argp_program_version` is set. -/
def argpKeyVersion : Nat := 'V'.toNat

/-- How `argp_parse` ends the program instead of returning: `usage msg` when `parse_arg` printed
`msg` and called `argp_usage`, which exits with `argp_err_exit_status`; `printed` when one of
argp's own options printed the help, the usage or the version and called `exit(0)`. -/
inductive ArgpExit
  | usage (msg : String)
  | printed
  deriving DecidableEq, Repr

/-- `argp_parse(&argp, argc, argv, 0, NULL, NULL)` over the options it dispatches, in order:
each key with its argument (`""` for `-v` and argp's special keys). The keys of argp's own
`--help`, `-?`, `--usage`, `--version` and `-V` go to argp's parsers, which print and exit with
0, since the flags are 0; every other key goes to `parse_arg`, which returns only 0 and
`ARGP_ERR_UNKNOWN` (passed over for argp's special keys), and its first `argp_usage` ends the
program with the message printed before it. -/
def argpParse : List (Nat × String) → Env → Except ArgpExit Env
  | [], env => .ok env
  | (key, arg) :: calls, env =>
    if key = argpKeyHelp ∨ key = optUsage ∨ key = argpKeyVersion then .error .printed
    else
      match parseArg key arg env with
      | .error msg => .error (.usage msg)
      | .ok r => argpParse calls r.2

instance decEqExcept {ε α : Type} [DecidableEq ε] [DecidableEq α] : DecidableEq (Except ε α)
  | .ok a, .ok b => if h : a = b then isTrue (h ▸ rfl) else isFalse fun e => h (Except.ok.inj e)
  | .error a, .error b =>
    if h : a = b then isTrue (h ▸ rfl) else isFalse fun e => h (Except.error.inj e)
  | .ok _, .error _ => isFalse nofun
  | .error _, .ok _ => isFalse nofun

@[simp] theorem argpParse_nil (env : Env) : argpParse [] env = .ok env := rfl

/-- The value `-r` or `-b` sets from `arg`: the `(int)` of a positive `long` read without
`ERANGE`. -/
def CountOf (arg : String) (v : BitVec 32) : Prop :=
  ∃ n, strtol arg.toList = (n, false) ∧ 0 < n ∧ v = BitVec.ofInt 32 n

theorem parseCount_eq_ok {msg arg : String} {v : BitVec 32} :
    parseCount msg arg = .ok v ↔ CountOf arg v := by
  unfold parseCount CountOf
  obtain ⟨n, e⟩ := strtol arg.toList
  cases e
  · by_cases hn : n ≤ 0
    · simp [hn]
    · simp [hn, eq_comm]
      omega
  · simp

theorem map_parseCount_eq_ok {msg arg : String} {f : BitVec 32 → Int × Env} {r : Int × Env}
    (h : (parseCount msg arg).map f = .ok r) : ∃ v, CountOf arg v ∧ r = f v := by
  cases hc : parseCount msg arg with
  | error e => simp [hc, Except.map] at h
  | ok v =>
      simp only [hc, Except.map, Except.ok.injEq] at h
      exact ⟨v, parseCount_eq_ok.1 hc, h.symm⟩

theorem map_parseCount_eq_error {msg arg m : String} {f : BitVec 32 → Int × Env}
    (h : (parseCount msg arg).map f = .error m) :
    (∀ v, ¬ CountOf arg v) ∧ m = msg ++ arg ++ "\n" := by
  cases hc : parseCount msg arg with
  | ok v => simp [hc, Except.map] at h
  | error e =>
      simp only [hc, Except.map, Except.error.injEq] at h
      subst h
      refine ⟨fun v hv => ?_, ?_⟩
      · rw [(@parseCount_eq_ok msg arg v).2 hv] at hc
        cases hc
      · unfold parseCount at hc
        dsimp only at hc
        split at hc
        · exact (Except.error.inj hc).symm
        · cases hc

/-- **What a returning call of `parse_arg` did.** `-i` set the name, `-r` and `-b` a count read
from their argument, `-v` the flag, and every other key but `-h` and `ARGP_KEY_ARG`, which never
return, left `env` as it was. -/
theorem parseArg_eq_ok {k : Nat} {arg : String} {env : Env} {r : Int × Env}
    (h : parseArg k arg env = .ok r) :
    (k = 'i'.toNat ∧ arg.utf8ByteSize < ifnamsiz ∧ r = (0, { env with ifname := arg })) ∨
      (k = 'r'.toNat ∧ ∃ v, CountOf arg v ∧ r = (0, { env with rate := v })) ∨
      (k = 'b'.toNat ∧ ∃ v, CountOf arg v ∧ r = (0, { env with burst := v })) ∨
      (k = 'v'.toNat ∧ r = (0, { env with verbose := true })) ∨
      (k ≠ 'i'.toNat ∧ k ≠ 'r'.toNat ∧ k ≠ 'b'.toNat ∧ k ≠ 'v'.toNat ∧ r = (argpErrUnknown, env)) := by
  unfold parseArg at h
  by_cases hi : k = 'i'.toNat
  · rw [if_pos hi] at h
    split at h
    · cases h
    · cases h
      exact .inl ⟨hi, by omega, rfl⟩
  rw [if_neg hi] at h
  by_cases hr : k = 'r'.toNat
  · rw [if_pos hr] at h
    exact .inr (.inl ⟨hr, map_parseCount_eq_ok h⟩)
  rw [if_neg hr] at h
  by_cases hb : k = 'b'.toNat
  · rw [if_pos hb] at h
    exact .inr (.inr (.inl ⟨hb, map_parseCount_eq_ok h⟩))
  rw [if_neg hb] at h
  by_cases hv : k = 'v'.toNat
  · rw [if_pos hv] at h
    cases h
    exact .inr (.inr (.inr (.inl ⟨hv, rfl⟩)))
  rw [if_neg hv] at h
  split at h
  · cases h
  · cases h
    exact .inr (.inr (.inr (.inr ⟨hi, hr, hb, hv, rfl⟩)))

/-- The argument of the last call with `key`. -/
def lastArg (key : Nat) : List (Nat × String) → Option String
  | [] => none
  | (k, arg) :: calls => (lastArg key calls).or (if k = key then some arg else none)

section Last

variable {α : Type} (sel : Env → α) (key : Nat) (P : String → α → Prop)

/-- A field `sel` of `env` that only the option `key` sets, after a run of `argp_parse` that
returns: the value it had if no call had `key`, otherwise a value that `P` relates to the last
such call's argument. -/
theorem argpParse_last
    (hstep : ∀ k arg env r, parseArg k arg env = .ok r →
      if k = key then P arg (sel r.2) else sel r.2 = sel env)
    (calls : List (Nat × String)) (env env' : Env) (h : argpParse calls env = .ok env') :
    (lastArg key calls = none ∧ sel env' = sel env) ∨
      ∃ arg, lastArg key calls = some arg ∧ P arg (sel env') := by
  induction calls generalizing env with
  | nil =>
      cases h
      exact .inl ⟨rfl, rfl⟩
  | cons c calls ih =>
      obtain ⟨k, arg⟩ := c
      simp only [argpParse] at h
      split at h
      · cases h
      cases hr : parseArg k arg env with
      | error e => simp [hr] at h
      | ok r =>
          rw [hr] at h
          have hs := hstep k arg env r hr
          rw [lastArg]
          rcases ih r.2 h with ⟨hnone, hsel⟩ | ⟨a, ha, hv⟩
          · rw [hnone, hsel]
            by_cases hk : k = key
            · simp only [hk, if_true] at hs ⊢
              exact .inr ⟨arg, rfl, hs⟩
            · simp only [hk, if_false] at hs ⊢
              exact .inl ⟨rfl, hs⟩
          · exact .inr ⟨a, by simp [ha], hv⟩

end Last

/-- What a returning call of `parse_arg` does to each field of `env`: only `-r` sets the rate
and only `-b` the burst, each to a count read from its argument; only `-i` sets the name, which
is then shorter than `IFNAMSIZ` bytes; only `-v` sets the flag. -/
theorem parseArg_fields {k : Nat} {arg : String} {env : Env} {r : Int × Env}
    (h : parseArg k arg env = .ok r) :
    (if k = 'r'.toNat then CountOf arg r.2.rate else r.2.rate = env.rate) ∧
      (if k = 'b'.toNat then CountOf arg r.2.burst else r.2.burst = env.burst) ∧
      (if k = 'i'.toNat then r.2.ifname = arg ∧ arg.utf8ByteSize < ifnamsiz
        else r.2.ifname = env.ifname) ∧
      (if k = 'v'.toNat then r.2.verbose = true else r.2.verbose = env.verbose) := by
  rcases parseArg_eq_ok h with ⟨rfl, hlen, rfl⟩ | ⟨rfl, v, hv, rfl⟩ | ⟨rfl, v, hv, rfl⟩ |
      ⟨rfl, rfl⟩ | ⟨hi, hr, hb, hv, rfl⟩
  · exact ⟨rfl, rfl, ⟨rfl, hlen⟩, rfl⟩
  · exact ⟨hv, rfl, rfl, rfl⟩
  · exact ⟨rfl, hv, rfl, rfl⟩
  · exact ⟨rfl, rfl, rfl, rfl⟩
  · exact ⟨if_neg hr ▸ rfl, if_neg hb ▸ rfl, if_neg hi ▸ rfl, if_neg hv ▸ rfl⟩

/-- **The configuration loaded.** After `argp_parse` returns, `rate_limit_pps` and `burst` are
each their default, when no call set them, or the `(int)` of the positive `long` that `strtol`
read from the argument of the last `-r` or `-b`. -/
theorem rodata_argpParse (calls : List (Nat × String)) (env : Env)
    (h : argpParse calls Env.default = .ok env) :
    ((lastArg 'r'.toNat calls = none ∧ env.rodata.rateLimitPps = 1000#32) ∨
        ∃ arg, lastArg 'r'.toNat calls = some arg ∧ CountOf arg env.rodata.rateLimitPps) ∧
      ((lastArg 'b'.toNat calls = none ∧ env.rodata.burst = 200#32) ∨
        ∃ arg, lastArg 'b'.toNat calls = some arg ∧ CountOf arg env.rodata.burst) :=
  ⟨argpParse_last Env.rate _ CountOf (fun _ _ _ _ h => (parseArg_fields h).1) calls _ _ h,
   argpParse_last Env.burst _ CountOf (fun _ _ _ _ h => (parseArg_fields h).2.1) calls _ _ h⟩

theorem rodata_argpParse_rate_then_burst :
    argpParse [('r'.toNat, "500"), ('b'.toNat, "7"), ('r'.toNat, "300")] Env.default =
        .ok ⟨300#32, 7#32, false, "ens160"⟩ ∧
      ((lastArg 'r'.toNat [('r'.toNat, "500"), ('b'.toNat, "7"), ('r'.toNat, "300")] = none ∧
          (Env.rodata ⟨300#32, 7#32, false, "ens160"⟩).rateLimitPps = 1000#32) ∨
        ∃ arg, lastArg 'r'.toNat [('r'.toNat, "500"), ('b'.toNat, "7"), ('r'.toNat, "300")] =
            some arg ∧ CountOf arg (Env.rodata ⟨300#32, 7#32, false, "ens160"⟩).rateLimitPps) ∧
      ((lastArg 'b'.toNat [('r'.toNat, "500"), ('b'.toNat, "7"), ('r'.toNat, "300")] = none ∧
          (Env.rodata ⟨300#32, 7#32, false, "ens160"⟩).burst = 200#32) ∨
        ∃ arg, lastArg 'b'.toNat [('r'.toNat, "500"), ('b'.toNat, "7"), ('r'.toNat, "300")] =
            some arg ∧ CountOf arg (Env.rodata ⟨300#32, 7#32, false, "ens160"⟩).burst) :=
  have h : argpParse [('r'.toNat, "500"), ('b'.toNat, "7"), ('r'.toNat, "300")] Env.default =
      .ok ⟨300#32, 7#32, false, "ens160"⟩ := by decide
  ⟨h, rodata_argpParse _ _ h⟩

/-- **The interface and the verbosity.** After `argp_parse` returns, the interface `main`
attaches to is the argument of the last `-i`, or `ens160` when there is none, and it is shorter
than `IFNAMSIZ` bytes, so `strncpy` copied all of it with its NUL; `verbose` is set exactly when
some `-v` was given. -/
theorem ifname_argpParse (calls : List (Nat × String)) (env : Env)
    (h : argpParse calls Env.default = .ok env) :
    env.ifname = (lastArg 'i'.toNat calls).getD "ens160" ∧ env.ifname.utf8ByteSize < ifnamsiz ∧
      env.verbose = (lastArg 'v'.toNat calls).isSome := by
  have hname := argpParse_last Env.ifname 'i'.toNat
    (fun arg name => name = arg ∧ arg.utf8ByteSize < ifnamsiz)
    (fun _ _ _ _ h => (parseArg_fields h).2.2.1) calls _ _ h
  have hverbose := argpParse_last Env.verbose 'v'.toNat (fun _ v => v = true)
    (fun _ _ _ _ h => (parseArg_fields h).2.2.2) calls _ _ h
  refine and_assoc.1 ⟨?_, ?_⟩
  · rcases hname with ⟨hn, hi⟩ | ⟨arg, ha, hi, hlen⟩
    · rw [hi, hn]
      exact ⟨rfl, by decide⟩
    · rw [hi, ha]
      exact ⟨rfl, hlen⟩
  · rcases hverbose with ⟨hn, hv⟩ | ⟨arg, ha, hv⟩
    · rw [hv, hn]
      rfl
    · rw [hv, ha]
      rfl

theorem ifname_argpParse_eth0_verbose :
    argpParse [('i'.toNat, "eth0"), ('v'.toNat, "")] Env.default =
        .ok ⟨1000#32, 200#32, true, "eth0"⟩ ∧
      (Env.ifname ⟨1000#32, 200#32, true, "eth0"⟩ =
          (lastArg 'i'.toNat [('i'.toNat, "eth0"), ('v'.toNat, "")]).getD "ens160" ∧
        (Env.ifname ⟨1000#32, 200#32, true, "eth0"⟩).utf8ByteSize < ifnamsiz ∧
        Env.verbose ⟨1000#32, 200#32, true, "eth0"⟩ =
          (lastArg 'v'.toNat [('i'.toNat, "eth0"), ('v'.toNat, "")]).isSome) :=
  have h : argpParse [('i'.toNat, "eth0"), ('v'.toNat, "")] Env.default =
      .ok ⟨1000#32, 200#32, true, "eth0"⟩ := by decide
  ⟨h, ifname_argpParse _ _ h⟩

/-- The defaults pass the checks `parse_arg` makes of the options that set them. -/
theorem env_default_valid :
    Env.default.ifname.utf8ByteSize < ifnamsiz ∧ 0 < Env.default.rate.toInt ∧
      0 < Env.default.burst.toInt := by
  decide

/-- **What an error says.** A call of `parse_arg` that ends the program failed the check of its
own option and prints that option's message with the argument it rejected, or nothing for `-h`
and a positional argument, which `argp_usage` answers alone. -/
theorem parseArg_eq_error {k : Nat} {arg : String} {env : Env} {msg : String}
    (h : parseArg k arg env = .error msg) :
    (k = 'i'.toNat ∧ ifnamsiz ≤ arg.utf8ByteSize ∧
        msg = "Interface name too long: " ++ arg ++ "\n") ∨
      (k = 'r'.toNat ∧ (∀ v, ¬ CountOf arg v) ∧ msg = "Invalid rate: " ++ arg ++ "\n") ∨
      (k = 'b'.toNat ∧ (∀ v, ¬ CountOf arg v) ∧ msg = "Invalid burst: " ++ arg ++ "\n") ∨
      ((k = 'h'.toNat ∨ k = argpKeyArg) ∧ msg = "") := by
  unfold parseArg at h
  by_cases hi : k = 'i'.toNat
  · rw [if_pos hi] at h
    split at h
    · cases h
      exact .inl ⟨hi, ‹_›, rfl⟩
    · cases h
  rw [if_neg hi] at h
  by_cases hr : k = 'r'.toNat
  · rw [if_pos hr] at h
    exact .inr (.inl ⟨hr, map_parseCount_eq_error h⟩)
  rw [if_neg hr] at h
  by_cases hb : k = 'b'.toNat
  · rw [if_pos hb] at h
    exact .inr (.inr (.inl ⟨hb, map_parseCount_eq_error h⟩))
  rw [if_neg hb] at h
  by_cases hv : k = 'v'.toNat
  · rw [if_pos hv] at h
    cases h
  rw [if_neg hv] at h
  split at h
  · cases h
    exact .inr (.inr (.inr ⟨‹_›, rfl⟩))
  · cases h

/-- `argp_parse` ends the program at the first option that does: one of argp's own, or a call of
`parse_arg` that fails, the calls before it having returned. -/
theorem argpParse_eq_error {calls : List (Nat × String)} {env : Env} {e : ArgpExit}
    (h : argpParse calls env = .error e) :
    ∃ pre k arg post env', calls = pre ++ (k, arg) :: post ∧ argpParse pre env = .ok env' ∧
      ((k = argpKeyHelp ∨ k = optUsage ∨ k = argpKeyVersion) ∧ e = .printed ∨
        ∃ msg, parseArg k arg env' = .error msg ∧ e = .usage msg) := by
  induction calls generalizing env with
  | nil => cases h
  | cons c calls ih =>
      obtain ⟨k, arg⟩ := c
      simp only [argpParse] at h
      by_cases hown : k = argpKeyHelp ∨ k = optUsage ∨ k = argpKeyVersion
      · rw [if_pos hown] at h
        cases h
        exact ⟨[], k, arg, calls, env, rfl, rfl, .inl ⟨hown, rfl⟩⟩
      rw [if_neg hown] at h
      cases hr : parseArg k arg env with
      | error msg =>
          rw [hr] at h
          cases h
          exact ⟨[], k, arg, calls, env, rfl, rfl, .inr ⟨msg, hr, rfl⟩⟩
      | ok r =>
          rw [hr] at h
          obtain ⟨pre, k', arg', post, env', rfl, hpre, hk⟩ := ih h
          exact ⟨(k, arg) :: pre, k', arg', post, env', rfl, by simp [argpParse, hown, hr, hpre], hk⟩

/-- `-r 4294967296` passes the check, since `strtol` reads it without `ERANGE` and it is
positive, and `(int)` cuts it to a rate of 0, with which no packet is ever refilled; `-b 10k`
passes too, read as 10. -/
theorem parseArg_truncates_counts :
    argpParse [('r'.toNat, "4294967296")] Env.default = .ok { Env.default with rate := 0#32 } ∧
      (∀ st nowNs, refillTokens { Env.default with rate := 0#32 }.rodata st nowNs = st) ∧
      argpParse [('b'.toNat, "10k")] Env.default = .ok { Env.default with burst := 10#32 } :=
  ⟨by decide, fun _ _ => by simp [refillTokens, Env.rodata], by decide⟩

/-! The decimal numerals of the counts the code is meant to accept. -/

/-- The decimal numeral of `n`, most significant digit first. -/
def decimal (n : Nat) : List Char := (Nat.digits 10 n).reverse.map Nat.digitChar

theorem digitChar_facts : ∀ d, d < 10 →
    (Nat.digitChar d).toNat - '0'.toNat = d ∧ (Nat.digitChar d).isDigit = true := by
  decide

theorem isDigit_of_mem_decimal {n : Nat} {c : Char} (h : c ∈ decimal n) : c.isDigit = true := by
  obtain ⟨d, hd, rfl⟩ := List.mem_map.1 h
  exact (digitChar_facts d (Nat.digits_lt_base (by norm_num) (List.mem_reverse.1 hd))).2

theorem decimalValue_decimal (n : Nat) : decimalValue (decimal n) = n := by
  have key : ∀ L : List Nat, (∀ d ∈ L, d < 10) →
      L.foldr (fun d m => m * 10 + ((Nat.digitChar d).toNat - '0'.toNat)) 0 = Nat.ofDigits 10 L := by
    intro L hL
    induction L with
    | nil => rfl
    | cons d L ih =>
        rw [List.foldr_cons, ih fun x hx => hL x (.tail _ hx), Nat.ofDigits_cons,
          (digitChar_facts d (hL d (.head _))).1]
        ring
  unfold decimalValue decimal
  rw [List.foldl_map, List.foldl_reverse, key _ fun d hd => Nat.digits_lt_base (by norm_num) hd,
    Nat.ofDigits_digits]

theorem isDigit_iff (c : Char) : c.isDigit = true ↔ 48 ≤ c.toNat ∧ c.toNat ≤ 57 := by
  simp only [Char.isDigit, Bool.and_eq_true, decide_eq_true_eq, UInt32.le_def, BitVec.le_def]
  rfl

theorem readSign_of_isDigit {c : Char} (t : List Char) (h : c.isDigit = true) :
    readSign (c :: t) = (false, c :: t) := by
  have h1 : c ≠ '-' := by rintro rfl; exact absurd h (by decide)
  have h2 : c ≠ '+' := by rintro rfl; exact absurd h (by decide)
  simp [readSign, h1, h2]

/-- `strtol` reads the decimal numeral of any `n` up to `LONG_MAX` as `n`. -/
theorem strtol_decimal {n : Nat} (hn : 0 < n) (h : (n : Int) ≤ longMax) :
    strtol (decimal n) = ((n : Int), false) := by
  obtain ⟨c, t, hct⟩ : ∃ c t, decimal n = c :: t := by
    cases hd : decimal n with
    | nil => simp [decimal, Nat.digits_eq_nil_iff_eq_zero, hn.ne'] at hd
    | cons c t => exact ⟨c, t, rfl⟩
  have hc : c.isDigit = true := isDigit_of_mem_decimal (show c ∈ decimal n by rw [hct]; exact .head _)
  have hsp : isSpace c = false := by
    rw [isDigit_iff] at hc
    simp only [isSpace, Bool.or_eq_false_iff, decide_eq_false_iff_not, Bool.and_eq_false_iff]
    omega
  have hall : (decimal n).takeWhile Char.isDigit = decimal n :=
    List.takeWhile_eq_self_iff.2 fun _ => isDigit_of_mem_decimal
  unfold strtol
  rw [hct, List.dropWhile_cons_of_neg (by simp [hsp]), readSign_of_isDigit t hc, ← hct]
  simp only [hall, decimalValue_decimal, Bool.false_eq_true, if_false, not_lt.2 h]

theorem parseCount_decimal (msg : String) {n : Nat} (h1 : 1 ≤ n) (h2 : n ≤ 2 ^ 31 - 1) :
    parseCount msg (String.mk (decimal n)) = .ok (BitVec.ofNat 32 n) :=
  parseCount_eq_ok.2 ⟨n, strtol_decimal h1 (by unfold longMax; omega), by omega,
    (BitVec.ofInt_natCast 32 n).symm⟩

end RateLimiter
