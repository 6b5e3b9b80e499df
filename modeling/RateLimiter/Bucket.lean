import RateLimiter.Invariants

/-! The token bucket `tc_ingress` keeps for each source, stated over the natural numbers: tokens
are earned at `rate` a second from the last refill, rounded down, up to `burst`, and each packet
takes one or is dropped and counted. As in the code, the refill time moves only when a token is
earned, so the fraction of a token earned before then is lost. `Bucket` is that algorithm
without the machine integers. An entry of `rate_map` represents a bucket when it holds the same
refill time and tokens and the drop count modulo `2^32` (`RateState.Represents`); it follows the
bucket step for step as long as no reading is earlier than the last refill and `elapsed * rate`
stays below `2^64` (`sourceRun_refines`). Both conditions are needed: a clock that goes back and
a product that wraps both change the verdict (`tcIngress_backwards_clock_refills`,
`tcIngress_refill_product_wraps`). Properties of the bucket then hold of the program: a source
that never sends faster than its rate is never dropped (`paced_source_never_dropped`), and a
source silent for `burst` tokens' time gets a full burst through (`full_burst_after_idle`). -/

namespace RateLimiter

/-- A source's token bucket: the clock reading of its last refill in nanoseconds, the tokens it
holds, and the packets it has dropped. -/
structure Bucket where
  last : Nat
  tokens : Nat
  dropped : Nat
  deriving DecidableEq, Repr

namespace Bucket

/-- The tokens earned from the last refill to `now` at `rate` a second, rounded down. -/
def earned (rate : Nat) (b : Bucket) (now : Nat) : Nat := (now - b.last) * rate / 10 ^ 9

/-- The refill at `now`: the tokens earned, up to `burst`, and the refill time moved to `now`,
when a token was earned; otherwise nothing. -/
def refill (rate burst : Nat) (b : Bucket) (now : Nat) : Bucket :=
  if 0 < b.earned rate now then ⟨now, min (b.tokens + b.earned rate now) burst, b.dropped⟩
  else b

/-- A packet takes a token if there is one; otherwise it is dropped and counted. -/
def take (b : Bucket) : Bool × Bucket :=
  if 0 < b.tokens then (true, { b with tokens := b.tokens - 1 })
  else (false, { b with dropped := b.dropped + 1 })

/-- The bucket of a source's first packet, which passes: full, less that packet's token. -/
def start (burst now : Nat) : Bucket := ⟨now, burst - 1, 0⟩

/-- A packet at `now` from a source with no bucket yet, or with bucket `b`: whether it passes,
and the bucket after it. -/
def step (rate burst : Nat) : Option Bucket → Nat → Bool × Bucket
  | none, now => (true, start burst now)
  | some b, now => (b.refill rate burst now).take

/-- Packets one after another at the readings `xs`: whether each passes, and the bucket after. -/
def run (rate burst : Nat) : Option Bucket → List Nat → List Bool × Option Bucket
  | e, [] => ([], e)
  | e, x :: xs =>
    let s := step rate burst e x
    let r := run rate burst (some s.2) xs
    (s.1 :: r.1, r.2)

/-- The verdict `tc_ingress` returns for a packet that passes or not. -/
def verdict (pass : Bool) : Int := if pass then tcActOk else tcActShot

/-- Every reading of the run comes no earlier than its bucket's last refill, and the product
`elapsed * rate` its refill is computed from is below `2^64`. -/
def NoWrap (rate burst : Nat) : Option Bucket → List Nat → Prop
  | _, [] => True
  | e, x :: xs => (∀ b ∈ e, b.last ≤ x ∧ (x - b.last) * rate < 2 ^ 64) ∧
      NoWrap rate burst (some (step rate burst e x).2) xs

section Lemmas

variable (rate burst : Nat)

@[simp] theorem run_nil (e : Option Bucket) : run rate burst e [] = ([], e) := rfl

@[simp] theorem run_cons (e : Option Bucket) (x : Nat) (xs : List Nat) :
    run rate burst e (x :: xs) =
      ((step rate burst e x).1 :: (run rate burst (some (step rate burst e x).2) xs).1,
       (run rate burst (some (step rate burst e x).2) xs).2) := rfl

example : (run 1000 1 none [0, 500000, 1000000]).1 = [true, false, true] := by decide

@[simp] theorem noWrap_nil (e : Option Bucket) : NoWrap rate burst e [] := trivial

theorem noWrap_cons {e : Option Bucket} {x : Nat} {xs : List Nat} :
    NoWrap rate burst e (x :: xs) ↔
      (∀ b ∈ e, b.last ≤ x ∧ (x - b.last) * rate < 2 ^ 64) ∧
        NoWrap rate burst (some (step rate burst e x).2) xs := Iff.rfl

@[simp] theorem take_last (b : Bucket) : b.take.2.last = b.last := by
  unfold take
  split <;> rfl

/-- After a packet at `x`, the bucket's refill time is at most `x`, and less than one token's
time before it: it moved to `x`, or nothing was earned since it. -/
theorem step_last (e : Option Bucket) (x : Nat) (h : ∀ b ∈ e, b.last ≤ x) :
    (step rate burst e x).2.last ≤ x ∧
      (x - (step rate burst e x).2.last) * rate < 10 ^ 9 := by
  cases e with
  | none => simp [step, start]
  | some b =>
      simp only [step, take_last, refill]
      split
      · simp
      · rename_i h0
        exact ⟨h b rfl, by simpa [earned, Nat.div_eq_zero_iff] using h0⟩

/-- Readings that never go back, with gaps whose product with `rate` stays `10^9` below `2^64`,
never make the refill's product wrap: the refill time lags the last reading by less than one
token's time. -/
theorem noWrap_of_gaps (e : Option Bucket) (x : Nat) (xs : List Nat)
    (hx : ∀ b ∈ e, b.last ≤ x ∧ (x - b.last) * rate < 2 ^ 64)
    (hgaps : (x :: xs).Chain' fun a b => a ≤ b ∧ (b - a) * rate + 10 ^ 9 ≤ 2 ^ 64) :
    NoWrap rate burst e (x :: xs) := by
  induction xs generalizing e x with
  | nil => exact ⟨hx, trivial⟩
  | cons y ys ih =>
      obtain ⟨⟨hxy, hgap⟩, hgaps⟩ := List.chain'_cons.1 hgaps
      obtain ⟨hle, hlag⟩ := step_last rate burst e x fun b hb => (hx b hb).1
      refine ⟨hx, ih _ y (fun b hb => ?_) hgaps⟩
      cases hb
      have hsplit : y - (step rate burst e x).2.last =
          (y - x) + (x - (step rate burst e x).2.last) := by omega
      rw [hsplit, Nat.add_mul]
      exact ⟨by omega, by omega⟩

theorem noWrap_none_of_gaps (xs : List Nat)
    (hgaps : xs.Chain' fun a b => a ≤ b ∧ (b - a) * rate + 10 ^ 9 ≤ 2 ^ 64) :
    NoWrap rate burst none xs := by
  cases xs with
  | nil => trivial
  | cons x xs => exact noWrap_of_gaps rate burst none x xs (fun _ hb => by cases hb) hgaps

/-- **Paced packets all pass.** From a bucket last refilled at the reading `x`, packets whose
gaps each earn a token, with a product below `2^64`, all pass, and their refills never wrap. -/
theorem run_paced (hburst : 0 < burst) (b : Bucket) (x : Nat) (xs : List Nat) (hb : b.last = x)
    (hpaced : (x :: xs).Chain' fun a b => 10 ^ 9 ≤ (b - a) * rate ∧ (b - a) * rate < 2 ^ 64) :
    (∀ v ∈ (run rate burst (some b) xs).1, v = true) ∧ NoWrap rate burst (some b) xs := by
  induction xs generalizing b x with
  | nil => simp
  | cons y ys ih =>
      obtain ⟨⟨hearn, hw⟩, hrest⟩ := List.chain'_cons.1 hpaced
      subst hb
      have he : 0 < b.earned rate y := Nat.div_pos hearn (by decide)
      have hstep : step rate burst (some b) y =
          (true, ⟨y, min (b.tokens + b.earned rate y) burst - 1, b.dropped⟩) := by
        simp only [step, refill, if_pos he, take]
        rw [if_pos (Nat.lt_min.2 ⟨by omega, hburst⟩)]
      obtain ⟨ih₁, ih₂⟩ :=
        ih ⟨y, min (b.tokens + b.earned rate y) burst - 1, b.dropped⟩ y rfl hrest
      refine ⟨?_, ⟨fun c hc => ?_, by rw [hstep]; exact ih₂⟩⟩
      · rw [run_cons, hstep]
        exact List.forall_mem_cons.2 ⟨rfl, ih₁⟩
      · cases hc
        have hgap : 0 < y - b.last := Nat.pos_of_ne_zero fun h0 => by simp [h0] at hearn
        exact ⟨by omega, hw⟩

theorem length_run (e : Option Bucket) (xs : List Nat) :
    (run rate burst e xs).1.length = xs.length := by
  induction xs generalizing e with
  | nil => rfl
  | cons x xs ih => simp [ih]

theorem run_append (e : Option Bucket) (xs ys : List Nat) :
    run rate burst e (xs ++ ys) =
      ((run rate burst e xs).1 ++ (run rate burst (run rate burst e xs).2 ys).1,
       (run rate burst (run rate burst e xs).2 ys).2) := by
  induction xs generalizing e with
  | nil => rfl
  | cons x xs ih => simp [ih]

/-- After a run whose readings never precede their bucket's last refill, the bucket was last
refilled no later than the last reading. -/
theorem run_last_le (e : Option Bucket) (xs : List Nat) (t : Nat)
    (hw : NoWrap rate burst e (xs ++ [t])) :
    ∃ b, (run rate burst e (xs ++ [t])).2 = some b ∧ b.last ≤ t := by
  induction xs generalizing e with
  | nil => exact ⟨_, rfl, (step_last rate burst e t fun b hb => (hw.1 b hb).1).1⟩
  | cons x xs ih => exact ih _ hw.2

/-- Packets at the instant of the bucket's last refill earn nothing: as many pass as it holds
tokens. -/
theorem run_same_instant (c : Bucket) (y : Nat) (hc : c.last = y) (m : Nat) :
    (run rate burst (some c) (List.replicate m y)).1 =
      List.replicate (min m c.tokens) true ++ List.replicate (m - c.tokens) false := by
  induction m generalizing c with
  | zero => simp
  | succ m ih =>
      have hstep : step rate burst (some c) y = c.take := by simp [step, refill, earned, hc]
      rw [List.replicate_succ, run_cons, hstep, ih _ (by rw [take_last, hc])]
      unfold take
      rcases Nat.eq_zero_or_pos c.tokens with h0 | hpos
      · simp only [h0, Nat.lt_irrefl, if_false, Nat.min_zero, Nat.sub_zero, List.replicate_zero,
          List.nil_append, List.replicate_succ]
      · rw [if_pos hpos]
        exact cons_replicate_budget _ _ _ _ hpos

/-- **A full burst after a silence.** A bucket last refilled no later than `t`, `burst` tokens'
time before `y`, lets exactly `burst` of any number of packets at `y` through. -/
theorem run_after_idle (hburst : 0 < burst) (b : Bucket) (t y : Nat) (hb : b.last ≤ t)
    (hidle : burst * 10 ^ 9 ≤ (y - t) * rate) (n : Nat) :
    (run rate burst (some b) (List.replicate n y)).1 =
      List.replicate (min n burst) true ++ List.replicate (n - burst) false := by
  cases n with
  | zero => simp
  | succ m =>
      have hearned : burst ≤ b.earned rate y :=
        (Nat.le_div_iff_mul_le (by decide)).2
          (hidle.trans (Nat.mul_le_mul_right rate (by omega)))
      have hstep : step rate burst (some b) y = (true, ⟨y, burst - 1, b.dropped⟩) := by
        simp only [step, refill, if_pos (lt_of_lt_of_le hburst hearned),
          Nat.min_eq_right (by omega : burst ≤ b.tokens + b.earned rate y), take, if_pos hburst]
      rw [List.replicate_succ, run_cons, hstep, run_same_instant rate burst _ y rfl m]
      exact cons_replicate_budget _ _ _ _ hburst

end Lemmas

end Bucket

/-- The entry `st` of `rate_map` represents the bucket `b`: the same refill time and tokens, and
the drops counted modulo `2^32`, as the `__u32` counter counts them. -/
structure RateState.Represents (st : RateState) (b : Bucket) : Prop where
  last : st.lastTsNs.toNat = b.last
  tokens : st.tokens.toNat = b.tokens
  dropped : st.dropped.toNat = b.dropped % 2 ^ 32

section Refinement

variable {cfg : Rodata}

theorem represents_firstSeen (hB : 0 < cfg.burst.toInt) (nowNs : BitVec 64) :
    (firstSeen cfg nowNs).Represents (Bucket.start cfg.burst.toNat nowNs.toNat) :=
  ⟨rfl, firstSeen_tokens cfg nowNs hB, by simp [Bucket.start]⟩

/-- Below the wrap, the refill of an entry is the refill of the bucket it represents. -/
theorem represents_refillTokens (hR : 0 < cfg.rateLimitPps.toInt) (hB : 0 < cfg.burst.toInt)
    {st : RateState} {b : Bucket} (h : st.Represents b)
    (nowNs : BitVec 64) (hL : b.last ≤ nowNs.toNat)
    (hw : (nowNs.toNat - b.last) * cfg.rateLimitPps.toNat < 2 ^ 64) :
    (refillTokens cfg st nowNs).Represents
      (b.refill cfg.rateLimitPps.toNat cfg.burst.toNat nowNs.toNat) := by
  have hadd : refillAdd cfg st nowNs = b.earned cfg.rateLimitPps.toNat nowNs.toNat := by
    rw [refillAdd, refillProduct_of_le st nowNs hR (h.last ▸ hL), h.last, Nat.mod_eq_of_lt hw,
      Bucket.earned]
  have hB31 := toNat_lt_of_toInt_pos hB
  rw [refillTokens_eq st nowNs hB, hadd]
  unfold Bucket.refill
  by_cases ha : 0 < b.earned cfg.rateLimitPps.toNat nowNs.toNat
  · rw [if_pos ⟨hR, ha⟩, if_pos ha]
    refine ⟨rfl, ?_, h.dropped⟩
    simp only [BitVec.toNat_ofNat, h.tokens]
    omega
  · rw [if_neg fun h => ha h.2, if_neg ha]
    exact h

/-- Taking a token from an entry is taking one from the bucket it represents. -/
theorem consumeToken_represents {st : RateState} {b : Bucket} (h : st.Represents b) :
    (consumeToken st).1 = b.take.1 ∧ (consumeToken st).2.Represents b.take.2 := by
  have hk := h.tokens
  unfold Bucket.take
  by_cases ht : 0 < b.tokens
  · rw [if_pos ht]
    dsimp only
    refine ⟨by simp [hk, ht], ⟨by simp [h.last], by simp [hk], ?_⟩⟩
    rw [consumeToken_dropped, if_pos (hk ▸ ht), h.dropped]
  · rw [if_neg ht]
    dsimp only
    refine ⟨by simp [hk, ht], ⟨by simp [h.last], by simp [hk]; omega, ?_⟩⟩
    show (consumeToken st).2.dropped.toNat = (b.dropped + 1) % 2 ^ 32
    rw [consumeToken_dropped, if_neg (hk ▸ ht), BitVec.toNat_add, h.dropped, BitVec.toNat_ofNat]
    omega

/-- **One packet.** Below the wrap, the verdict and entry `sourceStep` gives a source are the
bucket's verdict and the bucket it leaves. -/
theorem sourceStep_refines (hR : 0 < cfg.rateLimitPps.toInt) (hB : 0 < cfg.burst.toInt)
    {e : Option RateState} {a : Option Bucket} (h : Option.Rel RateState.Represents e a)
    (nowNs : BitVec 64)
    (hw : ∀ b ∈ a, b.last ≤ nowNs.toNat ∧
      (nowNs.toNat - b.last) * cfg.rateLimitPps.toNat < 2 ^ 64) :
    (sourceStep cfg e nowNs).1 =
        Bucket.verdict (Bucket.step cfg.rateLimitPps.toNat cfg.burst.toNat a nowNs.toNat).1 ∧
      (sourceStep cfg e nowNs).2.Represents
        (Bucket.step cfg.rateLimitPps.toNat cfg.burst.toNat a nowNs.toNat).2 := by
  cases h with
  | none => exact ⟨rfl, represents_firstSeen hB nowNs⟩
  | some hst =>
      rename_i st b
      obtain ⟨hL, hW⟩ := hw b rfl
      obtain ⟨h₁, h₂⟩ :=
        consumeToken_represents (represents_refillTokens hR hB hst nowNs hL hW)
      exact ⟨by simp only [sourceStep, Bucket.step, Bucket.verdict, h₁], h₂⟩

/-- **A source's run.** Below the wrap, `sourceRun` gives a source's packets the verdicts of the
bucket, and leaves an entry that represents the bucket after them. -/
theorem sourceRun_refines (hR : 0 < cfg.rateLimitPps.toInt) (hB : 0 < cfg.burst.toInt)
    (xs : List (BitVec 64)) {e : Option RateState} {a : Option Bucket}
    (h : Option.Rel RateState.Represents e a)
    (hw : Bucket.NoWrap cfg.rateLimitPps.toNat cfg.burst.toNat a (xs.map BitVec.toNat)) :
    (sourceRun cfg e xs).1 =
        (Bucket.run cfg.rateLimitPps.toNat cfg.burst.toNat a (xs.map BitVec.toNat)).1.map
          Bucket.verdict ∧
      Option.Rel RateState.Represents (sourceRun cfg e xs).2
        (Bucket.run cfg.rateLimitPps.toNat cfg.burst.toNat a (xs.map BitVec.toNat)).2 := by
  induction xs generalizing e a with
  | nil => exact ⟨rfl, h⟩
  | cons x xs ih =>
      obtain ⟨hx, hw⟩ := hw
      obtain ⟨h₁, h₂⟩ := sourceStep_refines hR hB h x hx
      obtain ⟨ih₁, ih₂⟩ := ih (.some h₂) hw
      simp only [sourceRun_cons, List.map_cons, Bucket.run_cons, h₁, ih₁, true_and]
      exact ih₂

end Refinement

/-- **The program is a token bucket per source.** With a positive rate `R` and burst `B`, in
every run from the maps as loaded whose sources fit in `rate_map`, a source whose readings never
go back, with gaps whose product with `R` stays `10^9` below `2^64`, gets the verdicts of the
bucket of rate `R` and burst `B` over its readings, and keeps an entry that represents the
bucket after them, whatever the other sources send. -/
theorem source_follows_token_bucket (cfg : Rodata) (hR : 0 < cfg.rateLimitPps.toInt)
    (hB : 0 < cfg.burst.toInt) (ps : List Packet)
    (hfit : (sources ps).toFinset.card ≤ rateMapMaxEntries) (S : BitVec 32)
    (hgaps : (sourceTimes S ps).Chain' fun a b =>
      a.toNat ≤ b.toNat ∧ (b.toNat - a.toNat) * cfg.rateLimitPps.toNat + 10 ^ 9 ≤ 2 ^ 64) :
    (sourceTrace S (runTc cfg BpfMaps.init ps).1 ps).map Prod.fst =
        (Bucket.run cfg.rateLimitPps.toNat cfg.burst.toNat none
          ((sourceTimes S ps).map BitVec.toNat)).1.map Bucket.verdict ∧
      Option.Rel RateState.Represents ((runTc cfg BpfMaps.init ps).2.rateMap.lookupElem S)
        (Bucket.run cfg.rateLimitPps.toNat cfg.burst.toNat none
          ((sourceTimes S ps).map BitVec.toNat)).2 := by
  obtain ⟨hv, he⟩ := sourceRun_runTc_init cfg S ps hfit
  rw [hv, he]
  exact sourceRun_refines hR hB _ .none
    (Bucket.noWrap_none_of_gaps _ _ _ ((List.chain'_map BitVec.toNat).2 hgaps))

/-- At 1000 packets a second with `burst = 1`, a source sending at 0, 0.5 ms and 1 ms gets the
bucket's verdicts: the second packet finds no token, the third one earned token. -/
theorem source_follows_token_bucket_half_token :
    (0 < (1000#32 : BitVec 32).toInt ∧ 0 < (1#32 : BitVec 32).toInt ∧
      (sources (framesAt 0x0101a8c0#32 [0#64, 500000#64, 1000000#64])).toFinset.card ≤
        rateMapMaxEntries ∧
      (sourceTimes 0x0101a8c0#32 (framesAt 0x0101a8c0#32 [0#64, 500000#64, 1000000#64])).Chain'
        fun a b =>
          a.toNat ≤ b.toNat ∧
            (b.toNat - a.toNat) * (1000#32 : BitVec 32).toNat + 10 ^ 9 ≤ 2 ^ 64) ∧
    (sourceTrace 0x0101a8c0#32 (runTc ⟨1000#32, 1#32⟩ BpfMaps.init
        (framesAt 0x0101a8c0#32 [0#64, 500000#64, 1000000#64])).1
        (framesAt 0x0101a8c0#32 [0#64, 500000#64, 1000000#64])).map Prod.fst =
      (Bucket.run (1000#32 : BitVec 32).toNat (1#32 : BitVec 32).toNat none
        ((sourceTimes 0x0101a8c0#32
          (framesAt 0x0101a8c0#32 [0#64, 500000#64, 1000000#64])).map BitVec.toNat)).1.map
        Bucket.verdict ∧
    Option.Rel RateState.Represents
      ((runTc ⟨1000#32, 1#32⟩ BpfMaps.init
        (framesAt 0x0101a8c0#32 [0#64, 500000#64, 1000000#64])).2.rateMap.lookupElem 0x0101a8c0#32)
      (Bucket.run (1000#32 : BitVec 32).toNat (1#32 : BitVec 32).toNat none
        ((sourceTimes 0x0101a8c0#32
          (framesAt 0x0101a8c0#32 [0#64, 500000#64, 1000000#64])).map BitVec.toNat)).2 :=
  have hgaps : (sourceTimes 0x0101a8c0#32
      (framesAt 0x0101a8c0#32 [0#64, 500000#64, 1000000#64])).Chain' fun a b =>
        a.toNat ≤ b.toNat ∧
          (b.toNat - a.toNat) * (1000#32 : BitVec 32).toNat + 10 ^ 9 ≤ 2 ^ 64 := by
    rw [show sourceTimes 0x0101a8c0#32 (framesAt 0x0101a8c0#32 [0#64, 500000#64, 1000000#64]) =
      [0#64, 500000#64, 1000000#64] by decide]
    simp only [List.chain'_cons, List.chain'_singleton, and_true]
    decide
  ⟨⟨by decide, by decide, by decide, hgaps⟩,
   source_follows_token_bucket ⟨1000#32, 1#32⟩ (by decide) (by decide) _ (by decide) _ hgaps⟩

/-- **A source within its rate is never dropped.** With a positive rate `R` and burst `B`, in
every run from the maps as loaded whose sources fit in `rate_map`, every packet of a source
whose packets come at least one token's time `10^9 / R` apart, with a product with `R` below
`2^64`, passes. -/
theorem paced_source_never_dropped (cfg : Rodata) (hR : 0 < cfg.rateLimitPps.toInt)
    (hB : 0 < cfg.burst.toInt) (ps : List Packet)
    (hfit : (sources ps).toFinset.card ≤ rateMapMaxEntries) (S : BitVec 32)
    (hpaced : (sourceTimes S ps).Chain' fun a b =>
      10 ^ 9 ≤ (b.toNat - a.toNat) * cfg.rateLimitPps.toNat ∧
        (b.toNat - a.toNat) * cfg.rateLimitPps.toNat < 2 ^ 64) :
    ∀ v ∈ (sourceTrace S (runTc cfg BpfMaps.init ps).1 ps).map Prod.fst, v = tcActOk := by
  rw [(sourceRun_runTc_init cfg S ps hfit).1]
  cases ht : sourceTimes S ps with
  | nil => simp
  | cons x xs =>
      rw [ht] at hpaced
      have hp : ((x :: xs).map BitVec.toNat).Chain' fun a b =>
          10 ^ 9 ≤ (b - a) * cfg.rateLimitPps.toNat ∧
            (b - a) * cfg.rateLimitPps.toNat < 2 ^ 64 :=
        (List.chain'_map BitVec.toNat).2 hpaced
      obtain ⟨hpass, hw⟩ := Bucket.run_paced cfg.rateLimitPps.toNat cfg.burst.toNat
        (toNat_pos_of_toInt_pos hB) (Bucket.start cfg.burst.toNat x.toNat) x.toNat
        (xs.map BitVec.toNat) rfl hp
      rw [(sourceRun_refines hR hB (x :: xs) .none
        ((Bucket.noWrap_cons _ _).2 ⟨fun _ hb => (by cases hb), hw⟩)).1]
      simp only [List.map_cons, Bucket.run_cons, Bucket.step, List.mem_cons, List.mem_map]
      rintro v (rfl | ⟨p, hp, rfl⟩)
      · rfl
      · rw [hpass p hp]
        rfl

/-- At 1000 packets a second with `burst = 1`, a source sending every millisecond is never
dropped. -/
theorem paced_source_never_dropped_every_millisecond :
    (0 < (1000#32 : BitVec 32).toInt ∧ 0 < (1#32 : BitVec 32).toInt ∧
      (sources (framesAt 0x0101a8c0#32 [0#64, 1000000#64, 2000000#64])).toFinset.card ≤
        rateMapMaxEntries ∧
      (sourceTimes 0x0101a8c0#32 (framesAt 0x0101a8c0#32 [0#64, 1000000#64, 2000000#64])).Chain'
        fun a b => 10 ^ 9 ≤ (b.toNat - a.toNat) * (1000#32 : BitVec 32).toNat ∧
          (b.toNat - a.toNat) * (1000#32 : BitVec 32).toNat < 2 ^ 64) ∧
    ∀ v ∈ (sourceTrace 0x0101a8c0#32 (runTc ⟨1000#32, 1#32⟩ BpfMaps.init
        (framesAt 0x0101a8c0#32 [0#64, 1000000#64, 2000000#64])).1
        (framesAt 0x0101a8c0#32 [0#64, 1000000#64, 2000000#64])).map Prod.fst, v = tcActOk :=
  have hpaced : (sourceTimes 0x0101a8c0#32
      (framesAt 0x0101a8c0#32 [0#64, 1000000#64, 2000000#64])).Chain' fun a b =>
        10 ^ 9 ≤ (b.toNat - a.toNat) * (1000#32 : BitVec 32).toNat ∧
          (b.toNat - a.toNat) * (1000#32 : BitVec 32).toNat < 2 ^ 64 := by
    rw [show sourceTimes 0x0101a8c0#32 (framesAt 0x0101a8c0#32 [0#64, 1000000#64, 2000000#64]) =
      [0#64, 1000000#64, 2000000#64] by decide]
    simp only [List.chain'_cons, List.chain'_singleton, and_true]
    decide
  ⟨⟨by decide, by decide, by decide, hpaced⟩,
   paced_source_never_dropped ⟨1000#32, 1#32⟩ (by decide) (by decide) _ (by decide) _ hpaced⟩

/-- **A full burst after a silence.** With a positive rate `R` and burst `B`, in every run from
the maps as loaded whose sources fit in `rate_map`, a source whose readings never go back, with
gaps whose product with `R` stays `10^9` below `2^64`, and that stays silent for `B` tokens' time
after its packet at `t`, gets exactly `B` of its next packets at one instant `y` through,
whatever it sent before. -/
theorem full_burst_after_idle (cfg : Rodata) (hR : 0 < cfg.rateLimitPps.toInt)
    (hB : 0 < cfg.burst.toInt) (ps : List Packet)
    (hfit : (sources ps).toFinset.card ≤ rateMapMaxEntries) (S : BitVec 32)
    (xs : List (BitVec 64)) (t y : BitVec 64) (n : Nat)
    (htimes : sourceTimes S ps = xs ++ t :: List.replicate n y)
    (hgaps : (sourceTimes S ps).Chain' fun a b =>
      a.toNat ≤ b.toNat ∧ (b.toNat - a.toNat) * cfg.rateLimitPps.toNat + 10 ^ 9 ≤ 2 ^ 64)
    (hidle : cfg.burst.toNat * 10 ^ 9 ≤ (y.toNat - t.toNat) * cfg.rateLimitPps.toNat) :
    ((sourceTrace S (runTc cfg BpfMaps.init ps).1 ps).map Prod.fst).drop (xs.length + 1) =
      List.replicate (min n cfg.burst.toNat) tcActOk ++
        List.replicate (n - cfg.burst.toNat) tcActShot := by
  have hchain : ((sourceTimes S ps).map BitVec.toNat).Chain' fun a b =>
      a ≤ b ∧ (b - a) * cfg.rateLimitPps.toNat + 10 ^ 9 ≤ 2 ^ 64 :=
    (List.chain'_map BitVec.toNat).2 hgaps
  -- the source's packets get the bucket's verdicts
  have hv := (sourceRun_refines hR hB _ .none (Bucket.noWrap_none_of_gaps _ _ _ hchain)).1
  rw [← (sourceRun_runTc_init cfg S ps hfit).1] at hv
  -- the readings up to `t`, then `n` readings at `y`
  have hsplit : (sourceTimes S ps).map BitVec.toNat =
      (xs.map BitVec.toNat ++ [t.toNat]) ++ List.replicate n y.toNat := by
    simp [htimes, List.map_replicate]
  rw [hsplit] at hchain hv
  obtain ⟨b, hb, hlast⟩ := Bucket.run_last_le _ _ none _ _
    (Bucket.noWrap_none_of_gaps _ _ _ hchain.left_of_append)
  have hlen : (Bucket.run cfg.rateLimitPps.toNat cfg.burst.toNat none
      (xs.map BitVec.toNat ++ [t.toNat])).1.length = xs.length + 1 := by
    simp [Bucket.length_run]
  rw [hv, Bucket.run_append _ _ none (xs.map BitVec.toNat ++ [t.toNat]), hb, List.map_append,
    List.drop_left' (by rw [List.length_map, hlen]),
    Bucket.run_after_idle _ _ (toNat_pos_of_toInt_pos hB) b t.toNat y.toNat hlast hidle]
  simp [Bucket.verdict, List.map_replicate]

/-- At 1000 packets a second with `burst = 2`, a source that drained its bucket at 0 and stays
silent for 2 ms gets two of its three packets at 2 ms through. -/
theorem full_burst_after_idle_two_ms :
    (0 < (1000#32 : BitVec 32).toInt ∧ 0 < (2#32 : BitVec 32).toInt ∧
      (sources (framesAt 0x0101a8c0#32 [0#64, 0#64, 0#64, 2000000#64, 2000000#64,
        2000000#64])).toFinset.card ≤ rateMapMaxEntries ∧
      sourceTimes 0x0101a8c0#32 (framesAt 0x0101a8c0#32
        [0#64, 0#64, 0#64, 2000000#64, 2000000#64, 2000000#64]) =
          [0#64, 0#64] ++ 0#64 :: List.replicate 3 2000000#64 ∧
      (sourceTimes 0x0101a8c0#32 (framesAt 0x0101a8c0#32
        [0#64, 0#64, 0#64, 2000000#64, 2000000#64, 2000000#64])).Chain' (fun a b =>
          a.toNat ≤ b.toNat ∧
            (b.toNat - a.toNat) * (1000#32 : BitVec 32).toNat + 10 ^ 9 ≤ 2 ^ 64) ∧
      (2#32 : BitVec 32).toNat * 10 ^ 9 ≤
        ((2000000#64 : BitVec 64).toNat - (0#64 : BitVec 64).toNat) * (1000#32 : BitVec 32).toNat) ∧
    ((sourceTrace 0x0101a8c0#32 (runTc ⟨1000#32, 2#32⟩ BpfMaps.init (framesAt 0x0101a8c0#32
        [0#64, 0#64, 0#64, 2000000#64, 2000000#64, 2000000#64])).1 (framesAt 0x0101a8c0#32
        [0#64, 0#64, 0#64, 2000000#64, 2000000#64, 2000000#64])).map Prod.fst).drop
        ([0#64, 0#64].length + 1) =
      List.replicate (min 3 (2#32 : BitVec 32).toNat) tcActOk ++
        List.replicate (3 - (2#32 : BitVec 32).toNat) tcActShot :=
  have ht : sourceTimes 0x0101a8c0#32 (framesAt 0x0101a8c0#32
      [0#64, 0#64, 0#64, 2000000#64, 2000000#64, 2000000#64]) =
        [0#64, 0#64] ++ 0#64 :: List.replicate 3 2000000#64 := by decide
  have hgaps : (sourceTimes 0x0101a8c0#32 (framesAt 0x0101a8c0#32
      [0#64, 0#64, 0#64, 2000000#64, 2000000#64, 2000000#64])).Chain' (fun a b =>
        a.toNat ≤ b.toNat ∧
          (b.toNat - a.toNat) * (1000#32 : BitVec 32).toNat + 10 ^ 9 ≤ 2 ^ 64) := by
    rw [ht]
    simp only [List.cons_append, List.nil_append, List.replicate_succ, List.replicate_zero,
      List.chain'_cons, List.chain'_singleton, and_true]
    decide
  ⟨⟨by decide, by decide, by decide, ht, hgaps, by decide⟩,
   full_burst_after_idle ⟨1000#32, 2#32⟩ (by decide) (by decide) _ (by decide) _ _ _ _ 3 ht
     hgaps (by decide)⟩

end RateLimiter
