import RateLimiter.UpperBound

/-! The rate limit as a lower bound: how many packets of a source that sends at least at the
configured rate get through. An ideal token bucket accrues fractional tokens, but the refill of
`tc_ingress` sets `last_ts_ns` to now whenever it adds anything, and so drops the fraction of a
token accrued since the last whole one. When every gap between the source's packets is at most
one token's time, no refill adds more than one token, and two refills can be almost two tokens'
time apart: the code guarantees half the rate (`admitted_at_least_half_rate`), and a source
sending every 990 µs at 1000 packets per second gets one packet in two through
(`half_rate_run`). A source whose first packet found `rate_map` full is never limited at all. -/

namespace RateLimiter

/-- How many verdicts of a list let the packet through. -/
def admitCount (vs : List Int) : Nat := vs.countP fun v => v = tcActOk

theorem admitCount_cons (v : Int) (vs : List Int) :
    admitCount (v :: vs) = admitCount vs + if v = tcActOk then 1 else 0 := by
  simp [admitCount, List.countP_cons]

section FullMap

variable (cfg : Rodata) {S : BitVec 32}

theorem not_hasRoom_tcIngress (maps : BpfMaps) (ctx : SkBuff) (nowNs : BitVec 64) (reserved : Bool)
    (h : ¬ maps.rateMap.HasRoom S) :
    ¬ (tcIngress cfg maps ctx nowNs reserved).2.rateMap.HasRoom S := by
  cases hk : parseSaddr ctx with
  | none => simpa [hk] using h
  | some k =>
      rw [tcIngress_eq cfg maps nowNs reserved hk]
      exact RateMap.not_hasRoom_updateElem _ _ _ h

/-- A source for which `rate_map` has no room gets every packet through. -/
theorem sourceTrace_runTc_of_not_hasRoom (maps : BpfMaps) (ps : List Packet)
    (h : ¬ maps.rateMap.HasRoom S) : ∀ vx ∈ sourceTrace S (runTc cfg maps ps).1 ps, vx.1 = tcActOk := by
  induction ps generalizing maps with
  | nil => simp
  | cons p ps ih =>
      have ih' := ih _ (not_hasRoom_tcIngress cfg maps p.ctx p.nowNs p.reserved h)
      rw [runTc_cons, sourceTrace_cons]
      split
      · rintro vx (_ | ⟨_, hvx⟩)
        · exact (tcIngress_of_no_room cfg maps p.ctx p.nowNs p.reserved ‹_› h).1
        · exact ih' vx hvx
      · exact ih'

/-- When `S`'s first packet finds no room, every packet of `S` in the run gets through. -/
theorem sourceTrace_runTc_of_not_firstInserted (ps : List Packet)
    (h : ¬ FirstInserted cfg S ps) :
    ∀ vx ∈ sourceTrace S (runTc cfg BpfMaps.init ps).1 ps, vx.1 = tcActOk := by
  obtain ⟨-, hroom⟩ := Classical.not_imp.1 h
  set P : Packet → Bool := fun q => parseSaddr q.ctx ≠ some S
  rw [← List.takeWhile_append_dropWhile P ps, runTc_append,
    sourceTrace_append S (length_runTc _ _ _),
    (runTc_of_no_source cfg S _ _ fun q hq => by simpa [P] using List.mem_takeWhile_imp hq).1,
    List.nil_append]
  exact sourceTrace_runTc_of_not_hasRoom cfg _ _ hroom

/-- **State exhaustion.** After frames from `rate_map`'s capacity of distinct sources, none of
them `S`, every packet of `S` gets through, however fast `S` sends: `rate_map` is full and never
evicts, so `S` never gets an entry. -/
theorem sources_beyond_capacity_pass (pre post : List Packet)
    (hpre : ∀ q ∈ pre, parseSaddr q.ctx ≠ some S)
    (hfull : rateMapMaxEntries ≤ (sources pre).toFinset.card) :
    ∀ vx ∈ sourceTrace S (runTc cfg BpfMaps.init (pre ++ post)).1 (pre ++ post), vx.1 = tcActOk := by
  obtain ⟨hnil, hnone⟩ := runTc_of_no_source cfg S BpfMaps.init pre hpre
  have hsize := size_runTc cfg BpfMaps.init pre
  rw [show BpfMaps.init.rateMap.table.keys.toFinset = ∅ from rfl, Finset.empty_union] at hsize
  have hroom : ¬ (runTc cfg BpfMaps.init pre).2.rateMap.HasRoom S := by
    rintro (h | h)
    · rw [RateMap.mem_keys_iff, hnone] at h
      exact absurd h (by simp [BpfMaps.init])
    · omega
  rw [runTc_append, sourceTrace_append S (length_runTc _ _ _), hnil, List.nil_append]
  exact sourceTrace_runTc_of_not_hasRoom cfg _ post hroom

end FullMap

/-- One frame from each of the sources 1, 2, …, 16384, at time 0. -/
def floodFrames : List Packet :=
  (List.range rateMapMaxEntries).map fun i => ⟨ipv4Frame (BitVec.ofNat 32 (i + 1)), 0#64, true⟩

theorem sources_floodFrames :
    sources floodFrames = (List.range rateMapMaxEntries).map fun i => BitVec.ofNat 32 (i + 1) := by
  simp only [sources, floodFrames, List.filterMap_map, Function.comp_def, parseSaddr_ipv4Frame]
  exact congrFun (List.filterMap_eq_map _) _

theorem sources_beyond_capacity_pass_flood :
    ((∀ q ∈ floodFrames, parseSaddr q.ctx ≠ some 0#32) ∧
      rateMapMaxEntries ≤ (sources floodFrames).toFinset.card) ∧
    ∀ vx ∈ sourceTrace 0#32 (runTc Rodata.default BpfMaps.init
        (floodFrames ++ List.replicate 1000 ⟨ipv4Frame 0#32, 0#64, true⟩)).1
        (floodFrames ++ List.replicate 1000 ⟨ipv4Frame 0#32, 0#64, true⟩), vx.1 = tcActOk :=
  have hpre : ∀ q ∈ floodFrames, parseSaddr q.ctx ≠ some 0#32 := by
    simp only [floodFrames, List.mem_map, List.mem_range]
    rintro q ⟨i, hi, rfl⟩
    rw [parseSaddr_ipv4Frame, Ne, Option.some.injEq, BitVec.toNat_eq, BitVec.toNat_ofNat]
    simp only [rateMapMaxEntries] at hi
    simp
    omega
  have hfull : rateMapMaxEntries ≤ (sources floodFrames).toFinset.card := by
    rw [sources_floodFrames, List.toFinset_card_of_nodup, List.length_map, List.length_range]
    refine (List.nodup_range _).map_on fun a ha b hb hab => ?_
    rw [BitVec.toNat_eq, BitVec.toNat_ofNat, BitVec.toNat_ofNat] at hab
    simp only [List.mem_range, rateMapMaxEntries] at ha hb
    omega
  ⟨⟨hpre, hfull⟩, sources_beyond_capacity_pass Rodata.default _ _ hpre hfull⟩

section HalfRate

variable {cfg : Rodata}

/-- Time owed from `c` to `a` is at most what is owed from `c` to `b` and from `b` to `a`. -/
private theorem sub_mul_le_add (a b c R : Nat) : (a - c) * R ≤ (a - b) * R + (b - c) * R := by
  rw [← Nat.add_mul]
  exact Nat.mul_le_mul_right _ (by omega)

/-- One packet at `y` after a packet at `x`, when less than a token was owed at `x` and the gap
is at most one token's time: either exactly one token is refilled and the packet passes, or
nothing is refilled and the packet passes on a saved token or is dropped. -/
theorem step_of_short_gap (hR : 0 < cfg.rateLimitPps.toInt) (hB : 0 < cfg.burst.toInt)
    (st : RateState) (x y : BitVec 64) (hL : st.lastTsNs.toNat ≤ x.toNat) (hxy : x.toNat ≤ y.toNat)
    (howed : (x.toNat - st.lastTsNs.toNat) * cfg.rateLimitPps.toNat < 10 ^ 9)
    (hgap : (y.toNat - x.toNat) * cfg.rateLimitPps.toNat ≤ 10 ^ 9)
    (hk : st.tokens.toNat < cfg.burst.toNat) :
    (10 ^ 9 ≤ (y.toNat - st.lastTsNs.toNat) * cfg.rateLimitPps.toNat ∧
        (sourceStep cfg (some st) y).1 = tcActOk ∧
        (sourceStep cfg (some st) y).2.tokens.toNat = st.tokens.toNat ∧
        (sourceStep cfg (some st) y).2.lastTsNs = y) ∨
      ((y.toNat - st.lastTsNs.toNat) * cfg.rateLimitPps.toNat < 10 ^ 9 ∧
        ((sourceStep cfg (some st) y).1 = tcActOk ↔ 0 < st.tokens.toNat) ∧
        (sourceStep cfg (some st) y).2.tokens.toNat = st.tokens.toNat - 1 ∧
        (sourceStep cfg (some st) y).2.lastTsNs = st.lastTsNs) := by
  have hsum := sub_mul_le_add y.toNat x.toNat st.lastTsNs.toNat cfg.rateLimitPps.toNat
  have hexact : refillProduct cfg st y = (y.toNat - st.lastTsNs.toNat) * cfg.rateLimitPps.toNat := by
    rw [refillProduct_of_le st y hR (hL.trans hxy), Nat.mod_eq_of_lt (by omega)]
  simp only [sourceStep, consumeToken_fst, consumeToken_tokens, consumeToken_lastTsNs]
  rcases refillTokens_facts hR hB st y with ⟨hL', -, htok, hpos⟩ | ⟨hst, hP⟩
  · rw [hexact] at htok hpos
    have hone : (y.toNat - st.lastTsNs.toNat) * cfg.rateLimitPps.toNat / 10 ^ 9 = 1 := by omega
    rw [hone] at htok
    have hpass : 0 < (refillTokens cfg st y).tokens.toNat := by omega
    exact .inl ⟨by omega, by simp [hpass, tcActOk], by omega, hL'⟩
  · rw [hexact] at hP
    rw [hst]
    refine .inr ⟨hP, ?_, rfl, rfl⟩
    by_cases h : 0 < st.tokens.toNat <;> simp [h, tcActOk, tcActShot]

/-- **Refills pay for the passes.** From an entry owing less than a token at `x`, over a source's
readings with gaps of at most one token's time that end at `T`, at least one packet in every
two tokens' time since `last_ts_ns` passes, and the saved tokens add to that up to the number
of packets. -/
theorem admitCount_sourceRun_ge (hR : 0 < cfg.rateLimitPps.toInt) (hB : 0 < cfg.burst.toInt)
    (st : RateState) (x T : BitVec 64) (ys : List (BitVec 64))
    (hL : st.lastTsNs.toNat ≤ x.toNat)
    (howed : (x.toNat - st.lastTsNs.toNat) * cfg.rateLimitPps.toNat < 10 ^ 9)
    (hk : st.tokens.toNat < cfg.burst.toNat) (hT : (x :: ys).getLast? = some T)
    (hgaps : (x :: ys).Chain' fun a b =>
      a.toNat ≤ b.toNat ∧ (b.toNat - a.toNat) * cfg.rateLimitPps.toNat ≤ 10 ^ 9) :
    (T.toNat - st.lastTsNs.toNat) * cfg.rateLimitPps.toNat / (2 * 10 ^ 9) ≤
        admitCount (sourceRun cfg (some st) ys).1 ∧
      min ys.length (st.tokens.toNat +
          (T.toNat - st.lastTsNs.toNat) * cfg.rateLimitPps.toNat / (2 * 10 ^ 9)) ≤
        admitCount (sourceRun cfg (some st) ys).1 := by
  induction ys generalizing st x with
  | nil =>
      simp only [List.getLast?_singleton, Option.some.injEq] at hT
      subst hT
      simp [admitCount]
      omega
  | cons y ys ih =>
      rw [List.chain'_cons] at hgaps
      obtain ⟨⟨hxy, hgap⟩, hgaps⟩ := hgaps
      rw [List.getLast?_cons_cons] at hT
      have hsplit := sub_mul_le_add T.toNat y.toNat st.lastTsNs.toNat cfg.rateLimitPps.toNat
      have hnext := sub_mul_le_add y.toNat x.toNat st.lastTsNs.toNat cfg.rateLimitPps.toNat
      rw [sourceRun_cons, admitCount_cons]
      rcases step_of_short_gap hR hB st x y hL hxy howed hgap hk with
        ⟨-, hv, htok, hL'⟩ | ⟨howed', hv, htok, hL'⟩
      · -- a refill: one token in, one out, and the time from `last_ts_ns` to `y` is spent
        have ih' := ih _ y (by rw [hL']) (by rw [hL']; simp) (by omega) hT hgaps
        rw [hL', htok] at ih'
        simp only [hv, if_true, List.length_cons]
        omega
      · -- no refill: `last_ts_ns` stays, a saved token is spent if there is one
        have ih' := ih _ y (by rw [hL']; omega) (by rw [hL']; exact howed') (by omega) hT hgaps
        rw [hL', htok] at ih'
        by_cases h : 0 < st.tokens.toNat
        · simp only [hv.2 h, if_true, List.length_cons]
          omega
        · simp only [show ¬ (sourceStep cfg (some st) y).1 = tcActOk from fun h' => h (hv.1 h'),
            if_false, List.length_cons]
          omega

/-- **Rate-limit lower bound, at half the rate.** With a positive rate `R` and burst `B`, in every
run from the maps as loaded in which source `S` sends packets at readings `t₀ ≤ t₁ ≤ … ≤ tₙ`,
each gap at most one token's time, at least `min (n + 1) (B + ⌊(tₙ - t₀) * R / (2 * 10^9)⌋)`
of them get through, whatever the other sources send. -/
theorem admitted_at_least_half_rate (cfg : Rodata) (hR : 0 < cfg.rateLimitPps.toInt)
    (hB : 0 < cfg.burst.toInt) (S : BitVec 32) (ps : List Packet) (t₀ : BitVec 64)
    (ts : List (BitVec 64)) (hts : sourceTimes S ps = t₀ :: ts)
    (hgaps : (t₀ :: ts).Chain' fun a b =>
      a.toNat ≤ b.toNat ∧ (b.toNat - a.toNat) * cfg.rateLimitPps.toNat ≤ 10 ^ 9) :
    min (ts.length + 1) (cfg.burst.toNat +
        (((t₀ :: ts).getLast (List.cons_ne_nil _ _)).toNat - t₀.toNat) * cfg.rateLimitPps.toNat /
          (2 * 10 ^ 9)) ≤
      admitCount ((sourceTrace S (runTc cfg BpfMaps.init ps).1 ps).map Prod.fst) := by
  by_cases hfirst : FirstInserted cfg S ps
  · rw [sourceTrace_runTc_init cfg S ps hfirst, hts,
      List.map_fst_zip _ _ (length_sourceRun _ _ _).le, sourceRun_cons, admitCount_cons]
    have hB1 := toNat_pos_of_toInt_pos hB
    obtain ⟨-, h⟩ := admitCount_sourceRun_ge hR hB (firstSeen cfg t₀) t₀ _ ts (by simp) (by simp)
      (by rw [firstSeen_tokens cfg t₀ hB]; omega) (List.getLast?_eq_getLast _ _) hgaps
    rw [firstSeen_tokens cfg t₀ hB, firstSeen_lastTsNs] at h
    simp only [sourceStep, if_true]
    omega
  · have hall := sourceTrace_runTc_of_not_firstInserted cfg ps hfirst
    have hlen : (sourceTrace S (runTc cfg BpfMaps.init ps).1 ps).length = ts.length + 1 := by
      rw [← List.length_map _ Prod.snd, map_snd_sourceTrace S (length_runTc _ _ _), hts,
        List.length_cons]
    have : admitCount ((sourceTrace S (runTc cfg BpfMaps.init ps).1 ps).map Prod.fst) =
        ts.length + 1 := by
      rw [admitCount, List.countP_eq_length.2 (by simpa using hall), List.length_map, hlen]
    omega

theorem admitted_at_least_half_rate_two_packets :
    (0 < Rodata.default.rateLimitPps.toInt ∧ 0 < Rodata.default.burst.toInt ∧
      sourceTimes 0x0101a8c0#32
          [⟨ipv4Frame 0x0101a8c0#32, 0#64, true⟩, ⟨ipv4Frame 0x0101a8c0#32, 1000000#64, true⟩] =
        [0#64, 1000000#64] ∧
      [0#64, 1000000#64].Chain' fun a b =>
        a.toNat ≤ b.toNat ∧ (b.toNat - a.toNat) * Rodata.default.rateLimitPps.toNat ≤ 10 ^ 9) ∧
    min ([1000000#64].length + 1) (Rodata.default.burst.toNat +
        (([0#64, 1000000#64].getLast (List.cons_ne_nil _ _)).toNat - (0#64).toNat) *
          Rodata.default.rateLimitPps.toNat / (2 * 10 ^ 9)) ≤
      admitCount ((sourceTrace 0x0101a8c0#32 (runTc Rodata.default BpfMaps.init
        [⟨ipv4Frame 0x0101a8c0#32, 0#64, true⟩, ⟨ipv4Frame 0x0101a8c0#32, 1000000#64, true⟩]).1
        [⟨ipv4Frame 0x0101a8c0#32, 0#64, true⟩, ⟨ipv4Frame 0x0101a8c0#32, 1000000#64, true⟩]).map
          Prod.fst) :=
  have hgaps : [0#64, 1000000#64].Chain' fun a b =>
      a.toNat ≤ b.toNat ∧ (b.toNat - a.toNat) * Rodata.default.rateLimitPps.toNat ≤ 10 ^ 9 := by
    simp only [List.chain'_cons, List.chain'_singleton, and_true]
    decide
  ⟨⟨by decide, by decide, by decide, hgaps⟩,
   admitted_at_least_half_rate Rodata.default (by decide) (by decide) 0x0101a8c0#32 _ 0#64
     [1000000#64] (by decide) hgaps⟩

/-- A source sending every 990 µs at 1000 packets per second with `burst = 1` gets packets 0, 2
and 4 of five through, where a bucket accruing fractional tokens would pass four. -/
theorem half_rate_run :
    sourceTimes 0x0101a8c0#32
        [⟨ipv4Frame 0x0101a8c0#32, 0#64, true⟩, ⟨ipv4Frame 0x0101a8c0#32, 990000#64, true⟩,
         ⟨ipv4Frame 0x0101a8c0#32, 1980000#64, true⟩, ⟨ipv4Frame 0x0101a8c0#32, 2970000#64, true⟩,
         ⟨ipv4Frame 0x0101a8c0#32, 3960000#64, true⟩] =
      [0#64, 990000#64, 1980000#64, 2970000#64, 3960000#64] ∧
    [0#64, 990000#64, 1980000#64, 2970000#64, 3960000#64].Chain' (fun a b =>
      a.toNat ≤ b.toNat ∧ (b.toNat - a.toNat) * 1000 ≤ 10 ^ 9) ∧
    (sourceTrace 0x0101a8c0#32 (runTc ⟨1000#32, 1#32⟩ BpfMaps.init
        [⟨ipv4Frame 0x0101a8c0#32, 0#64, true⟩, ⟨ipv4Frame 0x0101a8c0#32, 990000#64, true⟩,
         ⟨ipv4Frame 0x0101a8c0#32, 1980000#64, true⟩, ⟨ipv4Frame 0x0101a8c0#32, 2970000#64, true⟩,
         ⟨ipv4Frame 0x0101a8c0#32, 3960000#64, true⟩]).1
        [⟨ipv4Frame 0x0101a8c0#32, 0#64, true⟩, ⟨ipv4Frame 0x0101a8c0#32, 990000#64, true⟩,
         ⟨ipv4Frame 0x0101a8c0#32, 1980000#64, true⟩, ⟨ipv4Frame 0x0101a8c0#32, 2970000#64, true⟩,
         ⟨ipv4Frame 0x0101a8c0#32, 3960000#64, true⟩]).map Prod.fst =
      [tcActOk, tcActShot, tcActOk, tcActShot, tcActOk] ∧
    admitCount [tcActOk, tcActShot, tcActOk, tcActShot, tcActOk] <
      min 5 (1 + (3960000 - 0) * 1000 / 10 ^ 9) := by
  simp only [List.chain'_cons, List.chain'_singleton, and_true]
  decide

end HalfRate

end RateLimiter
