import RateLimiter.TcIngress

/-! The refill and the token decision of `tc_ingress` in natural numbers. The refill computes
`elapsed * (__u64)rate_limit_pps` modulo `2^64`; `refillProduct` is that product as the code
computes it, wrap included, and `refillTokens_eq_cap` is the one lemma later files use instead
of the `BitVec` definition: nothing else wraps, since the sum of the tokens and the refill fits
in `__u64`, and the cap compares that sum with `burst` converted to `__u64`. With `burst > 0` the
capped count fits in `__u32` (`refillTokens_eq`); a negative `burst` converts to more than
`2^63`, and nothing is capped. Two theorems run the program on
inputs where the wrap of `__u64` changes the verdict: a clock that goes back, and an idle time
long enough for the product to overflow. -/

namespace RateLimiter

section CInt

variable {x : BitVec 32}

theorem toNat_lt_of_toInt_pos (h : 0 < x.toInt) : x.toNat < 2 ^ 31 := by
  rw [BitVec.toInt_eq_toNat_cond] at h
  split at h <;> omega

theorem toNat_pos_of_toInt_pos (h : 0 < x.toInt) : 0 < x.toNat := by
  rw [BitVec.toInt_eq_toNat_cond] at h
  split at h <;> omega

theorem toInt_eq_toNat_of_toInt_pos (h : 0 < x.toInt) : x.toInt = x.toNat := by
  have := toNat_lt_of_toInt_pos h
  rw [BitVec.toInt_eq_toNat_cond, if_pos (by omega)]

/-- `(__u64)` of a positive `int` keeps its value. -/
theorem toNat_signExtend_of_toInt_pos (h : 0 < x.toInt) : (x.signExtend 64).toNat = x.toNat := by
  have hlt := toNat_lt_of_toInt_pos h
  rw [BitVec.signExtend, BitVec.toNat_ofInt, BitVec.toInt_eq_toNat_cond, if_pos (by omega)]
  omega

/-- `(__u64)` of a negative `int` is at least `2^63`. -/
theorem two_pow_63_le_toNat_signExtend (h : x.toInt < 0) : 2 ^ 63 ≤ (x.signExtend 64).toNat := by
  have hlt := x.isLt
  rw [BitVec.toInt_eq_toNat_cond] at h
  rw [BitVec.signExtend, BitVec.toNat_ofInt, BitVec.toInt_eq_toNat_cond]
  split at h <;> split <;> omega

end CInt

/-- `elapsed * (__u64)rate_limit_pps` as the code computes it, modulo `2^64`. -/
def refillProduct (cfg : Rodata) (st : RateState) (nowNs : BitVec 64) : Nat :=
  ((nowNs - st.lastTsNs) * cfg.rateLimitPps.signExtend 64).toNat

/-- `add`: the tokens the refill grants before the cap. -/
def refillAdd (cfg : Rodata) (st : RateState) (nowNs : BitVec 64) : Nat :=
  refillProduct cfg st nowNs / 10 ^ 9

section Refill

variable {cfg : Rodata} (st : RateState) (nowNs : BitVec 64)

/-- **The refill, for every configuration.** The product `elapsed * rate` wraps (`refillAdd`),
but the sum of the tokens and `add` never does, and the cap compares it with `burst` converted
to `__u64`. The refill moves `last_ts_ns` to now exactly when the rate is positive and
`refillAdd` is. -/
theorem refillTokens_eq_cap :
    refillTokens cfg st nowNs =
      if 0 < cfg.rateLimitPps.toInt ∧ 0 < refillAdd cfg st nowNs then
        { st with
          tokens := BitVec.ofNat 32
            (min (st.tokens.toNat + refillAdd cfg st nowNs) (cfg.burst.signExtend 64).toNat)
          lastTsNs := nowNs }
      else st := by
  have hk := st.tokens.isLt
  have hP := ((nowNs - st.lastTsNs) * cfg.rateLimitPps.signExtend 64).isLt
  have hadd : ((nowNs - st.lastTsNs) * cfg.rateLimitPps.signExtend 64 / 1000000000#64).toNat =
      refillAdd cfg st nowNs := by
    simp [BitVec.toNat_udiv, refillAdd, refillProduct]
  have hA : refillAdd cfg st nowNs < 2 ^ 35 := by
    unfold refillAdd refillProduct
    omega
  have hsum : (st.tokens.setWidth 64 + (nowNs - st.lastTsNs) * cfg.rateLimitPps.signExtend 64 /
      1000000000#64).toNat = st.tokens.toNat + refillAdd cfg st nowNs := by
    rw [BitVec.toNat_add, hadd, BitVec.toNat_setWidth]
    omega
  unfold refillTokens
  by_cases hR : 0 < cfg.rateLimitPps.toInt
  · by_cases he : 0#64 < nowNs - st.lastTsNs
    · have hpos : 0#64 < (nowNs - st.lastTsNs) * cfg.rateLimitPps.signExtend 64 / 1000000000#64 ↔
          0 < refillAdd cfg st nowNs := by
        simp only [BitVec.lt_def, hadd]
        simp
      by_cases ha : 0 < refillAdd cfg st nowNs
      · simp only [hR, he, ha, hpos.2 ha, and_self, if_true]
        congr 1
        apply BitVec.eq_of_toNat_eq
        split <;> simp only [BitVec.lt_def, hsum, BitVec.toNat_setWidth, BitVec.toNat_ofNat] at * <;>
          omega
      · simp [hR, he, ha, mt hpos.1 ha]
    · have h0 : refillAdd cfg st nowNs = 0 := by
        have hE0 : (nowNs - st.lastTsNs).toNat = 0 := by
          simp only [BitVec.lt_def, BitVec.toNat_ofNat] at he
          omega
        simp [refillAdd, refillProduct, BitVec.toNat_mul, hE0]
      simp [hR, he, h0]
  · simp [hR]

/-- **The refill.** With `burst > 0`, the refill adds `refillAdd` tokens up to `burst` and moves
`last_ts_ns` to now exactly when the rate is positive and `refillAdd` is. -/
theorem refillTokens_eq (hB : 0 < cfg.burst.toInt) :
    refillTokens cfg st nowNs =
      if 0 < cfg.rateLimitPps.toInt ∧ 0 < refillAdd cfg st nowNs then
        { st with
          tokens := BitVec.ofNat 32 (min (st.tokens.toNat + refillAdd cfg st nowNs) cfg.burst.toNat)
          lastTsNs := nowNs }
      else st := by
  rw [refillTokens_eq_cap, toNat_signExtend_of_toInt_pos hB]

theorem refillTokens_tokens (hB : 0 < cfg.burst.toInt) :
    (refillTokens cfg st nowNs).tokens.toNat =
      if 0 < cfg.rateLimitPps.toInt ∧ 0 < refillAdd cfg st nowNs then
        min (st.tokens.toNat + refillAdd cfg st nowNs) cfg.burst.toNat
      else st.tokens.toNat := by
  have := toNat_lt_of_toInt_pos hB
  rw [refillTokens_eq st nowNs hB]
  split
  · simp only [BitVec.toNat_ofNat]
    omega
  · rfl

theorem refillTokens_lastTsNs (hB : 0 < cfg.burst.toInt) :
    (refillTokens cfg st nowNs).lastTsNs =
      if 0 < cfg.rateLimitPps.toInt ∧ 0 < refillAdd cfg st nowNs then nowNs else st.lastTsNs := by
  rw [refillTokens_eq st nowNs hB]
  split <;> rfl

@[simp] theorem refillTokens_dropped : (refillTokens cfg st nowNs).dropped = st.dropped := by
  simp only [refillTokens]
  split_ifs <;> rfl

/-- Seen from a clock that does not go back, the product is `(now - last_ts_ns) * rate`
reduced modulo `2^64`. -/
theorem refillProduct_of_le (hR : 0 < cfg.rateLimitPps.toInt)
    (h : st.lastTsNs.toNat ≤ nowNs.toNat) :
    refillProduct cfg st nowNs =
      (nowNs.toNat - st.lastTsNs.toNat) * cfg.rateLimitPps.toNat % 2 ^ 64 := by
  have hsub : (nowNs - st.lastTsNs).toNat = nowNs.toNat - st.lastTsNs.toNat := by
    rw [BitVec.toNat_sub]
    omega
  rw [refillProduct, BitVec.toNat_mul, hsub, toNat_signExtend_of_toInt_pos hR]

/-- The wrapped product grows by at most `rate` per nanosecond: its reduction modulo `2^64` can
only lose. -/
theorem refillProduct_le_add (hR : 0 < cfg.rateLimitPps.toInt) {x y : BitVec 64}
    (hx : st.lastTsNs.toNat ≤ x.toNat) (hxy : x.toNat ≤ y.toNat) :
    refillProduct cfg st y ≤
      refillProduct cfg st x + (y.toNat - x.toNat) * cfg.rateLimitPps.toNat := by
  rw [refillProduct_of_le st y hR (hx.trans hxy), refillProduct_of_le st x hR hx]
  have hsplit : (y.toNat - st.lastTsNs.toNat) * cfg.rateLimitPps.toNat =
      (x.toNat - st.lastTsNs.toNat) * cfg.rateLimitPps.toNat +
        (y.toNat - x.toNat) * cfg.rateLimitPps.toNat := by
    rw [← Nat.add_mul]
    congr 1
    omega
  calc (y.toNat - st.lastTsNs.toNat) * cfg.rateLimitPps.toNat % 2 ^ 64
      = ((x.toNat - st.lastTsNs.toNat) * cfg.rateLimitPps.toNat % 2 ^ 64 +
          (y.toNat - x.toNat) * cfg.rateLimitPps.toNat % 2 ^ 64) % 2 ^ 64 := by
        rw [hsplit, Nat.add_mod]
    _ ≤ (x.toNat - st.lastTsNs.toNat) * cfg.rateLimitPps.toNat % 2 ^ 64 +
          (y.toNat - x.toNat) * cfg.rateLimitPps.toNat % 2 ^ 64 := Nat.mod_le _ _
    _ ≤ _ := Nat.add_le_add_left (Nat.mod_le _ _) _

end Refill

section Consume

variable (st : RateState)

@[simp] theorem consumeToken_fst : (consumeToken st).1 = decide (0 < st.tokens.toNat) := by
  unfold consumeToken
  split <;> simp_all [BitVec.lt_def]

@[simp] theorem consumeToken_tokens : (consumeToken st).2.tokens.toNat = st.tokens.toNat - 1 := by
  unfold consumeToken
  split
  · rename_i h
    simp only [BitVec.lt_def, BitVec.toNat_ofNat] at h
    simp only [BitVec.toNat_sub, BitVec.toNat_ofNat]
    omega
  · simp_all [BitVec.lt_def]

@[simp] theorem consumeToken_lastTsNs : (consumeToken st).2.lastTsNs = st.lastTsNs := by
  unfold consumeToken
  split <;> rfl

theorem consumeToken_dropped :
    (consumeToken st).2.dropped = if 0 < st.tokens.toNat then st.dropped else st.dropped + 1#32 := by
  unfold consumeToken
  split <;> simp_all [BitVec.lt_def]

end Consume

section FirstSeen

variable (cfg : Rodata) (nowNs : BitVec 64)

theorem firstSeen_tokens (hB : 0 < cfg.burst.toInt) :
    (firstSeen cfg nowNs).tokens.toNat = cfg.burst.toNat - 1 := by
  have := toNat_pos_of_toInt_pos hB
  simp only [firstSeen, if_pos hB, BitVec.toNat_sub, BitVec.toNat_ofNat]
  omega

@[simp] theorem firstSeen_lastTsNs : (firstSeen cfg nowNs).lastTsNs = nowNs := rfl

@[simp] theorem firstSeen_dropped : (firstSeen cfg nowNs).dropped = 0#32 := rfl

end FirstSeen

/-- **The refill is exact below the wrap.** With a positive rate and burst, a clock that has
not gone back, and `elapsed * rate` below `2^64`, the refill grants
`⌊(now - last_ts_ns) * rate / 10^9⌋` tokens up to `burst`, and moves `last_ts_ns` to now exactly
when it grants any. -/
theorem refillTokens_exact_below_wrap (cfg : Rodata) (hR : 0 < cfg.rateLimitPps.toInt)
    (hB : 0 < cfg.burst.toInt) (st : RateState) (nowNs : BitVec 64)
    (hL : st.lastTsNs.toNat ≤ nowNs.toNat)
    (hw : (nowNs.toNat - st.lastTsNs.toNat) * cfg.rateLimitPps.toNat < 2 ^ 64) :
    (refillTokens cfg st nowNs).tokens.toNat =
        (if 0 < (nowNs.toNat - st.lastTsNs.toNat) * cfg.rateLimitPps.toNat / 10 ^ 9 then
          min (st.tokens.toNat + (nowNs.toNat - st.lastTsNs.toNat) * cfg.rateLimitPps.toNat / 10 ^ 9)
            cfg.burst.toNat
        else st.tokens.toNat) ∧
      (refillTokens cfg st nowNs).lastTsNs =
        if 0 < (nowNs.toNat - st.lastTsNs.toNat) * cfg.rateLimitPps.toNat / 10 ^ 9 then nowNs
        else st.lastTsNs := by
  have hadd : refillAdd cfg st nowNs =
      (nowNs.toNat - st.lastTsNs.toNat) * cfg.rateLimitPps.toNat / 10 ^ 9 := by
    rw [refillAdd, refillProduct_of_le st nowNs hR hL, Nat.mod_eq_of_lt hw]
  rw [refillTokens_tokens st nowNs hB, refillTokens_lastTsNs st nowNs hB, hadd]
  simp only [hR, true_and]

theorem refillTokens_exact_below_wrap_one_second :
    (0 < (1000#32).toInt ∧ 0 < (200#32).toInt ∧ (0#64).toNat ≤ (1000000000#64).toNat ∧
      ((1000000000#64).toNat - (0#64).toNat) * (1000#32).toNat < 2 ^ 64) ∧
    (refillTokens ⟨1000#32, 200#32⟩ ⟨0#64, 3#32, 0#32⟩ 1000000000#64).tokens.toNat =
        (if 0 < ((1000000000#64).toNat - (0#64).toNat) * (1000#32).toNat / 10 ^ 9 then
          min ((3#32).toNat + ((1000000000#64).toNat - (0#64).toNat) * (1000#32).toNat / 10 ^ 9)
            (200#32).toNat
        else (3#32).toNat) ∧
      (refillTokens ⟨1000#32, 200#32⟩ ⟨0#64, 3#32, 0#32⟩ 1000000000#64).lastTsNs =
        if 0 < ((1000000000#64).toNat - (0#64).toNat) * (1000#32).toNat / 10 ^ 9 then
          1000000000#64
        else 0#64 :=
  ⟨⟨by decide, by decide, by decide, by decide⟩,
   refillTokens_exact_below_wrap ⟨1000#32, 200#32⟩ (by decide) (by decide) ⟨0#64, 3#32, 0#32⟩
     1000000000#64 (by decide) (by decide)⟩

/-- A clock that goes back by one nanosecond makes `elapsed` wrap to `2^64 - 1`: the drained
entry of `192.168.1.1` is refilled to `burst`, the packet passes, and `last_ts_ns` moves back. -/
theorem tcIngress_backwards_clock_refills :
    (tcIngress ⟨1000#32, 200#32⟩ ⟨RateMap.empty.updateElem 0x0101a8c0#32 ⟨5#64, 0#32, 0#32⟩, []⟩
        (ipv4Frame 0x0101a8c0#32) 4#64 true).1 = tcActOk ∧
    (tcIngress ⟨1000#32, 200#32⟩ ⟨RateMap.empty.updateElem 0x0101a8c0#32 ⟨5#64, 0#32, 0#32⟩, []⟩
        (ipv4Frame 0x0101a8c0#32) 4#64 true).2.rateMap.lookupElem 0x0101a8c0#32 =
      some ⟨4#64, 199#32, 0#32⟩ := by
  decide

/-- After `18446744073709552` ns idle at 1000 packets per second the product wraps to `384`:
the drained entry gets no token and the packet is dropped, where the exact refill would fill
the bucket. -/
theorem tcIngress_refill_product_wraps :
    refillProduct ⟨1000#32, 200#32⟩ ⟨0#64, 0#32, 0#32⟩ 18446744073709552#64 = 384 ∧
    (tcIngress ⟨1000#32, 200#32⟩ ⟨RateMap.empty.updateElem 0x0101a8c0#32 ⟨0#64, 0#32, 0#32⟩, []⟩
        (ipv4Frame 0x0101a8c0#32) 18446744073709552#64 true).1 = tcActShot ∧
    min (0 + 18446744073709552 * 1000 / 10 ^ 9) 200 = 200 := by
  decide

end RateLimiter
