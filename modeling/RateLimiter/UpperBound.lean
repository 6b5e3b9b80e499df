import RateLimiter.Invariants

/-! The rate limit as an upper bound. Over any window `[s, t]`, a source whose entry was
created by its first packet gets at most `burst + ⌈(t - s) * rate / 10^9⌉` of its packets
through, when the clock does not go back. The proof measures an entry at a reference time `x`
by a potential in units of `10^-9` token: `tokens * 10^9`, plus the product `refillProduct`
still owed since `last_ts_ns` (as the code computes it, wrap included), plus `(t - x) * rate`.
One packet never raises it and a packet that passes lowers it by `10^9` (`step_potential`),
moving the reference forward never raises it (`refillProduct_le_add`), and after any packet
less than one token is owed (`step_owed_lt`). So before the window the entry may have saved
any amount of time, but the first packet inside the window leaves it with at most
`burst - 1` tokens and less than one owed token. -/

namespace RateLimiter

/-- How many packets of a trace passed with a clock reading in `[s, t]`. -/
def admittedIn (s t : Nat) (tr : List (Int × BitVec 64)) : Nat :=
  tr.countP fun vx => vx.1 = tcActOk ∧ s ≤ vx.2.toNat ∧ vx.2.toNat ≤ t

theorem admittedIn_cons (s t : Nat) (v : Int) (x : BitVec 64) (tr : List (Int × BitVec 64)) :
    admittedIn s t ((v, x) :: tr) =
      admittedIn s t tr + if v = tcActOk ∧ s ≤ x.toNat ∧ x.toNat ≤ t then 1 else 0 := by
  simp [admittedIn, List.countP_cons]

theorem admittedIn_eq_zero (s t : Nat) (tr : List (Int × BitVec 64))
    (h : ∀ vx ∈ tr, t < vx.2.toNat) : admittedIn s t tr = 0 := by
  simp only [admittedIn, List.countP_eq_zero, decide_eq_true_eq]
  intro vx hvx hin
  have := h vx hvx
  omega

section Potential

variable {cfg : Rodata}

theorem refillProduct_self (st : RateState) : refillProduct cfg st st.lastTsNs = 0 := by
  simp [refillProduct]

theorem refillProduct_firstSeen (y : BitVec 64) : refillProduct cfg (firstSeen cfg y) y = 0 :=
  refillProduct_self (firstSeen cfg y)

theorem refillProduct_congr {st st' : RateState} (h : st'.lastTsNs = st.lastTsNs) (x : BitVec 64) :
    refillProduct cfg st' x = refillProduct cfg st x := by
  simp [refillProduct, h]

/-- The refill of `st` at `y`, as the numbers the rest of the argument needs. -/
theorem refillTokens_facts (hR : 0 < cfg.rateLimitPps.toInt) (hB : 0 < cfg.burst.toInt)
    (st : RateState) (y : BitVec 64) :
    ((refillTokens cfg st y).lastTsNs = y ∧ refillProduct cfg (refillTokens cfg st y) y = 0 ∧
        (refillTokens cfg st y).tokens.toNat =
          min (st.tokens.toNat + refillProduct cfg st y / 10 ^ 9) cfg.burst.toNat ∧
        0 < refillProduct cfg st y / 10 ^ 9) ∨
      (refillTokens cfg st y = st ∧ refillProduct cfg st y < 10 ^ 9) := by
  by_cases hc : 0 < refillAdd cfg st y
  · have hL : (refillTokens cfg st y).lastTsNs = y := by
      simp only [refillTokens_lastTsNs st y hB, hR, hc, and_self, if_true]
    refine .inl ⟨hL, ?_, ?_, hc⟩
    · have : refillProduct cfg (refillTokens cfg st y) (refillTokens cfg st y).lastTsNs = 0 :=
        refillProduct_self _
      rwa [hL] at this
    · rw [refillTokens_tokens st y hB,
        if_pos (show 0 < cfg.rateLimitPps.toInt ∧ 0 < refillAdd cfg st y from ⟨hR, hc⟩)]
      rfl
  · refine .inr ⟨by rw [refillTokens_eq st y hB, if_neg (fun h => hc h.2)], ?_⟩
    unfold refillAdd at hc
    omega

/-- After any packet at `y` from a source with an entry, the entry was refilled at `y` or kept
its `last_ts_ns`, and less than one token is owed at `y`. -/
theorem step_owed_lt (hR : 0 < cfg.rateLimitPps.toInt) (hB : 0 < cfg.burst.toInt)
    (st : RateState) (y : BitVec 64) :
    ((sourceStep cfg (some st) y).2.lastTsNs = y ∨
        (sourceStep cfg (some st) y).2.lastTsNs = st.lastTsNs) ∧
      refillProduct cfg (sourceStep cfg (some st) y).2 y < 10 ^ 9 := by
  simp only [sourceStep, consumeToken_lastTsNs,
    refillProduct_congr (consumeToken_lastTsNs (refillTokens cfg st y))]
  rcases refillTokens_facts hR hB st y with ⟨hL, hP, -⟩ | ⟨hst, hP⟩
  · exact ⟨.inl hL, by omega⟩
  · rw [hst]
    exact ⟨.inr rfl, hP⟩

/-- No packet moves `last_ts_ns` past its own clock reading. -/
theorem lastTsNs_sourceStep_le (hR : 0 < cfg.rateLimitPps.toInt) (hB : 0 < cfg.burst.toInt)
    (st : RateState) {y : BitVec 64} (h : st.lastTsNs.toNat ≤ y.toNat) :
    (sourceStep cfg (some st) y).2.lastTsNs.toNat ≤ y.toNat := by
  rcases (step_owed_lt hR hB st y).1 with h' | h' <;> rw [h']
  exact h

/-- **One packet and the potential.** The tokens of the entry after a packet at `y`, plus what
is owed at `y`, plus one token if the packet passed, are at most what the entry had and owed
before it. -/
theorem step_potential (hR : 0 < cfg.rateLimitPps.toInt) (hB : 0 < cfg.burst.toInt)
    (st : RateState) (y : BitVec 64) :
    (sourceStep cfg (some st) y).2.tokens.toNat * 10 ^ 9 +
        refillProduct cfg (sourceStep cfg (some st) y).2 y +
        (if (sourceStep cfg (some st) y).1 = tcActOk then 10 ^ 9 else 0) ≤
      st.tokens.toNat * 10 ^ 9 + refillProduct cfg st y := by
  have hB1 := toNat_pos_of_toInt_pos hB
  simp only [sourceStep, consumeToken_fst, consumeToken_tokens,
    refillProduct_congr (consumeToken_lastTsNs (refillTokens cfg st y))]
  rcases refillTokens_facts hR hB st y with ⟨-, hP, hk, ha⟩ | ⟨hst, -⟩
  · have hdiv := Nat.div_mul_le_self (refillProduct cfg st y) (10 ^ 9)
    rw [hP, hk]
    split <;> simp_all [tcActOk, tcActShot]; omega
  · rw [hst]
    split <;> simp_all [tcActOk, tcActShot]; omega

end Potential

section Window

variable {cfg : Rodata}

/-- **Inside the window.** From an entry measured at `x`, between its `last_ts_ns` and `t`, the
packets at readings from `x` on that pass with a reading up to `t` are paid by the potential. -/
theorem admittedIn_mul_le_potential (hR : 0 < cfg.rateLimitPps.toInt) (hB : 0 < cfg.burst.toInt)
    (s t : Nat) (st : RateState) (x : BitVec 64) (xs : List (BitVec 64))
    (hL : st.lastTsNs.toNat ≤ x.toNat) (hxt : x.toNat ≤ t) (hxs : ∀ y ∈ xs, x.toNat ≤ y.toNat)
    (hsorted : xs.Pairwise fun a b => a.toNat ≤ b.toNat) :
    admittedIn s t ((sourceRun cfg (some st) xs).1.zip xs) * 10 ^ 9 ≤
      st.tokens.toNat * 10 ^ 9 + refillProduct cfg st x + (t - x.toNat) * cfg.rateLimitPps.toNat := by
  induction xs generalizing st x with
  | nil => simp [admittedIn]
  | cons y ys ih =>
      rw [List.pairwise_cons] at hsorted
      have hxy := hxs y (List.mem_cons_self _ _)
      rw [sourceRun_cons, List.zip_cons_cons, admittedIn_cons]
      by_cases hyt : y.toNat ≤ t
      · have ih' := ih _ y (lastTsNs_sourceStep_le hR hB st (hL.trans hxy)) hyt hsorted.1 hsorted.2
        have hstep := step_potential hR hB st y
        have hwrap := refillProduct_le_add st hR hL hxy
        have hsplit : (t - y.toNat) * cfg.rateLimitPps.toNat +
            (y.toNat - x.toNat) * cfg.rateLimitPps.toNat = (t - x.toNat) * cfg.rateLimitPps.toNat := by
          rw [← Nat.add_mul]
          congr 1
          omega
        split_ifs at hstep ⊢ <;> omega
      · rw [admittedIn_eq_zero s t _ fun vx hvx => ?_]
        · simp only [hyt, and_false, if_false]
          omega
        · have := hsorted.1 _ (List.of_mem_zip hvx).2
          omega

/-- **A window.** Over a source's clock readings in order, from no entry or from an entry with
fewer than `burst` tokens that was last refilled before them, at most
`burst + ⌈(t - s) * rate / 10^9⌉` packets pass with a reading in `[s, t]`. -/
theorem admittedIn_sourceRun_le (hR : 0 < cfg.rateLimitPps.toInt) (hB : 0 < cfg.burst.toInt)
    (s t : Nat) (e : Option RateState) (xs : List (BitVec 64))
    (he : ∀ st, e = some st →
      st.tokens.toNat < cfg.burst.toNat ∧ ∀ y ∈ xs, st.lastTsNs.toNat ≤ y.toNat)
    (hsorted : xs.Pairwise fun a b => a.toNat ≤ b.toNat) :
    admittedIn s t ((sourceRun cfg e xs).1.zip xs) ≤
      cfg.burst.toNat + ((t - s) * cfg.rateLimitPps.toNat + 10 ^ 9 - 1) / 10 ^ 9 := by
  induction xs generalizing e with
  | nil => simp [admittedIn]
  | cons y ys ih =>
      rw [List.pairwise_cons] at hsorted
      rw [sourceRun_cons, List.zip_cons_cons, admittedIn_cons]
      set st' := (sourceStep cfg e y).2
      -- what any packet leaves: refilled no later than `y`, less than a token owed, below `burst`
      have hafter : st'.lastTsNs.toNat ≤ y.toNat ∧ refillProduct cfg st' y < 10 ^ 9 ∧
          st'.tokens.toNat < cfg.burst.toNat := by
        cases e with
        | none => exact ⟨le_rfl, by simp [st', sourceStep, refillProduct_firstSeen],
            sourceStep_tokens_lt hB y (fun _ h => by cases h)⟩
        | some st =>
            obtain ⟨hk, hys⟩ := he st rfl
            have hLy := hys y (List.mem_cons_self _ _)
            exact ⟨lastTsNs_sourceStep_le hR hB st hLy, (step_owed_lt hR hB st y).2,
              sourceStep_tokens_lt hB y (fun _ h => by cases h; exact hk)⟩
      obtain ⟨hL', hP', hk'⟩ := hafter
      by_cases hys : y.toNat < s
      · have := ih (some st') (fun _ h => by
          cases h; exact ⟨hk', fun z hz => hL'.trans (hsorted.1 z hz)⟩) hsorted.2
        have : ¬ s ≤ y.toNat := by omega
        simp only [this, false_and, and_false, if_false]
        omega
      · by_cases hyt : y.toNat ≤ t
        · have hin := admittedIn_mul_le_potential hR hB s t st' y ys hL' hyt hsorted.1 hsorted.2
          have hmono : (t - y.toNat) * cfg.rateLimitPps.toNat ≤ (t - s) * cfg.rateLimitPps.toNat :=
            Nat.mul_le_mul_right _ (by omega)
          split <;> omega
        · rw [admittedIn_eq_zero s t _ fun vx hvx => ?_]
          · simp only [hyt, and_false, if_false]
            omega
          · have := hsorted.1 _ (List.of_mem_zip hvx).2
            omega

end Window

/-- `S`'s first packet, if it sends any, finds room in `rate_map`, and so creates `S`'s entry. -/
def FirstInserted (cfg : Rodata) (S : BitVec 32) (ps : List Packet) : Prop :=
  S ∈ sources ps →
    (runTc cfg BpfMaps.init (ps.takeWhile fun q => parseSaddr q.ctx ≠ some S)).2.rateMap.HasRoom S

instance (cfg : Rodata) (S : BitVec 32) (ps : List Packet) : Decidable (FirstInserted cfg S ps) :=
  inferInstanceAs (Decidable (_ → _))

/-- When `S`'s first packet creates its entry, `S`'s view of a run from the maps as loaded is
`sourceRun` from no entry, whatever the other packets. -/
theorem sourceTrace_runTc_init (cfg : Rodata) (S : BitVec 32) (ps : List Packet)
    (h : FirstInserted cfg S ps) :
    sourceTrace S (runTc cfg BpfMaps.init ps).1 ps =
      (sourceRun cfg none (sourceTimes S ps)).1.zip (sourceTimes S ps) := by
  cases hf : ps.find? (fun q => parseSaddr q.ctx = some S) with
  | none =>
      have hno : ∀ q ∈ ps, parseSaddr q.ctx ≠ some S := by simpa using List.find?_eq_none.1 hf
      rw [(runTc_of_no_source cfg S _ ps hno).1, sourceTimes_eq_nil S hno]
      rfl
  | some p =>
      obtain ⟨hp, pre, post, rfl, hpre⟩ := List.find?_eq_some.1 hf
      simp only [decide_eq_true_eq, Bool.not_eq_true', decide_eq_false_iff_not] at hp hpre
      have htw : (pre ++ p :: post).takeWhile (fun q => parseSaddr q.ctx ≠ some S) = pre := by
        rw [List.takeWhile_append_of_pos (by simpa using hpre),
          List.takeWhile_cons_of_neg (by simpa using hp), List.append_nil]
      have hroom := h (List.mem_filterMap.2 ⟨p, List.mem_append_right _ (List.mem_cons_self _ _), hp⟩)
      rw [htw] at hroom
      obtain ⟨hpre₁, hpre₂⟩ := runTc_of_no_source cfg S BpfMaps.init pre hpre
      set m := (runTc cfg BpfMaps.init pre).2
      have hm : m.rateMap.lookupElem S = none := hpre₂
      have hp₁ := lookupElem_tcIngress_of_eq cfg m p.ctx p.nowNs p.reserved hp hroom
      rw [hm] at hp₁
      have hview := (sourceTrace_runTc cfg S _ post (.inl (by rw [hp₁]; rfl))).1
      rw [hp₁] at hview
      rw [runTc_append, sourceTrace_append S (length_runTc _ _ _), hpre₁, runTc_cons,
        sourceTrace_cons, if_pos hp, hview, fst_tcIngress_of_eq cfg m p.ctx p.nowNs p.reserved hp, hm,
        sourceTimes_append, sourceTimes_eq_nil S hpre, sourceTimes_cons, if_pos hp]
      rfl

theorem sourceTimes_sorted (S : BitVec 32) {ps : List Packet}
    (h : ps.Pairwise fun p q => p.nowNs ≤ q.nowNs) :
    (sourceTimes S ps).Pairwise fun a b => a.toNat ≤ b.toNat := by
  refine h.filterMap _ fun p q hpq a ha b hb => ?_
  split at ha <;> split at hb <;> simp_all [BitVec.le_def]

/-- **Rate-limit upper bound.** With a positive rate `R` and burst `B`, in every run whose clock
readings never go back, a source whose first packet created its entry gets at most
`B + ⌈(t - s) * R / 10^9⌉` of its packets with a reading in `[s, t]` through, whatever the other
sources send and whatever the refills' products wrap to. -/
theorem admitted_in_window_le (cfg : Rodata) (hR : 0 < cfg.rateLimitPps.toInt)
    (hB : 0 < cfg.burst.toInt) (S : BitVec 32) (ps : List Packet)
    (hsorted : ps.Pairwise fun p q => p.nowNs ≤ q.nowNs) (hfirst : FirstInserted cfg S ps)
    (s t : Nat) :
    admittedIn s t (sourceTrace S (runTc cfg BpfMaps.init ps).1 ps) ≤
      cfg.burst.toNat + ((t - s) * cfg.rateLimitPps.toNat + 10 ^ 9 - 1) / 10 ^ 9 := by
  rw [sourceTrace_runTc_init cfg S ps hfirst]
  exact admittedIn_sourceRun_le hR hB s t none _ (fun _ h => by cases h) (sourceTimes_sorted S hsorted)

theorem admitted_in_window_le_burst_of_three :
    (0 < (1000#32).toInt ∧ 0 < (2#32).toInt ∧
      [(⟨ipv4Frame 0x0101a8c0#32, 0#64, true⟩ : Packet), ⟨ipv4Frame 0x0201a8c0#32, 0#64, true⟩,
        ⟨ipv4Frame 0x0101a8c0#32, 0#64, true⟩, ⟨ipv4Frame 0x0101a8c0#32, 0#64, true⟩].Pairwise
        (fun p q => p.nowNs ≤ q.nowNs) ∧
      FirstInserted ⟨1000#32, 2#32⟩ 0x0101a8c0#32
        [⟨ipv4Frame 0x0101a8c0#32, 0#64, true⟩, ⟨ipv4Frame 0x0201a8c0#32, 0#64, true⟩,
          ⟨ipv4Frame 0x0101a8c0#32, 0#64, true⟩, ⟨ipv4Frame 0x0101a8c0#32, 0#64, true⟩]) ∧
    admittedIn 0 0 (sourceTrace 0x0101a8c0#32 (runTc ⟨1000#32, 2#32⟩ BpfMaps.init
        [⟨ipv4Frame 0x0101a8c0#32, 0#64, true⟩, ⟨ipv4Frame 0x0201a8c0#32, 0#64, true⟩,
          ⟨ipv4Frame 0x0101a8c0#32, 0#64, true⟩, ⟨ipv4Frame 0x0101a8c0#32, 0#64, true⟩]).1
        [⟨ipv4Frame 0x0101a8c0#32, 0#64, true⟩, ⟨ipv4Frame 0x0201a8c0#32, 0#64, true⟩,
          ⟨ipv4Frame 0x0101a8c0#32, 0#64, true⟩, ⟨ipv4Frame 0x0101a8c0#32, 0#64, true⟩]) ≤
      (2#32).toNat + ((0 - 0) * (1000#32).toNat + 10 ^ 9 - 1) / 10 ^ 9 :=
  ⟨⟨by decide, by decide, by decide, by decide⟩,
   admitted_in_window_le ⟨1000#32, 2#32⟩ (by decide) (by decide) 0x0101a8c0#32 _ (by decide)
     (by decide) 0 0⟩

end RateLimiter
